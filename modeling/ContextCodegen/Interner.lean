/-! Texts numbered by first occurrence. One table leads from texts to numbers and one from numbers
to texts, and an interner keeps each the inverse of the other. Numbers do not run out: no text is
refused for the size of its number. -/
namespace ContextCodegen

/-- The number of an interned text. -/
abbrev Symbol := Nat

structure NameTables where
  numbers : List (String × Symbol) := []
  texts : Array String := #[]
  deriving DecidableEq, Repr

namespace NameTables

variable {t : NameTables} {s x : String} {n : Symbol}

def number? (t : NameTables) (s : String) : Option Symbol := t.numbers.lookup s

def text? (t : NameTables) (n : Symbol) : Option String := t.texts[n]?

def size (t : NameTables) : Nat := t.texts.size

/-- The number of a text, which is entered into both tables if it is new. -/
def intern (t : NameTables) (s : String) : Symbol × NameTables :=
  match t.number? s with
  | some n => (n, t)
  | none =>
    let ⟨numbers, texts⟩ := t
    (texts.size, ⟨(s, texts.size) :: numbers, texts.push s⟩)

/-- Each table undoes the other. -/
def Inverse (t : NameTables) : Prop := ∀ s n, t.number? s = some n ↔ t.text? n = some s

theorem inverse_empty : Inverse {} := by
  intro s n
  simp [number?, text?]

theorem intern_of_some (h : t.number? s = some n) : t.intern s = (n, t) := by
  simp only [intern, h]

theorem intern_of_none (h : t.number? s = none) :
    t.intern s = (t.size, ⟨(s, t.size) :: t.numbers, t.texts.push s⟩) := by
  simp only [intern, h, size]

/-- Entering a text that has no number keeps the tables inverse. -/
theorem Inverse.enter (h : t.Inverse) (new : t.number? s = none) :
    Inverse ⟨(s, t.size) :: t.numbers, t.texts.push s⟩ := by
  intro x n
  have hold : t.numbers.lookup x = some n ↔ t.texts[n]? = some x := h x n
  simp only [number?, text?, Array.getElem?_push]
  by_cases hx : x = s
  · subst hx
    have hunnumbered : t.texts[n]? ≠ some x := fun hn => nomatch new.symm.trans (hold.mpr hn)
    rw [List.lookup_cons_self, Option.some.injEq]
    split
    · rename_i hn
      simp [hn, size]
    · rename_i hn
      exact iff_of_false (Ne.symm hn) hunnumbered
  · rw [List.lookup_cons, beq_false_of_ne hx]
    refine hold.trans ?_
    split
    · rename_i hn
      simp [hn, Ne.symm hx]
    · rfl

theorem Inverse.intern (h : t.Inverse) (s : String) : (t.intern s).2.Inverse := by
  cases hs : t.number? s with
  | some n => rwa [intern_of_some hs]
  | none =>
    rw [intern_of_none hs]
    exact h.enter hs

end NameTables

structure Interner extends NameTables where
  inverse : toNameTables.Inverse := by exact NameTables.inverse_empty
  deriving DecidableEq, Repr

instance : Inhabited Interner := ⟨{}⟩

namespace Interner

def intern (t : Interner) (s : String) : Symbol × Interner :=
  let entered := t.toNameTables.intern s
  (entered.1, ⟨entered.2, t.inverse.intern s⟩)

end Interner

end ContextCodegen
