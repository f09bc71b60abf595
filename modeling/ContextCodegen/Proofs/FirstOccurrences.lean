import Mathlib.Data.Finset.Card
import ContextCodegen.Proofs.Storage

/-! Texts interned one after another. The number of each counts the distinct texts that occurred before it
did. The two tables stay inverse to each other all the way, and answer as a search of the texts does. -/
namespace ContextCodegen

section Occurrences

variable {ss : List String} {s x : String}

/-- The distinct texts that first occur in the list before `s` does. -/
def earlier (ss : List String) (s : String) : Finset String :=
  ss.toFinset.filter fun x => ss.idxOf x < ss.idxOf s

/-- What follows the first occurrence of a text leaves the earlier ones as they are. -/
theorem earlier_append (hs : s ∈ ss) (later : List String) : earlier (ss ++ later) s = earlier ss s := by
  have hplace : (ss ++ later).idxOf s = ss.idxOf s := List.idxOf_append_of_mem hs
  have hlt : ss.idxOf s < ss.length := List.idxOf_lt_length_iff.mpr hs
  ext x
  simp only [earlier, Finset.mem_filter, List.mem_toFinset, List.mem_append, hplace]
  by_cases hx : x ∈ ss
  · simp only [hx, true_or, List.idxOf_append_of_mem hx]
  · have hbehind : ¬(ss ++ later).idxOf x < ss.idxOf s := by
      rw [List.idxOf_append_of_notMem hx]
      omega
    simp only [hx, hbehind, and_false, false_and]

theorem earlier_concat_new (hs : s ∉ ss) : earlier (ss ++ [s]) s = ss.toFinset := by
  have hplace : (ss ++ [s]).idxOf s = ss.length := by
    rw [List.idxOf_append_of_notMem hs, List.idxOf_cons_self, Nat.add_zero]
  ext x
  simp only [earlier, Finset.mem_filter, List.mem_toFinset, hplace]
  constructor
  · rintro ⟨hx, hlt⟩
    by_contra hnew
    rw [List.idxOf_append_of_notMem hnew] at hlt
    omega
  · intro hx
    rw [List.idxOf_append_of_mem hx]
    exact ⟨List.mem_append_left _ hx, List.idxOf_lt_length_iff.mpr hx⟩

end Occurrences

section Interning

variable {σ ρ : Type}

def internAll (intern : σ → String → Symbol × σ) (t : σ) : List String → List Symbol × σ
  | [] => ([], t)
  | s :: rest =>
    let (n, t) := intern t s
    let (ns, t) := internAll intern t rest
    (n :: ns, t)

theorem internAll_cons (intern : σ → String → Symbol × σ) (t : σ) (s : String) (rest : List String) :
    internAll intern t (s :: rest) =
      ((intern t s).1 :: (internAll intern (intern t s).2 rest).1, (internAll intern (intern t s).2 rest).2) := rfl

/-- Where `view` keeps step with one text, it does so with all of them. -/
theorem internAll_view {f : σ → String → Symbol × σ} {g : ρ → String → Symbol × ρ} (view : σ → ρ)
    (step : ∀ t s, g (view t) s = ((f t s).1, view (f t s).2)) (t : σ) (ss : List String) :
    internAll g (view t) ss = ((internAll f t ss).1, view (internAll f t ss).2) := by
  induction ss generalizing t with
  | nil => rfl
  | cons s rest ih => rw [internAll_cons, internAll_cons, step, ih]

/-- Interning into a single table of texts, which is searched for each of them. -/
def searchOrPush (texts : Array String) (s : String) : Symbol × Array String :=
  match texts.idxOf? s with
  | some n => (n, texts)
  | none => (texts.size, texts.push s)

end Interning

namespace NameTables

variable {t : NameTables} {ss : List String} {s : String}

def answers (ss : List String) : List Symbol := (internAll intern {} ss).1

def after (ss : List String) : NameTables := (internAll intern {} ss).2

/-- The texts of the list, and no others, have numbers, and the number of each counts the distinct texts
before it. -/
structure Numbers (t : NameTables) (ss : List String) : Prop where
  inverse : t.Inverse
  text : ∀ n s, t.text? n = some s ↔ s ∈ ss ∧ (earlier ss s).card = n
  size : t.size = ss.toFinset.card

section Steps

theorem text?_push_eq_some_iff {numbers : List (String × Symbol)} {n : Symbol} {x : String} :
    text? ⟨numbers, t.texts.push s⟩ n = some x ↔ t.text? n = some x ∨ s = x ∧ t.size = n := by
  simp only [text?, NameTables.size, Array.getElem?_push]
  by_cases hn : n = t.texts.size
  · simp [hn]
  · simp [hn, Ne.symm hn]

theorem Numbers.concat_old (h : t.Numbers ss) (hs : s ∈ ss) : t.Numbers (ss ++ [s]) := by
  have hmem (x : String) : x ∈ ss ++ [s] ↔ x ∈ ss := by
    rw [List.mem_append, List.mem_singleton]
    exact ⟨fun hx => hx.elim id fun he => he ▸ hs, .inl⟩
  refine ⟨h.inverse, ?_, ?_⟩
  · intro n x
    rw [h.text, hmem]
    exact and_congr_right fun hx => by rw [earlier_append hx]
  · rw [h.size]
    congr 1
    ext x
    rw [List.mem_toFinset, List.mem_toFinset, hmem]

theorem Numbers.concat_new (h : t.Numbers ss) (new : t.number? s = none) (hs : s ∉ ss) :
    Numbers ⟨(s, t.size) :: t.numbers, t.texts.push s⟩ (ss ++ [s]) := by
  refine ⟨h.inverse.enter new, ?_, ?_⟩
  · intro n x
    rw [text?_push_eq_some_iff, h.text, h.size, List.mem_append, List.mem_singleton]
    by_cases hx : x = s
    · subst hx
      rw [earlier_concat_new hs]
      simp [hs]
    · -- Any other text has the number it had before, or none.
      by_cases hold : x ∈ ss
      · simp [hold, earlier_append hold, Ne.symm hx]
      · simp [hold, hx, Ne.symm hx]
  · have hinsert : (ss ++ [s]).toFinset = insert s ss.toFinset := by
      ext x
      simp
    rw [hinsert, Finset.card_insert_of_notMem (mt List.mem_toFinset.mp hs), ← h.size]
    exact Array.size_push s

theorem Numbers.intern (h : t.Numbers ss) (s : String) : (t.intern s).2.Numbers (ss ++ [s]) := by
  cases hs : t.number? s with
  | some n =>
    rw [intern_of_some hs]
    exact h.concat_old ((h.text n s).mp ((h.inverse s n).mp hs)).1
  | none =>
    have hnew : s ∉ ss := by
      intro hmem
      have hnumber := (h.inverse s _).mpr ((h.text _ s).mpr ⟨hmem, rfl⟩)
      exact nomatch hs.symm.trans hnumber
    rw [intern_of_none hs]
    exact h.concat_new hs hnew

/-- A search of the texts finds what the table of numbers has. -/
theorem Inverse.idxOf?_eq (h : t.Inverse) (s : String) : t.texts.idxOf? s = t.number? s := by
  cases hs : t.texts.idxOf? s with
  | some n =>
    obtain ⟨i, hi, rfl⟩ := Option.map_eq_some_iff.mp hs
    have htext : t.text? i = some s :=
      Array.getElem?_eq_some_iff.mpr ⟨i.isLt, (Array.finIdxOf?_eq_some_iff.mp hi).1⟩
    exact ((h s i).mpr htext).symm
  | none =>
    have hnew := Array.idxOf?_eq_none_iff.mp hs
    refine (Option.eq_none_iff_forall_ne_some.mpr fun n hn => ?_).symm
    exact hnew (Array.mem_iff_getElem?.mpr ⟨n, (h s n).mp hn⟩)

theorem Inverse.searchOrPush_eq (h : t.Inverse) (s : String) :
    searchOrPush t.texts s = ((t.intern s).1, (t.intern s).2.texts) := by
  rw [searchOrPush, h.idxOf?_eq]
  cases hs : t.number? s with
  | some n => rw [intern_of_some hs]
  | none =>
    rw [intern_of_none hs]
    rfl

end Steps

section Runs

theorem numbers_empty : Numbers {} [] := ⟨inverse_empty, by simp [text?], rfl⟩

/-- The numbers that are handed out on the way are those that the texts have in the end. -/
theorem Numbers.internAll (h : t.Numbers ss) (more : List String) :
    (internAll NameTables.intern t more).1 = more.map (fun s => (earlier (ss ++ more) s).card) ∧
      (internAll NameTables.intern t more).2.Numbers (ss ++ more) := by
  induction more generalizing t ss with
  | nil => exact ⟨rfl, by rwa [List.append_nil]⟩
  | cons s rest ih =>
    have hnext := h.intern s
    obtain ⟨hanswers, hall⟩ := ih hnext
    -- The invariant counts among the texts up to `s`; the rest does not change that count.
    have hfirst := ((hnext.text _ s).mp (h.inverse.text?_intern s)).2
    have hmem : s ∈ ss ++ [s] := List.mem_append_right _ List.mem_cons_self
    rw [← earlier_append hmem rest] at hfirst
    rw [List.append_assoc, List.singleton_append] at hanswers hall hfirst
    rw [internAll_cons, List.map_cons, hfirst]
    exact ⟨congrArg _ hanswers, hall⟩

theorem numbers_after (ss : List String) : (after ss).Numbers ss := (numbers_empty.internAll ss).2

theorem answers_eq (ss : List String) : answers ss = ss.map fun s => (earlier ss s).card :=
  (numbers_empty.internAll ss).1

theorem answers_append (ss later : List String) :
    answers (ss ++ later) = answers ss ++ later.map fun s => (earlier (ss ++ later) s).card := by
  rw [answers_eq, answers_eq, List.map_append]
  congr 1
  exact List.map_congr_left fun s hs => by rw [earlier_append hs]

/-- Whatever is interned later, a number that was handed out leads back to its text. -/
theorem map_text?_answers (ss later : List String) :
    (answers ss).map (after (ss ++ later)).text? = ss.map some := by
  rw [answers_eq, List.map_map]
  apply List.map_congr_left
  intro s hs
  rw [Function.comp_apply, (numbers_after (ss ++ later)).text, earlier_append hs]
  exact ⟨List.mem_append_left later hs, rfl⟩

theorem card_earlier_inj {x y : String} (hx : x ∈ ss) (hy : y ∈ ss) :
    (earlier ss x).card = (earlier ss y).card ↔ x = y := by
  refine ⟨fun h => ?_, fun h => by rw [h]⟩
  have htext := ((numbers_after ss).text _ x).mpr ⟨hx, rfl⟩
  rw [((numbers_after ss).text _ y).mpr ⟨hy, h.symm⟩] at htext
  exact (Option.some.inj htext).symm

theorem getElem?_answers_eq_iff (ss : List String) (i j : Nat) :
    (answers ss)[i]? = (answers ss)[j]? ↔ ss[i]? = ss[j]? := by
  rw [answers_eq, List.getElem?_map, List.getElem?_map]
  cases hi : ss[i]? with
  | none => simp [eq_comm]
  | some x =>
    cases hj : ss[j]? with
    | none => simp
    | some y =>
      rw [Option.map_some, Option.map_some, Option.some_inj, Option.some_inj]
      exact card_earlier_inj (List.mem_of_getElem? hi) (List.mem_of_getElem? hj)

end Runs

end NameTables

namespace Interner

theorem internAll_eq (t : Interner) (ss : List String) :
    internAll NameTables.intern t.toNameTables ss =
      ((internAll intern t ss).1, (internAll intern t ss).2.toNameTables) :=
  internAll_view toNameTables (fun _ _ => rfl) t ss

/-- An interner gives the numbers that a search of its texts gives. -/
theorem internAll_searchOrPush (t : Interner) (ss : List String) :
    internAll searchOrPush t.texts ss = ((internAll intern t ss).1, (internAll intern t ss).2.texts) :=
  internAll_view (fun t : Interner => t.texts) (fun t s => t.inverse.searchOrPush_eq s) t ss

open NameTables (answers after)

/-- Empty tables number texts by first occurrence. Each gets the count of the distinct texts that first
occur before it, the number leads back to the text from then on, and equal numbers are those of equal texts.
As many texts are held as there are distinct ones, and each table stays the inverse of the other. An interner
ends with these tables, and a search of a single table of texts gives the same numbers. -/
theorem symbols_count_first_occurrences (ss : List String) :
    answers ss = ss.map (fun s => (earlier ss s).card) ∧
      (∀ later, answers ss <+: answers (ss ++ later) ∧
        (answers ss).map (after (ss ++ later)).text? = ss.map some) ∧
      (∀ i j : Nat, (answers ss)[i]? = (answers ss)[j]? ↔ ss[i]? = ss[j]?) ∧
      (after ss).size = ss.toFinset.card ∧
      (∀ s n, (after ss).number? s = some n ↔ (after ss).text? n = some s) ∧
      (internAll intern {} ss).1 = answers ss ∧ (internAll intern {} ss).2.toNameTables = after ss ∧
      internAll searchOrPush #[] ss = (answers ss, (after ss).texts) := by
  have htables : (answers ss, after ss) = _ := internAll_eq {} ss
  obtain ⟨hanswers, hafter⟩ := Prod.mk.inj htables
  refine ⟨NameTables.answers_eq ss, fun later => ⟨?_, NameTables.map_text?_answers ss later⟩,
    NameTables.getElem?_answers_eq_iff ss, (NameTables.numbers_after ss).size,
    (NameTables.numbers_after ss).inverse, hanswers.symm, hafter.symm, ?_⟩
  · rw [NameTables.answers_append]
    exact List.prefix_append _ _
  · rw [hanswers, hafter]
    exact internAll_searchOrPush {} ss

example : answers ["b", "a", "b", "", "a", "B"] = [0, 1, 0, 2, 1, 3] := by decide +kernel

end Interner

end ContextCodegen
