import Mathlib.Data.List.Perm.Subperm
import ContextCodegen.Proofs.PartialRegistries
import ContextCodegen.Unit.Basic

/-! Which units pass their checks, and what is wrong with the others. The checks are made one after the
other; each is stated by itself, and the error is that of the first one that fails. -/
namespace ContextCodegen

section Names

def NameStart (c : Char) : Prop := ('a' ≤ c ∧ c ≤ 'z') ∨ ('A' ≤ c ∧ c ≤ 'Z') ∨ c = '_' ∨ c = '$'

def NamePart (c : Char) : Prop := NameStart c ∨ ('0' ≤ c ∧ c ≤ '9')

structure IsName (s : String) : Prop where
  spelled : ∃ c cs, s.toList = c :: cs ∧ NameStart c ∧ ∀ d ∈ cs, NamePart d
  free : s ∉ reservedWords

def IsDottedName (s : String) : Prop := ∀ segment ∈ s.toList.splitOn '.', IsName (String.ofList segment)

private theorem isIdentifierStart_iff (c : Char) : isIdentifierStart c = true ↔ NameStart c := by
  rw [isIdentifierStart, Bool.or_eq_true, Bool.or_eq_true, isAlpha_iff, beq_iff_eq, beq_iff_eq, NameStart,
    or_assoc, or_assoc]

private theorem isIdentifierPart_iff (c : Char) : isIdentifierPart c = true ↔ NamePart c := by
  have hpart : isIdentifierPart c = (c.isAlpha || c.isDigit || c == '_' || c == '$') := rfl
  have hstart : isIdentifierStart c = (c.isAlpha || c == '_' || c == '$') := rfl
  rw [NamePart, ← isIdentifierStart_iff, ← isDigit_iff, hpart, hstart]
  simp only [Bool.or_eq_true, or_assoc, or_comm, or_left_comm]

theorem isIdentifier_iff (s : String) : isIdentifier s = true ↔ IsName s := by
  unfold isIdentifier
  cases hs : s.toList with
  | nil =>
    refine iff_of_false Bool.false_ne_true ?_
    rintro ⟨⟨c, cs, hc, -⟩, -⟩
    cases hs.symm.trans hc
  | cons c cs =>
    have hfree : (!reservedWords.contains s) = true ↔ s ∉ reservedWords := by simp
    have hall : cs.all isIdentifierPart = true ↔ ∀ d ∈ cs, NamePart d := by
      simp only [List.all_eq_true, isIdentifierPart_iff]
    simp only [Bool.and_eq_true, isIdentifierStart_iff, hall, hfree]
    constructor
    · rintro ⟨⟨hc, hcs⟩, hr⟩
      exact ⟨⟨c, cs, hs, hc, hcs⟩, hr⟩
    · rintro ⟨⟨d, ds, hd, hc, hcs⟩, hr⟩
      obtain ⟨rfl, rfl⟩ := List.cons.inj (hs.symm.trans hd)
      exact ⟨⟨hc, hcs⟩, hr⟩

private theorem not_isIdentifier_iff {s : String} : (!isIdentifier s) = true ↔ ¬ IsName s := by
  rw [Bool.not_eq_true', ← Bool.not_eq_true, isIdentifier_iff]

private theorem segments_eq (cs : List Char) : segments cs = cs.splitOn '.' := by
  induction cs with
  | nil => rfl
  | cons c cs ih =>
    rw [segments, List.splitOn_cons_eq_if_modifyHead, ih]
    by_cases hc : c = '.'
    · simp [hc]
    · cases hs : cs.splitOn '.' with
      | nil => exact absurd hs (List.splitOn_ne_nil _ _)
      | cons s rest => simp [hc]

private theorem not_isPackageName_iff {s : String} : (!isPackageName s) = true ↔ ¬ IsDottedName s := by
  have hall : isPackageName s = true ↔ IsDottedName s := by
    simp only [isPackageName, IsDottedName, List.all_eq_true, segments_eq, isIdentifier_iff]
  rw [Bool.not_eq_true', ← Bool.not_eq_true, hall]

end Names

namespace CompileUnit

/-- A check of a unit; those of a function are made for the function at an index. -/
inductive Check where
  | registry
  | className
  | package
  | functionName (i : Nat)
  | duplicate (i : Nat)
  | root (i : Nat)

def Check.place : Check → Nat
  | .registry => 0
  | .className => 1
  | .package => 2
  | .functionName i => 3 * i + 3
  | .duplicate i => 3 * i + 4
  | .root i => 3 * i + 5

/-- The check fails with the error. -/
inductive Faulty (u : CompileUnit) (r : Registry) (o : UnitOptions) : Check → CompileError → Prop
  | registry {missing : List NodeKind} : missing ≠ [] → missing.Sublist NodeKind.all →
      (∀ k, k ∈ missing ↔ r.factory? k = none) → Faulty u r o .registry (.incompleteRegistry missing)
  | className : ¬ IsName o.className → Faulty u r o .className (.invalidName .className o.className)
  | package {p : String} : o.package = some p → ¬ IsDottedName p →
      Faulty u r o .package (.invalidName .packageName p)
  | functionName {i : Nat} {f : Function} : u.functions[i]? = some f → ¬ IsName f.name →
      Faulty u r o (.functionName i) (.invalidName .functionName f.name)
  | duplicate {i j : Nat} {f g : Function} : u.functions[i]? = some f → j < i → u.functions[j]? = some g →
      g.name = f.name → Faulty u r o (.duplicate i) (.duplicateFunction f.name)
  | root {i : Nat} {f : Function} : u.functions[i]? = some f → u.arena.size ≤ f.root →
      Faulty u r o (.root i) (.unknownRoot f.name f.root)

/-- What a unit has to be to pass its checks. -/
structure Valid (u : CompileUnit) (r : Registry) (o : UnitOptions) : Prop where
  registered : ∀ k, (r.factory? k).isSome = true
  className : IsName o.className
  package : ∀ p ∈ o.package, IsDottedName p
  names : ∀ f ∈ u.functions, IsName f.name
  distinct : (u.functions.map (·.name)).Nodup
  roots : ∀ f ∈ u.functions, f.root < u.arena.size

variable {u : CompileUnit} {r : Registry} {o : UnitOptions}

section Order

private theorem Check.place_inj {k l : Check} (h : k.place = l.place) : k = l := by
  cases k <;> cases l <;> simp [Check.place] at h ⊢ <;> omega

private theorem mem_missingKinds {k : NodeKind} : k ∈ r.missingKinds ↔ r.factory? k = none := by
  simp [Registry.missingKinds, Registry.contains, NodeKind.mem_all]

private theorem eq_missingKinds {missing : List NodeKind} (hs : missing.Sublist NodeKind.all)
    (hm : ∀ k, k ∈ missing ↔ r.factory? k = none) : missing = r.missingKinds := by
  have hfilter : missing.filter (fun k => !r.contains k) = missing := by
    rw [List.filter_eq_self]
    intro k hk
    exact (List.mem_filter.mp (mem_missingKinds.mpr ((hm k).mp hk))).2
  have hsub := hs.filter fun k => !r.contains k
  rw [hfilter] at hsub
  apply hsub.eq_of_length_le
  have hsubset : r.missingKinds ⊆ missing := fun k hk => (hm k).mpr (mem_missingKinds.mp hk)
  have hnodup : r.missingKinds.Nodup := List.Pairwise.filter _ (by decide)
  exact (List.subperm_of_subset hnodup hsubset).length_le

theorem Faulty.unique {k : Check} {d e : CompileError} (hd : Faulty u r o k d) (he : Faulty u r o k e) :
    d = e := by
  cases hd with
  | registry _ hs hm =>
    cases he with
    | registry _ hs' hm' => rw [eq_missingKinds hs hm, eq_missingKinds hs' hm']
  | className _ =>
    cases he
    rfl
  | package hp _ =>
    cases he with
    | package hp' _ => rw [Option.some.inj (hp.symm.trans hp')]
  | functionName hf _ =>
    cases he with
    | functionName hf' _ => rw [Option.some.inj (hf.symm.trans hf')]
  | duplicate hf _ _ _ =>
    cases he with
    | duplicate hf' _ _ _ => rw [Option.some.inj (hf.symm.trans hf')]
  | root hf _ =>
    cases he with
    | root hf' _ => rw [Option.some.inj (hf.symm.trans hf')]

/-- The outcome of the checks from a place on: no check fails, or the error is that of the first
one that does. -/
def Decides (u : CompileUnit) (r : Registry) (o : UnitOptions) (n : Nat) : Except CompileError Unit → Prop
  | .ok () => ∀ k e, n ≤ k.place → ¬ Faulty u r o k e
  | .error e => ∃ k, Faulty u r o k e ∧ n ≤ k.place ∧
      ∀ l d, n ≤ l.place → l.place < k.place → ¬ Faulty u r o l d

private theorem decides_here {n : Nat} {e : CompileError} {k : Check} (hf : Faulty u r o k e)
    (hk : k.place = n) : Decides u r o n (.error e) := by
  refine ⟨k, hf, Nat.le_of_eq hk.symm, ?_⟩
  intro l d hl hlt
  omega

private theorem Decides.after {n : Nat} {x : Except CompileError Unit} {k : Check}
    (h : Decides u r o (n + 1) x) (hk : k.place = n) (hf : ∀ e, ¬ Faulty u r o k e) : Decides u r o n x := by
  have passes {l : Check} {d : CompileError} (hl : n ≤ l.place) (hd : Faulty u r o l d) :
      n + 1 ≤ l.place := by
    rcases Nat.lt_or_eq_of_le hl with hlt | heq
    · exact hlt
    · cases Check.place_inj (hk.trans heq)
      exact absurd hd (hf d)
  cases x with
  | ok _ =>
    intro l d hl hd
    exact h l d (passes hl hd) hd
  | error e =>
    obtain ⟨l, hl, hle, hfirst⟩ := h
    refine ⟨l, hl, by omega, ?_⟩
    intro m d hm hlt hd
    exact hfirst m d (passes hm hd) hlt hd

end Order

section Checks

/-- The functions are checked in order, each for its name, its place among those before it and its root. -/
private theorem decides_functions (before fs : List Function) (seen : List String)
    (hu : u.functions = before ++ fs) (hseen : ∀ x, x ∈ seen ↔ ∃ g ∈ before, g.name = x) :
    Decides u r o (3 * before.length + 3) (validateFunctions u.arena.size seen fs) := by
  induction fs generalizing before seen with
  | nil =>
    rw [List.append_nil] at hu
    intro k e hk hf
    have inside {i : Nat} {f : Function} (hi : u.functions[i]? = some f) : i < before.length := by
      rw [hu] at hi
      exact (List.getElem?_eq_some_iff.mp hi).1
    cases hf with
    | registry | className | package =>
      simp only [Check.place] at hk
      omega
    | functionName hi _ | duplicate hi _ _ _ | root hi _ =>
      have := inside hi
      simp only [Check.place] at hk
      omega
  | cons f fs ih =>
    have hat : u.functions[before.length]? = some f := by simp [hu]
    have here {g : Function} (hg : u.functions[before.length]? = some g) : f = g :=
      Option.some.inj (hat.symm.trans hg)
    have named (h : IsName f.name) : ∀ e, ¬ Faulty u r o (.functionName before.length) e := by
      rintro e (_ | _ | _ | ⟨hg, hn⟩)
      cases here hg
      exact hn h
    have alone (h : f.name ∉ seen) : ∀ e, ¬ Faulty u r o (.duplicate before.length) e := by
      rintro e (_ | _ | _ | _ | ⟨hg, hlt, hj, hsame⟩)
      cases here hg
      rw [hu, List.getElem?_append_left hlt] at hj
      exact h ((hseen _).mpr ⟨_, List.mem_of_getElem? hj, hsame⟩)
    have rooted (h : ¬ u.arena.size ≤ f.root) : ∀ e, ¬ Faulty u r o (.root before.length) e := by
      rintro e (_ | _ | _ | _ | _ | ⟨hg, hle⟩)
      cases here hg
      exact h hle
    unfold validateFunctions
    simp only [List.contains_iff_mem]
    split_ifs with hname hdup hroot <;> rw [not_isIdentifier_iff] at hname
    · exact decides_here (.functionName hat hname) rfl
    · apply Decides.after _ rfl (named (not_not.mp hname))
      obtain ⟨g, hg, hsame⟩ := (hseen f.name).mp hdup
      obtain ⟨j, hj⟩ := List.getElem?_of_mem hg
      have hlt := (List.getElem?_eq_some_iff.mp hj).1
      have hearlier : u.functions[j]? = some g := by rw [hu, List.getElem?_append_left hlt, hj]
      exact decides_here (.duplicate hat hlt hearlier hsame) rfl
    · apply Decides.after _ rfl (named (not_not.mp hname))
      apply Decides.after _ rfl (alone hdup)
      exact decides_here (.root hat hroot) rfl
    · apply Decides.after _ rfl (named (not_not.mp hname))
      apply Decides.after _ rfl (alone hdup)
      apply Decides.after _ rfl (rooted hroot)
      have hseen' : ∀ x, x ∈ f.name :: seen ↔ ∃ g ∈ before ++ [f], g.name = x := by
        intro x
        simp only [List.mem_cons, hseen, List.mem_append, or_and_right, exists_or,
          exists_eq_left, List.not_mem_nil, or_false]
        rw [or_comm, eq_comm]
      have hrest := ih (before ++ [f]) (f.name :: seen) (by simp [hu]) hseen'
      rwa [List.length_append, List.length_singleton, Nat.mul_add] at hrest

private theorem registered (h : ¬ r.missingKinds ≠ []) : ∀ e, ¬ Faulty u r o .registry e := by
  rintro e ⟨hne, hs, hm⟩
  rw [eq_missingKinds hs hm] at hne
  exact h hne

/-- The outcome of validation is that of all checks. -/
theorem decides_validate (u : CompileUnit) (r : Registry) (o : UnitOptions) :
    Decides u r o 0 (u.validate r o) := by
  have functions : Decides u r o 3 (validateFunctions u.arena.size [] u.functions) :=
    decides_functions [] u.functions [] rfl (by simp)
  unfold validate
  split_ifs with hmissing hclass
  · exact decides_here (.registry hmissing List.filter_sublist fun k => mem_missingKinds) rfl
  · apply Decides.after _ rfl (registered hmissing)
    exact decides_here (.className (not_isIdentifier_iff.mp hclass)) rfl
  · rw [not_isIdentifier_iff] at hclass
    have named : ∀ e, ¬ Faulty u r o .className e := by
      rintro e (_ | hc)
      exact hclass hc
    apply Decides.after _ rfl (registered hmissing)
    apply Decides.after _ rfl named
    cases hp : o.package with
    | none =>
      apply functions.after (k := .package) rfl
      rintro e (_ | _ | ⟨hq, -⟩)
      cases hp.symm.trans hq
    | some p =>
      dsimp only
      split_ifs with hpackage <;> rw [not_isPackageName_iff] at hpackage
      · exact decides_here (.package hp hpackage) rfl
      · apply functions.after (k := .package) rfl
        rintro e (_ | _ | ⟨hq, hn⟩)
        cases Option.some.inj (hp.symm.trans hq)
        exact hpackage hn

private theorem distinct_iff {fs : List Function} : (fs.map (·.name)).Nodup ↔
    ∀ {i j : Nat} {f g : Function}, i < j → fs[i]? = some f → fs[j]? = some g → f.name ≠ g.name := by
  rw [List.Nodup, List.pairwise_map, List.pairwise_iff_getElem]
  constructor
  · intro h i j f g hlt hf hg
    obtain ⟨hi, rfl⟩ := List.getElem?_eq_some_iff.mp hf
    obtain ⟨hj, rfl⟩ := List.getElem?_eq_some_iff.mp hg
    exact h i j hi hj hlt
  · intro h i j hi hj hlt
    exact h hlt (List.getElem?_eq_getElem hi) (List.getElem?_eq_getElem hj)

/-- A unit is valid if none of its checks fails. -/
theorem valid_iff : u.Valid r o ↔ ∀ k e, ¬ Faulty u r o k e := by
  constructor
  · rintro h k e (⟨hne, -, hm⟩ | hc | ⟨hp, hn⟩ | ⟨hf, hn⟩ | ⟨hf, hlt, hg, hsame⟩ | ⟨hf, hle⟩)
    · obtain ⟨k, hk⟩ := List.exists_mem_of_ne_nil _ hne
      have hsome := h.registered k
      rw [(hm k).mp hk] at hsome
      cases hsome
    · exact hc h.className
    · exact hn (h.package _ hp)
    · exact hn (h.names _ (List.mem_of_getElem? hf))
    · exact distinct_iff.mp h.distinct hlt hg hf hsame
    · exact absurd (h.roots _ (List.mem_of_getElem? hf)) (Nat.not_lt.mpr hle)
  · intro h
    constructor
    · intro k
      by_contra hk
      have hmem : k ∈ r.missingKinds := mem_missingKinds.mpr (by simpa using hk)
      exact h _ _ (.registry (List.ne_nil_of_mem hmem) List.filter_sublist fun k => mem_missingKinds)
    · by_contra hc
      exact h _ _ (.className hc)
    · intro p hp
      by_contra hn
      exact h _ _ (.package hp hn)
    · intro f hf
      by_contra hn
      obtain ⟨i, hi⟩ := List.getElem?_of_mem hf
      exact h _ _ (.functionName hi hn)
    · rw [distinct_iff]
      intro i j f g hlt hg hf hsame
      exact h _ _ (.duplicate hf hlt hg hsame)
    · intro f hf
      by_contra hn
      obtain ⟨i, hi⟩ := List.getElem?_of_mem hf
      exact h _ _ (.root hi (Nat.not_lt.mp hn))

end Checks

/-- A unit passes its checks exactly if it is valid. If it is not, the error is that of the first check that
fails: the registry, the class, the package, then the functions in their order, each of them for its
name, for an earlier function of the same name, and for its root. -/
theorem validation_blames_first_fault (u : CompileUnit) (r : Registry) (o : UnitOptions) :
    (u.validate r o = .ok () ↔ u.Valid r o) ∧
    ∀ e, u.validate r o = .error e ↔
      ∃ k, u.Faulty r o k e ∧ ∀ l, l.place < k.place → ∀ d, ¬ u.Faulty r o l d := by
  have h := decides_validate u r o
  rw [valid_iff]
  cases hv : u.validate r o with
  | ok _ =>
    rw [hv] at h
    refine ⟨iff_of_true rfl fun k e => h k e (Nat.zero_le _), fun e => iff_of_false (by simp) ?_⟩
    rintro ⟨k, hk, -⟩
    exact h k e (Nat.zero_le _) hk
  | error d =>
    rw [hv] at h
    obtain ⟨k, hk, -, hfirst⟩ := h
    refine ⟨iff_of_false (by simp) fun hnone => hnone k d hk, fun e => ⟨?_, ?_⟩⟩
    · rintro ⟨⟩
      exact ⟨k, hk, fun l hl d => hfirst l d (Nat.zero_le _) hl⟩
    · rintro ⟨l, hl, hbefore⟩
      -- both are first, so they are the same check
      have hkl : k.place = l.place := by
        rcases Nat.lt_trichotomy k.place l.place with hlt | heq | hgt
        · exact absurd hk (hbefore k hlt d)
        · exact heq
        · exact absurd hl (hfirst l e (Nat.zero_le _) hgt)
      cases Check.place_inj hkl
      rw [hk.unique hl]

end CompileUnit

end ContextCodegen
