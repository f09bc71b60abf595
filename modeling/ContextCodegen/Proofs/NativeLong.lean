import ContextCodegen.Proofs.NativeForms
import ContextCodegen.Proofs.Storage

/-! The native long form is offered exactly where no subtree overflows. A refusal names the first
node in the order of evaluation that is no integer operation or whose exact value is out of range. -/
namespace ContextCodegen

open Target

namespace Expr

/-- The node is an integer, or an operation that has a native form on integers. -/
def isIntegral : Expr → Bool
  | .literal _ (.int _) | .unary _ .neg _ | .binary _ .add _ _ | .binary _ .sub _ _ => true
  | _ => false

/-- The exact value, without bounds, of an expression over integers. -/
def integer? : Expr → Option Int
  | .literal _ (.int n) => some n.toInt
  | .unary _ .neg e => e.integer?.map fun n => -n
  | .binary _ .add l r => do return (← l.integer?) + (← r.integer?)
  | .binary _ .sub l r => do return (← l.integer?) - (← r.integer?)
  | _ => none

/-- The nodes that are visited, operands first and from left to right. The operands of a node that
is no integer operation are not. -/
def visited : Expr → List Expr
  | .unary loc .neg e => e.visited ++ [.unary loc .neg e]
  | .binary loc .add l r => l.visited ++ r.visited ++ [.binary loc .add l r]
  | .binary loc .sub l r => l.visited ++ r.visited ++ [.binary loc .sub l r]
  | e => [e]

/-- There is an exact value, and it is in the range of a word. -/
def fits (e : Expr) : Bool :=
  e.integer?.any fun n => decide (-0x8000000000000000 ≤ n ∧ n < 0x8000000000000000)

/-- The node is no integer operation, or is out of range although its operands are not. -/
def offends (e : Expr) : Bool := !e.isIntegral || (e.operands.all fits && !e.fits)

theorem fits_eq {e : Expr} {n : Int} (h : e.integer? = some n) : e.fits = (Number.word? n).isSome := by
  rw [fits, h, Number.word?, Option.any_some]
  split <;> simp_all

/-- The word is the constant of the expression in the long context, and its exact value. -/
structure IsWord (e : Expr) (w : Int64) : Prop where
  folded : e.folded .long = .ok (.long w)
  exact : e.integer? = some w.toInt

theorem IsWord.fits {e : Expr} {w : Int64} (h : e.IsWord w) : e.fits = true := by
  rw [fits_eq h.exact, Number.word?_eq_some_iff.mpr rfl, Option.isSome_some]

/-- The outcome in the long context as the first offender among some nodes determines it. -/
def LongOutcome (e : Expr) (ts : List Expr) : Prop :=
  match ts.find? offends with
  | some t => e.folded .long = .error (.unsupported ⟨t.kind, t.location⟩ .long)
  | none => ∃ w, e.IsWord w

end Expr

private theorem kept_int (s : Subject) (c : Context) (n : Int) (x : Binary64) :
    Folded.kept s c (some ⟨.int (Int64.ofInt n), Value.ofNumber (Number.ofIntOr n x)⟩) =
      match Number.word? n with
      | some w => .ok (.long w)
      | none => .error (.unsupported s c) := by
  cases hw : Number.word? n with
  | some w =>
    obtain rfl := Number.word?_eq_some_iff.mp hw
    simp [Number.ofIntOr, hw, Folded.kept, Folded.agrees, Value.ofNumber, Folded.long]
  | none => simp [Number.ofIntOr, hw, Folded.kept, Folded.agrees, Value.ofNumber]

namespace Expr

private theorem longOutcome_node {e : Expr} (n : Int) (x : Binary64) (hi : e.isIntegral = true)
    (ho : e.operands.all fits = true) (he : e.integer? = some n)
    (hf : e.folded .long = Folded.kept ⟨e.kind, e.location⟩ .long
      (some ⟨.int (Int64.ofInt n), Value.ofNumber (Number.ofIntOr n x)⟩)) : e.LongOutcome [e] := by
  have hoff : e.offends = !(Number.word? n).isSome := by
    rw [offends, hi, ho, fits_eq he]
    simp
  rw [kept_int] at hf
  cases hw : Number.word? n with
  | some w =>
    rw [hw] at hoff hf
    rw [LongOutcome, List.find?_singleton, hoff]
    exact ⟨w, hf, by rw [he, Number.word?_eq_some_iff.mp hw]⟩
  | none =>
    rw [hw] at hoff hf
    rw [LongOutcome, List.find?_singleton, hoff]
    exact hf

private theorem LongOutcome.append {e : Expr} {ts us : List Expr}
    (hs : ∀ t, ts.find? offends = some t → e.folded .long = .error (.unsupported ⟨t.kind, t.location⟩ .long))
    (hn : ts.find? offends = none → e.LongOutcome us) : e.LongOutcome (ts ++ us) := by
  unfold LongOutcome at hn ⊢
  rw [List.find?_append]
  cases h : ts.find? offends with
  | some t => exact hs t h
  | none => exact hn h

theorem LongOutcome.error {e t : Expr} {ts : List Expr} (h : e.LongOutcome ts)
    (ht : ts.find? offends = some t) :
    e.folded .long = .error (.unsupported ⟨t.kind, t.location⟩ .long) := by
  rw [LongOutcome, ht] at h
  exact h

theorem LongOutcome.ok {e : Expr} {ts : List Expr} (h : e.LongOutcome ts)
    (ht : ts.find? offends = none) : ∃ w, e.IsWord w := by
  rw [LongOutcome, ht] at h
  exact h

private theorem longOutcome_binary {e l r : Expr} {k : Folded → Folded → Except Refusal Folded}
    (hl : l.LongOutcome l.visited) (hr : r.LongOutcome r.visited)
    (hf : e.folded .long = do k (← l.folded .long) (← r.folded .long))
    (hn : ∀ v w, l.IsWord v → r.IsWord w → e.LongOutcome [e]) :
    e.LongOutcome (l.visited ++ r.visited ++ [e]) := by
  apply LongOutcome.append
  · intro t ht
    rw [List.find?_append, Option.or_eq_some_iff] at ht
    rcases ht with ht | ⟨hnone, ht⟩
    · rw [hf, hl.error ht]
      rfl
    · obtain ⟨v, hv⟩ := hl.ok hnone
      rw [hf, hv.folded, hr.error ht]
      rfl
  · intro hnone
    rw [List.find?_append, Option.or_eq_none_iff] at hnone
    obtain ⟨v, hv⟩ := hl.ok hnone.1
    obtain ⟨w, hw⟩ := hr.ok hnone.2
    exact hn v w hv hw

/-- The first offender among the visited nodes decides the outcome in the long context. -/
theorem longOutcome (e : Expr) : e.LongOutcome e.visited := by
  induction e with
  | literal loc v =>
    cases v with
    | int n =>
      refine longOutcome_node n.toInt .nan rfl rfl rfl ?_
      rw [kept_int, Number.word?_eq_some_iff.mpr rfl]
      rfl
    | _ => rfl
  | var loc x => rfl
  | assign loc x e ih => rfl
  | binary loc op l r ihl ihr =>
    cases op with
    | eq | ne => rfl
    | add =>
      apply longOutcome_binary ihl ihr rfl
      intro v w hv hw
      refine longOutcome_node (v.toInt + w.toInt) ((Number.int v).toFloat + (Number.int w).toFloat) rfl
        (by simp [operands, hv.fits, hw.fits]) (by simp [integer?, hv.exact, hw.exact]) ?_
      rw [folded, hv.folded, hw.folded, Int64.ofInt_add, Int64.ofInt_toInt, Int64.ofInt_toInt]
      rfl
    | sub =>
      apply longOutcome_binary ihl ihr rfl
      intro v w hv hw
      refine longOutcome_node (v.toInt - w.toInt) ((Number.int v).toFloat - (Number.int w).toFloat) rfl
        (by simp [operands, hv.fits, hw.fits]) (by simp [integer?, hv.exact, hw.exact]) ?_
      rw [folded, hv.folded, hw.folded, Int64.ofInt_sub, Int64.ofInt_toInt, Int64.ofInt_toInt]
      rfl
  | unary loc op e ih =>
    cases op with
    | not => rfl
    | neg =>
      apply LongOutcome.append
      · intro t ht
        rw [folded, ih.error ht]
        rfl
      · intro hnone
        obtain ⟨w, hw⟩ := ih.ok hnone
        refine longOutcome_node (-w.toInt) (-(Number.int w).toFloat) rfl (by simp [operands, hw.fits])
          (by simp [integer?, hw.exact]) ?_
        rw [folded, hw.folded, Int64.ofInt_neg, Int64.ofInt_toInt]
        rfl

theorem visited_subset (e : Expr) : e.visited ⊆ e.subtrees := by
  induction e with
  | literal loc v | var loc x | assign loc x e ih => simp [visited, subtrees]
  | binary loc op l r ihl ihr =>
    cases op <;> simp only [visited, subtrees] <;> grind
  | unary loc op e ih =>
    cases op <;> simp only [visited, subtrees] <;> grind

private theorem fits_of_not_offends {e : Expr} (h : e.offends = false)
    (ho : ∀ c ∈ e.operands, c.fits = true) : e.isIntegral = true ∧ e.fits = true := by
  simp only [offends, Bool.or_eq_false_iff, Bool.and_eq_false_iff, Bool.not_eq_false'] at h
  exact ⟨h.1, h.2.resolve_left (by simpa using ho)⟩

private theorem fits_of_visited {e : Expr} (h : ∀ t ∈ e.visited, t.offends = false) :
    ∀ t ∈ e.subtrees, t.isIntegral = true ∧ t.fits = true := by
  induction e with
  | literal loc v =>
    have hself := fits_of_not_offends (h _ List.mem_cons_self) (by simp [operands])
    simpa [subtrees] using hself
  | var loc x => exact absurd (h _ List.mem_cons_self) (by simp [offends, isIntegral])
  | assign loc x e ih => exact absurd (h _ List.mem_cons_self) (by simp [offends, isIntegral])
  | binary loc op l r ihl ihr =>
    have below (hv : (Expr.binary loc op l r).visited = l.visited ++ r.visited ++ [.binary loc op l r]) :
        ∀ t ∈ (Expr.binary loc op l r).subtrees, t.isIntegral = true ∧ t.fits = true := by
      simp only [hv, List.mem_append, List.mem_singleton, or_imp, forall_and, forall_eq] at h
      obtain ⟨⟨hl, hr⟩, hself⟩ := h
      have hself := fits_of_not_offends hself (by
        simp [operands, (ihl hl _ l.mem_subtrees_self).2, (ihr hr _ r.mem_subtrees_self).2])
      simp only [subtrees, List.mem_append, List.mem_singleton]
      rintro t ((ht | ht) | rfl)
      · exact ihl hl t ht
      · exact ihr hr t ht
      · exact hself
    cases op with
    | eq | ne => exact absurd (h _ List.mem_cons_self) (by simp [offends, isIntegral])
    | add | sub => exact below rfl
  | unary loc op e ih =>
    cases op with
    | not => exact absurd (h _ List.mem_cons_self) (by simp [offends, isIntegral])
    | neg =>
      simp only [visited, List.mem_append, List.mem_singleton, or_imp, forall_and, forall_eq] at h
      obtain ⟨he, hself⟩ := h
      have hself := fits_of_not_offends hself (by simp [operands, (ih he _ e.mem_subtrees_self).2])
      simp only [subtrees, List.mem_append, List.mem_singleton]
      rintro t (ht | rfl)
      · exact ih he t ht
      · exact hself

/-- There is no offender exactly if all subtrees are integer operations in range. -/
theorem find?_offends_eq_none_iff (e : Expr) : e.visited.find? offends = none ↔
    ∀ t ∈ e.subtrees, t.isIntegral = true ∧ t.fits = true := by
  rw [List.find?_eq_none]
  constructor
  · intro h
    exact fits_of_visited fun t ht => Bool.eq_false_iff.mpr (h t ht)
  · intro h t ht
    obtain ⟨hi, hf⟩ := h t (e.visited_subset ht)
    simp [offends, hi, hf]

end Expr

/-- An expression has a native long form exactly if all its subtrees are integer operations with
exact values in range. The form runs to the exact value. A refusal names the first offender in the
order in which the nodes are visited. -/
theorem long_form_iff_fits {a : Arena} (ha : a.Built) {id : NodeId} (hid : id < a.size) :
    ∃ e, a.tree id = .ok e ∧
      ((∃ s, Registry.standard.generate e .long = .ok s) ↔
        ∀ t ∈ e.subtrees, t.isIntegral = true ∧ t.fits = true) ∧
      (∀ s, Registry.standard.generate e .long = .ok s →
        ∃ w : Int64, e.integer? = some w.toInt ∧ ∀ m, Machine.execute s m = (.ok (.long w), m)) ∧
      ∀ r, Registry.standard.generate e .long = .error r ↔
        ∃ t, e.visited.find? Expr.offends = some t ∧ r = .unsupported ⟨t.kind, t.location⟩ .long := by
  obtain ⟨e, he⟩ := ha.tree hid
  refine ⟨e, he, ?_⟩
  rw [← Expr.find?_offends_eq_none_iff]
  have hout := e.longOutcome
  cases hfind : e.visited.find? Expr.offends with
  | some t =>
    have hg := generate_of_refused (.inl rfl) (hout.error hfind)
    simp [hg, eq_comm]
  | none =>
    obtain ⟨w, hw⟩ := hout.ok hfind
    obtain ⟨s, hs, t, hd, ht⟩ := generate_of_folded (.inl rfl) hw.folded
    refine ⟨by simp [hs], fun s' hs' => ⟨w, hw.exact, fun m => ?_⟩, by simp [hs]⟩
    obtain rfl : s = s' := Except.ok.inj (hs.symm.trans hs')
    rw [Machine.execute_of_denotes hd, ht]
    rfl

/-- A sum out of range, from which the same number is taken again. -/
private def overflowing : Arena :=
  let a := (Arena.push {} (.literal (.int Int64.maxValue)) ⟨1, 1⟩).2
  let a := (a.push (.literal (.int 1)) ⟨1, 2⟩).2
  let a := (a.push (.binary .add 0 1) ⟨1, 3⟩).2
  (a.push (.binary .sub 2 1) ⟨1, 4⟩).2

private def overflowingTree : Expr :=
  .binary ⟨1, 4⟩ .sub
    (.binary ⟨1, 3⟩ .add (.literal ⟨1, 1⟩ (.int Int64.maxValue)) (.literal ⟨1, 2⟩ (.int 1)))
    (.literal ⟨1, 2⟩ (.int 1))

/-- The difference is in range, but the sum in it is not and is blamed. -/
theorem overflowing_long_form_refused :
    overflowing.Built ∧ 3 < overflowing.size ∧ overflowing.tree 3 = .ok overflowingTree ∧
      overflowingTree.fits = true ∧
      Registry.standard.generate overflowingTree .long = .error (.unsupported ⟨.add, ⟨1, 3⟩⟩ .long) := by
  have hb : overflowing.Built := .push _ _ (.push _ _ (.push _ _ (.push _ _ .empty)))
  have hsize : 3 < overflowing.size := by decide +kernel
  have htree : overflowing.tree? 3 = some overflowingTree := by decide +kernel
  refine ⟨hb, hsize, Arena.tree_eq_ok_iff.mpr htree, by decide +kernel, ?_⟩
  obtain ⟨e, he, -, -, h⟩ := long_form_iff_fits hb hsize
  obtain rfl := Option.some.inj (htree.symm.trans (Arena.tree_eq_ok_iff.mp he))
  refine (h _).mpr ⟨.binary ⟨1, 3⟩ .add (.literal ⟨1, 1⟩ (.int Int64.maxValue)) (.literal ⟨1, 2⟩ (.int 1)),
    by decide +kernel, rfl⟩

end ContextCodegen
