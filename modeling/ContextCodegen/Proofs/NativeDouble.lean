import ContextCodegen.Proofs.NativeLong
import ContextCodegen.Proofs.Rounding

/-! The native double form and the dynamic value agree bit for bit, but for the sign of zero. A tree
that negates no integer zero is exact at every node, and only such a tree is. -/
namespace ContextCodegen

open Target

section SignedZero

namespace Binary64

theorem magnitude_inj {a b : Nat} (h : magnitude a = magnitude b) : a = b := by
  rw [← nearestRank_magnitude a, h, nearestRank_magnitude]

private theorem magnitude_eq_zero {a : Nat} (h : magnitude a = 0) : a = 0 := magnitude_inj h

private theorem eq_of_units_eq {s t : Bool} {a : Nat} (ha : a ≠ 0) (h : units s a = units t a) : s = t := by
  have hpos : magnitude a ≠ 0 := fun hm => ha (magnitude_eq_zero hm)
  simp only [units] at h
  cases s <;> cases t <;> simp only [Bool.false_eq_true, if_false, if_true] at h ⊢ <;> omega

/-- Numbers that compare equal are the same, unless they are zeros. -/
theorem eq_or_zeros_of_numEq {x y : Binary64} (h : x.numEq y = true) :
    x = y ∨ ∃ s t, x = zero s ∧ y = zero t := by
  cases x with
  | nan => cases h
  | infinity s =>
    cases y with
    | infinity t => exact .inl (congrArg infinity (eq_of_beq h))
    | nan | finite t b => cases h
  | finite s a =>
    cases y with
    | nan | infinity t => cases h
    | finite t b =>
      have hunits : units s a = units t b := eq_of_beq h
      have hab : a = b := by
        apply Fin.ext
        apply magnitude_inj
        cases s <;> cases t <;> simp only [units, Bool.false_eq_true, if_false, if_true] at hunits <;> omega
      subst hab
      by_cases ha : a.val = 0
      · exact .inr ⟨s, t, congrArg (finite s) (Fin.ext ha), congrArg (finite t) (Fin.ext ha)⟩
      · exact .inl (by rw [eq_of_units_eq ha hunits])

theorem sub_eq_add_neg (x y : Binary64) : x - y = x + -y := rfl

theorem neg_neg (x : Binary64) : neg (neg x) = x := by
  cases x <;> simp [neg]

theorem nearestRank_pos {n : Nat} (h : 0 < n) : 0 < nearestRank n 1 := by
  have hlog : 2 ^ n.log2 ≤ n := Nat.log2_self_le (Nat.ne_of_gt h)
  have hpow : 2 ^ (n.log2 - 52) ≤ n := (Nat.pow_le_pow_right (by decide) (Nat.sub_le _ _)).trans hlog
  have hsig : 0 < n / 2 ^ (n.log2 - 52) := Nat.div_pos hpow (Nat.two_pow_pos _)
  simp only [nearestRank, Nat.div_one, Nat.pow_eq]
  split <;> omega

theorem ofUnits_eq_zero {u : Int} {s : Bool} (h : ofUnits u = zero s) : u = 0 ∧ s = false := by
  unfold ofUnits ofRank zero at h
  split at h
  · obtain ⟨hs, hr⟩ := finite.inj h
    have hu : u = 0 := by
      by_contra hne
      have hpos := nearestRank_pos (Int.natAbs_pos.mpr hne)
      exact absurd (Fin.mk.inj hr) (Nat.ne_of_gt hpos)
    exact ⟨hu, by simpa [hu] using hs.symm⟩
  · cases h

theorem ofInt_eq_zero {n : Int} {s : Bool} (h : ofInt n = zero s) : n = 0 ∧ s = false := by
  obtain ⟨hn, hs⟩ := ofUnits_eq_zero h
  have hone : (unitsPerOne : Int) ≠ 0 := Int.natCast_ne_zero.mpr (Nat.ne_of_gt unitsPerOne_pos)
  exact ⟨(Int.mul_eq_zero.mp hn).resolve_right hone, hs⟩

theorem ofInt_ne_negative_zero (n : Int) : ofInt n ≠ zero true := fun h => by
  cases (ofInt_eq_zero h).2

theorem eq_zero_of_add_eq {x y : Binary64} (h : x + y = zero true) : x = zero true := by
  change add x y = zero true at h
  cases x with
  | nan => cases h
  | infinity s =>
    cases y with
    | nan | finite t b => cases h
    | infinity t =>
      simp only [add] at h
      split at h <;> cases h
  | finite s a =>
    cases y with
    | nan | infinity t => cases h
    | finite t b =>
      simp only [add] at h
      split at h
      · rename_i hsum
        obtain ⟨hs, -⟩ := finite.inj h
        obtain ⟨rfl, rfl⟩ := Bool.and_eq_true_iff.mp hs
        simp only [units, if_true] at hsum
        have ha : a.val = 0 := magnitude_eq_zero (by omega)
        exact congrArg (finite true) (Fin.ext ha)
      · cases (ofUnits_eq_zero h).2

end Binary64

end SignedZero

section Constants

open Binary64 (zero)

theorem Value.toFloat_ofNumber (n : Number) : (Value.ofNumber n).toFloat = n.toFloat := by
  cases n <;> rfl

namespace Number

theorem toFloat_ofIntOr (n : Int) (x : Binary64) :
    (ofIntOr n x).toFloat = Binary64.ofInt n ∨ (ofIntOr n x).toFloat = x := by
  unfold ofIntOr
  split
  · rename_i w hw
    exact .inl (congrArg Binary64.ofInt (word?_eq_some_iff.mp hw))
  · exact .inr rfl

/-- An integer result converts to no negative zero, nor does what the floats give begin with one. -/
private theorem toFloat_integers (i n : Int) (y : Binary64) :
    (ofIntOr n (Binary64.ofInt i + y)).toFloat = Binary64.ofInt i + y ∨
      (Binary64.ofInt i + y ≠ zero true ∧ (ofIntOr n (Binary64.ofInt i + y)).toFloat ≠ zero true) := by
  rcases toFloat_ofIntOr n (Binary64.ofInt i + y) with h | h
  · refine .inr ⟨fun hz => Binary64.ofInt_ne_negative_zero i (Binary64.eq_zero_of_add_eq hz), ?_⟩
    rw [h]
    exact Binary64.ofInt_ne_negative_zero n
  · exact .inl h

theorem toFloat_add (m n : Number) : (m.add n).toFloat = m.toFloat + n.toFloat ∨
    (m.toFloat + n.toFloat ≠ zero true ∧ (m.add n).toFloat ≠ zero true) := by
  cases m with
  | float x => exact .inl rfl
  | int i =>
    cases n with
    | float y => exact .inl rfl
    | int j => exact toFloat_integers i.toInt (i.toInt + j.toInt) (.ofInt j.toInt)

theorem toFloat_sub (m n : Number) : (m.sub n).toFloat = m.toFloat - n.toFloat ∨
    (m.toFloat - n.toFloat ≠ zero true ∧ (m.sub n).toFloat ≠ zero true) := by
  cases m with
  | float x => exact .inl rfl
  | int i =>
    cases n with
    | float y => exact .inl rfl
    | int j =>
      have h := toFloat_integers i.toInt (i.toInt - j.toInt) (-Binary64.ofInt j.toInt)
      rw [← Binary64.sub_eq_add_neg] at h
      exact h

end Number

namespace Folded

variable {f g k : Folded}

/-- The native result has the bits of the float that the dynamic one converts to. -/
def Exact (f : Folded) : Prop := f.native = .float f.boxed.toFloat

/-- Where the two computations agree, the floats are the same or zeros. -/
theorem eq_or_zeros_of_agrees {x : Binary64} (h : f.agrees = true) (hx : f.native = .float x) :
    x = f.boxed.toFloat ∨ ∃ s t, x = zero s ∧ f.boxed.toFloat = zero t := by
  simp only [agrees, hx, Bool.or_eq_true, Bool.and_eq_true] at h
  rcases h with h | ⟨h, h'⟩
  · exact Binary64.eq_or_zeros_of_numEq h
  · left
    cases x <;> cases hb : f.boxed.toFloat <;> simp_all [Binary64.isNaN]

theorem exact_of_agrees {x : Binary64} (h : f.agrees = true) (hx : f.native = .float x)
    (hn : x ≠ zero true) (hb : f.boxed.toFloat ≠ zero true) : f.Exact := by
  rcases eq_or_zeros_of_agrees h hx with he | ⟨s, t, hs, ht⟩
  · rw [Exact, hx, he]
  · cases s with
    | true => exact absurd hs hn
    | false =>
      cases t with
      | true => exact absurd ht hb
      | false => rw [Exact, hx, hs, ht]

/-- Negation is exact but for an integer zero, which has no negative counterpart. -/
theorem Exact.negated_iff (h : f.Exact) (ha : f.negated.agrees = true) :
    f.negated.Exact ↔ f.boxed.toNumber ≠ .int 0 := by
  have hnative : f.negated.native = .float (-f.boxed.toNumber.toFloat) := by rw [negated, h]; rfl
  have hboxed : f.negated.boxed.toFloat = f.boxed.toNumber.neg.toFloat := Value.toFloat_ofNumber _
  cases hn : f.boxed.toNumber with
  | float x =>
    rw [hn] at hboxed hnative
    rw [Exact, hnative, hboxed]
    simp [Number.neg, Number.toFloat]
  | int m =>
    rw [hn] at hboxed hnative
    by_cases hm : m = 0
    · subst hm
      have hzero : (Number.int 0).toFloat = zero false := by decide +kernel
      have hneg : (Number.int 0).neg.toFloat = zero false := by decide +kernel
      rw [Exact, hnative, hboxed, hzero, hneg]
      exact iff_of_false (by decide) (not_not.mpr rfl)
    · refine iff_of_true ?_ fun hz => hm (Number.int.inj hz)
      rcases Number.toFloat_ofIntOr (-m.toInt) (-(Number.int m).toFloat) with hneg | hneg
      · -- the result is an integer, and neither zero has the negative sign
        apply exact_of_agrees ha hnative
        · intro hz
          have hx : Binary64.ofInt m.toInt = zero false := by
            rw [← Binary64.neg_neg (Binary64.ofInt m.toInt)]
            exact congrArg Binary64.neg hz
          exact hm (Int64.toInt_inj.mp (Binary64.ofInt_eq_zero hx).1)
        · rw [hboxed, Number.neg, hneg]
          exact Binary64.ofInt_ne_negative_zero _
      · rw [Exact, hnative, hboxed]
        exact congrArg Number.float hneg.symm

theorem Exact.binary {op : BinaryOp} (hf : f.Exact) (hg : g.Exact) (h : f.binary op g = some k)
    (ha : k.agrees = true) : k.Exact := by
  have sum {x : Binary64} {n : Number} (hk : k = ⟨.float x, Value.ofNumber n⟩)
      (hn : n.toFloat = x ∨ (x ≠ zero true ∧ n.toFloat ≠ zero true)) : k.Exact := by
    subst hk
    rw [← Value.toFloat_ofNumber n] at hn
    rcases hn with hn | ⟨hx, hv⟩
    · exact congrArg Number.float hn.symm
    · exact exact_of_agrees ha rfl hx hv
  rw [Folded.binary, hf, hg] at h
  cases op with
  | sub => exact sum (Option.some.inj h).symm (Number.toFloat_sub _ _)
  | eq | ne | add => exact sum (Option.some.inj h).symm (Number.toFloat_add _ _)

end Folded

namespace Expr

/-- The node negates a number that is the integer zero. -/
def negatesZero : Expr → Bool
  | .unary _ .neg e => (e.eval {}).1.toNumber = .int 0
  | _ => false

theorem folded_subtree {e t : Expr} {c : Context} {f : Folded} (h : e.folded c = .ok f)
    (ht : t ∈ e.subtrees) : ∃ g, t.folded c = .ok g := by
  induction e generalizing f with
  | literal loc v =>
    cases List.mem_singleton.mp ht
    exact ⟨f, h⟩
  | var loc x => cases h
  | assign loc x e ih => cases h
  | binary loc op l r ihl ihr =>
    have below {k : Folded → Folded → Except Refusal Folded}
        (hk : (do k (← l.folded c) (← r.folded c)) = .ok f) : ∃ g, t.folded c = .ok g := by
      obtain ⟨g, hl, hk⟩ := bind_eq_ok hk
      obtain ⟨g', hr, -⟩ := bind_eq_ok hk
      rcases List.mem_append.mp ht with ht | ht
      · rcases List.mem_append.mp ht with ht | ht
        · exact ihl hl ht
        · exact ihr hr ht
      · cases List.mem_singleton.mp ht
        exact ⟨f, h⟩
    cases op with
    | eq | ne => cases h
    | add | sub => exact below h
  | unary loc op e ih =>
    cases op with
    | not => cases h
    | neg =>
      obtain ⟨g, hg, -⟩ := bind_eq_ok h
      rcases List.mem_append.mp ht with ht | ht
      · exact ih hg ht
      · cases List.mem_singleton.mp ht
        exact ⟨f, h⟩

private theorem exact_negation_iff {loc : Location} {e : Expr} {f g : Folded}
    (hf : (Expr.unary loc .neg e).folded .double = .ok f) (hg : e.folded .double = .ok g) (he : g.Exact) :
    f.Exact ↔ (Expr.unary loc .neg e).negatesZero = false := by
  obtain ⟨g', hg', hk⟩ := bind_eq_ok hf
  cases hg.symm.trans hg'
  obtain ⟨⟨⟩, ha⟩ := Folded.kept_eq_ok hk
  rw [he.negated_iff ha, negatesZero, (isConstant_of_folded hg).value, decide_eq_false_iff_not]

/-- Without a negated zero every constant is exact. -/
theorem exact_of_folded {e : Expr} {f : Folded} (h : e.folded .double = .ok f)
    (hz : ∀ t ∈ e.subtrees, t.negatesZero = false) : f.Exact := by
  induction e generalizing f with
  | literal loc v => cases v <;> cases h <;> rfl
  | var loc x => cases h
  | assign loc x e ih => cases h
  | binary loc op l r ihl ihr =>
    simp only [subtrees, List.forall_mem_append] at hz
    obtain ⟨⟨hzl, hzr⟩, -⟩ := hz
    have combine {s : Subject}
        (h : (do Folded.kept s .double ((← l.folded .double).binary op (← r.folded .double))) = .ok f) :
        f.Exact := by
      obtain ⟨g, hl, h⟩ := bind_eq_ok h
      obtain ⟨k, hr, h⟩ := bind_eq_ok h
      obtain ⟨hf, ha⟩ := Folded.kept_eq_ok h
      exact (ihl hl hzl).binary (ihr hr hzr) hf ha
    cases op with
    | eq | ne => cases h
    | add | sub => exact combine h
  | unary loc op e ih =>
    cases op with
    | not => cases h
    | neg =>
      simp only [subtrees, List.forall_mem_append, List.forall_mem_singleton] at hz
      obtain ⟨g, hg, -⟩ := bind_eq_ok h
      exact (exact_negation_iff h hg (ih hg hz.1)).mpr hz.2

/-- The double form exists, and runs to the bits of the float that the expression evaluates to. -/
def DoubleExact (e : Expr) : Prop :=
  ∃ s, Registry.standard.generate e .double = .ok s ∧
    ∀ env nodes, Machine.execute s ⟨env, nodes⟩ = (.ok (.double (e.evalDouble env).1), ⟨env, nodes⟩)

/-- The double form runs to the native constant, and the expression evaluates to the other. -/
theorem execute_double {e : Expr} {s : String} (hs : Registry.standard.generate e .double = .ok s) :
    ∃ f x, e.folded .double = .ok f ∧ f.native = .float x ∧
      (∀ m, Machine.execute s m = (.ok (.double x), m)) ∧ ∀ env, (e.evalDouble env).1 = f.boxed.toFloat := by
  cases hf : e.folded .double with
  | error r => cases hs.symm.trans (generate_of_refused (.inr rfl) hf)
  | ok f =>
    obtain ⟨s', hs', t, hd, ht⟩ := generate_of_folded (.inr rfl) hf
    cases hs.symm.trans hs'
    obtain ⟨hc, hv, -⟩ := isConstant_of_folded hf
    cases hn : f.native with
    | int n => rw [hn] at hc; cases hc
    | float x =>
      rw [hn] at ht
      refine ⟨f, x, rfl, hn, fun m => ?_, fun env => by simp [evalDouble, hv]⟩
      rw [Machine.execute_of_denotes hd, ht]
      rfl

theorem doubleExact_iff {e : Expr} : e.DoubleExact ↔ ∃ f, e.folded .double = .ok f ∧ f.Exact := by
  constructor
  · rintro ⟨s, hs, hrun⟩
    obtain ⟨f, x, hf, hn, hx, hv⟩ := execute_double hs
    have h := (hx ⟨{}, {}⟩).symm.trans (hrun {} {})
    rw [hv] at h
    cases h
    exact ⟨f, hf, hn⟩
  · rintro ⟨f, hf, he⟩
    obtain ⟨s, hs, -⟩ := generate_of_folded (.inr rfl) hf
    obtain ⟨f', x, hf', hn, hx, hv⟩ := execute_double hs
    cases hf.symm.trans hf'
    refine ⟨s, hs, fun env nodes => ?_⟩
    rw [hx, hv, Number.float.inj (hn.symm.trans he)]

/-- A tree is exact at every node exactly if none of its nodes negates an integer zero. -/
theorem doubleExact_subtrees_iff {e : Expr} {f : Folded} (h : e.folded .double = .ok f) :
    (∀ t ∈ e.subtrees, t.DoubleExact) ↔ ∀ t ∈ e.subtrees, t.negatesZero = false := by
  constructor
  · intro hall t ht
    cases t with
    | unary loc op d =>
      cases op with
      | not => rfl
      | neg =>
        have hd : d ∈ e.subtrees :=
          subtrees_subset ht (List.mem_append_left _ d.mem_subtrees_self)
        obtain ⟨f, hf, he⟩ := doubleExact_iff.mp (hall _ ht)
        obtain ⟨g, hg, he'⟩ := doubleExact_iff.mp (hall d hd)
        exact (exact_negation_iff hf hg he').mp he
    | _ => rfl
  · intro hz t ht
    obtain ⟨g, hg⟩ := folded_subtree h ht
    exact doubleExact_iff.mpr ⟨g, hg, exact_of_folded hg fun u hu => hz u (subtrees_subset ht hu)⟩

end Expr

end Constants

/-- The double form of a node leaves everything as it is and gives the float that the node evaluates
to, or the other zero if that is a zero. It is exact to the bit at every node of a tree exactly if no node
negates an integer zero. -/
theorem double_form_exact_iff {a : Arena} (ha : a.Built) {id : NodeId} (hid : id < a.size) :
    ∃ e, a.tree id = .ok e ∧ ∀ s, Registry.standard.generate e .double = .ok s →
      (∀ env nodes, ∃ x, Machine.execute s ⟨env, nodes⟩ = (.ok (.double x), ⟨env, nodes⟩) ∧
        (x = (e.evalDouble env).1 ∨
          ∃ sign, x = Binary64.zero sign ∧ (e.evalDouble env).1 = Binary64.zero (!sign))) ∧
      ((∀ t ∈ e.subtrees, t.negatesZero = false) → ∀ env nodes,
        Machine.execute s ⟨env, nodes⟩ = (.ok (.double (e.evalDouble env).1), ⟨env, nodes⟩)) ∧
      ((∀ t ∈ e.subtrees, t.DoubleExact) ↔ ∀ t ∈ e.subtrees, t.negatesZero = false) := by
  obtain ⟨e, he⟩ := ha.tree hid
  refine ⟨e, he, fun s hs => ?_⟩
  obtain ⟨f, x, hf, hn, hx, hv⟩ := Expr.execute_double hs
  refine ⟨fun env nodes => ⟨x, hx _, ?_⟩, fun hz env nodes => ?_, Expr.doubleExact_subtrees_iff hf⟩
  · rw [hv]
    rcases Folded.eq_or_zeros_of_agrees (Expr.isConstant_of_folded hf).agrees hn with h | ⟨s, t, rfl, ht⟩
    · exact .inl h
    · rw [ht]
      by_cases hst : s = t
      · exact .inl (by rw [hst])
      · exact .inr ⟨s, rfl, by rw [Bool.not_eq.mpr hst]⟩
  · rw [hx, hv, Number.float.inj (hn.symm.trans (Expr.exact_of_folded hf hz))]

section Zeros

private def negatedFloat : Arena :=
  let a := (Arena.push {} (.literal (.float 0)) ⟨1, 1⟩).2
  (a.push (.unary .neg 0) ⟨1, 2⟩).2

private def negatedFloatTree : Expr := .unary ⟨1, 2⟩ .neg (.literal ⟨1, 1⟩ (.float 0))

/-- The negative zero of floats is reached in both ways. -/
theorem negated_float_zero_exact :
    negatedFloat.Built ∧ 1 < negatedFloat.size ∧ negatedFloat.tree 1 = .ok negatedFloatTree ∧
      Registry.standard.generate negatedFloatTree .double = .ok "(-0.0)" ∧
      (∀ t ∈ negatedFloatTree.subtrees, t.negatesZero = false) ∧
      (negatedFloatTree.evalDouble {}).1 = Binary64.zero true ∧
      Machine.execute "(-0.0)" ⟨{}, {}⟩ = (.ok (.double (Binary64.zero true)), ⟨{}, {}⟩) := by
  have hb : negatedFloat.Built := .push _ _ (.push _ _ .empty)
  have hsize : 1 < negatedFloat.size := by decide +kernel
  have htree : negatedFloat.tree? 1 = some negatedFloatTree := by decide +kernel
  have hform : Registry.standard.generate negatedFloatTree .double = .ok "(-0.0)" := by decide +kernel
  have hzero : ∀ t ∈ negatedFloatTree.subtrees, t.negatesZero = false := by decide +kernel
  have hvalue : (negatedFloatTree.evalDouble {}).1 = Binary64.zero true := by decide +kernel
  obtain ⟨e, he, h⟩ := double_form_exact_iff hb hsize
  obtain rfl := Option.some.inj (htree.symm.trans (Arena.tree_eq_ok_iff.mp he))
  obtain ⟨-, hexact, -⟩ := h _ hform
  refine ⟨hb, hsize, he, hform, hzero, hvalue, ?_⟩
  rw [hexact hzero, hvalue]

private def negatedInteger : Arena :=
  let a := (Arena.push {} (.literal (.int 0)) ⟨1, 1⟩).2
  (a.push (.unary .neg 0) ⟨1, 2⟩).2

private def negatedIntegerTree : Expr := .unary ⟨1, 2⟩ .neg (.literal ⟨1, 1⟩ (.int 0))

/-- The double form of a negated integer zero runs to the negative zero, and its value is the positive
one. -/
theorem negated_integer_zero_inexact :
    negatedInteger.Built ∧ negatedInteger.tree 1 = .ok negatedIntegerTree ∧
      Registry.standard.generate negatedIntegerTree .double = .ok "(-((double) 0L))" ∧
      Machine.execute "(-((double) 0L))" ⟨{}, {}⟩ = (.ok (.double (Binary64.zero true)), ⟨{}, {}⟩) ∧
      (negatedIntegerTree.evalDouble {}).1 = Binary64.zero false ∧
      (Binary64.zero true).toBits ≠ (Binary64.zero false).toBits := by
  have hform : Registry.standard.generate negatedIntegerTree .double = .ok "(-((double) 0L))" := by
    decide +kernel
  have hfolded : negatedIntegerTree.folded .double = .ok ⟨.float (Binary64.zero true), .int 0⟩ := by
    decide +kernel
  obtain ⟨f, x, hf, hx, hrun, -⟩ := Expr.execute_double hform
  cases hfolded.symm.trans hf
  cases hx
  refine ⟨.push _ _ (.push _ _ .empty), by decide +kernel, hform, hrun _, by decide +kernel, by decide⟩

end Zeros

end ContextCodegen
