import ContextCodegen.Proofs.ReboundNative

/-! Native forms around variables. Where variables have a long form of their own, constants are still folded
beside them, and what depends on a variable is left to the run. -/
namespace ContextCodegen

open Emission

/-- The generator has a long form for every variable, no double form, and folds nothing. -/
structure Factory.ReadsLong (f : Factory) : Prop where
  long : ∀ loc x, (f ⟨.var loc x, []⟩).long.result = .ok ()
  double : ∀ loc x, (f ⟨.var loc x, []⟩).double.result = .error (.unsupported ⟨.var, loc⟩ .double)
  native : ∀ loc x, (f ⟨.var loc x, []⟩).native =
    unfoldedNative ⟨.var, loc⟩ (f ⟨.var loc x, []⟩).long (f ⟨.var loc x, []⟩).double

section Trees

namespace Expr

def HasVar (e : Expr) : Prop := ∃ t ∈ e.subtrees, t.kind = .var

/-- Nothing but integers, variables and operations on them, and every part without a variable has an exact
value in range. -/
def LongForm (e : Expr) : Prop :=
  ∀ t ∈ e.subtrees, (t.isIntegral = true ∨ t.kind = .var) ∧ (¬ t.HasVar → t.fits = true)

variable {d e : Expr}

theorem mem_subtrees_of_operand (h : d ∈ e.operands) : d.subtrees ⊆ e.subtrees :=
  fun _ ht => mem_subtrees_iff.mpr (.inr ⟨d, h, ht⟩)

theorem HasVar.mono (h : d.HasVar) (hsub : d.subtrees ⊆ e.subtrees) : e.HasVar := by
  obtain ⟨t, ht, hk⟩ := h
  exact ⟨t, hsub ht, hk⟩

theorem hasVar_iff : e.HasVar ↔ e.kind = .var ∨ ∃ d ∈ e.operands, d.HasVar := by
  constructor
  · rintro ⟨t, ht, hk⟩
    rcases mem_subtrees_iff.mp ht with rfl | ⟨d, hd, ht⟩
    · exact .inl hk
    · exact .inr ⟨d, hd, t, ht, hk⟩
  · rintro (hk | ⟨d, hd, hv⟩)
    · exact ⟨e, e.mem_subtrees_self, hk⟩
    · exact hv.mono (mem_subtrees_of_operand hd)

theorem HasVar.operand (h : e.HasVar) (hi : e.isIntegral = true) : ∃ d ∈ e.operands, d.HasVar := by
  refine (hasVar_iff.mp h).resolve_left fun hk => ?_
  cases e with
  | literal loc v => cases hk
  | var loc x => cases hi
  | assign loc x e => cases hk
  | binary loc op l r => cases op <;> cases hk
  | unary loc op e => cases op <;> cases hk

theorem longForm_iff : e.LongForm ↔
    ((e.isIntegral = true ∨ e.kind = .var) ∧ (¬ e.HasVar → e.fits = true)) ∧ ∀ d ∈ e.operands, d.LongForm :=
  forall_subtrees_iff

/-- Without a variable there is a long form exactly if no node offends. -/
theorem longForm_iff_of_constant (h : ¬ e.HasVar) : e.LongForm ↔ e.visited.find? offends = none := by
  rw [find?_offends_eq_none_iff]
  constructor
  · intro hl t ht
    obtain ⟨hi, hf⟩ := hl t ht
    refine ⟨hi.resolve_right fun hk => h ⟨t, ht, hk⟩, hf fun hv => h (hv.mono (subtrees_subset ht))⟩
  · intro hall t ht
    exact ⟨.inl (hall t ht).1, fun _ => (hall t ht).2⟩

/-- The constant that a long form comes with, if no variable is in it. -/
inductive LongRecord (e : Expr) : Option Folded → Prop
  | runtime : e.LongForm → e.HasVar → LongRecord e none
  | constant {w : Int64} : e.LongForm → ¬ e.HasVar → e.integer? = some w.toInt →
      LongRecord e (some (.long w))

/-- There is no long form, and the refusal names a node that has none. -/
def LongRefusal (e : Expr) (r : Refusal) : Prop := ¬ e.LongForm ∧ e.Blames .long r

theorem LongRecord.longForm {o : Option Folded} (h : e.LongRecord o) : e.LongForm := by
  cases h with
  | runtime hl => exact hl
  | constant hl => exact hl

theorem LongRecord.eq_none {o : Option Folded} (h : e.LongRecord o) (hv : e.HasVar) : o = none := by
  cases h with
  | runtime => rfl
  | constant _ hn => exact absurd hv hn

theorem longRecord_of_operands (hi : e.isIntegral = true) (hv : e.HasVar)
    (ho : ∀ d ∈ e.operands, d.LongForm) : e.LongRecord none :=
  .runtime (longForm_iff.mpr ⟨⟨.inl hi, fun h => absurd hv h⟩, ho⟩) hv

theorem LongRefusal.operand {r : Refusal} (h : d.LongRefusal r) (hd : d ∈ e.operands) : e.LongRefusal r :=
  ⟨fun hl => h.1 ((longForm_iff.mp hl).2 d hd), h.2.mono (mem_subtrees_of_operand hd)⟩

theorem longRefusal_self (hi : e.isIntegral = false) (hk : e.kind ≠ .var) :
    e.LongRefusal (.unsupported ⟨e.kind, e.location⟩ .long) := by
  refine ⟨fun hl => ?_, e.blames_self .long⟩
  rcases (longForm_iff.mp hl).1.1 with h | h
  · exact Bool.false_ne_true (hi.symm.trans h)
  · exact hk h

end Expr

end Trees

section Generators

namespace Expr

variable (f : Factory)

/-- The standard factories, but for variables. -/
def standardBut : NodeKind → Factory
  | .var => f
  | k => Generator.standard k

theorem standardBut_of_ne {k : NodeKind} (h : k ≠ .var) : standardBut f k = Generator.standard k := by
  cases k with
  | var => exact absurd rfl h
  | _ => rfl

abbrev generatorWith (e : Expr) : Generator := e.generatorBy (standardBut f)

theorem factory?_with (k : NodeKind) :
    (Registry.standard.register .var f).factory? k = some (standardBut f k) := by
  cases k <;> rfl

theorem resolve_with (e : Expr) : (Registry.standard.register .var f).resolve e = .ok (e.generatorWith f) :=
  e.resolve_of_table (factory?_with f)

theorem generatorWith_eq {e : Expr} (h : ¬ e.HasVar) : e.generatorWith f = e.generator := by
  apply generatorBy_congr
  intro t ht
  exact standardBut_of_ne f fun hk => h ⟨t, ht, hk⟩

variable {f}

/-- The text of a native form is the same with its constant and without. -/
theorem generate_with (hf : f.ReadsLong) (e : Expr) {c : Context} (hc : c = .long ∨ c = .double) :
    (Registry.standard.register .var f).generate e c = ((e.generatorWith f).native.get c).toText := by
  have standard (k : NodeKind) (site : Site) :
      ((Generator.standard k site).emit c).toText = ((Generator.standard k site).native.get c).toText := by
    rw [Generator.standard_emit_native k site hc, toText_discard]
  rw [e.generate_of_table (factory?_with f)]
  cases e with
  | literal loc v => exact standard .literal _
  | var loc x =>
    change ((f _).emit c).toText = ((f _).native.get c).toText
    rw [hf.native loc x]
    rcases hc with rfl | rfl
    · exact (toText_then_pure _ none).symm
    · exact (toText_then_pure _ none).symm
  | assign loc x e => exact standard .assign _
  | binary loc op l r =>
    rw [generatorWith, generatorBy, standardBut_of_ne f (by cases op <;> rintro ⟨⟩)]
    exact standard op.kind _
  | unary loc op e =>
    rw [generatorWith, generatorBy, standardBut_of_ne f (by cases op <;> rintro ⟨⟩)]
    exact standard op.kind _

/-- What holds of constants and of variables, and is kept by operations on variables, holds of every native
form. An operation on a variable never folds, since one of its operands is no constant. -/
private theorem ensures_around {c : Context} {A : Expr → Option Folded → Prop} {P : Expr → Refusal → Prop}
    (hconstant : ∀ {e : Expr}, ¬ e.HasVar → (e.generator.native.get c).Ensures (A e) (P e))
    (hvar : ∀ loc x, ((f ⟨.var loc x, []⟩).native.get c).Ensures (A (.var loc x)) (P (.var loc x)))
    (hself : ∀ {e}, e.isIntegral = false → e.kind ≠ .var → P e (.unsupported ⟨e.kind, e.location⟩ c))
    (hoperand : ∀ {d e r}, d ∈ e.operands → P d r → P e r)
    (hnone : ∀ {e o}, e.HasVar → A e o → o = none)
    (hrun : ∀ {e}, e.isIntegral = true → e.HasVar → (∀ d ∈ e.operands, ∃ o, A d o) → A e none) (e : Expr) :
    ((e.generatorWith f).native.get c).Ensures (A e) (P e) := by
  induction e with
  | literal loc v => exact hconstant (by simp [HasVar, subtrees, kind])
  | var loc x => exact hvar loc x
  | assign loc x e ih =>
    exact ensures_of_error (Generator.native_of_not_hasNative (k := .assign) rfl _ c) (hself rfl (by rintro ⟨⟩))
  | binary loc op l r ihl ihr =>
    by_cases hv : (Expr.binary loc op l r).HasVar
    · have hl := ihl.mono fun _ h => hoperand (e := .binary loc op l r) (by simp [operands]) h
      have hr := ihr.mono fun _ h => hoperand (e := .binary loc op l r) (by simp [operands]) h
      have hsum (hi : (Expr.binary loc op l r).isIntegral = true) := ensures_sum
        ⟨.binary loc op l r, [.ok (l.generatorWith f), .ok (r.generatorWith f)]⟩ c op hl hr
        (fun g h hg hh => by
          obtain ⟨d, hd, hd'⟩ := hv.operand hi
          simp only [operands, List.mem_cons, List.not_mem_nil, or_false] at hd
          rcases hd with rfl | rfl
          · cases hnone hd' hg
          · cases hnone hd' hh)
        fun o p ho hp _ => hrun hi hv (by simpa [operands] using ⟨⟨o, ho⟩, ⟨p, hp⟩⟩)
      cases op with
      | eq =>
        exact ensures_of_error (Generator.native_of_not_hasNative (k := .equals) rfl _ c)
          (hself rfl (by rintro ⟨⟩))
      | ne =>
        exact ensures_of_error (Generator.native_of_not_hasNative (k := .notEquals) rfl _ c)
          (hself rfl (by rintro ⟨⟩))
      | add | sub => cases c <;> exact hsum rfl
    · rw [generatorWith_eq f hv]
      exact hconstant hv
  | unary loc op e ih =>
    by_cases hv : (Expr.unary loc op e).HasVar
    · cases op with
      | not =>
        exact ensures_of_error (Generator.native_of_not_hasNative (k := .not) rfl _ c) (hself rfl (by rintro ⟨⟩))
      | neg =>
        have he := ih.mono fun _ h => hoperand (e := .unary loc .neg e) (by simp [operands]) h
        have hneg := ensures_negation ⟨.unary loc .neg e, [.ok (e.generatorWith f)]⟩ c he
          (fun g hg => by
            obtain ⟨d, hd, hd'⟩ := hv.operand rfl
            obtain rfl := List.mem_singleton.mp hd
            cases hnone hd' hg)
          fun ho => hrun rfl hv (by simpa [operands] using ⟨none, ho⟩)
        cases c <;> exact hneg
    · rw [generatorWith_eq f hv]
      exact hconstant hv

private theorem ensures_long_constant {e : Expr} (h : ¬ e.HasVar) :
    (e.generator.native.get .long).Ensures e.LongRecord e.LongRefusal := by
  have hfolds := folds e .long
  have hout := e.longOutcome
  cases hfind : e.visited.find? offends with
  | none =>
    obtain ⟨w, hw⟩ := hout.ok hfind
    rw [hw.folded] at hfolds
    obtain ⟨_, hp, -⟩ := hfolds
    refine ⟨fun ho => ?_, fun hr => by cases hp.1.symm.trans hr⟩
    obtain rfl := Except.ok.inj (hp.1.symm.trans ho)
    exact .constant ((longForm_iff_of_constant h).mpr hfind) h hw.exact
  | some t =>
    have herror := hout.error hfind
    rw [herror] at hfolds
    refine ensures_of_error hfolds ⟨fun hl => ?_, blames_of_folded herror⟩
    cases ((longForm_iff_of_constant h).mp hl).symm.trans hfind

/-- A long form is found exactly where there is one. A constant is exact, and comes only of constants. -/
theorem ensures_long (hf : f.ReadsLong) (e : Expr) :
    ((e.generatorWith f).native.get .long).Ensures e.LongRecord e.LongRefusal := by
  refine ensures_around ensures_long_constant ?_ longRefusal_self (fun hd h => h.operand hd)
    (fun hv h => h.eq_none hv) ?_ e
  · intro loc x
    have hv : (Expr.var loc x).HasVar := hasVar_iff.mpr (.inl rfl)
    have hl : (Expr.var loc x).LongForm :=
      longForm_iff.mpr ⟨⟨.inr rfl, fun h => absurd hv h⟩, by simp [operands]⟩
    rw [hf.native loc x]
    have hlong : (f ⟨.var loc x, []⟩).long.Ensures (fun _ => True) (Expr.var loc x).LongRefusal :=
      ⟨fun _ => trivial, fun hr => by cases (hf.long loc x).symm.trans hr⟩
    exact hlong.bind fun _ _ => ensures_pure (.runtime hl hv)
  · intro e hi hv ho
    refine longRecord_of_operands hi hv fun d hd => ?_
    obtain ⟨o, ho⟩ := ho d hd
    exact ho.longForm

theorem ensures_double (hf : f.ReadsLong) (e : Expr) :
    ((e.generatorWith f).native.get .double).Ensures (fun _ => ¬ e.HasVar) (e.Blames .double) := by
  refine ensures_around (A := fun e _ => ¬ e.HasVar) (fun h => ⟨fun _ => h, fun hr => blames_of_native hr⟩) ?_
    (fun _ _ => blames_self _ .double) (fun hd h => h.mono (mem_subtrees_of_operand hd))
    (fun hv h => absurd hv h) ?_ e
  · intro loc x
    rw [hf.native loc x]
    exact ensures_of_error (result_bind_error (hf.double loc x)) (blames_self (.var loc x) .double)
  · intro e hi hv ho
    obtain ⟨d, hd, hd'⟩ := hv.operand hi
    obtain ⟨-, h⟩ := ho d hd
    exact absurd hd' h

end Expr

end Generators

/-- Around variables that have a long form of their own, an expression has a long form exactly if it has
nothing but integers, variables, negations, sums and differences in it, and every part without a variable has
an exact value in range. The form comes with a constant exactly if there is no variable, and then the constant
is the exact value. A refusal in the long context names a node of the expression, and in the double context
every expression with a variable is refused so. -/
theorem long_form_around_variables {f : Factory} (hf : f.ReadsLong) (e : Expr) :
    let r := Registry.standard.register .var f
    ((∃ s, r.generate e .long = .ok s) ↔
      ∀ t ∈ e.subtrees, (t.isIntegral = true ∨ t.kind = .var) ∧ (¬ t.HasVar → t.fits = true)) ∧
    (∀ x, r.generate e .long = .error x → ∃ t ∈ e.subtrees, x = .unsupported ⟨t.kind, t.location⟩ .long) ∧
    (∃ g, r.resolve e = .ok g ∧ ∀ s, r.generate e .long = .ok s →
      ∃ o, (g.native.get .long).result = .ok o ∧ (g.native.get .long).toText = .ok s ∧
        ((∃ k, o = some k) ↔ ¬ e.HasVar) ∧
        ∀ k, o = some k → ∃ w : Int64, e.integer? = some w.toInt ∧ k.native = .int w ∧ k.boxed = .int w) ∧
    (e.HasVar → ∃ t ∈ e.subtrees, r.generate e .double = .error (.unsupported ⟨t.kind, t.location⟩ .double)) := by
  intro r
  have hlong := Expr.ensures_long hf e
  have hdouble := Expr.ensures_double hf e
  have refused : e.HasVar →
      ∃ t ∈ e.subtrees, r.generate e .double = .error (.unsupported ⟨t.kind, t.location⟩ .double) := by
    intro hv
    rw [Expr.generate_with hf e (.inr rfl)]
    cases hm : ((e.generatorWith f).native.get .double).result with
    | ok o => exact absurd hv (hdouble.ok hm)
    | error x =>
      obtain ⟨t, ht, rfl⟩ := hdouble.error hm
      exact ⟨t, ht, toText_of_error hm⟩
  rw [Expr.generate_with hf e (.inl rfl)]
  cases hm : ((e.generatorWith f).native.get .long).result with
  | ok o =>
    have hrecord := hlong.ok hm
    rw [toText_of_ok hm]
    refine ⟨⟨fun _ => hrecord.longForm, fun _ => ⟨_, rfl⟩⟩, nofun, ⟨_, e.resolve_with f, ?_⟩, refused⟩
    rintro _ ⟨⟩
    refine ⟨o, hm, toText_of_ok hm, ?_⟩
    cases hrecord with
    | runtime _ hv => exact ⟨by simp [hv], nofun⟩
    | @constant w _ hv hw =>
      refine ⟨by simp [hv], ?_⟩
      rintro _ ⟨⟩
      exact ⟨w, hw, rfl, rfl⟩
  | error x =>
    obtain ⟨hl, hblames⟩ := hlong.error hm
    rw [toText_of_error hm]
    refine ⟨⟨nofun, fun h => absurd h hl⟩, ?_, ⟨_, e.resolve_with f, nofun⟩, refused⟩
    rintro _ ⟨⟩
    exact hblames

private def firstSlot : Factory := fun site =>
  { subject := site.subject
    value := print "slots[0]"
    selfExpr := print "new SlotExpr(0)"
    long := print "longSlots[0]"
    declared := fun _ => .ok { Contexts.boxed with long := true } }

private def pastRange : Expr :=
  .binary ⟨1, 4⟩ .add (.literal ⟨1, 2⟩ (.int Int64.maxValue)) (.literal ⟨1, 3⟩ (.int 1))

private def addedAtOnce : Expr := .binary ⟨1, 5⟩ .add (.var ⟨1, 1⟩ "x") pastRange

private def addedInTurn : Expr :=
  .binary ⟨1, 5⟩ .add (.binary ⟨1, 3⟩ .add (.var ⟨1, 1⟩ "x") (.literal ⟨1, 2⟩ (.int Int64.maxValue)))
    (.literal ⟨1, 4⟩ (.int 1))

/-- A sum that may overflow in the run is left to it, but one of constants that overflows is refused. -/
theorem overflow_blamed_on_constants :
    let r := Registry.standard.register .var firstSlot
    firstSlot.ReadsLong ∧ addedInTurn.HasVar ∧
      r.generate addedInTurn .long = .ok "((longSlots[0] + 9223372036854775807L) + 1L)" ∧
      (∃ g, r.resolve addedInTurn = .ok g ∧ (g.native.get .long).result = .ok none) ∧
      (∃ t ∈ addedInTurn.subtrees,
        r.generate addedInTurn .double = .error (.unsupported ⟨t.kind, t.location⟩ .double)) ∧
      ¬ ∃ s, r.generate addedAtOnce .long = .ok s := by
  have hf : firstSlot.ReadsLong := ⟨fun _ _ => rfl, fun _ _ => rfl, fun _ _ => rfl⟩
  have hv : addedInTurn.HasVar := ⟨.var ⟨1, 1⟩ "x", by decide, rfl⟩
  have htext : (Registry.standard.register .var firstSlot).generate addedInTurn .long =
      .ok "((longSlots[0] + 9223372036854775807L) + 1L)" := by decide +kernel
  obtain ⟨-, -, ⟨g, hg, hrecord⟩, hdouble⟩ := long_form_around_variables hf addedInTurn
  obtain ⟨o, ho, -, hsome, -⟩ := hrecord _ htext
  have hnone : o = none := Option.eq_none_iff_forall_ne_some.mpr fun k hk => hsome.mp ⟨k, hk⟩ hv
  refine ⟨hf, hv, htext, ⟨g, hg, hnone ▸ ho⟩, hdouble hv, fun hlong => ?_⟩
  have hconstant : ¬ pastRange.HasVar := by
    rintro ⟨t, ht, hk⟩
    simp only [pastRange, Expr.subtrees, List.mem_append, List.mem_singleton] at ht
    rcases ht with (rfl | rfl) | rfl <;> cases hk
  have hfits := ((long_form_around_variables hf addedAtOnce).1.mp hlong pastRange (by decide)).2 hconstant
  exact absurd hfits (by decide +kernel)

end ContextCodegen
