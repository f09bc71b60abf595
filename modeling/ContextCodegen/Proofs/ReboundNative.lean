import ContextCodegen.Proofs.ConstantRecords
import ContextCodegen.Proofs.ReboundReading

/-! Standard generators that are bound to other kinds of nodes, in the native contexts. Every native form
looks at the shape of its node, so a form exists only where all generators are the standard ones. -/
namespace ContextCodegen

open Emission

/-- Where the emission succeeds its result has the property, and a refusal is of the sort. -/
structure Emission.Ensures {α : Type} (A : α → Prop) (P : Refusal → Prop) (m : Emission α) : Prop where
  ok : ∀ {a}, m.result = .ok a → A a
  error : ∀ {r}, m.result = .error r → P r

namespace Emission

variable {α β : Type} {A : α → Prop} {B : β → Prop} {P : Refusal → Prop} {m : Emission α}

theorem ensures_pure {a : α} (h : A a) : (pure a : Emission α).Ensures A P :=
  ⟨fun ha => Except.ok.inj ha ▸ h, nofun⟩

theorem ensures_print (s : String) : (print s).Ensures (fun _ => True) P := ⟨fun _ => trivial, nofun⟩

theorem ensures_refuse {r : Refusal} (h : P r) : (refuse r : Emission α).Ensures A P :=
  ⟨nofun, fun hr => Except.error.inj hr ▸ h⟩

theorem ensures_of_error {r : Refusal} (hm : m.result = .error r) (h : P r) : m.Ensures A P := by
  constructor
  · intro a ha
    cases hm.symm.trans ha
  · intro r' hr'
    cases hm.symm.trans hr'
    exact h

theorem Ensures.mono {Q : Refusal → Prop} (h : m.Ensures A P) (hpq : ∀ r, P r → Q r) : m.Ensures A Q :=
  ⟨h.ok, fun hr => hpq _ (h.error hr)⟩

theorem Ensures.bind {f : α → Emission β} (h : m.Ensures A P) (hf : ∀ a, A a → (f a).Ensures B P) :
    (m >>= f).Ensures B P := by
  cases hm : m.result with
  | ok a =>
    have ha := hf a (h.ok hm)
    have hr : (m >>= f).result = (f a).result := result_bind_ok hm
    exact ⟨fun hb => ha.ok (hr ▸ hb), fun he => ha.error (hr ▸ he)⟩
  | error r => exact ensures_of_error (result_bind_error hm) (h.error hm)

theorem ensures_agreeing (site : Site) (c : Context) (o : Option Folded) {A : Prop}
    {P : Refusal → Prop} (hA : A) (hP : P (.unsupported site.subject c)) :
    (site.agreeing c o).Ensures (fun _ => A) P := by
  cases o with
  | none => exact ensures_refuse hP
  | some f =>
    simp only [Site.agreeing]
    split
    · exact ensures_pure (A := fun _ => A) hA
    · exact ensures_refuse hP

theorem ensures_negation (site : Site) (c : Context) {m : Emission (Option Folded)}
    {A B : Option Folded → Prop} {P : Refusal → Prop} (hm : m.Ensures A P)
    (hfold : ∀ f, A (some f) → (site.agreeing c (some f.negated)).Ensures B P) (hnone : A none → B none) :
    Ensures B P (do
      print "(-"
      let folded ← m
      print ")"
      match folded with
      | some f => site.agreeing c (some f.negated)
      | none => return none) := by
  refine (ensures_print _).bind fun _ _ => hm.bind fun o hA => (ensures_print _).bind fun _ _ => ?_
  cases o with
  | none => exact ensures_pure (hnone hA)
  | some f => exact hfold f hA

/-- A sum or a difference folds two constant operands, and no constant comes of any other two. -/
theorem ensures_sum (site : Site) (c : Context) (op : BinaryOp) {m n : Emission (Option Folded)}
    {A B C : Option Folded → Prop} {P : Refusal → Prop} (hm : m.Ensures A P) (hn : n.Ensures B P)
    (hfold : ∀ f g, A (some f) → B (some g) → (site.agreeing c (f.binary op g)).Ensures C P)
    (hnone : ∀ o p, A o → B p → o = none ∨ p = none → C none) :
    Ensures C P (do
      print "("
      let l ← m
      print (" " ++ op.symbol ++ " ")
      let r ← n
      print ")"
      match l, r with
      | some l, some r => site.agreeing c (l.binary op r)
      | _, _ => return none) := by
  refine (ensures_print _).bind fun _ _ => hm.bind fun o hA => (ensures_print _).bind fun _ _ => ?_
  refine hn.bind fun p hB => (ensures_print _).bind fun _ _ => ?_
  cases o with
  | none => exact ensures_pure (hnone none p hA hB (.inl rfl))
  | some f =>
    cases p with
    | none => exact ensures_pure (hnone (some f) none hA hB (.inr rfl))
    | some g => exact hfold f g hA hB

end Emission

namespace Generator

theorem standard_emit_native (k : NodeKind) (site : Site) {c : Context} (hc : c = .long ∨ c = .double) :
    (standard k site).emit c = discard ((standard k site).native.get c) := by
  cases k <;> rcases hc with rfl | rfl <;> rfl

theorem native_of_not_hasNative {k : NodeKind} (hk : k.hasNative = false) (site : Site) (c : Context) :
    ((standard k site).native.get c).result = .error (.unsupported site.subject c) := by
  cases k with
  | literal | unaryMinus | add | sub => cases hk
  | var | assign | equals | notEquals | not => cases c <;> rfl

theorem native_misfit {k : NodeKind} (site : Site) (hk : k.family ≠ site.node.kind.family)
    (hn : k.hasNative = true) (c : Context) :
    ((standard k site).native.get c).result = .error (.wrongShape site.subject) := by
  obtain ⟨node, operands⟩ := site
  cases k with
  | var | assign | equals | notEquals | not => cases hn
  | literal =>
    cases node with
    | literal loc v => exact absurd rfl hk
    | _ => cases c <;> rfl
  | unaryMinus =>
    have hne : node.kind ≠ .unaryMinus := fun h => hk (congrArg NodeKind.family h.symm)
    cases c <;> exact congrArg Emission.result (if_pos hne)
  | add | sub =>
    cases node with
    | binary loc op l r =>
      cases op with
      | add | sub => exact absurd rfl hk
      | eq | ne => cases c <;> rfl
    | _ => cases c <;> rfl

end Generator

namespace Expr

variable (of : NodeKind → NodeKind)

/-- The refusal names a node of the tree that has no form in the context or not the right shape. -/
def RefusedIn (c : Context) (e : Expr) (r : Refusal) : Prop := e.Blames c r ∨ e.Misfit of r

theorem RefusedIn.mono {of : NodeKind → NodeKind} {c : Context} {d e : Expr} {r : Refusal}
    (h : d.RefusedIn of c r) (hsub : d.subtrees ⊆ e.subtrees) : e.RefusedIn of c r :=
  h.imp (fun hb => hb.mono hsub) fun hm => hm.mono hsub

theorem blames_of_native {e : Expr} {c : Context} {r : Refusal}
    (h : (e.generator.native.get c).result = .error r) : e.Blames c r := by
  have hf := folds e c
  cases hx : e.folded c with
  | ok f =>
    rw [hx] at hf
    obtain ⟨_, hp, -⟩ := hf
    cases hp.1.symm.trans h
  | error r' =>
    rw [hx] at hf
    obtain rfl : r' = r := Except.error.inj (Eq.trans (Eq.symm hf) h)
    exact blames_of_folded hx

private theorem ensures_refused {e : Expr} {c : Context} (h : e.kind.hasNative = false ∨ ¬ e.Suits of) :
    ((e.boundGenerator of).native.get c).Ensures (fun _ => ∀ t ∈ e.subtrees, t.Suits of)
      (e.RefusedIn of c) := by
  obtain ⟨operands, hg⟩ := e.boundGenerator_eq_standard of
  rw [hg]
  cases hn : (of e.kind).hasNative with
  | false =>
    exact ensures_of_error (Generator.native_of_not_hasNative hn ⟨e, operands⟩ c) (.inl (e.blames_self c))
  | true =>
    have hs : ¬ e.Suits of := by
      rcases h with hk | hs
      · intro hs
        cases (NodeKind.hasNative_congr hs).symm.trans hn |>.symm.trans hk
      · exact hs
    exact ensures_of_error (Generator.native_misfit ⟨e, operands⟩ hs hn c) (.inr (misfit_self of hs))

/-- A native form exists only where every shape is right. -/
theorem ensures_native (e : Expr) (c : Context) : ((e.boundGenerator of).native.get c).Ensures
    (fun _ => ∀ t ∈ e.subtrees, t.Suits of) (e.RefusedIn of c) := by
  induction e with
  | literal loc v =>
    by_cases hs : (Expr.literal loc v).Suits of
    · have hall : ∀ t ∈ (Expr.literal loc v).subtrees, t.Suits of := by simpa [subtrees] using hs
      rw [boundGenerator_eq of hall]
      exact ⟨fun _ => hall, fun hr => .inl (blames_of_native hr)⟩
    · exact ensures_refused of (.inr hs)
  | var loc x => exact ensures_refused of (.inl rfl)
  | assign loc x e ih => exact ensures_refused of (.inl rfl)
  | binary loc op l r ihl ihr =>
    by_cases hs : (Expr.binary loc op l r).Suits of
    · have root : Generator.standard (of op.kind) = Generator.standard op.kind := NodeKind.standard_congr hs
      have hl := ihl.mono fun _ h => h.mono (e := .binary loc op l r) (by simp [subtrees])
      have hr := ihr.mono fun _ h => h.mono (e := .binary loc op l r) (by simp [subtrees])
      have all (hl : ∀ t ∈ l.subtrees, t.Suits of) (hr : ∀ t ∈ r.subtrees, t.Suits of) :
          ∀ t ∈ (Expr.binary loc op l r).subtrees, t.Suits of :=
        forall_subtrees_iff.mpr ⟨hs, by simpa [operands] using ⟨hl, hr⟩⟩
      have h := ensures_sum ⟨.binary loc op l r, [.ok (l.boundGenerator of), .ok (r.boundGenerator of)]⟩
        c op hl hr (fun _ _ hl hr => ensures_agreeing _ c _ (all hl hr) (.inl (blames_self _ c)))
        fun _ _ hl hr _ => all hl hr
      cases op with
      | eq | ne => exact ensures_refused of (.inl rfl)
      | add | sub =>
        rw [boundGenerator, generatorBy, root]
        cases c <;> exact h
    · exact ensures_refused of (.inr hs)
  | unary loc op e ih =>
    cases op with
    | not => exact ensures_refused of (.inl rfl)
    | neg =>
      by_cases hs : (Expr.unary loc .neg e).Suits of
      · have root : Generator.standard (of .unaryMinus) = Generator.minus := NodeKind.standard_congr hs
        have he := ih.mono fun _ h => h.mono (e := .unary loc .neg e) (by simp [subtrees])
        have all (he : ∀ t ∈ e.subtrees, t.Suits of) : ∀ t ∈ (Expr.unary loc .neg e).subtrees, t.Suits of :=
          forall_subtrees_iff.mpr ⟨hs, by simpa [operands] using he⟩
        have h := ensures_negation ⟨.unary loc .neg e, [.ok (e.boundGenerator of)]⟩ c he
          (fun _ he => ensures_agreeing _ c _ (all he) (.inl (blames_self _ c))) all
        rw [boundGenerator, generatorBy, UnaryOp.kind, root]
        cases c <;> exact h
      · exact ensures_refused of (.inr hs)

theorem generate_rebound_toText (e : Expr) {c : Context} (hc : c = .long ∨ c = .double) :
    (Registry.rebound of).generate e c = ((e.boundGenerator of).native.get c).toText := by
  obtain ⟨operands, hg⟩ := e.boundGenerator_eq_standard of
  rw [generate_rebound, hg, Generator.standard_emit_native _ _ hc, toText_discard]

/-- In a native context the text is the standard one, and every shape is right. -/
theorem generate_rebound_native (e : Expr) {c : Context} (hc : c = .long ∨ c = .double) (s : String) :
    (Registry.rebound of).generate e c = .ok s ↔
      (∀ t ∈ e.subtrees, t.Suits of) ∧ Registry.standard.generate e c = .ok s := by
  constructor
  · intro h
    have ht := h
    rw [generate_rebound_toText of e hc, toText] at ht
    cases hm : ((e.boundGenerator of).native.get c).result with
    | error r =>
      rw [hm] at ht
      cases ht
    | ok o =>
      have hall := (e.ensures_native of c).ok hm
      rw [generate_rebound, boundGenerator_eq of hall, ← generate_standard] at h
      exact ⟨hall, h⟩
  · rintro ⟨hall, h⟩
    rwa [generate_rebound, boundGenerator_eq of hall, ← generate_standard]

theorem refusedIn_of_generate {e : Expr} {c : Context} {r : Refusal} (hc : c = .long ∨ c = .double)
    (h : (Registry.rebound of).generate e c = .error r) : e.RefusedIn of c r := by
  rw [generate_rebound_toText of e hc, toText] at h
  cases hm : ((e.boundGenerator of).native.get c).result with
  | ok o =>
    rw [hm] at h
    cases h
  | error r' =>
    rw [hm] at h
    cases h
    exact (e.ensures_native of c).error hm

/-- A node of another shape is refused before its operands are looked at. -/
theorem generate_misfit_native {e : Expr} {c : Context} (hc : c = .long ∨ c = .double)
    (hs : ¬ e.Suits of) : (Registry.rebound of).generate e c =
      .error (if (of e.kind).hasNative then .wrongShape ⟨e.kind, e.location⟩
        else .unsupported ⟨e.kind, e.location⟩ c) := by
  obtain ⟨operands, hg⟩ := e.boundGenerator_eq_standard of
  rw [generate_rebound_toText of e hc, toText, hg]
  cases hn : (of e.kind).hasNative with
  | true =>
    rw [Generator.native_misfit ⟨e, operands⟩ hs hn c]
    rfl
  | false =>
    rw [Generator.native_of_not_hasNative hn ⟨e, operands⟩ c]
    rfl

end Expr

end ContextCodegen
