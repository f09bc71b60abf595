import ContextCodegen.Proofs.ReboundNative

/-! When it does harm to bind standard generators to other kinds of nodes. All of them refuse a node of
another shape, but for the two of unary operations. In the boxed contexts these take any node with an operand
for a unary one, and what is generated is the text of another tree. -/
namespace ContextCodegen

/-- The generators of unary operations are bound to no other kind of node that has operands. -/
def UnaryInPlace (of : NodeKind → NodeKind) : Prop :=
  ∀ k op, 0 < k.arity → (of k).unary? = some op → k = op.kind

namespace Expr

variable {of : NodeKind → NodeKind}

theorem readBy_eq (hof : UnaryInPlace of) {e d : Expr} (h : e.readBy of = .ok d) : d = e := by
  induction e generalizing d with
  | literal loc v | var loc x =>
    rcases takenFor_eq_ok h with ⟨_, _, _, hf, _⟩ | ⟨-, h⟩
    · cases hf
    · exact (Except.ok.inj h).symm
  | assign loc x e ih =>
    rcases takenFor_eq_ok h with ⟨op, f, hu, -, -⟩ | ⟨-, h⟩
    · cases op <;> cases hof .assign _ Nat.zero_lt_one hu
    · obtain ⟨a, ha, rfl⟩ := map_eq_ok h
      rw [ih ha]
  | binary loc op l r ihl ihr =>
    rcases takenFor_eq_ok h with ⟨op', f, hu, -, -⟩ | ⟨-, h⟩
    · have hk : op.kind = op'.kind := hof _ _ (by cases op <;> decide) hu
      cases op <;> cases op' <;> cases hk
    · obtain ⟨a, b, ha, hb, rfl⟩ := both_eq_ok h
      rw [ihl ha, ihr hb]
  | unary loc op e ih =>
    rcases takenFor_eq_ok h with ⟨op', f, hu, hf, rfl⟩ | ⟨-, h⟩
    · have hk : op.kind = op'.kind := hof _ _ (by cases op <;> decide) hu
      have hop : op' = op := by cases op <;> cases op' <;> first | rfl | cases hk
      rw [ih hf, hop]
      rfl
    · obtain ⟨a, ha, rfl⟩ := map_eq_ok h
      rw [ih ha]

theorem readBy_ne_ok (hl : of .literal ≠ .literal) (hv : of .var ≠ .var) (e d : Expr) :
    e.readBy of ≠ .ok d := by
  have leaf {j k : NodeKind} (h : j.family = k.family) (hk : k.arity = 0) : j = k := by
    cases k <;> cases hk <;> cases j <;> first | rfl | cases h
  intro h
  induction e generalizing d with
  | literal loc v =>
    rcases takenFor_eq_ok h with ⟨_, _, _, hf, _⟩ | ⟨hs, -⟩
    · cases hf
    · exact hl (leaf hs rfl)
  | var loc x =>
    rcases takenFor_eq_ok h with ⟨_, _, _, hf, _⟩ | ⟨hs, -⟩
    · cases hf
    · exact hv (leaf hs rfl)
  | assign loc x e ih =>
    rcases takenFor_eq_ok h with ⟨_, f, _, hf, _⟩ | ⟨-, h⟩
    · exact ih f hf
    · obtain ⟨a, ha, -⟩ := map_eq_ok h
      exact ih a ha
  | binary loc op l r ihl ihr =>
    rcases takenFor_eq_ok h with ⟨_, f, _, hf, _⟩ | ⟨-, h⟩
    · exact ihl f hf
    · obtain ⟨a, _, ha, -⟩ := both_eq_ok h
      exact ihl a ha
  | unary loc op e ih =>
    rcases takenFor_eq_ok h with ⟨_, f, _, hf, _⟩ | ⟨-, h⟩
    · exact ih f hf
    · obtain ⟨a, ha, -⟩ := map_eq_ok h
      exact ih a ha

/-- The text that rebuilds a tree says which tree it is. -/
theorem selfTerm_eq_of_generate {d e : Expr} {s : String} (hd : Registry.standard.generate d .selfExpr = .ok s)
    (he : Registry.standard.generate e .selfExpr = .ok s) : d.selfTerm = e.selfTerm := by
  have parsed {t : Expr} (ht : Registry.standard.generate t .selfExpr = .ok s) :
      Target.parse s = .ok t.selfTerm := by
    obtain ⟨s', hs', hdenotes⟩ := generate_of_writes (e := t) (c := .selfExpr) (writesSelf t)
    obtain rfl := Except.ok.inj (hs'.symm.trans ht)
    exact hdenotes.parse_eq
  exact Except.ok.inj ((parsed hd).symm.trans (parsed he))

theorem kind_eq_of_selfTerm {e : Expr} {op : UnaryOp} {t : Target.Term}
    (h : e.selfTerm = .new op.className [t]) : e.kind = op.kind := by
  cases e with
  | literal | var => cases op <;> simp [selfTerm, UnaryOp.className] at h
  | assign | binary => simp [selfTerm] at h
  | unary loc op' e => cases op <;> cases op' <;> simp [selfTerm, UnaryOp.className] at h <;> rfl

/-- A node of a kind with operands, over a leaf, that passes for a unary operation on the leaf. -/
theorem exists_read_as_unary {k : NodeKind} {op : UnaryOp} {leaf : Expr} (hk : 0 < k.arity)
    (hu : (of k).unary? = some op) (hleaf : leaf.readBy of = .ok leaf) :
    ∃ e : Expr, e.kind = k ∧ e.readBy of = .ok (.unary e.location op leaf) := by
  have taken {e : Expr} {same : Except Refusal Expr} (he : e.kind = k) :
      takenFor of e (leaf.readBy of) same = .ok (.unary e.location op leaf) := by
    subst he
    simp only [takenFor, hu, hleaf]
    rfl
  let loc := leaf.location
  cases k with
  | literal | var => exact absurd hk (Nat.lt_irrefl 0)
  | assign => exact ⟨.assign loc "" leaf, rfl, taken rfl⟩
  | equals => exact ⟨.binary loc .eq leaf leaf, rfl, taken rfl⟩
  | notEquals => exact ⟨.binary loc .ne leaf leaf, rfl, taken rfl⟩
  | add => exact ⟨.binary loc .add leaf leaf, rfl, taken rfl⟩
  | sub => exact ⟨.binary loc .sub leaf leaf, rfl, taken rfl⟩
  | unaryMinus => exact ⟨.unary loc .neg leaf, rfl, taken rfl⟩
  | not => exact ⟨.unary loc .not leaf, rfl, taken rfl⟩

theorem exists_leaf (h : of .literal = .literal ∨ of .var = .var) :
    ∃ leaf : Expr, leaf.readBy of = .ok leaf := by
  rcases h with h | h
  · refine ⟨.literal ⟨1, 1⟩ .null, ?_⟩
    simp [readBy, takenFor, kind, h, Suits, NodeKind.unary?]
  · refine ⟨.var ⟨1, 1⟩ "", ?_⟩
    simp [readBy, takenFor, kind, h, Suits, NodeKind.unary?]

end Expr

/-- No text differs from the standard one exactly if there is none at all, for want of leaves, or if the
generators of unary operations are in place. -/
theorem harmless_iff (of : NodeKind → NodeKind) :
    (∀ e c s, (Registry.rebound of).generate e c = .ok s → Registry.standard.generate e c = .ok s) ↔
      (of .literal ≠ .literal ∧ of .var ≠ .var) ∨ UnaryInPlace of := by
  constructor
  · intro hall
    by_cases hleaf : of .literal = .literal ∨ of .var = .var
    · right
      intro k op hk hu
      obtain ⟨leaf, hread⟩ := Expr.exists_leaf hleaf
      obtain ⟨e, rfl, he⟩ := Expr.exists_read_as_unary hk hu hread
      obtain ⟨s, hs⟩ := (Expr.unary e.location op leaf).generate_boxed (c := .selfExpr) (by decide)
      have hr : (Registry.rebound of).generate e .selfExpr = .ok s := by
        rw [Expr.generate_rebound_boxed of e (by decide), he]
        exact hs
      exact Expr.kind_eq_of_selfTerm (Expr.selfTerm_eq_of_generate (hall _ _ _ hr) hs)
    · exact .inl (not_or.mp hleaf)
  · intro h e c s hs
    by_cases hc : c = .long ∨ c = .double
    · exact ((e.generate_rebound_native of hc s).mp hs).2
    · rw [e.generate_rebound_boxed of (not_or.mp hc)] at hs
      cases hread : e.readBy of with
      | error r =>
        rw [hread] at hs
        cases hs
      | ok d =>
        rw [hread] at hs
        rcases h with ⟨hl, hv⟩ | hof
        · exact absurd hread (Expr.readBy_ne_ok hl hv e d)
        · obtain rfl := Expr.readBy_eq hof hread
          exact hs

/-- What becomes of every tree where each kind of node has the standard generator of some kind. In a native
context nothing but the standard text is generated, and only where every shape is right. A refusal names a
node of the tree, and a node of another shape is refused at once, for its shape by a generator with native
forms and for the context by any other. In a boxed context the text is that of the tree that the generators
read, and a refusal is for the shape of some node. A node of another shape is refused at once, unless its
generator is that of a unary operation and the node has an operand. So no text differs from the standard one
exactly if these two generators are bound to no other kind of node with operands, or no leaf has its
generator and there is no text. -/
theorem misbound_generators_exact (of : NodeKind → NodeKind) :
    (∀ e c, c = .long ∨ c = .double →
      (∀ s, (Registry.rebound of).generate e c = .ok s ↔
        (∀ t ∈ e.subtrees, t.Suits of) ∧ Registry.standard.generate e c = .ok s) ∧
      (∀ r, (Registry.rebound of).generate e c = .error r → e.RefusedIn of c r) ∧
      (¬ e.Suits of → (Registry.rebound of).generate e c =
        .error (if (of e.kind).hasNative then .wrongShape ⟨e.kind, e.location⟩
          else .unsupported ⟨e.kind, e.location⟩ c))) ∧
    (∀ e c, c ≠ .long ∧ c ≠ .double →
      (Registry.rebound of).generate e c = (do Registry.standard.generate (← e.readBy of) c) ∧
      (∀ r, (Registry.rebound of).generate e c = .error r → e.Misfit of r) ∧
      (¬ e.Suits of → (of e.kind).unary? = none ∨ e.kind.arity = 0 →
        (Registry.rebound of).generate e c = .error (.wrongShape ⟨e.kind, e.location⟩))) ∧
    ((∀ e c s, (Registry.rebound of).generate e c = .ok s → Registry.standard.generate e c = .ok s) ↔
      (of .literal ≠ .literal ∧ of .var ≠ .var) ∨ UnaryInPlace of) := by
  refine ⟨?_, ?_, harmless_iff of⟩
  · intro e c hc
    exact ⟨e.generate_rebound_native of hc, fun r => Expr.refusedIn_of_generate of hc,
      Expr.generate_misfit_native of hc⟩
  · intro e c hc
    exact ⟨e.generate_rebound_boxed of hc, fun r => Expr.misfit_of_generate hc,
      Expr.generate_misfit_boxed hc⟩

/-- Sums are given to the generator of differences and comparisons to that of their negations. -/
private def exchanged : NodeKind → NodeKind
  | .add => .sub
  | .sub => .add
  | .equals => .notEquals
  | .notEquals => .equals
  | k => k

/-- These generators tell their operations apart by the node, so nothing changes. -/
theorem exchanged_operations_harmless :
    (Registry.rebound exchanged).generate
        (.binary ⟨1, 3⟩ .sub (.var ⟨1, 1⟩ "x") (.literal ⟨1, 2⟩ (.int 1))) .value =
      .ok "env.getValue(\"x\").sub(LongValue.create(1L))" ∧
    ∀ e c s, (Registry.rebound exchanged).generate e c = .ok s → Registry.standard.generate e c = .ok s := by
  refine ⟨by decide +kernel, (misbound_generators_exact exchanged).2.2.mpr (.inr ?_)⟩
  intro k op _ hu
  cases k <;> cases op <;> first | rfl | cases hu

private def assignmentsNegated : NodeKind → NodeKind
  | .assign => .unaryMinus
  | k => k

/-- The assignment is lost, and its value is negated. -/
theorem assignment_generated_as_negation :
    (Registry.rebound assignmentsNegated).generate (.assign ⟨1, 2⟩ "x" (.literal ⟨1, 1⟩ (.int 1))) .value =
      .ok "LongValue.create(1L).neg()" ∧
    Registry.standard.generate (.assign ⟨1, 2⟩ "x" (.literal ⟨1, 1⟩ (.int 1))) .value =
      .ok "env.setValue(\"x\", LongValue.create(1L))" := by
  decide +kernel

end ContextCodegen
