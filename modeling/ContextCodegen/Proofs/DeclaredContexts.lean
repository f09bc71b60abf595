import ContextCodegen.Proofs.NativeLong

/-! The contexts that a standard generator declares are those in which it has a form. In any other
context the refusal is about the context, and names a node of the tree. -/
namespace ContextCodegen

namespace Expr

variable {e : Expr} {c : Context} {r : Refusal}

/-- The refusal says that some node of the tree has no form in the context. -/
def Blames (e : Expr) (c : Context) (r : Refusal) : Prop :=
  ∃ t ∈ e.subtrees, r = .unsupported ⟨t.kind, t.location⟩ c

theorem blames_self (e : Expr) (c : Context) : e.Blames c (.unsupported ⟨e.kind, e.location⟩ c) :=
  ⟨e, e.mem_subtrees_self, rfl⟩

theorem Blames.mono {d : Expr} (h : d.Blames c r) (hsub : d.subtrees ⊆ e.subtrees) : e.Blames c r := by
  obtain ⟨t, ht, hr⟩ := h
  exact ⟨t, hsub ht, hr⟩

private theorem kept_eq_error {s : Subject} {o : Option Folded} (h : Folded.kept s c o = .error r) :
    r = .unsupported s c := by
  cases o with
  | none => exact (Except.error.inj h).symm
  | some f =>
    simp only [Folded.kept] at h
    split at h
    · cases h
    · exact (Except.error.inj h).symm

/-- An operation without a form is refused for the first operand that has none, or else for itself. -/
theorem blames_of_folded (h : e.folded c = .error r) : e.Blames c r := by
  induction e generalizing r with
  | literal loc v =>
    have hr : r = .unsupported ⟨.literal, loc⟩ c := by
      cases c <;> cases v <;> cases h <;> rfl
    exact hr ▸ blames_self _ c
  | var loc x => exact Except.error.inj h ▸ blames_self _ c
  | assign loc x e ih => exact Except.error.inj h ▸ blames_self _ c
  | binary loc op l r' ihl ihr =>
    have combine (h : (do Folded.kept ⟨op.kind, loc⟩ c ((← l.folded c).binary op (← r'.folded c))) =
        .error r) : (Expr.binary loc op l r').Blames c r := by
      rcases bind_eq_error h with hl | ⟨f, -, h⟩
      · exact (ihl hl).mono (by simp [subtrees])
      · rcases bind_eq_error h with hr | ⟨g, -, h⟩
        · exact (ihr hr).mono (by simp [subtrees])
        · exact kept_eq_error h ▸ blames_self _ c
    cases op with
    | eq | ne => exact Except.error.inj h ▸ blames_self _ c
    | add | sub => exact combine h
  | unary loc op e ih =>
    cases op with
    | not => exact Except.error.inj h ▸ blames_self _ c
    | neg =>
      rcases bind_eq_error h with he | ⟨f, -, h⟩
      · exact (ih he).mono (by simp [subtrees])
      · exact kept_eq_error h ▸ blames_self _ c

def formContexts (e : Expr) : Contexts :=
  { Contexts.boxed with long := (e.folded .long).isOk, double := (e.folded .double).isOk }

private theorem supported_native (e : Expr) (c : Context) :
    Generator.supported (e.generator.native.get c) = .ok (e.folded c).isOk := by
  have hf := folds e c
  cases h : e.folded c with
  | ok f =>
    rw [h] at hf
    obtain ⟨cs, hp, -⟩ := hf
    rw [Generator.supported, Emission.refusal?_of_ok hp.1]
    rfl
  | error r =>
    rw [h] at hf
    obtain ⟨t, -, rfl⟩ := blames_of_folded h
    have hr : (e.generator.native.get c).result = .error (.unsupported ⟨t.kind, t.location⟩ c) := hf
    rw [Generator.supported, Emission.refusal?_of_error hr]
    rfl

private theorem nativeContexts_eq (e : Expr) :
    Generator.nativeContexts e.generator.native = .ok e.formContexts := by
  have hlong : Generator.supported e.generator.native.long = _ := e.supported_native .long
  have hdouble : Generator.supported e.generator.native.double = _ := e.supported_native .double
  rw [Generator.nativeContexts, hlong, hdouble]
  rfl

/-- A literal declares its contexts by its type, a sum, a difference or a negation by trying the
native forms, and any other node declares the boxed ones. All of them come to the same. -/
theorem contexts_generator (e : Expr) : e.generator.contexts = .ok e.formContexts := by
  cases e with
  | literal loc v => cases v <;> rfl
  | var loc x => rfl
  | assign loc x e => rfl
  | binary loc op l r =>
    cases op with
    | eq | ne => rfl
    | add => exact nativeContexts_eq (.binary loc .add l r)
    | sub => exact nativeContexts_eq (.binary loc .sub l r)
  | unary loc op e =>
    cases op with
    | not => rfl
    | neg => exact nativeContexts_eq (.unary loc .neg e)

theorem generate_boxed (e : Expr) (hc : c ≠ .long ∧ c ≠ .double) :
    ∃ s, Registry.standard.generate e c = .ok s := by
  have written {t : Target.Term} (h : (e.generator.emit c).Writes t) :
      ∃ s, Registry.standard.generate e c = .ok s := by
    obtain ⟨s, hs, -⟩ := generate_of_writes h
    exact ⟨s, hs⟩
  cases c with
  | value => exact written (writesBoxed e).value
  | boolean => exact written (writesBoxed e).boolean
  | selfExpr => exact written (writesSelf e)
  | long => exact absurd rfl hc.1
  | double => exact absurd rfl hc.2

private theorem generate_native (e : Expr) (hc : c = .long ∨ c = .double) :
    ((e.folded c).isOk = true ∧ ∃ s, Registry.standard.generate e c = .ok s) ∨
      ((e.folded c).isOk = false ∧ ∃ r, Registry.standard.generate e c = .error r ∧ e.Blames c r) := by
  cases hf : e.folded c with
  | ok f =>
    obtain ⟨s, hs, -⟩ := generate_of_folded hc hf
    exact .inl ⟨rfl, s, hs⟩
  | error r => exact .inr ⟨rfl, r, generate_of_refused hc hf, blames_of_folded hf⟩

/-- A context is one of those with a form, or the refusal in it names a node of the tree. -/
theorem generate_outcome (e : Expr) (c : Context) :
    (e.formContexts.supports c = true ∧ ∃ s, Registry.standard.generate e c = .ok s) ∨
      (e.formContexts.supports c = false ∧
        ∃ r, Registry.standard.generate e c = .error r ∧ e.Blames c r) := by
  cases c with
  | value => exact .inl ⟨rfl, e.generate_boxed (by decide)⟩
  | boolean => exact .inl ⟨rfl, e.generate_boxed (by decide)⟩
  | long => exact e.generate_native (.inl rfl)
  | double => exact e.generate_native (.inr rfl)
  | selfExpr => exact .inl ⟨rfl, e.generate_boxed (by decide)⟩

end Expr

/-- Every node resolves and declares its contexts, the three boxed ones among them. It has a form in
exactly those. In any other the refusal is for that context, at a node of the tree. -/
theorem declared_contexts_exact {a : Arena} (ha : a.Built) {id : NodeId} (hid : id < a.size) :
    ∃ e g cs, a.tree id = .ok e ∧ Registry.standard.resolve e = .ok g ∧ g.contexts = .ok cs ∧
      cs.supports .value = true ∧ cs.supports .boolean = true ∧ cs.supports .selfExpr = true ∧
      (∀ c, cs.supports c = true ↔ ∃ s, Registry.standard.generate e c = .ok s) ∧
      ∀ c r, Registry.standard.generate e c = .error r →
        ∃ t ∈ e.subtrees, r = .unsupported ⟨t.kind, t.location⟩ c := by
  obtain ⟨e, he⟩ := ha.tree hid
  refine ⟨e, e.generator, e.formContexts, he, e.resolve_standard, e.contexts_generator, rfl, rfl, rfl, ?_, ?_⟩
  · intro c
    rcases e.generate_outcome c with ⟨hs, hg⟩ | ⟨hs, r, hg, -⟩
    · exact ⟨fun _ => hg, fun _ => hs⟩
    · simp [hs, hg]
  · intro c r hr
    rcases e.generate_outcome c with ⟨-, s, hg⟩ | ⟨-, r', hg, hb⟩
    · cases hg.symm.trans hr
    · cases hg.symm.trans hr
      exact hb

private def pastGreatest : Arena :=
  let a := (Arena.push {} (.literal (.int Int64.maxValue)) ⟨1, 1⟩).2
  let a := (a.push (.literal (.int 1)) ⟨1, 2⟩).2
  (a.push (.binary .add 0 1) ⟨1, 3⟩).2

private def pastGreatestTree : Expr :=
  .binary ⟨1, 3⟩ .add (.literal ⟨1, 1⟩ (.int Int64.maxValue)) (.literal ⟨1, 2⟩ (.int 1))

/-- The sum is a float, so the double form is declared and the long form is not. -/
theorem past_greatest_declares_double :
    pastGreatest.Built ∧ 2 < pastGreatest.size ∧ pastGreatest.tree 2 = .ok pastGreatestTree ∧
      ∃ g cs, Registry.standard.resolve pastGreatestTree = .ok g ∧ g.contexts = .ok cs ∧
        cs.supports .double = true ∧ cs.supports .long = false := by
  have hb : pastGreatest.Built := .push _ _ (.push _ _ (.push _ _ .empty))
  have hsize : 2 < pastGreatest.size := by decide +kernel
  have htree : pastGreatest.tree? 2 = some pastGreatestTree := by decide +kernel
  have hdouble : Registry.standard.generate pastGreatestTree .double =
      .ok "(((double) 9223372036854775807L) + ((double) 1L))" := by decide +kernel
  have hlong : Registry.standard.generate pastGreatestTree .long =
      .error (.unsupported ⟨.add, ⟨1, 3⟩⟩ .long) := by decide +kernel
  obtain ⟨e, g, cs, he, hg, hcs, -, -, -, hiff, -⟩ := declared_contexts_exact hb hsize
  obtain rfl := Option.some.inj (htree.symm.trans (Arena.tree_eq_ok_iff.mp he))
  refine ⟨hb, hsize, he, g, cs, hg, hcs, (hiff .double).mpr ⟨_, hdouble⟩, Bool.eq_false_iff.mpr fun h => ?_⟩
  obtain ⟨s, hs⟩ := (hiff .long).mp h
  cases hlong.symm.trans hs

end ContextCodegen
