import ContextCodegen.Proofs.Effects
import ContextCodegen.Proofs.NativeForms

/-! Generated text refines evaluation. In every context but that of the self-expression, the text
of an expression runs to what the expression evaluates to, with the same accesses in the same order. -/
namespace ContextCodegen

open Target Machine

/-- The terms run to the value of the expression, as it is and as a condition, and leave what
its evaluation leaves. -/
structure Evaluates (b : BoxedTerms) (e : Expr) : Prop where
  value : ∀ env nodes, eval b.value ⟨env, nodes⟩ =
    (.ok (.value (e.eval env).1), ⟨(e.eval env).2, nodes⟩)
  boolean : ∀ env nodes, eval b.boolean ⟨env, nodes⟩ =
    (.ok (.bool (e.eval env).1.truthy), ⟨(e.eval env).2, nodes⟩)

theorem Evaluates.ofValue {t : Term} {e : Expr} (h : ∀ env nodes, eval t ⟨env, nodes⟩ =
    (.ok (.value (e.eval env).1), ⟨(e.eval env).2, nodes⟩)) : Evaluates (.ofValue t) e :=
  ⟨h, fun env nodes => eval_call_value .toBoolean (h env nodes) rfl rfl (evalAll_nil _)⟩

theorem Evaluates.ofBoolean {t : Term} {e : Expr} {b : Env → Bool}
    (he : ∀ env, (e.eval env).1 = .bool (b env))
    (h : ∀ env nodes, eval t ⟨env, nodes⟩ = (.ok (.bool (b env)), ⟨(e.eval env).2, nodes⟩)) :
    Evaluates (.ofBoolean t) e := by
  constructor
  · intro env nodes
    rw [he]
    exact eval_call_static .toValue rfl rfl (evalAll_one (h env nodes))
  · intro env nodes
    rw [he]
    exact h env nodes

theorem evaluates (e : Expr) : Evaluates e.boxedTerms e := by
  induction e with
  | literal loc v => exact ⟨fun _ _ => eval_literalTerm v _, fun _ _ => rfl⟩
  | var loc x =>
    apply Evaluates.ofValue
    intro env nodes
    exact eval_call_static .getValue rfl rfl (evalAll_one (eval_str x _))
  | assign loc x e ih =>
    apply Evaluates.ofValue
    intro env nodes
    exact eval_call_static .setValue rfl rfl (evalAll_two (eval_str x _) (ih.value env nodes))
  | binary loc op l r ihl ihr =>
    have both (k : ValueMethod) {name : String} (hf : ValueMethod.find? name = some k) (ha : 1 = k.arity)
        (env : Env) (nodes : Arena) :
        eval (.call l.boxedTerms.value name [r.boxedTerms.value]) ⟨env, nodes⟩ =
          (callValue name (l.eval env).1 k [.value (r.eval (l.eval env).2).1],
            ⟨(r.eval (l.eval env).2).2, nodes⟩) :=
      eval_call_value k (ihl.value env nodes) hf ha (evalAll_one (ihr.value _ nodes))
    cases op with
    | eq => exact .ofBoolean (fun env => rfl) (both .eql rfl rfl)
    | ne => exact .ofBoolean (fun env => rfl) fun env nodes => eval_not (both .eql rfl rfl env nodes)
    | add => exact .ofValue (both .add rfl rfl)
    | sub => exact .ofValue (both .sub rfl rfl)
  | unary loc op e ih =>
    cases op with
    | neg =>
      apply Evaluates.ofValue
      intro env nodes
      exact eval_call_value .neg (ih.value env nodes) rfl rfl (evalAll_nil _)
    | not => exact .ofBoolean (fun env => rfl) fun env nodes => eval_not (ih.boolean env nodes)

theorem eval_trace (e : Expr) (env : Env) : ∃ added, (e.eval env).2.trace = env.trace ++ added := by
  refine ⟨e.accesses.toArray, Array.toList_inj.mp ?_⟩
  rw [e.trace_eval, Array.toList_append]

/-- What a run in a context has to give: the value of the expression in the type of the context,
and the variables that its evaluation leaves. -/
def Context.Answers (e : Expr) (env : Env) : Context → Native → Env → Prop
  | .value, n, after => ∃ v, n = .value v ∧ e.eval env = (v, after)
  | .boolean, n, after => ∃ b, n = .bool b ∧ e.evalBoolean env = (b, after)
  | .long, n, after => ∃ k, n = .long k ∧ e.evalLong env = (k, after)
  | .double, n, after => ∃ x y, n = .double x ∧ e.evalDouble env = (y, after) ∧
      (x.numEq y = true ∨ (x.isNaN = true ∧ y.isNaN = true))
  | .selfExpr, _, _ => False

theorem Context.Answers.after_eq {e : Expr} {env after : Env} {c : Context} {n : Native}
    (h : c.Answers e env n after) : after = (e.eval env).2 := by
  cases c with
  | value | boolean | long =>
    obtain ⟨_, -, he⟩ := h
    exact (congrArg Prod.snd he).symm
  | double =>
    obtain ⟨_, _, -, he, -⟩ := h
    exact (congrArg Prod.snd he).symm
  | selfExpr => exact h.elim

private theorem answers_of_constant {e : Expr} {c : Context} {f : Folded} (h : e.IsConstant c f)
    (env : Env) : c.Answers e env f.native.toNative env := by
  obtain ⟨rfl, hv, ha⟩ := h
  cases hn : f.native with
  | int n =>
    have hb : f.boxed = .int n := by simpa [Folded.agrees, hn] using ha
    exact ⟨n, rfl, by simp [Expr.evalLong, hv, hb, Value.toInt64, Value.toNumber]⟩
  | float x =>
    refine ⟨x, f.boxed.toFloat, rfl, by simp [Expr.evalDouble, hv], ?_⟩
    simpa [Folded.agrees, hn] using ha

/-- The text of an expression runs to its value in every context with a form, and leaves the
variables and the trace that evaluation leaves. -/
private theorem execute_answers {e : Expr} {c : Context} (hc : c ≠ .selfExpr) {s : String}
    (hs : Registry.standard.generate e c = .ok s) (env : Env) (nodes : Arena) :
    ∃ n after, execute s ⟨env, nodes⟩ = (.ok n, ⟨after, nodes⟩) ∧ c.Answers e env n after := by
  have boxed {t : Term} (h : (e.generator.emit c).Writes t) :
      execute s ⟨env, nodes⟩ = eval t ⟨env, nodes⟩ := by
    obtain ⟨s', hs', hd⟩ := generate_of_writes h
    obtain rfl : s' = s := Except.ok.inj (hs'.symm.trans hs)
    exact execute_of_denotes hd _
  have native (hc : c = .long ∨ c = .double) :
      ∃ n after, execute s ⟨env, nodes⟩ = (.ok n, ⟨after, nodes⟩) ∧ c.Answers e env n after := by
    cases hf : e.folded c with
    | error r => exact absurd (hs.symm.trans (generate_of_refused hc hf)) (by simp)
    | ok f =>
      obtain ⟨s', hs', t, hd, he⟩ := generate_of_folded hc hf
      obtain rfl : s' = s := Except.ok.inj (hs'.symm.trans hs)
      refine ⟨_, env, ?_, answers_of_constant (Expr.isConstant_of_folded hf) env⟩
      rw [execute_of_denotes hd, he]
  cases c with
  | value =>
    refine ⟨_, _, (boxed (writesBoxed e).value).trans ((evaluates e).value env nodes), ?_⟩
    exact ⟨_, rfl, rfl⟩
  | boolean =>
    refine ⟨_, _, (boxed (writesBoxed e).boolean).trans ((evaluates e).boolean env nodes), ?_⟩
    exact ⟨_, rfl, rfl⟩
  | long => exact native (.inl rfl)
  | double => exact native (.inr rfl)
  | selfExpr => exact absurd rfl hc

/-- In every context but that of the self-expression, generated text runs to what its node evaluates
to, in the type of the context. It leaves the variables that evaluation leaves, adds the same accesses
to the trace, and stores no node. Values and conditions have a text for every node. -/
theorem generated_text_evaluates {a : Arena} (ha : a.Built) {id : NodeId} (hid : id < a.size) :
    ∃ e, a.tree id = .ok e ∧
      (∃ s, Registry.standard.generate e .value = .ok s) ∧
      (∃ s, Registry.standard.generate e .boolean = .ok s) ∧
      ∀ c ≠ .selfExpr, ∀ s, Registry.standard.generate e c = .ok s → ∀ env nodes,
        ∃ n after, execute s ⟨env, nodes⟩ = (.ok n, ⟨after, nodes⟩) ∧ c.Answers e env n after ∧
          ∃ added, after.trace = env.trace ++ added := by
  obtain ⟨e, he⟩ := ha.tree hid
  obtain ⟨s, hs, -⟩ := generate_of_writes (e := e) (c := .value) (writesBoxed e).value
  obtain ⟨t, ht, -⟩ := generate_of_writes (e := e) (c := .boolean) (writesBoxed e).boolean
  refine ⟨e, he, ⟨s, hs⟩, ⟨t, ht⟩, ?_⟩
  intro c hc u hu env nodes
  obtain ⟨n, after, hn, h⟩ := execute_answers hc hu env nodes
  obtain ⟨added, hadded⟩ := eval_trace e env
  exact ⟨n, after, hn, h, added, by rw [h.after_eq, hadded]⟩

private def assignedThenRead : Arena :=
  let a := (Arena.push {} (.literal (.str "\"")) ⟨1, 1⟩).2
  let a := (a.push (.assign "x" 0) ⟨1, 1⟩).2
  let a := (a.push (.var "x") ⟨1, 2⟩).2
  (a.push (.binary .eq 1 2) ⟨1, 3⟩).2

private def assignedThenReadTree : Expr :=
  .binary ⟨1, 3⟩ .eq (.assign ⟨1, 1⟩ "x" (.literal ⟨1, 1⟩ (.str "\""))) (.var ⟨1, 2⟩ "x")

/-- The left side of a comparison is run first, so the right side reads what it assigns. -/
theorem assigned_then_read_evaluates :
    let s := "env.setValue(\"x\", env.createString(\"\\\"\")).eql(env.getValue(\"x\"))"
    assignedThenRead.Built ∧ 3 < assignedThenRead.size ∧
      assignedThenRead.tree 3 = .ok assignedThenReadTree ∧
      Registry.standard.generate assignedThenReadTree .boolean = .ok s ∧
      execute s ⟨{}, {}⟩ =
        (.ok (.bool true), ⟨⟨[("x", .str "\"")], #[.write "x", .read "x"]⟩, {}⟩) := by
  have hb : assignedThenRead.Built := .push _ _ (.push _ _ (.push _ _ (.push _ _ .empty)))
  have hsize : 3 < assignedThenRead.size := by decide +kernel
  have htree : assignedThenRead.tree? 3 = some assignedThenReadTree := by decide +kernel
  refine ⟨hb, hsize, Arena.tree_eq_ok_iff.mpr htree, rfl, ?_⟩
  obtain ⟨e, he, -, -, h⟩ := generated_text_evaluates hb hsize
  obtain rfl := Option.some.inj (htree.symm.trans (Arena.tree_eq_ok_iff.mp he))
  obtain ⟨n, after, hn, ⟨b, rfl, hv⟩, -⟩ := h .boolean (by decide) _ rfl {} {}
  obtain ⟨rfl, rfl⟩ := Prod.mk.inj hv
  exact hn

end ContextCodegen
