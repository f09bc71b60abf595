import ContextCodegen.Proofs.Locations
import ContextCodegen.Proofs.Unfolding

/-! The effects of evaluation. Evaluating an expression does to the variables what its reads and its
assignments do one after the other, operands first and from left to right. -/
namespace ContextCodegen

structure Evaluation where
  expr : Expr
  before : Env
  deriving DecidableEq, Repr

def Evaluation.value (p : Evaluation) : Value := (p.expr.eval p.before).1

namespace Expr

/-- The variable that an expression assigns itself, its operands apart. -/
def target? : Expr → Option String
  | .assign _ x _ => some x
  | _ => none

/-- The access that an expression makes itself, once its operands are evaluated. -/
def access? : Expr → Option Access
  | .var _ x => some (.read x)
  | .assign _ x _ => some (.write x)
  | _ => none

/-- The accesses of an expression, operands first and from left to right. -/
def accesses (e : Expr) : List Access := e.subtrees.filterMap access?

/-- The evaluations that make up the evaluation of an expression, in the order in which they end. -/
def evaluations : Expr → Env → List Evaluation
  | .literal loc v, env => [⟨.literal loc v, env⟩]
  | .var loc x, env => [⟨.var loc x, env⟩]
  | .assign loc x e, env => e.evaluations env ++ [⟨.assign loc x e, env⟩]
  | .binary loc op l r, env =>
    l.evaluations env ++ r.evaluations (l.eval env).2 ++ [⟨.binary loc op l r, env⟩]
  | .unary loc op e, env => e.evaluations env ++ [⟨.unary loc op e, env⟩]

theorem map_evaluations (e : Expr) (env : Env) : (e.evaluations env).map Evaluation.expr = e.subtrees := by
  induction e generalizing env with
  | literal loc v | var loc x => rfl
  | assign loc x e ih => simp [evaluations, subtrees, ih]
  | binary loc op l r ihl ihr => simp [evaluations, subtrees, ihl, ihr]
  | unary loc op e ih => simp [evaluations, subtrees, ih]

end Expr

namespace Env

def perform (env : Env) (p : Evaluation) : Env :=
  match p.expr with
  | .var _ x => (env.get x).2
  | .assign _ x _ => env.set x p.value
  | _ => env

def performAll (env : Env) (ps : List Evaluation) : Env := ps.foldl perform env

variable (env : Env) (p : Evaluation) (ps qs : List Evaluation)

theorem performAll_append : env.performAll (ps ++ qs) = (env.performAll ps).performAll qs :=
  List.foldl_append

theorem trace_perform : (env.perform p).trace.toList = env.trace.toList ++ p.expr.access?.toList := by
  obtain ⟨e, before⟩ := p
  cases e with
  | literal | binary | unary => exact (List.append_nil _).symm
  | var | assign => exact Array.toList_push

theorem lookup_perform (x : String) :
    (env.perform p).lookup x = if p.expr.target? = some x then some p.value else env.lookup x := by
  obtain ⟨e, before⟩ := p
  cases e with
  | literal | var | binary | unary => rfl
  | assign loc y d =>
    simp only [Expr.target?, Option.some.injEq, eq_comm (a := y)]
    exact lookup_insertBinding y x _ env.bindings

theorem trace_performAll :
    (env.performAll ps).trace.toList = env.trace.toList ++ (ps.map Evaluation.expr).filterMap Expr.access? := by
  induction ps generalizing env with
  | nil => simp [performAll]
  | cons p ps ih =>
    rw [performAll, List.foldl_cons, ← performAll, ih, trace_perform, List.append_assoc, List.map_cons,
      List.filterMap_cons]
    cases p.expr.access? <;> rfl

theorem lookup_performAll_of_kept {x : String} (h : ∀ p ∈ ps, p.expr.target? ≠ some x) :
    (env.performAll ps).lookup x = env.lookup x := by
  induction ps generalizing env with
  | nil => rfl
  | cons p ps ih =>
    rw [performAll, List.foldl_cons, ← performAll, ih _ fun q hq => h q (List.mem_cons_of_mem p hq),
      lookup_perform, if_neg (h p List.mem_cons_self)]

/-- A variable is bound to the value of the last assignment to it. -/
theorem lookup_performAll_of_last {x : String} (hp : p.expr.target? = some x)
    (hq : ∀ q ∈ qs, q.expr.target? ≠ some x) :
    (env.performAll (ps ++ p :: qs)).lookup x = some p.value := by
  have hlast : env.performAll (ps ++ p :: qs) = ((env.performAll ps).perform p).performAll qs :=
    performAll_append env ps (p :: qs)
  rw [hlast, lookup_performAll_of_kept _ _ hq, lookup_perform, if_pos hp]

end Env

namespace Expr

/-- Evaluation does what the evaluations that make it up do at their ends. -/
theorem eval_performAll (e : Expr) (env : Env) : (e.eval env).2 = env.performAll (e.evaluations env) := by
  induction e generalizing env with
  | literal loc v | var loc x => rfl
  | assign loc x e ih =>
    rw [evaluations, Env.performAll_append, ← ih]
    rfl
  | binary loc op l r ihl ihr =>
    rw [evaluations, Env.performAll_append, Env.performAll_append, ← ihl, ← ihr]
    rfl
  | unary loc op e ih =>
    rw [evaluations, Env.performAll_append, ← ih]
    rfl

theorem trace_eval (e : Expr) (env : Env) : (e.eval env).2.trace.toList = env.trace.toList ++ e.accesses := by
  rw [eval_performAll, Env.trace_performAll, map_evaluations, accesses]

end Expr

/-- The evaluation ends right behind the given ones. The last of them make it up, and it starts with the
variables that those before them leave. -/
def Evaluation.EndsBehind (p : Evaluation) (env : Env) (ps : List Evaluation) : Prop :=
  ∃ earlier, ps ++ [p] = earlier ++ p.expr.evaluations p.before ∧ p.before = env.performAll earlier

namespace Expr

variable {env : Env} {p : Evaluation} {ps : List Evaluation}

private theorem endsBehind_concat {e : Expr} (qs : List Evaluation) (he : e.evaluations env = qs ++ [⟨e, env⟩])
    (h : ps ++ [p] <+: e.evaluations env) (ho : ps ++ [p] <+: qs → p.EndsBehind env ps) :
    p.EndsBehind env ps := by
  rw [he, List.prefix_concat_iff] at h
  rcases h with h | h
  · obtain ⟨-, ⟨⟩⟩ := List.append_inj' h rfl
    exact ⟨[], by rw [h, he, List.nil_append], rfl⟩
  · exact ho h

/-- An evaluation belongs to the left operand, or to the right one, which starts where the left one ends. -/
private theorem endsBehind_append {l r : Expr} (h : ps ++ [p] <+: l.evaluations env ++ r.evaluations (l.eval env).2)
    (hl : ps ++ [p] <+: l.evaluations env → p.EndsBehind env ps)
    (hr : ∀ rs, rs ++ [p] <+: r.evaluations (l.eval env).2 → p.EndsBehind (l.eval env).2 rs) :
    p.EndsBehind env ps := by
  rcases List.prefix_or_prefix_of_prefix h (List.prefix_append _ _) with hin | hout
  · exact hl hin
  · rcases List.prefix_concat_iff.mp hout with he | ⟨rs, rfl⟩
    · exact hl (he ▸ List.prefix_rfl)
    · rw [List.append_assoc, List.prefix_append_right_inj] at h
      obtain ⟨earlier, hsplit, hbefore⟩ := hr rs h
      refine ⟨l.evaluations env ++ earlier, ?_, ?_⟩
      · rw [List.append_assoc, hsplit, List.append_assoc]
      · rw [hbefore, eval_performAll, Env.performAll_append]

theorem evaluations_endsBehind {e : Expr} (h : ps ++ [p] <+: e.evaluations env) : p.EndsBehind env ps := by
  induction e generalizing env ps with
  | literal loc v | var loc x => exact endsBehind_concat [] rfl h fun h => by simp at h
  | assign loc x e ih | unary loc op e ih => exact endsBehind_concat _ rfl h ih
  | binary loc op l r ihl ihr =>
    apply endsBehind_concat _ rfl h
    intro h
    exact endsBehind_append h ihl fun rs => ihr

end Expr

def Evaluation.lastTo? (x : String) (rs : List Evaluation) : Option Evaluation :=
  rs.reverse.find? fun p => p.expr.target? == some x

theorem Evaluation.lastTo?_eq_some_iff {x : String} {rs : List Evaluation} {p : Evaluation} :
    lastTo? x rs = some p ↔ ∃ ps qs, rs = ps ++ p :: qs ∧ p.expr.target? = some x ∧
      ∀ q ∈ qs, q.expr.target? ≠ some x := by
  rw [lastTo?, List.find?_eq_some_iff_append, beq_iff_eq]
  constructor
  · rintro ⟨hp, qs, ps, hsplit, hqs⟩
    refine ⟨ps.reverse, qs.reverse, ?_, hp, ?_⟩
    · rw [← List.reverse_reverse rs, hsplit]
      simp
    · simpa using hqs
  · rintro ⟨ps, qs, rfl, hp, hqs⟩
    exact ⟨hp, qs.reverse, ps.reverse, by simp, by simpa using hqs⟩

theorem Expr.exists_last_assignment {e t : Expr} {x : String} (ht : t ∈ e.subtrees) (hx : t.target? = some x)
    (env : Env) : ∃ p, Evaluation.lastTo? x (e.evaluations env) = some p := by
  rw [← map_evaluations e env] at ht
  obtain ⟨q, hq, rfl⟩ := List.mem_map.mp ht
  apply Option.isSome_iff_exists.mp
  exact List.find?_isSome.mpr ⟨q, List.mem_reverse.mpr hq, beq_iff_eq.mpr hx⟩

/-- Evaluating a node adds the accesses of its tree to the trace, operands first and from left to right,
whatever the values are. A variable that no assignment of the tree targets keeps its binding or stays without
one, and any other is bound to what the last assignment to it evaluated to. Of the evaluations that make up
the one of the node there is one for each of its subtrees, and each starts with the variables that those
before it leave. -/
theorem evaluation_effects_follow_tree {a : Arena} (ha : a.WellFormed) {id : NodeId} (hid : id < a.size)
    (env : Env) :
    ∃ e v after, a.tree id = .ok e ∧ a.Unfolds id e ∧ e.eval env = (v, after) ∧
      e.evalBoolean env = (v.truthy, after) ∧ e.evalLong env = (v.toInt64, after) ∧
      e.evalDouble env = (v.toFloat, after) ∧
      after.trace.toList = env.trace.toList ++ e.accesses ∧
      (∀ x, (∀ t ∈ e.subtrees, t.target? ≠ some x) → after.lookup x = env.lookup x) ∧
      (∀ x, ∀ t ∈ e.subtrees, t.target? = some x → ∃ ps p qs, e.evaluations env = ps ++ p :: qs ∧
        p.expr.target? = some x ∧ (∀ q ∈ qs, q.expr.target? ≠ some x) ∧ after.lookup x = some p.value) ∧
      (e.evaluations env).map Evaluation.expr = e.subtrees ∧
      ∀ ps p, ps ++ [p] <+: e.evaluations env → p.EndsBehind env ps := by
  obtain ⟨e, he⟩ := ha.tree? hid
  have hall := e.eval_performAll env
  refine ⟨e, _, _, Arena.tree_eq_ok_iff.mpr he, Arena.unfolds_of_tree? he, rfl, rfl, rfl, rfl, e.trace_eval env,
    ?_, ?_, e.map_evaluations env, fun ps p => Expr.evaluations_endsBehind⟩
  · intro x hx
    rw [hall]
    apply Env.lookup_performAll_of_kept
    intro p hp
    exact hx p.expr (e.map_evaluations env ▸ List.mem_map_of_mem hp)
  · intro x t ht hx
    obtain ⟨p, hlast⟩ := Expr.exists_last_assignment ht hx env
    obtain ⟨ps, qs, hsplit, hp, hqs⟩ := Evaluation.lastTo?_eq_some_iff.mp hlast
    refine ⟨ps, p, qs, hsplit, hp, hqs, ?_⟩
    rw [hall, hsplit, Env.lookup_performAll_of_last env p ps qs hp hqs]

/-- A variable is assigned within the value of its own assignment, and read in between. -/
private def assignedWithin : Arena :=
  let a := (Arena.push {} (.literal (.int 2)) ⟨1, 1⟩).2
  let a := (a.push (.assign "x" 0) ⟨1, 2⟩).2
  let a := (a.push (.var "x") ⟨1, 3⟩).2
  let a := (a.push (.binary .add 1 2) ⟨1, 4⟩).2
  let a := (a.push (.assign "x" 3) ⟨1, 5⟩).2
  let a := (a.push (.var "y") ⟨1, 6⟩).2
  (a.push (.binary .sub 4 5) ⟨1, 7⟩).2

private def assignedWithinTree : Expr :=
  .binary ⟨1, 7⟩ .sub
    (.assign ⟨1, 5⟩ "x"
      (.binary ⟨1, 4⟩ .add (.assign ⟨1, 2⟩ "x" (.literal ⟨1, 1⟩ (.int 2))) (.var ⟨1, 3⟩ "x")))
    (.var ⟨1, 6⟩ "y")

private def boundBefore : Env := ⟨[("y", .bool true), ("x", .str "old")], #[.read "z"]⟩

/-- The outer assignment is the last one, and its value is made from what the inner one assigned. -/
theorem outer_assignment_is_last :
    assignedWithin.WellFormed ∧ 6 < assignedWithin.size ∧
      ∃ v after, assignedWithinTree.eval boundBefore = (v, after) ∧
        after.trace.toList = [.read "z", .write "x", .read "x", .write "x", .read "y"] ∧
        after.lookup "y" = some (.bool true) ∧ after.lookup "z" = none ∧ after.lookup "x" = some (.int 4) := by
  have hb : assignedWithin.Built :=
    .push _ _ (.push _ _ (.push _ _ (.push _ _ (.push _ _ (.push _ _ (.push _ _ .empty))))))
  have hsize : 6 < assignedWithin.size := by decide +kernel
  have htree : assignedWithin.tree? 6 = some assignedWithinTree := by decide +kernel
  refine ⟨hb.wellFormed, hsize, ?_⟩
  obtain ⟨e, v, after, he, -, hv, -, -, -, htrace, hkept, hlast, -, -⟩ :=
    evaluation_effects_follow_tree hb.wellFormed hsize boundBefore
  obtain rfl := Option.some.inj (htree.symm.trans (Arena.tree_eq_ok_iff.mp he))
  refine ⟨v, after, hv, htrace, hkept "y" (by decide), hkept "z" (by decide), ?_⟩
  obtain ⟨ps, p, qs, hsplit, hp, hqs, hx⟩ := hlast "x" (.assign ⟨1, 2⟩ "x" (.literal ⟨1, 1⟩ (.int 2)))
    (by decide) rfl
  have hp : Evaluation.lastTo? "x" (assignedWithinTree.evaluations boundBefore) = some p :=
    Evaluation.lastTo?_eq_some_iff.mpr ⟨ps, qs, hsplit, hp, hqs⟩
  rw [hx, ← Option.map_some, ← hp]
  decide +kernel

end ContextCodegen
