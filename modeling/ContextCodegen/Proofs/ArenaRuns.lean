import ContextCodegen.Expr.Eval
import ContextCodegen.Proofs.Comparison
import ContextCodegen.Registry

/-! Arenas in use. Whatever an arena is asked for, one request after the other, all that it has handed
out keeps its meaning, and from each of its nodes the operands can be followed to the end. -/
namespace ContextCodegen

section Requests

/-- What an arena is asked for. A node comes with its texts, or with numbers of texts. -/
inductive Request where
  | intern (s : String)
  | push (texts : Shape String) (loc : Location)
  | store (shape : Shape Symbol) (loc : Location)
  deriving DecidableEq, Repr

inductive Answer where
  | symbol (n : Symbol)
  | node (id : NodeId)
  | refused (cause : ArenaError)
  deriving DecidableEq, Repr

def Answer.ofExcept : Except ArenaError NodeId → Answer
  | .ok id => .node id
  | .error cause => .refused cause

def Shape.symbols : Shape Symbol → List Symbol
  | .literal (.str n) => [n]
  | .literal .null | .literal (.bool _) | .literal (.int _) | .literal (.float _) => []
  | .var n => [n]
  | .assign n _ => [n]
  | .binary _ _ _ => []
  | .unary _ _ => []

namespace Request

def operands : Request → List NodeId
  | .intern _ => []
  | .push texts _ => texts.operands
  | .store shape _ => shape.operands

def symbols : Request → List Symbol
  | .intern _ => []
  | .push _ _ => []
  | .store shape _ => shape.symbols

def node? (t : Interner) : Request → Option Node
  | .intern _ => none
  | .push texts loc => some ⟨(texts.intern t).1, loc⟩
  | .store shape loc => some ⟨shape, loc⟩

def names (t : Interner) : Request → Interner
  | .intern s => (t.intern s).2
  | .push texts _ => (texts.intern t).2
  | .store _ _ => t

end Request

namespace Arena

def serve (a : Arena) : Request → Answer × Arena
  | .intern s => (.symbol (a.intern s).1, (a.intern s).2)
  | .push texts loc => (.ofExcept (a.push texts loc).1, (a.push texts loc).2)
  | .store shape loc => (.ofExcept (a.store shape loc).1, (a.store shape loc).2)

def after (rs : List Request) : Arena := rs.foldl (fun a r => (a.serve r).2) {}

def Reads (a : Arena) (id : NodeId) (loc : Location) (texts : Shape String) : Prop :=
  ∃ shape, a.nodes[id]? = some ⟨shape, loc⟩ ∧ shape.resolve? a.names = some texts

end Arena

/-- The number was handed out, as an answer or in a node. -/
def Issued (rs : List Request) (n : Symbol) : Prop :=
  (∃ past s rest, rs = past ++ .intern s :: rest ∧ ((Arena.after past).serve (.intern s)).1 = .symbol n) ∨
    ∃ node ∈ (Arena.after rs).nodes, n ∈ node.shape.symbols

/-- Every number of a text in a request was handed out before it. -/
inductive Admissible : List Request → Prop
  | nil : Admissible []
  | next {rs : List Request} {r : Request} : Admissible rs → (∀ n ∈ r.symbols, Issued rs n) →
      Admissible (rs ++ [r])

/-- What the answer that an arena gives to a request means when the arena has become another one. -/
inductive Answered (a b : Arena) : Request → Answer → Prop
  | interned {s : String} {n : Symbol} : b.names.text? n = some s → Answered a b (.intern s) (.symbol n)
  | pushed {texts : Shape String} {loc : Location} : (∀ j ∈ texts.operands, j < a.size) →
      b.Reads a.size loc texts → Answered a b (.push texts loc) (.node a.size)
  | stored {shape : Shape Symbol} {texts : Shape String} {loc : Location} :
      (∀ j ∈ shape.operands, j < a.size) → shape.resolve? a.names = some texts →
      b.nodes[a.size]? = some ⟨shape, loc⟩ → shape.resolve? b.names = some texts →
      Answered a b (.store shape loc) (.node a.size)
  | refused {r : Request} {j : NodeId} : j ∈ r.operands → a.size ≤ j →
      (a.serve r).2 = ⟨a.nodes, r.names a.names⟩ → Answered a b r (.refused (.forwardOperand j))

end Requests

section Steps

variable {a b c : Arena} {r : Request}

theorem Request.names_extends (r : Request) (t : Interner) : t.Extends (r.names t) := by
  cases r with
  | intern s => exact t.intern_extends s
  | push texts loc => exact texts.intern_extends t
  | store shape loc => exact .refl t

/-- A node is stored at the end, or one of its operands is missing and nothing is stored. -/
theorem Arena.store_cases (a : Arena) (shape : Shape Symbol) (loc : Location) :
    ((∀ j ∈ shape.operands, j < a.size) ∧
      a.store shape loc = (.ok a.size, ⟨a.nodes.push ⟨shape, loc⟩, a.names⟩)) ∨
    ∃ j ∈ shape.operands, a.size ≤ j ∧ a.store shape loc = (.error (.forwardOperand j), a) := by
  unfold store
  cases hfind : shape.operands.find? fun id => decide (a.nodes.size ≤ id) with
  | none =>
    refine .inl ⟨fun j hj => ?_, by simp only [hfind]; rfl⟩
    have hlt := List.find?_eq_none.mp hfind j hj
    rwa [decide_eq_true_eq, Nat.not_le] at hlt
  | some j =>
    have hle := List.find?_some hfind
    rw [decide_eq_true_eq] at hle
    exact .inr ⟨j, List.mem_of_find?_eq_some hfind, hle, by simp only [hfind]⟩

/-- All that a request can do. -/
theorem Arena.serve_cases (a : Arena) (r : Request) :
    (∃ s, r = .intern s ∧ a.serve r = (.symbol (a.names.intern s).1, ⟨a.nodes, r.names a.names⟩)) ∨
    (∃ node, r.node? a.names = some node ∧ (∀ j ∈ r.operands, j < a.size) ∧
      a.serve r = (.node a.size, ⟨a.nodes.push node, r.names a.names⟩)) ∨
    ∃ j ∈ r.operands, a.size ≤ j ∧
      a.serve r = (.refused (.forwardOperand j), ⟨a.nodes, r.names a.names⟩) := by
  cases r with
  | intern s => exact .inl ⟨s, rfl, rfl⟩
  | push texts loc =>
    have hpush : a.push texts loc = store ⟨a.nodes, (texts.intern a.names).2⟩ (texts.intern a.names).1 loc := rfl
    have hcases := store_cases ⟨a.nodes, (texts.intern a.names).2⟩ (texts.intern a.names).1 loc
    rw [texts.operands_intern, ← hpush] at hcases
    rcases hcases with ⟨hlt, hs⟩ | ⟨j, hj, hle, hs⟩
    · exact .inr (.inl ⟨_, rfl, hlt, by rw [serve, hs]; rfl⟩)
    · exact .inr (.inr ⟨j, hj, hle, by rw [serve, hs]; rfl⟩)
  | store shape loc =>
    rcases a.store_cases shape loc with ⟨hlt, hs⟩ | ⟨j, hj, hle, hs⟩
    · exact .inr (.inl ⟨_, rfl, hlt, by rw [serve, hs]; rfl⟩)
    · exact .inr (.inr ⟨j, hj, hle, by rw [serve, hs]; rfl⟩)

theorem Arena.serve_extends (a : Arena) (r : Request) : a.Extends (a.serve r).2 := by
  rcases a.serve_cases r with ⟨s, -, h⟩ | ⟨node, -, -, h⟩ | ⟨j, -, -, h⟩
  · rw [h]
    exact ⟨fun _ _ hn => hn, r.names_extends _⟩
  · rw [h]
    exact ⟨fun _ _ hn => getElem?_push_of_some hn, r.names_extends _⟩
  · rw [h]
    exact ⟨fun _ _ hn => hn, r.names_extends _⟩

theorem Arena.lt_size_serve {id : NodeId} (h : id < (a.serve r).2.size) :
    id < a.size ∨ (a.serve r).1 = .node id := by
  rcases a.serve_cases r with ⟨s, -, hs⟩ | ⟨node, -, -, hs⟩ | ⟨j, -, -, hs⟩
  · rw [hs] at h
    exact .inl h
  · rw [hs] at h ⊢
    have hle : id < a.nodes.size + 1 := Array.size_push node ▸ h
    rcases Nat.lt_succ_iff_lt_or_eq.mp hle with hlt | rfl
    · exact .inl hlt
    · exact .inr rfl
  · rw [hs] at h
    exact .inl h

theorem Shape.resolve?_isSome_iff {t : Interner} {shape : Shape Symbol} :
    (shape.resolve? t).isSome = true ↔ ∀ n ∈ shape.symbols, ∃ s, t.text? n = some s := by
  match shape with
  | .literal (.str n) | .var n | .assign n e => simp [resolve?, symbols, Option.isSome_iff_exists]
  | .literal .null | .literal (.bool b) | .literal (.int n) | .literal (.float bits) =>
    simp [resolve?, symbols]
  | .binary op l r | .unary op e => simp [resolve?, symbols]

theorem answered_serve (h : ∀ n ∈ r.symbols, ∃ s, a.names.text? n = some s) :
    Answered a (a.serve r).2 r (a.serve r).1 := by
  rcases a.serve_cases r with ⟨s, rfl, hs⟩ | ⟨node, hnode, hlt, hs⟩ | ⟨j, hj, hle, hs⟩
  · rw [hs]
    exact .interned (a.names.text?_intern s)
  · rw [hs]
    cases r with
    | intern s => cases hnode
    | push texts loc =>
      cases hnode
      exact .pushed hlt ⟨_, Array.getElem?_push_size, texts.resolve?_intern _⟩
    | store shape loc =>
      cases hnode
      obtain ⟨texts, ht⟩ := Option.isSome_iff_exists.mp (Shape.resolve?_isSome_iff.mpr h)
      exact .stored hlt ht Array.getElem?_push_size ht
  · have hanswer : (a.serve r).1 = .refused (.forwardOperand j) := by rw [hs]
    rw [hanswer]
    exact .refused hj hle (by rw [hs])

theorem Answered.mono {x : Answer} (h : Answered a b r x) (hext : b.Extends c) : Answered a c r x := by
  cases h with
  | interned hn => exact .interned (hext.names _ _ hn)
  | pushed hlt hr =>
    obtain ⟨shape, hn, ht⟩ := hr
    exact .pushed hlt ⟨shape, hext.nodes _ _ hn, Shape.resolve?_mono hext.names ht⟩
  | stored hlt ha hn ht => exact .stored hlt ha (hext.nodes _ _ hn) (Shape.resolve?_mono hext.names ht)
  | refused hj hle hs => exact .refused hj hle hs

end Steps

section Runs

variable {rs : List Request} {r : Request}

theorem Arena.after_concat (rs : List Request) (r : Request) :
    after (rs ++ [r]) = ((after rs).serve r).2 := by
  rw [after, List.foldl_append]
  rfl

theorem Arena.after_extends (past rest : List Request) : (after past).Extends (after (past ++ rest)) := by
  induction rest using List.reverseRecOn with
  | nil =>
    rw [List.append_nil]
    exact .refl _
  | append_singleton rest r ih =>
    rw [← List.append_assoc, after_concat]
    exact ih.trans (serve_extends _ r)

theorem Arena.answer_of_lt_size {id : NodeId} (h : id < (after rs).size) :
    ∃ past r rest, rs = past ++ r :: rest ∧ ((after past).serve r).1 = .node id := by
  induction rs using List.reverseRecOn with
  | nil => exact absurd h (Nat.not_lt_zero id)
  | append_singleton rs r ih =>
    rw [after_concat] at h
    rcases lt_size_serve h with hlt | hanswer
    · obtain ⟨past, q, rest, rfl, hq⟩ := ih hlt
      exact ⟨past, q, rest ++ [r], by simp, hq⟩
    · exact ⟨rs, r, [], rfl, hanswer⟩

theorem Issued.text {n : Symbol} (h : Issued rs n) (hwf : (Arena.after rs).WellFormed) :
    ∃ s, (Arena.after rs).names.text? n = some s := by
  rcases h with ⟨past, s, rest, rfl, hn⟩ | ⟨node, hnode, hn⟩
  · have hmean := (answered_serve (a := Arena.after past) (r := .intern s) (by simp [Request.symbols]))
    rw [hn, ← Arena.after_concat] at hmean
    have hext := Arena.after_extends (past ++ [.intern s]) rest
    rw [List.append_assoc, List.singleton_append] at hext
    cases hmean with
    | interned hs => exact ⟨s, hext.names _ _ hs⟩
  · obtain ⟨id, hid, hget⟩ := Array.mem_iff_getElem.mp hnode
    have hsome := (hwf id node (Array.getElem?_eq_some_iff.mpr ⟨hid, hget⟩)).2
    exact Shape.resolve?_isSome_iff.mp hsome n hn

theorem Admissible.built (h : Admissible rs) : (Arena.after rs).Built := by
  induction h with
  | nil => exact .empty
  | @next rs r _ hr ih =>
    rw [Arena.after_concat]
    cases r with
    | intern s => exact .intern s ih
    | push texts loc => exact .push texts loc ih
    | store shape loc =>
      exact .store shape loc (Shape.resolve?_isSome_iff.mpr fun n hn => (hr n hn).text ih.wellFormed) ih

/-- Every answer is right to the end. -/
theorem Admissible.answered (h : Admissible rs) {past rest : List Request} (hrs : rs = past ++ r :: rest) :
    Answered (Arena.after past) (Arena.after rs) r ((Arena.after past).serve r).1 := by
  induction h generalizing rest with
  | nil => simp at hrs
  | @next rs q hadm hq ih =>
    rw [Arena.after_concat]
    rcases List.eq_nil_or_concat rest with rfl | ⟨rest, last, rfl⟩
    · obtain ⟨rfl, hlast⟩ := List.append_inj' hrs rfl
      cases hlast
      exact answered_serve fun n hn => (hq n hn).text hadm.built.wellFormed
    · rw [List.concat_eq_append, ← List.cons_append, ← List.append_assoc] at hrs
      exact (ih (List.append_inj' hrs rfl).1).mono (Arena.serve_extends _ q)

end Runs

section Recursion

/-- One step of a recursion: the result at a node from the results at its operands. -/
abbrev Visit (β : Type) := Location → (NodeId → Option β) → Shape String → Option β

/-- The step comes to a result, and to the same one, wherever the operands have theirs. -/
def Visit.Total {β : Type} (visit : Visit β) : Prop :=
  ∀ {loc : Location} {s : Shape String} {f g : NodeId → Option β},
    (∀ j ∈ s.operands, ∃ x, f j = some x ∧ g j = some x) → ∃ y, visit loc f s = some y ∧ visit loc g s = some y

/-- Looks up a node and its operands, to so many levels. -/
def Arena.recurse {β : Type} (a : Arena) (visit : Visit β) : Nat → NodeId → Option β
  | 0, _ => none
  | depth + 1, id => do
    let n ← a.nodes[id]?
    visit n.loc (a.recurse visit depth) (← n.shape.resolve? a.names)

variable {β : Type} {visit : Visit β} {a : Arena} {id : NodeId} {e : Expr} {depth : Nat}

theorem Arena.recurse_succ {n : Node} {s : Shape String} (hn : a.nodes[id]? = some n)
    (hs : n.shape.resolve? a.names = some s) (visit : Visit β) (depth : Nat) :
    a.recurse visit (depth + 1) id = visit n.loc (a.recurse visit depth) s := by
  rw [recurse, hn]
  change (n.shape.resolve? a.names).bind (visit n.loc (a.recurse visit depth)) = _
  rw [hs, Option.bind_some]

/-- Every recursion over the operands comes to an end, at most as deep as the number of its node. -/
theorem Arena.WellFormed.recurse (h : a.WellFormed) (hv : visit.Total) (hid : id < a.size) :
    ∃ x, ∀ depth, id < depth → a.recurse visit depth id = some x := by
  induction id using Nat.strongRecOn with
  | ind id ih =>
    obtain ⟨n, hn⟩ : ∃ n, a.nodes[id]? = some n := ⟨_, Array.getElem?_eq_getElem hid⟩
    obtain ⟨hlt, hs⟩ := h id n hn
    obtain ⟨s, hs⟩ := Option.isSome_iff_exists.mp hs
    have hoperands (depth : Nat) (hd : id ≤ depth) (j : NodeId) (hj : j ∈ s.operands) :
        ∃ x, a.recurse visit id j = some x ∧ a.recurse visit depth j = some x := by
      have hj := hlt j (Shape.operands_resolve? hs ▸ hj)
      obtain ⟨x, hx⟩ := ih j hj (Nat.lt_trans hj hid)
      exact ⟨x, hx id hj, hx depth (Nat.lt_of_lt_of_le hj hd)⟩
    obtain ⟨x, hx, -⟩ := hv (hoperands id (Nat.le_refl id))
    refine ⟨x, fun depth hd => ?_⟩
    obtain ⟨depth, rfl⟩ := Nat.exists_eq_succ_of_ne_zero (Nat.ne_zero_of_lt hd)
    obtain ⟨y, hy, hdeep⟩ := hv (hoperands depth (Nat.le_of_lt_succ hd))
    rw [recurse_succ hn hs, hdeep, ← hy, hx]

end Recursion

/-- What a recursion makes of each kind of node from what it makes of the operands. -/
structure Algebra (β : Type) where
  literal : Location → Literal String → β
  var : Location → String → β
  assign : Location → String → β → β
  binary : Location → BinaryOp → β → β → β
  unary : Location → UnaryOp → β → β

namespace Algebra

variable {β : Type} {alg : Algebra β} {f : Expr → β} {a : Arena} {id : NodeId} {e : Expr} {depth : Nat}

/-- The function is defined by recursion over trees, with this at each kind of node. -/
structure Gives (alg : Algebra β) (f : Expr → β) : Prop where
  literal (loc : Location) (v : Literal String) : f (.literal loc v) = alg.literal loc v
  var (loc : Location) (x : String) : f (.var loc x) = alg.var loc x
  assign (loc : Location) (x : String) (e : Expr) : f (.assign loc x e) = alg.assign loc x (f e)
  binary (loc : Location) (op : BinaryOp) (l r : Expr) : f (.binary loc op l r) = alg.binary loc op (f l) (f r)
  unary (loc : Location) (op : UnaryOp) (e : Expr) : f (.unary loc op e) = alg.unary loc op (f e)

def visit (alg : Algebra β) : Visit β := fun loc operand s =>
  match s with
  | .literal v => some (alg.literal loc v)
  | .var x => some (alg.var loc x)
  | .assign x j => (operand j).map (alg.assign loc x)
  | .binary op i j => (operand i).bind fun l => (operand j).map (alg.binary loc op l)
  | .unary op j => (operand j).map (alg.unary loc op)

theorem total_visit (alg : Algebra β) : alg.visit.Total := by
  intro loc s f g h
  cases s with
  | literal v | var x => exact ⟨_, rfl, rfl⟩
  | assign x j | unary op j =>
    obtain ⟨y, hf, hg⟩ := h j (by simp [Shape.operands])
    simp [visit, hf, hg]
  | binary op i j =>
    obtain ⟨y, hf, hg⟩ := h i (by simp [Shape.operands])
    obtain ⟨z, hf', hg'⟩ := h j (by simp [Shape.operands])
    simp [visit, hf, hg, hf', hg']

theorem Gives.visit (hf : alg.Gives f) {loc : Location} {s : Shape String} {tree : NodeId → Option Expr}
    {operand : NodeId → Option β} (h : s.tree? loc tree = some e)
    (ho : ∀ j d, tree j = some d → operand j = some (f d)) : alg.visit loc operand s = some (f e) := by
  cases s with
  | literal v =>
    cases h
    rw [hf.literal]
    rfl
  | var x =>
    cases h
    rw [hf.var]
    rfl
  | assign x j =>
    obtain ⟨d, hd, rfl⟩ := Option.map_eq_some_iff.mp h
    rw [hf.assign, Algebra.visit, ho j d hd, Option.map_some]
  | binary op i j =>
    obtain ⟨c, hc, h⟩ := Option.bind_eq_some_iff.mp h
    obtain ⟨d, hd, rfl⟩ := Option.map_eq_some_iff.mp h
    rw [hf.binary, Algebra.visit, ho i c hc, ho j d hd, Option.bind_some, Option.map_some]
  | unary op j =>
    obtain ⟨d, hd, rfl⟩ := Option.map_eq_some_iff.mp h
    rw [hf.unary, Algebra.visit, ho j d hd, Option.map_some]

/-- The recursion over stored operands gives what the recursion over the tree gives. -/
theorem Gives.recurse (hf : alg.Gives f) (h : a.tree? id = some e) (hd : id < depth) :
    a.recurse alg.visit depth id = some (f e) := by
  induction depth generalizing id e with
  | zero => exact absurd hd (Nat.not_lt_zero id)
  | succ depth ih =>
    rw [Arena.tree?_eq] at h
    obtain ⟨n, hn, h⟩ := Option.bind_eq_some_iff.mp h
    obtain ⟨s, hs, h⟩ := Option.bind_eq_some_iff.mp h
    rw [Arena.recurse_succ hn hs]
    apply hf.visit h
    intro j d hj
    obtain ⟨hj, htree⟩ := Option.ite_none_right_eq_some.mp hj
    exact ih htree (Nat.lt_of_lt_of_le hj (Nat.le_of_lt_succ hd))

def unfolding : Algebra Expr := ⟨.literal, .var, .assign, .binary, .unary⟩

theorem gives_unfolding : unfolding.Gives fun e => e :=
  ⟨fun _ _ => rfl, fun _ _ => rfl, fun _ _ _ => rfl, fun _ _ _ _ => rfl, fun _ _ _ => rfl⟩

theorem visit_unfolding : unfolding.visit = Shape.tree? := by
  funext loc tree s
  cases s with
  | literal v | var x | assign x j | binary op i j | unary op j => rfl

def listing : Algebra (String → String) where
  literal _ v out := out ++ v.display
  var _ x out := out ++ "$" ++ x
  assign _ x e out := e (out ++ "($" ++ x ++ " = ") ++ ")"
  binary _ op l r out := r (l (out ++ "(") ++ " " ++ op.symbol ++ " ") ++ ")"
  unary _ op e out := e (out ++ "(" ++ op.symbol) ++ ")"

theorem gives_listing : listing.Gives fun e out => e.displayOnto out :=
  ⟨fun _ _ => rfl, fun _ _ => rfl, fun _ _ _ => rfl, fun _ _ _ _ => rfl, fun _ _ _ => rfl⟩

def evaluation : Algebra (Env → Value × Env) where
  literal _ v env := (v.value, env)
  var _ x env := env.get x
  assign _ x e env := let (v, env) := e env; (v, env.set x v)
  binary _ op l r env := let (a, env) := l env; let (b, env) := r env; (op.apply a b, env)
  unary _ op e env := let (v, env) := e env; (op.apply v, env)

theorem gives_evaluation : evaluation.Gives Expr.eval :=
  ⟨fun _ _ => rfl, fun _ _ => rfl, fun _ _ _ => rfl, fun _ _ _ _ => rfl, fun _ _ _ => rfl⟩

def copying : Algebra (Arena → Except ArenaError NodeId × Arena) where
  literal loc v out := out.push (.literal v) loc
  var loc x out := out.push (.var x) loc
  assign loc x e out :=
    match e out with
    | (.ok id, out) => out.push (.assign x id) loc
    | refused => refused
  binary loc op l r out :=
    match l out with
    | (.ok left, out) =>
      match r out with
      | (.ok right, out) => out.push (.binary op left right) loc
      | refused => refused
    | refused => refused
  unary loc op e out :=
    match e out with
    | (.ok id, out) => out.push (.unary op id) loc
    | refused => refused

theorem gives_copying : copying.Gives fun e out => out.insert e :=
  ⟨fun _ _ => rfl, fun _ _ => rfl, fun _ _ _ => rfl, fun _ _ _ _ => rfl, fun _ _ _ => rfl⟩

/-- Resolves generators, for which the node itself is kept. -/
def resolution (r : Registry) : Algebra (Expr × Except Refusal Generator) where
  literal loc v := (.literal loc v, r.generator (.literal loc v) [])
  var loc x := (.var loc x, r.generator (.var loc x) [])
  assign loc x e := (.assign loc x e.1, r.generator (.assign loc x e.1) [e.2])
  binary loc op a b := (.binary loc op a.1 b.1, r.generator (.binary loc op a.1 b.1) [a.2, b.2])
  unary loc op e := (.unary loc op e.1, r.generator (.unary loc op e.1) [e.2])

theorem gives_resolution (r : Registry) : (resolution r).Gives fun e => (e, r.resolve e) :=
  ⟨fun _ _ => rfl, fun _ _ => rfl, fun _ _ _ => rfl, fun _ _ _ _ => rfl, fun _ _ _ => rfl⟩

end Algebra

/-- To the end of a run, every node and every text is what it was when the arena handed it out, and a refused
request adds no node. Each node is the answer to a request, and its operands come before it. So a recursion
over operands ends at every node, which is how its tree is listed, compared, copied, evaluated and resolved. -/
theorem arena_keeps_what_it_hands_out {rs : List Request} (h : Admissible rs) :
    let a := Arena.after rs
    (∀ past rest, rs = past ++ rest → (Arena.after past).Extends a) ∧
    (∀ past r rest, rs = past ++ r :: rest → Answered (Arena.after past) a r ((Arena.after past).serve r).1) ∧
    (∀ id < a.size, ∃ past r rest, rs = past ++ r :: rest ∧ ((Arena.after past).serve r).1 = .node id) ∧
    a.WellFormed ∧
    ∀ id < a.size,
      (∀ (β : Type) (visit : Visit β), visit.Total →
        ∃ x, ∀ depth, id < depth → a.recurse visit depth id = some x) ∧
      ∃ e, a.tree id = .ok e ∧ (∀ depth, id < depth → a.recurse Shape.tree? depth id = some e) ∧
        a.describe id = .ok (nodeLabel id ++ " `" ++ e.display ++ "` @ " ++ e.location.label) ∧
        (∀ others, Admissible others → ∀ y < (Arena.after others).size,
          ∃ d, (Arena.after others).tree y = .ok d ∧ a.sameTree id (Arena.after others) y = .ok (e.sameTree d)) ∧
        (∀ out : Arena, out.Stores e (a.copyInto id out)) ∧
        ∀ depth, id < depth →
          a.recurse Algebra.listing.visit depth id = some (Expr.displayOnto · e) ∧
          a.recurse Algebra.copying.visit depth id = some (Arena.insert · e) ∧
          a.recurse Algebra.evaluation.visit depth id = some e.eval ∧
          ∀ r, a.recurse (Algebra.resolution r).visit depth id = some (e, r.resolve e) := by
  intro a
  refine ⟨?_, fun past r rest => h.answered, fun id => Arena.answer_of_lt_size, h.built.wellFormed, ?_⟩
  · rintro past rest rfl
    exact Arena.after_extends past rest
  · intro id hid
    refine ⟨fun β visit hv => h.built.wellFormed.recurse hv hid, ?_⟩
    obtain ⟨e, he⟩ := h.built.tree hid
    have htree : a.tree? id = some e := Arena.tree_eq_ok_iff.mp he
    refine ⟨e, he, fun depth hd => ?_, ?_, ?_, ?_, fun depth hd => ⟨?_, ?_, ?_, fun r => ?_⟩⟩
    · rw [← Algebra.visit_unfolding]
      exact Algebra.gives_unfolding.recurse htree hd
    · rw [Arena.describe, he]
      rfl
    · intro others hothers y hy
      obtain ⟨d, hd⟩ := hothers.built.tree hy
      exact ⟨d, hd, Arena.sameTree_of_tree? htree (Arena.tree_eq_ok_iff.mp hd)⟩
    · intro out
      rw [Arena.copyInto, he]
      exact out.stores_insert e
    · exact Algebra.gives_listing.recurse htree hd
    · exact Algebra.gives_copying.recurse htree hd
    · exact Algebra.gives_evaluation.recurse htree hd
    · exact (Algebra.gives_resolution r).recurse htree hd

/-- An assignment that comes too early, and the name of its target used by hand and as a text. -/
private def earlyAssignment : List Request :=
  [.push (.assign "x" 0) ⟨1, 1⟩, .intern "x", .store (.var 0) ⟨1, 2⟩, .push (.literal (.str "x")) ⟨1, 3⟩,
    .push (.binary .add 1 0) ⟨1, 4⟩, .push (.binary .sub 2 3) ⟨1, 5⟩]

private theorem admissible_earlyAssignment : Admissible earlyAssignment := by
  have hassign := @Admissible.next [] (.push (.assign "x" 0) ⟨1, 1⟩) .nil (by simp [Request.symbols])
  have hname := @Admissible.next _ (.intern "x") hassign (by simp [Request.symbols])
  have hvar := @Admissible.next _ (.store (.var 0) ⟨1, 2⟩) hname (by
    intro n hn
    cases List.mem_singleton.mp hn
    exact .inl ⟨[.push (.assign "x" 0) ⟨1, 1⟩], "x", [], rfl, by decide +kernel⟩)
  have htext := @Admissible.next _ (.push (.literal (.str "x")) ⟨1, 3⟩) hvar (by simp [Request.symbols])
  have hsum := @Admissible.next _ (.push (.binary .add 1 0) ⟨1, 4⟩) htext (by simp [Request.symbols])
  exact @Admissible.next _ (.push (.binary .sub 2 3) ⟨1, 5⟩) hsum (by simp [Request.symbols])

private def countNodes : Algebra Nat where
  literal _ _ := 1
  var _ _ := 1
  assign _ _ n := n + 1
  binary _ _ m n := m + n + 1
  unary _ _ n := n + 1

/-- The refused assignment leaves its target behind, and the number of that text still works. The nodes of
the sum of both uses are counted in three levels, although a difference is refused after it. -/
theorem early_assignment_keeps_its_target :
    Admissible earlyAssignment ∧ Arena.after (earlyAssignment.take 1) = ⟨#[], (Interner.intern {} "x").2⟩ ∧
      Answered (Arena.after (earlyAssignment.take 2)) (Arena.after earlyAssignment) (.store (.var 0) ⟨1, 2⟩)
        (.node 0) ∧
      2 < (Arena.after earlyAssignment).size ∧ countNodes.visit.Total ∧
      ∀ depth, 2 < depth → (Arena.after earlyAssignment).recurse countNodes.visit depth 2 = some 3 := by
  obtain ⟨-, hanswered, -, -, hnodes⟩ := arena_keeps_what_it_hands_out admissible_earlyAssignment
  have hsize : 2 < (Arena.after earlyAssignment).size := by decide +kernel
  have hthree : (Arena.after earlyAssignment).recurse countNodes.visit 3 2 = some 3 := by decide +kernel
  obtain ⟨n, hn⟩ := (hnodes 2 hsize).1 Nat countNodes.visit countNodes.total_visit
  obtain rfl := Option.some.inj (hthree.symm.trans (hn 3 (by decide)))
  exact ⟨admissible_earlyAssignment, by decide +kernel, hanswered (earlyAssignment.take 2) _ _ rfl, hsize,
    countNodes.total_visit, hn⟩

end ContextCodegen
