import ContextCodegen.Expr.Basic
import ContextCodegen.Interner

/-! Expressions stored flat: a node refers to its operands by number, and to names and texts by
their interned number. Operands are stored before the nodes that use them. Numbers of nodes do not run
out: no node is refused for the size of its number. -/
namespace ContextCodegen

abbrev NodeId := Nat

/-- One node over its representation `τ` of texts, with numbered operands. -/
inductive Shape (τ : Type) where
  | literal (value : Literal τ)
  | var (name : τ)
  | assign (target : τ) (value : NodeId)
  | binary (op : BinaryOp) (left right : NodeId)
  | unary (op : UnaryOp) (operand : NodeId)
  deriving DecidableEq, Repr

structure Node where
  shape : Shape Symbol
  loc : Location
  deriving DecidableEq, Repr

structure Arena where
  nodes : Array Node := #[]
  names : Interner := {}
  deriving DecidableEq, Repr, Inhabited

def nodeLabel (id : NodeId) : String := "ExprId(" ++ toString id ++ ")"

inductive ArenaError where
  | forwardOperand (id : NodeId)
  | outOfBounds (size id : Nat)
  deriving DecidableEq, Repr

def ArenaError.message : ArenaError → String
  | .forwardOperand id => "operand " ++ nodeLabel id ++ " must be allocated before its parent"
  | .outOfBounds size id =>
    "index out of bounds: the len is " ++ toString size ++ " but the index is " ++ toString id

namespace Shape

variable {τ : Type}

def kind : Shape τ → NodeKind
  | .literal _ => .literal
  | .var _ => .var
  | .assign _ _ => .assign
  | .binary op _ _ => op.kind
  | .unary op _ => op.kind

def operands : Shape τ → List NodeId
  | .literal _ => []
  | .var _ => []
  | .assign _ e => [e]
  | .binary _ l r => [l, r]
  | .unary _ e => [e]

def intern (names : Interner) : Shape String → Shape Symbol × Interner
  | .literal (.str s) => let (n, names) := names.intern s; (.literal (.str n), names)
  | .literal .null => (.literal .null, names)
  | .literal (.bool b) => (.literal (.bool b), names)
  | .literal (.int n) => (.literal (.int n), names)
  | .literal (.float bits) => (.literal (.float bits), names)
  | .var x => let (n, names) := names.intern x; (.var n, names)
  | .assign x e => let (n, names) := names.intern x; (.assign n e, names)
  | .binary op l r => (.binary op l r, names)
  | .unary op e => (.unary op e, names)

def resolve? (names : Interner) : Shape Symbol → Option (Shape String)
  | .literal (.str n) => (names.text? n).map fun s => .literal (.str s)
  | .literal .null => some (.literal .null)
  | .literal (.bool b) => some (.literal (.bool b))
  | .literal (.int n) => some (.literal (.int n))
  | .literal (.float bits) => some (.literal (.float bits))
  | .var n => (names.text? n).map .var
  | .assign n e => (names.text? n).map fun x => .assign x e
  | .binary op l r => some (.binary op l r)
  | .unary op e => some (.unary op e)

def tree? (loc : Location) (operand : NodeId → Option Expr) : Shape String → Option Expr
  | .literal v => some (.literal loc v)
  | .var x => some (.var loc x)
  | .assign x e => (operand e).map (.assign loc x)
  | .binary op l r => (operand l).bind fun a => (operand r).map (.binary loc op a)
  | .unary op e => (operand e).map (.unary loc op)

end Shape

namespace Arena

def size (a : Arena) : Nat := a.nodes.size

def intern (a : Arena) (s : String) : Symbol × Arena :=
  let (n, names) := a.names.intern s
  (n, { a with names })

/-- Stores a node at the end, unless one of its operands is not stored yet. -/
def store (a : Arena) (shape : Shape Symbol) (loc : Location) : Except ArenaError NodeId × Arena :=
  let ⟨nodes, names⟩ := a
  match shape.operands.find? fun id => nodes.size ≤ id with
  | some id => (.error (.forwardOperand id), ⟨nodes, names⟩)
  | none => (.ok nodes.size, ⟨nodes.push ⟨shape, loc⟩, names⟩)

/-- Interns the text of a node, then stores it. The text stays interned when the node is
refused. -/
def push (a : Arena) (shape : Shape String) (loc : Location) : Except ArenaError NodeId × Arena :=
  let ⟨nodes, names⟩ := a
  let (shape, names) := shape.intern names
  store ⟨nodes, names⟩ shape loc

def node (a : Arena) (id : NodeId) : Except ArenaError Node :=
  match a.nodes[id]? with
  | some n => .ok n
  | none => .error (.outOfBounds a.nodes.size id)

/-- The trees of all nodes in order, each built from those before it. -/
def trees (a : Arena) : Array (Option Expr) :=
  a.nodes.foldl (fun built n =>
    built.push ((n.shape.resolve? a.names).bind
      (Shape.tree? n.loc fun id => (built[id]?).join))) #[]

def tree (a : Arena) (id : NodeId) : Except ArenaError Expr :=
  match (a.trees[id]?).join with
  | some e => .ok e
  | none => .error (.outOfBounds a.nodes.size id)

/-- Stores a copy of a tree, operands first, and gives the number of its root. -/
def insert (a : Arena) : Expr → Except ArenaError NodeId × Arena
  | .literal loc v => a.push (.literal v) loc
  | .var loc x => a.push (.var x) loc
  | .assign loc x e =>
    match a.insert e with
    | (.ok id, a) => a.push (.assign x id) loc
    | refused => refused
  | .binary loc op l r =>
    match a.insert l with
    | (.ok left, a) =>
      match a.insert r with
      | (.ok right, a) => a.push (.binary op left right) loc
      | refused => refused
    | refused => refused
  | .unary loc op e =>
    match a.insert e with
    | (.ok id, a) => a.push (.unary op id) loc
    | refused => refused

def copyInto (a : Arena) (id : NodeId) (out : Arena) : Except ArenaError NodeId × Arena :=
  match a.tree id with
  | .ok e => out.insert e
  | .error cause => (.error cause, out)

def text (a : Arena) (n : Symbol) : Except ArenaError String :=
  match a.names.text? n with
  | some s => .ok s
  | none => .error (.outOfBounds a.names.size n)

/-- The same text may have another number in another arena. -/
def sameText (a : Arena) (m : Symbol) (b : Arena) (n : Symbol) : Except ArenaError Bool := do
  return (← a.text m) == (← b.text n)

def sameLiteral (a b : Arena) : Literal Symbol → Literal Symbol → Except ArenaError Bool
  | .str m, .str n => a.sameText m b n
  | v, w => return v == w

/-- Compares two nodes by their shapes, and their operands by `same` as long as all is the same. -/
def sameShape (a b : Arena) (same : NodeId → NodeId → Except ArenaError Bool) :
    Shape Symbol → Shape Symbol → Except ArenaError Bool
  | .literal v, .literal w => a.sameLiteral b v w
  | .var m, .var n => a.sameText m b n
  | .assign m i, .assign n j => do
    if ← a.sameText m b n then same i j else return false
  | .binary f i k, .binary g j l => do
    if f = g then
      if ← same i j then same k l else return false
    else return false
  | .unary f i, .unary g j => if f = g then same i j else return false
  | _, _ => return false

/-- Whether two nodes stand for the same tree, locations apart. -/
def sameTree (a : Arena) (x : NodeId) (b : Arena) (y : NodeId) : Except ArenaError Bool := do
  let m ← a.node x
  let n ← b.node y
  -- a stored node is found behind its operands, so that the comparison comes to an end
  a.sameShape b (fun i j =>
    if i < x then
      if j < y then a.sameTree i b j else throw (.forwardOperand j)
    else throw (.forwardOperand i)) m.shape n.shape
termination_by x

def describe (a : Arena) (id : NodeId) : Except ArenaError String :=
  (a.tree id).map fun e => nodeLabel id ++ " `" ++ e.display ++ "` @ " ++ e.location.label

end Arena

end ContextCodegen
