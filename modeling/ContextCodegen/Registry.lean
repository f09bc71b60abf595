import ContextCodegen.Generator.Standard

/-! The dispatch table from kinds of nodes to generators. -/
namespace ContextCodegen

structure Registry (m : Type → Type := Emission) [Monad m] [MonadEmission m] where
  factory? : NodeKind → Option (Factory m)

namespace Registry

variable {m : Type → Type} [Monad m] [MonadEmission m]

def empty : Registry m := ⟨fun _ => none⟩

/-- Each kind has the standard generator of the kind it is given, if it is given one. -/
def assembled (of : NodeKind → Option NodeKind) : Registry m :=
  ⟨fun k => (of k).map Generator.standard⟩

def standard : Registry := assembled some

def register (r : Registry m) (kind : NodeKind) (f : Factory m) : Registry m :=
  ⟨fun k => if k = kind then some f else r.factory? k⟩

def contains (r : Registry m) (kind : NodeKind) : Bool := (r.factory? kind).isSome

def missingKinds (r : Registry m) : List NodeKind := NodeKind.all.filter fun k => !r.contains k

def isTotal (r : Registry m) : Bool := r.missingKinds.isEmpty

def describe (r : Registry m) : String :=
  "Registry \x7b kinds: [" ++
    ", ".intercalate ((NodeKind.all.filter r.contains).map NodeKind.tag) ++ "] \x7d"

def generator (r : Registry m) (node : Expr) (operands : List (Except Refusal (Generator m))) :
    Except Refusal (Generator m) :=
  match r.factory? node.kind with
  | some f => .ok (f ⟨node, operands⟩)
  | none => .error (.noGenerator ⟨node.kind, node.location⟩)

/-- The generator of an expression. An operand without one is no failure by itself. -/
def resolve (r : Registry m) : Expr → Except Refusal (Generator m)
  | .literal loc v => r.generator (.literal loc v) []
  | .var loc x => r.generator (.var loc x) []
  | .assign loc x e => r.generator (.assign loc x e) [r.resolve e]
  | .binary loc op a b => r.generator (.binary loc op a b) [r.resolve a, r.resolve b]
  | .unary loc op e => r.generator (.unary loc op e) [r.resolve e]

/-- That an expression has no generator is a refusal too. -/
def emit (r : Registry m) (e : Expr) (c : Context) : m Unit := do
  let g ← MonadEmission.ofExcept (r.resolve e)
  g.emit c

def generate (r : Registry) (e : Expr) (c : Context) : Except Refusal String := do
  (← r.resolve e).text c

end Registry

end ContextCodegen
