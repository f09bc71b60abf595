/-! The contexts in which an expression can be emitted, one for each type the surrounding code
may ask for. -/
namespace ContextCodegen

inductive Context where
  | value | boolean | long | double | selfExpr
  deriving DecidableEq, Repr

/-- One entry for every context. -/
structure PerContext (α : Type) where
  value : α
  boolean : α
  long : α
  double : α
  selfExpr : α
  deriving DecidableEq, Repr

abbrev Contexts := PerContext Bool

namespace Context

def all : List Context := [.value, .boolean, .long, .double, .selfExpr]

def name : Context → String
  | .value => "value"
  | .boolean => "boolean"
  | .long => "long"
  | .double => "double"
  | .selfExpr => "self-expression"

def targetType : Context → String
  | .value => "Value"
  | .boolean => "boolean"
  | .long => "long"
  | .double => "double"
  | .selfExpr => "Expr"

def flag : Context → Nat
  | .value => 1
  | .boolean => 2
  | .long => 4
  | .double => 8
  | .selfExpr => 16

end Context

namespace PerContext

variable {α : Type}

def get (p : PerContext α) : Context → α
  | .value => p.value
  | .boolean => p.boolean
  | .long => p.long
  | .double => p.double
  | .selfExpr => p.selfExpr

def ofFn (f : Context → α) : PerContext α :=
  ⟨f .value, f .boolean, f .long, f .double, f .selfExpr⟩

end PerContext

namespace Contexts

/-- The contexts that every expression has a form for. -/
def boxed : Contexts := ⟨true, true, false, false, true⟩

def numeric : Contexts := ⟨false, false, true, true, false⟩

def supports (cs : Contexts) (c : Context) : Bool := cs.get c

def toList (cs : Contexts) : List Context := Context.all.filter cs.supports

def bits (cs : Contexts) : Nat := cs.toList.foldl (fun n c => n + c.flag) 0

/-- Bits that stand for no context are dropped. -/
def ofBits (n : Nat) : Contexts := PerContext.ofFn fun c => n / c.flag % 2 == 1

end Contexts

end ContextCodegen
