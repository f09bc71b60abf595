/-! The vocabulary of expressions: source locations, operators, literals and the kinds of nodes. -/
namespace ContextCodegen

/-- A place in the source. Line zero marks code that no source line stands for. -/
structure Location where
  file : Nat
  line : Nat
  deriving DecidableEq, Repr, Inhabited

namespace Location

def generated : Location := ⟨0, 0⟩

def isGenerated (l : Location) : Bool := l.line == 0

def fileLabel (l : Location) : String := "file#" ++ toString l.file

/-- File and line, whatever they are. -/
def label (l : Location) : String := l.fileLabel ++ ":" ++ toString l.line

def display (l : Location) : String := if l.isGenerated then "<generated>" else l.label

end Location

inductive BinaryOp where
  | eq | ne | add | sub
  deriving DecidableEq, Repr

inductive UnaryOp where
  | neg | not
  deriving DecidableEq, Repr

/-- A literal over its representation of texts. A float is kept as its bit pattern. -/
inductive Literal (τ : Type) where
  | null
  | bool (b : Bool)
  | int (n : Int64)
  | float (bits : UInt64)
  | str (s : τ)
  deriving DecidableEq, Repr

inductive NodeKind where
  | literal | var | assign | equals | notEquals | unaryMinus | not | add | sub
  deriving DecidableEq, Repr

namespace BinaryOp

def symbol : BinaryOp → String
  | .eq => "=="
  | .ne => "!="
  | .add => "+"
  | .sub => "-"

def kind : BinaryOp → NodeKind
  | .eq => .equals
  | .ne => .notEquals
  | .add => .add
  | .sub => .sub

end BinaryOp

namespace UnaryOp

def symbol : UnaryOp → String
  | .neg => "-"
  | .not => "!"

def kind : UnaryOp → NodeKind
  | .neg => .unaryMinus
  | .not => .not

end UnaryOp

namespace NodeKind

def all : List NodeKind :=
  [.literal, .var, .assign, .equals, .notEquals, .unaryMinus, .not, .add, .sub]

def name : NodeKind → String
  | .literal => "literal"
  | .var => "variable"
  | .assign => "assignment"
  | .equals => "equality"
  | .notEquals => "inequality"
  | .unaryMinus => "unary minus"
  | .not => "logical not"
  | .add => "addition"
  | .sub => "subtraction"

def tag : NodeKind → String
  | .literal => "Literal"
  | .var => "Var"
  | .assign => "Assign"
  | .equals => "Equals"
  | .notEquals => "NotEquals"
  | .unaryMinus => "UnaryMinus"
  | .not => "Not"
  | .add => "Add"
  | .sub => "Sub"

def arity : NodeKind → Nat
  | .literal | .var => 0
  | .assign | .unaryMinus | .not => 1
  | .equals | .notEquals | .add | .sub => 2

end NodeKind

end ContextCodegen
