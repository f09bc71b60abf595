import ContextCodegen.Arena.Basic
import ContextCodegen.Target.Term
import ContextCodegen.Value

/-! Results of target terms, and the reasons for which a term has none. -/
namespace ContextCodegen.Target

/-- A result of a target term: a boxed value, a native one, or the number of a node it built. -/
inductive Native where
  | value (v : Value)
  | bool (b : Bool)
  | long (n : Int64)
  | double (x : Binary64)
  | str (s : String)
  | node (id : NodeId)
  deriving DecidableEq, Repr

inductive NativeType where
  | value | bool | long | double | str | node
  deriving DecidableEq, Repr

def NativeType.name : NativeType → String
  | .value => "Value"
  | .bool => "boolean"
  | .long => "long"
  | .double => "double"
  | .str => "String"
  | .node => "Expr"

inductive Wanted where
  | one (type : NativeType)
  | longOrDouble
  deriving DecidableEq, Repr

def Wanted.describe : Wanted → String
  | .one type => type.name
  | .longOrDouble => "long or double"

inductive ExecError where
  | parse (cause : ParseError)
  | unknownName (name : String)
  | unknownClass (name : String)
  | unknownMethod (receiver method : String)
  | arity (operation : String) (expected found : Nat)
  | typeMismatch (operation : String) (wanted : Wanted) (found : NativeType)
  | arena (cause : ArenaError)
  deriving DecidableEq, Repr

def ExecError.message : ExecError → String
  | .parse cause => cause.message
  | .unknownName x => "unknown name `" ++ x ++ "`"
  | .unknownClass x => "unknown class `" ++ x ++ "`"
  | .unknownMethod receiver method => "no method `" ++ method ++ "` on " ++ receiver
  | .arity operation expected found =>
    "`" ++ operation ++ "` takes " ++ toString expected ++ " argument(s), found " ++ toString found
  | .typeMismatch operation wanted found =>
    "`" ++ operation ++ "` expects " ++ wanted.describe ++ ", found " ++ found.name
  | .arena cause => cause.message

namespace Native

def type : Native → NativeType
  | .value _ => .value
  | .bool _ => .bool
  | .long _ => .long
  | .double _ => .double
  | .str _ => .str
  | .node _ => .node

def display : Native → String
  | .value v => "Value(" ++ v.display ++ ")"
  | .bool b => if b then "true" else "false"
  | .long n => toString n.toInt ++ "L"
  | .double x => x.text
  | .str s => Text.quoted s
  | .node id => "Expr(" ++ nodeLabel id ++ ")"

def mismatch {α : Type} (operation : String) (wanted : Wanted) (n : Native) : Except ExecError α :=
  .error (.typeMismatch operation wanted n.type)

def toValue (operation : String) : Native → Except ExecError Value
  | .value v => .ok v
  | n => n.mismatch operation (.one .value)

def toBool (operation : String) : Native → Except ExecError Bool
  | .bool b => .ok b
  | n => n.mismatch operation (.one .bool)

def toLong (operation : String) : Native → Except ExecError Int64
  | .long n => .ok n
  | n => n.mismatch operation (.one .long)

def toDouble (operation : String) : Native → Except ExecError Binary64
  | .double x => .ok x
  | n => n.mismatch operation (.one .double)

def toStr (operation : String) : Native → Except ExecError String
  | .str s => .ok s
  | n => n.mismatch operation (.one .str)

def toNode (operation : String) : Native → Except ExecError NodeId
  | .node id => .ok id
  | n => n.mismatch operation (.one .node)

def neg : Native → Except ExecError Native
  | .long n => .ok (.long (-n))
  | .double x => .ok (.double (-x))
  | n => n.mismatch "-" .longOrDouble

/-- Conversion to a native number type; a double too large for a long becomes the nearest one. -/
def cast : Primitive → Native → Except ExecError Native
  | .double, .long n => .ok (.double (Binary64.ofInt n.toInt))
  | .double, .double x => .ok (.double x)
  | .long, .long n => .ok (.long n)
  | .long, .double x => .ok (.long x.toInt64Clamping)
  | _, n => n.mismatch "cast" .longOrDouble

def widen (operation : String) : Native → Except ExecError Binary64
  | .long n => .ok (Binary64.ofInt n.toInt)
  | .double x => .ok x
  | n => n.mismatch operation .longOrDouble

/-- Two longs wrap; with a double among the operands both are widened. -/
def arithmetic : Arith → Native → Native → Except ExecError Native
  | .add, .long a, .long b => .ok (.long (a + b))
  | .sub, .long a, .long b => .ok (.long (a - b))
  | .add, a, b => do return .double ((← a.widen "+") + (← b.widen "+"))
  | .sub, a, b => do return .double ((← a.widen "-") - (← b.widen "-"))

end Native

end ContextCodegen.Target
