import ContextCodegen.Binary64.Text
import ContextCodegen.Numeral
import ContextCodegen.Text

/-! Dynamic values, their conversions and the operators of the dynamic language. -/
namespace ContextCodegen

inductive Value where
  | null
  | bool (b : Bool)
  | int (n : Int64)
  | float (x : Binary64)
  | str (s : String)
  deriving DecidableEq, Repr, Inhabited

namespace Value

def typeName : Value → String
  | .null => "null"
  | .bool _ => "bool"
  | .int _ => "int"
  | .float _ => "float"
  | .str _ => "string"

def ofNumber : Number → Value
  | .int n => .int n
  | .float x => .float x

/-- Null, false, the zeros, the empty text and the text of a lone zero are false. -/
def truthy : Value → Bool
  | .null => false
  | .bool b => b
  | .int n => n != 0
  | .float x => !x.isZero
  | .str s => !(s == "" || s == "0")

/-- The number used by arithmetic; a text gives the number at its front, or zero. -/
def toNumber : Value → Number
  | .null => .int 0
  | .bool b => .int (if b then 1 else 0)
  | .int n => .int n
  | .float x => .float x
  | .str s => (Numeral.parseFront? s).getD (.int 0)

def numeric? : Value → Option Number
  | .int n => some (.int n)
  | .float x => some (.float x)
  | .str s => Numeral.parse? s
  | _ => none

def toInt64 (v : Value) : Int64 :=
  match v.toNumber with
  | .int n => n
  | .float x => x.toInt64Wrapping

def toFloat (v : Value) : Binary64 := v.toNumber.toFloat

/-- Floats have at most fourteen significant digits as text. -/
def significantDigits : Nat := 14

def toText : Value → String
  | .null => ""
  | .bool b => if b then "1" else ""
  | .int n => toString n.toInt
  | .float x => x.generalText significantDigits
  | .str s => s

def display : Value → String
  | .null => "null"
  | .bool b => if b then "true" else "false"
  | .str s => Text.quoted s
  | v => v.toText

/-- Sameness of values: the same type and the same content, floats compared as numbers. -/
def same : Value → Value → Bool
  | .float x, .float y => x.numEq y
  | a, b => a == b

/-- Loose equality. A boolean or null turns the other side into a boolean, except that null is
compared with a text by emptiness; all else is compared as numbers when both sides are numeric
and as texts when not. -/
def looseEq : Value → Value → Bool
  | .null, .null => true
  | .bool b, v => b == v.truthy
  | v, .bool b => b == v.truthy
  | .null, .str s => s == ""
  | .str s, .null => s == ""
  | .null, v => !v.truthy
  | v, .null => !v.truthy
  | a, b =>
    match a.numeric?, b.numeric? with
    | some x, some y => x.numEq y
    | _, _ => a.toText == b.toText

def neg (v : Value) : Value := ofNumber v.toNumber.neg

def add (a b : Value) : Value := ofNumber (a.toNumber.add b.toNumber)

def sub (a b : Value) : Value := ofNumber (a.toNumber.sub b.toNumber)

end Value

end ContextCodegen
