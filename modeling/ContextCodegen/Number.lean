import ContextCodegen.Binary64.Decimal

/-! Numbers of the dynamic language: 64-bit integers and binary64 floats. -/
namespace ContextCodegen

inductive Number where
  | int (n : Int64)
  | float (x : Binary64)
  deriving DecidableEq, Repr

namespace Number

def toFloat : Number → Binary64
  | .int n => Binary64.ofInt n.toInt
  | .float x => x

/-- Numeric equality: two integers exactly, otherwise as floats. -/
def numEq : Number → Number → Bool
  | .int m, .int n => m == n
  | a, b => a.toFloat.numEq b.toFloat

def word? (n : Int) : Option Int64 :=
  if -0x8000000000000000 ≤ n ∧ n < 0x8000000000000000 then some (Int64.ofInt n) else none

def ofIntOr (n : Int) (overflow : Binary64) : Number :=
  match word? n with
  | some w => .int w
  | none => .float overflow

/-- Negation; the one negative integer without a counterpart becomes a float. -/
def neg : Number → Number
  | .int n => ofIntOr (-n.toInt) (-(Number.int n).toFloat)
  | .float x => .float (-x)

/-- Addition; an integer sum out of range becomes a float sum. -/
def add : Number → Number → Number
  | .int m, .int n => ofIntOr (m.toInt + n.toInt) ((Number.int m).toFloat + (Number.int n).toFloat)
  | a, b => .float (a.toFloat + b.toFloat)

def sub : Number → Number → Number
  | .int m, .int n => ofIntOr (m.toInt - n.toInt) ((Number.int m).toFloat - (Number.int n).toFloat)
  | a, b => .float (a.toFloat - b.toFloat)

end Number

end ContextCodegen
