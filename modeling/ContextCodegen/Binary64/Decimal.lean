import ContextCodegen.Binary64.Basic

/-! Decimals beside binary64 numbers: reading one rounds to the nearest number, and every
finite number has an exact decimal, which rounding to fewer digits starts from. -/
namespace ContextCodegen

/-- The value `coefficient * 10 ^ exponent`. -/
structure Decimal where
  coefficient : Nat
  exponent : Int
  deriving DecidableEq, Repr

namespace Decimal

def width (n : Nat) : Nat := (Nat.toDigits 10 n).length

def dropZeros (digits : List Char) : List Char :=
  (digits.reverse.dropWhile (· == '0')).reverse

def digits (d : Decimal) : List Char := dropZeros (Nat.toDigits 10 d.coefficient)

/-- The exponent at which the first digit stands right after the point. -/
def point (d : Decimal) : Int := width d.coefficient + d.exponent

def roundOff (n places : Nat) : Nat :=
  let unit := Nat.pow 10 places
  let below := n / unit
  let rest := n % unit
  if unit < 2 * rest ∨ (unit = 2 * rest ∧ below % 2 = 1) then below + 1 else below

/-- The nearest decimal of at most `count` digits, a tie to the even one. -/
def toDigitCount (d : Decimal) (count : Nat) : Decimal :=
  let places := width d.coefficient - count
  ⟨roundOff d.coefficient places, d.exponent + places⟩

def toPlaces (d : Decimal) (places : Nat) : Nat :=
  let shift := d.exponent + places
  if 0 ≤ shift then d.coefficient * Nat.pow 10 shift.toNat else roundOff d.coefficient (-shift).toNat

/-- The neighbours of a decimal of `width` digits among those of `count` digits, the nearer one
first and the upper one when they are equally near. -/
def neighbours (d : Decimal) (width count : Nat) : List Decimal :=
  let places := width - count
  let unit := Nat.pow 10 places
  let below := d.coefficient / unit
  let rest := d.coefficient % unit
  let exponent := d.exponent + places
  if unit ≤ 2 * rest then [⟨below + 1, exponent⟩, ⟨below, exponent⟩]
  else [⟨below, exponent⟩, ⟨below + 1, exponent⟩]

end Decimal

namespace Binary64

/-- The number nearest to a decimal. Exponents that decide the result alone, beyond either end
of the range, are settled before any power is formed. -/
def ofDecimal (negative : Bool) (d : Decimal) : Binary64 :=
  if d.coefficient = 0 then zero negative
  else if 400 < d.exponent then .infinity negative
  else if d.exponent + d.coefficient.log2 < -1200 then zero negative
  else if 0 ≤ d.exponent then
    ofRank negative (nearestRank (d.coefficient * Nat.pow 10 d.exponent.toNat * unitsPerOne) 1)
  else
    ofRank negative (nearestRank (d.coefficient * unitsPerOne) (Nat.pow 10 (-d.exponent).toNat))

def exactDecimal (rank : Nat) : Decimal :=
  if 1074 ≤ scale rank then ⟨significand rank * Nat.pow 2 (scale rank - 1074), 0⟩
  else ⟨significand rank * Nat.pow 5 (1074 - scale rank), scale rank - 1074⟩

/-- The decimal with the fewest digits that reads back as the magnitude, the nearest of those. -/
def shortestDecimal (rank : Nat) : Decimal :=
  let exact := exactDecimal rank
  let width := Decimal.width exact.coefficient
  let readsBack (d : Decimal) : Bool := ofDecimal false d == ofRank false rank
  ((List.range' 1 width).findSome? fun count =>
    (exact.neighbours width count).find? readsBack).getD exact

end Binary64

end ContextCodegen
