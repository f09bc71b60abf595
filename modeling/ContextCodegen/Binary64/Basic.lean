/-! Binary64 floating-point numbers with exact arithmetic: every finite number is a whole
multiple of 2^-1074, so a sum is an integer sum, rounded once to the nearest number. -/
namespace ContextCodegen

abbrev Binary64.infinityRank : Nat := 0x7ff0000000000000

/-- A binary64 number with a single NaN. A finite magnitude is named by its rank among all
finite magnitudes in increasing order, which is also its bit pattern. -/
inductive Binary64 where
  | nan
  | infinity (negative : Bool)
  | finite (negative : Bool) (rank : Fin Binary64.infinityRank)
  deriving DecidableEq, Repr

namespace Binary64

def zero (negative : Bool) : Binary64 := .finite negative ⟨0, by decide⟩

instance : Inhabited Binary64 := ⟨zero false⟩

def signWeight : Nat := 0x8000000000000000

def fractions : Nat := 0x10000000000000

/-- The number of units of 2^-1074 in one. -/
def unitsPerOne : Nat := Nat.pow 2 1074

/-- A rank past the finite ones is an infinity. -/
def ofRank (negative : Bool) (rank : Nat) : Binary64 :=
  if h : rank < infinityRank then .finite negative ⟨rank, h⟩ else .infinity negative

/-- Every NaN pattern denotes the one NaN. -/
def ofBits (bits : UInt64) : Binary64 :=
  let rank := bits.toNat % signWeight
  if infinityRank < rank then .nan else ofRank (decide (signWeight ≤ bits.toNat)) rank

def signBit (negative : Bool) : Nat := if negative then signWeight else 0

/-- The interchange pattern, with the quiet pattern for NaN. -/
def toBits : Binary64 → UInt64
  | .nan => 0x7ff8000000000000
  | .infinity s => UInt64.ofNat (signBit s + infinityRank)
  | .finite s r => UInt64.ofNat (signBit s + r.val)

/-- The significand of a rank: its fraction, with the leading bit of a normal number. -/
def significand (rank : Nat) : Nat :=
  if rank < fractions then rank else fractions + rank % fractions

/-- The power of two that the significand of a rank is scaled by. -/
def scale (rank : Nat) : Nat := rank / fractions - 1

/-- The exact magnitude of a rank, counted in units of 2^-1074. -/
def magnitude (rank : Nat) : Nat := significand rank * Nat.pow 2 (scale rank)

/-- The rank nearest to `n / d` units; a value half-way between two ranks goes to the even one. -/
def nearestRank (n d : Nat) : Nat :=
  let whole := n / d
  let shift := whole.log2 - 52
  let significand := whole / Nat.pow 2 shift
  let step := Nat.pow 2 shift * d
  let rest := n - significand * step
  let below := shift * fractions + significand
  if step < 2 * rest ∨ (step = 2 * rest ∧ significand % 2 = 1) then below + 1 else below

def units (negative : Bool) (rank : Nat) : Int :=
  if negative then -(magnitude rank : Int) else magnitude rank

/-- The number nearest to a whole count of units; zero is positive. -/
def ofUnits (u : Int) : Binary64 :=
  ofRank (decide (u < 0)) (nearestRank u.natAbs 1)

def ofInt (n : Int) : Binary64 := ofUnits (n * unitsPerOne)

def neg : Binary64 → Binary64
  | .nan => .nan
  | .infinity s => .infinity (!s)
  | .finite s r => .finite (!s) r

/-- An exact sum of zero is negative only when both operands are. -/
def add : Binary64 → Binary64 → Binary64
  | .nan, _ => .nan
  | _, .nan => .nan
  | .infinity s, .infinity t => if s = t then .infinity s else .nan
  | .infinity s, .finite _ _ => .infinity s
  | .finite _ _, .infinity t => .infinity t
  | .finite s a, .finite t b =>
    let sum := units s a + units t b
    if sum = 0 then zero (s && t) else ofUnits sum

def sub (x y : Binary64) : Binary64 := add x (neg y)

instance : Neg Binary64 := ⟨neg⟩
instance : Add Binary64 := ⟨add⟩
instance : Sub Binary64 := ⟨sub⟩

def isNaN : Binary64 → Bool
  | .nan => true
  | _ => false

def isZero : Binary64 → Bool
  | .finite _ r => r.val == 0
  | _ => false

def isFinite : Binary64 → Bool
  | .finite _ _ => true
  | _ => false

def abs : Binary64 → Binary64
  | .nan => .nan
  | .infinity _ => .infinity false
  | .finite _ r => .finite false r

/-- Numeric equality: NaN equals nothing and the two zeros are equal. -/
def numEq : Binary64 → Binary64 → Bool
  | .infinity s, .infinity t => s == t
  | .finite s a, .finite t b => units s a == units t b
  | _, _ => false

def lt : Binary64 → Binary64 → Bool
  | .finite s a, .finite t b => decide (units s a < units t b)
  | .finite _ _, .infinity t => !t
  | .infinity s, .finite _ _ => s
  | .infinity s, .infinity t => s && !t
  | _, _ => false

def le (x y : Binary64) : Bool := x.lt y || x.numEq y

/-- The number with its fraction dropped; the sign stays, also that of a zero. -/
def trunc : Binary64 → Binary64
  | .finite s r => ofRank s (nearestRank (magnitude r / unitsPerOne * unitsPerOne) 1)
  | x => x

def rem : Binary64 → Binary64 → Binary64
  | .finite s a, .finite _ b =>
    if b.val = 0 then .nan else ofRank s (nearestRank (magnitude a % magnitude b) 1)
  | .finite s a, .infinity _ => .finite s a
  | _, _ => .nan

def remEuclid (x y : Binary64) : Binary64 :=
  let r := x.rem y
  if r.lt (zero false) then r + y.abs else r

/-- Conversion to a word that drops the fraction and stops at the ends of the range;
NaN gives zero. -/
def toInt64Clamping : Binary64 → Int64
  | .nan => 0
  | .infinity true => Int64.minValue
  | .infinity false => Int64.maxValue
  | .finite s r =>
    let whole : Int := (magnitude r / unitsPerOne : Nat)
    Int64.ofIntClamp (if s then -whole else whole)

def wordHalf : Binary64 := ofInt 0x8000000000000000

def wordCount : Binary64 := ofInt 0x10000000000000000

/-- Conversion to a word that drops the fraction and wraps; NaN and the infinities give zero. A number
out of range is reduced with the arithmetic of floats. -/
def toInt64Wrapping (x : Binary64) : Int64 :=
  if !x.isFinite then 0
  else if (-wordHalf).le x && x.lt wordHalf then x.toInt64Clamping
  else
    let reduced := x.trunc.remEuclid wordCount
    (if wordHalf.le reduced then reduced - wordCount else reduced).toInt64Clamping

end Binary64

end ContextCodegen
