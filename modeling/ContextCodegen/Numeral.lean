import ContextCodegen.Number

/-! Numbers written in strings: an optional sign, digits with an optional fraction, an optional
exponent. Scanning takes the longest numeral at the front of the text, after blanks. -/
namespace ContextCodegen

/-- A written number. The fraction is absent when there is no point. -/
structure Numeral where
  negative : Bool
  whole : List Char
  fraction : Option (List Char)
  exponent : Option (Bool × List Char)
  deriving DecidableEq, Repr

namespace Numeral

def isBlank (c : Char) : Bool :=
  c == ' ' || c == '\t' || c == '\n' || c == '\r' || c == '\x0b' || c == '\x0c'

def digitsValue (ds : List Char) : Nat :=
  ds.foldl (fun n c => 10 * n + (c.toNat - '0'.toNat)) 0

def signed (negative : Bool) (n : Nat) : Int := if negative then -(n : Int) else n

def decimal (whole fraction : List Char) (exponent : Option (Bool × List Char)) : Decimal :=
  let power := match exponent with
    | some (negative, ds) => signed negative (digitsValue ds)
    | none => 0
  ⟨digitsValue (whole ++ fraction), power - fraction.length⟩

/-- A numeral without point and exponent is an integer if it is in range; any other is a float. -/
def number (n : Numeral) : Number :=
  let float := Number.float
    (Binary64.ofDecimal n.negative (decimal n.whole (n.fraction.getD []) n.exponent))
  match n.fraction, n.exponent with
  | none, none =>
    match Number.word? (signed n.negative (digitsValue n.whole)) with
    | some w => .int w
    | none => float
  | _, _ => float

def takeSign : List Char → Bool × List Char
  | '-' :: cs => (true, cs)
  | '+' :: cs => (false, cs)
  | cs => (false, cs)

def takeDigits (cs : List Char) : List Char × List Char := cs.span Char.isDigit

def takeFraction : List Char → Option (List Char) × List Char
  | '.' :: cs => let (ds, rest) := takeDigits cs; (some ds, rest)
  | cs => (none, cs)

/-- An exponent, taken only if it has a digit. -/
def takeExponent (cs : List Char) : Option (Bool × List Char) × List Char :=
  match cs with
  | c :: after =>
    if c == 'e' || c == 'E' then
      let (negative, digits) := takeSign after
      match takeDigits digits with
      | ([], _) => (none, cs)
      | (ds, rest) => (some (negative, ds), rest)
    else (none, cs)
  | [] => (none, [])

/-- The longest numeral after leading blanks, and the text behind it. -/
def scan (cs : List Char) : Option (Numeral × List Char) :=
  let (negative, body) := takeSign (cs.dropWhile isBlank)
  let (whole, afterWhole) := takeDigits body
  let (fraction, afterFraction) := takeFraction afterWhole
  if whole.isEmpty && (fraction.getD []).isEmpty then none
  else
    let (exponent, rest) := takeExponent afterFraction
    some (⟨negative, whole, fraction, exponent⟩, rest)

/-- The number that a whole text denotes, blanks around it allowed. -/
def parse? (s : String) : Option Number :=
  match scan s.toList with
  | some (n, rest) => if rest.all isBlank then some n.number else none
  | none => none

def parseFront? (s : String) : Option Number := (scan s.toList).map fun r => r.1.number

end Numeral

end ContextCodegen
