import ContextCodegen.Binary64.Decimal

/-! Two written forms of a binary64 number: the shortest one that reads back, and the general one
with a bounded number of significant digits. -/
namespace ContextCodegen.Binary64

def signText (negative : Bool) : String := if negative then "-" else ""

def zeros (n : Nat) : List Char := List.replicate n '0'

/-- Digits with the point after `point` of them and at least one digit on either side. -/
def positional (digits : List Char) (point : Int) : List Char :=
  if point ≤ 0 then '0' :: '.' :: zeros (-point).toNat ++ digits
  else
    let n := point.toNat
    if digits.length ≤ n then digits ++ zeros (n - digits.length) ++ ['.', '0']
    else digits.take n ++ '.' :: digits.drop n

def mantissa : List Char → List Char
  | [] => ['0']
  | [c] => [c]
  | c :: rest => c :: '.' :: rest

/-- The shortest form of a positive magnitude: positional from 10^-4 up to 10^16. -/
def shortestText (rank : Nat) : String :=
  let d := shortestDecimal rank
  if -3 ≤ d.point ∧ d.point ≤ 16 then String.ofList (positional d.digits d.point)
  else String.ofList (mantissa d.digits) ++ "e" ++ toString (d.point - 1)

/-- The shortest text that reads back, always with a point or an exponent. -/
def text : Binary64 → String
  | .nan => "NaN"
  | .infinity s => signText s ++ "inf"
  | .finite s r => signText s ++ (if r.val = 0 then "0.0" else shortestText r)

def fixedText (rank places : Nat) : String :=
  let written := Nat.toDigits 10 ((exactDecimal rank).toPlaces places)
  let padded := zeros (places + 1 - written.length) ++ written
  let whole := padded.take (padded.length - places)
  match Decimal.dropZeros (padded.drop (padded.length - places)) with
  | [] => String.ofList whole
  | fraction => String.ofList (whole ++ '.' :: fraction)

/-- A positive magnitude with at most `count` significant digits: positional from 10^-4 up to
`10 ^ count`, otherwise with a signed exponent and a point in the mantissa. -/
def generalMagnitude (count rank : Nat) : String :=
  let rounded := (exactDecimal rank).toDigitCount count
  let exponent := rounded.point - 1
  if -4 ≤ exponent ∧ exponent < count then fixedText rank (count - 1 - exponent).toNat
  else
    let digits := match rounded.digits with
      | [c] => [c, '.', '0']
      | cs => mantissa cs
    let sign := if exponent < 0 then "-" else "+"
    String.ofList digits ++ "E" ++ sign ++ toString exponent.natAbs

def generalText (count : Nat) : Binary64 → String
  | .nan => "NAN"
  | .infinity s => signText s ++ "INF"
  | .finite s r => signText s ++ (if r.val = 0 then "0" else generalMagnitude count r)

end ContextCodegen.Binary64
