import ContextCodegen.Binary64.Text

/-! Literals of the target language. None starts with a minus sign, so none can join a minus
before it. -/
namespace ContextCodegen.Target

/-- The least word has no literal of its own and is named instead. -/
def longLiteral (n : Int64) : String :=
  if n = Int64.minValue then "Long.MIN_VALUE"
  else if n < 0 then "(-" ++ toString n.toInt.natAbs ++ "L)"
  else toString n.toInt ++ "L"

def doubleLiteral : Binary64 → String
  | .nan => "Double.NaN"
  | .infinity false => "Double.POSITIVE_INFINITY"
  | .infinity true => "Double.NEGATIVE_INFINITY"
  | .finite false r => (Binary64.finite false r).text
  | .finite true r => "(-" ++ (Binary64.finite false r).text ++ ")"

def isControl (c : Char) : Bool := c.toNat < 0x20 || (0x7f ≤ c.toNat && c.toNat < 0xa0)

/-- Four hexadecimal digits, or more for a larger number. -/
def hexFour (n : Nat) : List Char :=
  let ds := Nat.toDigits 16 n
  List.replicate (4 - ds.length) '0' ++ ds

def escape (c : Char) : List Char :=
  if c = '"' then ['\\', '"']
  else if c = '\\' then ['\\', '\\']
  else if c = '\n' then ['\\', 'n']
  else if c = '\r' then ['\\', 'r']
  else if c = '\t' then ['\\', 't']
  else if isControl c then '\\' :: 'u' :: hexFour c.toNat
  else [c]

def stringLiteral (s : String) : String :=
  String.ofList ('"' :: s.toList.flatMap escape ++ ['"'])

end ContextCodegen.Target
