import ContextCodegen.Binary64.Text
import ContextCodegen.Numeral
import ContextCodegen.Text

/-! Tokens of the target language. At every place the longest lexeme is taken; a lexeme that is no
token ends the reading. -/
namespace ContextCodegen.Target

inductive Token where
  | long (n : Int64)
  | double (x : Binary64)
  | str (s : String)
  | bool (b : Bool)
  | new
  | ident (name : String)
  | lparen
  | rparen
  | comma
  | dot
  | minus
  | plus
  | bang
  deriving DecidableEq, Repr

def Token.display : Token → String
  | .long n => "Long(" ++ toString n.toInt ++ ")"
  | .double x => "Double(" ++ x.text ++ ")"
  | .str s => "Str(" ++ Text.quoted s ++ ")"
  | .bool b => if b then "Bool(true)" else "Bool(false)"
  | .new => "New"
  | .ident x => "Ident(" ++ Text.quoted x ++ ")"
  | .lparen => "LParen"
  | .rparen => "RParen"
  | .comma => "Comma"
  | .dot => "Dot"
  | .minus => "Minus"
  | .plus => "Plus"
  | .bang => "Bang"

/-- A lexeme found behind its first character: how many more characters it has, and the token it
stands for, if any. -/
structure Lexeme where
  more : Nat
  token : Option Token
  deriving DecidableEq, Repr

/-- A text that is no token, and the byte offset at which it starts. -/
structure BadLexeme where
  offset : Nat
  text : String
  deriving DecidableEq, Repr

namespace Lexeme

def isBlank (c : Char) : Bool := c == ' ' || c == '\t' || c == '\r' || c == '\n'

def isNameStart (c : Char) : Bool := c.isAlpha || c == '_'

def isNamePart (c : Char) : Bool := c.isAlphanum || c == '_'

def ofName (name : String) : Token :=
  if name = "true" then .bool true
  else if name = "false" then .bool false
  else if name = "new" then .new
  else .ident name

def exponentLength (cs : List Char) : Nat :=
  match Numeral.takeExponent cs with
  | (some _, rest) => cs.length - rest.length
  | (none, _) => 0

def doubleValue (cs : List Char) : Binary64 :=
  let (whole, afterWhole) := Numeral.takeDigits cs
  let (fraction, afterFraction) := Numeral.takeFraction afterWhole
  let (exponent, _) := Numeral.takeExponent afterFraction
  Binary64.ofDecimal false (Numeral.decimal whole (fraction.getD []) exponent)

/-- A lexeme that starts with a digit. Digits alone are no token, nor are digits with an exponent
mark that no exponent follows. -/
def ofDigits (c : Char) (cs : List Char) : Lexeme :=
  let digits := cs.takeWhile Char.isDigit
  let double (more : Nat) : Lexeme := ⟨more, some (.double (doubleValue (c :: cs.take more)))⟩
  match cs.dropWhile Char.isDigit with
  | 'L' :: _ =>
    ⟨digits.length + 1, (Number.word? (Numeral.digitsValue (c :: digits))).map .long⟩
  | '.' :: after =>
    let fraction := after.takeWhile Char.isDigit
    if fraction.isEmpty then ⟨digits.length, none⟩
    else double (digits.length + 1 + fraction.length + exponentLength (after.drop fraction.length))
  | rest =>
    let exponent := exponentLength rest
    if exponent ≠ 0 then double (digits.length + exponent)
    else
      let mark := rest.head? == some 'e' || rest.head? == some 'E'
      ⟨if mark then digits.length + 1 else digits.length, none⟩

/-- The number of characters of complete items in front of a closing quote, and whether there is
one. An item is a character other than a backslash, or a backslash with the character after it,
which is no line end. -/
def bodyLength (n : Nat) : List Char → Nat × Bool
  | [] => (n, false)
  | '"' :: _ => (n, true)
  | '\\' :: c :: rest => if c = '\n' then (n, false) else bodyLength (n + 2) rest
  | '\\' :: [] => (n, false)
  | _ :: rest => bodyLength (n + 1) rest

def hexDigit? (c : Char) : Option Nat :=
  if c.isDigit then some (c.toNat - '0'.toNat)
  else if 'a' ≤ c ∧ c ≤ 'f' then some (c.toNat - 'a'.toNat + 10)
  else if 'A' ≤ c ∧ c ≤ 'F' then some (c.toNat - 'A'.toNat + 10)
  else none

def hexValue? : List Char → Option Nat
  | [] => none
  | c :: cs => (c :: cs).foldlM (fun n d => (hexDigit? d).map (16 * n + ·)) 0

/-- The character of a hexadecimal escape, whose digits a plus sign may precede. -/
def hexChar? (cs : List Char) : Option Char :=
  let digits := match cs with
    | '+' :: rest => rest
    | _ => cs
  (hexValue? digits).bind fun n => if h : n.isValidChar then some (Char.ofNatAux n h) else none

def shortEscape? (c : Char) : Option Char :=
  if c = 'n' then some '\n'
  else if c = 'r' then some '\r'
  else if c = 't' then some '\t'
  else if c = '\\' ∨ c = '"' ∨ c = '\x27' then some c
  else none

def unescape : List Char → Option (List Char)
  | [] => some []
  | '\\' :: 'u' :: a :: b :: c :: d :: rest => do
    let x ← hexChar? [a, b, c, d]
    return x :: (← unescape rest)
  | '\\' :: c :: rest => do
    let x ← shortEscape? c
    return x :: (← unescape rest)
  | '\\' :: [] => none
  | c :: rest => (unescape rest).map (c :: ·)

def ofQuote (cs : List Char) : Lexeme :=
  match bodyLength 0 cs with
  | (n, true) => ⟨n + 1, (unescape (cs.take n)).map fun s => .str (String.ofList s)⟩
  | (n, false) => ⟨n, none⟩

def punctuation? (c : Char) : Option Token :=
  if c = '(' then some .lparen
  else if c = ')' then some .rparen
  else if c = ',' then some .comma
  else if c = '.' then some .dot
  else if c = '-' then some .minus
  else if c = '+' then some .plus
  else if c = '!' then some .bang
  else none

def find (c : Char) (cs : List Char) : Lexeme :=
  if c.isDigit then ofDigits c cs
  else if c = '"' then ofQuote cs
  else if isNameStart c then
    let part := cs.takeWhile isNamePart
    ⟨part.length, some (ofName (String.ofList (c :: part)))⟩
  else ⟨0, punctuation? c⟩

end Lexeme

/-- Reads on at a byte offset, within a lexeme of which `skip` characters remain. -/
def tokensFrom (found : Array (Token × Nat)) (offset skip : Nat) :
    List Char → Except BadLexeme (Array (Token × Nat))
  | [] => .ok found
  | c :: cs =>
    if skip ≠ 0 then tokensFrom found (offset + c.utf8Size) (skip - 1) cs
    else if Lexeme.isBlank c then tokensFrom found (offset + c.utf8Size) 0 cs
    else
      let lexeme := Lexeme.find c cs
      match lexeme.token with
      | some t => tokensFrom (found.push (t, offset)) (offset + c.utf8Size) lexeme.more cs
      | none => .error ⟨offset, String.ofList (c :: cs.take lexeme.more)⟩

def tokenize (source : String) : Except BadLexeme (List (Token × Nat)) :=
  (tokensFrom #[] 0 0 source.toList).map Array.toList

end ContextCodegen.Target
