import ContextCodegen.Binary64.Text
import ContextCodegen.Expr.Kind
import ContextCodegen.Text

/-! Expression trees with resolved names, each node with the location it came from. -/
namespace ContextCodegen

inductive Expr where
  | literal (loc : Location) (value : Literal String)
  | var (loc : Location) (name : String)
  | assign (loc : Location) (target : String) (value : Expr)
  | binary (loc : Location) (op : BinaryOp) (left right : Expr)
  | unary (loc : Location) (op : UnaryOp) (operand : Expr)
  deriving DecidableEq, Repr

def Literal.display : Literal String → String
  | .null => "null"
  | .bool b => if b then "true" else "false"
  | .int n => toString n.toInt
  | .float bits => (Binary64.ofBits bits).text
  | .str s => Text.quoted s

namespace Expr

def kind : Expr → NodeKind
  | .literal _ _ => .literal
  | .var _ _ => .var
  | .assign _ _ _ => .assign
  | .binary _ op _ _ => op.kind
  | .unary _ op _ => op.kind

def location : Expr → Location
  | .literal l _ => l
  | .var l _ => l
  | .assign l _ _ => l
  | .binary l _ _ _ => l
  | .unary l _ _ => l

/-- Equality of trees that looks at no location. -/
def sameTree : Expr → Expr → Bool
  | .literal _ a, .literal _ b => a == b
  | .var _ x, .var _ y => x == y
  | .assign _ x a, .assign _ y b => x == y && sameTree a b
  | .binary _ f a b, .binary _ g c d => f == g && sameTree a c && sameTree b d
  | .unary _ f a, .unary _ g b => f == g && sameTree a b
  | _, _ => false

/-- Appends the listing form, fully parenthesised, to a text. -/
def displayOnto (out : String) : Expr → String
  | .literal _ v => out ++ v.display
  | .var _ x => out ++ "$" ++ x
  | .assign _ x e => (e.displayOnto (out ++ "($" ++ x ++ " = ")) ++ ")"
  | .binary _ op l r =>
    r.displayOnto (l.displayOnto (out ++ "(") ++ " " ++ op.symbol ++ " ") ++ ")"
  | .unary _ op e => e.displayOnto (out ++ "(" ++ op.symbol) ++ ")"

def display (e : Expr) : String := e.displayOnto ""

end Expr

end ContextCodegen
