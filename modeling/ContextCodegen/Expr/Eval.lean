import ContextCodegen.Env
import ContextCodegen.Expr.Basic
import ContextCodegen.Value

/-! The meaning of expressions: operands from left to right, accesses recorded as they happen. -/
namespace ContextCodegen

def Literal.value : Literal String → Value
  | .null => .null
  | .bool b => .bool b
  | .int n => .int n
  | .float bits => .float (Binary64.ofBits bits)
  | .str s => .str s

def BinaryOp.apply : BinaryOp → Value → Value → Value
  | .eq, a, b => .bool (a.looseEq b)
  | .ne, a, b => .bool (!a.looseEq b)
  | .add, a, b => a.add b
  | .sub, a, b => a.sub b

def UnaryOp.apply : UnaryOp → Value → Value
  | .neg, v => v.neg
  | .not, v => .bool (!v.truthy)

/-- The value of an expression and the variables after it. -/
def Expr.eval : Expr → Env → Value × Env
  | .literal _ v, env => (v.value, env)
  | .var _ x, env => env.get x
  | .assign _ x e, env =>
    let (v, env) := e.eval env
    (v, env.set x v)
  | .binary _ op l r, env =>
    let (a, env) := l.eval env
    let (b, env) := r.eval env
    (op.apply a b, env)
  | .unary _ op e, env =>
    let (v, env) := e.eval env
    (op.apply v, env)

namespace Expr

def evalBoolean (e : Expr) (env : Env) : Bool × Env :=
  let (v, env) := e.eval env
  (v.truthy, env)

def evalLong (e : Expr) (env : Env) : Int64 × Env :=
  let (v, env) := e.eval env
  (v.toInt64, env)

def evalDouble (e : Expr) (env : Env) : Binary64 × Env :=
  let (v, env) := e.eval env
  (v.toFloat, env)

end Expr

end ContextCodegen
