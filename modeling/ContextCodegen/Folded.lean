import ContextCodegen.Value
import ContextCodegen.Expr.Kind

/-! Constants computed twice at generation time, once with the native arithmetic of the target
and once with that of dynamic values. -/
namespace ContextCodegen

namespace Number

def nativeNeg : Number → Number
  | .int n => .int (-n)
  | .float x => .float (-x)

/-- Native arithmetic on two operands of one type: integers wrap. Any operator but subtraction
adds. -/
def nativeBinary (op : BinaryOp) : Number → Number → Option Number
  | .int m, .int n => some (.int (if op = .sub then m - n else m + n))
  | .float x, .float y => some (.float (if op = .sub then x - y else x + y))
  | _, _ => none

end Number

structure Folded where
  native : Number
  boxed : Value
  deriving DecidableEq, Repr

namespace Folded

def long (n : Int64) : Folded := ⟨.int n, .int n⟩

def widened (n : Int64) : Folded := ⟨.float (Value.int n).toFloat, .int n⟩

def double (x : Binary64) : Folded := ⟨.float x, .float x⟩

def negated (f : Folded) : Folded := ⟨f.native.nativeNeg, f.boxed.neg⟩

/-- Two constants of different native types do not combine. -/
def binary (op : BinaryOp) (f g : Folded) : Option Folded :=
  (f.native.nativeBinary op g.native).map fun native =>
    ⟨native, if op = .sub then f.boxed.sub g.boxed else f.boxed.add g.boxed⟩

/-- Whether the native result stands for the dynamic one. -/
def agrees (f : Folded) : Bool :=
  match f.native with
  | .int n => f.boxed == .int n
  | .float x => x.numEq f.boxed.toFloat || (x.isNaN && f.boxed.toFloat.isNaN)

end Folded

end ContextCodegen
