import ContextCodegen.Value

/-! Variables of a run: current bindings and the trace of every recorded access. -/
namespace ContextCodegen

inductive Access where
  | read (name : String)
  | write (name : String)
  deriving DecidableEq, Repr

structure Env where
  bindings : List (String × Value) := []
  trace : Array Access := #[]
  deriving DecidableEq, Repr, Inhabited

namespace Env

/-- Replaces the binding of a name in place, or adds one at the end. -/
def insertBinding (name : String) (v : Value) : List (String × Value) → List (String × Value)
  | [] => [(name, v)]
  | (n, w) :: rest =>
    if n = name then (name, v) :: rest else (n, w) :: insertBinding name v rest

/-- Binds a variable without recording an access. -/
def define (env : Env) (name : String) (v : Value) : Env :=
  { env with bindings := insertBinding name v env.bindings }

def lookup (env : Env) (name : String) : Option Value := env.bindings.lookup name

/-- Reads a variable; one that has no binding reads as null. -/
def get (env : Env) (name : String) : Value × Env :=
  ((env.lookup name).getD .null, { env with trace := env.trace.push (.read name) })

def set (env : Env) (name : String) (v : Value) : Env :=
  { env with
    bindings := insertBinding name v env.bindings
    trace := env.trace.push (.write name) }

def clearTrace (env : Env) : Env := { env with trace := #[] }

end Env

end ContextCodegen
