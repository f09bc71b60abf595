import ContextCodegen.Unit.Basic

/-! Writing a compilation unit. Every method is generated into a buffer of its own first, so that
nothing is written unless all of them succeed. -/
namespace ContextCodegen.CompileUnit

open Emitter (print println newline flush scope)

def emitFunction (r : Registry) (o : UnitOptions) (f : Function) (e : Expr) :
    Printing EmitError Unit := do
  match r.resolve e with
  | .error cause => throw (.refused cause)
  | .ok g =>
    if o.locationComments && !g.subject.loc.isGenerated then
      (println ("// " ++ g.subject.loc.display)).adapt .emitter
    (println ("public static " ++ f.context.targetType ++ " " ++ f.name ++
      "(Env env) \x7b")).adapt .emitter
    let body : Printing EmitError Unit := do
      (print "return ").adapt .emitter
      (g.emit f.context).run
      (println ";").adapt .emitter
    let result ← (scope body).adapt .emitter
    result
    (println "\x7d").adapt .emitter

/-- The text of a method, one level inside the class. -/
def renderFunction (u : CompileUnit) (r : Registry) (o : UnitOptions) (f : Function) :
    Except CompileError String :=
  match u.arena.tree f.root with
  | .error _ => .error (.unknownRoot f.name f.root)
  | .ok e =>
    match emitFunction r o f e { depth := 1 } with
    | (.ok (), out) => .ok ((String.fromUTF8? out.sink.written).getD "")
    | (.error cause, _) => .error (.emit f.name cause)

def printBodies : List String → Printing EmitterError Unit
  | [] => pure ()
  | [body] => print body
  | body :: rest => do
    print body
    newline
    printBodies rest

/-- The class around methods that are already indented. -/
def printClass (o : UnitOptions) (bodies : List String) : Printing EmitterError Unit := do
  match o.package with
  | some p =>
    println ("package " ++ p ++ ";")
    newline
  | none => pure ()
  println ("public final class " ++ o.className ++ " \x7b")
  printBodies bodies
  println "\x7d"
  flush

/-- Checks and generates the unit, then writes it to the sink. Methods are generated one after another in
the order of the functions, also where `parallel` leaves the order open. -/
def write (u : CompileUnit) (r : Registry) (o : UnitOptions) (sink : Sink) :
    Except CompileError Unit × Sink :=
  match (do u.validate r o; u.functions.mapM (u.renderFunction r o)) with
  | .error e => (.error e, sink)
  | .ok bodies =>
    let (result, out) := printClass o bodies { sink }
    (result.mapError .emitter, out.sink)

def compile (u : CompileUnit) (r : Registry) (o : UnitOptions) : Except CompileError String :=
  match u.write r o {} with
  | (.ok (), sink) => .ok ((String.fromUTF8? sink.written).getD "")
  | (.error e, _) => .error e

end ContextCodegen.CompileUnit
