import ContextCodegen.Context
import ContextCodegen.Emitter
import ContextCodegen.Expr.Kind

/-! What a generator does in one context. It is written for any monad that can print and be refused:
one that acts on an emitter, or one that keeps the printed pieces and the outcome apart. -/
namespace ContextCodegen

structure Subject where
  kind : NodeKind
  loc : Location
  deriving DecidableEq, Repr

inductive Refusal where
  | unsupported (subject : Subject) (context : Context)
  | noGenerator (subject : Subject)
  | wrongShape (subject : Subject)
  deriving DecidableEq, Repr

namespace Refusal

def subject : Refusal → Subject
  | .unsupported s _ => s
  | .noGenerator s => s
  | .wrongShape s => s

def message : Refusal → String
  | .unsupported s c =>
    s.loc.display ++ ": " ++ s.kind.name ++ " node cannot be emitted in " ++ c.name ++ " context"
  | .noGenerator s => s.loc.display ++ ": no generator registered for " ++ s.kind.name ++ " nodes"
  | .wrongShape s =>
    s.loc.display ++ ": " ++ s.kind.name ++ " node does not have the shape its generator expects"

end Refusal

inductive EmitError where
  | refused (cause : Refusal)
  | emitter (cause : EmitterError)
  deriving DecidableEq, Repr

def EmitError.message : EmitError → String
  | .refused cause => cause.message
  | .emitter cause => "failed to write generated source: " ++ cause.message

def EmitError.refusal? {α : Type} : Except EmitError α → Option Refusal
  | .error (.refused r) => some r
  | _ => none

/-- Actions that print and may be refused. -/
class MonadEmission (m : Type → Type) where
  print : String → m Unit
  ofExcept {α : Type} : Except Refusal α → m α
  /-- The refusal that the action ends with where nothing else can fail. -/
  refusal? {α : Type} : m α → Option Refusal

namespace MonadEmission

variable {m : Type → Type} [MonadEmission m] {α : Type}

def refuse (r : Refusal) : m α := ofExcept (.error r)

end MonadEmission

instance : MonadEmission (Printing EmitError) where
  print s := (Emitter.print s).adapt .emitter
  ofExcept x := MonadExcept.ofExcept (x.mapError .refused)
  refusal? x := EmitError.refusal? (x {}).1

/-- Printed text as a tree of pieces, so that putting two outputs together copies nothing. -/
inductive Output where
  | empty
  | piece (s : String)
  | both (first second : Output)

namespace Output

def append : Output → Output → Output
  | .empty, b => b
  | a, .empty => a
  | a, b => .both a b

instance : Append Output := ⟨append⟩

def onto (out : String) : Output → String
  | .empty => out
  | .piece s => out ++ s
  | .both a b => b.onto (a.onto out)

def text (o : Output) : String := o.onto ""

def run : Output → Printing EmitError Unit
  | .empty => pure ()
  | .piece s => MonadEmission.print s
  | .both a b => do
    a.run
    b.run

end Output

structure Emission (α : Type) where
  output : Output
  result : Except Refusal α

namespace Emission

variable {α β : Type}

def print (s : String) : Emission Unit := ⟨.piece s, .ok ()⟩

def refuse (r : Refusal) : Emission α := ⟨.empty, .error r⟩

def ofExcept (x : Except Refusal α) : Emission α := ⟨.empty, x⟩

def bind (m : Emission α) (f : α → Emission β) : Emission β :=
  match m.result with
  | .ok a => let n := f a; ⟨m.output ++ n.output, n.result⟩
  | .error r => ⟨m.output, .error r⟩

instance : Monad Emission where
  pure a := ⟨.empty, .ok a⟩
  bind := bind

instance : MonadEmission Emission where
  print := print
  ofExcept := ofExcept
  refusal? m :=
    match m.result with
    | .ok _ => none
    | .error r => some r

def toText (m : Emission α) : Except Refusal String :=
  m.result.map fun _ => m.output.text

/-- Prints the emission piece by piece; its own outcome counts only once all of it is written. -/
def run (m : Emission α) : Printing EmitError α := do
  m.output.run
  MonadEmission.ofExcept m.result

end Emission

end ContextCodegen
