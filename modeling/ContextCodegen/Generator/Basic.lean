import ContextCodegen.Emission
import ContextCodegen.Expr.Basic
import ContextCodegen.Folded

/-! Generators: what to do for one node in every context. -/
namespace ContextCodegen

open MonadEmission (print ofExcept refusal? refuse)

section

variable {m : Type → Type} [Monad m] [MonadEmission m]

def unfoldedNative (subject : Subject) (long double : m Unit) :
    PerContext (m (Option Folded)) :=
  PerContext.ofFn fun
    | .long => do long; return none
    | .double => do double; return none
    | c => refuse (.unsupported subject c)

end

/-- The emissions of a node. Only the boxed value and the expression that rebuilds the node have
to be given; without more, a boolean is converted from the value and there is no native form. -/
@[ext] structure Generator (m : Type → Type := Emission) [Monad m] [MonadEmission m] where
  subject : Subject
  value : m Unit
  selfExpr : m Unit
  boolean : m Unit := do value; print ".toBoolean()"
  long : m Unit := refuse (.unsupported subject .long)
  double : m Unit := refuse (.unsupported subject .double)
  /-- A native form with the constant it computes, if it is constant. -/
  native : PerContext (m (Option Folded)) := unfoldedNative subject long double
  /-- The contexts that the node is declared to have a form for, found out only if asked for. -/
  declared : Unit → Except Refusal Contexts := fun _ => .ok Contexts.boxed

/-- A node with what its operands resolve to. -/
structure Site (m : Type → Type := Emission) [Monad m] [MonadEmission m] where
  node : Expr
  operands : List (Except Refusal (Generator m))

abbrev Factory (m : Type → Type := Emission) [Monad m] [MonadEmission m] := Site m → Generator m

variable {m : Type → Type} [Monad m] [MonadEmission m] {α : Type}

namespace Generator

def emit (g : Generator m) : Context → m Unit
  | .value => g.value
  | .boolean => g.boolean
  | .long => g.long
  | .double => g.double
  | .selfExpr => g.selfExpr

def contexts (g : Generator m) : Except Refusal Contexts := g.declared ()

def text (g : Generator) (c : Context) : Except Refusal String := (g.emit c).toText

/-- Whether a form exists; a refusal for any other reason than the context is passed on. -/
def supported (x : m α) : Except Refusal Bool :=
  match refusal? x with
  | none => .ok true
  | some (.unsupported _ _) => .ok false
  | some r => .error r

/-- The boxed contexts and the native ones whose forms exist. -/
def nativeContexts (native : PerContext (m (Option Folded))) : Except Refusal Contexts := do
  let long ← supported native.long
  let double ← supported native.double
  return { Contexts.boxed with long, double }

end Generator

namespace Site

def subject (s : Site m) : Subject := ⟨s.node.kind, s.node.location⟩

def wrongShape (s : Site m) : m α := refuse (.wrongShape s.subject)

def operand (s : Site m) (i : Nat) : m (Generator m) :=
  match s.operands[i]? with
  | some g => ofExcept g
  | none => s.wrongShape

/-- A constant is passed on only if both of its computations agree. -/
def agreeing (s : Site m) (c : Context) : Option Folded → m (Option Folded)
  | some f => if f.agrees then pure (some f) else refuse (.unsupported s.subject c)
  | none => refuse (.unsupported s.subject c)

end Site

end ContextCodegen
