/-! An indenting writer over a byte sink that may be bounded. What fits of a write is kept even if
the write fails. Every line with something on it starts with four blanks per level of the depth at
which its first character is printed; an empty line stays empty. -/
namespace ContextCodegen

inductive SinkError where
  | closed
  | flushRefused
  deriving DecidableEq, Repr

def SinkError.message : SinkError → String
  | .closed => "closed"
  | .flushRefused => "flush refused"

structure Sink where
  written : ByteArray := .empty
  limit : Option Nat := none
  flushFails : Bool := false

namespace Sink

/-- Takes the bytes that fit and fails if some do not. -/
def write (s : Sink) (bytes : ByteArray) : Except SinkError Unit × Sink :=
  let ⟨written, limit, flushFails⟩ := s
  match limit with
  | none => (.ok (), ⟨written ++ bytes, limit, flushFails⟩)
  | some most =>
    let room := most - written.size
    if bytes.size ≤ room then (.ok (), ⟨written ++ bytes, limit, flushFails⟩)
    else (.error .closed, ⟨written ++ bytes.extract 0 room, limit, flushFails⟩)

def flush (s : Sink) : Except SinkError Unit :=
  if s.flushFails then .error .flushRefused else .ok ()

end Sink

inductive EmitterError where
  | sink (cause : SinkError)
  | dedentAtZero
  deriving DecidableEq, Repr

def EmitterError.message : EmitterError → String
  | .sink cause => cause.message
  | .dedentAtZero => "dedent called with zero indent"

structure Emitter where
  sink : Sink := {}
  depth : Nat := 0
  atLineStart : Bool := true

/-- Actions on an emitter, whose state is kept when one fails. -/
abbrev Printing (ε : Type) := ExceptT ε (StateM Emitter)

/-- The lines of a text, of which there is always one. -/
def lines (s : String) : List String := (s.toList.splitOn '\n').map String.ofList

namespace Emitter

/-- One write to the sink. -/
def put (s : String) : Printing EmitterError Unit := fun e =>
  let ⟨sink, depth, atLineStart⟩ := e
  match sink.write s.toUTF8 with
  | (.ok (), sink) => (.ok (), ⟨sink, depth, atLineStart⟩)
  | (.error cause, sink) => (.error (.sink cause), ⟨sink, depth, atLineStart⟩)

def setLineStart (atLineStart : Bool) : Printing EmitterError Unit :=
  modify fun e => { e with atLineStart }

def newline : Printing EmitterError Unit := do
  put "\n"
  setLineStart true

/-- One write for each level. -/
def putMargin : Nat → Printing EmitterError Unit
  | 0 => pure ()
  | depth + 1 => do
    put "    "
    putMargin depth

/-- A line is known to be started only once its whole margin is written. -/
def startLine : Printing EmitterError Unit := do
  if (← get).atLineStart then
    putMargin (← get).depth
    setLineStart false

def printLine (line : String) : Printing EmitterError Unit := do
  if line ≠ "" then
    startLine
    put line

def printLines : List String → Printing EmitterError Unit
  | [] => pure ()
  | [line] => printLine line
  | line :: rest => do
    printLine line
    newline
    printLines rest

def print (s : String) : Printing EmitterError Unit := printLines (lines s)

def println (s : String) : Printing EmitterError Unit := do
  print s
  newline

def flush : Printing EmitterError Unit := fun e =>
  (e.sink.flush.mapError .sink, e)

def indent (e : Emitter) : Emitter := { e with depth := e.depth + 1 }

def dedent : Printing EmitterError Unit := fun e =>
  if e.depth = 0 then (.error .dedentAtZero, e) else (.ok (), { e with depth := e.depth - 1 })

/-- Runs an action one level deeper and comes back one level, whatever the action's result. -/
def scope {ρ : Type} (body : Emitter → ρ × Emitter) : Printing EmitterError ρ := fun e =>
  let (r, e) := body e.indent
  match dedent e with
  | (.ok (), e) => (.ok r, e)
  | (.error err, e) => (.error err, e)

end Emitter

end ContextCodegen
