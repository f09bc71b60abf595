import ContextCodegen.Arena.Basic
import ContextCodegen.Registry
import ContextCodegen.Unit.Options

/-! Compilation units: functions over one arena that become the methods of one class, and the
checks a unit has to pass before any of it is generated. -/
namespace ContextCodegen

/-- A method to generate. Its context decides its return type. -/
structure Function where
  name : String
  root : NodeId
  context : Context
  deriving DecidableEq, Repr

structure CompileUnit where
  arena : Arena
  functions : List Function

inductive NameRole where
  | className | packageName | functionName
  deriving DecidableEq, Repr

def NameRole.word : NameRole → String
  | .className => "class"
  | .packageName => "package"
  | .functionName => "function"

inductive CompileError where
  | emit (function : String) (cause : EmitError)
  | incompleteRegistry (missing : List NodeKind)
  | invalidName (role : NameRole) (name : String)
  | duplicateFunction (name : String)
  | unknownRoot (function : String) (root : NodeId)
  | emitter (cause : EmitterError)
  deriving DecidableEq, Repr

def CompileError.message : CompileError → String
  | .emit function cause => "in function `" ++ function ++ "`: " ++ cause.message
  | .incompleteRegistry missing =>
    "registry has no generator for: " ++ ", ".intercalate (missing.map NodeKind.name)
  | .invalidName role name => "`" ++ name ++ "` is not a valid " ++ role.word ++ " name"
  | .duplicateFunction name => "function `" ++ name ++ "` is defined more than once"
  | .unknownRoot function root =>
    "function `" ++ function ++ "` has root " ++ nodeLabel root ++
      ", which is not in the unit's arena"
  | .emitter cause => "failed to write compilation unit: " ++ cause.message

def reservedWords : List String := [
  "_", "abstract", "assert", "boolean", "break", "byte", "case", "catch", "char", "class",
  "const", "continue", "default", "do", "double", "else", "enum", "extends", "false", "final",
  "finally", "float", "for", "goto", "if", "implements", "import", "instanceof", "int",
  "interface", "long", "native", "new", "null", "package", "private", "protected", "public",
  "return", "short", "static", "strictfp", "super", "switch", "synchronized", "this", "throw",
  "throws", "transient", "true", "try", "void", "volatile", "while"]

def isIdentifierStart (c : Char) : Bool := c.isAlpha || c == '_' || c == '$'

def isIdentifierPart (c : Char) : Bool := c.isAlphanum || c == '_' || c == '$'

def isIdentifier (s : String) : Bool :=
  match s.toList with
  | [] => false
  | c :: cs => isIdentifierStart c && cs.all isIdentifierPart && !reservedWords.contains s

/-- The segments between dots, of which there is always one. -/
def segments : List Char → List (List Char)
  | [] => [[]]
  | c :: cs =>
    if c = '.' then [] :: segments cs
    else
      match segments cs with
      | [] => [[c]]
      | s :: rest => (c :: s) :: rest

def isPackageName (s : String) : Bool :=
  (segments s.toList).all fun segment => isIdentifier (String.ofList segment)

namespace CompileUnit

/-- Checks functions in order, after those with the names `seen`, over an arena of `size` nodes. -/
def validateFunctions (size : Nat) (seen : List String) :
    List Function → Except CompileError Unit
  | [] => .ok ()
  | f :: rest =>
    if !isIdentifier f.name then .error (.invalidName .functionName f.name)
    else if seen.contains f.name then .error (.duplicateFunction f.name)
    else if size ≤ f.root then .error (.unknownRoot f.name f.root)
    else validateFunctions size (f.name :: seen) rest

/-- Checks a unit: registry, class name, package, then the functions. -/
def validate (u : CompileUnit) (r : Registry) (o : UnitOptions) : Except CompileError Unit :=
  if r.missingKinds ≠ [] then .error (.incompleteRegistry r.missingKinds)
  else if !isIdentifier o.className then .error (.invalidName .className o.className)
  else
    match o.package with
    | some p =>
      if !isPackageName p then .error (.invalidName .packageName p)
      else validateFunctions u.arena.size [] u.functions
    | none => validateFunctions u.arena.size [] u.functions

end CompileUnit

end ContextCodegen
