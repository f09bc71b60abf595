import ContextCodegen.Env
import ContextCodegen.Target.Native
import ContextCodegen.Value

/-! Execution of target text: receivers before arguments, arguments from left to right. Variables
live in an environment, and constructed nodes go to an arena. -/
namespace ContextCodegen.Target

structure Machine where
  env : Env
  nodes : Arena

/-- Actions on a machine, whose state is kept when one fails. -/
abbrev Exec := ExceptT ExecError (StateM Machine)

inductive StaticMethod where
  | getValue | setValue | toValue | createString | createLong
  deriving DecidableEq, Repr

inductive ValueMethod where
  | eql | add | sub | neg | toBoolean | toLong | toDouble
  deriving DecidableEq, Repr

inductive ClassName where
  | doubleValue
  | literalExpr
  | varExpr
  | assignExpr
  | unaryExpr (op : UnaryOp)
  | binaryExpr (op : BinaryOp)
  deriving DecidableEq, Repr

namespace StaticMethod

def find? (owner name : String) : Option StaticMethod :=
  if owner = "env" then
    if name = "getValue" then some .getValue
    else if name = "setValue" then some .setValue
    else if name = "toValue" then some .toValue
    else if name = "createString" then some .createString
    else none
  else if owner = "LongValue" ∧ name = "create" then some .createLong
  else none

def arity : StaticMethod → Nat
  | .setValue => 2
  | _ => 1

end StaticMethod

namespace ValueMethod

def find? (name : String) : Option ValueMethod :=
  if name = "eql" then some .eql
  else if name = "add" then some .add
  else if name = "sub" then some .sub
  else if name = "neg" then some .neg
  else if name = "toBoolean" then some .toBoolean
  else if name = "toLong" then some .toLong
  else if name = "toDouble" then some .toDouble
  else none

def arity : ValueMethod → Nat
  | .eql | .add | .sub => 1
  | _ => 0

end ValueMethod

namespace ClassName

def find? (name : String) : Option ClassName :=
  if name = "DoubleValue" then some .doubleValue
  else if name = "LiteralExpr" then some .literalExpr
  else if name = "VarExpr" then some .varExpr
  else if name = "AssignExpr" then some .assignExpr
  else if name = "UnaryMinusExpr" then some (.unaryExpr .neg)
  else if name = "UnaryNotExpr" then some (.unaryExpr .not)
  else if name = "BinaryEqualsExpr" then some (.binaryExpr .eq)
  else if name = "BinaryNotEqualsExpr" then some (.binaryExpr .ne)
  else if name = "BinaryAddExpr" then some (.binaryExpr .add)
  else if name = "BinarySubExpr" then some (.binaryExpr .sub)
  else none

def arity : ClassName → Nat
  | .assignExpr | .binaryExpr _ => 2
  | _ => 1

end ClassName

def constant? (owner name : String) : Option Native :=
  if owner = "Long" ∧ name = "MIN_VALUE" then some (.long Int64.minValue)
  else if owner = "Long" ∧ name = "MAX_VALUE" then some (.long Int64.maxValue)
  else if owner = "Double" ∧ name = "NaN" then some (.double .nan)
  else if owner = "Double" ∧ name = "POSITIVE_INFINITY" then some (.double (.infinity false))
  else if owner = "Double" ∧ name = "NEGATIVE_INFINITY" then some (.double (.infinity true))
  else if owner = "NullValue" ∧ name = "NULL" then some (.value .null)
  else if owner = "BooleanValue" ∧ name = "TRUE" then some (.value (.bool true))
  else if owner = "BooleanValue" ∧ name = "FALSE" then some (.value (.bool false))
  else none

def fieldValue (target : Term) (name : String) : Except ExecError Native :=
  match target with
  | .name owner =>
    match constant? owner name with
    | some n => .ok n
    | none => .error (.unknownName (owner ++ "." ++ name))
  | _ => .error (.unknownName name)

def literalOfValue : Value → Literal String
  | .null => .null
  | .bool b => .bool b
  | .int n => .int n
  | .float x => .float x.toBits
  | .str s => .str s

namespace Machine

def getVariable (name : String) : Exec Value := fun m =>
  let (v, env) := m.env.get name
  (.ok v, { m with env })

def setVariable (name : String) (v : Value) : Exec Unit := fun m =>
  (.ok (), { m with env := m.env.set name v })

def store (shape : Shape String) (loc : Location) : Exec NodeId := fun m =>
  let ⟨env, nodes⟩ := m
  match nodes.push shape loc with
  | (.ok id, nodes) => (.ok id, ⟨env, nodes⟩)
  | (.error e, nodes) => (.error (.arena e), ⟨env, nodes⟩)

/-- Builds a node, which no source line stands for. -/
def build (shape : Shape String) : Exec Native := do
  return .node (← store shape .generated)

/-- Stores a tree, operands first, and evaluates nothing. -/
def rebuild : Expr → Exec NodeId
  | .literal loc v => store (.literal v) loc
  | .var loc x => store (.var x) loc
  | .assign loc x e => do
    store (.assign x (← rebuild e)) loc
  | .binary loc op l r => do
    let left ← rebuild l
    let right ← rebuild r
    store (.binary op left right) loc
  | .unary loc op e => do
    store (.unary op (← rebuild e)) loc

def copy (a : Arena) (id : NodeId) : Exec NodeId :=
  match a.tree id with
  | .ok e => rebuild e
  | .error cause => throw (.arena cause)

/-- The argument count is checked before any argument is evaluated. -/
def checkArity (operation : String) (expected : Nat) (args : List Term) : Exec Unit :=
  if args.length = expected then pure ()
  else throw (.arity operation expected args.length)

def callStatic (operation : String) (method : StaticMethod) (args : List Native) : Exec Native :=
  match method, args with
  | .getValue, [name] => do
    return .value (← getVariable (← name.toStr operation))
  | .setValue, [name, value] => do
    let name ← name.toStr operation
    let value ← value.toValue operation
    setVariable name value
    return .value value
  | .toValue, [b] => do
    return .value (.bool (← b.toBool operation))
  | .createString, [s] => do
    return .value (.str (← s.toStr operation))
  | .createLong, [n] => do
    return .value (.int (← n.toLong operation))
  | method, args => throw (.arity operation method.arity args.length)

def callValue (operation : String) (receiver : Value) (method : ValueMethod) (args : List Native) :
    Except ExecError Native :=
  match method, args with
  | .eql, [other] => do return .bool (receiver.looseEq (← other.toValue operation))
  | .add, [other] => do return .value (receiver.add (← other.toValue operation))
  | .sub, [other] => do return .value (receiver.sub (← other.toValue operation))
  | .neg, [] => .ok (.value receiver.neg)
  | .toBoolean, [] => .ok (.bool receiver.truthy)
  | .toLong, [] => .ok (.long receiver.toInt64)
  | .toDouble, [] => .ok (.double receiver.toFloat)
  | method, args => .error (.arity operation method.arity args.length)

def construct (operation : String) (className : ClassName) (args : List Native) : Exec Native :=
  match className, args with
  | .doubleValue, [x] => do
    return .value (.float (← x.toDouble operation))
  | .literalExpr, [v] => do
    build (.literal (literalOfValue (← v.toValue operation)))
  | .varExpr, [name] => do
    build (.var (← name.toStr operation))
  | .assignExpr, [name, value] => do
    let name ← name.toStr operation
    let value ← value.toNode operation
    build (.assign name value)
  | .unaryExpr op, [operand] => do
    build (.unary op (← operand.toNode operation))
  | .binaryExpr op, [left, right] => do
    let left ← left.toNode operation
    let right ← right.toNode operation
    build (.binary op left right)
  | className, args => throw (.arity operation className.arity args.length)

mutual

def eval : Term → Exec Native
  | .long n => pure (.long n)
  | .double x => pure (.double x)
  | .str s => pure (.str s)
  | .bool b => pure (.bool b)
  | .name x => throw (.unknownName x)
  | .field target name => ExceptT.mk (pure (fieldValue target name))
  | .call receiver method args =>
    match receiver with
    | .name owner =>
      match StaticMethod.find? owner method with
      | none => throw (.unknownMethod owner method)
      | some m => do
        let operation := owner ++ "." ++ method
        checkArity operation m.arity args
        callStatic operation m (← evalAll args)
    | _ => do
      let v ← (← eval receiver).toValue method
      match ValueMethod.find? method with
      | none => throw (.unknownMethod "Value" method)
      | some m =>
        checkArity method m.arity args
        callValue method v m (← evalAll args)
  | .new name args =>
    match ClassName.find? name with
    | none => throw (.unknownClass name)
    | some c => do
      let operation := "new " ++ name
      checkArity operation c.arity args
      construct operation c (← evalAll args)
  | .neg operand => do (← eval operand).neg
  | .not operand => do return .bool (!(← (← eval operand).toBool "!"))
  | .cast type operand => do (← eval operand).cast type
  | .binary op left right => do
    let l ← eval left
    let r ← eval right
    Native.arithmetic op l r

def evalAll : List Term → Exec (List Native)
  | [] => pure []
  | t :: rest => do
    let n ← eval t
    return n :: (← evalAll rest)

end

def execute (source : String) : Exec Native := do
  match parse source with
  | .ok t => eval t
  | .error e => throw (.parse e)

end Machine

end ContextCodegen.Target
