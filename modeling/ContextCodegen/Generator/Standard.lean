import ContextCodegen.Expr.Eval
import ContextCodegen.Generator.Basic
import ContextCodegen.Target.Literal

/-! The standard generators, one for each family of nodes. -/
namespace ContextCodegen.Generator

open MonadEmission (print ofExcept refuse)
open Target (longLiteral doubleLiteral stringLiteral)

variable {m : Type → Type} [Monad m] [MonadEmission m]

def boxedLiteral : Literal String → String
  | .null => "NullValue.NULL"
  | .bool true => "BooleanValue.TRUE"
  | .bool false => "BooleanValue.FALSE"
  | .int n => "LongValue.create(" ++ longLiteral n ++ ")"
  | .float bits => "new DoubleValue(" ++ doubleLiteral (Binary64.ofBits bits) ++ ")"
  | .str s => "env.createString(" ++ stringLiteral s ++ ")"

def nativeLiteral (subject : Subject) (v : Literal String) (c : Context) :
    m (Option Folded) :=
  match c, v with
  | .long, .int n => do
    print (longLiteral n)
    return some (.long n)
  | .double, .int n => do
    print ("((double) " ++ longLiteral n ++ ")")
    return some (.widened n)
  | .double, .float bits => do
    print (doubleLiteral (Binary64.ofBits bits))
    return some (.double (Binary64.ofBits bits))
  | _, _ => refuse (.unsupported subject c)

def literalContexts : Literal String → Contexts
  | .int _ => { Contexts.boxed with long := true, double := true }
  | .float _ => { Contexts.boxed with double := true }
  | _ => Contexts.boxed

/-- The native forms as forms for their contexts. -/
def discard {α : Type} (x : m α) : m Unit := do
  let _ ← x

def literal : Factory m := fun site =>
  let read : Except Refusal (Literal String) :=
    match site.node with
    | .literal _ v => .ok v
    | _ => .error (.wrongShape site.subject)
  let native := PerContext.ofFn fun c => do nativeLiteral site.subject (← ofExcept read) c
  { subject := site.subject
    value := do print (boxedLiteral (← ofExcept read))
    selfExpr := do print ("new LiteralExpr(" ++ boxedLiteral (← ofExcept read) ++ ")")
    boolean := do print (if (← ofExcept read).value.truthy then "true" else "false")
    long := discard native.long
    double := discard native.double
    native := native
    declared := fun _ => read.map literalContexts }

def var : Factory m := fun site =>
  let name : m String :=
    match site.node with
    | .var _ x => pure (stringLiteral x)
    | _ => site.wrongShape
  { subject := site.subject
    value := do print ("env.getValue(" ++ (← name) ++ ")")
    selfExpr := do print ("new VarExpr(" ++ (← name) ++ ")") }

def assign : Factory m := fun site =>
  let target : m String :=
    match site.node with
    | .assign _ x _ => pure (stringLiteral x)
    | _ => site.wrongShape
  let form (head : String) (c : Context) : m Unit := do
    let target ← target
    let value ← site.operand 0
    print (head ++ "(" ++ target ++ ", ")
    value.emit c
    print ")"
  { subject := site.subject
    value := form "env.setValue" .value
    selfExpr := form "new AssignExpr" .selfExpr }

def rebuildBinary (className : String) (left right : Generator m) : m Unit := do
  print ("new " ++ className ++ "(")
  left.emit .selfExpr
  print ", "
  right.emit .selfExpr
  print ")"

def equality : Factory m := fun site =>
  let negated : m Bool :=
    match site.node with
    | .binary _ .eq _ _ => pure false
    | .binary _ .ne _ _ => pure true
    | _ => site.wrongShape
  let boolean : m Unit := do
    let negated ← negated
    let left ← site.operand 0
    let right ← site.operand 1
    print (if negated then "(!" else "")
    left.emit .value
    print ".eql("
    right.emit .value
    print (if negated then "))" else ")")
  { subject := site.subject
    value := do
      print "env.toValue("
      boolean
      print ")"
    boolean := boolean
    selfExpr := do
      let className := if ← negated then "BinaryNotEqualsExpr" else "BinaryEqualsExpr"
      let left ← site.operand 0
      let right ← site.operand 1
      rebuildBinary className left right }

/-- Only the native forms look at the node; the others take its first operand as it comes. -/
def minus : Factory m := fun site =>
  let native := PerContext.ofFn fun c => do
    if site.node.kind ≠ .unaryMinus then site.wrongShape
    else
      let operand ← site.operand 0
      print "(-"
      let folded ← operand.native.get c
      print ")"
      match folded with
      | some f => site.agreeing c (some f.negated)
      | none => return none
  { subject := site.subject
    value := do
      let operand ← site.operand 0
      operand.emit .value
      print ".neg()"
    selfExpr := do
      let operand ← site.operand 0
      print "new UnaryMinusExpr("
      operand.emit .selfExpr
      print ")"
    long := discard native.long
    double := discard native.double
    native := native
    declared := fun _ => nativeContexts native }

/-- Takes the first operand of the node as it comes. -/
def logicalNot : Factory m := fun site =>
  let boolean : m Unit := do
    let operand ← site.operand 0
    print "(!"
    operand.emit .boolean
    print ")"
  { subject := site.subject
    value := do
      print "env.toValue("
      boolean
      print ")"
    boolean := boolean
    selfExpr := do
      let operand ← site.operand 0
      print "new UnaryNotExpr("
      operand.emit .selfExpr
      print ")" }

def arithmetic : Factory m := fun site =>
  let op : m BinaryOp :=
    match site.node with
    | .binary _ .add _ _ => pure .add
    | .binary _ .sub _ _ => pure .sub
    | _ => site.wrongShape
  let native := PerContext.ofFn fun c => do
    let op ← op
    let left ← site.operand 0
    let right ← site.operand 1
    print "("
    let l ← left.native.get c
    print (" " ++ op.symbol ++ " ")
    let r ← right.native.get c
    print ")"
    match l, r with
    | some l, some r => site.agreeing c (l.binary op r)
    | _, _ => return none
  { subject := site.subject
    value := do
      let method := if (← op) = .sub then ".sub(" else ".add("
      let left ← site.operand 0
      let right ← site.operand 1
      left.emit .value
      print method
      right.emit .value
      print ")"
    selfExpr := do
      let className := if (← op) = .sub then "BinarySubExpr" else "BinaryAddExpr"
      let left ← site.operand 0
      let right ← site.operand 1
      rebuildBinary className left right
    long := discard native.long
    double := discard native.double
    native := native
    declared := fun _ => nativeContexts native }

def standard : NodeKind → Factory m
  | .literal => literal
  | .var => var
  | .assign => assign
  | .equals => equality
  | .notEquals => equality
  | .unaryMinus => minus
  | .not => logicalNot
  | .add => arithmetic
  | .sub => arithmetic

end ContextCodegen.Generator
