import ContextCodegen.Target.Token

/-! Terms of the target language, read by a machine that takes one token at a time.

The grammar, with a cast read wherever it can be:

    expr    := unary (('+' | '-') unary)*
    unary   := '-' unary | '!' unary | '(' ('double' | 'long') ')' unary | postfix
    postfix := primary ('.' IDENT args?)*
    primary := LONG | DOUBLE | STRING | BOOL | IDENT | 'new' IDENT args | '(' expr ')'
    args    := '(' (expr (',' expr)*)? ')'
-/
namespace ContextCodegen.Target

inductive Primitive where
  | long | double
  deriving DecidableEq, Repr

inductive Arith where
  | add | sub
  deriving DecidableEq, Repr

inductive Term where
  | long (n : Int64)
  | double (x : Binary64)
  | str (s : String)
  | bool (b : Bool)
  | name (x : String)
  | field (target : Term) (name : String)
  | call (receiver : Term) (method : String) (args : List Term)
  | new (className : String) (args : List Term)
  | neg (operand : Term)
  | not (operand : Term)
  | cast (type : Primitive) (operand : Term)
  | binary (op : Arith) (left right : Term)
  deriving Repr

/-- What could have stood in the place of an unexpected token. -/
inductive Expected where
  | expression | memberName | className | openParen | closeParen | commaOrClose | endOfInput
  deriving DecidableEq, Repr

def Expected.describe : Expected → String
  | .expression => "expression"
  | .memberName => "member name"
  | .className => "class name"
  | .openParen => "`(`"
  | .closeParen => "`)`"
  | .commaOrClose => "`,` or `)`"
  | .endOfInput => "end of input"

inductive ParseError where
  | lexeme (bad : BadLexeme)
  | unexpected (expected : Expected) (found : Option Token) (offset : Nat)
  deriving DecidableEq, Repr

def ParseError.message : ParseError → String
  | .lexeme bad =>
    "unrecognized input at offset " ++ toString bad.offset ++ ": " ++ Text.quoted bad.text
  | .unexpected expected found offset =>
    "expected " ++ expected.describe ++ " at offset " ++ toString offset ++ ", found " ++
      (found.map Token.display).getD "end of input"

inductive Callee where
  | method (receiver : Term) (name : String)
  | constructor (className : String)

def Callee.apply (args : List Term) : Callee → Term
  | .method receiver name => .call receiver name args
  | .constructor className => .new className args

/-- A construct that waits for a term to be complete. -/
inductive Frame where
  | neg
  | not
  | cast (type : Primitive)
  | left (op : Arith) (operand : Term)
  | paren
  | args (callee : Callee) (done : Array Term)

inductive Mode where
  /-- In front of a unary term. -/
  | operand
  /-- Behind a parenthesis that opens a group or a cast. -/
  | opened
  /-- Behind a parenthesis and the name of a type. -/
  | typeName (type : Primitive)
  /-- Behind the parenthesis that opens an argument list. -/
  | argsOpened
  /-- Behind a term that a member may follow. -/
  | after (term : Term)
  /-- Behind a term and a dot. -/
  | member (target : Term)
  /-- Behind a term, a dot and a name. -/
  | memberNamed (target : Term) (name : String)
  /-- Behind the word that starts a construction. -/
  | construction
  /-- Behind that word and a class name. -/
  | constructionNamed (className : String)

structure Reader where
  mode : Mode
  stack : List Frame

namespace Primitive

def name : Primitive → String
  | .long => "long"
  | .double => "double"

def ofName? (x : String) : Option Primitive :=
  if x = "double" then some .double else if x = "long" then some .long else none

end Primitive

namespace Reader

def start : Reader := ⟨.operand, []⟩

/-- Completes the operators that wait for a unary term. -/
def reduce (t : Term) : List Frame → Term × List Frame
  | .neg :: stack => reduce (.neg t) stack
  | .not :: stack => reduce (.not t) stack
  | .cast type :: stack => reduce (.cast type t) stack
  | .left op l :: stack => (.binary op l t, stack)
  | stack => (t, stack)

def operandStep (stack : List Frame) : Token → Except Expected Reader
  | .minus => .ok ⟨.operand, .neg :: stack⟩
  | .bang => .ok ⟨.operand, .not :: stack⟩
  | .lparen => .ok ⟨.opened, stack⟩
  | .new => .ok ⟨.construction, stack⟩
  | .long n => .ok ⟨.after (.long n), stack⟩
  | .double x => .ok ⟨.after (.double x), stack⟩
  | .str s => .ok ⟨.after (.str s), stack⟩
  | .bool b => .ok ⟨.after (.bool b), stack⟩
  | .ident x => .ok ⟨.after (.name x), stack⟩
  | _ => .error .expression

def expectedBehind : List Frame → Expected
  | [] => .endOfInput
  | .args _ _ :: _ => .commaOrClose
  | _ => .closeParen

def closeStep (t : Term) : List Frame → Token → Except Expected Reader
  | .paren :: stack, .rparen => .ok ⟨.after t, stack⟩
  | .args callee done :: stack, .rparen =>
    .ok ⟨.after (callee.apply (done.push t).toList), stack⟩
  | .args callee done :: stack, .comma => .ok ⟨.operand, .args callee (done.push t) :: stack⟩
  | stack, _ => .error (expectedBehind stack)

def afterStep (t : Term) (stack : List Frame) (tok : Token) : Except Expected Reader :=
  match tok with
  | .dot => .ok ⟨.member t, stack⟩
  | _ =>
    let (t, stack) := reduce t stack
    match tok with
    | .plus => .ok ⟨.operand, .left .add t :: stack⟩
    | .minus => .ok ⟨.operand, .left .sub t :: stack⟩
    | _ => closeStep t stack tok

def step (r : Reader) (tok : Token) : Except Expected Reader :=
  match r.mode, tok with
  | .operand, _ => operandStep r.stack tok
  | .opened, .ident x =>
    match Primitive.ofName? x with
    | some type => .ok ⟨.typeName type, r.stack⟩
    | none => operandStep (.paren :: r.stack) tok
  | .opened, _ => operandStep (.paren :: r.stack) tok
  | .typeName type, .rparen => .ok ⟨.operand, .cast type :: r.stack⟩
  | .typeName type, _ => afterStep (.name type.name) (.paren :: r.stack) tok
  | .argsOpened, .rparen =>
    match r.stack with
    | .args callee done :: stack => .ok ⟨.after (callee.apply done.toList), stack⟩
    | _ => .error .expression
  | .argsOpened, _ => operandStep r.stack tok
  | .after t, _ => afterStep t r.stack tok
  | .member t, .ident x => .ok ⟨.memberNamed t x, r.stack⟩
  | .member _, _ => .error .memberName
  | .memberNamed t x, .lparen => .ok ⟨.argsOpened, .args (.method t x) #[] :: r.stack⟩
  | .memberNamed t x, _ => afterStep (.field t x) r.stack tok
  | .construction, .ident x => .ok ⟨.constructionNamed x, r.stack⟩
  | .construction, _ => .error .className
  | .constructionNamed x, .lparen => .ok ⟨.argsOpened, .args (.constructor x) #[] :: r.stack⟩
  | .constructionNamed _, _ => .error .openParen

def finishAfter (t : Term) (stack : List Frame) : Except Expected Term :=
  match reduce t stack with
  | (t, []) => .ok t
  | (_, stack) => .error (expectedBehind stack)

def finish (r : Reader) : Except Expected Term :=
  match r.mode with
  | .operand | .opened | .argsOpened => .error .expression
  | .typeName type => finishAfter (.name type.name) (.paren :: r.stack)
  | .after t => finishAfter t r.stack
  | .member _ => .error .memberName
  | .memberNamed t x => finishAfter (.field t x) r.stack
  | .construction => .error .className
  | .constructionNamed _ => .error .openParen

/-- Takes the tokens in order; `size` is the offset of the end of the text. -/
def run (size : Nat) (r : Reader) : List (Token × Nat) → Except ParseError Term
  | [] => r.finish.mapError fun e => .unexpected e none size
  | (tok, offset) :: rest =>
    match r.step tok with
    | .ok r => run size r rest
    | .error e => .error (.unexpected e (some tok) offset)

end Reader

def parse (source : String) : Except ParseError Term := do
  let tokens ← (tokenize source).mapError .lexeme
  Reader.start.run source.utf8ByteSize tokens

end ContextCodegen.Target
