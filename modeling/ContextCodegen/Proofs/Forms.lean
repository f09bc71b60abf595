import ContextCodegen.Proofs.Layout
import ContextCodegen.Proofs.Running
import ContextCodegen.Registry

/-! The terms of the boxed forms and of the self-expression. What the standard generators print in
these contexts is read as the term of the context. -/
namespace ContextCodegen

open Target (Term Denotes longLiteral doubleLiteral stringLiteral)

section Terms

def longTerm (n : Int64) : Term :=
  if n = Int64.minValue then .field (.name "Long") "MIN_VALUE"
  else if n < 0 then .neg (.long (-n))
  else .long n

def doubleTerm : Binary64 → Term
  | .nan => .field (.name "Double") "NaN"
  | .infinity false => .field (.name "Double") "POSITIVE_INFINITY"
  | .infinity true => .field (.name "Double") "NEGATIVE_INFINITY"
  | .finite false r => .double (.finite false r)
  | .finite true r => .neg (.double (.finite false r))

/-- The term of a literal's value. -/
def Literal.term : Literal String → Term
  | .null => .field (.name "NullValue") "NULL"
  | .bool true => .field (.name "BooleanValue") "TRUE"
  | .bool false => .field (.name "BooleanValue") "FALSE"
  | .int n => .call (.name "LongValue") "create" [longTerm n]
  | .float bits => .new "DoubleValue" [doubleTerm (Binary64.ofBits bits)]
  | .str s => .call (.name "env") "createString" [.str s]

/-- The class that rebuilds a binary node. -/
def BinaryOp.className : BinaryOp → String
  | .eq => "BinaryEqualsExpr"
  | .ne => "BinaryNotEqualsExpr"
  | .add => "BinaryAddExpr"
  | .sub => "BinarySubExpr"

/-- The class that rebuilds a unary node. -/
def UnaryOp.className : UnaryOp → String
  | .neg => "UnaryMinusExpr"
  | .not => "UnaryNotExpr"

/-- The terms of a value and of the same value as a condition. -/
structure BoxedTerms where
  value : Term
  boolean : Term

namespace BoxedTerms

/-- A value that is converted to a condition. -/
def ofValue (t : Term) : BoxedTerms := ⟨t, .call t "toBoolean" []⟩

/-- A condition that is boxed. -/
def ofBoolean (t : Term) : BoxedTerms := ⟨.call (.name "env") "toValue" [t], t⟩

end BoxedTerms

namespace Expr

def boxedTerms : Expr → BoxedTerms
  | .literal _ v => ⟨v.term, .bool v.value.truthy⟩
  | .var _ x => .ofValue (.call (.name "env") "getValue" [.str x])
  | .assign _ x e => .ofValue (.call (.name "env") "setValue" [.str x, e.boxedTerms.value])
  | .binary _ .eq l r => .ofBoolean (.call l.boxedTerms.value "eql" [r.boxedTerms.value])
  | .binary _ .ne l r => .ofBoolean (.not (.call l.boxedTerms.value "eql" [r.boxedTerms.value]))
  | .binary _ .add l r => .ofValue (.call l.boxedTerms.value "add" [r.boxedTerms.value])
  | .binary _ .sub l r => .ofValue (.call l.boxedTerms.value "sub" [r.boxedTerms.value])
  | .unary _ .neg e => .ofValue (.call e.boxedTerms.value "neg" [])
  | .unary _ .not e => .ofBoolean (.not e.boxedTerms.boolean)

/-- The term that rebuilds the expression. -/
def selfTerm : Expr → Term
  | .literal _ v => .new "LiteralExpr" [v.term]
  | .var _ x => .new "VarExpr" [.str x]
  | .assign _ x e => .new "AssignExpr" [.str x, e.selfTerm]
  | .binary _ op l r => .new op.className [l.selfTerm, r.selfTerm]
  | .unary _ op e => .new op.className [e.selfTerm]

/-- The generator by a table that has a factory for every kind of node. -/
def generatorBy (table : NodeKind → Factory) : Expr → Generator
  | .literal loc v => table .literal ⟨.literal loc v, []⟩
  | .var loc x => table .var ⟨.var loc x, []⟩
  | .assign loc x e => table .assign ⟨.assign loc x e, [.ok (e.generatorBy table)]⟩
  | .binary loc op l r =>
    table op.kind ⟨.binary loc op l r, [.ok (l.generatorBy table), .ok (r.generatorBy table)]⟩
  | .unary loc op e => table op.kind ⟨.unary loc op e, [.ok (e.generatorBy table)]⟩

/-- Where every kind has a generator, so has every expression. -/
theorem resolve_of_table {r : Registry} {table : NodeKind → Factory}
    (h : ∀ k, r.factory? k = some (table k)) (e : Expr) : r.resolve e = .ok (e.generatorBy table) := by
  have hnode (node : Expr) (operands : List (Except Refusal Generator)) :
      r.generator node operands = .ok (table node.kind ⟨node, operands⟩) := by
    rw [Registry.generator, h]
  induction e with
  | literal loc v => exact hnode _ _
  | var loc x => exact hnode _ _
  | assign loc x e ih =>
    rw [Registry.resolve, ih]
    exact hnode _ _
  | binary loc op l r ihl ihr =>
    rw [Registry.resolve, ihl, ihr]
    exact hnode _ _
  | unary loc op e ih =>
    rw [Registry.resolve, ih]
    exact hnode _ _

theorem generate_of_table {r : Registry} {table : NodeKind → Factory}
    (h : ∀ k, r.factory? k = some (table k)) (e : Expr) (c : Context) :
    r.generate e c = ((e.generatorBy table).emit c).toText := by
  rw [Registry.generate, resolve_of_table h]
  rfl

/-- The standard generator. -/
abbrev generator (e : Expr) : Generator := e.generatorBy Generator.standard

theorem resolve_standard (e : Expr) : Registry.standard.resolve e = .ok e.generator :=
  e.resolve_of_table fun _ => rfl

theorem generate_standard (e : Expr) (c : Context) :
    Registry.standard.generate e c = (e.generator.emit c).toText :=
  e.generate_of_table (fun _ => rfl) c

end Expr

end Terms

section Emissions

namespace Emission

/-- The emission succeeds with a result and prints the characters. -/
def Prints {α : Type} (m : Emission α) (a : α) (cs : List Char) : Prop :=
  m.result = .ok a ∧ m.output.text.toList = cs

theorem prints_pure {α : Type} (a : α) : (pure a : Emission α).Prints a [] := ⟨rfl, rfl⟩

theorem prints_print (s : String) : (print s).Prints () s.toList :=
  ⟨rfl, by simp [print, Output.text, Output.onto]⟩

theorem Prints.bind {α β : Type} {m : Emission α} {f : α → Emission β} {a : α} {b : β}
    {cs ds : List Char} (h : m.Prints a cs) (h' : (f a).Prints b ds) : (m >>= f).Prints b (cs ++ ds) := by
  obtain ⟨hm, hcs⟩ := h
  obtain ⟨hf, hds⟩ := h'
  change (Emission.bind m f).Prints b (cs ++ ds)
  simp only [Emission.bind, hm, Prints, Output.text_append, String.toList_append, hcs, hds, hf, and_self]

/-- The emission succeeds with a text that is read as the term. -/
def Writes (m : Emission Unit) (t : Term) : Prop := ∃ cs, m.Prints () cs ∧ Denotes cs t

end Emission

end Emissions

section Literals

open Target

theorem toInt_neg_of_ne {n : Int64} (h : n ≠ Int64.minValue) : (-n).toInt = -n.toInt := by
  have hne : n.toInt ≠ Int64.minValue.toInt := fun he => h (Int64.toInt_inj.mp he)
  have hl := n.le_toInt
  have hu := n.toInt_lt
  rw [Int64.toInt_minValue] at hne
  rw [Int64.toInt_neg, Int.bmod_eq_of_le] <;> omega

theorem denotes_longLiteral (n : Int64) : Denotes (longLiteral n).toList (longTerm n) := by
  unfold longLiteral longTerm
  split
  · exact Target.denotes_field (Target.spells_plain rfl rfl)
  · rename_i hne
    split
    · rename_i hn
      rw [Int64.lt_iff_toInt_lt] at hn
      have hk : (-n).toInt = n.toInt.natAbs := by
        rw [toInt_neg_of_ne hne]
        have : n.toInt < 0 := hn
        omega
      have hd := (Target.denotes_long hk).neg_group
      simpa using hd
    · rename_i hn
      rw [Int64.lt_iff_toInt_lt] at hn
      obtain ⟨k, hk⟩ := Int.eq_ofNat_of_zero_le (Int.not_lt.mp hn)
      have hd := Target.denotes_long hk
      rw [hk, Int.toString_eq_repr, Int.repr_eq_if]
      simpa using hd

theorem denotes_doubleLiteral (x : Binary64) : Denotes (doubleLiteral x).toList (doubleTerm x) := by
  have finite (r : Fin Binary64.infinityRank) :
      Denotes (Binary64.finite false r).text.toList (.double (.finite false r)) := by
    obtain ⟨n, hn, htext, hfloat⟩ := Binary64.text_numeral r
    rw [htext, ← hfloat]
    exact Target.denotes_double hn
  match x with
  | .nan | .infinity false | .infinity true => exact Target.denotes_field (Target.spells_plain rfl rfl)
  | .finite false r => exact finite r
  | .finite true r =>
    have hd := (finite r).neg_group
    simpa [doubleLiteral, doubleTerm] using hd

theorem denotes_truth (b : Bool) : Denotes (if b then "true" else "false").toList (.bool b) := by
  cases b <;> exact denotes_bool (spells_plain rfl rfl)

theorem denotes_boxedLiteral (v : Literal String) :
    Denotes (Generator.boxedLiteral v).toList v.term := by
  match v with
  | .null =>
    have hs : Spells "NullValue.NULL".toList [.ident "NullValue", .dot, .ident "NULL"] :=
      spells_plain rfl rfl
    exact denotes_field hs
  | .bool true =>
    have hs : Spells "BooleanValue.TRUE".toList [.ident "BooleanValue", .dot, .ident "TRUE"] :=
      spells_plain rfl rfl
    exact denotes_field hs
  | .bool false =>
    have hs : Spells "BooleanValue.FALSE".toList [.ident "BooleanValue", .dot, .ident "FALSE"] :=
      spells_plain rfl rfl
    exact denotes_field hs
  | .int n =>
    have hs : Sealed "LongValue.create(".toList [.ident "LongValue", .dot, .ident "create", .lparen] :=
      sealed_plain rfl rfl rfl
    exact denotes_static_one hs (denotes_longLiteral n)
  | .float bits =>
    have hs : Sealed "new DoubleValue(".toList [.new, .ident "DoubleValue", .lparen] :=
      sealed_plain rfl rfl rfl
    exact denotes_new_one hs (denotes_doubleLiteral (.ofBits bits))
  | .str s =>
    have hs : Sealed "env.createString(".toList [.ident "env", .dot, .ident "createString", .lparen] :=
      sealed_plain rfl rfl rfl
    exact denotes_static_one hs (denotes_str s)

theorem eval_longTerm (n : Int64) (m : Machine) : Machine.eval (longTerm n) m = (.ok (.long n), m) := by
  unfold longTerm
  split
  · rename_i h
    rw [h]
    rfl
  · split
    · have he : Machine.eval (.long (-n)) m = (.ok (.long (-n)), m) := rfl
      rw [Machine.eval_neg he, Native.neg, Int64.neg_neg]
    · rfl

theorem eval_doubleTerm (x : Binary64) (m : Machine) :
    Machine.eval (doubleTerm x) m = (.ok (.double x), m) := by
  match x with
  | .nan | .infinity false | .infinity true => rfl
  | .finite false r => rfl
  | .finite true r => exact Machine.eval_neg (n := .double (.finite false r)) rfl

theorem eval_literalTerm (v : Literal String) (m : Machine) :
    Machine.eval v.term m = (.ok (.value v.value), m) := by
  match v with
  | .null | .bool true | .bool false => rfl
  | .int n => exact Machine.eval_call_static .createLong rfl rfl (Machine.evalAll_one (eval_longTerm n m))
  | .float bits => exact Machine.eval_new .doubleValue rfl rfl (Machine.evalAll_one (eval_doubleTerm _ m))
  | .str s => exact Machine.eval_call_static .createString rfl rfl (Machine.evalAll_one (Machine.eval_str s m))

end Literals

section Generators

open Target Emission

private theorem writes_method {m : Emission Unit} {t : Term} {s x : String} {w : List Char}
    (h : m.Writes t) (hs : s.toList = '.' :: w ++ [')'])
    (hx : Sealed ('.' :: w) [.dot, .ident x, .lparen]) :
    Writes (do m; print s) (.call t x []) := by
  obtain ⟨cs, hp, hd⟩ := h
  refine ⟨_, hp.bind (prints_print s), ?_⟩
  rw [hs]
  exact hd.call hx denotesArgs_nil

private theorem writes_method_one {m n : Emission Unit} {t u : Term} {s x : String} {w : List Char}
    (h : m.Writes t) (hs : s.toList = '.' :: w) (hx : Sealed ('.' :: w) [.dot, .ident x, .lparen])
    (h' : n.Writes u) : Writes (do m; print s; n; print ")") (.call t x [u]) := by
  obtain ⟨cs, hp, hd⟩ := h
  obtain ⟨es, hp', hd'⟩ := h'
  refine ⟨_, hp.bind ((prints_print s).bind (hp'.bind (prints_print ")"))), ?_⟩
  rw [hs]
  exact hd.call hx hd'.one_arg

private theorem writes_static {m : Emission Unit} {t : Term} {s x y : String}
    (hx : Sealed s.toList [.ident x, .dot, .ident y, .lparen]) (h : m.Writes t) :
    Writes (do print s; m; print ")") (.call (.name x) y [t]) := by
  obtain ⟨cs, hp, hd⟩ := h
  exact ⟨_, (prints_print s).bind (hp.bind (prints_print ")")), hd.one_arg.static hx⟩

private theorem writes_new {m : Emission Unit} {t : Term} {s x : String}
    (hx : Sealed s.toList [.new, .ident x, .lparen]) (h : m.Writes t) :
    Writes (do print s; m; print ")") (.new x [t]) := by
  obtain ⟨cs, hp, hd⟩ := h
  exact ⟨_, (prints_print s).bind (hp.bind (prints_print ")")), hd.one_arg.new hx⟩

private theorem writes_new_two {m n : Emission Unit} {t u : Term} {s x : String}
    (hx : Sealed s.toList [.new, .ident x, .lparen]) (h : m.Writes t) (h' : n.Writes u) :
    Writes (do print s; m; print ", "; n; print ")") (.new x [t, u]) := by
  obtain ⟨cs, hp, hd⟩ := h
  obtain ⟨ds, hp', hd'⟩ := h'
  refine ⟨_, (prints_print s).bind (hp.bind ((prints_print ", ").bind (hp'.bind (prints_print ")")))), ?_⟩
  exact (hd.two_args hd').new hx

private theorem writes_not {m : Emission Unit} {t : Term} (h : m.Writes t) :
    Writes (do print "(!"; m; print ")") (.not t) := by
  obtain ⟨cs, hp, hd⟩ := h
  exact ⟨_, (prints_print "(!").bind (hp.bind (prints_print ")")), hd.not_group⟩

private theorem writes_silent {m : Emission Unit} {t : Term} (h : m.Writes t) :
    Writes (do print ""; m) t := by
  obtain ⟨cs, hp, hd⟩ := h
  exact ⟨_, (prints_print "").bind hp, hd⟩

private theorem writes_not_method {m n : Emission Unit} {t u : Term} {s x : String} {w : List Char}
    (h : m.Writes t) (hs : s.toList = '.' :: w) (hx : Sealed ('.' :: w) [.dot, .ident x, .lparen])
    (h' : n.Writes u) : Writes (do print "(!"; m; print s; n; print "))") (.not (.call t x [u])) := by
  obtain ⟨cs, hp, hd⟩ := h
  obtain ⟨es, hp', hd'⟩ := h'
  refine ⟨_, (prints_print "(!").bind (hp.bind ((prints_print s).bind (hp'.bind (prints_print "))")))), ?_⟩
  have hall := (hd.call hx hd'.one_arg).not_group
  simp only [List.append_assoc] at hall
  rw [hs]
  exact hall

/-- A name, then an operand, as the arguments of a call. -/
private theorem prints_named {m : Emission Unit} {h x : String} {cs : List Char}
    (hp : m.Prints () cs) : Prints (do print (h ++ "(" ++ stringLiteral x ++ ", "); m; print ")") ()
      ((h ++ "(").toList ++ ((stringLiteral x).toList ++ (", ".toList ++ (cs ++ [')'])))) := by
  have hall : Prints (do print (h ++ "(" ++ stringLiteral x ++ ", "); m; print ")") () _ :=
    (prints_print _).bind (hp.bind (prints_print ")"))
  simp only [String.toList_append, List.append_assoc] at hall ⊢
  exact hall

/-- The boxed forms of a generator are read as the terms. -/
structure WritesBoxed (g : Generator) (b : BoxedTerms) : Prop where
  value : g.value.Writes b.value
  boolean : g.boolean.Writes b.boolean

theorem WritesBoxed.ofValue {g : Generator} {t : Term} (h : g.value.Writes t)
    (hb : g.boolean = do g.value; print ".toBoolean()") : WritesBoxed g (.ofValue t) := by
  refine ⟨h, ?_⟩
  rw [hb]
  exact writes_method h (w := "toBoolean(".toList) rfl (sealed_plain rfl rfl rfl)

theorem WritesBoxed.ofBoolean {g : Generator} {t : Term} (h : g.boolean.Writes t)
    (hv : g.value = do print "env.toValue("; g.boolean; print ")") : WritesBoxed g (.ofBoolean t) := by
  refine ⟨?_, h⟩
  rw [hv]
  exact writes_static (sealed_plain rfl rfl rfl) h

theorem writesBoxed (e : Expr) : WritesBoxed e.generator e.boxedTerms := by
  induction e with
  | literal loc v =>
    refine ⟨⟨_, prints_print _, denotes_boxedLiteral v⟩, ?_⟩
    exact ⟨_, prints_print _, denotes_truth v.value.truthy⟩
  | var loc x =>
    refine .ofValue ⟨_, prints_print ("env.getValue(" ++ stringLiteral x ++ ")"), ?_⟩ rfl
    exact denotes_static_one (sealed_plain rfl rfl rfl) (denotes_str x)
  | assign loc x e ih =>
    obtain ⟨cs, hp, hd⟩ := ih.value
    refine .ofValue ⟨_, prints_named (h := "env.setValue") hp, ?_⟩ rfl
    exact ((denotes_str x).two_args hd).static (sealed_plain rfl rfl rfl)
  | binary loc op l r ihl ihr =>
    cases op with
    | eq =>
      refine .ofBoolean (writes_silent ?_) rfl
      exact writes_method_one ihl.value (w := "eql(".toList) rfl (sealed_plain rfl rfl rfl) ihr.value
    | ne =>
      refine .ofBoolean ?_ rfl
      exact writes_not_method ihl.value (w := "eql(".toList) rfl (sealed_plain rfl rfl rfl) ihr.value
    | add =>
      refine .ofValue ?_ rfl
      exact writes_method_one ihl.value (w := "add(".toList) rfl (sealed_plain rfl rfl rfl) ihr.value
    | sub =>
      refine .ofValue ?_ rfl
      exact writes_method_one ihl.value (w := "sub(".toList) rfl (sealed_plain rfl rfl rfl) ihr.value
  | unary loc op e ih =>
    cases op with
    | neg =>
      refine .ofValue ?_ rfl
      exact writes_method ih.value (w := "neg(".toList) rfl (sealed_plain rfl rfl rfl)
    | not =>
      refine .ofBoolean ?_ rfl
      exact writes_not ih.boolean

theorem writesSelf (e : Expr) : e.generator.selfExpr.Writes e.selfTerm := by
  induction e with
  | literal loc v =>
    refine ⟨_, prints_print ("new LiteralExpr(" ++ Generator.boxedLiteral v ++ ")"), ?_⟩
    exact denotes_new_one (sealed_plain rfl rfl rfl) (denotes_boxedLiteral v)
  | var loc x =>
    refine ⟨_, prints_print ("new VarExpr(" ++ stringLiteral x ++ ")"), ?_⟩
    exact denotes_new_one (sealed_plain rfl rfl rfl) (denotes_str x)
  | assign loc x e ih =>
    obtain ⟨cs, hp, hd⟩ := ih
    refine ⟨_, prints_named (h := "new AssignExpr") hp, ?_⟩
    exact ((denotes_str x).two_args hd).new (sealed_plain rfl rfl rfl)
  | binary loc op l r ihl ihr =>
    cases op <;> exact writes_new_two (sealed_plain rfl rfl rfl) ihl ihr
  | unary loc op e ih =>
    cases op <;> exact writes_new (sealed_plain rfl rfl rfl) ih

theorem generate_of_writes {e : Expr} {c : Context} {t : Term} (h : (e.generator.emit c).Writes t) :
    ∃ s, Registry.standard.generate e c = .ok s ∧ Denotes s.toList t := by
  obtain ⟨cs, hp, hd⟩ := h
  refine ⟨_, ?_, hp.2.symm ▸ hd⟩
  rw [Expr.generate_standard, Emission.toText, hp.1]
  rfl

end Generators

end ContextCodegen
