import Mathlib.Data.List.Basic
import ContextCodegen.Proofs.Comparison
import ContextCodegen.Registry

/-! Locations have no influence. Trees that differ in nothing else are generated alike under every mix
of the standard generators, refusals included, and evaluate to the same value with the same effects. -/
namespace ContextCodegen

section Trees

/-- Trees that differ in their locations only. -/
inductive Expr.Alike : Expr → Expr → Prop
  | literal (l m : Location) (v : Literal String) : Alike (.literal l v) (.literal m v)
  | var (l m : Location) (x : String) : Alike (.var l x) (.var m x)
  | assign (l m : Location) (x : String) {d e : Expr} : Alike d e → Alike (.assign l x d) (.assign m x e)
  | binary (l m : Location) (op : BinaryOp) {a b c d : Expr} : Alike a c → Alike b d →
      Alike (.binary l op a b) (.binary m op c d)
  | unary (l m : Location) (op : UnaryOp) {d e : Expr} : Alike d e → Alike (.unary l op d) (.unary m op e)

theorem Expr.alike_of_sameTree {d e : Expr} (h : d.sameTree e = true) : d.Alike e := by
  fun_induction Expr.sameTree d e with
  | case1 l v m w =>
    obtain rfl := eq_of_beq h
    exact .literal l m v
  | case2 l x m y =>
    obtain rfl := eq_of_beq h
    exact .var l m x
  | case3 l x a m y b ih =>
    rw [Bool.and_eq_true] at h
    obtain rfl := eq_of_beq h.1
    exact .assign l m x (ih h.2)
  | case4 l f a b m g c d ihl ihr =>
    rw [Bool.and_eq_true, Bool.and_eq_true] at h
    obtain ⟨⟨hop, hl⟩, hr⟩ := h
    obtain rfl := eq_of_beq hop
    exact .binary l m f (ihl hl) (ihr hr)
  | case5 l f a m g b ih =>
    rw [Bool.and_eq_true] at h
    obtain rfl := eq_of_beq h.1
    exact .unary l m f (ih h.2)
  | case6 => cases h

theorem Expr.Alike.kind_eq {d e : Expr} (h : d.Alike e) : d.kind = e.kind := by
  cases h <;> rfl

end Trees

section Outcomes

/-- The same reason for nodes of the same kind, wherever they are. -/
def Refusal.SameReason : Refusal → Refusal → Prop
  | .unsupported s c, .unsupported t d => s.kind = t.kind ∧ c = d
  | .noGenerator s, .noGenerator t => s.kind = t.kind
  | .wrongShape s, .wrongShape t => s.kind = t.kind
  | _, _ => False

/-- Both succeed, with related results, or both are refused for the same reason. -/
inductive SameOutcome {α β : Type} (R : α → β → Prop) : Except Refusal α → Except Refusal β → Prop
  | ok {a : α} {b : β} : R a b → SameOutcome R (.ok a) (.ok b)
  | error {x y : Refusal} : x.SameReason y → SameOutcome R (.error x) (.error y)

theorem SameOutcome.bind {α β γ δ : Type} {R : α → β → Prop} {S : γ → δ → Prop} {x : Except Refusal α}
    {y : Except Refusal β} {f : α → Except Refusal γ} {g : β → Except Refusal δ} (h : SameOutcome R x y)
    (hf : ∀ a b, R a b → SameOutcome S (f a) (g b)) : SameOutcome S (x >>= f) (y >>= g) := by
  cases h with
  | ok hab => exact hf _ _ hab
  | error hxy => exact .error hxy

namespace Emission

variable {α β γ δ : Type}

/-- The emissions print the same and have the same outcome. -/
structure Alike (R : α → β → Prop) (m : Emission α) (n : Emission β) : Prop where
  output : m.output = n.output
  result : SameOutcome R m.result n.result

variable {R : α → β → Prop} {S : γ → δ → Prop}

theorem alike_pure {a : α} {b : β} (h : R a b) : Alike R (pure a) (pure b) := ⟨rfl, .ok h⟩

theorem alike_print (s : String) : Alike Eq (print s) (print s) := ⟨rfl, .ok rfl⟩

theorem alike_refuse {x y : Refusal} (h : x.SameReason y) : Alike R (refuse x) (refuse y) :=
  ⟨rfl, .error h⟩

theorem alike_ofExcept {x : Except Refusal α} {y : Except Refusal β} (h : SameOutcome R x y) :
    Alike R (ofExcept x) (ofExcept y) :=
  ⟨rfl, h⟩

theorem Alike.bind {m : Emission α} {n : Emission β} {f : α → Emission γ} {g : β → Emission δ}
    (h : m.Alike R n) (hf : ∀ a b, R a b → (f a).Alike S (g b)) : (m >>= f).Alike S (n >>= g) := by
  obtain ⟨out, x⟩ := m
  obtain ⟨_, y⟩ := n
  obtain ⟨rfl, hr⟩ := h
  cases hr with
  | ok hab =>
    obtain ⟨ho, hr⟩ := hf _ _ hab
    exact ⟨congrArg (out ++ ·) ho, hr⟩
  | error hxy => exact ⟨rfl, .error hxy⟩

/-- Emissions with equal results go on alike. -/
theorem Alike.then {m n : Emission α} {f g : α → Emission γ} {T : γ → γ → Prop} (h : m.Alike Eq n)
    (hf : ∀ a, (f a).Alike T (g a)) : (m >>= f).Alike T (n >>= g) :=
  h.bind fun a _ hab => hab ▸ hf a

theorem Alike.ite {p : Prop} [Decidable p] {m m' : Emission α} {n n' : Emission β} (h : m.Alike R n)
    (h' : m'.Alike R n') : Alike R (if p then m else m') (if p then n else n') := by
  by_cases hp : p
  · simpa only [if_pos hp] using h
  · simpa only [if_neg hp] using h'

theorem Alike.discard {m n : Emission α} (h : m.Alike Eq n) :
    (Generator.discard m).Alike Eq (Generator.discard n) :=
  h.then fun _ => alike_pure rfl

theorem Alike.toText {m n : Emission α} (h : m.Alike Eq n) : SameOutcome Eq m.toText n.toText := by
  obtain ⟨out, x⟩ := m
  obtain ⟨_, y⟩ := n
  obtain ⟨rfl, hr⟩ := h
  cases hr with
  | ok _ => exact .ok rfl
  | error hxy => exact .error hxy

theorem alike_ofFn {f g : Context → Emission α} (h : ∀ c, (f c).Alike Eq (g c)) (c : Context) :
    ((PerContext.ofFn f).get c).Alike Eq ((PerContext.ofFn g).get c) := by
  cases c <;> exact h _

end Emission

end Outcomes

section Generators

open Emission

/-- The generators emit alike in every context. -/
structure Generator.Alike (g h : Generator) : Prop where
  value : g.value.Alike Eq h.value
  selfExpr : g.selfExpr.Alike Eq h.selfExpr
  boolean : g.boolean.Alike Eq h.boolean
  long : g.long.Alike Eq h.long
  double : g.double.Alike Eq h.double
  native : ∀ c, (g.native.get c).Alike Eq (h.native.get c)

theorem Generator.Alike.emit {g h : Generator} (ha : g.Alike h) (c : Context) :
    (g.emit c).Alike Eq (h.emit c) := by
  cases c with
  | value => exact ha.value
  | boolean => exact ha.boolean
  | long => exact ha.long
  | double => exact ha.double
  | selfExpr => exact ha.selfExpr

/-- The boolean form comes from the value, and the forms as numbers from the native ones. -/
def Generator.Derived (g : Generator) : Prop :=
  g.boolean = (do g.value; print ".toBoolean()") ∧ g.long = discard g.native.long ∧
    g.double = discard g.native.double

theorem Generator.Alike.ofNative {g h : Generator} (value : g.value.Alike Eq h.value)
    (selfExpr : g.selfExpr.Alike Eq h.selfExpr) (native : ∀ c, (g.native.get c).Alike Eq (h.native.get c))
    (hg : g.Derived) (hh : h.Derived) : g.Alike h where
  value
  selfExpr
  boolean := by
    rw [hg.1, hh.1]
    exact value.then fun _ => alike_print _
  long := by
    rw [hg.2.1, hh.2.1]
    exact (native .long).discard
  double := by
    rw [hg.2.2, hh.2.2]
    exact (native .double).discard
  native

theorem Generator.Alike.rebuildBinary {g h k l : Generator} (hg : g.Alike h) (hk : k.Alike l)
    (className : String) :
    (Generator.rebuildBinary className g k).Alike Eq (Generator.rebuildBinary className h l) := by
  refine (alike_print _).then fun _ => hg.selfExpr.then fun _ => ?_
  exact (alike_print _).then fun _ => hk.selfExpr.then fun _ => alike_print _

theorem Generator.Alike.comparison {g h k l : Generator} (hg : g.Alike h) (hk : k.Alike l)
    (opening closing : String) : Emission.Alike Eq
      (do print opening; g.emit .value; print ".eql("; k.emit .value; print closing)
      (do print opening; h.emit .value; print ".eql("; l.emit .value; print closing) := by
  refine (alike_print _).then fun _ => hg.value.then fun _ => ?_
  exact (alike_print _).then fun _ => hk.value.then fun _ => alike_print _

/-- Nodes that differ in locations only, over operands that resolve alike. -/
structure Site.Alike (s t : Site) : Prop where
  node : s.node.Alike t.node
  operands : List.Forall₂ (SameOutcome Generator.Alike) s.operands t.operands

namespace Site.Alike

variable {s t : Site}

private theorem getElem?_of_forall₂ {α β : Type} {R : α → β → Prop} {xs : List α} {ys : List β}
    (h : List.Forall₂ R xs ys) (i : Nat) : Option.Rel R xs[i]? ys[i]? := by
  induction h generalizing i with
  | nil => exact .none
  | cons hab _ ih =>
    cases i with
    | zero => exact .some hab
    | succ i => exact ih i

theorem wrongShape {α : Type} {R : α → α → Prop} (h : s.Alike t) :
    Emission.Alike R s.wrongShape t.wrongShape :=
  alike_refuse h.node.kind_eq

theorem unsupported {α : Type} {R : α → α → Prop} (h : s.Alike t) (c : Context) :
    Emission.Alike R (.refuse (.unsupported s.subject c)) (.refuse (.unsupported t.subject c)) :=
  alike_refuse ⟨h.node.kind_eq, rfl⟩

theorem operand (h : s.Alike t) (i : Nat) :
    Emission.Alike Generator.Alike (s.operand i) (t.operand i) := by
  have hi := getElem?_of_forall₂ h.operands i
  unfold Site.operand
  generalize s.operands[i]? = x at hi ⊢
  generalize t.operands[i]? = y at hi ⊢
  cases hi with
  | none => exact h.wrongShape
  | some hxy => exact alike_ofExcept hxy

theorem agreeing (h : s.Alike t) (c : Context) (o : Option Folded) :
    Emission.Alike Eq (s.agreeing c o) (t.agreeing c o) := by
  cases o with
  | none => exact h.unsupported c
  | some f => exact (alike_pure rfl).ite (h.unsupported c)

/-- The native forms of a generator that has none. -/
theorem unfoldedNative (h : s.Alike t) (c : Context) :
    ((ContextCodegen.unfoldedNative s.subject (refuse (.unsupported s.subject .long))
      (refuse (.unsupported s.subject .double))).get c).Alike Eq
    ((ContextCodegen.unfoldedNative t.subject (refuse (.unsupported t.subject .long))
      (refuse (.unsupported t.subject .double))).get c) := by
  cases c with
  | long | double => exact (h.unsupported _).then fun _ => alike_pure rfl
  | value | boolean | selfExpr => exact h.unsupported _

theorem nativeLiteral (h : s.Alike t) (v : Literal String) (c : Context) :
    Emission.Alike Eq (Generator.nativeLiteral s.subject v c) (Generator.nativeLiteral t.subject v c) := by
  match c, v with
  | .long, .int n | .double, .int n | .double, .float bits =>
    exact (alike_print _).then fun _ => alike_pure rfl
  | .long, .null | .long, .bool _ | .long, .float _ | .long, .str _ => exact h.unsupported _
  | .double, .null | .double, .bool _ | .double, .str _ => exact h.unsupported _
  | .value, v | .boolean, v | .selfExpr, v => cases v <;> exact h.unsupported _

theorem literal (h : s.Alike t) : (Generator.literal s).Alike (Generator.literal t) := by
  obtain ⟨d, xs⟩ := s
  obtain ⟨e, ys⟩ := t
  cases h.node with
  | literal l m v =>
    have native (c : Context) : ((Generator.literal ⟨.literal l v, xs⟩).native.get c).Alike Eq
        ((Generator.literal ⟨.literal m v, ys⟩).native.get c) :=
      alike_ofFn (h.nativeLiteral v) c
    exact {
      value := alike_print _
      selfExpr := alike_print _
      boolean := alike_print _
      long := (native .long).discard
      double := (native .double).discard
      native }
  | _ =>
    exact ⟨h.wrongShape, h.wrongShape, h.wrongShape, h.wrongShape, h.wrongShape,
      alike_ofFn fun _ => h.wrongShape⟩

theorem var (h : s.Alike t) : (Generator.var s).Alike (Generator.var t) := by
  obtain ⟨d, xs⟩ := s
  obtain ⟨e, ys⟩ := t
  cases h.node with
  | var l m x =>
    exact {
      value := alike_print _
      selfExpr := alike_print _
      boolean := (alike_print _).then fun _ => alike_print _
      long := h.unsupported _
      double := h.unsupported _
      native := h.unfoldedNative }
  | _ => exact ⟨h.wrongShape, h.wrongShape, h.wrongShape, h.unsupported _, h.unsupported _, h.unfoldedNative⟩

theorem assign (h : s.Alike t) : (Generator.assign s).Alike (Generator.assign t) := by
  obtain ⟨d, xs⟩ := s
  obtain ⟨e, ys⟩ := t
  cases h.node with
  | @assign l m x d e _ =>
    have value : (Generator.assign ⟨.assign l x d, xs⟩).value.Alike Eq
        (Generator.assign ⟨.assign m x e, ys⟩).value := by
      refine (h.operand 0).bind fun _ _ ha => ?_
      exact (alike_print _).then fun _ => ha.value.then fun _ => alike_print _
    exact {
      value
      selfExpr := (h.operand 0).bind fun _ _ ha =>
        (alike_print _).then fun _ => ha.selfExpr.then fun _ => alike_print _
      boolean := value.then fun _ => alike_print _
      long := h.unsupported _
      double := h.unsupported _
      native := h.unfoldedNative }
  | _ => exact ⟨h.wrongShape, h.wrongShape, h.wrongShape, h.unsupported _, h.unsupported _, h.unfoldedNative⟩

theorem equality (h : s.Alike t) : (Generator.equality s).Alike (Generator.equality t) := by
  obtain ⟨d, xs⟩ := s
  obtain ⟨e, ys⟩ := t
  have value {m n : Emission Unit} (hb : m.Alike Eq n) : Emission.Alike Eq
      (do print "env.toValue("; m; print ")") (do print "env.toValue("; n; print ")") :=
    (alike_print _).then fun _ => hb.then fun _ => alike_print _
  cases h.node with
  | binary l m op _ _ =>
    cases op with
    | eq | ne =>
      exact {
        value := value ((h.operand 0).bind fun _ _ hl => (h.operand 1).bind fun _ _ hr => hl.comparison hr _ _)
        selfExpr := (h.operand 0).bind fun _ _ hl => (h.operand 1).bind fun _ _ hr => hl.rebuildBinary hr _
        boolean := (h.operand 0).bind fun _ _ hl => (h.operand 1).bind fun _ _ hr => hl.comparison hr _ _
        long := h.unsupported _
        double := h.unsupported _
        native := h.unfoldedNative }
    | add | sub =>
      exact ⟨value h.wrongShape, h.wrongShape, h.wrongShape, h.unsupported _, h.unsupported _,
        h.unfoldedNative⟩
  | _ =>
    exact ⟨value h.wrongShape, h.wrongShape, h.wrongShape, h.unsupported _, h.unsupported _,
      h.unfoldedNative⟩

theorem minus (h : s.Alike t) : (Generator.minus s).Alike (Generator.minus t) := by
  have native (c : Context) :
      ((Generator.minus s).native.get c).Alike Eq ((Generator.minus t).native.get c) := by
    refine alike_ofFn (fun c => ?_) c
    rw [← h.node.kind_eq]
    refine h.wrongShape.ite ?_
    refine (h.operand 0).bind fun _ _ ha => (alike_print _).then fun _ => (ha.native c).then fun o => ?_
    refine (alike_print _).then fun _ => ?_
    cases o with
    | none => exact alike_pure rfl
    | some f => exact h.agreeing c _
  have selfExpr : (Generator.minus s).selfExpr.Alike Eq (Generator.minus t).selfExpr := by
    refine (h.operand 0).bind fun _ _ ha => ?_
    exact (alike_print _).then fun _ => ha.selfExpr.then fun _ => alike_print _
  have value : (Generator.minus s).value.Alike Eq (Generator.minus t).value :=
    (h.operand 0).bind fun _ _ ha => ha.value.then fun _ => alike_print _
  exact .ofNative value selfExpr native ⟨rfl, rfl, rfl⟩ ⟨rfl, rfl, rfl⟩

theorem logicalNot (h : s.Alike t) : (Generator.logicalNot s).Alike (Generator.logicalNot t) := by
  have boolean : (Generator.logicalNot s).boolean.Alike Eq (Generator.logicalNot t).boolean := by
    refine (h.operand 0).bind fun _ _ ha => ?_
    exact (alike_print _).then fun _ => ha.boolean.then fun _ => alike_print _
  have selfExpr : (Generator.logicalNot s).selfExpr.Alike Eq (Generator.logicalNot t).selfExpr := by
    refine (h.operand 0).bind fun _ _ ha => ?_
    exact (alike_print _).then fun _ => ha.selfExpr.then fun _ => alike_print _
  exact {
    value := (alike_print _).then fun _ => boolean.then fun _ => alike_print _
    selfExpr
    boolean
    long := h.unsupported _
    double := h.unsupported _
    native := h.unfoldedNative }

theorem arithmetic (h : s.Alike t) : (Generator.arithmetic s).Alike (Generator.arithmetic t) := by
  obtain ⟨d, xs⟩ := s
  obtain ⟨e, ys⟩ := t
  cases h.node with
  | binary l m op _ _ =>
    cases op with
    | add | sub =>
      refine .ofNative ?value ?selfExpr ?native ⟨rfl, rfl, rfl⟩ ⟨rfl, rfl, rfl⟩
      case value =>
        refine (h.operand 0).bind fun _ _ hl => (h.operand 1).bind fun _ _ hr => ?_
        exact hl.value.then fun _ => (alike_print _).then fun _ => hr.value.then fun _ => alike_print _
      case selfExpr =>
        exact (h.operand 0).bind fun _ _ hl => (h.operand 1).bind fun _ _ hr => hl.rebuildBinary hr _
      case native =>
        refine alike_ofFn fun c => ?_
        refine (h.operand 0).bind fun _ _ hl => (h.operand 1).bind fun _ _ hr => ?_
        refine (alike_print _).then fun _ => (hl.native c).then fun o => (alike_print _).then fun _ => ?_
        refine (hr.native c).then fun p => (alike_print _).then fun _ => ?_
        cases o with
        | none => exact alike_pure rfl
        | some f =>
          cases p with
          | none => exact alike_pure rfl
          | some g => exact h.agreeing c _
    | eq | ne =>
      exact ⟨h.wrongShape, h.wrongShape, h.wrongShape, h.wrongShape, h.wrongShape,
        alike_ofFn fun _ => h.wrongShape⟩
  | _ =>
    exact ⟨h.wrongShape, h.wrongShape, h.wrongShape, h.wrongShape, h.wrongShape,
      alike_ofFn fun _ => h.wrongShape⟩

theorem standard (h : s.Alike t) (k : NodeKind) :
    (Generator.standard k s).Alike (Generator.standard k t) := by
  cases k with
  | literal => exact h.literal
  | var => exact h.var
  | assign => exact h.assign
  | equals | notEquals => exact h.equality
  | unaryMinus => exact h.minus
  | not => exact h.logicalNot
  | add | sub => exact h.arithmetic

end Site.Alike

end Generators

namespace Registry

/-- Every generator is a standard one, if perhaps that of another kind of node. -/
def FromStandard (r : Registry) : Prop :=
  ∀ k f, r.factory? k = some f → ∃ j, f = Generator.standard j

variable {r : Registry} {d e : Expr}

theorem FromStandard.generator (hr : r.FromStandard) (h : d.Alike e)
    {xs ys : List (Except Refusal Generator)} (hs : List.Forall₂ (SameOutcome Generator.Alike) xs ys) :
    SameOutcome Generator.Alike (r.generator d xs) (r.generator e ys) := by
  unfold Registry.generator
  rw [← h.kind_eq]
  cases hf : r.factory? d.kind with
  | none => exact .error rfl
  | some f =>
    obtain ⟨j, rfl⟩ := hr _ _ hf
    have hsite : Site.Alike ⟨d, xs⟩ ⟨e, ys⟩ := ⟨h, hs⟩
    exact .ok (hsite.standard j)

/-- Trees that differ in locations only resolve alike. -/
theorem FromStandard.resolve (hr : r.FromStandard) (h : d.Alike e) :
    SameOutcome Generator.Alike (r.resolve d) (r.resolve e) := by
  induction h with
  | literal l m v => exact hr.generator (.literal l m v) .nil
  | var l m x => exact hr.generator (.var l m x) .nil
  | assign l m x h ih => exact hr.generator (.assign l m x h) (.cons ih .nil)
  | binary l m op ha hb iha ihb =>
    exact hr.generator (.binary l m op ha hb) (.cons iha (.cons ihb .nil))
  | unary l m op h ih => exact hr.generator (.unary l m op h) (.cons ih .nil)

theorem FromStandard.generate (hr : r.FromStandard) (h : d.Alike e) (c : Context) :
    SameOutcome Eq (r.generate d c) (r.generate e c) :=
  (hr.resolve h).bind fun _ _ hg => (hg.emit c).toText

end Registry

section Evaluation

namespace Env

/-- The environments bind the same names to the same values and have the same trace. -/
structure Agrees (env env' : Env) : Prop where
  lookup : ∀ x, env.lookup x = env'.lookup x
  trace : env.trace = env'.trace

private theorem lookup_cons (x n : String) (v : Value) (bs : List (String × Value)) :
    ((n, v) :: bs).lookup x = if x = n then some v else bs.lookup x := by
  by_cases h : x = n
  · simp [h]
  · simp [List.lookup_cons, beq_false_of_ne h, h]

theorem lookup_insertBinding (x y : String) (v : Value) (bs : List (String × Value)) :
    (insertBinding x v bs).lookup y = if y = x then some v else bs.lookup y := by
  induction bs with
  | nil => exact lookup_cons y x v []
  | cons b bs ih =>
    obtain ⟨n, w⟩ := b
    by_cases hn : n = x
    · rw [insertBinding, if_pos hn, lookup_cons, lookup_cons, hn]
      split <;> rfl
    · rw [insertBinding, if_neg hn, lookup_cons, lookup_cons, ih]
      split
      · rename_i hy
        rw [if_neg (hy ▸ hn)]
      · rfl

variable {env env' : Env}

theorem Agrees.get (h : env.Agrees env') (x : String) :
    (env.get x).1 = (env'.get x).1 ∧ (env.get x).2.Agrees (env'.get x).2 := by
  refine ⟨by rw [Env.get, Env.get, h.lookup x], h.lookup, ?_⟩
  simp only [Env.get, h.trace]

theorem Agrees.set (h : env.Agrees env') (x : String) (v : Value) :
    (env.set x v).Agrees (env'.set x v) := by
  constructor
  · intro y
    have hy : env.bindings.lookup y = env'.bindings.lookup y := h.lookup y
    simp only [Env.lookup, Env.set, lookup_insertBinding, hy]
  · simp only [Env.set, h.trace]

end Env

/-- Trees that differ in locations only have the same value, and do the same to the variables. -/
theorem Expr.Alike.eval {d e : Expr} (h : d.Alike e) {env env' : Env} (ha : env.Agrees env') :
    (d.eval env).1 = (e.eval env').1 ∧ (d.eval env).2.Agrees (e.eval env').2 := by
  induction h generalizing env env' with
  | literal l m v => exact ⟨rfl, ha⟩
  | var l m x => exact ha.get x
  | assign l m x _ ih =>
    obtain ⟨hv, ha⟩ := ih ha
    simp only [Expr.eval, hv]
    exact ⟨trivial, ha.set x _⟩
  | binary l m op _ _ ihl ihr =>
    obtain ⟨hl, ha⟩ := ihl ha
    obtain ⟨hr, ha⟩ := ihr ha
    simp only [Expr.eval, hl, hr]
    exact ⟨trivial, ha⟩
  | unary l m op _ ih =>
    obtain ⟨hv, ha⟩ := ih ha
    simp only [Expr.eval, hv]
    exact ⟨trivial, ha⟩

end Evaluation

/-- Nodes of two arenas that stand for the same tree, locations apart, have the same text in every
context under every mix of the standard generators, or are refused for the same reason at nodes of the
same kind. From environments that agree they evaluate to the same value and leave environments that
agree. -/
theorem same_trees_generate_and_evaluate_alike {a b : Arena} {x y : NodeId}
    (h : a.sameTree x b y = .ok true) :
    ∃ d e, a.tree x = .ok d ∧ b.tree y = .ok e ∧
      (∀ r : Registry, r.FromStandard → ∀ c, SameOutcome Eq (r.generate d c) (r.generate e c)) ∧
      ∀ env env' : Env, env.Agrees env' →
        (d.eval env).1 = (e.eval env').1 ∧ (d.eval env).2.Agrees (e.eval env').2 := by
  obtain ⟨d, e, hd, he, hsame⟩ := Arena.trees_of_sameTree h
  have ht : d.Alike e := Expr.alike_of_sameTree hsame
  exact ⟨d, e, Arena.tree_eq_ok_iff.mpr hd, Arena.tree_eq_ok_iff.mpr he, fun r hr c => hr.generate ht c,
    fun env env' => ht.eval⟩

/-- A variable compared with itself, stored once. -/
private def sharedOperand : Arena :=
  let a := (Arena.push {} (.var "x") ⟨1, 1⟩).2
  (a.push (.binary .eq 0 0) ⟨1, 2⟩).2

/-- The same comparison with a node for each side, stored behind another variable. -/
private def copiedOperands : Arena :=
  let a := (Arena.push {} (.var "y") ⟨2, 1⟩).2
  let a := (a.push (.var "x") ⟨2, 2⟩).2
  let a := (a.push (.var "x") ⟨2, 3⟩).2
  (a.push (.binary .eq 1 2) ⟨2, 4⟩).2

/-- Comparisons are given to the generator of sums. -/
private def comparisonsAsSums : Registry := Registry.standard.register .equals (Generator.standard .add)

/-- Neither sharing nor the order of names shows, not even where the comparison is refused. -/
theorem shared_and_copied_operands_alike :
    sharedOperand.sameTree 1 copiedOperands 3 = .ok true ∧ comparisonsAsSums.FromStandard ∧
      ∃ d e, sharedOperand.tree 1 = .ok d ∧ copiedOperands.tree 3 = .ok e ∧
        SameOutcome Eq (comparisonsAsSums.generate d .boolean) (comparisonsAsSums.generate e .boolean) ∧
        (d.eval {}).1 = (e.eval {}).1 := by
  have hs : sharedOperand.sameTree 1 copiedOperands 3 = .ok true := by decide +kernel
  have hr : comparisonsAsSums.FromStandard := by
    intro k f hf
    simp only [comparisonsAsSums, Registry.register, Registry.standard] at hf
    split at hf
    · exact ⟨.add, (Option.some.inj hf).symm⟩
    · exact ⟨k, (Option.some.inj hf).symm⟩
  obtain ⟨d, e, hd, he, hg, hv⟩ := same_trees_generate_and_evaluate_alike hs
  exact ⟨hs, hr, d, e, hd, he, hg _ hr .boolean, (hv {} {} ⟨fun _ => rfl, rfl⟩).1⟩

end ContextCodegen
