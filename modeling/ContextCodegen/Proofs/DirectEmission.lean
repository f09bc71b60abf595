import ContextCodegen.Proofs.Layout
import ContextCodegen.Registry

/-! Generators that act on an emitter. Every standard generator does print by print what running its
emission does, whatever generators its operands resolve to, and so does every registry put together from
standard generators. -/
namespace ContextCodegen

open MonadEmission (print ofExcept refuse refusal?)

section Running

variable {α β : Type}

theorem Output.run_append (a b : Output) : (a ++ b).run = (do a.run; b.run) := by
  change (append a b).run = _
  unfold append
  split
  · exact (pure_bind _ _).symm
  · exact (bind_pure_unit).symm
  · rfl

namespace Emission

@[simp] theorem run_pure (a : α) : (pure a : Emission α).run = pure a := pure_bind _ _

@[simp] theorem run_print (s : String) : (MonadEmission.print s : Emission Unit).run = MonadEmission.print s :=
  bind_pure_unit

@[simp] theorem run_ofExcept (x : Except Refusal α) :
    (MonadEmission.ofExcept x : Emission α).run = MonadEmission.ofExcept x := pure_bind _ _

@[simp] theorem run_refuse (r : Refusal) : (MonadEmission.refuse r : Emission α).run = MonadEmission.refuse r :=
  run_ofExcept _

/-- What follows an emission is run after it, and only if it succeeds. -/
@[simp] theorem run_bind (m : Emission α) (f : α → Emission β) : (m >>= f).run = m.run >>= fun a => (f a).run := by
  obtain ⟨output, result⟩ := m
  cases result with
  | error cause =>
    change (do output.run; MonadEmission.refuse cause) = _
    simp only [run, bind_assoc]
    rfl
  | ok a =>
    change (do (output ++ (f a).output).run; MonadEmission.ofExcept (f a).result) = _
    rw [Output.run_append]
    simp only [run, bind_assoc]
    rfl

/-- Where all its text is taken, an emission ends as it would by itself. -/
theorem refusal?_run (m : Emission α) : refusal? m.run = refusal? m := by
  have hout : LaysOut EmitError.emitter 0 m.output.run m.output.text := laysOut_output m.output
  obtain ⟨output, result⟩ := m
  have hrun : Emission.run ⟨output, result⟩ {} = _ := bind_ok ((hout true).unlimited rfl)
  change EmitError.refusal? (Emission.run ⟨output, result⟩ {}).1 = _
  rw [hrun]
  cases result with
  | ok a => rfl
  | error cause => rfl

end Emission

end Running

section Generators

/-- The generator that acts on an emitter as the emissions of another one do. -/
@[simps] def Generator.run (g : Generator) : Generator (Printing EmitError) where
  subject := g.subject
  value := g.value.run
  selfExpr := g.selfExpr.run
  boolean := g.boolean.run
  long := g.long.run
  double := g.double.run
  native := PerContext.ofFn fun c => (g.native.get c).run
  declared := g.declared

def Site.run (s : Site) : Site (Printing EmitError) := ⟨s.node, s.operands.map (Except.map Generator.run)⟩

@[simp] theorem PerContext.get_ofFn {α : Type} (f : Context → α) (c : Context) : (ofFn f).get c = f c := by
  cases c <;> rfl

theorem PerContext.ext_get {α : Type} {p q : PerContext α} (h : ∀ c, p.get c = q.get c) : p = q := by
  obtain ⟨value, boolean, long, double, selfExpr⟩ := p
  cases q
  cases h .value
  cases h .boolean
  cases h .long
  cases h .double
  cases h .selfExpr
  rfl

@[simp] theorem Generator.emit_run (g : Generator) (c : Context) : g.run.emit c = (g.emit c).run := by
  cases c <;> rfl

@[simp] theorem Generator.native_run (g : Generator) (c : Context) :
    g.run.native.get c = (g.native.get c).run := PerContext.get_ofFn _ c

namespace Site

variable (s : Site)

@[simp] theorem node_run : s.run.node = s.node := rfl

@[simp] theorem subject_run : s.run.subject = s.subject := rfl

@[simp] theorem wrongShape_run {α : Type} : (s.wrongShape : Emission α).run = s.run.wrongShape :=
  Emission.run_refuse _

@[simp] theorem operand_run (i : Nat) : s.run.operand i = Generator.run <$> (s.operand i).run := by
  unfold operand
  rw [run, List.getElem?_map]
  cases s.operands[i]? with
  | none =>
    change refuse _ = Generator.run <$> (refuse _ : Emission Generator).run
    rw [Emission.run_refuse]
    rfl
  | some x =>
    change MonadEmission.ofExcept (x.map Generator.run) =
      Generator.run <$> (MonadEmission.ofExcept x : Emission Generator).run
    rw [Emission.run_ofExcept]
    cases x with
    | ok g => rfl
    | error cause => rfl

@[simp] theorem agreeing_run (c : Context) (o : Option Folded) :
    (s.agreeing c o).run = s.run.agreeing c o := by
  cases o with
  | none => exact Emission.run_refuse _
  | some f =>
    simp only [agreeing]
    by_cases hf : f.agrees = true
    · rw [if_pos hf, if_pos hf, Emission.run_pure]
    · rw [if_neg hf, if_neg hf, Emission.run_refuse]
      rfl

end Site

namespace Generator

variable (s : Site)

@[simp] theorem discard_run {α : Type} (m : Emission α) : (discard m).run = discard m.run := by
  simp only [discard, Emission.run_bind, Emission.run_pure]

theorem unfoldedNative_run (subject : Subject) :
    unfoldedNative subject (refuse (.unsupported subject .long)) (refuse (.unsupported subject .double)) =
      PerContext.ofFn fun c => ((unfoldedNative subject (refuse (.unsupported subject .long))
        (refuse (.unsupported subject .double)) : PerContext (Emission (Option Folded))).get c).run := by
  apply congrArg PerContext.ofFn
  funext c
  cases c <;> simp [unfoldedNative]

@[simp] theorem nativeLiteral_run (subject : Subject) (v : Literal String) (c : Context) :
    (nativeLiteral subject v c : Emission (Option Folded)).run = nativeLiteral subject v c := by
  unfold nativeLiteral
  split
  · simp only [Emission.run_bind, Emission.run_print, Emission.run_pure]
  · simp only [Emission.run_bind, Emission.run_print, Emission.run_pure]
  · simp only [Emission.run_bind, Emission.run_print, Emission.run_pure]
  · exact Emission.run_refuse _

@[simp] theorem rebuildBinary_run (className : String) (left right : Generator) :
    (rebuildBinary className left right).run = rebuildBinary className left.run right.run := by
  simp only [rebuildBinary, Emission.run_bind, Emission.run_print, emit_run]

theorem nativeContexts_run {native' : PerContext (Printing EmitError (Option Folded))}
    {native : PerContext (Emission (Option Folded))} (h : ∀ c, native'.get c = (native.get c).run) :
    nativeContexts native' = nativeContexts native := by
  have hsupported (c : Context) : supported (native'.get c) = supported (native.get c) := by
    rw [supported, h, Emission.refusal?_run, supported]
  have hlong : supported native'.long = supported native.long := hsupported .long
  have hdouble : supported native'.double = supported native.double := hsupported .double
  rw [nativeContexts, hlong, hdouble, nativeContexts]

/-- The forms as numbers are the native ones without their constants. -/
def FromNative {m : Type → Type} [Monad m] [MonadEmission m] (g : Generator m) : Prop :=
  g.long = discard g.native.long ∧ g.double = discard g.native.double

theorem FromNative.eq_run {g : Generator (Printing EmitError)} {h : Generator} (hg : g.FromNative)
    (hh : h.FromNative) (subject : g.subject = h.subject) (value : g.value = h.value.run)
    (selfExpr : g.selfExpr = h.selfExpr.run) (boolean : g.boolean = h.boolean.run)
    (native : ∀ c, g.native.get c = (h.native.get c).run) (declared : g.declared = h.declared) :
    g = h.run := by
  apply Generator.ext subject value selfExpr boolean
  · rw [hg.1, run_long, hh.1, discard_run]
    exact congrArg discard (native .long)
  · rw [hg.2, run_double, hh.2, discard_run]
    exact congrArg discard (native .double)
  · apply PerContext.ext_get
    intro c
    rw [native, native_run]
  · exact declared

/-- There are no native forms, and the boxed contexts are declared. -/
structure WithoutNative {m : Type → Type} [Monad m] [MonadEmission m] (g : Generator m) : Prop where
  long : g.long = refuse (.unsupported g.subject .long)
  double : g.double = refuse (.unsupported g.subject .double)
  native : g.native = unfoldedNative g.subject (refuse (.unsupported g.subject .long))
    (refuse (.unsupported g.subject .double))
  declared : g.declared = fun _ => .ok Contexts.boxed

theorem WithoutNative.eq_run {g : Generator (Printing EmitError)} {h : Generator} (hg : g.WithoutNative)
    (hh : h.WithoutNative) (subject : g.subject = h.subject) (value : g.value = h.value.run)
    (selfExpr : g.selfExpr = h.selfExpr.run) (boolean : g.boolean = h.boolean.run) : g = h.run := by
  apply Generator.ext subject value selfExpr boolean
  · rw [hg.long, run_long, hh.long, Emission.run_refuse, subject]
  · rw [hg.double, run_double, hh.double, Emission.run_refuse, subject]
  · rw [hg.native, run_native, hh.native, subject]
    exact unfoldedNative_run h.subject
  · exact hg.declared.trans hh.declared.symm

section Derived

variable {x : Printing EmitError Unit} {y : Emission Unit}

theorem toBoolean_run (h : x = y.run) :
    (do x; print ".toBoolean()") = Emission.run (do y; print ".toBoolean()") := by
  rw [h, Emission.run_bind, Emission.run_print]

theorem toValue_run (h : x = y.run) :
    (do print "env.toValue("; x; print ")") = Emission.run (do print "env.toValue("; y; print ")") := by
  simp only [h, Emission.run_bind, Emission.run_print]

end Derived

theorem literal_run : literal s.run = (literal s).run := by
  apply FromNative.eq_run ⟨rfl, rfl⟩ ⟨rfl, rfl⟩
  case native => simp [literal]
  case declared => rfl
  all_goals simp [literal]

theorem var_run : var s.run = (var s).run := by
  obtain ⟨node, operands⟩ := s
  have value : (var (Site.run ⟨node, operands⟩)).value = (var ⟨node, operands⟩).value.run := by
    cases node <;> simp [var]
  apply WithoutNative.eq_run ⟨rfl, rfl, rfl, rfl⟩ ⟨rfl, rfl, rfl, rfl⟩ rfl value
  case selfExpr => cases node <;> simp [var]
  case boolean => exact toBoolean_run value

theorem assign_run : assign s.run = (assign s).run := by
  obtain ⟨node, operands⟩ := s
  have value : (assign (Site.run ⟨node, operands⟩)).value = (assign ⟨node, operands⟩).value.run := by
    cases node <;> simp [assign]
  apply WithoutNative.eq_run ⟨rfl, rfl, rfl, rfl⟩ ⟨rfl, rfl, rfl, rfl⟩ rfl value
  case selfExpr => cases node <;> simp [assign]
  case boolean => exact toBoolean_run value

theorem logicalNot_run : logicalNot s.run = (logicalNot s).run := by
  have boolean : (logicalNot s.run).boolean = (logicalNot s).boolean.run := by simp [logicalNot]
  apply WithoutNative.eq_run ⟨rfl, rfl, rfl, rfl⟩ ⟨rfl, rfl, rfl, rfl⟩ rfl (toValue_run boolean)
  case selfExpr => simp [logicalNot]
  case boolean => exact boolean

theorem equality_run : equality s.run = (equality s).run := by
  obtain ⟨node, operands⟩ := s
  have forms : (equality (Site.run ⟨node, operands⟩)).boolean = (equality ⟨node, operands⟩).boolean.run ∧
      (equality (Site.run ⟨node, operands⟩)).selfExpr = (equality ⟨node, operands⟩).selfExpr.run := by
    rcases node with _ | _ | _ | ⟨loc, op, l, r⟩ | _
    case binary => cases op <;> simp [equality]
    all_goals simp [equality]
  exact WithoutNative.eq_run ⟨rfl, rfl, rfl, rfl⟩ ⟨rfl, rfl, rfl, rfl⟩ rfl (toValue_run forms.1) forms.2 forms.1

theorem minus_run : minus s.run = (minus s).run := by
  have value : (minus s.run).value = (minus s).value.run := by simp [minus]
  have native (c : Context) : (minus s.run).native.get c = ((minus s).native.get c).run := by
    by_cases hk : s.node.kind = .unaryMinus
    · simp only [minus, PerContext.get_ofFn, Site.node_run, hk, ne_eq, not_true_eq_false, if_false,
        Site.operand_run, bind_map_left, native_run, Emission.run_bind, Emission.run_print]
      refine bind_congr fun operand => bind_congr fun _ => bind_congr fun folded => bind_congr fun _ => ?_
      cases folded <;> simp
    · simp [minus, hk]
  apply FromNative.eq_run ⟨rfl, rfl⟩ ⟨rfl, rfl⟩ rfl value
  case selfExpr => simp [minus]
  case boolean => exact toBoolean_run value
  case native => exact native
  case declared =>
    funext _
    exact nativeContexts_run native

theorem arithmetic_run : arithmetic s.run = (arithmetic s).run := by
  obtain ⟨node, operands⟩ := s
  have forms : (arithmetic (Site.run ⟨node, operands⟩)).value = (arithmetic ⟨node, operands⟩).value.run ∧
      (arithmetic (Site.run ⟨node, operands⟩)).selfExpr = (arithmetic ⟨node, operands⟩).selfExpr.run := by
    rcases node with _ | _ | _ | ⟨loc, op, l, r⟩ | _
    case binary => cases op <;> simp [arithmetic]
    all_goals simp [arithmetic]
  have native (c : Context) : (arithmetic (Site.run ⟨node, operands⟩)).native.get c =
      ((arithmetic ⟨node, operands⟩).native.get c).run := by
    simp only [arithmetic, PerContext.get_ofFn, Site.operand_run, bind_map_left, native_run,
      Emission.run_bind, Emission.run_print]
    refine congrArg₂ (fun (x : Printing EmitError BinaryOp) f => x >>= f) ?_ (funext fun op => ?_)
    · rcases node with _ | _ | _ | ⟨loc, op, l, r⟩ | _
      case binary => cases op <;> simp
      all_goals simp
    · refine bind_congr fun left => bind_congr fun right => bind_congr fun _ => bind_congr fun l =>
        bind_congr fun _ => bind_congr fun r => bind_congr fun _ => ?_
      cases l <;> cases r <;> simp
  apply FromNative.eq_run ⟨rfl, rfl⟩ ⟨rfl, rfl⟩ rfl forms.1 forms.2 (toBoolean_run forms.1) native
  funext _
  exact nativeContexts_run native

/-- A standard generator over operands that act on an emitter acts on it as well. -/
theorem standard_run (k : NodeKind) : standard k s.run = (standard k s).run := by
  cases k with
  | literal => exact literal_run s
  | var => exact var_run s
  | assign => exact assign_run s
  | equals | notEquals => exact equality_run s
  | unaryMinus => exact minus_run s
  | not => exact logicalNot_run s
  | add | sub => exact arithmetic_run s

end Generator

namespace Registry

variable (of : NodeKind → Option NodeKind)

theorem generator_run (node : Expr) (operands : List (Except Refusal Generator)) :
    (assembled of : Registry (Printing EmitError)).generator node (operands.map (Except.map Generator.run)) =
      ((assembled of).generator node operands).map Generator.run := by
  cases hk : of node.kind with
  | none =>
    simp only [generator, assembled, hk, Option.map_none]
    rfl
  | some k =>
    simp only [generator, assembled, hk, Option.map_some]
    exact congrArg Except.ok (Generator.standard_run ⟨node, operands⟩ k)

theorem resolve_run (e : Expr) :
    (assembled of : Registry (Printing EmitError)).resolve e = ((assembled of).resolve e).map Generator.run := by
  induction e with
  | literal loc v => exact generator_run of _ []
  | var loc x => exact generator_run of _ []
  | assign loc x e ih =>
    rw [resolve, ih]
    exact generator_run of _ [_]
  | binary loc op l r ihl ihr =>
    rw [resolve, ihl, ihr]
    exact generator_run of _ [_, _]
  | unary loc op e ih =>
    rw [resolve, ih]
    exact generator_run of _ [_]

/-- To emit an expression directly is to run its emission. -/
theorem emit_run (e : Expr) (c : Context) :
    (assembled of : Registry (Printing EmitError)).emit e c = ((assembled of).emit e c : Emission Unit).run := by
  rw [emit, emit, Emission.run_bind, resolve_run, Emission.run_ofExcept]
  cases (assembled of : Registry).resolve e with
  | error cause => rfl
  | ok g => exact g.emit_run c

end Registry

end Generators

end ContextCodegen
