import ContextCodegen.Proofs.Layout
import ContextCodegen.Proofs.Storage
import ContextCodegen.Unit.Write

/-! What a unit writes. Each function that has a form is rendered as one method, and the class around
the methods reaches the sink as one text: nothing of it is written unless every function has a form,
and a sink that is too small keeps its first bytes. -/
namespace ContextCodegen

open Emitter (print println newline flush)

namespace Registry

variable {r : Registry} {e : Expr}

theorem generate_of_resolve {g : Generator} (h : r.resolve e = .ok g) (c : Context) :
    r.generate e c = g.text c := by
  rw [generate, h]
  rfl

theorem generate_of_unresolved {cause : Refusal} (h : r.resolve e = .error cause) (c : Context) :
    r.generate e c = .error cause := by
  rw [generate, h]
  rfl

end Registry

namespace CompileUnit

/-- A function of a unit with the tree at its root and the form that the registry gives it. -/
structure Method (u : CompileUnit) (r : Registry) where
  function : Function
  tree : Expr
  generator : Generator
  form : String
  tree_eq : u.arena.tree function.root = .ok tree
  resolve_eq : r.resolve tree = .ok generator
  form_eq : generator.text function.context = .ok form

def Generates (u : CompileUnit) (r : Registry) (f : Function) (x : Except Refusal String) : Prop :=
  ∃ e, u.arena.tree f.root = .ok e ∧ r.generate e f.context = x

variable {u : CompileUnit} {r : Registry} {o : UnitOptions} {f : Function} {e : Expr} {depth : Nat}

theorem Method.generates (m : u.Method r) : u.Generates r m.function (.ok m.form) :=
  ⟨m.tree, m.tree_eq, (Registry.generate_of_resolve m.resolve_eq _).trans m.form_eq⟩

theorem Generates.unique {x y : Except Refusal String} (hx : u.Generates r f x) (hy : u.Generates r f y) :
    x = y := by
  obtain ⟨d, hd, rfl⟩ := hx
  obtain ⟨e, he, rfl⟩ := hy
  cases hd.symm.trans he
  rfl

section Methods

def headingLines (o : UnitOptions) (f : Function) (loc : Location) : List String :=
  (if o.locationComments && !loc.isGenerated then ["// " ++ loc.display] else []) ++
    ["public static " ++ f.context.targetType ++ " " ++ f.name ++ "(Env env) \x7b"]

def Method.text (m : u.Method r) (o : UnitOptions) (depth : Nat) : String :=
  (Layout.ofText depth true (unlines (headingLines o m.function m.generator.subject.loc))).text ++
    ((Layout.ofText (depth + 1) true (unlines ["return " ++ m.form ++ ";"])).text ++
      (Layout.ofText depth true (unlines ["\x7d"])).text)

private def printHeading (o : UnitOptions) (f : Function) (loc : Location) : Printing EmitError Unit := do
  if o.locationComments && !loc.isGenerated then
    (println ("// " ++ loc.display)).adapt .emitter
  (println ("public static " ++ f.context.targetType ++ " " ++ f.name ++ "(Env env) \x7b")).adapt .emitter

private def printBody (m : Emission Unit) : Printing EmitError Unit := do
  (print "return ").adapt .emitter
  m.run
  (println ";").adapt .emitter

private theorem emitFunction_eq {g : Generator} (h : r.resolve e = .ok g) : emitFunction r o f e = (do
    printHeading o f g.subject.loc
    inScope (printBody (g.emit f.context))
    (println "\x7d").adapt .emitter) := by
  unfold emitFunction printHeading inScope
  rw [h]
  dsimp only
  split <;> simp only [bind_assoc] <;> rfl

private theorem laysOut_heading (o : UnitOptions) (f : Function) (loc : Location) :
    LaysOut EmitError.emitter depth (printHeading o f loc) (unlines (headingLines o f loc)) := by
  unfold printHeading headingLines
  split
  · exact ((laysOut_println _).adapt _).then_lines ((laysOut_println _).adapt _)
  · exact (laysOut_println _).adapt _

private theorem laysOut_body {m : Emission Unit} (h : m.result = .ok ()) :
    LaysOut EmitError.emitter depth (printBody m) (unlines ["return " ++ m.output.text ++ ";"]) := by
  have closing : LaysOut EmitError.emitter depth _ _ := (laysOut_println ";").adapt _
  rw [unlines_singleton] at closing ⊢
  rw [String.append_assoc, String.append_assoc]
  exact ((laysOut_print _).adapt _).then ((laysOut_run h).then closing)

/-- A function whose root has a form is put as its method. -/
theorem Method.puts (m : u.Method r) :
    Puts EmitError.emitter depth true (emitFunction r o m.function m.tree) (m.text o depth) true := by
  obtain ⟨hm, hs⟩ := Emission.toText_eq_ok m.form_eq
  have heading : Puts EmitError.emitter depth true _ _ true :=
    (laysOut_heading o m.function m.generator.subject.loc).puts_lines
  have body : Puts EmitError.emitter (depth + 1) true _ _ true := (laysOut_body hm).puts_lines
  have closing : Puts EmitError.emitter depth true _ _ true :=
    ((laysOut_println "\x7d").adapt EmitError.emitter).puts_lines
  rw [emitFunction_eq m.resolve_eq, Method.text, ← hs]
  exact heading.then (body.inScope.then closing)

theorem refuses_emitFunction {cause : Refusal} (h : r.generate e f.context = .error cause) :
    Refuses depth true (emitFunction r o f e) cause := by
  cases hg : r.resolve e with
  | error _ =>
    cases (Registry.generate_of_unresolved hg f.context).symm.trans h
    rw [emitFunction, hg]
    exact refuses_throw
  | ok g =>
    have hm : (g.emit f.context).result = .error cause :=
      Emission.toText_eq_error ((Registry.generate_of_resolve hg f.context).symm.trans h)
    have heading : Puts EmitError.emitter depth true _ _ true :=
      (laysOut_heading o f g.subject.loc).puts_lines
    have body : Refuses (depth + 1) true (printBody (g.emit f.context)) cause :=
      .after ((laysOut_print "return ").adapt EmitError.emitter true) ((refuses_run hm).then _)
    rw [emitFunction_eq hg]
    exact .after heading (body.inScope.then _)

end Methods

section Rendering

theorem validateFunctions_ok {size : Nat} {seen : List String} {fs : List Function}
    (h : validateFunctions size seen fs = .ok ()) : ∀ f ∈ fs, isIdentifier f.name ∧ f.root < size := by
  induction fs generalizing seen with
  | nil => simp
  | cons f fs ih =>
    unfold validateFunctions at h
    split_ifs at h with hname _ hroot
    rw [Bool.not_eq_true', Bool.not_eq_false] at hname
    exact List.forall_mem_cons.mpr ⟨⟨hname, Nat.not_le.mp hroot⟩, ih h⟩

theorem validate_ok (h : u.validate r o = .ok ()) :
    isIdentifier o.className ∧ (∀ p ∈ o.package, isPackageName p) ∧
      ∀ f ∈ u.functions, isIdentifier f.name ∧ f.root < u.arena.size := by
  unfold validate at h
  split_ifs at h with _ hclass
  rw [Bool.not_eq_true', Bool.not_eq_false] at hclass
  split at h
  · rename_i p hp
    split_ifs at h with hpackage
    rw [Bool.not_eq_true', Bool.not_eq_false] at hpackage
    refine ⟨hclass, fun q hq => ?_, validateFunctions_ok h⟩
    cases hp.symm.trans hq
    exact hpackage
  · rename_i hp
    refine ⟨hclass, fun q hq => ?_, validateFunctions_ok h⟩
    cases hp.symm.trans hq

private theorem text_written (s : String) : (String.fromUTF8? (.empty ++ s.toUTF8)).getD "" = s := by
  rw [ByteArray.empty_append, String.fromUTF8?, String.toUTF8_eq_toByteArray, dif_pos s.isValidUTF8]
  rfl

theorem Method.renderFunction_eq (m : u.Method r) (o : UnitOptions) :
    u.renderFunction r o m.function = .ok (m.text o 1) := by
  have hx := (m.puts : Puts EmitError.emitter 1 true (emitFunction r o m.function m.tree) _ _).unlimited
    (rfl : ({} : Sink).limit = none)
  simp only [renderFunction, m.tree_eq, hx, text_written]

theorem renderFunction_eq_error {cause : Refusal} (h : u.Generates r f (.error cause)) :
    u.renderFunction r o f = .error (.emit f.name (.refused cause)) := by
  obtain ⟨e, ht, hgen⟩ := h
  obtain ⟨after, place, hx⟩ := (refuses_emitFunction hgen : Refuses 1 true (emitFunction r o f e) _) {} rfl
  simp only [renderFunction, ht, hx]

theorem method_or_refusal (r : Registry) (ht : u.arena.tree f.root = .ok e) :
    (∃ m : u.Method r, m.function = f) ∨ ∃ cause, u.Generates r f (.error cause) := by
  cases hg : r.resolve e with
  | error cause => exact .inr ⟨cause, e, ht, Registry.generate_of_unresolved hg _⟩
  | ok g =>
    cases hs : g.text f.context with
    | error cause => exact .inr ⟨cause, e, ht, (Registry.generate_of_resolve hg _).trans hs⟩
    | ok s => exact .inl ⟨⟨f, e, g, s, ht, hg, hs⟩, rfl⟩

theorem render_methods {ms : List (u.Method r)} {fs : List Function} (h : ms.map (·.function) = fs)
    (o : UnitOptions) : fs.mapM (u.renderFunction r o) = .ok (ms.map (·.text o 1)) := by
  subst h
  induction ms with
  | nil => rfl
  | cons m ms ih =>
    rw [List.map_cons, List.mapM_cons, m.renderFunction_eq, ih]
    rfl

/-- Either every function has a method, or the first one that fails to render gives the error. -/
theorem methods_or_failure (u : CompileUnit) (r : Registry) (o : UnitOptions) (fs : List Function) :
    (∃ ms : List (u.Method r), ms.map (·.function) = fs) ∨
    ∃ (before : List (u.Method r)) (f : Function) (after : List Function) (err : CompileError),
      fs = before.map (·.function) ++ f :: after ∧ u.renderFunction r o f = .error err ∧
      fs.mapM (u.renderFunction r o) = .error err := by
  induction fs with
  | nil => exact .inl ⟨[], rfl⟩
  | cons f fs ih =>
    cases hf : u.renderFunction r o f with
    | error err => exact .inr ⟨[], f, fs, err, rfl, hf, by rw [List.mapM_cons, hf]; rfl⟩
    | ok body =>
      obtain ⟨m, rfl⟩ : ∃ m : u.Method r, m.function = f := by
        cases ht : u.arena.tree f.root with
        | error _ =>
          rw [renderFunction, ht] at hf
          cases hf
        | ok e =>
          refine (method_or_refusal r ht).resolve_right fun ⟨cause, hr⟩ => ?_
          cases hf.symm.trans (renderFunction_eq_error hr)
      rcases ih with ⟨ms, rfl⟩ | ⟨before, f', after, err, rfl, hf', herr⟩
      · exact .inl ⟨m :: ms, rfl⟩
      · exact .inr ⟨m :: before, f', after, err, rfl, hf', by rw [List.mapM_cons, hf, herr]; rfl⟩

/-- In a unit that passes its checks, only a refusal keeps a function from being rendered. -/
theorem methods_or_first_refusal (hu : u.arena.Built) (hv : u.validate r o = .ok ()) :
    (∃ ms : List (u.Method r), ms.map (·.function) = u.functions) ∨
    ∃ (before : List (u.Method r)) (f : Function) (after : List Function) (cause : Refusal),
      u.functions = before.map (·.function) ++ f :: after ∧ u.Generates r f (.error cause) ∧
      u.functions.mapM (u.renderFunction r o) = .error (.emit f.name (.refused cause)) := by
  refine (u.methods_or_failure r o u.functions).imp_right ?_
  rintro ⟨before, f, after, err, hfs, hf, hm⟩
  have hroot : f.root < u.arena.size := ((validate_ok hv).2.2 f (hfs ▸ List.mem_append_cons_self)).2
  obtain ⟨e, ht⟩ := hu.tree hroot
  rcases method_or_refusal r ht with ⟨m, rfl⟩ | ⟨cause, hrefused⟩
  · cases hf.symm.trans (m.renderFunction_eq o)
  · cases hf.symm.trans (renderFunction_eq_error hrefused)
    exact ⟨before, f, after, cause, hfs, hrefused, hm⟩

end Rendering

section Classes

def packageLines (o : UnitOptions) : List String :=
  match o.package with
  | some p => ["package " ++ p ++ ";", ""]
  | none => []

def classText (o : UnitOptions) (methods : List String) : String :=
  unlines (packageLines o) ++ (unlines ["public final class " ++ o.className ++ " \x7b"] ++
    ("\n".intercalate methods ++ unlines ["\x7d"]))

def printPackage (o : UnitOptions) : Printing EmitterError Unit :=
  match o.package with
  | some p => do
    println ("package " ++ p ++ ";")
    newline
  | none => pure ()

private def printClassLines (o : UnitOptions) (methods : List String) : Printing EmitterError Unit := do
  printPackage o
  println ("public final class " ++ o.className ++ " \x7b")
  printBodies methods
  println "\x7d"

private theorem printClass_eq (methods : List String) :
    printClass o methods = (do printClassLines o methods; flush) := by
  unfold printClass printClassLines printPackage
  cases o.package <;> simp only [bind_assoc, pure_bind]

theorem laysOut_package {depth : Nat} (o : UnitOptions) :
    LaysOut id depth (printPackage o) (unlines (packageLines o)) := by
  unfold printPackage packageLines
  split
  · exact (laysOut_println _).then_lines laysOut_newline
  · exact laysOut_nothing

private theorem laysOut_bodies {depth : Nat} (methods : List String) :
    LaysOut id depth (printBodies methods) ("\n".intercalate methods) := by
  induction methods with
  | nil =>
    rw [String.intercalate_nil]
    exact laysOut_nothing
  | cons s rest ih =>
    match rest with
    | [] =>
      rw [String.intercalate_singleton]
      exact laysOut_print s
    | t :: rest =>
      rw [String.intercalate_cons_cons, String.append_assoc]
      exact (laysOut_print s).then (laysOut_newline.then ih)

private theorem laysOut_classLines {depth : Nat} (o : UnitOptions) (methods : List String) :
    LaysOut id depth (printClassLines o methods) (classText o methods) :=
  (laysOut_package o).then
    ((laysOut_println _).then ((laysOut_bodies methods).then (laysOut_println "\x7d")))

variable {methods : List String}

/-- Nothing is written before everything is rendered. -/
theorem write_error {err : CompileError}
    (h : (do u.validate r o; u.functions.mapM (u.renderFunction r o)) = .error err) (sink : Sink) :
    u.write r o sink = (.error err, sink) := by
  rw [write, h]

/-- The class reaches the sink in one piece, and is then flushed. -/
theorem write_eq (hv : u.validate r o = .ok ())
    (hm : u.functions.mapM (u.renderFunction r o) = .ok methods) (sink : Sink) :
    u.write r o sink =
      match sink.write (classText o methods).toUTF8 with
      | (.ok (), after) =>
        (if after.flushFails then .error (.emitter (.sink .flushRefused)) else .ok (), after)
      | (.error cause, after) => (.error (.emitter (.sink cause)), after) := by
  have hputs : Puts id 0 true _ _ _ := laysOut_classLines o methods true
  rw [Layout.text_ofText_zero] at hputs
  have hdo : (do u.validate r o; u.functions.mapM (u.renderFunction r o)) = .ok methods := by
    rw [hv]
    exact hm
  rw [write, hdo]
  simp only [printClass_eq]
  match hw : sink.write (classText o methods).toUTF8 with
  | (.ok (), after) =>
    rw [bind_ok (hputs.all hw)]
    simp only [flush, Sink.flush]
    split <;> rfl
  | (.error cause, after) =>
    obtain ⟨place, hx⟩ := hputs.cut hw
    rw [bind_error hx]
    rfl

theorem compile_eq (hv : u.validate r o = .ok ())
    (hm : u.functions.mapM (u.renderFunction r o) = .ok methods) :
    u.compile r o = .ok (classText o methods) := by
  rw [compile, write_eq hv hm]
  exact congrArg Except.ok (text_written _)

/-- A sink with a limit keeps the first bytes of the class. -/
private theorem write_bounded (hv : u.validate r o = .ok ())
    (hm : u.functions.mapM (u.renderFunction r o) = .ok methods) (limit : Nat) (fails : Bool) :
    u.write r o { limit := some limit, flushFails := fails } =
      (if (classText o methods).toUTF8.size ≤ limit then
          if fails then .error (.emitter (.sink .flushRefused)) else .ok ()
        else .error (.emitter (.sink .closed)),
      { written := (classText o methods).toUTF8.extract 0 (min limit (classText o methods).toUTF8.size),
        limit := some limit, flushFails := fails }) := by
  rw [write_eq hv hm, Sink.write_bounded]
  by_cases hfits : (classText o methods).toUTF8.size ≤ limit
  · simp only [if_pos hfits]
  · simp only [if_neg hfits]

/-- Writing is all or nothing, up to the end of the sink. -/
theorem write_all_or_nothing (hu : u.arena.Built) (r : Registry) (o : UnitOptions) (limit : Nat)
    (fails : Bool) :
    let sink : Sink := { limit := some limit, flushFails := fails }
    (∃ err, u.validate r o = .error err ∧ u.write r o sink = (.error err, sink)) ∨
    (u.validate r o = .ok () ∧ ∃ before f after cause, u.functions = before ++ f :: after ∧
      (∀ g ∈ before, ∃ s, u.Generates r g (.ok s)) ∧ u.Generates r f (.error cause) ∧
      u.write r o sink = (.error (.emit f.name (.refused cause)), sink)) ∨
    (u.validate r o = .ok () ∧ (∀ f ∈ u.functions, ∃ s, u.Generates r f (.ok s)) ∧
      ∃ text, u.compile r o = .ok text ∧
        u.write r o sink =
          (if text.toUTF8.size ≤ limit then
              if fails then .error (.emitter (.sink .flushRefused)) else .ok ()
            else .error (.emitter (.sink .closed)),
          { sink with written := text.toUTF8.extract 0 (min limit text.toUTF8.size) })) := by
  intro sink
  have forms (ms : List (u.Method r)) : ∀ f ∈ ms.map (·.function), ∃ s, u.Generates r f (.ok s) :=
    List.forall_mem_map.mpr fun m _ => ⟨m.form, m.generates⟩
  cases hv : u.validate r o with
  | error err =>
    refine .inl ⟨err, rfl, write_error ?_ sink⟩
    rw [hv]
    rfl
  | ok _ =>
    refine .inr ?_
    rcases methods_or_first_refusal hu hv with ⟨ms, hms⟩ | ⟨before, f, after, cause, hfs, hf, hm⟩
    · exact .inr ⟨rfl, hms ▸ forms ms, _, compile_eq hv (render_methods hms o),
        write_bounded hv (render_methods hms o) limit fails⟩
    · refine .inl ⟨rfl, _, f, after, cause, hfs, forms before, hf, write_error ?_ sink⟩
      rw [hv]
      exact hm

private def greeting : CompileUnit :=
  ⟨(Arena.push {} (.literal (.str "hi")) .generated).2, [⟨"hello", 0, .value⟩]⟩

private def greetingMethod : greeting.Method Registry.standard where
  function := ⟨"hello", 0, .value⟩
  tree := .literal .generated (.str "hi")
  generator := Generator.standard .literal ⟨.literal .generated (.str "hi"), []⟩
  form := "env.createString(\"hi\")"
  tree_eq := by decide +kernel
  resolve_eq := rfl
  form_eq := by decide +kernel

/-- A sink of 26 bytes keeps the line that opens the class. -/
theorem write_greeting_cut : greeting.arena.Built ∧
    greeting.write Registry.standard {} { limit := some 26 } =
      (.error (.emitter (.sink .closed)),
        { written := "public final class Unit \x7b\n".toUTF8, limit := some 26 }) := by
  have hb : greeting.arena.Built := .push _ _ .empty
  have hv : greeting.validate Registry.standard {} = .ok () := by decide +kernel
  have hms : [greetingMethod].map (·.function) = greeting.functions := rfl
  rcases write_all_or_nothing hb Registry.standard {} 26 false with
    ⟨err, herr, _⟩ | ⟨_, before, f, after, cause, hfs, _, hf, _⟩ | ⟨_, _, text, htext, hw⟩
  · cases hv.symm.trans herr
  · have hmem : f ∈ greeting.functions := hfs ▸ List.mem_append_cons_self
    cases List.mem_singleton.mp hmem
    cases hf.unique greetingMethod.generates
  · cases (compile_eq hv (render_methods hms {})).symm.trans htext
    have hsize : ¬ (classText {} [greetingMethod.text {} 1]).toUTF8.size ≤ 26 := by decide +kernel
    have hcut : (classText {} [greetingMethod.text {} 1]).toUTF8.extract 0 26 =
        "public final class Unit \x7b\n".toUTF8 := by decide +kernel
    rw [List.map_singleton, if_neg hsize, Nat.min_eq_left (Nat.le_of_not_le hsize), hcut] at hw
    exact ⟨hb, hw⟩

end Classes

end CompileUnit

end ContextCodegen
