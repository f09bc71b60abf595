import ContextCodegen.Proofs.PrintableText
import ContextCodegen.Proofs.UnitWriting

/-! The text of a compiled unit. Methods rendered into buffers of their own give the text that one
emitter writes for the whole class, and over the standard generators every expression stands on a line
of its own. -/
namespace ContextCodegen

section Names

private theorem not_identifierPart_of_isControl : ∀ n < 160, Target.isControl (Char.ofNat n) = true →
    isIdentifierPart (Char.ofNat n) = false := by
  decide +kernel

private theorem isControl_identifierPart {c : Char} (h : isIdentifierPart c = true) :
    Target.isControl c = false := by
  rw [Bool.eq_false_iff]
  intro hc
  have hpart := not_identifierPart_of_isControl c.toNat (Target.isControl_lt hc)
  rw [Char.ofNat_toNat, h] at hpart
  cases hpart hc

theorem printable_identifier {s : String} (h : isIdentifier s = true) : Printable s := by
  unfold isIdentifier at h
  intro c hc
  split at h
  · rename_i hs
    rw [hs] at hc
    cases hc
  · rename_i d ds hs
    simp only [Bool.and_eq_true, List.all_eq_true] at h
    obtain ⟨⟨hd, hds⟩, -⟩ := h
    have hpart : isIdentifierPart d = true := by
      simp only [isIdentifierStart, isIdentifierPart, Char.isAlphanum, Bool.or_eq_true] at hd ⊢
      tauto
    rw [hs, List.mem_cons] at hc
    rcases hc with rfl | hc
    · exact isControl_identifierPart hpart
    · exact isControl_identifierPart (hds c hc)

private theorem mem_segments {cs : List Char} {c : Char} (h : c ∈ cs) :
    c = '.' ∨ ∃ segment ∈ segments cs, c ∈ segment := by
  induction cs with
  | nil => cases h
  | cons d cs ih =>
    unfold segments
    by_cases hd : d = '.'
    · rw [if_pos hd]
      rcases List.mem_cons.mp h with rfl | h
      · exact .inl hd
      · exact (ih h).imp_right fun ⟨segment, hs, hc⟩ => ⟨segment, List.mem_cons_of_mem _ hs, hc⟩
    · rw [if_neg hd]
      split
      · rename_i hnil
        rcases List.mem_cons.mp h with rfl | h
        · exact .inr ⟨[c], List.mem_singleton_self _, List.mem_singleton_self _⟩
        · exact (ih h).imp_right fun ⟨segment, hs, _⟩ => absurd (hnil ▸ hs) List.not_mem_nil
      · rename_i first rest hfirst
        rcases List.mem_cons.mp h with rfl | h
        · exact .inr ⟨_, List.mem_cons_self, List.mem_cons_self⟩
        · refine (ih h).imp_right fun ⟨segment, hs, hc⟩ => ?_
          rw [hfirst] at hs
          rcases List.mem_cons.mp hs with rfl | hs
          · exact ⟨_, List.mem_cons_self, List.mem_cons_of_mem _ hc⟩
          · exact ⟨segment, List.mem_cons_of_mem _ hs, hc⟩

theorem printable_packageName {s : String} (h : isPackageName s = true) : Printable s := by
  intro c hc
  rcases mem_segments hc with rfl | ⟨segment, hs, hmem⟩
  · rfl
  · have hid := printable_identifier (List.all_eq_true.mp h segment hs)
    exact hid c (by rwa [String.toList_ofList])

theorem printable_display (l : Location) : Printable l.display := by
  unfold Location.display
  split_ifs
  · decide
  · exact ((Printable.append (by decide) (printable_nat _)).append (by decide)).append (printable_nat _)

end Names

section Lines

theorem unlines_intercalate (lss : List (List String)) :
    unlines ([""].intercalate lss) = "\n".intercalate (lss.map unlines) := by
  induction lss with
  | nil => rfl
  | cons ls lss ih =>
    match lss with
    | [] => simp
    | ms :: lss =>
      rw [List.intercalate_cons_cons, unlines_append, unlines_append, ih]
      simp only [List.map_cons, String.intercalate_cons_cons]
      rfl

/-- The end of the last line starts one more, which is empty. -/
theorem lines_unlines {ls : List String} (h : ∀ l ∈ ls, Printable l) : lines (unlines ls) = ls ++ [""] := by
  induction ls with
  | nil => rfl
  | cons l ls ih =>
    have hl := (h l List.mem_cons_self).not_mem_newline
    rw [unlines, lines_append_newline hl, List.cons_append, ih fun l hm => h l (List.mem_cons_of_mem _ hm)]

end Lines

namespace CompileUnit

open Emitter (println newline)

variable {u : CompileUnit} {r : Registry} {o : UnitOptions} {depth : Nat}

section Direct

def emitFunctions (r : Registry) (o : UnitOptions) : List (Function × Expr) → Printing EmitError Unit
  | [] => pure ()
  | [(f, e)] => emitFunction r o f e
  | (f, e) :: rest => do
    emitFunction r o f e
    newline.adapt .emitter
    emitFunctions r o rest

/-- The whole class from one emitter. -/
def emitClass (r : Registry) (o : UnitOptions) (functions : List (Function × Expr)) :
    Printing EmitError Unit := do
  (printPackage o).adapt .emitter
  (println ("public final class " ++ o.className ++ " \x7b")).adapt .emitter
  inScope (emitFunctions r o functions)
  (println "\x7d").adapt .emitter

theorem puts_emitFunctions (ms : List (u.Method r)) :
    Puts EmitError.emitter depth true (emitFunctions r o (ms.map fun m => (m.function, m.tree)))
      ("\n".intercalate (ms.map (·.text o depth))) true := by
  induction ms with
  | nil => exact puts_nothing
  | cons m ms ih =>
    match ms with
    | [] =>
      simp only [List.map_cons, List.map_nil, String.intercalate_singleton]
      exact m.puts
    | m' :: ms =>
      simp only [List.map_cons, String.intercalate_cons_cons, String.append_assoc]
      exact m.puts.then ((puts_newline.adapt _).then ih)

private theorem puts_top {x : Printing EmitterError Unit} {ls : List String}
    (h : LaysOut id 0 x (unlines ls)) : Puts id 0 true x (unlines ls) true := by
  have hx := h.puts_lines
  rwa [Layout.text_ofText_zero] at hx

/-- One emitter writes the class around the methods. -/
theorem puts_emitClass (ms : List (u.Method r)) :
    Puts EmitError.emitter 0 true (emitClass r o (ms.map fun m => (m.function, m.tree)))
      (classText o (ms.map (·.text o 1))) true := by
  have package := puts_top (laysOut_package o)
  have heading := puts_top (laysOut_println ("public final class " ++ o.className ++ " \x7b"))
  have closing := puts_top (laysOut_println "\x7d")
  exact (package.adapt _).then
    ((heading.adapt _).then ((puts_emitFunctions ms).inScope.then (closing.adapt _)))

/-- A unit that compiles passes its checks, and its text is the class around its methods. -/
theorem methods_of_compile {text : String} (h : u.compile r o = .ok text) : u.validate r o = .ok () ∧
    ∃ ms : List (u.Method r), ms.map (·.function) = u.functions ∧
      classText o (ms.map (·.text o 1)) = text := by
  have failing {err : CompileError}
      (hw : (do u.validate r o; u.functions.mapM (u.renderFunction r o)) = .error err) : False := by
    rw [compile, write_error hw] at h
    cases h
  cases hv : u.validate r o with
  | error err => exact (failing (by rw [hv]; rfl)).elim
  | ok _ =>
    rcases u.methods_or_failure r o u.functions with ⟨ms, hms⟩ | ⟨_, _, _, _, _, _, hm⟩
    · exact ⟨rfl, ms, hms, Except.ok.inj ((compile_eq hv (render_methods hms o)).symm.trans h)⟩
    · exact (failing (by rw [hv]; exact hm)).elim

end Direct

section ReturnLines

def Method.lines (m : u.Method r) (o : UnitOptions) (depth : Nat) : List String :=
  (headingLines o m.function m.generator.subject.loc).map (Layout.margin depth ++ ·) ++
    ([Layout.margin (depth + 1) ++ ("return " ++ m.form ++ ";")] ++ [Layout.margin depth ++ "\x7d"])

private theorem headingLines_spec (o : UnitOptions) {f : Function} (hf : Printable f.name) (loc : Location) :
    ∀ l ∈ headingLines o f loc, l ≠ "" ∧ Printable l := by
  have htype : Printable f.context.targetType := by cases f.context <;> decide
  have hhead : Printable ("public static " ++ f.context.targetType ++ " " ++ f.name ++ "(Env env) \x7b") :=
    (((Printable.append (by decide) htype).append (by decide)).append hf).append (by decide)
  have hcomment : Printable ("// " ++ loc.display) := .append (by decide) (printable_display loc)
  unfold headingLines
  split_ifs
  · simp [hhead, hcomment]
  · simp [hhead]

theorem Method.text_eq (m : u.Method r) (hname : Printable m.function.name) (hform : Printable m.form)
    (o : UnitOptions) (depth : Nat) : m.text o depth = unlines (m.lines o depth) := by
  have hlines {ls : List String} (h : ∀ l ∈ ls, l ≠ "" ∧ Printable l) :
      ∀ l ∈ ls, l ≠ "" ∧ '\n' ∉ l.toList := fun l hl => ⟨(h l hl).1, (h l hl).2.not_mem_newline⟩
  have hbody : ∀ l ∈ ["return " ++ m.form ++ ";"], l ≠ "" ∧ Printable l :=
    List.forall_mem_singleton.mpr ⟨by simp, (Printable.append (by decide) hform).append (by decide)⟩
  have hclosing : ∀ l ∈ ["\x7d"], l ≠ "" ∧ Printable l :=
    List.forall_mem_singleton.mpr ⟨by decide, by decide⟩
  rw [Method.text, Layout.text_ofText_unlines depth (hlines (headingLines_spec o hname _)),
    Layout.text_ofText_unlines (depth + 1) (hlines hbody),
    Layout.text_ofText_unlines depth (hlines hclosing), ← unlines_append, ← unlines_append]
  rfl

def classLines (o : UnitOptions) (methods : List (List String)) : List String :=
  packageLines o ++ (["public final class " ++ o.className ++ " \x7b"] ++
    ([""].intercalate methods ++ ["\x7d"]))

private theorem classText_eq (o : UnitOptions) (methods : List (List String)) :
    classText o (methods.map unlines) = unlines (classLines o methods) := by
  rw [classText, classLines, ← unlines_intercalate, unlines_append, unlines_append, unlines_append]

private theorem forall_mem_intercalate {p : String → Prop} (hp : p "") {lss : List (List String)}
    (h : ∀ ls ∈ lss, ∀ l ∈ ls, p l) : ∀ l ∈ [""].intercalate lss, p l := by
  induction lss with
  | nil => exact List.forall_mem_nil _
  | cons ls lss ih =>
    obtain ⟨hls, hlss⟩ := List.forall_mem_cons.mp h
    match lss with
    | [] => simpa using hls
    | ms :: lss =>
      rw [List.intercalate_cons_cons, List.forall_mem_append, List.forall_mem_append]
      exact ⟨⟨hls, List.forall_mem_singleton.mpr hp⟩, ih hlss⟩

private theorem filter_intercalate {p : String → Bool} (hp : p "" = false) (lss : List (List String)) :
    ([""].intercalate lss).filter p = lss.flatMap (List.filter p) := by
  induction lss with
  | nil => rfl
  | cons ls lss ih =>
    match lss with
    | [] => simp
    | ms :: lss =>
      rw [List.intercalate_cons_cons, List.filter_append, List.filter_append, ih, List.filter_singleton, hp]
      simp

/-- A line that returns from a method of a class. -/
def isReturnLine (l : String) : Bool := "        return ".toList.isPrefixOf l.toList

private theorem filter_headingLines (o : UnitOptions) (f : Function) (loc : Location) :
    ((headingLines o f loc).map (Layout.margin 1 ++ ·)).filter isReturnLine = [] := by
  unfold headingLines
  split_ifs <;> simp [isReturnLine, Layout.margin]

theorem Method.filter_lines (m : u.Method r) (o : UnitOptions) :
    (m.lines o 1).filter isReturnLine = ["        return " ++ m.form ++ ";"] := by
  have hline : Layout.margin 2 ++ ("return " ++ m.form ++ ";") = "        return " ++ m.form ++ ";" := by
    rw [← String.append_assoc, ← String.append_assoc]
    rfl
  have hreturn : isReturnLine ("        return " ++ m.form ++ ";") = true := by
    simp [isReturnLine]
  rw [Method.lines, List.filter_append, filter_headingLines, List.filter_append, hline,
    List.filter_singleton, hreturn]
  rfl

theorem filter_classLines (o : UnitOptions) (ms : List (u.Method r)) :
    (classLines o (ms.map (·.lines o 1)) ++ [""]).filter isReturnLine =
      ms.map fun m => "        return " ++ m.form ++ ";" := by
  have hpackage : (packageLines o).filter isReturnLine = [] := by
    unfold packageLines
    split <;> simp [isReturnLine]
  have hclass : ["public final class " ++ o.className ++ " \x7b"].filter isReturnLine = [] := by
    simp [isReturnLine]
  have hmethods : ([""].intercalate (ms.map (·.lines o 1))).filter isReturnLine =
      ms.map fun m => "        return " ++ m.form ++ ";" := by
    rw [filter_intercalate rfl, List.flatMap_map, List.map_eq_flatMap]
    simp only [Method.filter_lines]
  have hclosing : ["\x7d"].filter isReturnLine = [] := rfl
  have hlast : [""].filter isReturnLine = [] := rfl
  simp only [classLines, List.filter_append, hpackage, hclass, hmethods, hclosing, hlast, List.nil_append,
    List.append_nil]

private theorem printable_margin (depth : Nat) : Printable (Layout.margin depth) := by
  intro c hc
  rw [Layout.margin, String.toList_ofList] at hc
  cases List.eq_of_mem_replicate hc
  rfl

theorem Method.printable_lines (m : u.Method r) (hname : Printable m.function.name) (hform : Printable m.form)
    (o : UnitOptions) (depth : Nat) : ∀ l ∈ m.lines o depth, Printable l := by
  have hbody : Printable ("return " ++ m.form ++ ";") := (Printable.append (by decide) hform).append (by decide)
  rw [Method.lines, List.forall_mem_append, List.forall_mem_map]
  refine ⟨fun l hl => (printable_margin depth).append (headingLines_spec o hname _ l hl).2, ?_⟩
  rw [List.forall_mem_append, List.forall_mem_singleton, List.forall_mem_singleton]
  exact ⟨(printable_margin _).append hbody, (printable_margin _).append (by decide)⟩

theorem printable_classLines (hclass : Printable o.className) (hpackage : ∀ p ∈ o.package, Printable p)
    {methods : List (List String)} (h : ∀ ls ∈ methods, ∀ l ∈ ls, Printable l) :
    ∀ l ∈ classLines o methods, Printable l := by
  have hlines : ∀ l ∈ packageLines o, Printable l := by
    unfold packageLines
    split
    · rename_i p hp
      have hline : Printable ("package " ++ p ++ ";") :=
        (Printable.append (by decide) (hpackage p hp)).append (by decide)
      exact List.forall_mem_cons.mpr ⟨hline, List.forall_mem_singleton.mpr printable_empty⟩
    · exact List.forall_mem_nil _
  have hheading : Printable ("public final class " ++ o.className ++ " \x7b") :=
    (Printable.append (by decide) hclass).append (by decide)
  rw [classLines, List.forall_mem_append, List.forall_mem_append, List.forall_mem_append]
  exact ⟨hlines, List.forall_mem_singleton.mpr hheading, forall_mem_intercalate printable_empty h,
    List.forall_mem_singleton.mpr (by decide)⟩

/-- The text of the class, line by line. -/
theorem lines_classText (hv : u.validate r o = .ok ()) {ms : List (u.Method r)}
    (hms : ms.map (·.function) = u.functions) (hforms : ∀ m ∈ ms, Printable m.form) :
    lines (classText o (ms.map (·.text o 1))) = classLines o (ms.map (·.lines o 1)) ++ [""] := by
  obtain ⟨hclass, hpackage, hfunctions⟩ := validate_ok hv
  have hnames : ∀ m ∈ ms, Printable m.function.name := by
    intro m hm
    have hf : m.function ∈ u.functions := hms ▸ List.mem_map_of_mem hm
    exact printable_identifier (hfunctions _ hf).1
  have htext : ms.map (·.text o 1) = (ms.map (·.lines o 1)).map unlines := by
    rw [List.map_map]
    exact List.map_congr_left fun m hm => m.text_eq (hnames m hm) (hforms m hm) o 1
  rw [htext, classText_eq]
  apply lines_unlines
  apply printable_classLines (printable_identifier hclass) fun p hp => printable_packageName (hpackage p hp)
  rw [List.forall_mem_map]
  exact fun m hm => m.printable_lines (hnames m hm) (hforms m hm) o 1

end ReturnLines

/-- A unit that compiles has one method for each function, and its text is what a single emitter writes.
Over the standard generators, the return lines are those of the methods and hold their forms as they are. -/
theorem compile_is_direct_emission {text : String} (h : u.compile r o = .ok text) :
    ∃ ms : List (u.Method r), ms.map (·.function) = u.functions ∧
      (∃ out, emitClass r o (ms.map fun m => (m.function, m.tree)) {} = (.ok (), out) ∧
        out.sink.written = text.toUTF8) ∧
      (r.FromStandard →
        (lines text).filter isReturnLine = ms.map fun m => "        return " ++ m.form ++ ";") := by
  obtain ⟨hv, ms, hms, rfl⟩ := methods_of_compile h
  refine ⟨ms, hms, ⟨_, (puts_emitClass ms).unlimited rfl, ByteArray.empty_append⟩, fun hr => ?_⟩
  have hforms : ∀ m ∈ ms, Printable m.form := fun m _ => hr.printable_text m.resolve_eq m.form_eq
  rw [lines_classText hv hms hforms, filter_classLines]

section Answers

private theorem forms_eq {ms ns : List (u.Method r)} (h : ms.map (·.function) = ns.map (·.function)) :
    ms.map (·.form) = ns.map (·.form) := by
  induction ms generalizing ns with
  | nil =>
    cases List.map_eq_nil_iff.mp h.symm
    rfl
  | cons m ms ih =>
    cases ns with
    | nil => cases h
    | cons n ns =>
      obtain ⟨hf, hrest⟩ := List.cons.inj h
      have hf : m.function = n.function := hf
      have hform : m.form = n.form := Except.ok.inj (m.generates.unique (hf ▸ n.generates))
      rw [List.map_cons, List.map_cons, hform, ih hrest]

/-- Two functions, one of which returns a text of two lines. -/
private def answers : CompileUnit where
  arena := (Arena.push (Arena.push {} (.literal (.str "a\n\"b")) ⟨1, 2⟩).2 (.var "x") ⟨1, 3⟩).2
  functions := [⟨"text", 0, .value⟩, ⟨"name", 1, .boolean⟩]

private def answersOptions : UnitOptions where
  className := "Answers"
  package := some "app.gen"
  locationComments := true

private def textMethod : answers.Method Registry.standard where
  function := ⟨"text", 0, .value⟩
  tree := .literal ⟨1, 2⟩ (.str "a\n\"b")
  generator := Generator.standard .literal ⟨.literal ⟨1, 2⟩ (.str "a\n\"b"), []⟩
  form := "env.createString(\"a\\n\\\"b\")"
  tree_eq := by decide +kernel
  resolve_eq := rfl
  form_eq := by decide +kernel

private def nameMethod : answers.Method Registry.standard where
  function := ⟨"name", 1, .boolean⟩
  tree := .var ⟨1, 3⟩ "x"
  generator := Generator.standard .var ⟨.var ⟨1, 3⟩ "x", []⟩
  form := "env.getValue(\"x\").toBoolean()"
  tree_eq := by decide +kernel
  resolve_eq := rfl
  form_eq := by decide +kernel

theorem return_lines_of_answers : ∃ text, answers.compile Registry.standard answersOptions = .ok text ∧
    (lines text).filter isReturnLine =
      ["        return env.createString(\"a\\n\\\"b\");", "        return env.getValue(\"x\").toBoolean();"] := by
  have hv : answers.validate Registry.standard answersOptions = .ok () := by decide +kernel
  have hms : [textMethod, nameMethod].map (·.function) = answers.functions := rfl
  have hc := compile_eq hv (render_methods hms answersOptions)
  obtain ⟨ms, hfs, -, hlines⟩ := compile_is_direct_emission hc
  have hforms : ms.map (·.form) = [textMethod, nameMethod].map (·.form) := forms_eq (hfs.trans hms.symm)
  have hreturns : (ms.map fun m => "        return " ++ m.form ++ ";") =
      ([textMethod, nameMethod].map (·.form)).map fun s => "        return " ++ s ++ ";" := by
    rw [← hforms, List.map_map]
    rfl
  exact ⟨_, hc, ((hlines Registry.fromStandard_standard).trans hreturns).trans (by decide)⟩

end Answers

end CompileUnit

end ContextCodegen
