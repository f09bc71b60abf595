import Mathlib.Data.List.Basic
import ContextCodegen.Emission
import ContextCodegen.Proofs.Outcomes

/-! What actions on an emitter write. However a text is cut into prints, the sink sees it laid out in
one piece: all of it if it fits, and otherwise its first bytes, behind which nothing is written. -/
namespace ContextCodegen

namespace Sink

private theorem extract_all {a : ByteArray} {k : Nat} (h : a.size ≤ k) : a.extract 0 k = a := by
  rw [← Nat.max_eq_left h, ByteArray.extract_zero_max_size]

theorem write_empty (s : Sink) : s.write .empty = (.ok (), s) := by
  obtain ⟨written, limit, fails⟩ := s
  cases limit with
  | none => simp only [write, ByteArray.append_empty]
  | some most =>
    simp only [write, ByteArray.append_empty, ByteArray.size_empty]
    rw [if_pos (Nat.zero_le _)]

/-- Two writes are one write of both, as far as it goes. -/
theorem write_append (s : Sink) (a b : ByteArray) : s.write (a ++ b) =
    match s.write a with
    | (.ok (), after) => after.write b
    | (.error cause, after) => (.error cause, after) := by
  obtain ⟨written, limit, fails⟩ := s
  cases limit with
  | none => simp only [write, ByteArray.append_assoc]
  | some most =>
    simp only [write, ByteArray.size_append]
    by_cases ha : a.size ≤ most - written.size
    · simp only [if_pos ha, ByteArray.size_append]
      by_cases hb : a.size + b.size ≤ most - written.size
      · rw [if_pos hb, if_pos (by omega), ByteArray.append_assoc]
      · rw [if_neg hb, if_neg (by omega), ByteArray.append_assoc, ByteArray.extract_append,
          extract_all ha, Nat.zero_sub, Nat.sub_sub]
    · have hroom : most - written.size - a.size = 0 := by omega
      rw [if_neg (by omega), ByteArray.extract_append, Nat.zero_sub, hroom, ByteArray.extract_same,
        ByteArray.append_empty]
      simp only [if_neg ha]

/-- A new sink keeps the first bytes, up to its limit. -/
theorem write_bounded (limit : Nat) (fails : Bool) (bytes : ByteArray) :
    Sink.write { limit := some limit, flushFails := fails } bytes =
      (if bytes.size ≤ limit then .ok () else .error .closed,
        { written := bytes.extract 0 (min limit bytes.size), limit := some limit, flushFails := fails }) := by
  simp only [write, ByteArray.size_empty, Nat.sub_zero, ByteArray.empty_append]
  by_cases h : bytes.size ≤ limit
  · rw [if_pos h, if_pos h, Nat.min_eq_right h, ByteArray.extract_zero_size]
  · rw [if_neg h, if_neg h, Nat.min_eq_left (by omega)]

end Sink

section Lines

def unlines : List String → String
  | [] => ""
  | l :: ls => l ++ "\n" ++ unlines ls

theorem unlines_singleton (l : String) : unlines [l] = l ++ "\n" := String.append_empty

theorem unlines_append (ls ms : List String) : unlines (ls ++ ms) = unlines ls ++ unlines ms := by
  induction ls with
  | nil => exact String.empty_append.symm
  | cons l ls ih => simp only [List.cons_append, unlines, ih, String.append_assoc]

theorem lines_of_not_mem {s : String} (h : '\n' ∉ s.toList) : lines s = [s] := by
  rw [lines, List.splitOn_eq_singleton h, List.map_singleton, String.ofList_toList]

theorem lines_append_newline {l : String} (h : '\n' ∉ l.toList) (s : String) :
    lines (l ++ "\n" ++ s) = l :: lines s := by
  have hsplit : (l ++ "\n" ++ s).toList = l.toList ++ '\n' :: s.toList := by simp
  rw [lines, hsplit, List.splitOn_append_cons_self_of_not_mem h, List.map_cons, String.ofList_toList, lines]

theorem intercalate_lines (s : String) : "\n".intercalate (lines s) = s := by
  have hlines : (lines s).map String.toList = s.toList.splitOn '\n' := by
    rw [lines, List.map_map]
    exact List.map_id'' (fun _ => String.toList_ofList) _
  rw [← String.toList_inj, String.toList_intercalate, hlines]
  exact List.intercalate_splitOn '\n'

theorem not_mem_splitOn {cs l : List Char} (h : l ∈ cs.splitOn '\n') : '\n' ∉ l := by
  induction cs generalizing l with
  | nil =>
    cases List.mem_singleton.mp h
    exact List.not_mem_nil
  | cons c cs ih =>
    rw [List.splitOn_cons_eq_if_modifyHead] at h
    split at h
    · rcases List.mem_cons.mp h with rfl | h
      · exact List.not_mem_nil
      · exact ih h
    · rename_i hc
      obtain ⟨first, rest, hsplit⟩ := List.exists_cons_of_ne_nil (List.splitOn_ne_nil '\n' cs)
      rw [hsplit, List.modifyHead_cons] at h
      rw [hsplit] at ih
      rcases List.mem_cons.mp h with rfl | h
      · have hne : '\n' ≠ c := fun he => hc (beq_iff_eq.mpr he.symm)
        exact List.not_mem_cons_of_ne_of_not_mem hne (ih List.mem_cons_self)
      · exact ih (List.mem_cons_of_mem _ h)

theorem not_mem_of_mem_lines {s l : String} (h : l ∈ lines s) : '\n' ∉ l.toList := by
  obtain ⟨cs, hcs, rfl⟩ := List.mem_map.mp h
  rw [String.toList_ofList]
  exact not_mem_splitOn hcs

end Lines

/-- Text laid out so far, and whether the next character starts a line. -/
structure Layout where
  text : String
  atLineStart : Bool

namespace Layout

def margin (depth : Nat) : String := String.ofList (List.replicate (4 * depth) ' ')

theorem margin_succ (depth : Nat) : margin (depth + 1) = "    " ++ margin depth := by
  rw [margin, Nat.mul_succ, Nat.add_comm, ← List.replicate_append_replicate, String.ofList_append]
  rfl

def step (margin : String) (l : Layout) (c : Char) : Layout :=
  if c = '\n' then ⟨l.text.push '\n', true⟩
  else if l.atLineStart then ⟨(l.text ++ margin).push c, false⟩
  else ⟨l.text.push c, false⟩

/-- Lays out a text at a depth, from the start of a line or from within one. -/
def ofText (depth : Nat) (atLineStart : Bool) (s : String) : Layout :=
  s.toList.foldl (step (margin depth)) ⟨"", atLineStart⟩

/-- Lays out characters, each at a depth of its own. -/
def ofMarked (atLineStart : Bool) (marks : List (Char × Nat)) : Layout :=
  marks.foldl (fun l m => step (margin m.2) l m.1) ⟨"", atLineStart⟩

def mark (depth : Nat) (s : String) : List (Char × Nat) := s.toList.map fun c => (c, depth)

theorem mark_append (depth : Nat) (s t : String) : mark depth (s ++ t) = mark depth s ++ mark depth t := by
  rw [mark, String.toList_append, List.map_append, mark, mark]

def plain (marks : List (Char × Nat)) : String := String.ofList (marks.map Prod.fst)

theorem plain_append (ms ns : List (Char × Nat)) : plain (ms ++ ns) = plain ms ++ plain ns := by
  rw [plain, List.map_append, String.ofList_append, plain, plain]

theorem plain_mark (depth : Nat) (s : String) : plain (mark depth s) = s := by
  have hfst : (mark depth s).map Prod.fst = s.toList := by
    rw [mark, List.map_map]
    exact List.map_id _
  rw [plain, hfst, String.ofList_toList]

theorem ofText_eq_ofMarked (depth : Nat) (line : Bool) (s : String) :
    ofText depth line s = ofMarked line (mark depth s) := by
  rw [ofText, ofMarked, mark, List.foldl_map]

/-- What is laid out does not depend on the text before it. -/
private theorem foldl_step (marks : List (Char × Nat)) (l : Layout) :
    marks.foldl (fun l m => step (margin m.2) l m.1) l =
      ⟨l.text ++ (ofMarked l.atLineStart marks).text, (ofMarked l.atLineStart marks).atLineStart⟩ := by
  induction marks generalizing l with
  | nil => simp [ofMarked]
  | cons m marks ih =>
    have hline : (step (margin m.2) l m.1).atLineStart =
        (step (margin m.2) ⟨"", l.atLineStart⟩ m.1).atLineStart := by
      unfold step
      split_ifs <;> rfl
    have htext : (step (margin m.2) l m.1).text =
        l.text ++ (step (margin m.2) ⟨"", l.atLineStart⟩ m.1).text := by
      unfold step
      split_ifs <;> simp [← String.toList_inj]
    rw [List.foldl_cons, ofMarked, List.foldl_cons, ih, ih (step (margin m.2) ⟨"", l.atLineStart⟩ m.1),
      hline, htext, String.append_assoc]

theorem ofMarked_append (line : Bool) (ms ns : List (Char × Nat)) :
    ofMarked line (ms ++ ns) =
      ⟨(ofMarked line ms).text ++ (ofMarked (ofMarked line ms).atLineStart ns).text,
        (ofMarked (ofMarked line ms).atLineStart ns).atLineStart⟩ := by
  rw [ofMarked, List.foldl_append, foldl_step]
  rfl

/-- A text can be laid out piece by piece. -/
theorem ofText_append (depth : Nat) (line : Bool) (s t : String) :
    ofText depth line (s ++ t) =
      ⟨(ofText depth line s).text ++ (ofText depth (ofText depth line s).atLineStart t).text,
        (ofText depth (ofText depth line s).atLineStart t).atLineStart⟩ := by
  simp only [ofText_eq_ofMarked, mark_append, ofMarked_append]

theorem atLineStart_newline (depth : Nat) (line : Bool) (s : String) :
    (ofText depth line (s ++ "\n")).atLineStart = true := by
  rw [ofText_append]
  rfl

theorem atLineStart_unlines (depth : Nat) (ls : List String) :
    (ofText depth true (unlines ls)).atLineStart = true := by
  induction ls with
  | nil => rfl
  | cons l ls ih => rw [unlines, ofText_append, atLineStart_newline, ih]

/-- Without a margin a text is left as it is. -/
theorem text_ofText_zero (line : Bool) (s : String) : (ofText 0 line s).text = s := by
  have hchars (cs : List Char) (l : Layout) :
      (cs.foldl (step (margin 0)) l).text.toList = l.text.toList ++ cs := by
    induction cs generalizing l with
    | nil => simp
    | cons c cs ih =>
      have hc : (step (margin 0) l c).text.toList = l.text.toList ++ [c] := by
        unfold step margin
        split_ifs <;> simp_all
      rw [List.foldl_cons, ih, hc, List.append_assoc, List.singleton_append]
  rw [← String.toList_inj, ofText, hchars]
  rfl

/-- Within a line, characters are written as they are. -/
theorem ofMarked_within {ms : List (Char × Nat)} (h : ∀ m ∈ ms, m.1 ≠ '\n') :
    ofMarked false ms = ⟨plain ms, false⟩ := by
  induction ms with
  | nil => rfl
  | cons m ms ih =>
    obtain ⟨hm, hms⟩ := List.forall_mem_cons.mp h
    have hone : ofMarked false [m] = ⟨plain [m], false⟩ := by
      simp [ofMarked, step, hm, plain]
    rw [← List.singleton_append, ofMarked_append, hone, ih hms, plain_append]

/-- A line goes behind the margin of its first character. -/
theorem ofMarked_line {m : Char × Nat} {ms : List (Char × Nat)} (h : ∀ n ∈ m :: ms, n.1 ≠ '\n') :
    ofMarked true (m :: ms) = ⟨margin m.2 ++ plain (m :: ms), false⟩ := by
  obtain ⟨hm, hms⟩ := List.forall_mem_cons.mp h
  have hone : ofMarked true [m] = ⟨margin m.2 ++ plain [m], false⟩ := by
    simp [ofMarked, step, hm, plain]
  rw [← List.singleton_append, ofMarked_append, hone, ofMarked_within hms, plain_append, String.append_assoc]

private theorem ne_newline_of_mem_mark {depth : Nat} {s : String} (h : '\n' ∉ s.toList) :
    ∀ m ∈ mark depth s, m.1 ≠ '\n' := by
  intro m hm
  obtain ⟨d, hd, rfl⟩ := List.mem_map.mp hm
  exact fun he => h (he ▸ hd)

theorem ofText_within (depth : Nat) {s : String} (h : '\n' ∉ s.toList) :
    ofText depth false s = ⟨s, false⟩ := by
  rw [ofText_eq_ofMarked, ofMarked_within (ne_newline_of_mem_mark h), plain_mark]

theorem ofText_line (depth : Nat) {s : String} (hs : s ≠ "") (h : '\n' ∉ s.toList) :
    ofText depth true s = ⟨margin depth ++ s, false⟩ := by
  have hne : s.toList ≠ [] := fun he => hs (String.toList_eq_nil_iff.mp he)
  obtain ⟨c, cs, hcs⟩ := List.exists_cons_of_ne_nil hne
  have hmark : mark depth s = (c, depth) :: cs.map fun c => (c, depth) := by rw [mark, hcs, List.map_cons]
  have hline : ∀ m ∈ mark depth s, m.1 ≠ '\n' := ne_newline_of_mem_mark h
  rw [hmark] at hline
  rw [ofText_eq_ofMarked, hmark, ofMarked_line hline, ← hmark, plain_mark]

/-- Lines with something on them are laid out behind their margin. -/
theorem text_ofText_unlines (depth : Nat) {ls : List String} (h : ∀ l ∈ ls, l ≠ "" ∧ '\n' ∉ l.toList) :
    (ofText depth true (unlines ls)).text = unlines (ls.map (margin depth ++ ·)) := by
  induction ls with
  | nil => rfl
  | cons l ls ih =>
    obtain ⟨⟨hne, hl⟩, hls⟩ := List.forall_mem_cons.mp h
    rw [unlines, ofText_append, atLineStart_newline, ih hls, ofText_append, ofText_line depth hne hl,
      List.map_cons, unlines]
    rfl

end Layout

namespace Output

theorem onto_eq (out : String) (o : Output) : o.onto out = out ++ o.text := by
  induction o generalizing out with
  | empty => simp [onto, text]
  | piece s => simp [onto, text]
  | both a b iha ihb =>
    simp only [onto, text]
    rw [ihb, iha, ihb (a.onto ""), String.append_assoc]
    rfl

theorem text_both (a b : Output) : (Output.both a b).text = a.text ++ b.text := onto_eq a.text b

theorem text_append (a b : Output) : (a ++ b).text = a.text ++ b.text := by
  change (append a b).text = _
  unfold append
  split
  · exact (String.empty_append).symm
  · exact (String.append_empty).symm
  · exact text_both _ _

end Output

namespace Emission

variable {α : Type} {m : Emission α} {cause : Refusal}

theorem toText_eq_ok {m : Emission Unit} {s : String} (h : m.toText = .ok s) :
    m.result = .ok () ∧ m.output.text = s := by
  obtain ⟨⟨⟩, hm, hs⟩ := map_eq_ok h
  exact ⟨hm, hs.symm⟩

theorem toText_eq_error (h : m.toText = .error cause) : m.result = .error cause := map_eq_error h

theorem refusal?_of_ok {a : α} (h : m.result = .ok a) : MonadEmission.refusal? m = none := by
  obtain ⟨output, result⟩ := m
  cases h
  rfl

theorem refusal?_of_error (h : m.result = .error cause) : MonadEmission.refusal? m = some cause := by
  obtain ⟨output, result⟩ := m
  cases h
  rfl

end Emission

section Writing

variable {ε : Type} {fail : EmitterError → ε} {depth : Nat} {line mid last : Bool}

/-- From its place in a line, the action acts on every sink as one write of the text. It comes back to
its depth, and fails exactly if the write does. -/
structure Puts (fail : EmitterError → ε) (depth : Nat) (line : Bool) (x : Printing ε Unit)
    (text : String) (last : Bool) : Prop where
  all : ∀ {sink after : Sink}, sink.write text.toUTF8 = (.ok (), after) →
    x ⟨sink, depth, line⟩ = (.ok (), ⟨after, depth, last⟩)
  cut : ∀ {sink after : Sink} {cause : SinkError}, sink.write text.toUTF8 = (.error cause, after) →
    ∃ place, x ⟨sink, depth, line⟩ = (.error (fail (.sink cause)), ⟨after, depth, place⟩)

theorem puts_nothing : Puts fail depth line (pure ()) "" line := by
  constructor
  · intro sink after h
    cases (sink.write_empty.symm.trans h)
    rfl
  · intro sink after cause h
    cases (sink.write_empty.symm.trans h)

theorem Puts.then {x y : Printing ε Unit} {s t : String} (h : Puts fail depth line x s mid)
    (h' : Puts fail depth mid y t last) : Puts fail depth line (do x; y) (s ++ t) last := by
  constructor
  · intro sink after hw
    rw [String.toUTF8_eq_toByteArray, String.toByteArray_append, Sink.write_append] at hw
    split at hw
    · rename_i hs
      exact (bind_ok (h.all hs)).trans (h'.all hw)
    · cases hw
  · intro sink after cause hw
    rw [String.toUTF8_eq_toByteArray, String.toByteArray_append, Sink.write_append] at hw
    split at hw
    · rename_i hs
      obtain ⟨place, hy⟩ := h'.cut hw
      exact ⟨place, (bind_ok (h.all hs)).trans hy⟩
    · rename_i hs
      cases hw
      obtain ⟨place, hx⟩ := h.cut hs
      exact ⟨place, bind_error hx⟩

theorem Puts.adapt {x : Printing EmitterError Unit} {s : String} (h : Puts id depth line x s last)
    (g : EmitterError → ε) : Puts g depth line (x.adapt g) s last := by
  constructor
  · intro sink after hw
    exact adapt_ok g (h.all hw)
  · intro sink after cause hw
    obtain ⟨place, hx⟩ := h.cut hw
    exact ⟨place, adapt_error g hx⟩

/-- Runs an action in a scope and passes on its outcome. -/
def inScope (x : Printing EmitError Unit) : Printing EmitError Unit := do
  let result ← (Emitter.scope x).adapt .emitter
  result

theorem inScope_eq {x : Printing EmitError Unit} {result : Except EmitError Unit} {sink after : Sink}
    {place : Bool} (h : x ⟨sink, depth + 1, line⟩ = (result, ⟨after, depth + 1, place⟩)) :
    inScope x ⟨sink, depth, line⟩ = (result, ⟨after, depth, place⟩) := by
  have hs : Emitter.scope x ⟨sink, depth, line⟩ = (.ok result, ⟨after, depth, place⟩) := by
    simp only [Emitter.scope, Emitter.indent, h, Emitter.dedent]
    rfl
  exact bind_ok (adapt_ok _ hs)

theorem Puts.inScope {x : Printing EmitError Unit} {s : String}
    (h : Puts EmitError.emitter (depth + 1) line x s last) :
    Puts EmitError.emitter depth line (inScope x) s last := by
  constructor
  · intro sink after hw
    exact inScope_eq (h.all hw)
  · intro sink after cause hw
    obtain ⟨place, hx⟩ := h.cut hw
    exact ⟨place, inScope_eq hx⟩

/-- The action writes the text as it is laid out at the depth, wherever in a line it begins. -/
def LaysOut (fail : EmitterError → ε) (depth : Nat) (x : Printing ε Unit) (s : String) : Prop :=
  ∀ line, Puts fail depth line x (Layout.ofText depth line s).text (Layout.ofText depth line s).atLineStart

theorem laysOut_nothing : LaysOut fail depth (pure ()) "" := fun _ => puts_nothing

theorem LaysOut.then {x y : Printing ε Unit} {s t : String} (h : LaysOut fail depth x s)
    (h' : LaysOut fail depth y t) : LaysOut fail depth (do x; y) (s ++ t) := by
  intro line
  rw [Layout.ofText_append]
  exact (h line).then (h' _)

theorem LaysOut.adapt {x : Printing EmitterError Unit} {s : String} (h : LaysOut id depth x s)
    (g : EmitterError → ε) : LaysOut g depth (x.adapt g) s :=
  fun line => (h line).adapt g

section Prints

open Emitter

theorem puts_put (s : String) : Puts id depth line (put s) s line := by
  constructor
  · intro sink after h
    simp only [put, h]
  · intro sink after cause h
    exact ⟨line, by simp only [put, h]; rfl⟩

theorem puts_setLineStart (last : Bool) : Puts id depth line (setLineStart last) "" last := by
  constructor
  · intro sink after h
    cases (sink.write_empty.symm.trans h)
    rfl
  · intro sink after cause h
    cases (sink.write_empty.symm.trans h)

theorem puts_newline : Puts id depth line newline "\n" true :=
  (puts_put "\n").then (puts_setLineStart true)

theorem puts_putMargin (levels : Nat) : Puts id depth line (putMargin levels) (Layout.margin levels) line := by
  induction levels with
  | zero => exact puts_nothing
  | succ levels ih =>
    rw [Layout.margin_succ]
    exact (puts_put "    ").then ih

theorem puts_startLine : Puts id depth true startLine (Layout.margin depth) false := by
  have h : Puts id depth true (do putMargin depth; setLineStart false) (Layout.margin depth ++ "") false :=
    (puts_putMargin depth).then (puts_setLineStart false)
  rw [String.append_empty] at h
  exact ⟨fun hw => h.all hw, fun hw => h.cut hw⟩

theorem puts_startLine_within : Puts id depth false startLine "" false := by
  have h : Puts id depth false (pure ()) "" false := puts_nothing
  exact ⟨fun hw => h.all hw, fun hw => h.cut hw⟩

theorem laysOut_printLine {l : String} (h : '\n' ∉ l.toList) : LaysOut id depth (printLine l) l := by
  by_cases hl : l = ""
  · subst hl
    exact laysOut_nothing
  · intro line
    rw [printLine, if_pos hl]
    cases line with
    | true =>
      rw [Layout.ofText_line depth hl h]
      exact puts_startLine.then (puts_put l)
    | false =>
      rw [Layout.ofText_within depth h]
      exact puts_startLine_within.then (puts_put l)

theorem laysOut_newline : LaysOut id depth newline (unlines [""]) := fun _ => puts_newline

theorem laysOut_printLines {ls : List String} (h : ∀ l ∈ ls, '\n' ∉ l.toList) :
    LaysOut id depth (printLines ls) ("\n".intercalate ls) := by
  induction ls with
  | nil => exact laysOut_nothing
  | cons l ls ih =>
    obtain ⟨hl, hls⟩ := List.forall_mem_cons.mp h
    cases ls with
    | nil =>
      rw [String.intercalate_singleton]
      exact laysOut_printLine hl
    | cons next rest =>
      rw [String.intercalate_cons_cons, String.append_assoc]
      exact (laysOut_printLine hl).then (laysOut_newline.then (ih hls))

/-- The lines, margins and newlines of a text, each in a write of its own, are one text laid out. -/
theorem laysOut_print (s : String) : LaysOut id depth (print s) s := by
  have h : LaysOut id depth (printLines (lines s)) ("\n".intercalate (lines s)) :=
    laysOut_printLines fun _ => not_mem_of_mem_lines
  rwa [intercalate_lines] at h

theorem laysOut_println (s : String) : LaysOut id depth (println s) (unlines [s]) := by
  rw [unlines_singleton]
  exact (laysOut_print s).then laysOut_newline

end Prints

theorem LaysOut.then_lines {x y : Printing ε Unit} {ls ms : List String}
    (h : LaysOut fail depth x (unlines ls)) (h' : LaysOut fail depth y (unlines ms)) :
    LaysOut fail depth (do x; y) (unlines (ls ++ ms)) := by
  rw [unlines_append]
  exact h.then h'

/-- However many pieces an output has, it is laid out like its text. -/
theorem laysOut_output (o : Output) : LaysOut EmitError.emitter depth o.run o.text := by
  induction o with
  | empty => exact laysOut_nothing
  | piece s =>
    rw [Output.text, Output.onto, String.empty_append]
    exact (laysOut_print s).adapt _
  | both a b iha ihb =>
    rw [Output.text_both]
    exact iha.then ihb

/-- An emission without refusal is laid out like its text. -/
theorem laysOut_run {m : Emission Unit} (h : m.result = .ok ()) :
    LaysOut EmitError.emitter depth m.run m.output.text := by
  have hlays := (laysOut_output m.output).then
    (laysOut_nothing : LaysOut EmitError.emitter depth (pure ()) "")
  rw [String.append_empty] at hlays
  rw [Emission.run, h]
  exact hlays

/-- From the start of a line, lines are put as they are laid out. -/
theorem LaysOut.puts_lines {x : Printing ε Unit} {ls : List String}
    (h : LaysOut fail depth x (unlines ls)) :
    Puts fail depth true x (Layout.ofText depth true (unlines ls)).text true := by
  have hx := h true
  rwa [Layout.atLineStart_unlines] at hx

end Writing

section Refusing

variable {ε : Type} {fail : EmitterError → ε} {depth : Nat} {line mid : Bool} {x : Printing EmitError Unit}
  {cause : Refusal}

theorem Puts.unlimited {x : Printing ε Unit} {text : String} (h : Puts fail depth line x text mid)
    {sink : Sink} (hs : sink.limit = none) : x ⟨sink, depth, line⟩ =
      (.ok (), ⟨{ sink with written := sink.written ++ text.toUTF8 }, depth, mid⟩) := by
  obtain ⟨written, limit, fails⟩ := sink
  cases hs
  exact h.all rfl

/-- Where there is room for everything, the action ends in a refusal. -/
def Refuses (depth : Nat) (line : Bool) (x : Printing EmitError Unit) (cause : Refusal) : Prop :=
  ∀ sink : Sink, sink.limit = none → ∃ after place,
    x ⟨sink, depth, line⟩ = (.error (.refused cause), ⟨after, depth, place⟩)

theorem Refuses.then (h : Refuses depth line x cause) (y : Printing EmitError Unit) :
    Refuses depth line (do x; y) cause := by
  intro sink hs
  obtain ⟨after, place, hx⟩ := h sink hs
  exact ⟨after, place, bind_error hx⟩

theorem Refuses.after {text : String} {y : Printing EmitError Unit}
    (hx : Puts EmitError.emitter depth line x text mid) (h : Refuses depth mid y cause) :
    Refuses depth line (do x; y) cause := by
  intro sink hs
  obtain ⟨after, place, hy⟩ := h { sink with written := sink.written ++ text.toUTF8 } hs
  exact ⟨after, place, (bind_ok (hx.unlimited hs)).trans hy⟩

theorem Refuses.inScope (h : Refuses (depth + 1) line x cause) : Refuses depth line (inScope x) cause := by
  intro sink hs
  obtain ⟨after, place, hx⟩ := h sink hs
  exact ⟨after, place, inScope_eq hx⟩

theorem refuses_throw : Refuses depth line (throw (.refused cause)) cause :=
  fun sink _ => ⟨sink, line, rfl⟩

theorem refuses_run {m : Emission Unit} (h : m.result = .error cause) : Refuses depth line m.run cause := by
  rw [Emission.run, h]
  exact Refuses.after (laysOut_output m.output line) refuses_throw

end Refusing

end ContextCodegen
