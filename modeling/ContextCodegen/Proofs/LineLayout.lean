import ContextCodegen.Proofs.Layout

/-! How an emitter lays out lines. Whatever steps print a text, its lines come out one for one, each behind
the margin of the depth at which its first character is printed, and empty ones empty. -/
namespace ContextCodegen

namespace Layout

def markedLines (ms : List (Char × Nat)) : List (List (Char × Nat)) := ms.splitOnP fun m => m.1 == '\n'

def indented : List (Char × Nat) → String
  | [] => ""
  | m :: ms => margin m.2 ++ plain (m :: ms)

/-- What holds of a last line, and of a line with a newline and more behind it if it holds of that, holds
of all marked characters. -/
theorem line_induction {P : List (Char × Nat) → Prop} (last : ∀ l, (∀ m ∈ l, m.1 ≠ '\n') → P l)
    (more : ∀ l depth ms, (∀ m ∈ l, m.1 ≠ '\n') → P ms → P (l ++ ('\n', depth) :: ms))
    (ms : List (Char × Nat)) : P ms := by
  -- `l` is what the line has in front of the characters that are left
  have behind (l : List (Char × Nat)) (hl : ∀ m ∈ l, m.1 ≠ '\n') : P (l ++ ms) := by
    induction ms generalizing l with
    | nil =>
      rw [List.append_nil]
      exact last l hl
    | cons m ms ih =>
      obtain ⟨c, depth⟩ := m
      by_cases hc : c = '\n'
      · subst hc
        exact more l depth ms hl (ih [] (by simp))
      · rw [List.append_cons]
        apply ih
        intro m hm
        rcases List.mem_append.mp hm with hm | hm
        · exact hl m hm
        · rw [List.mem_singleton.mp hm]
          exact hc
  exact behind [] (by simp)

section Lines

variable {l : List (Char × Nat)}

private theorem markedLines_last (h : ∀ m ∈ l, m.1 ≠ '\n') : markedLines l = [l] :=
  List.splitOnP_eq_singleton fun m hm => beq_false_of_ne (h m hm)

private theorem markedLines_more (h : ∀ m ∈ l, m.1 ≠ '\n') (depth : Nat) (ms : List (Char × Nat)) :
    markedLines (l ++ ('\n', depth) :: ms) = l :: markedLines ms :=
  List.splitOnP_append_cons_of_forall_mem (fun m hm => beq_false_of_ne (h m hm)) _ rfl _

private theorem not_mem_plain (h : ∀ m ∈ l, m.1 ≠ '\n') : '\n' ∉ (plain l).toList := by
  rw [plain, String.toList_ofList, List.mem_map]
  rintro ⟨m, hm, he⟩
  exact h m hm he

private theorem not_mem_indented (h : ∀ m ∈ l, m.1 ≠ '\n') : '\n' ∉ (indented l).toList := by
  cases l with
  | nil => simp [indented]
  | cons m ms =>
    rw [indented, String.toList_append, List.mem_append, margin, String.toList_ofList]
    rintro (hm | hm)
    · exact absurd (List.eq_of_mem_replicate hm) (by decide)
    · exact not_mem_plain h hm

private theorem text_ofMarked_last (h : ∀ m ∈ l, m.1 ≠ '\n') : (ofMarked true l).text = indented l := by
  cases l with
  | nil => rfl
  | cons m ms => rw [ofMarked_line h, indented]

private theorem text_ofMarked_newline (line : Bool) (depth : Nat) (ms : List (Char × Nat)) :
    (ofMarked line (('\n', depth) :: ms)).text = "\n" ++ (ofMarked true ms).text := by
  rw [← List.singleton_append, ofMarked_append]
  rfl

theorem lines_plain (ms : List (Char × Nat)) : lines (plain ms) = (markedLines ms).map plain := by
  induction ms using line_induction with
  | last l hl => rw [markedLines_last hl, lines_of_not_mem (not_mem_plain hl), List.map_singleton]
  | more l depth ms hl ih =>
    have hplain : plain (l ++ ('\n', depth) :: ms) = plain l ++ "\n" ++ plain ms := by
      rw [plain_append, String.append_assoc, ← List.singleton_append, plain_append]
      rfl
    rw [hplain, lines_append_newline (not_mem_plain hl), ih, markedLines_more hl, List.map_cons]

/-- Laid out from the start of a line, every line goes behind the margin of its first character. -/
theorem lines_ofMarked (ms : List (Char × Nat)) :
    lines (ofMarked true ms).text = (markedLines ms).map indented := by
  induction ms using line_induction with
  | last l hl =>
    rw [markedLines_last hl, text_ofMarked_last hl, lines_of_not_mem (not_mem_indented hl), List.map_singleton]
  | more l depth ms hl ih =>
    rw [ofMarked_append, text_ofMarked_newline, text_ofMarked_last hl, ← String.append_assoc,
      lines_append_newline (not_mem_indented hl), ih, markedLines_more hl, List.map_cons]

end Lines

/-- The depth at which the first character of a line is marked. -/
def depthOfLine (ms : List (Char × Nat)) (k : Nat) : Option Nat := do
  let line ← (markedLines ms)[k]?
  let first ← line.head?
  return first.2

/-- A line that is laid out is the line of the text, behind its margin unless it is empty. -/
theorem getElem?_lines_ofMarked {ms : List (Char × Nat)} {k : Nat} {l : String}
    (h : (lines (plain ms))[k]? = some l) :
    (l = "" → (lines (ofMarked true ms).text)[k]? = some "") ∧
      (l ≠ "" → ∃ depth, depthOfLine ms k = some depth ∧
        (lines (ofMarked true ms).text)[k]? = some (margin depth ++ l)) := by
  rw [lines_plain, List.getElem?_map, Option.map_eq_some_iff] at h
  obtain ⟨line, hk, rfl⟩ := h
  rw [lines_ofMarked, List.getElem?_map, hk, Option.map_some, depthOfLine, hk]
  cases line with
  | nil => exact ⟨fun _ => rfl, fun hne => absurd rfl hne⟩
  | cons m ms => exact ⟨fun he => absurd he (by simp [plain]), fun _ => ⟨m.2, rfl, rfl⟩⟩

end Layout

namespace Emitter

section Steps

/-- What an emitter is asked to do at once. -/
inductive Step where
  | print (s : String)
  | println (s : String)
  | newline
  | indent
  | dedent
  deriving DecidableEq, Repr

/-- A step, or a sequence in a scope of its own. -/
inductive Block where
  | step (s : Step)
  | scope (body : List Block)

def Step.perform : Step → Printing EmitterError Unit
  | .print s => Emitter.print s
  | .println s => Emitter.println s
  | .newline => Emitter.newline
  | .indent => modify Emitter.indent
  | .dedent => Emitter.dedent

mutual

def Block.perform : Block → Printing EmitterError Unit
  | .step s => s.perform
  | .scope body => do
    let result ← Emitter.scope (performBlocks body)
    result

/-- Performs blocks in order, up to the first that fails. -/
def performBlocks : List Block → Printing EmitterError Unit
  | [] => pure ()
  | b :: bs => do
    b.perform
    performBlocks bs

end

mutual

/-- The steps of a block. A scope indents before its own steps and dedents behind them. -/
def Block.steps : Block → List Step
  | .step s => [s]
  | .scope body => .indent :: (stepsOf body ++ [.dedent])

def stepsOf : List Block → List Step
  | [] => []
  | b :: bs => b.steps ++ stepsOf bs

end

namespace Step

def text : Step → String
  | .print s => s
  | .println s => s ++ "\n"
  | .newline => "\n"
  | .indent | .dedent => ""

def depthAfter (depth : Nat) : Step → Nat
  | .indent => depth + 1
  | .dedent => depth - 1
  | .print _ | .println _ | .newline => depth

end Step

def textOf (ss : List Step) : String := String.join (ss.map Step.text)

def depthBehind (depth : Nat) (ss : List Step) : Nat := ss.foldl Step.depthAfter depth

def NeverBelowZero (depth : Nat) : List Step → Prop
  | [] => True
  | s :: ss => (s = .dedent → 0 < depth) ∧ NeverBelowZero (s.depthAfter depth) ss

instance decidableNeverBelowZero : (depth : Nat) → (ss : List Step) → Decidable (NeverBelowZero depth ss)
  | _, [] => .isTrue trivial
  | depth, s :: ss =>
    @instDecidableAnd _ _ inferInstance (decidableNeverBelowZero (s.depthAfter depth) ss)

/-- The characters that steps print, each with the depth in force when it is printed. -/
def marked (depth : Nat) : List Step → List (Char × Nat)
  | [] => []
  | s :: ss => Layout.mark depth s.text ++ marked (s.depthAfter depth) ss

theorem neverBelowZero_append (depth : Nat) (ss ts : List Step) : NeverBelowZero depth (ss ++ ts) ↔
    NeverBelowZero depth ss ∧ NeverBelowZero (depthBehind depth ss) ts := by
  induction ss generalizing depth with
  | nil => simp [NeverBelowZero, depthBehind]
  | cons s ss ih =>
    rw [List.cons_append, NeverBelowZero, ih, NeverBelowZero, and_assoc]
    rfl

theorem marked_append (depth : Nat) (ss ts : List Step) :
    marked depth (ss ++ ts) = marked depth ss ++ marked (depthBehind depth ss) ts := by
  induction ss generalizing depth with
  | nil => rfl
  | cons s ss ih =>
    rw [List.cons_append, marked, ih, marked, List.append_assoc]
    rfl

theorem plain_marked (depth : Nat) (ss : List Step) : Layout.plain (marked depth ss) = textOf ss := by
  induction ss generalizing depth with
  | nil => rfl
  | cons s ss ih =>
    have htext : textOf (s :: ss) = s.text ++ textOf ss := String.join_cons
    rw [marked, Layout.plain_append, Layout.plain_mark, ih, htext]

end Steps

section Runs

def behind (e : Emitter) (ss : List Step) : Emitter :=
  let laid := Layout.ofMarked e.atLineStart (marked e.depth ss)
  ⟨{ e.sink with written := e.sink.written ++ laid.text.toUTF8 }, depthBehind e.depth ss, laid.atLineStart⟩

theorem behind_append (e : Emitter) (ss ts : List Step) : e.behind (ss ++ ts) = (e.behind ss).behind ts := by
  simp only [behind, marked_append, Layout.ofMarked_append, depthBehind, List.foldl_append,
    String.toUTF8_eq_toByteArray, String.toByteArray_append, ByteArray.append_assoc]

/-- Steps that print nothing change the depth only. -/
theorem behind_of_marked_nil (e : Emitter) {ss : List Step} (h : marked e.depth ss = []) :
    e.behind ss = { e with depth := depthBehind e.depth ss } := by
  have hempty : e.sink.written ++ "".toUTF8 = e.sink.written := ByteArray.append_empty
  simp only [behind, h, Layout.ofMarked, List.foldl_nil, hempty]

/-- A step that stays at its depth is one write of its text as that is laid out. -/
private theorem behind_of_laysOut {x : Printing EmitterError Unit} {s : Step} (e : Emitter)
    (hs : e.sink.limit = none) (hd : s.depthAfter e.depth = e.depth) (h : LaysOut id e.depth x s.text) :
    x e = (.ok (), e.behind [s]) := by
  have hx := (h e.atLineStart).unlimited hs
  have hmarked : marked e.depth [s] = Layout.mark e.depth s.text := List.append_nil _
  rw [Layout.ofText_eq_ofMarked, ← hmarked] at hx
  refine hx.trans ?_
  simp only [behind, depthBehind, List.foldl_cons, List.foldl_nil, hd]

theorem Step.perform_eq (s : Step) {e : Emitter} (hs : e.sink.limit = none) (h : NeverBelowZero e.depth [s]) :
    s.perform e = (.ok (), e.behind [s]) := by
  cases s with
  | print s => exact behind_of_laysOut e hs rfl (laysOut_print s)
  | println s =>
    apply behind_of_laysOut e hs rfl
    rw [Step.text, ← unlines_singleton]
    exact laysOut_println s
  | newline => exact behind_of_laysOut e hs rfl laysOut_newline
  | indent =>
    rw [behind_of_marked_nil e rfl]
    rfl
  | dedent =>
    have hpos : e.depth ≠ 0 := Nat.ne_of_gt (h.1 rfl)
    rw [behind_of_marked_nil e rfl, Step.perform, Emitter.dedent, if_neg hpos]
    rfl

mutual

theorem Block.perform_eq : (b : Block) → {e : Emitter} → e.sink.limit = none →
    NeverBelowZero e.depth b.steps → b.perform e = (.ok (), e.behind b.steps)
  | .step s, e, hs, h => by
    rw [Block.steps] at h ⊢
    rw [Block.perform]
    exact s.perform_eq hs h
  | .scope body, e, hs, h => by
    rw [Block.steps, NeverBelowZero, neverBelowZero_append] at h
    obtain ⟨-, hin, hout⟩ := h
    have hbody : performBlocks body e.indent = (.ok (), e.indent.behind (stepsOf body)) :=
      performBlocks_eq body hs hin
    have hdedent : Emitter.dedent (e.indent.behind (stepsOf body)) =
        (.ok (), (e.indent.behind (stepsOf body)).behind [.dedent]) := Step.perform_eq .dedent hs hout
    have hindent : e.behind [.indent] = e.indent := behind_of_marked_nil e rfl
    have hscope : Emitter.scope (performBlocks body) e =
        (.ok (.ok ()), e.behind (.indent :: (stepsOf body ++ [.dedent]))) := by
      rw [← List.singleton_append, behind_append, behind_append, hindent]
      simp only [Emitter.scope, hbody, hdedent]
    rw [Block.perform, Block.steps, bind_ok hscope]
    rfl

theorem performBlocks_eq : (bs : List Block) → {e : Emitter} → e.sink.limit = none →
    NeverBelowZero e.depth (stepsOf bs) → performBlocks bs e = (.ok (), e.behind (stepsOf bs))
  | [], e, hs, h => by
    rw [stepsOf, behind_of_marked_nil e rfl, performBlocks]
    rfl
  | b :: bs, e, hs, h => by
    rw [stepsOf, neverBelowZero_append] at h
    rw [performBlocks, stepsOf, behind_append, bind_ok (b.perform_eq hs h.1)]
    exact performBlocks_eq bs hs h.2

end

end Runs

section Cuts

def prints (texts : List String) : List Block := texts.map fun s => .step (.print s)

private theorem stepsOf_prints (texts : List String) : stepsOf (prints texts) = texts.map .print := by
  induction texts with
  | nil => rfl
  | cons s texts ih =>
    rw [prints, List.map_cons, stepsOf, Block.steps, ← prints, ih]
    rfl

private theorem prints_spec (depth : Nat) (texts : List String) :
    NeverBelowZero depth (texts.map .print) ∧ depthBehind depth (texts.map .print) = depth ∧
      marked depth (texts.map .print) = Layout.mark depth (String.join texts) := by
  induction texts with
  | nil => exact ⟨trivial, rfl, rfl⟩
  | cons s texts ih =>
    obtain ⟨hzero, hdepth, hmarked⟩ := ih
    refine ⟨⟨by simp, hzero⟩, hdepth, ?_⟩
    rw [List.map_cons, marked, String.join_cons, Layout.mark_append, Step.text, Step.depthAfter, hmarked]

/-- What is printed in consecutive prints counts as one text. -/
theorem performBlocks_prints (texts : List String) {e : Emitter} (hs : e.sink.limit = none) :
    performBlocks (prints texts) e = Emitter.print (String.join texts) e := by
  obtain ⟨hzero, hdepth, hmarked⟩ := prints_spec e.depth texts
  have hone := Step.perform_eq (.print (String.join texts)) hs ⟨by simp, trivial⟩
  rw [performBlocks_eq _ hs (by rwa [stepsOf_prints]), stepsOf_prints]
  refine Eq.trans ?_ hone.symm
  simp only [behind, hmarked, hdepth, marked, List.append_nil]
  rfl

end Cuts

/-- On a sink with room for everything, blocks that never dedent below zero print a text with as many lines
as their own. An empty line stays empty. Any other goes behind four blanks for each level of the depth in force
when its first character is printed. However a text is cut into consecutive prints, it is written alike and
leaves the same emitter. -/
theorem lines_behind_their_margins (blocks : List Block) (depth : Nat) {sink : Sink} (hs : sink.limit = none)
    (h : NeverBelowZero depth (stepsOf blocks)) :
    (∃ out last, performBlocks blocks ⟨sink, depth, true⟩ =
        (.ok (), ⟨{ sink with written := sink.written ++ out.toUTF8 }, depthBehind depth (stepsOf blocks), last⟩) ∧
      (lines out).length = (lines (textOf (stepsOf blocks))).length ∧
      ∀ k l, (lines (textOf (stepsOf blocks)))[k]? = some l →
        (l = "" → (lines out)[k]? = some "") ∧
        (l ≠ "" → ∃ d, Layout.depthOfLine (marked depth (stepsOf blocks)) k = some d ∧
          (lines out)[k]? = some (String.ofList (List.replicate (4 * d) ' ') ++ l))) ∧
    ∀ texts cut : List String, String.join texts = String.join cut → ∀ e : Emitter, e.sink.limit = none →
      performBlocks (prints texts) e = performBlocks (prints cut) e := by
  constructor
  · refine ⟨(Layout.ofMarked true (marked depth (stepsOf blocks))).text, _, performBlocks_eq blocks hs h, ?_, ?_⟩
    · rw [Layout.lines_ofMarked, ← plain_marked depth, Layout.lines_plain, List.length_map, List.length_map]
    · intro k l hl
      rw [← plain_marked depth] at hl
      exact Layout.getElem?_lines_ofMarked hl
  · intro texts cut hjoin e he
    rw [performBlocks_prints texts he, performBlocks_prints cut he, hjoin]

/-- A scope whose first line is printed in two pieces, at two depths, and whose last line is left open. -/
private def splitLine : List Block :=
  [.step (.println "a"), .scope [.step (.print "b"), .step .indent, .step (.print "c\n\nd"), .step .dedent]]

/-- The depth of the first piece counts for the whole line. -/
theorem first_piece_sets_margin :
    NeverBelowZero 0 (stepsOf splitLine) ∧ textOf (stepsOf splitLine) = "a\nbc\n\nd" ∧
      ∃ out last, performBlocks splitLine {} = (.ok (), ⟨{ written := out.toUTF8 }, 0, last⟩) ∧
        (lines out).length = 4 ∧ (lines out)[1]? = some "    bc" ∧ (lines out)[2]? = some "" ∧
          (lines out)[3]? = some "        d" := by
  have hzero : NeverBelowZero 0 (stepsOf splitLine) := by decide +kernel
  have htext : textOf (stepsOf splitLine) = "a\nbc\n\nd" := by decide +kernel
  have hdepth : depthBehind 0 (stepsOf splitLine) = 0 := by decide +kernel
  have hfirst : Layout.depthOfLine (marked 0 (stepsOf splitLine)) 1 = some 1 := by decide +kernel
  have hlast : Layout.depthOfLine (marked 0 (stepsOf splitLine)) 3 = some 2 := by decide +kernel
  obtain ⟨⟨out, last, hrun, hlength, hline⟩, -⟩ :=
    lines_behind_their_margins splitLine 0 (show ({} : Sink).limit = none from rfl) hzero
  rw [hdepth, ByteArray.empty_append] at hrun
  rw [htext] at hlength hline
  obtain ⟨d, hd, hbc⟩ := (hline 1 "bc" (by decide +kernel)).2 (by decide)
  cases hfirst.symm.trans hd
  obtain ⟨d, hd, hopen⟩ := (hline 3 "d" (by decide +kernel)).2 (by decide)
  cases hlast.symm.trans hd
  exact ⟨hzero, htext, out, last, hrun, hlength, hbc, (hline 2 "" (by decide +kernel)).1 rfl, hopen⟩

end Emitter

end ContextCodegen
