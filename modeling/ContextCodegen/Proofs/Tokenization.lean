import ContextCodegen.Proofs.Lexemes
import ContextCodegen.Proofs.LiteralTokens

/-! A text as blanks and lexemes. A text that is read as tokens is nothing but the lexemes of these tokens, each
the longest where it starts, with blanks around them. Every lexeme by itself is read as its token, and so are
the lexemes with a space between each two. A text that cannot be read is such a text up to the place where the
longest lexeme is no token. -/
namespace ContextCodegen.Target

/-- A lexeme that stands for a token, and the blanks behind it. -/
structure Piece where
  lexeme : List Char
  token : Token
  blanks : List Char
  found : Matches lexeme (some token)
  blank : ∀ c ∈ blanks, Lexeme.isBlank c = true

namespace Piece

def chars (p : Piece) : List Char := p.lexeme ++ p.blanks

def text (ps : List Piece) : List Char := ps.flatMap chars

/-- The tokens of the pieces, each with the byte offset at which its lexeme starts. -/
def placed (offset : Nat) : List Piece → List (Token × Nat)
  | [] => []
  | p :: ps => (p.token, offset) :: placed (offset + (String.ofList p.chars).utf8ByteSize) ps

/-- In front of the text behind the pieces, every lexeme is the longest at its place. -/
inductive Laid (tail : List Char) : List Piece → Prop
  | nil : Laid tail []
  | cons {p : Piece} {ps : List Piece} :
      Longest (p.lexeme ++ (p.blanks ++ (text ps ++ tail))) p.lexeme (some p.token) → Laid tail ps →
      Laid tail (p :: ps)

def spaced (n : Nat) (p : Piece) : Piece :=
  { p with
    blanks := List.replicate n ' '
    blank := fun _ hc => by rw [List.eq_of_mem_replicate hc]; rfl }

def joined : List Piece → List Piece
  | [] => []
  | [p] => [p.spaced 0]
  | p :: q :: ps => p.spaced 1 :: joined (q :: ps)

section Texts

variable {p : Piece} {ps : List Piece} {tail : List Char}

theorem text_cons : text (p :: ps) = p.lexeme ++ (p.blanks ++ text ps) := by
  rw [text, List.flatMap_cons, chars, List.append_assoc]
  rfl

theorem map_fst_placed (offset : Nat) (ps : List Piece) : (placed offset ps).map Prod.fst = ps.map token := by
  induction ps generalizing offset with
  | nil => rfl
  | cons p ps ih => rw [placed, List.map_cons, ih, List.map_cons]

theorem map_token_joined (ps : List Piece) : (joined ps).map token = ps.map token := by
  induction ps with
  | nil => rfl
  | cons p ps ih =>
    cases ps with
    | nil => rfl
    | cons q ps =>
      rw [joined, List.map_cons, ih]
      rfl

theorem text_joined_singleton (p : Piece) : text (joined [p]) = p.lexeme := by
  rw [joined, text_cons]
  simp [spaced, text]

theorem text_joined (ps : List Piece) :
    String.ofList (text (joined ps)) = " ".intercalate (ps.map fun p => String.ofList p.lexeme) := by
  induction ps with
  | nil => rfl
  | cons p ps ih =>
    cases ps with
    | nil => rw [text_joined_singleton, List.map_singleton, String.intercalate_singleton]
    | cons q ps =>
      rw [joined, text_cons, String.ofList_append, String.ofList_append, ih]
      simp only [List.map_cons, String.intercalate_cons_cons, spaced, String.append_assoc]
      rfl

end Texts

section Reading

variable {p : Piece} {ps : List Piece} {w tail : List Char}

theorem tokensFrom_blanks (hw : ∀ c ∈ w, Lexeme.isBlank c = true) (found : Array (Token × Nat)) (offset : Nat)
    (rest : List Char) :
    tokensFrom found offset 0 (w ++ rest) =
      tokensFrom found (offset + (String.ofList w).utf8ByteSize) 0 rest := by
  induction w generalizing offset with
  | nil => rfl
  | cons c w ih =>
    rw [List.forall_mem_cons] at hw
    rw [List.cons_append, tokensFrom, if_neg (by simp), if_pos hw.1, ih hw.2, utf8ByteSize_cons, Nat.add_assoc]

theorem tokensFrom_piece {rest : List Char}
    (h : Longest (p.lexeme ++ (p.blanks ++ rest)) p.lexeme (some p.token)) (found : Array (Token × Nat))
    (offset : Nat) :
    tokensFrom found offset 0 (p.lexeme ++ (p.blanks ++ rest)) =
      tokensFrom (found.push (p.token, offset)) (offset + (String.ofList p.chars).utf8ByteSize) 0 rest := by
  obtain ⟨c, cs, hcs, hc⟩ := p.found.exists_cons
  rw [chars, String.ofList_append, String.utf8ByteSize_append, ← Nat.add_assoc, ← tokensFrom_blanks p.blank]
  rw [hcs] at h ⊢
  exact tokensFrom_token hc h.find_eq found offset

/-- Pieces are read as their tokens, whatever was read before them. -/
theorem Laid.tokensFrom (h : Laid tail ps) (found : Array (Token × Nat)) (offset : Nat) :
    tokensFrom found offset 0 (text ps ++ tail) =
      Target.tokensFrom (found ++ (placed offset ps).toArray) (offset + (String.ofList (text ps)).utf8ByteSize) 0
        tail := by
  induction h generalizing found offset with
  | nil => simp [text, placed]
  | @cons p ps hp _ ih =>
    rw [text_cons, List.append_assoc, List.append_assoc, tokensFrom_piece hp, ih]
    simp only [placed, chars, String.ofList_append, String.utf8ByteSize_append, Nat.add_assoc]
    simp

theorem Laid.cut (h : Laid tail ps) : Laid [] ps := by
  induction h with
  | nil => exact .nil
  | cons hp _ ih =>
    refine .cons ?_ ih
    rw [← List.append_assoc (Piece.blanks _)] at hp
    rw [List.append_nil]
    exact hp.cut

theorem tokenize_pieces (hw : ∀ c ∈ w, Lexeme.isBlank c = true) (h : Laid [] ps) :
    tokenize (String.ofList (w ++ text ps)) = .ok (placed (String.ofList w).utf8ByteSize ps) := by
  have hread := h.tokensFrom #[] (String.ofList w).utf8ByteSize
  rw [List.append_nil] at hread
  rw [tokenize, String.toList_ofList, tokensFrom_blanks hw, Nat.zero_add, hread]
  simp [Target.tokensFrom, Except.map]

/-- Where no token is found behind pieces, reading ends with the lexeme that is found instead. -/
theorem tokenize_refused {c : Char} {rest : List Char} (hw : ∀ c ∈ w, Lexeme.isBlank c = true)
    (h : Laid (c :: rest) ps) (hc : Lexeme.isBlank c = false) (hnone : (Lexeme.find c rest).token = none) :
    tokenize (String.ofList (w ++ (text ps ++ c :: rest))) =
      .error ⟨(String.ofList (w ++ text ps)).utf8ByteSize,
        String.ofList (c :: rest.take (Lexeme.find c rest).more)⟩ := by
  rw [tokenize, String.toList_ofList, tokensFrom_blanks hw, Nat.zero_add, h.tokensFrom, String.ofList_append,
    String.utf8ByteSize_append]
  simp [Target.tokensFrom, hc, hnone, Except.map]

/-- What is found in place of a token is the longest lexeme, if there is a lexeme at all. -/
theorem longest_refused {c : Char} {rest : List Char} (hnone : (Lexeme.find c rest).token = none) :
    Longest (c :: rest) (c :: rest.take (Lexeme.find c rest).more) none ∨
      ∀ s o, Matches s o → ¬ s <+: c :: rest := by
  rcases isLongest_find c rest with ⟨s, hmore, h⟩ | ⟨-, h⟩
  · have hfront := (List.cons_prefix_cons.mp h.front).2
    rw [hmore, ← List.prefix_iff_eq_take.mp hfront]
    exact .inl (hnone ▸ h)
  · exact .inr fun s o hs => h hs

theorem laid_joined (ps : List Piece) : Laid [] (joined ps) := by
  induction ps with
  | nil => exact .nil
  | cons p ps ih =>
    cases ps with
    | nil =>
      refine .cons ?_ .nil
      exact p.found.longest (by simp [spaced, text])
    | cons q ps =>
      refine .cons ?_ ih
      exact p.found.longest (by rintro c ⟨⟩; rfl)

theorem tokenize_lexeme (p : Piece) : tokenize (String.ofList p.lexeme) = .ok [(p.token, 0)] := by
  have h := tokenize_pieces (w := []) (by simp) (laid_joined [p])
  rwa [List.nil_append, text_joined_singleton] at h

/-- Every text is blanks and pieces, up to the end or to a place where no token is found. -/
theorem exists_laid (cs : List Char) : ∃ w ps tail, cs = w ++ (text ps ++ tail) ∧
    (∀ c ∈ w, Lexeme.isBlank c = true) ∧ Laid tail ps ∧
    (tail = [] ∨ ∃ c rest, tail = c :: rest ∧ Lexeme.isBlank c = false ∧ (Lexeme.find c rest).token = none) := by
  induction hn : cs.length using Nat.strong_induction_on generalizing cs with
  | _ n ih =>
    obtain ⟨w, rest, rfl, hw, hrest⟩ := exists_span Lexeme.isBlank cs
    cases rest with
    | nil => exact ⟨w, [], [], rfl, hw, .nil, .inl rfl⟩
    | cons c rest =>
      have hc : Lexeme.isBlank c = false := hrest c rfl
      cases ht : (Lexeme.find c rest).token with
      | none => exact ⟨w, [], c :: rest, rfl, hw, .nil, .inr ⟨c, rest, rfl, hc, ht⟩⟩
      | some t =>
        rcases isLongest_find c rest with ⟨s, -, hlongest⟩ | ⟨hnone, -⟩
        · rw [ht] at hlongest
          obtain ⟨more, rfl⟩ := (List.cons_prefix_cons.mp hlongest.front).2
          have hlt : more.length < n := by
            rw [← hn]
            simp only [List.length_append, List.length_cons]
            omega
          obtain ⟨blanks, ps, tail, rfl, hblanks, hlaid, htail⟩ := ih more.length hlt more rfl
          refine ⟨w, ⟨c :: s, t, blanks, hlongest.found, hblanks⟩ :: ps, tail, ?_, hw, .cons hlongest hlaid, htail⟩
          rw [text_cons, List.append_assoc, List.append_assoc, List.cons_append]
        · exact absurd (ht.symm.trans hnone) (by simp)

/-- How a text is read: as blanks and pieces, or as these in front of a lexeme that is no token. -/
theorem tokenize_cases (source : String) : ∃ w ps, (∀ c ∈ w, Lexeme.isBlank c = true) ∧
    (source.toList = w ++ text ps ∧ Laid [] ps ∧
        tokenize source = .ok (placed (String.ofList w).utf8ByteSize ps) ∨
      ∃ c rest, source.toList = w ++ (text ps ++ c :: rest) ∧ Laid (c :: rest) ps ∧
        (Lexeme.find c rest).token = none ∧
        tokenize source = .error ⟨(String.ofList (w ++ text ps)).utf8ByteSize,
          String.ofList (c :: rest.take (Lexeme.find c rest).more)⟩) := by
  obtain ⟨w, ps, tail, hsource, hw, hlaid, rfl | ⟨c, rest, rfl, hc, hnone⟩⟩ := exists_laid source.toList
  · have hread := tokenize_pieces hw hlaid
    rw [List.append_nil] at hsource
    rw [← hsource, String.ofList_toList] at hread
    exact ⟨w, ps, hw, .inl ⟨hsource, hlaid, hread⟩⟩
  · have hread := tokenize_refused hw hlaid hc hnone
    rw [← hsource, String.ofList_toList] at hread
    exact ⟨w, ps, hw, .inr ⟨c, rest, hsource, hlaid, hnone, hread⟩⟩

theorem exists_pieces {source : String} {found : List (Token × Nat)} (h : tokenize source = .ok found) :
    ∃ w ps, source.toList = w ++ text ps ∧ (∀ c ∈ w, Lexeme.isBlank c = true) ∧ Laid [] ps ∧
      found = placed (String.ofList w).utf8ByteSize ps := by
  obtain ⟨w, ps, hw, ⟨hsource, hlaid, hread⟩ | ⟨_, _, -, -, -, hread⟩⟩ := tokenize_cases source
  · exact ⟨w, ps, hsource, hw, hlaid, Except.ok.inj (h.symm.trans hread)⟩
  · cases h.symm.trans hread

theorem exists_refused {source : String} {bad : BadLexeme} (h : tokenize source = .error bad) :
    ∃ w ps c rest, source.toList = w ++ (text ps ++ c :: rest) ∧ (∀ c ∈ w, Lexeme.isBlank c = true) ∧
      Laid (c :: rest) ps ∧ (Lexeme.find c rest).token = none ∧
      bad = ⟨(String.ofList (w ++ text ps)).utf8ByteSize,
        String.ofList (c :: rest.take (Lexeme.find c rest).more)⟩ := by
  obtain ⟨w, ps, hw, ⟨-, -, hread⟩ | ⟨c, rest, hsource, hlaid, hnone, hread⟩⟩ := tokenize_cases source
  · cases h.symm.trans hread
  · exact ⟨w, ps, c, rest, hsource, hw, hlaid, hnone, Except.error.inj (h.symm.trans hread)⟩

end Reading

end Piece

open Piece

/-- Reading loses nothing. A text that is read is blanks and the lexemes of the tokens found, each at its
offset; each lexeme by itself is read as its token, and the lexemes joined by spaces as the same tokens. A text
that is not read is cut at the offset of the error: what stands before it is read, and there the longest lexeme
is the error's and stands for no token, or there is no lexeme. -/
theorem tokenization_is_lossless (source : String) :
    (∀ found, tokenize source = .ok found → ∃ (w : List Char) (ps : List Piece),
      source.toList = w ++ text ps ∧ (∀ c ∈ w, Lexeme.isBlank c = true) ∧ Laid [] ps ∧
      found = placed (String.ofList w).utf8ByteSize ps ∧
      (∀ p ∈ ps, p.lexeme ≠ [] ∧ tokenize (String.ofList p.lexeme) = .ok [(p.token, 0)]) ∧
      ∃ again, tokenize (" ".intercalate (ps.map fun p => String.ofList p.lexeme)) = .ok again ∧
        again.map Prod.fst = found.map Prod.fst) ∧
    ∀ bad, tokenize source = .error bad → ∃ before rest : String,
      source = before ++ (bad.text ++ rest) ∧ before.utf8ByteSize = bad.offset ∧ bad.text ≠ "" ∧
      (∃ found, tokenize before = .ok found) ∧
      (Longest (bad.text ++ rest).toList bad.text.toList none ∨
        ∀ s o, Matches s o → ¬ s <+: (bad.text ++ rest).toList) := by
  constructor
  · intro found hfound
    obtain ⟨w, ps, hsource, hw, hlaid, rfl⟩ := exists_pieces hfound
    have hagain := tokenize_pieces (w := []) (by simp) (laid_joined ps)
    rw [List.nil_append, text_joined] at hagain
    refine ⟨w, ps, hsource, hw, hlaid, rfl, fun p _ => ⟨?_, p.tokenize_lexeme⟩, _, hagain, ?_⟩
    · obtain ⟨c, cs, hcs, -⟩ := p.found.exists_cons
      exact hcs ▸ List.cons_ne_nil c cs
    · rw [map_fst_placed, map_fst_placed, map_token_joined]
  · intro bad hbad
    obtain ⟨w, ps, c, rest, hsource, hw, hlaid, hnone, rfl⟩ := exists_refused hbad
    have htext : (String.ofList (c :: rest.take (Lexeme.find c rest).more) ++
        String.ofList (rest.drop (Lexeme.find c rest).more)).toList = c :: rest := by
      rw [← String.ofList_append, String.toList_ofList, List.cons_append, List.take_append_drop]
    refine ⟨String.ofList (w ++ text ps), String.ofList (rest.drop (Lexeme.find c rest).more), ?_, rfl, ?_,
      ⟨_, tokenize_pieces hw hlaid.cut⟩, ?_⟩
    · apply String.toList_injective
      rw [hsource, String.toList_append, htext, String.toList_ofList, List.append_assoc]
    · intro hempty
      cases (String.toList_ofList.symm.trans (congrArg String.toList hempty) : c :: _ = [])
    · rw [htext, String.toList_ofList]
      exact longest_refused hnone

/-- A name that starts with a reserved word, a number in front of a name, an escape behind a character of two
bytes; and a long out of range behind a string literal. -/
theorem mixed_texts_are_lossless :
    tokenize "truer\t1.5e\"é\\n\"new" = .ok
      [(.ident "truer", 0), (.double (.ofDecimal false ⟨15, -1⟩), 6), (.ident "e", 9), (.str "é\n", 10), (.new, 16)] ∧
    (∃ (w : List Char) (ps : List Piece), "truer\t1.5e\"é\\n\"new".toList = w ++ text ps ∧
      ps.map token = [.ident "truer", .double (.ofDecimal false ⟨15, -1⟩), .ident "e", .str "é\n", .new] ∧
      ∀ p ∈ ps, p.lexeme ≠ [] ∧ tokenize (String.ofList p.lexeme) = .ok [(p.token, 0)]) ∧
    tokenize "\"é\" 9223372036854775808L" = .error ⟨5, "9223372036854775808L"⟩ ∧
    ∃ before rest : String, "\"é\" 9223372036854775808L" = before ++ ("9223372036854775808L" ++ rest) ∧
      before.utf8ByteSize = 5 ∧ ∃ found, tokenize before = .ok found := by
  have hread : tokenize "truer\t1.5e\"é\\n\"new" = .ok [(.ident "truer", 0),
    (.double (.ofDecimal false ⟨15, -1⟩), 6), (.ident "e", 9), (.str "é\n", 10), (.new, 16)] := rfl
  have hbad : tokenize "\"é\" 9223372036854775808L" = .error ⟨5, "9223372036854775808L"⟩ := rfl
  obtain ⟨w, ps, htext, -, -, hplaced, halone, -⟩ := (tokenization_is_lossless _).1 _ hread
  obtain ⟨before, rest, hsource, hoffset, -, hfound, -⟩ := (tokenization_is_lossless _).2 _ hbad
  refine ⟨hread, ⟨w, ps, htext, ?_, halone⟩, hbad, before, rest, hsource, hoffset, hfound⟩
  rw [← map_fst_placed, ← hplaced]
  rfl

end ContextCodegen.Target
