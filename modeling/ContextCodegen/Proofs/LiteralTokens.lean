import ContextCodegen.Proofs.FirstImpossible
import ContextCodegen.Proofs.RoundTrip

/-! Literals at the front of a text. A string literal is the first token of the text, with all of its
characters and none behind them, and the text behind it is read as by itself, further on. A number
literal runs to the number, with its bits. -/
namespace ContextCodegen

namespace Target

/-- The lexeme as it stands in a text behind as many bytes. -/
def BadLexeme.behind (size : Nat) (bad : BadLexeme) : BadLexeme := ⟨size + bad.offset, bad.text⟩

def Token.behind (size : Nat) (found : Token × Nat) : Token × Nat := (found.1, size + found.2)

theorem tokensFrom_skip (found : Array (Token × Nat)) (offset : Nat) (cs rest : List Char) :
    tokensFrom found offset cs.length (cs ++ rest) =
      tokensFrom found (offset + (String.ofList cs).utf8ByteSize) 0 rest := by
  induction cs generalizing offset with
  | nil => rfl
  | cons c cs ih =>
    rw [utf8ByteSize_cons, ← Nat.add_assoc, ← ih]
    rfl

/-- A lexeme is one more token at the offset where it starts, and reading goes on behind the last byte of it. -/
theorem tokensFrom_token {c : Char} {cs rest : List Char} {t : Token} (hb : Lexeme.isBlank c = false)
    (hf : Lexeme.find c (cs ++ rest) = ⟨cs.length, some t⟩) (found : Array (Token × Nat)) (offset : Nat) :
    tokensFrom found offset 0 (c :: (cs ++ rest)) =
      tokensFrom (found.push (t, offset)) (offset + (String.ofList (c :: cs)).utf8ByteSize) 0 rest := by
  rw [utf8ByteSize_cons, ← Nat.add_assoc, ← tokensFrom_skip]
  simp [tokensFrom, hb, hf]

theorem tokensFrom_lexeme {c : Char} {cs rest : List Char} {t : Token} (hb : Lexeme.isBlank c = false)
    (hf : Lexeme.find c (cs ++ rest) = ⟨cs.length, some t⟩) :
    tokensFrom #[] 0 0 (c :: (cs ++ rest)) =
      tokensFrom #[(t, 0)] (String.ofList (c :: cs)).utf8ByteSize 0 rest := by
  rw [tokensFrom_token hb hf, Nat.zero_add]
  rfl

/-- What is read of a text does not depend on what was read before it, but for the offsets. -/
theorem tokensFrom_behind (size : Nat) (before found : Array (Token × Nat)) (offset skip : Nat)
    (cs : List Char) :
    tokensFrom (before ++ found.map (Token.behind size)) (size + offset) skip cs =
      ((tokensFrom found offset skip cs).map (before ++ ·.map (Token.behind size))).mapError
        (BadLexeme.behind size) := by
  induction cs generalizing found offset skip with
  | nil => rfl
  | cons c cs ih =>
    by_cases hs : skip ≠ 0
    · simp only [tokensFrom, if_pos hs, Nat.add_assoc, ih]
    · by_cases hb : Lexeme.isBlank c = true
      · simp only [tokensFrom, if_neg hs, if_pos hb, Nat.add_assoc, ih]
      · simp only [tokensFrom, if_neg hs, if_neg hb]
        cases ht : (Lexeme.find c cs).token with
        | none => rfl
        | some t =>
          have hpush : (before ++ found.map (Token.behind size)).push (t, size + offset) =
              before ++ (found.push (t, offset)).map (Token.behind size) := by
            rw [Array.map_push, Array.append_push]
            rfl
          simp only [hpush, Nat.add_assoc, ih]

/-- The text behind the first lexeme of a text is read as by itself. -/
theorem tokenize_lexeme {c : Char} {cs : List Char} {rest : String} {t : Token}
    (hb : Lexeme.isBlank c = false) (hf : Lexeme.find c (cs ++ rest.toList) = ⟨cs.length, some t⟩) :
    tokenize (String.ofList (c :: cs) ++ rest) =
      ((tokenize rest).map ((t, 0) :: ·.map (Token.behind (String.ofList (c :: cs)).utf8ByteSize))).mapError
        (BadLexeme.behind (String.ofList (c :: cs)).utf8ByteSize) := by
  have hrest := tokensFrom_behind (String.ofList (c :: cs)).utf8ByteSize #[(t, 0)] #[] 0 0 rest.toList
  rw [Array.map_empty, Array.append_empty, Nat.add_zero] at hrest
  unfold tokenize
  rw [String.toList_append, String.toList_ofList, List.cons_append, tokensFrom_lexeme hb hf, hrest]
  cases tokensFrom #[] 0 0 rest.toList with
  | error bad => rfl
  | ok found => simp [Except.map, Except.mapError]

end Target

open Target Machine

theorem Binary64.isNaN_ofBits (bits : UInt64) :
    (ofBits bits).isNaN = decide (infinityRank < bits.toNat % signWeight) := by
  unfold ofBits
  simp only
  split_ifs with h
  · exact (decide_eq_true h).symm
  · rw [decide_eq_false h]
    unfold ofRank
    split <;> rfl

/-- A string literal is the first token of every text that starts with it: the lexeme ends where the literal
does, and what follows is read as by itself. The literal of a long runs to the long, and that of a double to
the double with the same bits, but for NaN, which has one pattern. -/
theorem literals_read_back :
    (∀ s rest : String,
      tokensFrom #[] 0 0 (stringLiteral s ++ rest).toList =
        tokensFrom #[(.str s, 0)] (stringLiteral s).utf8ByteSize 0 rest.toList ∧
      tokenize (stringLiteral s ++ rest) =
        ((tokenize rest).map ((.str s, 0) :: ·.map (Token.behind (stringLiteral s).utf8ByteSize))).mapError
          (BadLexeme.behind (stringLiteral s).utf8ByteSize)) ∧
    (∀ (n : Int64) (m : Machine), execute (longLiteral n) m = (.ok (.long n), m)) ∧
    ∀ (bits : UInt64) (m : Machine), ∃ x : Binary64,
      execute (doubleLiteral (.ofBits bits)) m = (.ok (.double x), m) ∧
      x.toBits =
        if Binary64.infinityRank < bits.toNat % Binary64.signWeight then 0x7ff8000000000000 else bits := by
  refine ⟨fun s rest => ?_, fun n m => ?_, fun bits m => ⟨.ofBits bits, ?_, ?_⟩⟩
  · have hfind := find_stringLiteral s rest.toList
    rw [stringLiteral_eq]
    refine ⟨?_, tokenize_lexeme rfl hfind⟩
    rw [String.toList_append, String.toList_ofList, List.cons_append, tokensFrom_lexeme rfl hfind]
  · rw [execute_of_denotes (denotes_longLiteral n), eval_longTerm]
  · rw [execute_of_denotes (denotes_doubleLiteral _), eval_doubleTerm]
  · rw [toBits_ofBits, quietBits, Binary64.isNaN_ofBits]
    simp only [decide_eq_true_eq]

end ContextCodegen
