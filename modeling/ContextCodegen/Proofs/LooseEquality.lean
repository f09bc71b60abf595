import ContextCodegen.Proofs.NumeralLanguage
import ContextCodegen.Value

/-! The laws of loose equality. It is symmetric, and reflexive but for NaN, since no text denotes NaN. An
integer equals its decimal text, whatever blanks are around it. -/
namespace ContextCodegen

namespace Binary64

theorem numEq_comm (x y : Binary64) : x.numEq y = y.numEq x := by
  cases x with
  | nan => cases y <;> rfl
  | infinity s =>
    cases y with
    | infinity t => exact BEq.comm
    | nan | finite t b => rfl
  | finite s a =>
    cases y with
    | finite t b => exact BEq.comm
    | nan | infinity t => rfl

theorem numEq_self_iff {x : Binary64} : x.numEq x = true ↔ x ≠ .nan := by
  cases x <;> simp [numEq]

theorem ofDecimal_ne_nan (negative : Bool) (d : Decimal) : ofDecimal negative d ≠ .nan := by
  have hrank (rank : Nat) : ofRank negative rank ≠ .nan := by
    unfold ofRank
    split <;> simp
  unfold ofDecimal
  split_ifs
  · simp [zero]
  · simp
  · simp [zero]
  · exact hrank _
  · exact hrank _

end Binary64

namespace Number

theorem numEq_comm (x y : Number) : x.numEq y = y.numEq x := by
  cases x with
  | int m =>
    cases y with
    | int n => exact BEq.comm
    | float y => simp only [numEq, Binary64.numEq_comm (int m).toFloat]
  | float x => cases y <;> simp only [numEq, Binary64.numEq_comm (float x).toFloat]

theorem numEq_self_iff {x : Number} : x.numEq x = true ↔ x ≠ .float .nan := by
  cases x with
  | int n => simp [numEq]
  | float x => simpa [numEq, toFloat] using Binary64.numEq_self_iff

end Number

namespace Numeral

theorem parse?_ne_nan (s : String) : parse? s ≠ some (.float .nan) := by
  intro h
  obtain ⟨-, -, -, -, -, -, -, n, -, -, hnan⟩ := parse?_eq_some_iff.mp h
  exact Binary64.ofDecimal_ne_nan _ _ hnan.symm

def ofInteger (i : Int) : Numeral := ⟨decide (i < 0), Nat.toDigits 10 i.natAbs, none, none⟩

theorem spelled_ofInteger (i : Int) : Spelled (toString i).toList (ofInteger i) := by
  have parts {sign : List Char} (hs : SignSpelled sign (decide (i < 0))) :=
    Spelled.parts (n := ofInteger i) hs (isDigits_toDigits _) .absent .absent (.inl Nat.toDigits_ne_nil)
  rw [Int.toString_eq_repr, Int.repr_eq_if]
  by_cases hi : 0 ≤ i
  · have hs : SignSpelled [] (decide (i < 0)) := by
      rw [decide_eq_false (Int.not_lt.mpr hi)]
      exact .absent
    have habs : i.natAbs = i.toNat := by omega
    simpa [hi, ofInteger, habs] using parts hs
  · have hs : SignSpelled ['-'] (decide (i < 0)) := by
      rw [decide_eq_true (Int.not_le.mp hi)]
      exact .minus
    have habs : i.natAbs = (-i).toNat := by omega
    simpa [hi, ofInteger, habs] using parts hs

theorem integer_ofInteger (i : Int) : (ofInteger i).integer = i := by
  simp only [integer, ofInteger, signed, digitsValue_toDigits, decide_eq_true_eq]
  split <;> omega

/-- The decimal text of a word denotes it, whatever blanks are around it. -/
theorem parse?_decimal (n : Int64) {w w' : String} (hw : w.toList ∈ blank.star.matches')
    (hw' : w'.toList ∈ blank.star.matches') : parse? (w ++ toString n.toInt ++ w') = some (.int n) := by
  have hspelled := spelled_ofInteger n.toInt
  have hvalue := integer_ofInteger n.toInt
  rw [parse?_eq_some_iff]
  refine ⟨w.toList, (toString n.toInt).toList, w'.toList, by simp, hw, mem_grammar.mpr ⟨_, hspelled⟩, hw', _,
    hspelled, ⟨rfl, rfl, ?_, ?_⟩, hvalue.symm⟩
  · rw [hvalue]
    exact n.le_toInt
  · rw [hvalue]
    exact n.toInt_lt

end Numeral

namespace Value

/-- Neither null nor a boolean. -/
def IsContent : Value → Prop
  | .null | .bool _ => False
  | .int _ | .float _ | .str _ => True

/-- Numbers are compared if both values are numeric, and texts if not. -/
def contentEq (a b : Value) : Bool :=
  (a.numeric?.bind fun x => b.numeric?.map x.numEq).getD (a.toText == b.toText)

theorem looseEq_content {a b : Value} (ha : a.IsContent) (hb : b.IsContent) :
    a.looseEq b = a.contentEq b := by
  cases a with
  | null | bool p => exact ha.elim
  | int m | float x =>
    cases b with
    | null | bool q => exact hb.elim
    | int n | float y => simp [looseEq, contentEq, numeric?]
    | str t =>
      simp only [looseEq, contentEq, numeric?]
      cases Numeral.parse? t <;> rfl
  | str s =>
    cases b with
    | null | bool q => exact hb.elim
    | int n | float y =>
      simp only [looseEq, contentEq, numeric?]
      cases Numeral.parse? s <;> rfl
    | str t =>
      simp only [looseEq, contentEq, numeric?]
      cases Numeral.parse? s <;> cases Numeral.parse? t <;> rfl

theorem contentEq_comm (a b : Value) : a.contentEq b = b.contentEq a := by
  unfold contentEq
  cases a.numeric? with
  | none => cases b.numeric? <;> exact BEq.comm
  | some x =>
    cases b.numeric? with
    | none => exact BEq.comm
    | some y => exact Number.numEq_comm x y

theorem content_cases (v : Value) : v = .null ∨ (∃ b, v = .bool b) ∨ v.IsContent := by
  cases v with
  | null => exact .inl rfl
  | bool b => exact .inr (.inl ⟨b, rfl⟩)
  | int n | float x | str s => exact .inr (.inr trivial)

theorem looseEq_comm (a b : Value) : a.looseEq b = b.looseEq a := by
  have truth (p : Bool) (v : Value) : (Value.bool p).looseEq v = v.looseEq (.bool p) := by
    cases v with
    | bool q => exact BEq.comm
    | null | int n | float x | str s => rfl
  rcases content_cases a with rfl | ⟨p, rfl⟩ | ha
  · cases b <;> rfl
  · exact truth p b
  · rcases content_cases b with rfl | ⟨q, rfl⟩ | hb
    · cases a <;> rfl
    · exact (truth q a).symm
    · rw [looseEq_content ha hb, looseEq_content hb ha, contentEq_comm]

/-- An integer is compared with the number that a numeric text denotes. -/
theorem looseEq_int_str (n : Int64) {s : String} {x : Number} (h : Numeral.parse? s = some x) :
    (Value.int n).looseEq (.str s) = (Number.int n).numEq x := by
  simp only [looseEq, numeric?, h]

/-- A text that is no number equals itself as a text, and one that is a number denotes no NaN. -/
theorem looseEq_str_self (s : String) : (Value.str s).looseEq (.str s) = true := by
  have hcontent : (Value.str s).IsContent := trivial
  rw [looseEq_content hcontent hcontent, contentEq, numeric?]
  cases hs : Numeral.parse? s with
  | none => exact BEq.rfl
  | some x => exact Number.numEq_self_iff.mpr fun hx => Numeral.parse?_ne_nan s (hx ▸ hs)

theorem looseEq_self_iff (v : Value) : v.looseEq v = true ↔ v ≠ .float .nan := by
  cases v with
  | null => simp [looseEq]
  | bool b => simp [looseEq, truthy]
  | int n => simp [looseEq, numeric?, Number.numEq_self_iff]
  | float x => simp [looseEq, numeric?, Number.numEq_self_iff]
  | str s => simp [looseEq_str_self]

end Value

/-- Loose equality is symmetric. Every value but NaN equals itself, and an integer equals its decimal text with
blanks around it. -/
theorem loose_equality_laws :
    (∀ a b : Value, a.looseEq b = b.looseEq a) ∧
    (∀ v : Value, v.looseEq v = true ↔ v ≠ .float .nan) ∧
    ∀ (n : Int64) (w w' : String), w.toList ∈ Numeral.blank.star.matches' →
      w'.toList ∈ Numeral.blank.star.matches' →
      (Value.int n).looseEq (.str (w ++ toString n.toInt ++ w')) = true := by
  refine ⟨Value.looseEq_comm, Value.looseEq_self_iff, fun n w w' hw hw' => ?_⟩
  rw [Value.looseEq_int_str n (Numeral.parse?_decimal n hw hw'), Number.numEq_self_iff]
  simp

theorem least_word_equals_its_text :
    "\t\x0b".toList ∈ Numeral.blank.star.matches' ∧ " \n".toList ∈ Numeral.blank.star.matches' ∧
      (Value.int Int64.minValue).looseEq (.str ("\t\x0b" ++ "-9223372036854775808" ++ " \n")) = true := by
  have hw : "\t\x0b".toList ∈ Numeral.blank.star.matches' := by decide
  have hw' : " \n".toList ∈ Numeral.blank.star.matches' := by decide
  exact ⟨hw, hw', loose_equality_laws.2.2 Int64.minValue _ _ hw hw'⟩

end ContextCodegen
