import ContextCodegen.Binary64.Text
import ContextCodegen.Numeral
import ContextCodegen.Proofs.Rounding

/-! The shortest text of a finite number is a numeral with a fraction or an exponent, and reading
the numeral gives the number back. -/
namespace ContextCodegen.Numeral

def IsDigits (ds : List Char) : Prop := ∀ c ∈ ds, c.isDigit = true

theorem digitsValue_eq (ds : List Char) : digitsValue ds = Nat.ofDigitChars 10 ds 0 := rfl

theorem digitsValue_append (ds es : List Char) :
    digitsValue (ds ++ es) = digitsValue ds * 10 ^ es.length + digitsValue es := by
  simp only [digitsValue_eq, Nat.ofDigitChars_append]
  rw [Nat.ofDigitChars_eq_ofDigitChars_zero, Nat.mul_comm]

theorem digitsValue_toDigits (n : Nat) : digitsValue (Nat.toDigits 10 n) = n :=
  Nat.ofDigitChars_ten_toDigits

theorem digitsValue_zeros (k : Nat) : digitsValue (List.replicate k '0') = 0 := by
  simp [digitsValue_eq]

theorem digitsValue_zero : digitsValue ['0'] = 0 := rfl

theorem isDigits_toDigits (n : Nat) : IsDigits (Nat.toDigits 10 n) :=
  fun _ hc => Nat.isDigit_of_mem_toDigits (by decide) (by decide) hc

theorem isDigits_zeros (k : Nat) : IsDigits (List.replicate k '0') := by
  intro c hc
  rw [List.eq_of_mem_replicate hc]
  rfl

theorem IsDigits.append {ds es : List Char} (hd : IsDigits ds) (he : IsDigits es) :
    IsDigits (ds ++ es) := by
  intro c hc
  exact (List.mem_append.mp hc).elim (hd c) (he c)

theorem isDigits_of_append {ds es : List Char} (h : IsDigits (ds ++ es)) :
    IsDigits ds ∧ IsDigits es :=
  ⟨fun c hc => h c (List.mem_append_left es hc), fun c hc => h c (List.mem_append_right ds hc)⟩

/-- An unsigned numeral that is no integer, with at least one digit in each of its parts. -/
structure Fractional (n : Numeral) : Prop where
  unsigned : n.negative = false
  whole : n.whole ≠ [] ∧ IsDigits n.whole
  fraction : ∀ ds ∈ n.fraction, ds ≠ [] ∧ IsDigits ds
  exponent : ∀ e ∈ n.exponent, e.2 ≠ [] ∧ IsDigits e.2
  marked : n.fraction ≠ none ∨ n.exponent ≠ none

def exponentChars : Option (Bool × List Char) → List Char
  | none => []
  | some (negative, ds) => 'e' :: ((if negative then ['-'] else []) ++ ds)

def fractionChars : Option (List Char) → List Char
  | none => []
  | some ds => '.' :: ds

def chars (n : Numeral) : List Char := n.whole ++ (fractionChars n.fraction ++ exponentChars n.exponent)

def float (n : Numeral) : Binary64 :=
  Binary64.ofDecimal false (decimal n.whole (n.fraction.getD []) n.exponent)

end ContextCodegen.Numeral

namespace ContextCodegen

namespace Decimal

private theorem takeWhile_zeros (ds : List Char) :
    ds.takeWhile (· == '0') = List.replicate (ds.takeWhile (· == '0')).length '0' := by
  apply List.eq_replicate_of_mem
  intro c hc
  exact eq_of_beq (List.all_eq_true.mp List.all_takeWhile c hc)

theorem dropZeros_append (ds : List Char) : ∃ k, ds = dropZeros ds ++ List.replicate k '0' := by
  refine ⟨(ds.reverse.takeWhile (· == '0')).length, ?_⟩
  have h := List.takeWhile_append_dropWhile (p := (· == '0')) (l := ds.reverse)
  rw [takeWhile_zeros] at h
  simpa [dropZeros] using (congrArg List.reverse h).symm

/-- The digits of a decimal carry its coefficient up to zeros at the end. -/
theorem digits_spec (d : Decimal) : ∃ k, Numeral.digitsValue d.digits * 10 ^ k = d.coefficient ∧
    d.digits.length + k = width d.coefficient ∧ Numeral.IsDigits d.digits := by
  obtain ⟨k, hk⟩ := dropZeros_append (Nat.toDigits 10 d.coefficient)
  refine ⟨k, ?_, ?_, ?_⟩
  · have hv := Numeral.digitsValue_toDigits d.coefficient
    rw [hk, Numeral.digitsValue_append, Numeral.digitsValue_zeros] at hv
    simpa [digits] using hv
  · rw [width, hk]
    simp [digits]
  · have hd := Numeral.isDigits_toDigits d.coefficient
    rw [hk] at hd
    exact (Numeral.isDigits_of_append hd).1

theorem digits_ne_nil {d : Decimal} (h : d.coefficient ≠ 0) : d.digits ≠ [] := by
  obtain ⟨k, hv, -, -⟩ := d.digits_spec
  intro he
  rw [he] at hv
  exact h (by simpa [Numeral.digitsValue_eq] using hv.symm)

/-- A decimal reads as its digits do, with the point right behind the last one. -/
theorem ofDecimal_digits (d : Decimal) : Binary64.ofDecimal false d =
    Binary64.ofDecimal false ⟨Numeral.digitsValue d.digits, d.point - d.digits.length⟩ := by
  obtain ⟨k, hv, hl, -⟩ := d.digits_spec
  have he : d.exponent + k = d.point - d.digits.length := by
    rw [point]
    omega
  rw [← he, ← Binary64.ofDecimal_shift, hv]

end Decimal

namespace Binary64
open Numeral

private theorem positional_numeral {digits : List Char} (hn : digits ≠ []) (hd : IsDigits digits)
    (point : Int) : ∃ n : Numeral, n.Fractional ∧ positional digits point = n.chars ∧
      n.float = ofDecimal false ⟨digitsValue digits, point - digits.length⟩ := by
  have fractional (whole fraction : List Char) (hw : whole ≠ []) (hf : fraction ≠ [])
      (hwd : IsDigits whole) (hfd : IsDigits fraction) :
      Fractional ⟨false, whole, some fraction, none⟩ :=
    ⟨rfl, ⟨hw, hwd⟩, by simp [hf, hfd], by simp, by simp⟩
  unfold positional
  split
  · rename_i hp
    refine ⟨⟨false, ['0'], some (zeros (-point).toNat ++ digits), none⟩, ?_, ?_, ?_⟩
    · exact fractional _ _ (by simp) (by simp [hn]) (isDigits_zeros 1) ((isDigits_zeros _).append hd)
    · simp [chars, fractionChars, exponentChars]
    · have hv : digitsValue (['0'] ++ (zeros (-point).toNat ++ digits)) = digitsValue digits := by
        rw [digitsValue_append, digitsValue_append, zeros, digitsValue_zeros, digitsValue_zero]
        simp
      have he : (0 : Int) - (zeros (-point).toNat ++ digits).length = point - digits.length := by
        simp [zeros]
        omega
      simp only [float, decimal, Option.getD_some, hv, he]
  · rename_i hp
    dsimp only
    split
    · rename_i hl
      refine ⟨⟨false, digits ++ zeros (point.toNat - digits.length), some ['0'], none⟩, ?_, ?_, ?_⟩
      · exact fractional _ _ (by simp [hn]) (by simp) (hd.append (isDigits_zeros _)) (isDigits_zeros 1)
      · simp [chars, fractionChars, exponentChars]
      · have hv : digitsValue (digits ++ zeros (point.toNat - digits.length) ++ ['0']) =
            digitsValue digits * 10 ^ (point.toNat - digits.length + 1) := by
          rw [digitsValue_append, digitsValue_append, zeros, digitsValue_zeros, digitsValue_zero]
          simp [Nat.pow_succ, Nat.mul_assoc]
        have he : (0 : Int) - ['0'].length + (point.toNat - digits.length + 1 : Nat) =
            point - digits.length := by
          simp
          omega
        simp only [float, decimal, Option.getD_some, hv, ofDecimal_shift, he]
    · rename_i hl
      have hsplit : digits.take point.toNat ++ digits.drop point.toNat = digits := List.take_append_drop _ _
      obtain ⟨ht, hr⟩ := isDigits_of_append (hsplit.symm ▸ hd)
      refine ⟨⟨false, digits.take point.toNat, some (digits.drop point.toNat), none⟩, ?_, ?_, ?_⟩
      · refine fractional _ _ ?_ ?_ ht hr
        · simp [hn]
          omega
        · simpa using hl
      · simp [chars, fractionChars, exponentChars]
      · have he : (0 : Int) - (digits.drop point.toNat).length = point - digits.length := by
          simp
          omega
        simp only [float, decimal, Option.getD_some, hsplit, he]

private theorem exponentChars_toString (e : Int) :
    exponentChars (some (decide (e < 0), Nat.toDigits 10 e.natAbs)) = 'e' :: (toString e).toList := by
  rw [Int.toString_eq_repr, Int.repr_eq_if]
  by_cases he : 0 ≤ e
  · simp [exponentChars, he, show ¬ e < 0 by omega, show e.natAbs = e.toNat by omega]
  · simp [exponentChars, he, show e < 0 by omega, show e.natAbs = (-e).toNat by omega]

private theorem mantissa_numeral {digits : List Char} (hn : digits ≠ []) (hd : IsDigits digits)
    (e : Int) : ∃ n : Numeral, n.Fractional ∧ mantissa digits ++ 'e' :: (toString e).toList = n.chars ∧
      n.float = ofDecimal false ⟨digitsValue digits, e + 1 - digits.length⟩ := by
  let exponent : Bool × List Char := (decide (e < 0), Nat.toDigits 10 e.natAbs)
  have hexp : exponent.2 ≠ [] ∧ IsDigits exponent.2 := ⟨Nat.toDigits_ne_nil, isDigits_toDigits _⟩
  have hval : signed exponent.1 (digitsValue exponent.2) = e := by
    simp only [exponent, digitsValue_toDigits, signed, decide_eq_true_eq]
    split <;> omega
  match digits, hn, hd with
  | [c], _, hd =>
    refine ⟨⟨false, [c], none, some exponent⟩, ⟨rfl, ⟨by simp, hd⟩, by simp, ?_, by simp⟩, ?_, ?_⟩
    · rintro _ ⟨⟩
      exact hexp
    · rw [← exponentChars_toString]
      rfl
    · simp [float, decimal, hval]
  | c :: c' :: rest, _, hd =>
    obtain ⟨hc, hr⟩ := (isDigits_of_append hd : IsDigits [c] ∧ IsDigits (c' :: rest))
    refine ⟨⟨false, [c], some (c' :: rest), some exponent⟩, ⟨rfl, ⟨by simp, hc⟩, ?_, ?_, by simp⟩, ?_, ?_⟩
    · rintro _ ⟨⟩
      exact ⟨by simp, hr⟩
    · rintro _ ⟨⟩
      exact hexp
    · rw [← exponentChars_toString]
      simp [mantissa, chars, fractionChars, exponent]
    · have he : e - (c' :: rest).length = e + 1 - (c :: c' :: rest).length := by
        simp only [List.length_cons]
        omega
      simp only [float, decimal, Option.getD_some, hval, he]
      rfl

/-- The text of a finite number without sign is a numeral that denotes the number. -/
theorem text_numeral (r : Fin infinityRank) : ∃ n : Numeral, n.Fractional ∧
    (finite false r).text.toList = n.chars ∧ n.float = .finite false r := by
  by_cases hr : r.val = 0
  · have hz : r = ⟨0, by decide⟩ := Fin.ext hr
    subst hz
    have hd : IsDigits ['0'] := isDigits_zeros 1
    refine ⟨⟨false, ['0'], some ['0'], none⟩, ?_, rfl, rfl⟩
    exact ⟨rfl, ⟨by simp, hd⟩, by simp [hd], by simp, by simp⟩
  · have hback : ofDecimal false (shortestDecimal r) = .finite false r := by
      rw [ofDecimal_shortestDecimal, ofRank, dif_pos r.isLt]
    have hc : (shortestDecimal r).coefficient ≠ 0 := by
      intro h
      rw [ofDecimal, if_pos h] at hback
      cases hback
      exact hr rfl
    have hn := Decimal.digits_ne_nil hc
    obtain ⟨-, -, -, hd⟩ := (shortestDecimal r).digits_spec
    rw [Decimal.ofDecimal_digits] at hback
    have ht : (finite false r).text = shortestText r := by simp [text, signText, hr]
    rw [ht, shortestText]
    split
    · obtain ⟨n, hf, hch, hfl⟩ := positional_numeral hn hd (shortestDecimal r).point
      exact ⟨n, hf, by simp [hch], hfl.trans hback⟩
    · obtain ⟨n, hf, hch, hfl⟩ := mantissa_numeral hn hd ((shortestDecimal r).point - 1)
      rw [Int.sub_add_cancel] at hfl
      exact ⟨n, hf, by simpa using hch, hfl.trans hback⟩

end Binary64

end ContextCodegen
