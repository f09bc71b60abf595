import ContextCodegen.Binary64.Decimal
import Mathlib.Tactic.Linarith
import Mathlib.Tactic.Ring

/-! Rounding looks only at the exact value of what it rounds. A decimal may therefore be written
with any number of zeros at its end, and the exact decimal of a number reads back. -/
namespace ContextCodegen.Binary64

theorem nearestRank_mul_right (n d : Nat) {k : Nat} (hk : 0 < k) :
    nearestRank (n * k) (d * k) = nearestRank n d := by
  have hstep (p : Nat) : p * (d * k) = p * d * k := (Nat.mul_assoc p d k).symm
  have hrest (s p : Nat) : n * k - s * (p * d * k) = (n - s * (p * d)) * k := by
    rw [Nat.sub_mul, Nat.mul_assoc s]
  have hlt (a b : Nat) : a * k < 2 * (b * k) ↔ a < 2 * b := by
    rw [← Nat.mul_assoc]
    exact Nat.mul_lt_mul_right hk
  have heq (a b : Nat) : a * k = 2 * (b * k) ↔ a = 2 * b := by
    rw [← Nat.mul_assoc]
    exact Nat.mul_left_inj (Nat.ne_of_gt hk)
  simp only [nearestRank, Nat.mul_div_mul_right n d hk, hstep, hrest, hlt, heq]

theorem nearestRank_congr {n d m e : Nat} (hd : 0 < d) (he : 0 < e) (h : n * e = m * d) :
    nearestRank n d = nearestRank m e := by
  rw [← nearestRank_mul_right n d he, h, Nat.mul_comm d e, nearestRank_mul_right m e hd]

/-- A whole number of units whose significand fits is kept as it is. -/
private theorem nearestRank_exact (m s : Nat) (hs : (m * 2 ^ s).log2 - 52 = s) :
    nearestRank (m * 2 ^ s) 1 = s * fractions + m := by
  have hp : 0 < 2 ^ s := Nat.two_pow_pos s
  simp only [nearestRank, Nat.div_one, Nat.mul_one, hs, Nat.pow_eq, Nat.mul_div_cancel m hp,
    Nat.sub_self, Nat.mul_zero]
  rw [if_neg]
  rintro (h | ⟨h, -⟩) <;> omega

private theorem log2_significand {m s : Nat} (hl : 2 ^ 52 ≤ m) (hu : m < 2 ^ 53) :
    (m * 2 ^ s).log2 - 52 = s := by
  have hl' : 2 ^ (52 + s) ≤ m * 2 ^ s := by
    rw [Nat.pow_add]
    exact Nat.mul_le_mul_right _ hl
  have hu' : m * 2 ^ s < 2 ^ (52 + s + 1) := by
    rw [Nat.add_right_comm, Nat.pow_add]
    exact Nat.mul_lt_mul_of_pos_right hu (Nat.two_pow_pos s)
  have hn : m * 2 ^ s ≠ 0 := by
    have := Nat.two_pow_pos (52 + s)
    omega
  have hlog := (Nat.log2_eq_iff hn).mpr ⟨hl', hu'⟩
  omega

theorem nearestRank_magnitude (rank : Nat) : nearestRank (magnitude rank) 1 = rank := by
  have hf : fractions = 2 ^ 52 := by decide
  by_cases h : rank < fractions
  · have hs : scale rank = 0 := by simp [scale, Nat.div_eq_of_lt h]
    have hlog : rank.log2 - 52 = 0 := by
      by_cases hz : rank = 0
      · simp [hz]
      · have := (Nat.log2_lt hz).mpr (hf ▸ h)
        omega
    have he := nearestRank_exact rank 0 (by simpa using hlog)
    simpa [magnitude, significand, h, hs, Nat.pow_eq] using he
  · have hq : 1 ≤ rank / fractions := (Nat.one_le_div_iff (by decide)).mpr (Nat.le_of_not_lt h)
    have hm : rank % fractions < fractions := Nat.mod_lt _ (by decide)
    have hdiv : fractions * (rank / fractions) + rank % fractions = rank := Nat.div_add_mod _ _
    have hlog := log2_significand (m := fractions + rank % fractions) (s := rank / fractions - 1)
      (by omega) (by omega)
    have he := nearestRank_exact _ _ hlog
    simp only [magnitude, significand, if_neg h, scale, Nat.pow_eq]
    rw [he]
    obtain ⟨q, hq'⟩ : ∃ q, rank / fractions = q + 1 := ⟨rank / fractions - 1, by omega⟩
    rw [hq', Nat.mul_add, Nat.mul_one, Nat.mul_comm] at hdiv
    rw [hq', Nat.add_sub_cancel]
    omega

/-- The nearest rank of a decimal, with no regard to the size of its exponent. -/
def decimalRank (d : Decimal) : Nat :=
  nearestRank (d.coefficient * 10 ^ d.exponent.toNat * unitsPerOne) (10 ^ (-d.exponent).toNat)

private theorem infinite_nearestRank {n k : Nat} (hk : 2098 ≤ k) (h : 2 ^ k ≤ n) :
    infinityRank ≤ nearestRank n 1 := by
  have hn : n ≠ 0 := Nat.ne_of_gt (Nat.lt_of_lt_of_le (Nat.two_pow_pos k) h)
  have hlog : 2098 ≤ n.log2 := hk.trans ((Nat.le_log2 hn).mpr h)
  have hsig : 2 ^ 52 ≤ n / 2 ^ (n.log2 - 52) := by
    rw [Nat.le_div_iff_mul_le (Nat.two_pow_pos _), ← Nat.pow_add, Nat.add_sub_cancel' (by omega)]
    exact Nat.log2_self_le hn
  have hshift : 2046 * fractions ≤ (n.log2 - 52) * fractions := Nat.mul_le_mul_right _ (by omega)
  have hf : fractions = 2 ^ 52 := by decide
  have hi : infinityRank = 2047 * 2 ^ 52 := by decide
  simp only [nearestRank, Nat.div_one, Nat.pow_eq]
  split <;> omega

theorem unitsPerOne_eq {k : Nat} (hk : 1074 = k) : unitsPerOne = 2 ^ k := by
  unfold unitsPerOne
  rw [hk]
  exact Nat.pow_eq

theorem unitsPerOne_pos : 0 < unitsPerOne := by
  obtain ⟨k, hk⟩ : ∃ k, 1074 = k := ⟨_, rfl⟩
  rw [unitsPerOne_eq hk]
  exact Nat.two_pow_pos k

private theorem zero_nearestRank {n d : Nat} (h : 2 * n < d) : nearestRank n d = 0 := by
  have hz : n / d = 0 := Nat.div_eq_of_lt (by omega)
  simp only [nearestRank, hz, Nat.log2_zero, Nat.zero_sub, Nat.zero_div, Nat.zero_mul, Nat.sub_zero,
    Nat.pow_eq, Nat.pow_zero, Nat.one_mul]
  rw [if_neg]
  rintro (h' | ⟨h', -⟩) <;> omega

/-- The exponents settled in advance are settled as rounding would settle them. -/
theorem ofDecimal_eq (negative : Bool) {d : Decimal} (h : d.coefficient ≠ 0) :
    ofDecimal negative d = ofRank negative (decimalRank d) := by
  obtain ⟨c, e⟩ := d
  obtain ⟨k, hk⟩ : ∃ k, 1074 = k := ⟨_, rfl⟩
  simp only [ofDecimal, decimalRank, if_neg h]
  split
  · rename_i hbig
    have hpow : 2 ^ (3 * e.toNat + k) ≤ c * 10 ^ e.toNat * unitsPerOne := by
      have hten : (2 ^ 3) ^ e.toNat ≤ c * 10 ^ e.toNat :=
        (Nat.pow_le_pow_left (by decide) _).trans (Nat.le_mul_of_pos_left _ (Nat.pos_of_ne_zero h))
      calc 2 ^ (3 * e.toNat + k) = (2 ^ 3) ^ e.toNat * unitsPerOne := by
            rw [unitsPerOne_eq hk, Nat.pow_add, Nat.pow_mul]
        _ ≤ c * 10 ^ e.toNat * unitsPerOne := Nat.mul_le_mul_right unitsPerOne hten
    have hinf := infinite_nearestRank (by omega) hpow
    rw [show (-e).toNat = 0 by omega, Nat.pow_zero, ofRank, dif_neg (by omega)]
  · split
    · rename_i hsmall
      have hlog : c < 2 ^ (c.log2 + 1) := Nat.lt_log2_self
      have hzero : nearestRank (c * 10 ^ e.toNat * unitsPerOne) (10 ^ (-e).toNat) = 0 := by
        apply zero_nearestRank
        have hpow : 2 ^ (c.log2 + 1) * unitsPerOne * 2 ≤ 10 ^ (-e).toNat :=
          calc 2 ^ (c.log2 + 1) * unitsPerOne * 2 = 2 ^ (c.log2 + 1 + k + 1) := by
                rw [unitsPerOne_eq hk, ← Nat.pow_add, ← Nat.pow_succ]
            _ ≤ 2 ^ (-e).toNat := Nat.pow_le_pow_right (by decide) (by omega)
            _ ≤ 10 ^ (-e).toNat := Nat.pow_le_pow_left (by decide) _
        have hlt : c * unitsPerOne < 2 ^ (c.log2 + 1) * unitsPerOne :=
          Nat.mul_lt_mul_of_pos_right hlog unitsPerOne_pos
        rw [show e.toNat = 0 by omega, Nat.pow_zero, Nat.mul_one]
        omega
      rw [hzero]
      rfl
    · split
      · rename_i hpos
        rw [show (-e).toNat = 0 by omega, Nat.pow_zero]
        rfl
      · rename_i hneg
        rw [show e.toNat = 0 by omega, Nat.pow_zero, Nat.mul_one]
        rfl

/-- Zeros at the end of a coefficient can be moved into the exponent. -/
theorem ofDecimal_shift (negative : Bool) (c k : Nat) (e : Int) :
    ofDecimal negative ⟨c * 10 ^ k, e⟩ = ofDecimal negative ⟨c, e + k⟩ := by
  by_cases hc : c = 0
  · simp [ofDecimal, hc]
  · have hck : c * 10 ^ k ≠ 0 := Nat.mul_ne_zero hc (Nat.ne_of_gt (Nat.pow_pos (by decide)))
    rw [ofDecimal_eq negative hck, ofDecimal_eq negative hc]
    refine congrArg _ (nearestRank_congr (Nat.pow_pos (by decide)) (Nat.pow_pos (by decide)) ?_)
    have hexp : k + e.toNat + (-(e + k)).toNat = (e + k).toNat + (-e).toNat := by omega
    calc c * 10 ^ k * 10 ^ e.toNat * unitsPerOne * 10 ^ (-(e + k)).toNat
        = c * unitsPerOne * 10 ^ (k + e.toNat + (-(e + k)).toNat) := by ring
      _ = c * unitsPerOne * 10 ^ ((e + k).toNat + (-e).toNat) := by rw [hexp]
      _ = c * 10 ^ (e + k).toNat * unitsPerOne * 10 ^ (-e).toNat := by ring

/-- The exact decimal of a rank has the value of its magnitude. -/
private theorem exactDecimal_rank (rank : Nat) : decimalRank (exactDecimal rank) = rank := by
  obtain ⟨k, hk⟩ : ∃ k, 1074 = k := ⟨_, rfl⟩
  have hmag : magnitude rank = significand rank * 2 ^ scale rank := rfl
  unfold decimalRank exactDecimal
  rw [hk, unitsPerOne_eq hk]
  split
  · rename_i h
    have he : significand rank * Nat.pow 2 (scale rank - k) * 10 ^ (0 : Int).toNat * 2 ^ k =
        magnitude rank := by
      rw [hmag, Nat.pow_eq, Int.toNat_zero, Nat.pow_zero, Nat.mul_one, Nat.mul_assoc, ← Nat.pow_add,
        Nat.sub_add_cancel h]
    simp only [he]
    exact nearestRank_magnitude rank
  · rename_i h
    obtain ⟨j, hj⟩ : ∃ j, k = scale rank + j := ⟨k - scale rank, by omega⟩
    have hexp : ((scale rank : Int) - 1074).toNat = 0 := by omega
    have hneg : (-((scale rank : Int) - 1074)).toNat = j := by omega
    have hfive : k - scale rank = j := by omega
    simp only [hexp, hneg, hfive, Nat.pow_eq, Nat.pow_zero, Nat.mul_one]
    have hten : significand rank * 5 ^ j * 2 ^ k * 1 = magnitude rank * 10 ^ j := by
      rw [hmag, hj, show 10 = 5 * 2 from rfl, mul_pow]
      ring
    rw [nearestRank_congr (Nat.pow_pos (by decide)) (by decide) hten, nearestRank_magnitude]

theorem ofDecimal_exactDecimal (rank : Nat) : ofDecimal false (exactDecimal rank) = ofRank false rank := by
  by_cases h : (exactDecimal rank).coefficient = 0
  · have hr := exactDecimal_rank rank
    have hz : nearestRank 0 (10 ^ (-(exactDecimal rank).exponent).toNat) = 0 :=
      zero_nearestRank (Nat.pow_pos (by decide))
    simp only [decimalRank, h, Nat.zero_mul, hz] at hr
    subst hr
    rw [ofDecimal, if_pos h]
    rfl
  · rw [ofDecimal_eq false h, exactDecimal_rank]

/-- The shortest decimal of a rank reads back as the rank. -/
theorem ofDecimal_shortestDecimal (rank : Nat) :
    ofDecimal false (shortestDecimal rank) = ofRank false rank := by
  simp only [shortestDecimal]
  generalize hs : List.findSome? _ _ = found
  cases found with
  | none => exact ofDecimal_exactDecimal rank
  | some d =>
    obtain ⟨count, -, hc⟩ := List.exists_of_findSome?_eq_some hs
    have hd := List.find?_some hc
    exact eq_of_beq hd

end ContextCodegen.Binary64
