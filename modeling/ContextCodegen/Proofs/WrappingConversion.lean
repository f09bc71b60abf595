import Mathlib.Data.Int.ModEq
import Mathlib.Data.Rat.Floor
import ContextCodegen.Proofs.Rounding
import ContextCodegen.Value

/-! Conversion of floats to words. A float out of the range of words is a whole multiple of 2048, and so
are its remainder and the difference that the conversion forms; each of these is itself a float, so that
nothing is rounded on the way. -/
namespace ContextCodegen

namespace Binary64

section Exactness

/-- A count of units that is the magnitude of a finite number. -/
def Representable (n : Nat) : Prop := ∃ r : Fin infinityRank, magnitude r = n

def HasUnits (x : Binary64) (u : Int) : Prop := ∃ s r, x = .finite s r ∧ units s r = u

variable {x y : Binary64} {u v : Int}

private theorem magnitude_scaled {m : Nat} (s : Nat) (hl : fractions ≤ m) (hu : m < 2 * fractions) :
    magnitude (s * fractions + m) = m * 2 ^ s := by
  obtain ⟨f, rfl⟩ : ∃ f, m = fractions + f := ⟨m - fractions, by omega⟩
  have hf : f < fractions := by omega
  have hsplit : s * fractions + (fractions + f) = fractions * (s + 1) + f := by
    rw [Nat.mul_succ, Nat.mul_comm s, Nat.add_assoc]
  have hdiv : (fractions * (s + 1) + f) / fractions = s + 1 := by
    rw [Nat.mul_add_div (by decide), Nat.div_eq_of_lt hf, Nat.add_zero]
  have hmod : (fractions * (s + 1) + f) % fractions = f := by
    rw [Nat.mul_add_mod, Nat.mod_eq_of_lt hf]
  have hge : ¬ fractions * (s + 1) + f < fractions := by
    rw [Nat.mul_succ]
    omega
  rw [hsplit, magnitude, significand, if_neg hge, scale, hdiv, hmod]
  rfl

private theorem representable_significand {m k : Nat} (hm : m < 2 * fractions) (hk : k ≤ 2045) :
    Representable (m * 2 ^ k) := by
  have hinf : infinityRank = 2047 * fractions := by decide
  induction k generalizing m with
  | zero =>
    refine ⟨⟨m, by omega⟩, ?_⟩
    by_cases h : m < fractions
    · simp [magnitude, significand, scale, h, Nat.div_eq_of_lt h, Nat.pow_eq]
    · have hs := magnitude_scaled 0 (Nat.not_lt.mp h) hm
      rwa [Nat.zero_mul, Nat.zero_add] at hs
  | succ k ih =>
    by_cases h : m < fractions
    · rw [Nat.pow_succ', ← Nat.mul_assoc]
      exact ih (by omega) (by omega)
    · have hlt : (k + 1) * fractions + m < infinityRank := by
        have hmul : (k + 1) * fractions ≤ 2045 * fractions := Nat.mul_le_mul_right _ hk
        omega
      exact ⟨⟨_, hlt⟩, magnitude_scaled (k + 1) (Nat.not_lt.mp h) hm⟩

/-- A count of at most 2^53 is a number at every scale below the greatest. -/
theorem representable_scaled {m k : Nat} (hm : m ≤ 2 * fractions) (hk : k < 2045) :
    Representable (m * 2 ^ k) := by
  rcases Nat.lt_or_eq_of_le hm with hlt | rfl
  · exact representable_significand hlt (Nat.le_of_lt hk)
  · rw [Nat.mul_comm 2, Nat.mul_assoc, ← Nat.pow_succ']
    exact representable_significand (by decide) hk

private theorem natAbs_of_units {s : Bool} {r : Nat} (h : units s r = u) :
    magnitude r = u.natAbs ∧ (if s then -(u.natAbs : Int) else u.natAbs) = u := by
  subst h
  cases s <;> simp [units]

theorem hasUnits_round {n : Nat} {s : Bool} (h : Representable n)
    (hu : (if s then -(n : Int) else n) = u) : HasUnits (ofRank s (nearestRank n 1)) u := by
  obtain ⟨r, rfl⟩ := h
  refine ⟨s, r, ?_, hu⟩
  rw [nearestRank_magnitude, ofRank, dif_pos r.isLt]

theorem hasUnits_ofUnits (h : Representable u.natAbs) : HasUnits (ofUnits u) u := by
  apply hasUnits_round h
  by_cases hn : u < 0
  · rw [if_pos (decide_eq_true hn)]
    omega
  · rw [if_neg (by simpa using hn)]
    omega

theorem HasUnits.neg (hx : HasUnits x u) : HasUnits (-x) (-u) := by
  obtain ⟨s, r, rfl, rfl⟩ := hx
  refine ⟨!s, r, rfl, ?_⟩
  cases s <;> simp [units]

theorem HasUnits.abs (hx : HasUnits x u) : HasUnits x.abs u.natAbs := by
  obtain ⟨s, r, rfl, rfl⟩ := hx
  refine ⟨false, r, rfl, ?_⟩
  cases s <;> simp [units]

theorem HasUnits.add (hx : HasUnits x u) (hy : HasUnits y v) (h : Representable (u + v).natAbs) :
    HasUnits (x + y) (u + v) := by
  obtain ⟨s, a, rfl, rfl⟩ := hx
  obtain ⟨t, b, rfl, rfl⟩ := hy
  change HasUnits (add _ _) _
  by_cases hz : units s a + units t b = 0
  · rw [add, if_pos hz, hz]
    refine ⟨s && t, ⟨0, by decide⟩, rfl, ?_⟩
    cases s && t <;> rfl
  · rw [add, if_neg hz]
    exact hasUnits_ofUnits h

theorem HasUnits.sub (hx : HasUnits x u) (hy : HasUnits y v) (h : Representable (u - v).natAbs) :
    HasUnits (x - y) (u - v) := by
  rw [Int.sub_eq_add_neg] at h ⊢
  exact hx.add hy.neg h

theorem HasUnits.lt_iff (hx : HasUnits x u) (hy : HasUnits y v) : x.lt y = true ↔ u < v := by
  obtain ⟨s, a, rfl, rfl⟩ := hx
  obtain ⟨t, b, rfl, rfl⟩ := hy
  exact decide_eq_true_iff

theorem HasUnits.le_iff (hx : HasUnits x u) (hy : HasUnits y v) : x.le y = true ↔ u ≤ v := by
  rw [le, Bool.or_eq_true, hx.lt_iff hy, Int.le_iff_lt_or_eq]
  obtain ⟨s, a, rfl, rfl⟩ := hx
  obtain ⟨t, b, rfl, rfl⟩ := hy
  rw [numEq, beq_iff_eq]

theorem HasUnits.trunc (hx : HasUnits x u) (h : (unitsPerOne : Int) ∣ u) : HasUnits x.trunc u := by
  obtain ⟨s, r, rfl, hu⟩ := hx
  obtain ⟨hm, hs⟩ := natAbs_of_units hu
  have hwhole : magnitude r / unitsPerOne * unitsPerOne = u.natAbs := by
    rw [hm]
    exact Nat.div_mul_cancel (Int.natCast_dvd.mp h)
  rw [Binary64.trunc, hwhole]
  exact hasUnits_round ⟨r, hm⟩ hs

theorem HasUnits.rem (hx : HasUnits x u) (hy : HasUnits y v) (hv : v ≠ 0)
    (h : Representable (u.tmod v).natAbs) : HasUnits (x.rem y) (u.tmod v) := by
  obtain ⟨s, a, rfl, hu⟩ := hx
  obtain ⟨t, b, rfl, hb⟩ := hy
  obtain ⟨hma, hsa⟩ := natAbs_of_units hu
  obtain ⟨hmb, -⟩ := natAbs_of_units hb
  have hne : b.val ≠ 0 := by
    intro hz
    rw [hz] at hmb
    exact hv (Int.natAbs_eq_zero.mp hmb.symm)
  have hrem : magnitude a % magnitude b = (u.tmod v).natAbs := by
    rw [hma, hmb, Int.natAbs_tmod]
  have hsign : (if s then -((u.tmod v).natAbs : Int) else (u.tmod v).natAbs) = u.tmod v := by
    cases s with
    | false =>
      have hpos : 0 ≤ u := by rw [← hsa]; exact Int.natCast_nonneg _
      exact Int.natAbs_of_nonneg (Int.tmod_nonneg v hpos)
    | true =>
      have hneg : 0 ≤ -u := by rw [← hsa, if_pos rfl, Int.neg_neg]; exact Int.natCast_nonneg _
      have hmod := Int.tmod_nonneg v hneg
      rw [Int.neg_tmod] at hmod
      rw [if_pos rfl, ← Int.natAbs_neg, Int.natAbs_of_nonneg hmod, Int.neg_neg]
  rw [Binary64.rem, if_neg hne, hrem]
  exact hasUnits_round h hsign

theorem HasUnits.remEuclid (hx : HasUnits x u) (hy : HasUnits y v) (hv : 0 < v)
    (ht : Representable (u.tmod v).natAbs) (he : Representable (u % v).natAbs) :
    HasUnits (x.remEuclid y) (u % v) := by
  have hr := hx.rem hy (Int.ne_of_gt hv) ht
  have hzero : HasUnits (zero false) 0 := ⟨false, _, rfl, rfl⟩
  have htmod := Int.tmod_eq_emod (a := u) (b := v)
  have hlt := Int.emod_lt_of_pos u hv
  have hge := Int.emod_nonneg u (Int.ne_of_gt hv)
  unfold Binary64.remEuclid
  by_cases hneg : u.tmod v < 0
  · rw [if_pos ((hr.lt_iff hzero).mpr hneg)]
    have hsum : u.tmod v + v.natAbs = u % v := by
      split_ifs at htmod <;> omega
    rw [← hsum] at he ⊢
    exact hr.add hy.abs he
  · rw [if_neg (fun h => hneg ((hr.lt_iff hzero).mp h))]
    have heq : u.tmod v = u % v := by
      split_ifs at htmod <;> omega
    rwa [heq] at hr

theorem HasUnits.toInt64Clamping (hx : HasUnits x u) (hl : -2 ^ 63 ≤ u.tdiv unitsPerOne)
    (hu : u.tdiv unitsPerOne < 2 ^ 63) : x.toInt64Clamping.toInt = u.tdiv unitsPerOne := by
  obtain ⟨s, r, rfl, h⟩ := hx
  have hwhole : (if s then -((magnitude r / unitsPerOne : Nat) : Int) else (magnitude r / unitsPerOne : Nat)) =
      u.tdiv unitsPerOne := by
    subst h
    cases s with
    | false => exact (Int.ofNat_tdiv _ _).symm
    | true => rw [units, if_pos rfl, if_pos rfl, Int.neg_tdiv, Int.ofNat_tdiv]
  rw [Binary64.toInt64Clamping, hwhole]
  apply Int64.toInt_ofIntClamp
  · rwa [Int64.toInt_minValue]
  · rw [Int64.toInt_maxValue]
    omega

end Exactness

section Conversion

/-- The units of 2048, of which every number out of the range of words has a whole count. -/
def granule : Int := unitsPerOne * 2048

variable {x : Binary64} {u j : Int}

private theorem unitsPerOne_cast_pos : (0 : Int) < unitsPerOne := Int.natCast_pos.mpr unitsPerOne_pos

private theorem granule_pos : 0 < granule := Int.mul_pos unitsPerOne_cast_pos (by decide)

/-- The exponent stays a variable, so that no tactic evaluates the power. -/
private theorem granule_eq {k : Nat} (hk : 1074 = k) : granule = (2 ^ (k + 11) : Nat) := by
  rw [granule, unitsPerOne_eq hk, Nat.pow_add]
  rfl

theorem representable_granule (hj : j.natAbs ≤ 2 ^ 53) : Representable (granule * j).natAbs := by
  obtain ⟨k, hk⟩ : ∃ k, 1074 = k := ⟨_, rfl⟩
  rw [granule_eq hk, Int.natAbs_mul, Int.natAbs_natCast, Nat.mul_comm]
  exact representable_scaled hj (by omega)

private theorem hasUnits_ofInt {n : Int} (hn : n = 2048 * j) (hj : j.natAbs ≤ 2 ^ 53) :
    HasUnits (ofInt n) (granule * j) := by
  have hu : n * unitsPerOne = granule * j := by
    rw [hn, granule, Int.mul_comm, Int.mul_assoc]
  rw [ofInt, hu]
  exact hasUnits_ofUnits (representable_granule hj)

theorem hasUnits_wordHalf : HasUnits wordHalf (granule * 2 ^ 52) := hasUnits_ofInt (by decide) (by decide)

theorem hasUnits_wordCount : HasUnits wordCount (granule * 2 ^ 53) := hasUnits_ofInt (by decide) (by decide)

private theorem significand_lt (rank : Nat) : significand rank < 2 ^ 53 := by
  have hf : fractions = 2 ^ 52 := by decide
  have hm : rank % fractions < fractions := Nat.mod_lt _ (by decide)
  unfold significand
  split <;> omega

/-- A number out of the range of words has no bit below 2048. -/
theorem HasUnits.granule_dvd (hx : HasUnits x u) (h : granule * 2 ^ 52 ≤ u.natAbs) : granule ∣ u := by
  obtain ⟨s, r, rfl, hu⟩ := hx
  obtain ⟨hm, -⟩ := natAbs_of_units hu
  obtain ⟨k, hk⟩ : ∃ k, 1074 = k := ⟨_, rfl⟩
  rw [granule_eq hk] at h ⊢
  apply Int.natCast_dvd.mpr
  rw [← hm, magnitude, Nat.pow_eq]
  by_cases hs : k + 11 ≤ scale r
  · exact Nat.dvd_mul_left_of_dvd (Nat.pow_dvd_pow 2 hs) _
  · have hlt : magnitude r < 2 ^ 53 * 2 ^ scale r :=
      Nat.mul_lt_mul_of_pos_right (significand_lt r) (Nat.two_pow_pos _)
    have hle : 2 ^ 53 * 2 ^ scale r ≤ 2 ^ (k + 11) * 2 ^ 52 := by
      rw [← Nat.pow_add, ← Nat.pow_add]
      exact Nat.pow_le_pow_right (by decide) (by omega)
    rw [← hm] at h
    exact absurd (Nat.lt_of_lt_of_le hlt hle) (Nat.not_lt.mpr (by exact_mod_cast h))

private theorem tdiv_bounds (hl : -(granule * 2 ^ 52) ≤ u) (hu : u < granule * 2 ^ 52) :
    -2 ^ 63 ≤ u.tdiv unitsPerOne ∧ u.tdiv unitsPerOne < 2 ^ 63 := by
  have hone := unitsPerOne_cast_pos
  have hrange : granule * 2 ^ 52 = 2 ^ 63 * unitsPerOne := by
    rw [granule, Int.mul_assoc, Int.mul_comm]
    rfl
  rw [hrange] at hl hu
  rcases Int.le_total 0 u with hpos | hneg
  · rw [Int.tdiv_eq_ediv_of_nonneg hpos]
    have hlt := Int.ediv_lt_of_lt_mul hone hu
    have hge := Int.ediv_nonneg hpos (Int.le_of_lt hone)
    omega
  · obtain ⟨w, rfl⟩ : ∃ w, u = -w := ⟨-u, (Int.neg_neg u).symm⟩
    have hw : 0 ≤ w := by omega
    rw [Int.neg_tdiv, Int.tdiv_eq_ediv_of_nonneg hw]
    have hle := Int.ediv_le_of_le_mul hone (show w ≤ 2 ^ 63 * unitsPerOne by omega)
    have hge := Int.ediv_nonneg hw (Int.le_of_lt hone)
    omega

/-- The reduction into the range of words, none of whose steps rounds. -/
private theorem hasUnits_reduced (hx : HasUnits x (granule * j)) :
    HasUnits (x.trunc.remEuclid wordCount) (granule * (j % 2 ^ 53)) := by
  have htrunc := hx.trunc ⟨2048 * j, Int.mul_assoc _ _ _⟩
  have hmod := Int.mul_emod_mul_of_pos j (2 ^ 53) granule_pos
  have htmod := Int.mul_tmod_mul_of_pos j (2 ^ 53) granule_pos
  rw [← hmod]
  apply htrunc.remEuclid hasUnits_wordCount (Int.mul_pos granule_pos (by decide))
  · rw [htmod]
    apply representable_granule
    have := Int.natAbs_tmod j (2 ^ 53)
    have := Nat.mod_lt j.natAbs (show 0 < (2 ^ 53 : Int).natAbs by decide)
    omega
  · rw [hmod]
    apply representable_granule
    omega

theorem HasUnits.toInt64Wrapping (hx : HasUnits x u) :
    x.toInt64Wrapping.toInt ≡ u.tdiv unitsPerOne [ZMOD 2 ^ 64] := by
  have hfinite : x.isFinite = true := by
    obtain ⟨s, r, rfl, -⟩ := hx
    rfl
  have hlow := hasUnits_wordHalf.neg.le_iff hx
  have hhigh := hx.lt_iff hasUnits_wordHalf
  simp only [Binary64.toInt64Wrapping, hfinite, Bool.not_true, Bool.false_eq_true, if_false, Bool.and_eq_true,
    hlow, hhigh]
  split
  · rename_i hrange
    obtain ⟨hl, hu⟩ := tdiv_bounds hrange.1 hrange.2
    rw [hx.toInt64Clamping hl hu]
  · rename_i hrange
    have hlarge : granule * 2 ^ 52 ≤ u.natAbs := by omega
    obtain ⟨j, rfl⟩ := hx.granule_dvd hlarge
    have hr := hasUnits_reduced hx
    have hhalf := hasUnits_wordHalf.le_iff hr
    rw [Int.mul_le_mul_left granule_pos] at hhalf
    have hdiv (i : Int) : (granule * i).tdiv unitsPerOne = 2048 * i := by
      rw [granule, Int.mul_assoc]
      exact Int.mul_tdiv_cancel_left _ (Int.ne_of_gt unitsPerOne_cast_pos)
    -- what is converted at last is congruent to the number and in range
    have converted {y : Binary64} {i : Int} (hy : HasUnits y (granule * i)) (hl : -2 ^ 52 ≤ i)
        (hu : i < 2 ^ 52) : y.toInt64Clamping.toInt = 2048 * i := by
      rw [hy.toInt64Clamping] <;> rw [hdiv] <;> omega
    rw [hdiv]
    unfold Int.ModEq
    split
    · rename_i hle
      rw [hhalf] at hle
      have hsub : granule * (j % 2 ^ 53) - granule * 2 ^ 53 = granule * (j % 2 ^ 53 - 2 ^ 53) :=
        (Int.mul_sub _ _ _).symm
      have hd := hr.sub hasUnits_wordCount (by rw [hsub]; apply representable_granule; omega)
      rw [hsub] at hd
      rw [converted hd] <;> omega
    · rename_i hlt
      rw [hhalf] at hlt
      rw [converted hr] <;> omega

end Conversion

section Patterns

/-- The exponent field of an interchange pattern; its greatest value is that of infinities and NaN. -/
def exponentField (bits : UInt64) : Nat := bits.toNat / 2 ^ 52 % 2 ^ 11

def fractionField (bits : UInt64) : Nat := bits.toNat % 2 ^ 52

/-- The rational that the pattern of a finite number denotes. -/
def patternValue (bits : UInt64) : ℚ :=
  (if bits.toNat < 2 ^ 63 then 1 else -1) *
    if exponentField bits = 0 then fractionField bits * (2 : ℚ) ^ (-1074 : ℤ)
    else (2 ^ 52 + fractionField bits) * (2 : ℚ) ^ (exponentField bits - 1075 : ℤ)

def wholePart (q : ℚ) : ℤ := if 0 ≤ q then ⌊q⌋ else ⌈q⌉

theorem wholePart_div (u : ℤ) {d : ℕ} (hd : 0 < d) : wholePart (u / d) = u.tdiv d := by
  have hpos : (0 : ℚ) < d := Nat.cast_pos.mpr hd
  have hsign : 0 ≤ (u / d : ℚ) ↔ 0 ≤ u := by
    rw [le_div_iff₀ hpos, zero_mul, Int.cast_nonneg_iff]
  unfold wholePart
  by_cases hu : 0 ≤ u
  · rw [if_pos (hsign.mpr hu), Rat.floor_intCast_div_natCast, Int.tdiv_eq_ediv_of_nonneg hu]
  · rw [if_neg (fun h => hu (hsign.mp h)), Rat.ceil_intCast_div_natCast,
      ← Int.tdiv_eq_ediv_of_nonneg (by omega), Int.neg_tdiv, Int.neg_neg]

private theorem two_zpow_units (e : ℕ) : (2 : ℚ) ^ (e - 1074 : ℤ) = (2 ^ e : ℕ) / unitsPerOne := by
  obtain ⟨k, hk⟩ : ∃ k, 1074 = k := ⟨_, rfl⟩
  have hcast : (1074 : ℤ) = k := by exact_mod_cast hk
  rw [unitsPerOne_eq hk, hcast, zpow_sub₀ (by norm_num), zpow_natCast, zpow_natCast]
  push_cast
  rfl

private theorem magnitude_fields (rank : ℕ) : (magnitude rank : ℚ) / unitsPerOne =
    if rank / 2 ^ 52 = 0 then (rank % 2 ^ 52 : ℕ) * (2 : ℚ) ^ (-1074 : ℤ)
    else (2 ^ 52 + (rank % 2 ^ 52 : ℕ)) * (2 : ℚ) ^ ((rank / 2 ^ 52 : ℕ) - 1075 : ℤ) := by
  have hf : fractions = 2 ^ 52 := by decide
  unfold magnitude significand scale
  rw [hf, Nat.pow_eq]
  split
  · rename_i h
    have hz := two_zpow_units 0
    rw [Nat.cast_zero, Int.zero_sub] at hz
    rw [Nat.div_eq_of_lt h, if_pos rfl, hz, Nat.mod_eq_of_lt h]
    push_cast
    ring
  · rename_i h
    obtain ⟨e, he⟩ : ∃ e, rank / 2 ^ 52 = e + 1 := ⟨rank / 2 ^ 52 - 1, by omega⟩
    have hexp : ((e + 1 : ℕ) - 1075 : ℤ) = e - 1074 := by
      push_cast
      omega
    rw [he, if_neg (Nat.succ_ne_zero e), Nat.add_sub_cancel, hexp, two_zpow_units]
    push_cast
    ring

private theorem exponentField_eq (bits : UInt64) : exponentField bits = bits.toNat % signWeight / 2 ^ 52 := by
  unfold exponentField signWeight
  omega

private theorem fractionField_eq (bits : UInt64) : fractionField bits = bits.toNat % signWeight % 2 ^ 52 := by
  unfold fractionField signWeight
  omega

/-- A pattern below the greatest exponent is that of a finite number, with the rational as its value. -/
theorem hasUnits_ofBits {bits : UInt64} (h : exponentField bits ≠ 2047) :
    ∃ u : ℤ, HasUnits (ofBits bits) u ∧ patternValue bits = u / unitsPerOne := by
  have hlt := bits.toNat_lt
  have hrank : bits.toNat % signWeight < infinityRank := by
    rw [exponentField_eq] at h
    have := Nat.mod_lt bits.toNat (show 0 < signWeight by decide)
    unfold signWeight infinityRank at *
    omega
  have hbits : ofBits bits = .finite (decide (signWeight ≤ bits.toNat)) ⟨_, hrank⟩ := by
    simp only [ofBits, if_neg (Nat.not_lt.mpr (Nat.le_of_lt hrank)), ofRank, dif_pos hrank]
  have hw : signWeight = 2 ^ 63 := by decide
  refine ⟨_, ⟨_, _, hbits, rfl⟩, ?_⟩
  rw [patternValue, exponentField_eq, fractionField_eq, ← magnitude_fields, units]
  by_cases hs : bits.toNat < 2 ^ 63
  · rw [if_pos hs, if_neg (by simpa [hw] using hs), one_mul, Int.cast_natCast]
  · rw [if_neg hs, if_pos (by simpa [hw] using hs), neg_one_mul, Int.cast_neg, Int.cast_natCast, neg_div]

theorem not_isFinite_ofBits {bits : UInt64} (h : exponentField bits = 2047) :
    (ofBits bits).isFinite = false := by
  rw [exponentField_eq] at h
  have hge : ¬ bits.toNat % signWeight < infinityRank := by
    unfold signWeight infinityRank at *
    omega
  unfold ofBits
  simp only [ofRank, dif_neg hge]
  split <;> rfl

end Patterns

end Binary64

open Binary64 in
/-- A float becomes the word that is its whole part modulo 2^64, whatever its size; an infinity or a NaN
becomes zero. The float is given by its pattern, of which the exact value is a rational. -/
theorem float_to_word_wraps (bits : UInt64) :
    (exponentField bits ≠ 2047 → ∀ n : ℤ, (Value.float (.ofBits bits)).toInt64.toInt = n ↔
      (-2 ^ 63 ≤ n ∧ n < 2 ^ 63) ∧ n ≡ wholePart (patternValue bits) [ZMOD 2 ^ 64]) ∧
    (exponentField bits = 2047 → (Value.float (.ofBits bits)).toInt64 = 0) := by
  have hconv : (Value.float (.ofBits bits)).toInt64 = (ofBits bits).toInt64Wrapping := rfl
  rw [hconv]
  constructor
  · intro h n
    obtain ⟨u, hu, hv⟩ := hasUnits_ofBits h
    have hw := hu.toInt64Wrapping
    have hl := (ofBits bits).toInt64Wrapping.le_toInt
    have hlt := (ofBits bits).toInt64Wrapping.toInt_lt
    rw [hv, wholePart_div u unitsPerOne_pos]
    constructor
    · rintro rfl
      exact ⟨⟨hl, hlt⟩, hw⟩
    · rintro ⟨⟨hnl, hnu⟩, hn⟩
      have hsame := hw.trans hn.symm
      unfold Int.ModEq at hsame
      omega
  · intro h
    simp [toInt64Wrapping, not_isFinite_ofBits h]

/-- The greatest number below the least word becomes a positive word. -/
theorem below_least_word_wraps :
    Binary64.exponentField 0xc3e0000000000001 ≠ 2047 ∧
      Binary64.patternValue 0xc3e0000000000001 = -9223372036854777856 ∧
      (Value.float (.ofBits 0xc3e0000000000001)).toInt64.toInt = 9223372036854773760 := by
  have hfinite : Binary64.exponentField 0xc3e0000000000001 ≠ 2047 := by decide
  have hvalue : Binary64.patternValue 0xc3e0000000000001 = -9223372036854777856 := by
    have hexponent : Binary64.exponentField 0xc3e0000000000001 = 1086 := by decide
    have hfraction : Binary64.fractionField 0xc3e0000000000001 = 1 := by decide
    have hsign : ¬ UInt64.toNat 0xc3e0000000000001 < 2 ^ 63 := by decide
    rw [Binary64.patternValue, hexponent, hfraction, if_neg hsign]
    norm_num
  refine ⟨hfinite, hvalue, ((float_to_word_wraps _).1 hfinite _).mpr ⟨by decide, ?_⟩⟩
  have hwhole := Binary64.wholePart_div (-9223372036854777856) Nat.one_pos
  rw [hvalue]
  norm_num at hwhole
  rw [hwhole]
  decide

end ContextCodegen
