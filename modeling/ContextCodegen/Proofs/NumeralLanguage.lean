import Mathlib.Computability.RegularExpressions
import ContextCodegen.Proofs.Spelling

/-! The texts that denote numbers are a regular language. Scanning takes the longest of them at the front of
a text, behind blanks, and a text is numeric as a whole if only blanks follow. -/
namespace ContextCodegen.Numeral

section Language

open RegularExpression (char)

variable {cs t : List Char}

def oneOf (cs : List Char) : RegularExpression Char := cs.foldr (fun c r => char c + r) 0

def optional (r : RegularExpression Char) : RegularExpression Char := 1 + r

def oneOrMore (r : RegularExpression Char) : RegularExpression Char := r * r.star

def blank : RegularExpression Char := oneOf [' ', '\t', '\n', '\r', '\x0b', '\x0c']

def digit : RegularExpression Char := oneOf ['0', '1', '2', '3', '4', '5', '6', '7', '8', '9']

/-- `[+-]? (D+ (. D*)? | . D+) ([eE] [+-]? D+)?` -/
def grammar : RegularExpression Char :=
  optional (oneOf ['+', '-']) *
    (oneOrMore digit * optional (char '.' * digit.star) + char '.' * oneOrMore digit) *
    optional (oneOf ['e', 'E'] * optional (oneOf ['+', '-']) * oneOrMore digit)

theorem mem_oneOf : t ∈ (oneOf cs).matches' ↔ ∃ c ∈ cs, t = [c] := by
  induction cs with
  | nil => simp [oneOf]
  | cons c cs ih =>
    rw [List.exists_mem_cons_iff, ← ih]
    rfl

theorem mem_star_oneOf : t ∈ (oneOf cs).star.matches' ↔ ∀ c ∈ t, c ∈ cs := by
  rw [RegularExpression.matches'_star, Language.mem_kstar]
  constructor
  · rintro ⟨ts, rfl, hts⟩ c hc
    obtain ⟨u, hu, hc⟩ := List.mem_flatten.mp hc
    obtain ⟨d, hd, rfl⟩ := mem_oneOf.mp (hts u hu)
    exact List.mem_singleton.mp hc ▸ hd
  · intro h
    refine ⟨t.map fun c => [c], by simp [← List.flatMap_def], ?_⟩
    intro u hu
    obtain ⟨c, hc, rfl⟩ := List.mem_map.mp hu
    exact mem_oneOf.mpr ⟨c, h c hc, rfl⟩

theorem mem_oneOrMore_oneOf : t ∈ (oneOrMore (oneOf cs)).matches' ↔ t ≠ [] ∧ ∀ c ∈ t, c ∈ cs := by
  rw [oneOrMore, RegularExpression.matches'_mul, Language.mem_mul]
  constructor
  · rintro ⟨u, hu, v, hv, rfl⟩
    obtain ⟨c, hc, rfl⟩ := mem_oneOf.mp hu
    refine ⟨by simp, fun d hd => ?_⟩
    rcases List.mem_cons.mp hd with rfl | hd
    · exact hc
    · exact mem_star_oneOf.mp hv d hd
  · rintro ⟨hne, h⟩
    obtain ⟨c, v, rfl⟩ := List.exists_cons_of_ne_nil hne
    refine ⟨[c], mem_oneOf.mpr ⟨c, h c List.mem_cons_self, rfl⟩, v, mem_star_oneOf.mpr ?_, rfl⟩
    exact fun d hd => h d (List.mem_cons_of_mem c hd)

theorem isDigit_iff_mem {c : Char} :
    c.isDigit = true ↔ c ∈ ['0', '1', '2', '3', '4', '5', '6', '7', '8', '9'] := by
  have digits : ∀ n < 58, 48 ≤ n → Char.ofNat n ∈ ['0', '1', '2', '3', '4', '5', '6', '7', '8', '9'] := by
    decide
  constructor
  · intro h
    obtain ⟨hl, hu⟩ := Char.isDigit_iff_toNat.mp h
    have hc := digits c.toNat (Nat.lt_succ_of_le hu) hl
    rwa [Char.ofNat_toNat] at hc
  · intro h
    simp only [List.mem_cons, List.not_mem_nil, or_false] at h
    rcases h with rfl | rfl | rfl | rfl | rfl | rfl | rfl | rfl | rfl | rfl <;> rfl

theorem mem_digits : t ∈ digit.star.matches' ↔ IsDigits t := by
  rw [digit, mem_star_oneOf]
  simp only [IsDigits, isDigit_iff_mem]

theorem mem_someDigits : t ∈ (oneOrMore digit).matches' ↔ t ≠ [] ∧ IsDigits t := by
  rw [digit, mem_oneOrMore_oneOf]
  simp only [IsDigits, isDigit_iff_mem]

theorem mem_blanks : t ∈ blank.star.matches' ↔ ∀ c ∈ t, isBlank c = true := by
  rw [blank, mem_star_oneOf]
  simp [isBlank, or_assoc]

end Language

section Parts

theorem mem_sign {t : List Char} :
    t ∈ (optional (oneOf ['+', '-'])).matches' ↔ ∃ negative, SignSpelled t negative := by
  rw [optional, RegularExpression.matches'_add, Language.mem_add, mem_oneOf]
  constructor
  · rintro (rfl | ⟨c, hc, rfl⟩)
    · exact ⟨false, .absent⟩
    · simp only [List.mem_cons, List.not_mem_nil, or_false] at hc
      rcases hc with rfl | rfl
      · exact ⟨false, .plus⟩
      · exact ⟨true, .minus⟩
  · rintro ⟨negative, h⟩
    cases h with
    | absent => exact .inl rfl
    | plus => exact .inr ⟨'+', by simp, rfl⟩
    | minus => exact .inr ⟨'-', by simp, rfl⟩

theorem mem_exponent {t : List Char} :
    t ∈ (optional (oneOf ['e', 'E'] * optional (oneOf ['+', '-']) * oneOrMore digit)).matches' ↔
      ∃ exponent, ExponentSpelled t exponent := by
  rw [optional, RegularExpression.matches'_add, Language.mem_add, RegularExpression.matches'_mul, Language.mem_mul]
  constructor
  · rintro (rfl | ⟨u, hu, ds, hds, rfl⟩)
    · exact ⟨none, .absent⟩
    · obtain ⟨mark, hmark, sign, hsign, rfl⟩ := Language.mem_mul.mp hu
      obtain ⟨c, hc, rfl⟩ := mem_oneOf.mp hmark
      obtain ⟨negative, hsign⟩ := mem_sign.mp hsign
      obtain ⟨hne, hds⟩ := mem_someDigits.mp hds
      exact ⟨some (negative, ds), .mark (by simpa using hc) hsign hne hds⟩
  · rintro ⟨exponent, h⟩
    cases h with
    | absent => exact .inl rfl
    | @mark c sign ds negative hc hsign hne hds =>
      refine .inr ⟨c :: sign, ?_, ds, mem_someDigits.mpr ⟨hne, hds⟩, rfl⟩
      exact Language.mem_mul.mpr ⟨[c], mem_oneOf.mpr ⟨c, by simpa using hc, rfl⟩, sign, mem_sign.mpr ⟨_, hsign⟩, rfl⟩

/-- The digits before an exponent, with a point among them or not. -/
theorem mem_mantissa {t : List Char} :
    t ∈ (oneOrMore digit * optional (.char '.' * digit.star) + .char '.' * oneOrMore digit).matches' ↔
      ∃ whole chars fraction, t = whole ++ chars ∧ IsDigits whole ∧ FractionSpelled chars fraction ∧
        (whole ≠ [] ∨ fraction.getD [] ≠ []) := by
  rw [RegularExpression.matches'_add, Language.mem_add, RegularExpression.matches'_mul,
    RegularExpression.matches'_mul, Language.mem_mul, Language.mem_mul]
  constructor
  · rintro (⟨whole, hw, chars, hf, rfl⟩ | ⟨_, rfl, ds, hds, rfl⟩)
    · obtain ⟨hne, hw⟩ := mem_someDigits.mp hw
      rcases hf with rfl | hf
      · exact ⟨whole, [], none, rfl, hw, .absent, .inl hne⟩
      · obtain ⟨_, rfl, ds, hds, rfl⟩ := Language.mem_mul.mp hf
        exact ⟨whole, '.' :: ds, some ds, rfl, hw, .point (mem_digits.mp hds), .inl hne⟩
    · obtain ⟨hne, hds⟩ := mem_someDigits.mp hds
      exact ⟨[], '.' :: ds, some ds, rfl, by simp [IsDigits], .point hds, .inr hne⟩
  · rintro ⟨whole, chars, fraction, rfl, hw, hf, hne⟩
    by_cases hnil : whole = []
    · subst hnil
      cases hf with
      | absent => simp at hne
      | @point ds hds =>
        exact .inr ⟨['.'], rfl, ds, mem_someDigits.mpr ⟨hne.resolve_left (by simp), hds⟩, rfl⟩
    · refine .inl ⟨whole, mem_someDigits.mpr ⟨hnil, hw⟩, chars, ?_, rfl⟩
      cases hf with
      | absent => exact .inl rfl
      | @point ds hds =>
        exact .inr (Language.mem_mul.mpr ⟨['.'], rfl, ds, mem_digits.mpr hds, rfl⟩)

/-- The language of numerals has the texts that have the parts of one. -/
theorem mem_grammar {t : List Char} : t ∈ grammar.matches' ↔ ∃ n, Spelled t n := by
  rw [grammar, RegularExpression.matches'_mul, Language.mem_mul]
  constructor
  · rintro ⟨u, hu, exponent, he, rfl⟩
    obtain ⟨sign, hs, mantissa, hm, rfl⟩ := Language.mem_mul.mp hu
    obtain ⟨negative, hs⟩ := mem_sign.mp hs
    obtain ⟨whole, chars, fraction, rfl, hw, hf, hne⟩ := mem_mantissa.mp hm
    obtain ⟨exponent', he⟩ := mem_exponent.mp he
    refine ⟨⟨negative, whole, fraction, exponent'⟩, ?_⟩
    simpa using Spelled.parts (n := ⟨negative, whole, fraction, exponent'⟩) hs hw hf he hne
  · rintro ⟨n, h⟩
    cases h with
    | @parts sign fraction exponent _ hs hw hf he hne =>
      refine ⟨sign ++ (n.whole ++ fraction), ?_, exponent, mem_exponent.mpr ⟨_, he⟩, by simp⟩
      exact Language.mem_mul.mpr ⟨sign, mem_sign.mpr ⟨_, hs⟩, n.whole ++ fraction,
        mem_mantissa.mpr ⟨n.whole, fraction, _, rfl, hw, hf, hne⟩, rfl⟩

end Parts

section Reading

variable {s : String} {x : Number} {n : Numeral} {cs p rest : List Char}

/-- The longest numeral, with blanks in front of it, at the front of a text. -/
def Longest (cs p : List Char) : Prop := p <+: cs ∧ p ∈ (blank.star * grammar).matches' ∧
  ∀ q, q <+: cs → q ∈ (blank.star * grammar).matches' → q.length ≤ p.length

theorem mem_blanks_grammar : p ∈ (blank.star * grammar).matches' ↔
    ∃ w t n, (∀ c ∈ w, isBlank c = true) ∧ Spelled t n ∧ w ++ t = p := by
  rw [RegularExpression.matches'_mul, Language.mem_mul]
  constructor
  · rintro ⟨w, hw, t, ht, rfl⟩
    obtain ⟨n, hn⟩ := mem_grammar.mp ht
    exact ⟨w, t, n, mem_blanks.mp hw, hn, rfl⟩
  · rintro ⟨w, t, n, hw, hn, rfl⟩
    exact ⟨w, mem_blanks.mpr hw, t, mem_grammar.mpr ⟨n, hn⟩, rfl⟩

theorem Longest.unique {q : List Char} (hp : Longest cs p) (hq : Longest cs q) : p = q := by
  have hpq := hq.2.2 p hp.1 hp.2.1
  have hqp := hp.2.2 q hq.1 hq.2.1
  exact (List.prefix_of_prefix_length_le hp.1 hq.1 hpq).eq_of_length_le hqp

/-- Scanning finds the longest numeral. -/
theorem scan_longest (h : scan cs = some (n, rest)) : ∃ w t, cs = w ++ (t ++ rest) ∧
    (∀ c ∈ w, isBlank c = true) ∧ Spelled t n ∧ Longest cs (w ++ t) := by
  obtain ⟨w, t, hsplit, hw, ht⟩ := scan_sound h
  have hpre : w ++ t ++ rest = cs := by rw [hsplit, List.append_assoc]
  refine ⟨w, t, hsplit, hw, ht, ⟨rest, hpre⟩, mem_blanks_grammar.mpr ⟨w, t, n, hw, ht, rfl⟩, ?_⟩
  rintro q ⟨rest', hq⟩ hmem
  obtain ⟨w', t', m, hw', ht', rfl⟩ := mem_blanks_grammar.mp hmem
  have hscan := scan_spelled hw' ht' rest'
  rw [← List.append_assoc, hq, h] at hscan
  -- the rest is what is left of the text behind the other numeral
  have hrest : rest = (m.resume rest').2 := congrArg Prod.snd (Option.some.inj hscan)
  have hle : rest.length ≤ rest'.length := hrest ▸ (m.resume_suffix rest').length_le
  have hlen : (w ++ t ++ rest).length = (w' ++ t' ++ rest').length := by rw [hpre, hq]
  simp only [List.length_append] at hlen ⊢
  omega

/-- A text is numeric if it is a numeral with blanks around it. -/
theorem parse?_eq_some_iff : parse? s = some x ↔ ∃ w t w', w ++ t ++ w' = s.toList ∧
    w ∈ blank.star.matches' ∧ t ∈ grammar.matches' ∧ w' ∈ blank.star.matches' ∧
    ∃ n, Spelled t n ∧ n.Denotes x := by
  unfold parse?
  constructor
  · intro h
    split at h
    · rename_i n rest hscan
      obtain ⟨hblank, hx⟩ := Option.ite_none_right_eq_some.mp h
      obtain ⟨w, t, hsplit, hw, ht⟩ := scan_sound hscan
      refine ⟨w, t, rest, by rw [hsplit, List.append_assoc], mem_blanks.mpr hw, mem_grammar.mpr ⟨n, ht⟩, ?_,
        n, ht, ?_⟩
      · exact mem_blanks.mpr (List.all_eq_true.mp hblank)
      · exact number_eq_iff.mp (Option.some.inj hx)
    · cases h
  · rintro ⟨w, t, w', hsplit, hw, -, hw', n, ht, hx⟩
    have hw' := mem_blanks.mp hw'
    have hscan := scan_spelled (mem_blanks.mp hw) ht w'
    rw [← List.append_assoc, hsplit, resume_stops (stops_blanks hw')] at hscan
    simp only [hscan, List.all_eq_true.mpr hw', if_true, number_eq_iff.mpr hx]

/-- The front of a text denotes the number of its longest numeral. -/
theorem parseFront?_eq_some_iff : parseFront? s = some x ↔ ∃ w t, Longest s.toList (w ++ t) ∧
    w ∈ blank.star.matches' ∧ t ∈ grammar.matches' ∧ ∃ n, Spelled t n ∧ n.Denotes x := by
  rw [parseFront?, Option.map_eq_some_iff]
  constructor
  · rintro ⟨⟨n, rest⟩, hscan, hx⟩
    obtain ⟨w, t, -, hw, ht, hlongest⟩ := scan_longest hscan
    exact ⟨w, t, hlongest, mem_blanks.mpr hw, mem_grammar.mpr ⟨n, ht⟩, n, ht, number_eq_iff.mp hx⟩
  · rintro ⟨w, t, hlongest, hw, -, n, ht, hx⟩
    have hw := mem_blanks.mp hw
    obtain ⟨rest, hsplit⟩ := hlongest.1
    have hscan := scan_spelled hw ht rest
    rw [← List.append_assoc, hsplit] at hscan
    rcases hres : n.resume rest with ⟨m, rest'⟩
    rw [hres] at hscan
    obtain ⟨w', t', -, hw', ht', hlongest'⟩ := scan_longest hscan
    have hm : n = m := Spelled.unique hw hw' ht ht' (hlongest.unique hlongest')
    exact ⟨(m, rest'), hscan, number_eq_iff.mpr (hm ▸ hx)⟩

theorem isSome_parse?_iff :
    (parse? s).isSome = true ↔ s.toList ∈ (blank.star * grammar * blank.star).matches' := by
  rw [Option.isSome_iff_exists, RegularExpression.matches'_mul, Language.mem_mul]
  constructor
  · rintro ⟨x, hx⟩
    obtain ⟨w, t, w', hsplit, hw, ht, hw', -⟩ := parse?_eq_some_iff.mp hx
    exact ⟨w ++ t, Language.mem_mul.mpr ⟨w, hw, t, ht, rfl⟩, w', hw', hsplit⟩
  · rintro ⟨p, hp, w', hw', hsplit⟩
    obtain ⟨w, hw, t, ht, rfl⟩ := Language.mem_mul.mp hp
    obtain ⟨n, hn⟩ := mem_grammar.mp ht
    exact ⟨_, parse?_eq_some_iff.mpr ⟨w, t, w', hsplit, hw, ht, hw', n, hn, n.denotes_number⟩⟩

theorem isSome_parseFront?_iff : (parseFront? s).isSome = true ↔
    ∃ p, p <+: s.toList ∧ p ∈ (blank.star * grammar).matches' := by
  rw [parseFront?, Option.isSome_map, Option.isSome_iff_exists]
  constructor
  · rintro ⟨⟨n, rest⟩, hscan⟩
    obtain ⟨w, t, -, -, -, hlongest⟩ := scan_longest hscan
    exact ⟨w ++ t, hlongest.1, hlongest.2.1⟩
  · rintro ⟨p, ⟨rest, hsplit⟩, hp⟩
    obtain ⟨w, t, n, hw, ht, rfl⟩ := mem_blanks_grammar.mp hp
    have hscan := scan_spelled hw ht rest
    rw [← List.append_assoc, hsplit] at hscan
    exact ⟨_, hscan⟩

end Reading

/-- With `N` for numerals and `W` for blanks, a text is numeric exactly if it is in `W* N W*`, and its front is
exactly if some prefix is in `W* N`, of which the longest counts. The number is the integer of the numeral if
that has neither point nor exponent and is in range, and otherwise the float nearest to its decimal. -/
theorem numeric_texts_exact (s : String) :
    ((parse? s).isSome = true ↔ s.toList ∈ (blank.star * grammar * blank.star).matches') ∧
    ((parseFront? s).isSome = true ↔ ∃ p, p <+: s.toList ∧ p ∈ (blank.star * grammar).matches') ∧
    (∀ x, parse? s = some x ↔ ∃ w t w', w ++ t ++ w' = s.toList ∧ w ∈ blank.star.matches' ∧
      t ∈ grammar.matches' ∧ w' ∈ blank.star.matches' ∧ ∃ n, Spelled t n ∧ n.Denotes x) ∧
    ∀ x, parseFront? s = some x ↔ ∃ w t, Longest s.toList (w ++ t) ∧ w ∈ blank.star.matches' ∧
      t ∈ grammar.matches' ∧ ∃ n, Spelled t n ∧ n.Denotes x :=
  ⟨isSome_parse?_iff, isSome_parseFront?_iff, fun _ => parse?_eq_some_iff, fun _ => parseFront?_eq_some_iff⟩

-- a mark that no exponent follows is not part of the numeral
example : parseFront? "\t-1e+" = some (.int (-1)) := by decide

end ContextCodegen.Numeral
