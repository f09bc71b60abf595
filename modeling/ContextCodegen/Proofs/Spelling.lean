import Mathlib.Data.List.TakeDrop
import ContextCodegen.Proofs.DecimalText

/-! How numerals are spelled, and how they are scanned. A spelled numeral behind blanks is found by scanning,
which reads it on as far as the text behind it goes, and nothing else is found. -/
namespace ContextCodegen

theorem Number.word?_eq_some_iff {n : Int} {w : Int64} : Number.word? n = some w ↔ w.toInt = n := by
  unfold Number.word?
  constructor
  · intro h
    obtain ⟨⟨hl, hu⟩, ⟨⟩⟩ := Option.ite_none_right_eq_some.mp h
    exact Int64.toInt_ofInt_of_le hl hu
  · rintro rfl
    rw [if_pos ⟨w.le_toInt, w.toInt_lt⟩, Int64.ofInt_toInt]

namespace Numeral

section Spelling

inductive SignSpelled : List Char → Bool → Prop
  | absent : SignSpelled [] false
  | plus : SignSpelled ['+'] false
  | minus : SignSpelled ['-'] true

inductive FractionSpelled : List Char → Option (List Char) → Prop
  | absent : FractionSpelled [] none
  | point {ds : List Char} : IsDigits ds → FractionSpelled ('.' :: ds) (some ds)

inductive ExponentSpelled : List Char → Option (Bool × List Char) → Prop
  | absent : ExponentSpelled [] none
  | mark {c : Char} {sign ds : List Char} {negative : Bool} : c = 'e' ∨ c = 'E' → SignSpelled sign negative →
      ds ≠ [] → IsDigits ds → ExponentSpelled (c :: (sign ++ ds)) (some (negative, ds))

/-- The characters of a numeral, which has a digit before its exponent. -/
inductive Spelled : List Char → Numeral → Prop
  | parts {sign fraction exponent : List Char} {n : Numeral} : SignSpelled sign n.negative → IsDigits n.whole →
      FractionSpelled fraction n.fraction → ExponentSpelled exponent n.exponent →
      (n.whole ≠ [] ∨ n.fraction.getD [] ≠ []) → Spelled (sign ++ (n.whole ++ (fraction ++ exponent))) n

end Spelling

section Scanning

variable {sign ds rest t w : List Char} {negative : Bool} {n : Numeral}

/-- A character that starts the digits of a numeral is neither a blank nor a sign. -/
theorem mantissa_char {c : Char} (h : c.isDigit = true ∨ c = '.') :
    isBlank c = false ∧ c ≠ '+' ∧ c ≠ '-' := by
  rcases h with h | rfl
  · refine ⟨?_, ?_, ?_⟩
    · rw [Bool.eq_false_iff]
      intro hb
      simp only [isBlank, Bool.or_eq_true, beq_iff_eq] at hb
      rcases hb with ((((rfl | rfl) | rfl) | rfl) | rfl) | rfl <;> exact absurd h (by decide)
    · rintro rfl
      exact absurd h (by decide)
    · rintro rfl
      exact absurd h (by decide)
  · decide

theorem takeDigits_append (hd : IsDigits ds) (rest : List Char) :
    takeDigits (ds ++ rest) = (ds ++ (takeDigits rest).1, (takeDigits rest).2) := by
  simp only [takeDigits, List.span_eq_takeWhile_dropWhile, List.takeWhile_append_of_pos hd,
    List.dropWhile_append_of_pos hd]

theorem takeDigits_none (h : ∀ c ∈ rest.head?, c.isDigit = false) : takeDigits rest = ([], rest) := by
  rw [takeDigits, List.span_eq_takeWhile_dropWhile]
  cases rest with
  | nil => rfl
  | cons c rest => simp [h c rfl]

theorem takeSign_spelled (hs : SignSpelled sign negative)
    (h : ∀ c ∈ rest.head?, c ≠ '+' ∧ c ≠ '-') : takeSign (sign ++ rest) = (negative, rest) := by
  cases hs with
  | plus | minus => rfl
  | absent =>
    unfold takeSign
    split <;> simp_all

theorem takeFraction_point (hd : IsDigits ds) (rest : List Char) :
    takeFraction ('.' :: (ds ++ rest)) = (some (ds ++ (takeDigits rest).1), (takeDigits rest).2) := by
  rw [takeFraction, takeDigits_append hd]

theorem takeFraction_none (h : ∀ c ∈ rest.head?, c ≠ '.') : takeFraction rest = (none, rest) := by
  unfold takeFraction
  split <;> simp_all

theorem takeExponent_mark {c : Char} (hc : c = 'e' ∨ c = 'E') (hs : SignSpelled sign negative)
    (hne : ds ≠ []) (hd : IsDigits ds) (rest : List Char) :
    takeExponent (c :: (sign ++ (ds ++ rest))) =
      (some (negative, ds ++ (takeDigits rest).1), (takeDigits rest).2) := by
  have hmark : (c == 'e' || c == 'E') = true := by simpa using hc
  obtain ⟨d, ds, rfl⟩ := List.exists_cons_of_ne_nil hne
  have hhead : ∀ c ∈ (d :: ds ++ rest).head?, c ≠ '+' ∧ c ≠ '-' := by
    rintro _ ⟨⟩
    exact (mantissa_char (.inl (hd d List.mem_cons_self))).2
  have hsign := takeSign_spelled hs hhead
  have hdigits := takeDigits_append hd rest
  rw [List.cons_append] at hsign hdigits
  simp only [takeExponent, hmark, if_true, List.cons_append, hsign, hdigits]

/-- The mark of an exponent is neither a digit nor a point. -/
theorem take_mark {c : Char} (hc : c = 'e' ∨ c = 'E') (rest : List Char) :
    takeDigits (c :: rest) = ([], c :: rest) ∧ takeFraction (c :: rest) = (none, c :: rest) := by
  rcases hc with rfl | rfl <;> exact ⟨takeDigits_none (by rintro _ ⟨⟩; rfl), rfl⟩

theorem takeExponent_none (h : ∀ c ∈ rest.head?, c ≠ 'e' ∧ c ≠ 'E') : takeExponent rest = (none, rest) := by
  cases rest with
  | nil => rfl
  | cons c rest => simp [takeExponent, h c rfl]

theorem mantissa_head {whole fraction : List Char} {f : Option (List Char)} (hw : IsDigits whole)
    (hf : FractionSpelled fraction f) (hne : whole ≠ [] ∨ f.getD [] ≠ []) (rest : List Char) :
    ∃ c tail, whole ++ (fraction ++ rest) = c :: tail ∧ (c.isDigit = true ∨ c = '.') := by
  cases whole with
  | cons c whole => exact ⟨c, _, rfl, .inl (hw c List.mem_cons_self)⟩
  | nil =>
    cases hf with
    | absent => simp at hne
    | point hd => exact ⟨'.', _, rfl, .inr rfl⟩

/-- A numeral that is read on in the text behind it. -/
def resume (n : Numeral) (rest : List Char) : Numeral × List Char :=
  match n.fraction, n.exponent with
  | none, none =>
    let (ds, rest) := takeDigits rest
    let (fraction, rest) := takeFraction rest
    let (exponent, rest) := takeExponent rest
    (⟨n.negative, n.whole ++ ds, fraction, exponent⟩, rest)
  | some fs, none =>
    let (ds, rest) := takeDigits rest
    let (exponent, rest) := takeExponent rest
    (⟨n.negative, n.whole, some (fs ++ ds), exponent⟩, rest)
  | fraction, some (negative, es) =>
    let (ds, rest) := takeDigits rest
    (⟨n.negative, n.whole, fraction, some (negative, es ++ ds)⟩, rest)

def scanUnsigned (negative : Bool) (cs : List Char) : Option (Numeral × List Char) :=
  let whole := takeDigits cs
  let fraction := takeFraction whole.2
  let exponent := takeExponent fraction.2
  if whole.1.isEmpty && (fraction.1.getD []).isEmpty then none
  else some (⟨negative, whole.1, fraction.1, exponent.1⟩, exponent.2)

theorem scan_eq (cs : List Char) : scan cs =
    scanUnsigned (takeSign (cs.dropWhile isBlank)).1 (takeSign (cs.dropWhile isBlank)).2 := rfl

/-- Blanks and sign end where the digits start. -/
theorem scan_signed (hw : ∀ c ∈ w, isBlank c = true) (hs : SignSpelled sign negative) {c : Char}
    (hc : c.isDigit = true ∨ c = '.') (tail : List Char) :
    scan (w ++ (sign ++ c :: tail)) = scanUnsigned negative (c :: tail) := by
  obtain ⟨hblank, hsign⟩ := mantissa_char hc
  have hdrop : (w ++ (sign ++ c :: tail)).dropWhile isBlank = sign ++ c :: tail := by
    rw [List.dropWhile_append_of_pos hw]
    cases hs with
    | plus | minus => rfl
    | absent => simp [hblank]
  have htake : takeSign (sign ++ c :: tail) = (negative, c :: tail) := by
    apply takeSign_spelled hs
    rintro _ ⟨⟩
    exact hsign
  rw [scan_eq, hdrop, htake]

theorem scanUnsigned_spelled {fraction exponent : List Char} (hw : IsDigits n.whole)
    (hf : FractionSpelled fraction n.fraction) (he : ExponentSpelled exponent n.exponent)
    (hne : n.whole ≠ [] ∨ n.fraction.getD [] ≠ []) (rest : List Char) :
    scanUnsigned n.negative (n.whole ++ (fraction ++ (exponent ++ rest))) = some (n.resume rest) := by
  have hpoint (rest : List Char) : takeDigits ('.' :: rest) = ([], '.' :: rest) :=
    takeDigits_none (by rintro _ ⟨⟩; rfl)
  obtain ⟨negative, whole, f, e⟩ := n
  simp only at hw hf he hne ⊢
  cases hf with
  | absent =>
    have hne : whole ≠ [] := hne.resolve_right (by simp)
    cases he with
    | absent => simp [scanUnsigned, takeDigits_append hw, hne, resume]
    | mark hmark hs hds hd =>
      obtain ⟨hdigits, hfraction⟩ := forall_and.mp (take_mark hmark)
      simp [scanUnsigned, takeDigits_append hw, hdigits, hfraction, takeExponent_mark hmark hs hds hd, hne,
        resume]
  | @point fs hfs =>
    have hne (more : List Char) : whole = [] → fs = [] → more ≠ [] := fun hw hf =>
      absurd hf (hne.resolve_left (by simp [hw]))
    cases he with
    | absent =>
      simpa [scanUnsigned, takeDigits_append hw, hpoint, takeFraction_point hfs, resume] using hne _
    | mark hmark hs hds hd =>
      obtain ⟨hdigits, -⟩ := forall_and.mp (take_mark hmark)
      simpa [scanUnsigned, takeDigits_append hw, hpoint, hdigits, takeFraction_point hfs,
        takeExponent_mark hmark hs hds hd, resume] using hne []

/-- A spelled numeral behind blanks is scanned, and read on in the text behind it. -/
theorem scan_spelled (hw : ∀ c ∈ w, isBlank c = true) (h : Spelled t n) (rest : List Char) :
    scan (w ++ (t ++ rest)) = some (n.resume rest) := by
  cases h with
  | parts hs hwhole hf he hne =>
    obtain ⟨c, tail, hbody, hc⟩ := mantissa_head hwhole hf hne _
    have hscan := scanUnsigned_spelled hwhole hf he hne rest
    simp only [List.append_assoc]
    rw [hbody] at hscan ⊢
    rw [scan_signed hw hs hc, hscan]

theorem takeSign_sound (cs : List Char) :
    ∃ sign, cs = sign ++ (takeSign cs).2 ∧ SignSpelled sign (takeSign cs).1 := by
  unfold takeSign
  split
  · exact ⟨['-'], rfl, .minus⟩
  · exact ⟨['+'], rfl, .plus⟩
  · exact ⟨[], rfl, .absent⟩

theorem takeDigits_sound (cs : List Char) :
    cs = (takeDigits cs).1 ++ (takeDigits cs).2 ∧ IsDigits (takeDigits cs).1 := by
  rw [takeDigits, List.span_eq_takeWhile_dropWhile]
  exact ⟨List.takeWhile_append_dropWhile.symm, List.all_eq_true.mp List.all_takeWhile⟩

theorem takeFraction_sound (cs : List Char) :
    ∃ chars, cs = chars ++ (takeFraction cs).2 ∧ FractionSpelled chars (takeFraction cs).1 := by
  unfold takeFraction
  split
  · rename_i cs
    obtain ⟨hsplit, hd⟩ := takeDigits_sound cs
    exact ⟨'.' :: (takeDigits cs).1, congrArg ('.' :: ·) hsplit, .point hd⟩
  · exact ⟨[], rfl, .absent⟩

theorem takeExponent_sound (cs : List Char) :
    ∃ chars, cs = chars ++ (takeExponent cs).2 ∧ ExponentSpelled chars (takeExponent cs).1 := by
  cases cs with
  | nil => exact ⟨[], rfl, .absent⟩
  | cons c cs =>
    by_cases hc : (c == 'e' || c == 'E') = true
    · obtain ⟨sign, hsplit, hsign⟩ := takeSign_sound cs
      obtain ⟨hdigits, hd⟩ := takeDigits_sound (takeSign cs).2
      rcases htake : takeDigits (takeSign cs).2 with ⟨_ | ⟨d, ds⟩, rest⟩
      · exact ⟨[], by simp [takeExponent, hc, htake], by simpa [takeExponent, hc, htake] using .absent⟩
      · rw [htake] at hdigits hd
        refine ⟨c :: (sign ++ d :: ds), ?_, ?_⟩
        · rw [hdigits] at hsplit
          simpa [takeExponent, hc, htake] using hsplit
        · have hspelled := ExponentSpelled.mark (c := c) (by simpa using hc) hsign (List.cons_ne_nil d ds) hd
          simpa [takeExponent, hc, htake] using hspelled
    · exact ⟨[], by simp [takeExponent, hc], by simpa [takeExponent, hc] using .absent⟩

theorem scanUnsigned_sound {cs : List Char} (h : scanUnsigned negative cs = some (n, rest)) :
    ∃ fraction exponent, cs = n.whole ++ (fraction ++ (exponent ++ rest)) ∧ n.negative = negative ∧
      IsDigits n.whole ∧ FractionSpelled fraction n.fraction ∧ ExponentSpelled exponent n.exponent ∧
      (n.whole ≠ [] ∨ n.fraction.getD [] ≠ []) := by
  obtain ⟨hwhole, hw⟩ := takeDigits_sound cs
  obtain ⟨fraction, hfraction, hf⟩ := takeFraction_sound (takeDigits cs).2
  obtain ⟨exponent, hexponent, he⟩ := takeExponent_sound (takeFraction (takeDigits cs).2).2
  unfold scanUnsigned at h
  obtain ⟨hne, h⟩ := Option.ite_none_left_eq_some.mp h
  obtain ⟨rfl, rfl⟩ := Prod.mk.inj (Option.some.inj h)
  refine ⟨fraction, exponent, ?_, rfl, hw, hf, he, ?_⟩
  · rw [← hexponent, ← hfraction, ← hwhole]
  · simpa [Decidable.imp_iff_not_or] using hne

theorem scan_sound {cs : List Char} (h : scan cs = some (n, rest)) :
    ∃ w t, cs = w ++ (t ++ rest) ∧ (∀ c ∈ w, isBlank c = true) ∧ Spelled t n := by
  obtain ⟨sign, hsign, hs⟩ := takeSign_sound (cs.dropWhile isBlank)
  obtain ⟨fraction, exponent, hbody, hn, hw, hf, he, hne⟩ := scanUnsigned_sound (scan_eq cs ▸ h)
  rw [← hn] at hs
  refine ⟨cs.takeWhile isBlank, _, ?_, List.all_eq_true.mp List.all_takeWhile, .parts hs hw hf he hne⟩
  calc cs
    _ = cs.takeWhile isBlank ++ cs.dropWhile isBlank := List.takeWhile_append_dropWhile.symm
    _ = cs.takeWhile isBlank ++ (sign ++ (n.whole ++ (fraction ++ (exponent ++ rest)))) := by
      rw [← hbody, ← hsign]
    _ = _ := by simp only [List.append_assoc]

/-- Nothing at the front of the text continues a numeral. -/
def Stops (rest : List Char) : Prop := ∀ c ∈ rest.head?, c.isDigit = false ∧ c ≠ '.' ∧ c ≠ 'e' ∧ c ≠ 'E'

theorem resume_stops (h : Stops rest) : n.resume rest = (n, rest) := by
  have hdigits : takeDigits rest = ([], rest) := takeDigits_none fun c hc => (h c hc).1
  have hfraction : takeFraction rest = (none, rest) := takeFraction_none fun c hc => (h c hc).2.1
  have hexponent : takeExponent rest = (none, rest) := takeExponent_none fun c hc => (h c hc).2.2
  obtain ⟨negative, whole, f, e⟩ := n
  rcases f with _ | fs <;> rcases e with _ | ⟨b, es⟩ <;> simp [resume, hdigits, hfraction, hexponent]

theorem resume_suffix (n : Numeral) (rest : List Char) : (n.resume rest).2 <:+ rest := by
  have hdigits (cs : List Char) : (takeDigits cs).2 <:+ cs := ⟨_, (takeDigits_sound cs).1.symm⟩
  have hfraction (cs : List Char) : (takeFraction cs).2 <:+ cs := by
    obtain ⟨chars, h, -⟩ := takeFraction_sound cs
    exact ⟨chars, h.symm⟩
  have hexponent (cs : List Char) : (takeExponent cs).2 <:+ cs := by
    obtain ⟨chars, h, -⟩ := takeExponent_sound cs
    exact ⟨chars, h.symm⟩
  obtain ⟨negative, whole, f, e⟩ := n
  rcases f with _ | fs <;> rcases e with _ | ⟨b, es⟩
  · exact (hexponent _).trans ((hfraction _).trans (hdigits rest))
  · exact hdigits rest
  · exact (hexponent _).trans (hdigits rest)
  · exact hdigits rest

theorem stops_blanks (h : ∀ c ∈ w, isBlank c = true) : Stops w := by
  intro c hc
  have hb := h c (List.mem_of_mem_head? hc)
  simp only [isBlank, Bool.or_eq_true, beq_iff_eq] at hb
  rcases hb with ((((rfl | rfl) | rfl) | rfl) | rfl) | rfl <;> decide

/-- A text has at most one reading as blanks and a numeral. -/
theorem Spelled.unique {w' t' : List Char} {n' : Numeral} (hw : ∀ c ∈ w, isBlank c = true)
    (hw' : ∀ c ∈ w', isBlank c = true) (h : Spelled t n) (h' : Spelled t' n') (heq : w ++ t = w' ++ t') :
    n = n' := by
  have hstop : Stops [] := by simp [Stops]
  have hs := scan_spelled hw h []
  have hs' := scan_spelled hw' h' []
  rw [List.append_nil, resume_stops hstop] at hs hs'
  rw [heq, hs'] at hs
  exact (Prod.mk.inj (Option.some.inj hs)).1.symm

end Scanning

section Numbers

variable {n : Numeral}

def integer (n : Numeral) : Int := signed n.negative (digitsValue n.whole)

/-- The numeral has neither point nor exponent, and its integer is in range. -/
def IsWord (n : Numeral) : Prop :=
  n.fraction = none ∧ n.exponent = none ∧ -0x8000000000000000 ≤ n.integer ∧ n.integer < 0x8000000000000000

/-- The number that a numeral stands for: its integer if that is a word, and otherwise the float that is
nearest to its decimal. -/
def Denotes (n : Numeral) : Number → Prop
  | .int k => n.IsWord ∧ k.toInt = n.integer
  | .float x => ¬ n.IsWord ∧ x = Binary64.ofDecimal n.negative (decimal n.whole (n.fraction.getD []) n.exponent)

theorem denotes_number (n : Numeral) : n.Denotes n.number := by
  obtain ⟨negative, whole, f, e⟩ := n
  cases f with
  | some fs => exact ⟨fun h => Option.some_ne_none fs h.1, rfl⟩
  | none =>
    cases e with
    | some es => exact ⟨fun h => Option.some_ne_none es h.2.1, rfl⟩
    | none =>
      cases hw : Number.word? (integer ⟨negative, whole, none, none⟩) with
      | some k =>
        have hk := Number.word?_eq_some_iff.mp hw
        rw [integer] at hw
        simp only [number, hw]
        exact ⟨⟨rfl, rfl, hk ▸ k.le_toInt, hk ▸ k.toInt_lt⟩, hk⟩
      | none =>
        have hout : ¬ IsWord ⟨negative, whole, none, none⟩ := by
          intro h
          rw [Number.word?, if_pos h.2.2] at hw
          cases hw
        rw [integer] at hw
        simp only [number, hw]
        exact ⟨hout, rfl⟩

theorem Denotes.unique {x y : Number} (hx : n.Denotes x) (hy : n.Denotes y) : x = y := by
  cases x with
  | int k =>
    cases y with
    | int l => exact congrArg Number.int (Int64.toInt_inj.mp (hx.2.trans hy.2.symm))
    | float y => exact absurd hx.1 hy.1
  | float x =>
    cases y with
    | int l => exact absurd hy.1 hx.1
    | float y => exact congrArg Number.float (hx.2.trans hy.2.symm)

theorem number_eq_iff {x : Number} : n.number = x ↔ n.Denotes x :=
  ⟨fun h => h ▸ n.denotes_number, n.denotes_number.unique⟩

end Numbers

end Numeral

end ContextCodegen
