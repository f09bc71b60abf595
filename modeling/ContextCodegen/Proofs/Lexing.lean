import ContextCodegen.Proofs.Spelling
import ContextCodegen.Target.Literal
import ContextCodegen.Target.Token

/-! The tokens of a text, whatever stands behind it. Literals are read back as what they stand
for: texts and longs in front of anything, words and doubles in front of any character that cannot
continue them. -/
namespace ContextCodegen

theorem isAlpha_iff (c : Char) :
    c.isAlpha = true ↔ ('a' ≤ c ∧ c ≤ 'z') ∨ ('A' ≤ c ∧ c ≤ 'Z') := by
  have halpha : c.isAlpha = (c.isUpper || c.isLower) := rfl
  have hupper : c.isUpper = true ↔ 'A' ≤ c ∧ c ≤ 'Z' := decide_eq_true_iff
  have hlower : c.isLower = true ↔ 'a' ≤ c ∧ c ≤ 'z' := by
    change (decide ('a' ≤ c) && decide (c ≤ 'z')) = true ↔ _
    rw [Bool.and_eq_true, decide_eq_true_iff, decide_eq_true_iff]
  rw [halpha, Bool.or_eq_true, hupper, hlower, or_comm]

theorem isDigit_iff (c : Char) : c.isDigit = true ↔ '0' ≤ c ∧ c ≤ '9' := by
  change (decide ('0' ≤ c) && decide (c ≤ '9')) = true ↔ _
  rw [Bool.and_eq_true, decide_eq_true_iff, decide_eq_true_iff]

namespace Target

/-- The tokens of a text without offsets, within a lexeme of which `skip` characters remain. -/
def lex (skip : Nat) : List Char → Option (List Token)
  | [] => some []
  | c :: cs =>
    if skip ≠ 0 then lex (skip - 1) cs
    else if Lexeme.isBlank c then lex 0 cs
    else
      match (Lexeme.find c cs).token with
      | some t => (lex (Lexeme.find c cs).more cs).map (t :: ·)
      | none => none

private theorem tokensFrom_lex (found : Array (Token × Nat)) (offset skip : Nat) (cs : List Char) :
    (tokensFrom found offset skip cs).toOption.map (fun a => a.toList.map Prod.fst) =
      (lex skip cs).map (found.toList.map Prod.fst ++ ·) := by
  induction cs generalizing found offset skip with
  | nil => simp [tokensFrom, lex, Except.toOption]
  | cons c cs ih =>
    by_cases hs : skip ≠ 0
    · simp only [tokensFrom, lex, if_pos hs, ih]
    · by_cases hb : Lexeme.isBlank c = true
      · simp only [tokensFrom, lex, if_neg hs, if_pos hb, ih]
      · simp only [tokensFrom, lex, if_neg hs, if_neg hb]
        cases ht : (Lexeme.find c cs).token with
        | none => simp [Except.toOption]
        | some t => simp [ih, Option.map_map, Function.comp_def]

theorem tokenize_of_lex {source : String} {ts : List Token} (h : lex 0 source.toList = some ts) :
    ∃ us, tokenize source = .ok us ∧ us.map Prod.fst = ts := by
  have hl := tokensFrom_lex #[] 0 0 source.toList
  rw [h] at hl
  unfold tokenize
  cases ht : tokensFrom #[] 0 0 source.toList with
  | error e => simp [ht, Except.toOption] at hl
  | ok found => exact ⟨found.toList, rfl, by simpa [ht, Except.toOption] using hl⟩

theorem lex_skip (cs rest : List Char) : lex cs.length (cs ++ rest) = lex 0 rest := by
  induction cs with
  | nil => rfl
  | cons c cs ih => simpa [lex] using ih

theorem lex_blank {c : Char} (h : Lexeme.isBlank c = true) (rest : List Char) :
    lex 0 (c :: rest) = lex 0 rest := by
  simp [lex, h]

/-- A whole lexeme in front of a text gives one token. -/
theorem lex_lexeme {c : Char} {cs rest : List Char} {t : Token} (hb : Lexeme.isBlank c = false)
    (hf : Lexeme.find c (cs ++ rest) = ⟨cs.length, some t⟩) :
    lex 0 (c :: (cs ++ rest)) = (lex 0 rest).map (t :: ·) := by
  simp [lex, hb, hf, lex_skip]

/-- The text starts with no character that could continue a word or a number. -/
def Delimited (rest : List Char) : Prop := ∀ c ∈ rest.head?, Lexeme.isNamePart c = false

/-- The characters are read as the tokens in front of every text. -/
def Sealed (cs : List Char) (ts : List Token) : Prop :=
  ∀ rest, lex 0 (cs ++ rest) = (lex 0 rest).map (ts ++ ·)

/-- The characters are read as the tokens in front of every text that does not continue them. -/
def Spells (cs : List Char) (ts : List Token) : Prop :=
  ∀ rest, Delimited rest → lex 0 (cs ++ rest) = (lex 0 rest).map (ts ++ ·)

theorem Sealed.spells {cs : List Char} {ts : List Token} (h : Sealed cs ts) : Spells cs ts :=
  fun rest _ => h rest

theorem Sealed.append {cs ds : List Char} {ts us : List Token} (h : Sealed cs ts)
    (h' : Sealed ds us) : Sealed (cs ++ ds) (ts ++ us) := by
  intro rest
  rw [List.append_assoc, h, h', Option.map_map]
  simp [Function.comp_def]

theorem Spells.append_sealed {cs ds : List Char} {ts us : List Token} (h : Spells cs ts)
    (h' : Sealed ds us) (hd : ∀ rest, Delimited (ds ++ rest)) : Sealed (cs ++ ds) (ts ++ us) := by
  intro rest
  rw [List.append_assoc, h _ (hd rest), h', Option.map_map]
  simp [Function.comp_def]

theorem Spells.lex_eq {cs : List Char} {ts : List Token} (h : Spells cs ts) : lex 0 cs = some ts := by
  have hl := h [] (by simp [Delimited])
  simpa [lex] using hl

/-- Neither a digit nor a quote. -/
def isPlain (c : Char) : Bool := !c.isDigit && c != '"'

private theorem find_plain {c : Char} (h : isPlain c = true) (cs : List Char) :
    Lexeme.find c cs = if Lexeme.isNameStart c then
      ⟨(cs.takeWhile Lexeme.isNamePart).length,
        some (Lexeme.ofName (String.ofList (c :: cs.takeWhile Lexeme.isNamePart)))⟩
      else ⟨0, Lexeme.punctuation? c⟩ := by
  simp only [isPlain, Bool.and_eq_true, Bool.not_eq_true', bne_iff_ne] at h
  simp [Lexeme.find, h.1, h.2]

theorem isNamePart_of_start {c : Char} (h : Lexeme.isNameStart c = true) :
    Lexeme.isNamePart c = true := by
  simp only [Lexeme.isNameStart, Lexeme.isNamePart, Char.isAlphanum, Bool.or_eq_true] at h ⊢
  exact h.elim (fun h => .inl (.inl h)) .inr

private theorem takeWhile_append_delimited {cs rest : List Char} {p : Char → Bool}
    (h : ∀ c ∈ (cs.dropWhile p ++ rest).head?, p c = false) :
    (cs ++ rest).takeWhile p = cs.takeWhile p := by
  induction cs with
  | nil =>
    cases rest with
    | nil => rfl
    | cons c rest => simp [h c rfl]
  | cons c cs ih =>
    by_cases hc : p c = true
    · simp only [List.dropWhile_cons, hc, if_true] at h
      simp [hc, ih h]
    · simp [hc]

private theorem map_cons_eq_some {o : Option (List Token)} {t : Token} {ts : List Token}
    (h : o.map (t :: ·) = some ts) : ∃ us, o = some us ∧ ts = t :: us := by
  obtain ⟨us, ho, rfl⟩ := Option.map_eq_some_iff.mp h
  exact ⟨us, ho, rfl⟩

/-- A word ends where its characters end, or where the text behind them does not continue it. -/
private theorem word_delimited {c : Char} {cs rest : List Char} (hc : Lexeme.isNamePart c = true)
    (hr : ∀ x ∈ (c :: cs).getLast?, Lexeme.isNamePart x = true → Delimited rest) :
    ∀ x ∈ (cs.dropWhile Lexeme.isNamePart ++ rest).head?, Lexeme.isNamePart x = false := by
  cases hm : cs.dropWhile Lexeme.isNamePart with
  | nil =>
    have hall : ∀ x ∈ c :: cs, Lexeme.isNamePart x = true := by
      have hsplit := List.takeWhile_append_dropWhile (p := Lexeme.isNamePart) (l := cs)
      rw [hm, List.append_nil] at hsplit
      intro x hx
      rcases List.mem_cons.mp hx with rfl | hx
      · exact hc
      · exact List.all_eq_true.mp List.all_takeWhile x (hsplit.symm ▸ hx)
    have hlast := List.getLast?_eq_some_getLast (l := c :: cs) (by simp)
    exact hr _ hlast (hall _ (List.getLast_mem _))
  | cons d more =>
    have hd := List.head?_dropWhile_not Lexeme.isNamePart cs
    rw [hm] at hd
    rintro x ⟨⟩
    exact hd

/-- Characters without digits and quotes are read as by themselves, in front of every text that
does not continue a word at their end. -/
private theorem lex_plain {cs rest : List Char} {ts : List Token} (hp : cs.all isPlain = true)
    (hl : lex 0 cs = some ts)
    (hr : ∀ c ∈ cs.getLast?, Lexeme.isNamePart c = true → Delimited rest) :
    lex 0 (cs ++ rest) = (lex 0 rest).map (ts ++ ·) := by
  induction hn : cs.length using Nat.strong_induction_on generalizing cs ts with
  | _ n ih =>
    -- what is left of the characters behind their first lexeme
    have behind (pre cs' : List Char) (hpre : pre ≠ []) (he : cs = pre ++ cs') {us : List Token}
        (hus : lex 0 cs' = some us) : lex 0 (cs' ++ rest) = (lex 0 rest).map (us ++ ·) := by
      subst he
      refine ih cs'.length ?_ ?_ hus ?_ rfl
      · have := List.length_pos_iff.mpr hpre
        rw [← hn, List.length_append]
        omega
      · rw [List.all_append, Bool.and_eq_true] at hp
        exact hp.2
      · intro c hc
        exact hr c (by rw [List.getLast?_append, hc]; rfl)
    cases cs with
    | nil =>
      obtain rfl : [] = ts := Option.some.inj hl
      simp
    | cons c cs =>
      obtain ⟨hpc, hpcs⟩ := Bool.and_eq_true _ _ ▸ hp
      by_cases hb : Lexeme.isBlank c = true
      · rw [lex_blank hb] at hl
        rw [List.cons_append, lex_blank hb]
        exact behind [c] cs (by simp) rfl hl
      · rw [Bool.not_eq_true] at hb
        by_cases hs : Lexeme.isNameStart c = true
        · let part := cs.takeWhile Lexeme.isNamePart
          let more := cs.dropWhile Lexeme.isNamePart
          have hsplit : part ++ more = cs := List.takeWhile_append_dropWhile
          have hword := word_delimited (isNamePart_of_start hs) hr
          have hend := takeWhile_append_delimited hword
          have hf (ds : List Char) (hds : ds.takeWhile Lexeme.isNamePart = part) :
              Lexeme.find c ds = ⟨part.length, some (Lexeme.ofName (String.ofList (c :: part)))⟩ := by
            rw [find_plain hpc, if_pos hs, hds]
          rw [← hsplit, lex_lexeme hb (hf _ (by rw [hsplit]))] at hl
          obtain ⟨us, hus, rfl⟩ := map_cons_eq_some hl
          have hrest := behind (c :: part) more (by simp) (by simp [hsplit]) hus
          rw [← hsplit, List.append_assoc] at hend
          rw [← hsplit, List.cons_append, List.append_assoc, lex_lexeme hb (hf _ (by rw [hend, hsplit])),
            hrest, Option.map_map]
          rfl
        · have hf (ds : List Char) : Lexeme.find c ds = ⟨0, Lexeme.punctuation? c⟩ := by
            rw [find_plain hpc, if_neg hs]
          cases ht : Lexeme.punctuation? c with
          | none => simp [lex, hb, hf, ht] at hl
          | some t =>
            have hlex (ds : List Char) : lex 0 (c :: ds) = (lex 0 ds).map (t :: ·) :=
              @lex_lexeme _ [] _ _ hb (by rw [hf, ht]; rfl)
            rw [hlex] at hl
            obtain ⟨us, hus, rfl⟩ := map_cons_eq_some hl
            rw [List.cons_append, hlex, behind [c] cs (by simp) rfl hus, Option.map_map]
            rfl

theorem spells_plain {cs : List Char} {ts : List Token} (hp : cs.all isPlain = true)
    (hl : lex 0 cs = some ts) : Spells cs ts :=
  fun _ hr => lex_plain hp hl fun _ _ _ => hr

theorem sealed_plain {cs : List Char} {ts : List Token} (hp : cs.all isPlain = true)
    (he : cs.getLast?.any Lexeme.isNamePart = false) (hl : lex 0 cs = some ts) : Sealed cs ts := by
  intro rest
  refine lex_plain hp hl fun c hc hn => ?_
  rw [hc] at he
  simp [hn] at he

section StringLiterals

theorem isControl_lt {c : Char} (h : isControl c = true) : c.toNat < 160 := by
  simp only [isControl, Bool.or_eq_true, Bool.and_eq_true, decide_eq_true_eq] at h
  omega

private theorem hexFour_eq : ∀ n < 160,
    hexFour n = ['0', '0', Nat.digitChar (n / 16), Nat.digitChar (n % 16)] := by
  decide +kernel

private theorem hexChar_hexFour : ∀ n < 160,
    Lexeme.hexChar? ['0', '0', Nat.digitChar (n / 16), Nat.digitChar (n % 16)] = some (Char.ofNat n) := by
  decide +kernel

/-- The three ways in which a character is written: a short escape, a hexadecimal one, itself. -/
private theorem escape_cases (c : Char) :
    (∃ e, escape c = ['\\', e] ∧ e ≠ 'u' ∧ e ≠ '\n' ∧ Lexeme.shortEscape? e = some c) ∨
    (c.toNat < 160 ∧ escape c =
      ['\\', 'u', '0', '0', Nat.digitChar (c.toNat / 16), Nat.digitChar (c.toNat % 16)]) ∨
    (c ≠ '"' ∧ c ≠ '\\' ∧ escape c = [c]) := by
  have short {a e : Char} (hc : c = a) (he : escape a = ['\\', e]) (hu : e ≠ 'u') (hn : e ≠ '\n')
      (hs : Lexeme.shortEscape? e = some a) :
      ∃ e, escape c = ['\\', e] ∧ e ≠ 'u' ∧ e ≠ '\n' ∧ Lexeme.shortEscape? e = some c := by
    subst hc
    exact ⟨e, he, hu, hn, hs⟩
  by_cases hq : c = '"'
  · exact .inl (short hq rfl (by decide) (by decide) rfl)
  by_cases hb : c = '\\'
  · exact .inl (short hb rfl (by decide) (by decide) rfl)
  by_cases hn : c = '\n'
  · exact .inl (short hn rfl (by decide) (by decide) rfl)
  by_cases hr : c = '\r'
  · exact .inl (short hr rfl (by decide) (by decide) rfl)
  by_cases ht : c = '\t'
  · exact .inl (short ht rfl (by decide) (by decide) rfl)
  by_cases hc : isControl c = true
  · have hlt := isControl_lt hc
    exact .inr (.inl ⟨hlt, by simp [escape, hq, hb, hn, hr, ht, hc, hexFour_eq _ hlt]⟩)
  · exact .inr (.inr ⟨hq, hb, by simp [escape, hq, hb, hn, hr, ht, hc]⟩)

theorem bodyLength_cons {c : Char} (hq : c ≠ '"') (hb : c ≠ '\\') (n : Nat) (rest : List Char) :
    Lexeme.bodyLength n (c :: rest) = Lexeme.bodyLength (n + 1) rest := by
  rw [Lexeme.bodyLength.eq_def]
  split <;> simp_all

private theorem bodyLength_escape (c : Char) (n : Nat) (rest : List Char) :
    Lexeme.bodyLength n (escape c ++ rest) = Lexeme.bodyLength (n + (escape c).length) rest := by
  have hex (k : Nat) : Nat.digitChar k ≠ '"' ∧ Nat.digitChar k ≠ '\\' :=
    ⟨Nat.digitChar_ne _ rfl, Nat.digitChar_ne _ rfl⟩
  rcases escape_cases c with ⟨e, he, -, hn, -⟩ | ⟨-, he⟩ | ⟨hq, hb, he⟩
  · simp [he, Lexeme.bodyLength, hn]
  · simp [he, Lexeme.bodyLength, bodyLength_cons, hex]
  · simp [he, bodyLength_cons hq hb]

private theorem unescape_cons {c : Char} (hb : c ≠ '\\') (rest : List Char) :
    Lexeme.unescape (c :: rest) = (Lexeme.unescape rest).map (c :: ·) := by
  rw [Lexeme.unescape.eq_def]
  split <;> simp_all

private theorem unescape_short {c e : Char} (hu : e ≠ 'u') (hs : Lexeme.shortEscape? e = some c)
    (rest : List Char) : Lexeme.unescape ('\\' :: e :: rest) = (Lexeme.unescape rest).map (c :: ·) := by
  rw [Lexeme.unescape, hs, Option.map_eq_bind]
  · rfl
  · intro a b c d rest hc
    exact absurd hc hu

private theorem unescape_escape (c : Char) (rest : List Char) :
    Lexeme.unescape (escape c ++ rest) = (Lexeme.unescape rest).map (c :: ·) := by
  rcases escape_cases c with ⟨e, he, hu, -, hs⟩ | ⟨hlt, he⟩ | ⟨-, hb, he⟩
  · rw [he]
    exact unescape_short hu hs rest
  · have hx := hexChar_hexFour _ hlt
    rw [Char.ofNat_toNat] at hx
    rw [he]
    simp only [List.cons_append, List.nil_append, Lexeme.unescape, hx, Option.map_eq_bind]
    rfl
  · rw [he]
    exact unescape_cons hb rest

private theorem bodyLength_body (s : List Char) (n : Nat) (rest : List Char) :
    Lexeme.bodyLength n (s.flatMap escape ++ '"' :: rest) = (n + (s.flatMap escape).length, true) := by
  induction s generalizing n with
  | nil => rfl
  | cons c s ih =>
    rw [List.flatMap_cons, List.append_assoc, bodyLength_escape, ih, List.length_append, Nat.add_assoc]

private theorem unescape_body (s : List Char) : Lexeme.unescape (s.flatMap escape) = some s := by
  induction s with
  | nil => rfl
  | cons c s ih => rw [List.flatMap_cons, unescape_escape, ih, Option.map_some]

theorem stringLiteral_eq (s : String) :
    stringLiteral s = String.ofList ('"' :: (s.toList.flatMap escape ++ ['"'])) := rfl

/-- The lexeme of a string literal ends at its closing quote. -/
theorem find_stringLiteral (s : String) (rest : List Char) :
    Lexeme.find '"' ((s.toList.flatMap escape ++ ['"']) ++ rest) =
      ⟨(s.toList.flatMap escape ++ ['"']).length, some (.str s)⟩ := by
  rw [List.append_assoc]
  simp [Lexeme.find, Lexeme.ofQuote, bodyLength_body, unescape_body, String.ofList_toList]

/-- A string literal is read back in front of every text. -/
theorem sealed_stringLiteral (s : String) : Sealed (stringLiteral s).toList [.str s] := by
  intro rest
  rw [stringLiteral_eq, String.toList_ofList]
  exact lex_lexeme rfl (find_stringLiteral s rest)

end StringLiterals

section Numbers
open Numeral (IsDigits takeDigits takeFraction takeExponent fractionChars exponentChars)

theorem isBlank_digit {c : Char} (h : c.isDigit = true) : Lexeme.isBlank c = false := by
  rw [Bool.eq_false_iff]
  intro hb
  simp only [Lexeme.isBlank, Bool.or_eq_true, beq_iff_eq] at hb
  rcases hb with ((rfl | rfl) | rfl) | rfl <;> exact absurd h (by decide)

theorem takeWhile_digits {ds rest : List Char} (hd : IsDigits ds)
    (hr : ∀ c ∈ rest.head?, c.isDigit = false) : (ds ++ rest).takeWhile Char.isDigit = ds := by
  rw [List.takeWhile_append_of_pos hd]
  cases rest with
  | nil => simp
  | cons c rest => simp [hr c rfl]

theorem dropWhile_digits {ds rest : List Char} (hd : IsDigits ds)
    (hr : ∀ c ∈ rest.head?, c.isDigit = false) : (ds ++ rest).dropWhile Char.isDigit = rest := by
  have h := List.takeWhile_append_dropWhile (p := Char.isDigit) (l := ds ++ rest)
  rw [takeWhile_digits hd hr] at h
  exact List.append_cancel_left h

private theorem takeDigits_before {ds rest : List Char} (hd : IsDigits ds)
    (hr : ∀ c ∈ rest.head?, c.isDigit = false) : takeDigits (ds ++ rest) = (ds, rest) := by
  rw [Numeral.takeDigits_append hd, Numeral.takeDigits_none hr, List.append_nil]

private theorem Delimited.not_digit {rest : List Char} (h : Delimited rest) :
    ∀ c ∈ rest.head?, c.isDigit = false := by
  intro c hc
  have hp := h c hc
  simp only [Lexeme.isNamePart, Char.isAlphanum, Bool.or_eq_false_iff] at hp
  exact hp.1.2

private theorem takeExponent_chars {e : Option (Bool × List Char)}
    (he : ∀ p ∈ e, p.2 ≠ [] ∧ IsDigits p.2) {rest : List Char} (hr : Delimited rest) :
    takeExponent (exponentChars e ++ rest) = (e, rest) := by
  cases e with
  | none =>
    apply Numeral.takeExponent_none
    intro c hc
    constructor <;> rintro rfl <;> exact absurd (hr _ hc) (by decide)
  | some p =>
    obtain ⟨negative, ds⟩ := p
    obtain ⟨hn, hd⟩ := he _ rfl
    have hs : Numeral.SignSpelled (if negative then ['-'] else []) negative := by
      cases negative with
      | true => exact .minus
      | false => exact .absent
    have ht := Numeral.takeExponent_mark (.inl rfl) hs hn hd rest
    rw [Numeral.takeDigits_none hr.not_digit, List.append_nil] at ht
    simpa [exponentChars] using ht

private theorem takeFraction_chars {f : Option (List Char)} (hf : ∀ ds ∈ f, IsDigits ds)
    {rest : List Char} (hr : ∀ c ∈ rest.head?, c.isDigit = false) (hp : f = none → ∀ c ∈ rest.head?, c ≠ '.') :
    takeFraction (fractionChars f ++ rest) = (f, rest) := by
  cases f with
  | none => exact Numeral.takeFraction_none (hp rfl)
  | some ds =>
    have ht := Numeral.takeFraction_point (hf ds rfl) rest
    rwa [Numeral.takeDigits_none hr, List.append_nil] at ht

private theorem exponent_not_digit {e : Option (Bool × List Char)} {rest : List Char}
    (hr : Delimited rest) : ∀ c ∈ (exponentChars e ++ rest).head?, c.isDigit = false := by
  cases e with
  | none => exact hr.not_digit
  | some p =>
    rintro c ⟨⟩
    rfl

private theorem exponentLength_chars {e : Option (Bool × List Char)}
    (he : ∀ p ∈ e, p.2 ≠ [] ∧ IsDigits p.2) {rest : List Char} (hr : Delimited rest) :
    Lexeme.exponentLength (exponentChars e ++ rest) = (exponentChars e).length := by
  unfold Lexeme.exponentLength
  rw [takeExponent_chars he hr]
  cases e with
  | none => rfl
  | some p => simp

private theorem doubleValue_chars {n : Numeral} (h : n.Fractional) :
    Lexeme.doubleValue n.chars = n.float := by
  have hend : Delimited [] := by simp [Delimited]
  have he := takeExponent_chars h.exponent hend
  have hne := exponent_not_digit (e := n.exponent) hend
  rw [List.append_nil] at he hne
  have hf := takeFraction_chars (fun ds hds => (h.fraction ds hds).2) hne ?_
  · have hw : ∀ c ∈ (fractionChars n.fraction ++ exponentChars n.exponent).head?, c.isDigit = false := by
      cases hfr : n.fraction with
      | none => simpa [fractionChars] using hne
      | some ds =>
        rintro c ⟨⟩
        rfl
    simp only [Lexeme.doubleValue, Numeral.chars, takeDigits_before h.whole.2 hw, hf, he, Numeral.float]
  · intro hn
    cases hx : n.exponent with
    | none => simp [exponentChars]
    | some p => simp [exponentChars]

theorem ofDigits_fraction {c : Char} {ds fs rest : List Char} {k : Nat} (hd : IsDigits ds)
    (hn : fs ≠ []) (hf : IsDigits fs) (hr : ∀ x ∈ rest.head?, x.isDigit = false)
    (hk : ds.length + 1 + fs.length + Lexeme.exponentLength rest = k) :
    Lexeme.ofDigits c (ds ++ '.' :: (fs ++ rest)) =
      ⟨k, some (.double (Lexeme.doubleValue (c :: (ds ++ '.' :: (fs ++ rest)).take k)))⟩ := by
  have hpoint : ∀ x ∈ ('.' :: (fs ++ rest)).head?, x.isDigit = false := by
    rintro x ⟨⟩
    rfl
  unfold Lexeme.ofDigits
  rw [takeWhile_digits hd hpoint, dropWhile_digits hd hpoint]
  simp only [takeWhile_digits hf hr, List.isEmpty_iff, hn, if_false, List.drop_left, hk]

/-- Digits behind which neither the mark of a long nor a point stands. -/
theorem ofDigits_exponent {c : Char} {ds rest : List Char} (hd : IsDigits ds)
    (hr : ∀ x ∈ rest.head?, x.isDigit = false ∧ x ≠ 'L' ∧ x ≠ '.') :
    Lexeme.ofDigits c (ds ++ rest) =
      if Lexeme.exponentLength rest ≠ 0 then
        ⟨ds.length + Lexeme.exponentLength rest,
          some (.double (Lexeme.doubleValue (c :: (ds ++ rest).take (ds.length + Lexeme.exponentLength rest))))⟩
      else ⟨if rest.head? == some 'e' || rest.head? == some 'E' then ds.length + 1 else ds.length, none⟩ := by
  have hmark : ∀ x ∈ rest.head?, x.isDigit = false := fun x hx => (hr x hx).1
  unfold Lexeme.ofDigits
  rw [takeWhile_digits hd hmark, dropWhile_digits hd hmark]
  split
  · exact absurd rfl (hr 'L' rfl).2.1
  · exact absurd rfl (hr '.' rfl).2.2
  · rfl

private theorem ofDigits_chars {c : Char} {ds tail : List Char} {n : Numeral} (h : n.Fractional)
    (hw : n.whole = c :: ds) (ht : n.chars = c :: tail) {rest : List Char} (hr : Delimited rest) :
    Lexeme.ofDigits c (tail ++ rest) = ⟨tail.length, some (.double n.float)⟩ := by
  have hd : IsDigits ds := fun x hx => h.whole.2 x (hw ▸ List.mem_cons_of_mem c hx)
  have he := exponentLength_chars h.exponent hr
  have hv : Lexeme.doubleValue (c :: (tail ++ rest).take tail.length) = n.float := by
    rw [List.take_left, ← ht, doubleValue_chars h]
  obtain rfl : ds ++ (fractionChars n.fraction ++ exponentChars n.exponent) = tail := by
    rw [Numeral.chars, hw, List.cons_append] at ht
    exact List.tail_eq_of_cons_eq ht
  rw [← hv]
  simp only [List.append_assoc, List.length_append]
  cases hf : n.fraction with
  | some fs =>
    obtain ⟨hfn, hfd⟩ := h.fraction fs hf
    refine ofDigits_fraction hd hfn hfd (exponent_not_digit hr) ?_
    rw [he, fractionChars, List.length_cons]
    omega
  | none =>
    obtain ⟨p, hp⟩ := Option.ne_none_iff_exists'.mp (h.marked.resolve_left (by simp [hf]))
    rw [hp] at he ⊢
    have hmark : ∀ x ∈ (exponentChars (some p) ++ rest).head?, x.isDigit = false ∧ x ≠ 'L' ∧ x ≠ '.' := by
      rintro x ⟨⟩
      decide
    rw [fractionChars, List.nil_append, ofDigits_exponent hd hmark, he, if_pos (by simp [exponentChars]),
      List.length_nil, Nat.zero_add]

/-- A numeral with a fraction or an exponent is read as the number that it denotes. -/
theorem spells_double {n : Numeral} (h : n.Fractional) : Spells n.chars [.double n.float] := by
  intro rest hr
  obtain ⟨c, ds, hw⟩ := List.exists_cons_of_ne_nil h.whole.1
  have hc : c.isDigit = true := h.whole.2 c (hw ▸ List.mem_cons_self)
  have hf := ofDigits_chars h hw (by rw [Numeral.chars, hw, List.cons_append]) hr
  rw [Numeral.chars, hw]
  exact lex_lexeme (isBlank_digit hc) (by rw [Lexeme.find, if_pos hc]; exact hf)

/-- Digits with the mark of a long are read back in front of every text. -/
theorem sealed_long {n : Int64} {k : Nat} (hn : n.toInt = k) :
    Sealed (Nat.toDigits 10 k ++ ['L']) [.long n] := by
  intro rest
  obtain ⟨c, ds, hw⟩ := List.exists_cons_of_ne_nil (Nat.toDigits_ne_nil (n := k) (b := 10))
  have hd := Numeral.isDigits_toDigits k
  rw [hw] at hd
  have hc : c.isDigit = true := hd c List.mem_cons_self
  have hds : IsDigits ds := fun x hx => hd x (List.mem_cons_of_mem c hx)
  have hword : Number.word? (Numeral.digitsValue (c :: ds)) = some n := by
    rw [← hw, Numeral.digitsValue_toDigits]
    exact Number.word?_eq_some_iff.mpr hn
  have hmark : ∀ x ∈ ('L' :: rest).head?, x.isDigit = false := by
    rintro x ⟨⟩
    rfl
  have hf : Lexeme.find c ((ds ++ ['L']) ++ rest) = ⟨(ds ++ ['L']).length, some (.long n)⟩ := by
    rw [Lexeme.find, if_pos hc, Lexeme.ofDigits, List.append_assoc, List.singleton_append,
      takeWhile_digits hds hmark, dropWhile_digits hds hmark]
    simp only [hword, Option.map_some, List.length_append, List.length_singleton]
  rw [hw]
  exact lex_lexeme (isBlank_digit hc) hf

end Numbers

end Target

end ContextCodegen
