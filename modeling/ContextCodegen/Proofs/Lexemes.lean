import ContextCodegen.Proofs.Lexing

/-! The patterns of lexemes, and the longest one at the front of a text. Reading finds the longest lexeme,
with the token that it stands for, wherever a pattern matches at all. A lexeme that is the longest stays so
when the text behind it is cut off, and every lexeme is the longest in front of a blank. -/
namespace ContextCodegen.Target

open Numeral (IsDigits FractionSpelled ExponentSpelled takeExponent scanUnsigned)

section Patterns

/-- What a string literal has between its quotes: a quote stands only behind a backslash, and a backslash only
in front of a character that is no line end. -/
inductive Body : List Char → Prop
  | nil : Body []
  | plain {c : Char} {cs : List Char} : c ≠ '"' → c ≠ '\\' → Body cs → Body (c :: cs)
  | escaped {c : Char} {cs : List Char} : c ≠ '\n' → Body cs → Body ('\\' :: c :: cs)

/-- What makes digits a number: the mark of a long, a fraction that an exponent may follow, or an exponent. -/
inductive Ending (whole : List Char) : List Char → Option Token → Prop
  | long : Ending whole ['L'] ((Number.word? (Numeral.digitsValue whole)).map .long)
  | fraction {ds exponent : List Char} {e : Option (Bool × List Char)} : ds ≠ [] → IsDigits ds →
      ExponentSpelled exponent e →
      Ending whole ('.' :: (ds ++ exponent)) (some (.double (Numeral.float ⟨false, whole, some ds, e⟩)))
  | exponent {exponent : List Char} {e : Bool × List Char} : ExponentSpelled exponent (some e) →
      Ending whole exponent (some (.double (Numeral.float ⟨false, whole, none, some e⟩)))

/-- The lexemes, with the token that each stands for. A long out of range stands for none, nor does a string
literal with an escape that denotes no character. -/
inductive Matches : List Char → Option Token → Prop
  | number {whole ending : List Char} {o : Option Token} : whole ≠ [] → IsDigits whole →
      Ending whole ending o → Matches (whole ++ ending) o
  | str {body : List Char} : Body body →
      Matches ('"' :: (body ++ ['"'])) ((Lexeme.unescape body).map fun s => .str (String.ofList s))
  | name {c : Char} {cs : List Char} : Lexeme.isNameStart c = true → (∀ x ∈ cs, Lexeme.isNamePart x = true) →
      Matches (c :: cs) (some (Lexeme.ofName (String.ofList (c :: cs))))
  | punctuation {c : Char} {t : Token} : Lexeme.punctuation? c = some t → Matches [c] (some t)

/-- The longest lexeme at the front of a text. -/
structure Longest (cs s : List Char) (o : Option Token) : Prop where
  front : s <+: cs
  found : Matches s o
  longest : ∀ {s' : List Char} {o' : Option Token}, Matches s' o' → s' <+: cs → s'.length ≤ s.length

/-- What reading finds behind a character: the rest of the longest lexeme, or no token where there is none. -/
def Lexeme.IsLongest (c : Char) (cs : List Char) (l : Lexeme) : Prop :=
  (∃ s, l.more = s.length ∧ Longest (c :: cs) (c :: s) l.token) ∨
    l.token = none ∧ ∀ {s : List Char} {o : Option Token}, Matches s o → ¬ s <+: c :: cs

end Patterns

section Characters

variable {c : Char}

theorem not_digit_of_nameStart (h : Lexeme.isNameStart c = true) : c.isDigit = false := by
  rw [Lexeme.isNameStart, Bool.or_eq_true, isAlpha_iff, beq_iff_eq] at h
  rw [Bool.eq_false_iff, ne_eq, isDigit_iff]
  rintro ⟨-, hd⟩
  rcases h with (⟨h, -⟩ | ⟨h, -⟩) | rfl
  · exact absurd (Char.le_trans h hd) (by decide)
  · exact absurd (Char.le_trans h hd) (by decide)
  · exact absurd hd (by decide)

theorem ne_quote_of_nameStart (h : Lexeme.isNameStart c = true) : c ≠ '"' := by
  rintro rfl
  exact absurd h (by decide)

def isPart (c : Char) : Bool := Lexeme.isNamePart c || c == '.' || c == '+' || c == '-'

theorem isPart_of_namePart (h : Lexeme.isNamePart c = true) : isPart c = true := by
  simp only [isPart, h, Bool.true_or]

theorem isPart_of_digit (h : c.isDigit = true) : isPart c = true := by
  apply isPart_of_namePart
  simp only [Lexeme.isNamePart, Char.isAlphanum, h, Bool.or_true, Bool.true_or]

theorem not_blank_of_part (h : isPart c = true) : Lexeme.isBlank c = false := by
  rw [Bool.eq_false_iff]
  intro hb
  simp only [Lexeme.isBlank, Bool.or_eq_true, beq_iff_eq] at hb
  rcases hb with ((rfl | rfl) | rfl) | rfl <;> exact absurd h (by decide)

/-- A punctuation mark starts no other lexeme. -/
theorem punctuation_char {t : Token} (h : Lexeme.punctuation? c = some t) :
    c.isDigit = false ∧ c ≠ '"' ∧ Lexeme.isNameStart c = false ∧ Lexeme.isBlank c = false := by
  unfold Lexeme.punctuation? at h
  split_ifs at h <;> subst c <;> decide

theorem exists_span (p : Char → Bool) (cs : List Char) :
    ∃ front rest, cs = front ++ rest ∧ (∀ x ∈ front, p x = true) ∧ ∀ x ∈ rest.head?, p x = false := by
  refine ⟨_, _, List.takeWhile_append_dropWhile.symm, List.all_eq_true.mp List.all_takeWhile, ?_⟩
  have hhead := List.head?_dropWhile_not p cs
  intro x hx
  rw [hx] at hhead
  exact hhead

theorem digits_unique {ds es xs ys : List Char} (hd : IsDigits ds) (he : IsDigits es)
    (hx : ∀ c ∈ xs.head?, c.isDigit = false) (hy : ∀ c ∈ ys.head?, c.isDigit = false)
    (h : ds ++ xs = es ++ ys) : ds = es ∧ xs = ys := by
  have hds := takeWhile_digits hd hx
  have hxs := dropWhile_digits hd hx
  rw [h] at hds hxs
  rw [takeWhile_digits he hy] at hds
  rw [dropWhile_digits he hy] at hxs
  exact ⟨hds.symm, hxs.symm⟩

theorem length_le_takeWhile {p : Char → Bool} {s cs : List Char} (h : ∀ x ∈ s, p x = true) (hs : s <+: cs) :
    s.length ≤ (cs.takeWhile p).length := by
  obtain ⟨rest, rfl⟩ := hs
  rw [List.takeWhile_append_of_pos h, List.length_append]
  omega

end Characters

section Numbers

variable {whole ending cs s tail : List Char} {o : Option Token}

theorem exponentSpelled_head {exponent : List Char} {e : Bool × List Char}
    (h : ExponentSpelled exponent (some e)) : ∃ c cs, exponent = c :: cs ∧ (c = 'e' ∨ c = 'E') := by
  cases h with
  | mark hc _ _ _ => exact ⟨_, _, rfl, hc⟩

theorem Ending.head (h : Ending whole ending o) :
    ∃ c cs, ending = c :: cs ∧ (c = 'L' ∨ c = '.' ∨ c = 'e' ∨ c = 'E') := by
  cases h with
  | long => exact ⟨_, _, rfl, .inl rfl⟩
  | fraction => exact ⟨_, _, rfl, .inr (.inl rfl)⟩
  | exponent he =>
    obtain ⟨c, cs, hcs, hc⟩ := exponentSpelled_head he
    exact ⟨c, cs, hcs, .inr (.inr hc)⟩

theorem Ending.not_digit (h : Ending whole ending o) (rest : List Char) :
    ∀ c ∈ (ending ++ rest).head?, c.isDigit = false := by
  obtain ⟨c, cs, rfl, hc⟩ := h.head
  rintro x ⟨⟩
  rcases hc with rfl | rfl | rfl | rfl <;> rfl

/-- A lexeme at the front of digits is these digits with what makes them a number. -/
theorem Matches.of_digits (hne : whole ≠ []) (hw : IsDigits whole)
    (ht : ∀ c ∈ tail.head?, c.isDigit = false) (h : Matches s o) (hs : s <+: whole ++ tail) :
    ∃ ending, s = whole ++ ending ∧ ending <+: tail ∧ Ending whole ending o := by
  obtain ⟨rest, hrest⟩ := hs
  obtain ⟨d, ds, rfl⟩ := List.exists_cons_of_ne_nil hne
  have hd : d.isDigit = true := hw d List.mem_cons_self
  cases h with
  | @number whole' ending _ _ hw' hend =>
    rw [List.append_assoc] at hrest
    obtain ⟨rfl, rfl⟩ := digits_unique hw' hw (hend.not_digit rest) ht hrest
    exact ⟨ending, rfl, List.prefix_append _ _, hend⟩
  | str =>
    obtain ⟨rfl, -⟩ := List.cons.inj hrest
    exact absurd hd (by decide)
  | name hc =>
    obtain ⟨rfl, -⟩ := List.cons.inj hrest
    exact absurd hd (by simp [not_digit_of_nameStart hc])
  | punctuation hc =>
    obtain ⟨rfl, -⟩ := List.cons.inj hrest
    exact absurd hd (by simp [(punctuation_char hc).1])

theorem exponentLength_sound (cs : List Char) : ∃ exponent rest e,
    cs = exponent ++ rest ∧ Lexeme.exponentLength cs = exponent.length ∧ ExponentSpelled exponent e := by
  obtain ⟨exponent, hcs, he⟩ := Numeral.takeExponent_sound cs
  refine ⟨exponent, _, _, hcs, ?_, he⟩
  have hlength := congrArg List.length hcs
  rw [List.length_append] at hlength
  unfold Lexeme.exponentLength
  rcases htake : takeExponent cs with ⟨_ | e, rest⟩
  · rw [htake] at he
    cases he
    rfl
  · rw [htake] at hlength
    dsimp only at hlength ⊢
    omega

/-- No exponent at the front of a text is longer than the one that is taken. -/
theorem le_exponentLength {exponent : List Char} {e : Option (Bool × List Char)}
    (h : ExponentSpelled exponent e) (hs : exponent <+: cs) : exponent.length ≤ Lexeme.exponentLength cs := by
  obtain ⟨rest, rfl⟩ := hs
  cases h with
  | absent => exact Nat.zero_le _
  | @mark c sign ds _ hc hsign hne hds =>
    have htake := Numeral.takeExponent_mark hc hsign hne hds rest
    have hlength := congrArg List.length (Numeral.takeDigits_sound rest).1
    simp only [List.cons_append, List.append_assoc]
    simp only [Lexeme.exponentLength, htake, List.length_cons, List.length_append] at hlength ⊢
    omega

theorem doubleValue_spelled {fraction exponent : List Char} {f : Option (List Char)}
    {e : Option (Bool × List Char)} (hne : whole ≠ []) (hw : IsDigits whole) (hf : FractionSpelled fraction f)
    (he : ExponentSpelled exponent e) :
    Lexeme.doubleValue (whole ++ (fraction ++ exponent)) = Numeral.float ⟨false, whole, f, e⟩ := by
  have hscan := Numeral.scanUnsigned_spelled (n := ⟨false, whole, f, e⟩) hw hf he (.inl hne) []
  rw [Numeral.resume_stops (by simp [Numeral.Stops]), List.append_nil, scanUnsigned] at hscan
  obtain ⟨-, hscan⟩ := Option.ite_none_left_eq_some.mp hscan
  obtain ⟨hn, -⟩ := Prod.mk.inj (Option.some.inj hscan)
  rw [← hn]
  rfl

/-- Two readings of a text as digits with an ending give one token. -/
theorem Ending.unique {o' : Option Token} (hne : whole ≠ []) (hw : IsDigits whole)
    (h : Ending whole ending o) (h' : Ending whole ending o') : o = o' := by
  have value {o : Option Token} (h : Ending whole ending o) (hl : ending ≠ ['L']) :
      o = some (.double (Lexeme.doubleValue (whole ++ ending))) := by
    cases h with
    | long => exact absurd rfl hl
    | fraction _ hd he =>
      have hv := doubleValue_spelled hne hw (.point hd) he
      rw [List.cons_append] at hv
      rw [hv]
    | exponent he => rw [← doubleValue_spelled hne hw .absent he, List.nil_append]
  have long {o : Option Token} (h : Ending whole ending o) (hl : ending = ['L']) :
      o = (Number.word? (Numeral.digitsValue whole)).map .long := by
    cases h with
    | long => rfl
    | fraction => cases hl
    | exponent he =>
      obtain ⟨c, cs, rfl, hc⟩ := exponentSpelled_head he
      cases hl
      exact absurd hc (by decide)
  by_cases hl : ending = ['L']
  · rw [long h hl, long h' hl]
  · rw [value h hl, value h' hl]

/-- What is read behind digits is the longest lexeme if no other ending of them is longer. -/
theorem isLongest_of_ending {c : Char} {ds : List Char} (hw : IsDigits (c :: ds))
    (ht : ∀ x ∈ tail.head?, x.isDigit = false) (h : Ending (c :: ds) ending o) (hs : ending <+: tail)
    (hmax : ∀ ending' o', Ending (c :: ds) ending' o' → ending' <+: tail → ending'.length ≤ ending.length) :
    Lexeme.IsLongest c (ds ++ tail) ⟨(ds ++ ending).length, o⟩ := by
  refine .inl ⟨ds ++ ending, rfl, ?_, .number (List.cons_ne_nil c ds) hw h, ?_⟩
  · rw [← List.cons_append, ← List.cons_append, List.prefix_append_right_inj]
    exact hs
  · intro s' o' h' hs'
    obtain ⟨ending', rfl, hpre, hend⟩ := h'.of_digits (List.cons_ne_nil c ds) hw ht hs'
    have hlength := hmax _ _ hend hpre
    simp only [List.length_append, List.length_cons]
    omega

theorem isLongest_of_no_ending {c : Char} {ds : List Char} {l : Lexeme} (hw : IsDigits (c :: ds))
    (ht : ∀ x ∈ tail.head?, x.isDigit = false) (hl : l.token = none)
    (hnone : ∀ ending o, Ending (c :: ds) ending o → ¬ ending <+: tail) :
    Lexeme.IsLongest c (ds ++ tail) l := by
  refine .inr ⟨hl, ?_⟩
  intro s o h hs
  obtain ⟨ending, -, hpre, hend⟩ := h.of_digits (List.cons_ne_nil c ds) hw ht hs
  exact hnone _ _ hend hpre

/-- Behind digits and the mark of a long there is one ending. -/
theorem ofDigits_long {c : Char} {ds : List Char} (hw : IsDigits (c :: ds)) (rest : List Char) :
    Lexeme.IsLongest c (ds ++ 'L' :: rest) (Lexeme.ofDigits c (ds ++ 'L' :: rest)) := by
  have ht : ∀ x ∈ ('L' :: rest).head?, x.isDigit = false := by
    rintro x ⟨⟩
    rfl
  have hds : IsDigits ds := fun x hx => hw x (List.mem_cons_of_mem c hx)
  have hfind : Lexeme.ofDigits c (ds ++ 'L' :: rest) =
      ⟨(ds ++ ['L']).length, (Number.word? (Numeral.digitsValue (c :: ds))).map .long⟩ := by
    rw [Lexeme.ofDigits, takeWhile_digits hds ht, dropWhile_digits hds ht, List.length_append]
    rfl
  rw [hfind]
  refine isLongest_of_ending hw ht .long (by simp) ?_
  intro ending o h hs
  cases h with
  | long => exact Nat.le_refl _
  | fraction => exact absurd (List.cons_prefix_cons.mp hs).1 (by decide)
  | exponent he =>
    obtain ⟨x, xs, rfl, hx⟩ := exponentSpelled_head he
    obtain ⟨rfl, -⟩ := List.cons_prefix_cons.mp hs
    exact absurd hx (by decide)

/-- Behind digits and a point, the longest ending has all of the digits there and the longest exponent. -/
theorem ofDigits_point {c : Char} {ds : List Char} (hw : IsDigits (c :: ds)) (rest : List Char) :
    Lexeme.IsLongest c (ds ++ '.' :: rest) (Lexeme.ofDigits c (ds ++ '.' :: rest)) := by
  have ht (rest : List Char) : ∀ x ∈ ('.' :: rest).head?, x.isDigit = false := by
    rintro x ⟨⟩
    rfl
  have hds : IsDigits ds := fun x hx => hw x (List.mem_cons_of_mem c hx)
  obtain ⟨fs, after, rfl, hfs, hafter⟩ := exists_span Char.isDigit rest
  -- an ending is a part of all the digits, or all of them with an exponent
  have hlength {ending : List Char} {o : Option Token} (h : Ending (c :: ds) ending o)
      (hs : ending <+: '.' :: (fs ++ after)) :
      fs ≠ [] ∧ ending.length ≤ 1 + fs.length + Lexeme.exponentLength after := by
    cases h with
    | long => exact absurd (List.cons_prefix_cons.mp hs).1 (by decide)
    | exponent he =>
      obtain ⟨x, xs, rfl, hx⟩ := exponentSpelled_head he
      obtain ⟨rfl, -⟩ := List.cons_prefix_cons.mp hs
      exact absurd hx (by decide)
    | @fraction fs' exponent e hne hfs' he =>
      obtain ⟨-, rest, hrest⟩ := List.cons_prefix_cons.mp hs
      rw [List.append_assoc] at hrest
      cases he with
      | absent =>
        have hle := length_le_takeWhile hfs' ⟨rest, hrest⟩
        rw [takeWhile_digits hfs hafter] at hle
        have hpos := List.length_pos_iff.mpr hne
        exact ⟨List.length_pos_iff.mp (by omega), by simp only [List.append_nil, List.length_cons]; omega⟩
      | @mark x sign es _ hx hsign hes hd =>
        have hhead : ∀ y ∈ (x :: (sign ++ es) ++ rest).head?, y.isDigit = false := by
          rintro y ⟨⟩
          rcases hx with rfl | rfl <;> rfl
        obtain ⟨rfl, rfl⟩ := digits_unique hfs' hfs hhead hafter hrest
        have hle := le_exponentLength (.mark hx hsign hes hd) (List.prefix_append _ rest)
        refine ⟨hne, ?_⟩
        rw [List.length_cons, List.length_append]
        omega
  by_cases hne : fs = []
  · subst hne
    refine isLongest_of_no_ending hw (ht _) ?_ fun ending o h hs => (hlength h hs).1 rfl
    rw [Lexeme.ofDigits, dropWhile_digits hds (ht _), List.nil_append]
    have hnil : after.takeWhile Char.isDigit = [] := @takeWhile_digits [] after (by simp [IsDigits]) hafter
    simp [hnil]
  · obtain ⟨exponent, rest, e, hsplit, hk, he⟩ := exponentLength_sound after
    have hmore : ds.length + 1 + fs.length + Lexeme.exponentLength after =
        (ds ++ '.' :: (fs ++ exponent)).length := by
      rw [hk]
      simp only [List.length_append, List.length_cons]
      omega
    have htake : (ds ++ '.' :: (fs ++ after)).take (ds ++ '.' :: (fs ++ exponent)).length =
        ds ++ '.' :: (fs ++ exponent) := by
      have hfront : ds ++ '.' :: (fs ++ after) = (ds ++ '.' :: (fs ++ exponent)) ++ rest := by simp [hsplit]
      rw [hfront, List.take_left]
    have hvalue := doubleValue_spelled (List.cons_ne_nil c ds) hw (.point hfs) he
    rw [List.cons_append, List.cons_append] at hvalue
    have hfind := ofDigits_fraction (c := c) hds hne hfs hafter hmore
    rw [hfind, htake, hvalue]
    refine isLongest_of_ending hw (ht _) (.fraction hne hfs he) (by simp [hsplit]) ?_
    intro ending o h hs
    have hle := (hlength h hs).2
    rw [List.length_cons, List.length_append]
    omega

/-- Behind digits that neither the mark of a long nor a point follows, the longest ending is an exponent. -/
theorem ofDigits_other {c : Char} {ds : List Char} (hw : IsDigits (c :: ds))
    (ht : ∀ x ∈ tail.head?, x.isDigit = false ∧ x ≠ 'L' ∧ x ≠ '.') :
    Lexeme.IsLongest c (ds ++ tail) (Lexeme.ofDigits c (ds ++ tail)) := by
  have hds : IsDigits ds := fun x hx => hw x (List.mem_cons_of_mem c hx)
  have hdigit : ∀ x ∈ tail.head?, x.isDigit = false := fun x hx => (ht x hx).1
  have hend {ending : List Char} {o : Option Token} (h : Ending (c :: ds) ending o) (hs : ending <+: tail) :
      ending ≠ [] ∧ ending.length ≤ Lexeme.exponentLength tail := by
    have hhead {x : Char} {xs : List Char} (hx : x :: xs <+: tail) : x ≠ 'L' ∧ x ≠ '.' := by
      obtain ⟨rest, rfl⟩ := hx
      exact (ht x rfl).2
    cases h with
    | long => exact absurd rfl (hhead hs).1
    | fraction => exact absurd rfl (hhead hs).2
    | exponent he =>
      obtain ⟨x, xs, rfl, -⟩ := exponentSpelled_head he
      exact ⟨List.cons_ne_nil x xs, le_exponentLength he hs⟩
  rw [ofDigits_exponent hds ht]
  obtain ⟨exponent, rest, e, rfl, hk, he⟩ := exponentLength_sound tail
  by_cases hl : exponent.length ≠ 0
  · have hvalue := doubleValue_spelled (List.cons_ne_nil c ds) hw .absent he
    rw [List.nil_append, List.cons_append] at hvalue
    rw [hk, if_pos hl, ← List.length_append, ← List.append_assoc, List.take_left, hvalue, List.append_assoc]
    cases he with
    | absent => exact absurd rfl hl
    | mark hx hsign hes hd =>
      have hspelled := ExponentSpelled.mark hx hsign hes hd
      apply isLongest_of_ending hw hdigit (.exponent hspelled) (List.prefix_append _ _)
      intro ending o h hs
      exact hk ▸ (hend h hs).2
  · rw [hk, if_neg hl]
    apply isLongest_of_no_ending hw hdigit rfl
    intro ending o h hs
    obtain ⟨hne, hle⟩ := hend h hs
    have hpos := List.length_pos_iff.mpr hne
    omega

theorem isLongest_ofDigits {c : Char} (hc : c.isDigit = true) (cs : List Char) :
    Lexeme.IsLongest c cs (Lexeme.ofDigits c cs) := by
  obtain ⟨ds, tail, rfl, hds, htail⟩ := exists_span Char.isDigit cs
  have hw : IsDigits (c :: ds) := List.forall_mem_cons.mpr ⟨hc, hds⟩
  cases tail with
  | nil => exact ofDigits_other hw (by simp)
  | cons x rest =>
    by_cases hl : x = 'L'
    · exact hl ▸ ofDigits_long hw rest
    by_cases hp : x = '.'
    · exact hp ▸ ofDigits_point hw rest
    refine ofDigits_other hw ?_
    rintro y ⟨⟩
    exact ⟨htail x rfl, hl, hp⟩

end Numbers

section Others

variable {c : Char} {cs s : List Char} {o : Option Token}

theorem bodyLength_of_body {body : List Char} (h : Body body) (n : Nat) (rest : List Char) :
    Lexeme.bodyLength n (body ++ '"' :: rest) = (n + body.length, true) := by
  induction h generalizing n with
  | nil => rfl
  | plain hq hb _ ih =>
    rw [List.cons_append, bodyLength_cons hq hb, ih, List.length_cons]
    congr 1
    omega
  | escaped hn _ ih =>
    rw [List.cons_append, List.cons_append, Lexeme.bodyLength, if_neg hn, ih, List.length_cons, List.length_cons]
    congr 1
    omega

/-- The closing quote stands where reading the body ends, whichever body it is. -/
theorem Body.length_unique {body body' rest rest' : List Char} (h : Body body) (h' : Body body')
    (heq : body ++ '"' :: rest = body' ++ '"' :: rest') : body.length = body'.length := by
  have hlength := bodyLength_of_body h 0 rest
  rw [heq, bodyLength_of_body h' 0 rest', Prod.mk.injEq] at hlength
  omega

theorem body_of_bodyLength {n m : Nat} (h : Lexeme.bodyLength n cs = (m, true)) :
    ∃ body rest, cs = body ++ '"' :: rest ∧ Body body ∧ m = n + body.length := by
  fun_induction Lexeme.bodyLength n cs with
  | case1 => cases h
  | case2 n rest =>
    cases h
    exact ⟨[], rest, rfl, .nil, rfl⟩
  | case3 => cases h
  | case4 n c rest hn ih =>
    obtain ⟨body, rest, rfl, hbody, rfl⟩ := ih h
    exact ⟨'\\' :: c :: body, rest, rfl, .escaped hn hbody, by simp only [List.length_cons]; omega⟩
  | case5 => cases h
  | case6 n c rest hq hb hl ih =>
    have hne : c ≠ '\\' := by
      intro hc
      cases rest with
      | nil => exact hl hc rfl
      | cons d rest => exact hb d rest hc rfl
    obtain ⟨body, rest, rfl, hbody, rfl⟩ := ih h
    exact ⟨c :: body, rest, rfl, .plain hq hne hbody, by simp only [List.length_cons]; omega⟩

theorem Matches.exists_cons (h : Matches s o) : ∃ c cs, s = c :: cs ∧ Lexeme.isBlank c = false := by
  cases h with
  | number hne hw _ =>
    obtain ⟨d, ds, rfl⟩ := List.exists_cons_of_ne_nil hne
    exact ⟨d, _, rfl, isBlank_digit (hw d List.mem_cons_self)⟩
  | str => exact ⟨_, _, rfl, rfl⟩
  | name hc => exact ⟨_, _, rfl, not_blank_of_part (isPart_of_namePart (isNamePart_of_start hc))⟩
  | punctuation hc => exact ⟨_, _, rfl, (punctuation_char hc).2.2.2⟩

private theorem not_digits {whole ending : List Char} (hc : c.isDigit = false) (hne : whole ≠ [])
    (hw : IsDigits whole) (hs : whole ++ ending <+: c :: cs) : False := by
  obtain ⟨d, ds, rfl⟩ := List.exists_cons_of_ne_nil hne
  obtain ⟨rfl, -⟩ := List.cons_prefix_cons.mp hs
  exact Bool.false_ne_true (hc.symm.trans (hw d List.mem_cons_self))

theorem Matches.of_quote (h : Matches s o) (hs : s <+: '"' :: cs) :
    ∃ body rest, Body body ∧ s = '"' :: (body ++ ['"']) ∧ cs = body ++ '"' :: rest ∧
      o = (Lexeme.unescape body).map fun s => .str (String.ofList s) := by
  cases h with
  | number hne hw _ => exact (not_digits (by decide) hne hw hs).elim
  | @str body hbody =>
    obtain ⟨-, rest, rfl⟩ := List.cons_prefix_cons.mp hs
    exact ⟨body, rest, hbody, rfl, by rw [List.append_assoc]; rfl, rfl⟩
  | name hc => exact absurd (List.cons_prefix_cons.mp hs).1 (ne_quote_of_nameStart hc)
  | punctuation hc => exact absurd (List.cons_prefix_cons.mp hs).1 (punctuation_char hc).2.1

theorem Matches.of_nameStart (hc : Lexeme.isNameStart c = true) (h : Matches s o) (hs : s <+: c :: cs) :
    ∃ part, s = c :: part ∧ part <+: cs ∧ (∀ x ∈ part, Lexeme.isNamePart x = true) ∧
      o = some (Lexeme.ofName (String.ofList s)) := by
  cases h with
  | number hne hw _ => exact (not_digits (not_digit_of_nameStart hc) hne hw hs).elim
  | str => exact absurd (List.cons_prefix_cons.mp hs).1.symm (ne_quote_of_nameStart hc)
  | name _ hpart =>
    obtain ⟨rfl, hfront⟩ := List.cons_prefix_cons.mp hs
    exact ⟨_, rfl, hfront, hpart, rfl⟩
  | punctuation hp =>
    obtain ⟨rfl, -⟩ := List.cons_prefix_cons.mp hs
    exact absurd hc (by simp [(punctuation_char hp).2.2.1])

theorem Matches.of_mark (hd : c.isDigit = false) (hq : c ≠ '"') (hn : Lexeme.isNameStart c = false)
    (h : Matches s o) (hs : s <+: c :: cs) : s = [c] ∧ o ≠ none ∧ Lexeme.punctuation? c = o := by
  cases h with
  | number hne hw _ => exact (not_digits hd hne hw hs).elim
  | str => exact absurd (List.cons_prefix_cons.mp hs).1.symm hq
  | name hc =>
    obtain ⟨rfl, -⟩ := List.cons_prefix_cons.mp hs
    exact absurd hc (by simp [hn])
  | punctuation hp =>
    obtain ⟨rfl, -⟩ := List.cons_prefix_cons.mp hs
    exact ⟨rfl, Option.some_ne_none _, hp⟩

theorem isLongest_ofQuote (cs : List Char) : Lexeme.IsLongest '"' cs (Lexeme.ofQuote cs) := by
  unfold Lexeme.ofQuote
  rcases hlength : Lexeme.bodyLength 0 cs with ⟨m, _ | _⟩
  · refine .inr ⟨rfl, ?_⟩
    intro s o h hs
    obtain ⟨body, rest, hbody, -, rfl, -⟩ := h.of_quote hs
    cases hlength.symm.trans (bodyLength_of_body hbody 0 rest)
  · obtain ⟨body, rest, rfl, hbody, rfl⟩ := body_of_bodyLength hlength
    refine .inl ⟨body ++ ['"'], by simp, by simp, ?_, ?_⟩
    · simp only [Nat.zero_add, List.take_left]
      exact .str hbody
    · intro s o h hs
      obtain ⟨body', rest', hbody', rfl, hcs, -⟩ := h.of_quote hs
      have hm := hbody.length_unique hbody' hcs
      simp only [List.length_cons, List.length_append]
      omega

/-- Reading finds the longest lexeme at the front of a text. -/
theorem isLongest_find (c : Char) (cs : List Char) : Lexeme.IsLongest c cs (Lexeme.find c cs) := by
  unfold Lexeme.find
  by_cases hd : c.isDigit = true
  · rw [if_pos hd]
    exact isLongest_ofDigits hd cs
  by_cases hq : c = '"'
  · subst hq
    rw [if_neg hd, if_pos rfl]
    exact isLongest_ofQuote cs
  by_cases hn : Lexeme.isNameStart c = true
  · rw [if_neg hd, if_neg hq, if_pos hn]
    refine .inl ⟨cs.takeWhile Lexeme.isNamePart, rfl, ?_, .name hn ?_, ?_⟩
    · exact List.cons_prefix_cons.mpr ⟨rfl, List.takeWhile_prefix _⟩
    · exact List.all_eq_true.mp List.all_takeWhile
    · intro s o h hs
      obtain ⟨part, rfl, hs, hpart, -⟩ := h.of_nameStart hn hs
      exact Nat.succ_le_succ (length_le_takeWhile hpart hs)
  · rw [if_neg hd, if_neg hq, if_neg hn]
    rw [Bool.not_eq_true] at hd hn
    cases hp : Lexeme.punctuation? c with
    | none =>
      refine .inr ⟨rfl, ?_⟩
      intro s o h hs
      obtain ⟨-, hne, ho⟩ := h.of_mark hd hq hn hs
      exact hne (ho.symm.trans hp)
    | some t =>
      refine .inl ⟨[], rfl, by simp, .punctuation hp, ?_⟩
      intro s o h hs
      obtain ⟨rfl, -⟩ := h.of_mark hd hq hn hs
      exact Nat.le_refl _

end Others

section Uniqueness

variable {c : Char} {cs s s' rest : List Char} {o o' : Option Token}

theorem Matches.unique (h : Matches s o) (h' : Matches s o') : o = o' := by
  cases h with
  | number hne hw hend =>
    have hdigit := hend.not_digit []
    rw [List.append_nil] at hdigit
    obtain ⟨ending, heq, -, hend'⟩ := h'.of_digits hne hw hdigit List.prefix_rfl
    obtain rfl := List.append_cancel_left heq
    exact hend.unique hne hw hend'
  | str =>
    obtain ⟨body, rest, -, heq, -, rfl⟩ := h'.of_quote List.prefix_rfl
    obtain rfl := List.append_cancel_right (List.cons.inj heq).2
    rfl
  | name hc =>
    obtain ⟨-, -, -, -, ho⟩ := h'.of_nameStart hc List.prefix_rfl
    exact ho.symm
  | punctuation hp =>
    obtain ⟨hd, hq, hn, -⟩ := punctuation_char hp
    obtain ⟨-, -, ho⟩ := h'.of_mark hd hq hn List.prefix_rfl
    exact hp.symm.trans ho

theorem Longest.unique (h : Longest cs s o) (h' : Longest cs s' o') : s = s' ∧ o = o' := by
  have hle := h'.longest h.found h.front
  have hge := h.longest h'.found h'.front
  obtain rfl : s = s' := (List.prefix_of_prefix_length_le h.front h'.front hle).eq_of_length (by omega)
  exact ⟨rfl, h.found.unique h'.found⟩

theorem Longest.find_eq (h : Longest (c :: cs) (c :: s) o) : Lexeme.find c cs = ⟨s.length, o⟩ := by
  rcases isLongest_find c cs with ⟨s', hmore, h'⟩ | ⟨-, hnone⟩
  · obtain ⟨hs, rfl⟩ := h'.unique h
    rw [← (List.cons.inj hs).2, ← hmore]
  · exact absurd h.front (hnone h.found)

/-- The longest lexeme stays the longest when the text behind it is cut off. -/
theorem Longest.cut {more : List Char} (h : Longest (s ++ (rest ++ more)) s o) : Longest (s ++ rest) s o := by
  refine ⟨List.prefix_append _ _, h.found, ?_⟩
  intro s' o' h' hs'
  refine h.longest h' (hs'.trans ?_)
  rw [← List.append_assoc]
  exact List.prefix_append _ _

end Uniqueness

section Blanks

variable {s rest : List Char} {o : Option Token}

theorem isPart_of_exponentSpelled {exponent : List Char} {e : Option (Bool × List Char)}
    (h : ExponentSpelled exponent e) : ∀ c ∈ exponent, isPart c = true := by
  cases h with
  | absent => simp
  | mark hc hsign _ hd =>
    rw [List.forall_mem_cons, List.forall_mem_append]
    refine ⟨?_, ?_, fun x hx => isPart_of_digit (hd x hx)⟩
    · rcases hc with rfl | rfl <;> rfl
    · cases hsign with
      | absent => simp
      | plus | minus => exact List.forall_mem_singleton.mpr rfl

theorem isPart_of_ending {whole ending : List Char} (h : Ending whole ending o) :
    ∀ c ∈ ending, isPart c = true := by
  cases h with
  | long => exact List.forall_mem_singleton.mpr rfl
  | fraction _ hd he =>
    rw [List.forall_mem_cons, List.forall_mem_append]
    exact ⟨rfl, fun x hx => isPart_of_digit (hd x hx), isPart_of_exponentSpelled he⟩
  | exponent he => exact isPart_of_exponentSpelled he

theorem isPart_of_number {whole ending : List Char} (hw : IsDigits whole) (hend : Ending whole ending o) :
    ∀ c ∈ whole ++ ending, isPart c = true :=
  List.forall_mem_append.mpr ⟨fun x hx => isPart_of_digit (hw x hx), isPart_of_ending hend⟩

theorem isPart_of_name {c : Char} {cs : List Char} (hc : Lexeme.isNameStart c = true)
    (hpart : ∀ x ∈ cs, Lexeme.isNamePart x = true) : ∀ x ∈ c :: cs, isPart x = true :=
  List.forall_mem_cons.mpr
    ⟨isPart_of_namePart (isNamePart_of_start hc), fun x hx => isPart_of_namePart (hpart x hx)⟩

/-- A lexeme is a string literal, a punctuation mark, or a run of the characters of names and numbers. -/
theorem Matches.parts (h : Matches s o) :
    s.head? = some '"' ∨ (∃ c t, s = [c] ∧ Lexeme.punctuation? c = some t) ∨ ∀ c ∈ s, isPart c = true := by
  cases h with
  | number _ hw hend => exact .inr (.inr (isPart_of_number hw hend))
  | str => exact .inl rfl
  | name hc hpart => exact .inr (.inr (isPart_of_name hc hpart))
  | punctuation hp => exact .inr (.inl ⟨_, _, rfl, hp⟩)

/-- Only string literals contain blanks and quotes. -/
theorem Matches.not_blank (h : Matches s o) (hq : s.head? ≠ some '"') :
    ∀ c ∈ s, Lexeme.isBlank c = false ∧ c ≠ '"' := by
  rcases h.parts with hs | ⟨c, t, rfl, hp⟩ | hs
  · exact absurd hs hq
  · obtain ⟨-, hc, -, hb⟩ := punctuation_char hp
    exact List.forall_mem_singleton.mpr ⟨hb, hc⟩
  · refine fun c hc => ⟨not_blank_of_part (hs c hc), ?_⟩
    rintro rfl
    exact absurd (hs _ hc) (by decide)

/-- No string literal is the front of a longer one. -/
theorem Matches.length_of_quote {s' : List Char} {o' : Option Token} (hq : s.head? = some '"')
    (h : Matches s o) (h' : Matches s' o') (hs : s <+: s') : s.length = s'.length := by
  obtain ⟨c, cs, rfl, -⟩ := h.exists_cons
  obtain rfl : c = '"' := Option.some.inj hq
  obtain ⟨more, rfl⟩ := hs
  have hfront : '"' :: cs <+: '"' :: (cs ++ more) := List.prefix_append ('"' :: cs) more
  have hwhole : '"' :: cs ++ more <+: '"' :: (cs ++ more) := List.prefix_rfl
  obtain ⟨body, rest, hbody, hbs, hcs, -⟩ := h.of_quote hfront
  obtain ⟨body', rest', hbody', hbs', hcs', -⟩ := h'.of_quote hwhole
  have hm := hbody.length_unique hbody' (hcs.symm.trans hcs')
  rw [hbs', hbs]
  simp only [List.length_cons, List.length_append]
  omega

/-- Every lexeme is the longest at the end of a text and in front of a blank. -/
theorem Matches.longest (h : Matches s o) (hr : ∀ c ∈ rest.head?, Lexeme.isBlank c = true) :
    Longest (s ++ rest) s o := by
  refine ⟨List.prefix_append _ _, h, ?_⟩
  intro s' o' h' hs'
  by_contra hlt
  rw [not_le] at hlt
  obtain ⟨more, rfl⟩ := List.prefix_of_prefix_length_le (List.prefix_append s rest) hs' hlt.le
  cases more with
  | nil => simp at hlt
  | cons c more =>
    -- what is longer goes on with a blank, so both are string literals
    have hc : c ∈ rest.head? := by
      obtain ⟨after, rfl⟩ := (List.prefix_append_right_inj s).mp hs'
      rfl
    by_cases hq : s.head? = some '"'
    · exact absurd (h.length_of_quote hq h' (List.prefix_append _ _)) (by omega)
    · obtain ⟨d, ds, rfl, -⟩ := h.exists_cons
      have hblank := (h'.not_blank hq c (by simp)).1
      exact Bool.false_ne_true (hblank.symm.trans (hr c hc))

end Blanks

end ContextCodegen.Target
