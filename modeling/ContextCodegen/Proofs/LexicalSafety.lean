import Mathlib.Combinatorics.Enumerative.DyckWord
import ContextCodegen.Proofs.NativeForms
import ContextCodegen.Proofs.PrintableText
import ContextCodegen.Proofs.Tokenization

/-! Generated text as a reader of characters sees it. Outside string literals, no minus sign stands behind another
one, and the parentheses are those of a term, so they form a Dyck word. -/
namespace ContextCodegen

namespace Target

section Parentheses

def Token.parenthesis? : Token → Option DyckStep
  | .lparen => some .U
  | .rparen => some .D
  | _ => none

def parenthesis? (c : Char) : Option DyckStep :=
  if c = '(' then some .U else if c = ')' then some .D else none

/-- Every closing parenthesis has an opening one before it, and every opening one is closed. -/
def Balanced (steps : List DyckStep) : Prop := ∃ w : DyckWord, w.toList = steps

theorem balanced_nil : Balanced [] := ⟨0, rfl⟩

theorem Balanced.append {xs ys : List DyckStep} (h : Balanced xs) (h' : Balanced ys) : Balanced (xs ++ ys) := by
  obtain ⟨v, rfl⟩ := h
  obtain ⟨w, rfl⟩ := h'
  exact ⟨v + w, rfl⟩

theorem Balanced.nest {xs : List DyckStep} (h : Balanced xs) : Balanced (.U :: (xs ++ [.D])) := by
  obtain ⟨w, rfl⟩ := h
  exact ⟨w.nest, rfl⟩

theorem Derives.balanced {p : Phrase} {ts : List Token} (h : Derives p ts) :
    Balanced (ts.filterMap Token.parenthesis?) := by
  induction h with
  | unary _ ih | chain _ _ ih | primary _ ih | one _ ih | neg _ ih | not _ ih | new _ _ ih => exact ih
  | long | double | str | bool | name => exact balanced_nil
  | empty => exact balanced_nil.nest
  | cast _ _ ih => exact balanced_nil.nest.append ih
  | field _ _ ih =>
    rw [List.filterMap_append]
    exact ih.append balanced_nil
  | call _ _ _ iht ihu | more _ _ iht ihu =>
    rw [List.filterMap_append]
    exact iht.append ihu
  | binary op _ _ iht ihu =>
    rw [List.filterMap_append]
    cases op <;> exact iht.append ihu
  | paren _ ih | args _ ih =>
    rw [List.filterMap_append]
    exact ih.nest

end Parentheses

section Quiet

/-- Words and string literals one behind the other, where no minus sign of a word stands behind another one, the
character before the text included. -/
inductive Quiet : Char → List Char → Prop
  | nil {before : Char} : Quiet before []
  | plain {before c : Char} {cs : List Char} : c ≠ '"' → ¬ (before = '-' ∧ c = '-') → Quiet c cs →
      Quiet before (c :: cs)
  | literal {before : Char} {cs : List Char} (s : String) : Quiet '"' cs →
      Quiet before ((stringLiteral s).toList ++ cs)

variable {before c : Char} {cs ds rest : List Char}

theorem stringLiteral_cons (s : String) : ∃ cs, (stringLiteral s).toList = '"' :: (cs ++ ['"']) :=
  ⟨s.toList.flatMap escape, by rw [stringLiteral_eq, String.toList_ofList]⟩

theorem Quiet.of_minus (h : Quiet '-' cs) (before : Char) : Quiet before cs := by
  cases h with
  | nil => exact .nil
  | plain hq hm h => exact .plain hq (fun hc => hm ⟨rfl, hc.2⟩) h
  | literal s h => exact .literal s h

theorem Quiet.append (h : Quiet before cs) (h' : Quiet '-' ds) : Quiet before (cs ++ ds) := by
  induction h with
  | nil => exact h'.of_minus _
  | plain hq hm _ ih => exact .plain hq hm ih
  | literal s _ ih =>
    rw [List.append_assoc]
    exact .literal s ih

theorem quiet_of_calm (hq : '"' ∉ cs) (h : calmAfter before cs = true) : Quiet before cs := by
  induction cs generalizing before with
  | nil => exact .nil
  | cons c cs ih =>
    rw [List.mem_cons, not_or] at hq
    simp only [calmAfter, Bool.and_eq_true, Bool.not_eq_true', Bool.and_eq_false_iff, beq_eq_false_iff_ne] at h
    exact .plain (Ne.symm hq.1) (not_and_or.mpr h.1) (ih hq.2 h.2)

theorem quiet_of_worded {s : String} (h : Worded s) : Quiet '-' s.toList := by
  induction h with
  | word h => exact quiet_of_calm h.unquoted h.calm
  | literal s =>
    rw [← List.append_nil (stringLiteral s).toList]
    exact .literal s .nil
  | append _ _ hs ht =>
    rw [String.toList_append]
    exact hs.append ht

theorem Quiet.of_plain (h : Quiet before (c :: cs)) (hq : c ≠ '"') : ¬ (before = '-' ∧ c = '-') ∧ Quiet c cs := by
  generalize hcs : c :: cs = text at h
  cases h with
  | nil => cases hcs
  | plain _ hm h =>
    cases hcs
    exact ⟨hm, h⟩
  | literal s _ =>
    obtain ⟨body, hbody⟩ := stringLiteral_cons s
    rw [hbody] at hcs
    exact absurd (List.cons.inj hcs).1 hq

theorem Quiet.of_quote (h : Quiet before cs) (hq : cs.head? = some '"') :
    ∃ s rest, cs = (stringLiteral s).toList ++ rest ∧ Quiet '"' rest := by
  cases h with
  | nil => cases hq
  | plain hne _ _ => exact absurd (Option.some.inj hq) hne
  | literal s h => exact ⟨s, _, rfl, h⟩

theorem Quiet.head_ne (h : Quiet '-' cs) : cs.head? ≠ some '-' := by
  cases cs with
  | nil => simp
  | cons c cs =>
    rintro ⟨⟩
    exact (h.of_plain (by decide)).1 ⟨rfl, rfl⟩

/-- Two minus signs one behind the other stand behind all of the characters in front of the first quote. -/
theorem Quiet.skip (hq : '"' ∉ cs) (h : Quiet before (cs ++ rest)) : (∃ c, Quiet c rest) ∧
    ∀ a b, cs ++ rest = a ++ '-' :: '-' :: b → ∃ a', a = cs ++ a' ∧ rest = a' ++ '-' :: '-' :: b := by
  induction cs generalizing before with
  | nil => exact ⟨⟨before, h⟩, fun a b hab => ⟨a, rfl, hab⟩⟩
  | cons c cs ih =>
    rw [List.mem_cons, not_or] at hq
    obtain ⟨-, hc⟩ := h.of_plain (Ne.symm hq.1)
    obtain ⟨hrest, hskip⟩ := ih hq.2 hc
    refine ⟨hrest, ?_⟩
    intro a b hab
    cases a with
    | nil =>
      obtain ⟨rfl, hb⟩ := List.cons.inj hab
      exact absurd (congrArg List.head? hb) hc.head_ne
    | cons x a =>
      obtain ⟨rfl, hb⟩ := List.cons.inj hab
      obtain ⟨a', rfl, hrest⟩ := hskip a b hb
      exact ⟨a', rfl, hrest⟩

end Quiet

namespace Piece

def outside (p : Piece) : List Char :=
  match p.token with
  | .str _ => p.blanks
  | _ => p.chars

section Literals

variable {p : Piece} {ps : List Piece} {before : Char} {rest : List Char}

theorem longest_stringLiteral (s : String) (rest : List Char) :
    Longest ((stringLiteral s).toList ++ rest) (stringLiteral s).toList (some (.str s)) := by
  have hfind := find_stringLiteral s rest
  rw [stringLiteral_eq, String.toList_ofList, List.cons_append]
  rcases isLongest_find '"' ((s.toList.flatMap escape ++ ['"']) ++ rest) with ⟨body, hmore, h⟩ | ⟨hnone, -⟩
  · rw [hfind] at hmore h
    have hfront := (List.cons_prefix_cons.mp h.front).2
    have hbody := List.prefix_of_prefix_length_le hfront (List.prefix_append _ rest) (Nat.le_of_eq hmore.symm)
    rwa [hbody.eq_of_length hmore.symm] at h
  · rw [hfind] at hnone
    cases hnone

/-- A piece that starts with a quote, in a text of words and string literals, is one of these literals. -/
theorem eq_stringLiteral (hp : Longest (p.lexeme ++ rest) p.lexeme (some p.token))
    (hq : p.lexeme.head? = some '"') (h : Quiet before (p.lexeme ++ rest)) :
    ∃ s, p.lexeme = (stringLiteral s).toList ∧ p.token = .str s ∧ Quiet '"' rest := by
  have hhead : (p.lexeme ++ rest).head? = some '"' := by
    rw [List.head?_append, hq]
    rfl
  obtain ⟨s, rest', heq, hrest⟩ := h.of_quote hhead
  have hlit := longest_stringLiteral s rest'
  rw [← heq] at hlit
  obtain ⟨hlexeme, htoken⟩ := hp.unique hlit
  rw [← hlexeme] at heq
  obtain rfl := List.append_cancel_left heq
  exact ⟨s, hlexeme, Option.some.inj htoken, hrest⟩

/-- Two minus signs stand in the front of a text or behind it, if the front does not end between them. -/
theorem minuses_split {l rest a b : List Char} (hl : l.getLast? ≠ some '-')
    (h : l ++ rest = a ++ '-' :: '-' :: b) :
    (∃ y, l = a ++ '-' :: '-' :: y ∧ b = y ++ rest) ∨ ∃ a', a = l ++ a' ∧ rest = a' ++ '-' :: '-' :: b := by
  rcases List.append_eq_append_iff.mp h with ⟨a', ha, hrest⟩ | ⟨y, rfl, hy⟩
  · exact .inr ⟨a', ha, hrest⟩
  rcases y with _ | ⟨c, _ | ⟨d, y⟩⟩
  · exact .inr ⟨[], by simp, hy.symm⟩
  · cases hy
    simp at hl
  · cases hy
    exact .inl ⟨y, rfl, rfl⟩

theorem quote_not_mem_blanks {w : List Char} (hw : ∀ c ∈ w, Lexeme.isBlank c = true) : '"' ∉ w :=
  fun h => absurd (hw _ h) (by decide)

/-- Two minus signs one behind the other, in a text of words and string literals, stand in the lexeme of a
string literal. -/
theorem Laid.minuses_in_literal (hl : Laid [] ps) (h : Quiet before (text ps)) {a b : List Char}
    (hab : text ps = a ++ '-' :: '-' :: b) :
    ∃ front p back s x y, ps = front ++ p :: back ∧ p.token = .str s ∧ a = text front ++ x ∧
      p.lexeme = x ++ '-' :: '-' :: y ∧ b = y ++ (p.blanks ++ text back) := by
  induction hl generalizing before a with
  | nil => simp [text] at hab
  | @cons p ps hp _ ih =>
    rw [List.append_nil] at hp
    rw [text_cons] at h hab
    -- what lies behind the lexeme lies behind its blanks
    have behind {c : Char} {a' : List Char} (ha : a = p.lexeme ++ a') (hc : Quiet c (p.blanks ++ text ps))
        (hab : p.blanks ++ text ps = a' ++ '-' :: '-' :: b) :
        ∃ front q back s x y, p :: ps = front ++ q :: back ∧ q.token = .str s ∧ a = text front ++ x ∧
          q.lexeme = x ++ '-' :: '-' :: y ∧ b = y ++ (q.blanks ++ text back) := by
      obtain ⟨⟨d, hd⟩, hskip⟩ := hc.skip (quote_not_mem_blanks p.blank)
      obtain ⟨a'', rfl, hrest⟩ := hskip _ _ hab
      obtain ⟨front, q, back, s, x, y, rfl, hs, rfl, hx, hb⟩ := ih hd hrest
      refine ⟨p :: front, q, back, s, x, y, rfl, hs, ?_, hx, hb⟩
      rw [ha, text_cons]
      simp only [List.append_assoc]
    by_cases hq : p.lexeme.head? = some '"'
    · obtain ⟨s, hs, htoken, hrest⟩ := eq_stringLiteral hp hq h
      obtain ⟨body, hbody⟩ := stringLiteral_cons s
      have hlast : p.lexeme.getLast? ≠ some '-' := by
        rw [hs, hbody, ← List.cons_append, List.getLast?_concat]
        decide
      rcases minuses_split hlast hab with ⟨y, hy, hb⟩ | ⟨a', ha, hab'⟩
      · exact ⟨[], p, ps, s, a, y, rfl, htoken, rfl, hy, hb⟩
      · exact behind ha hrest hab'
    · obtain ⟨⟨c, hc⟩, hskip⟩ := h.skip fun hm => (p.found.not_blank hq _ hm).2 rfl
      obtain ⟨a', ha, hrest⟩ := hskip _ _ hab
      exact behind ha hc hrest

end Literals

section Parentheses

theorem filterMap_parenthesis {p : Char → Bool} {cs : List Char} (hopen : p '(' = false) (hclose : p ')' = false)
    (h : ∀ c ∈ cs, p c = true) : cs.filterMap parenthesis? = [] := by
  rw [List.filterMap_eq_nil_iff]
  intro c hc
  have hne {d : Char} (hd : p d = false) : c ≠ d := by
    rintro rfl
    exact Bool.false_ne_true (hd.symm.trans (h c hc))
  rw [parenthesis?, if_neg (hne hopen), if_neg (hne hclose)]

/-- The parentheses of a lexeme other than a string literal are those of its token. -/
theorem parentheses_lexeme {s : List Char} {o : Option Token} (h : Matches s o) {t : Token} (ho : o = some t)
    (ht : ∀ x, t ≠ .str x) : s.filterMap parenthesis? = t.parenthesis?.toList := by
  cases h with
  | number _ hw hend =>
    rw [filterMap_parenthesis rfl rfl (isPart_of_number hw hend)]
    cases hend with
    | long =>
      obtain ⟨n, -, rfl⟩ := Option.map_eq_some_iff.mp ho
      rfl
    | fraction | exponent =>
      cases ho
      rfl
  | str =>
    obtain ⟨x, -, rfl⟩ := Option.map_eq_some_iff.mp ho
    exact absurd rfl (ht _)
  | name hc hpart =>
    rw [filterMap_parenthesis rfl rfl (isPart_of_name hc hpart)]
    cases ho
    unfold Lexeme.ofName
    split_ifs <;> rfl
  | punctuation hp =>
    cases ho
    unfold Lexeme.punctuation? at hp
    split_ifs at hp <;> cases hp <;> subst_vars <;> rfl

theorem parentheses_outside (p : Piece) : p.outside.filterMap parenthesis? = p.token.parenthesis?.toList := by
  by_cases ht : ∃ x, p.token = .str x
  · obtain ⟨x, hx⟩ := ht
    rw [outside, hx]
    exact filterMap_parenthesis rfl rfl p.blank
  · rw [not_exists] at ht
    have hout : p.outside = p.chars := by
      unfold outside
      split
      · rename_i x hx
        exact absurd hx (ht x)
      · rfl
    rw [hout, chars, List.filterMap_append, filterMap_parenthesis rfl rfl p.blank, List.append_nil]
    exact parentheses_lexeme p.found rfl ht

theorem parentheses_pieces (ps : List Piece) :
    (ps.flatMap outside).filterMap parenthesis? = (ps.map token).filterMap Token.parenthesis? := by
  induction ps with
  | nil => rfl
  | cons p ps ih =>
    rw [List.flatMap_cons, List.filterMap_append, parentheses_outside, ih, List.map_cons, List.filterMap_cons]
    cases p.token.parenthesis? <;> rfl

end Parentheses

end Piece

end Target

open Target Piece

/-- The text has no control character and no minus sign in front, and it is read as tokens. Among its lexemes, two
minus signs one behind the other stand only in one of a string literal, and outside these the parentheses are
balanced. -/
structure LexicallySafe (s : String) : Prop where
  printable : Printable s
  front : s.toList.head? ≠ some '-'
  lexemes : ∃ (w : List Char) (ps : List Piece), s.toList = w ++ text ps ∧
    (∀ c ∈ w, Lexeme.isBlank c = true) ∧ Laid [] ps ∧
    tokenize s = .ok (placed (String.ofList w).utf8ByteSize ps) ∧
    (∀ a b, s.toList = a ++ '-' :: '-' :: b → ∃ front p back t x y,
      ps = front ++ p :: back ∧ p.token = .str t ∧ a = w ++ (text front ++ x) ∧
      p.lexeme = x ++ '-' :: '-' :: y ∧ b = y ++ (p.blanks ++ text back)) ∧
    Balanced ((w ++ ps.flatMap outside).filterMap parenthesis?)

theorem denotes_of_generate {e : Expr} {c : Context} {s : String}
    (h : Registry.standard.generate e c = .ok s) : ∃ t, Denotes s.toList t := by
  have written {t : Term} (hw : (e.generator.emit c).Writes t) : ∃ t, Denotes s.toList t := by
    obtain ⟨s', hs', hd⟩ := generate_of_writes hw
    cases hs'.symm.trans h
    exact ⟨t, hd⟩
  have native (hc : c = .long ∨ c = .double) : ∃ t, Denotes s.toList t := by
    cases hf : e.folded c with
    | error r => cases (generate_of_refused hc hf).symm.trans h
    | ok f =>
      obtain ⟨s', hs', t, hd, -⟩ := generate_of_folded hc hf
      cases hs'.symm.trans h
      exact ⟨t, hd⟩
  cases c with
  | value => exact written (writesBoxed e).value
  | boolean => exact written (writesBoxed e).boolean
  | selfExpr => exact written (writesSelf e)
  | long => exact native (.inl rfl)
  | double => exact native (.inr rfl)

/-- Words and string literals that are read as a term are lexically safe. -/
theorem lexicallySafe_of_denotes {s : String} {t : Term} (h : Worded s) (hd : Denotes s.toList t) :
    LexicallySafe s := by
  have hquiet := quiet_of_worded h
  obtain ⟨ts, hspells, hderives, -⟩ := hd
  obtain ⟨found, hfound, rfl⟩ := tokenize_of_lex hspells.lex_eq
  obtain ⟨w, ps, hs, hw, hlaid, rfl⟩ := exists_pieces hfound
  refine ⟨h.printable, hquiet.head_ne, w, ps, hs, hw, hlaid, hfound, ?_, ?_⟩
  · intro a b hab
    rw [hs] at hquiet hab
    obtain ⟨⟨c, hc⟩, hskip⟩ := hquiet.skip (quote_not_mem_blanks hw)
    obtain ⟨a', rfl, hab'⟩ := hskip a b hab
    obtain ⟨front, p, back, t, x, y, hps, ht, rfl, hx, hb⟩ := hlaid.minuses_in_literal hc hab'
    exact ⟨front, p, back, t, x, y, hps, ht, rfl, hx, hb⟩
  · rw [List.filterMap_append, filterMap_parenthesis rfl rfl hw, List.nil_append,
      parentheses_pieces]
    rw [map_fst_placed] at hderives
    exact hderives.balanced

/-- Whatever node of whatever arena it comes from, generated text is lexically safe. -/
theorem generated_text_lexically_safe (a : Arena) (id : NodeId) :
    ∀ e, a.tree id = .ok e → ∀ c s, Registry.standard.generate e c = .ok s → LexicallySafe s := by
  intro e _ c s hs
  have hworded : Worded s := by
    rw [Registry.generate, Expr.resolve_standard] at hs
    exact Registry.fromStandard_standard.worded_text e.resolve_standard hs
  obtain ⟨t, ht⟩ := denotes_of_generate hs
  exact lexicallySafe_of_denotes hworded ht

/-- A negative literal, its negation, and the negation assigned to a variable with a thorny name. -/
private def thornyNames : Arena :=
  let a := (Arena.push {} (.literal (.int (-1))) ⟨1, 1⟩).2
  let a := (a.push (.unary .neg 0) ⟨1, 2⟩).2
  (a.push (.assign "--)\"(" 1) ⟨1, 3⟩).2

private def negatedTree : Expr := .unary ⟨1, 2⟩ .neg (.literal ⟨1, 1⟩ (.int (-1)))

/-- A name with quotes, minus signs and parentheses stands in a literal, and the negation of a negative number has
a parenthesis between the minus signs. -/
theorem thorny_names_lexically_safe :
    thornyNames.tree 1 = .ok negatedTree ∧
    Registry.standard.generate negatedTree .long = .ok "(-(-1L))" ∧ LexicallySafe "(-(-1L))" ∧
    thornyNames.tree 2 = .ok (.assign ⟨1, 3⟩ "--)\"(" negatedTree) ∧
    Registry.standard.generate (.assign ⟨1, 3⟩ "--)\"(" negatedTree) .value =
      .ok "env.setValue(\"--)\\\"(\", LongValue.create((-1L)).neg())" ∧
    LexicallySafe "env.setValue(\"--)\\\"(\", LongValue.create((-1L)).neg())" := by
  have hnegated : thornyNames.tree 1 = .ok negatedTree := Arena.tree_eq_ok_iff.mpr (by decide +kernel)
  have hassigned : thornyNames.tree 2 = .ok (.assign ⟨1, 3⟩ "--)\"(" negatedTree) :=
    Arena.tree_eq_ok_iff.mpr (by decide +kernel)
  refine ⟨hnegated, rfl, ?_, hassigned, rfl, ?_⟩
  · exact generated_text_lexically_safe thornyNames 1 _ hnegated .long _ rfl
  · exact generated_text_lexically_safe thornyNames 2 _ hassigned .value _ rfl

end ContextCodegen
