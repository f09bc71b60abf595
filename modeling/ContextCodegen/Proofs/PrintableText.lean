import ContextCodegen.Proofs.Forms
import ContextCodegen.Proofs.Layout
import ContextCodegen.Proofs.Locations

/-! What the standard generators print, whatever strings a tree holds: words and string literals. Neither has a
control character, so generated text stands on one line. No word has a quote, nor a minus sign in front or
behind another one. -/
namespace ContextCodegen

open Target (longLiteral doubleLiteral stringLiteral isControl)

/-- A text without control characters. -/
def Printable (s : String) : Prop := ∀ c ∈ s.toList, isControl c = false

instance (s : String) : Decidable (Printable s) := List.decidableBAll (isControl · = false) s.toList

theorem Printable.append {s t : String} (hs : Printable s) (ht : Printable t) : Printable (s ++ t) := by
  intro c hc
  rw [String.toList_append, List.mem_append] at hc
  exact hc.elim (hs c) (ht c)

theorem Printable.not_mem_newline {s : String} (h : Printable s) : '\n' ∉ s.toList :=
  fun hn => Bool.noConfusion (h _ hn)

theorem printable_empty : Printable "" := by decide

section Words

/-- No minus sign stands behind another one, the character before the text included. -/
def calmAfter (before : Char) : List Char → Bool
  | [] => true
  | c :: cs => !(before == '-' && c == '-') && calmAfter c cs

/-- A text without control characters and quotes, in which no minus sign stands in front or behind another. -/
structure Word (s : String) : Prop where
  printable : Printable s
  unquoted : '"' ∉ s.toList
  calm : calmAfter '-' s.toList = true

instance (s : String) : Decidable (Word s) :=
  decidable_of_iff (Printable s ∧ '"' ∉ s.toList ∧ calmAfter '-' s.toList = true)
    ⟨fun ⟨hp, hq, hc⟩ => ⟨hp, hq, hc⟩, fun h => ⟨h.printable, h.unquoted, h.calm⟩⟩

/-- The texts put together from words and string literals. -/
inductive Worded : String → Prop
  | word {s : String} : Word s → Worded s
  | literal (s : String) : Worded (stringLiteral s)
  | append {s t : String} : Worded s → Worded t → Worded (s ++ t)

theorem worded_empty : Worded "" := .word (by decide)

theorem calmAfter_of_minus {cs : List Char} (h : calmAfter '-' cs = true) (before : Char) :
    calmAfter before cs = true := by
  cases cs with
  | nil => rfl
  | cons c cs =>
    simp only [calmAfter, beq_self_eq_true, Bool.true_and, Bool.and_eq_true, Bool.not_eq_true'] at h ⊢
    rw [h.1, Bool.and_false]
    exact ⟨rfl, h.2⟩

theorem calmAfter_append {before : Char} {cs ds : List Char} (h : calmAfter before cs = true)
    (h' : calmAfter '-' ds = true) : calmAfter before (cs ++ ds) = true := by
  induction cs generalizing before with
  | nil => exact calmAfter_of_minus h' before
  | cons c cs ih =>
    rw [calmAfter, Bool.and_eq_true] at h
    rw [List.cons_append, calmAfter, h.1, ih h.2]
    rfl

theorem Word.append {s t : String} (hs : Word s) (ht : Word t) : Word (s ++ t) where
  printable := hs.printable.append ht.printable
  unquoted := by
    rw [String.toList_append, List.mem_append]
    exact not_or.mpr ⟨hs.unquoted, ht.unquoted⟩
  calm := by
    rw [String.toList_append]
    exact calmAfter_append hs.calm ht.calm

end Words

section Literals

theorem isControl_digit {c : Char} (h : c.isDigit = true) : isControl c = false := by
  have hd : 48 ≤ c.toNat ∧ c.toNat ≤ 57 := Char.isDigit_iff_toNat.mp h
  simp only [isControl, Bool.or_eq_false_iff, Bool.and_eq_false_iff, decide_eq_false_iff_not]
  omega

theorem word_digits {ds : List Char} (h : Numeral.IsDigits ds) : Word (String.ofList ds) := by
  have calm (before : Char) : calmAfter before ds = true := by
    induction ds generalizing before with
    | nil => rfl
    | cons c ds ih =>
      have hc : (c == '-') = false := by
        rw [beq_eq_false_iff_ne]
        rintro rfl
        exact absurd (h _ List.mem_cons_self) (by decide)
      rw [calmAfter, hc, Bool.and_false, ih fun x hx => h x (List.mem_cons_of_mem c hx)]
      rfl
  refine ⟨fun c hc => ?_, fun hq => ?_, ?_⟩
  · rw [String.toList_ofList] at hc
    exact isControl_digit (h c hc)
  · rw [String.toList_ofList] at hq
    exact absurd (h _ hq) (by decide)
  · rw [String.toList_ofList]
    exact calm '-'

theorem word_nat (n : Nat) : Word (toString n) := word_digits (Numeral.isDigits_toDigits n)

theorem printable_nat (n : Nat) : Printable (toString n) := (word_nat n).printable

theorem word_longLiteral (n : Int64) : Word (longLiteral n) := by
  unfold longLiteral
  split_ifs with hmin hneg
  · decide
  · exact (Word.append (by decide) (word_nat _)).append (by decide)
  · rw [Int64.lt_iff_toInt_lt] at hneg
    obtain ⟨k, hk⟩ := Int.eq_ofNat_of_zero_le (Int.not_lt.mp hneg)
    rw [hk]
    exact (word_nat k).append (by decide)

private theorem word_chars {cs ds : List Char} (h : Word (String.ofList cs)) (h' : Word (String.ofList ds)) :
    Word (String.ofList (cs ++ ds)) := by
  rw [String.ofList_append]
  exact h.append h'

private theorem word_numeral {n : Numeral} (h : n.Fractional) : Word (String.ofList n.chars) := by
  have fraction : Word (String.ofList (Numeral.fractionChars n.fraction)) := by
    cases hf : n.fraction with
    | none => decide
    | some ds =>
      have hpoint : Word (String.ofList ['.']) := by decide
      exact word_chars hpoint (word_digits (h.fraction ds hf).2)
  have exponent : Word (String.ofList (Numeral.exponentChars n.exponent)) := by
    cases he : n.exponent with
    | none => decide
    | some p =>
      obtain ⟨negative, ds⟩ := p
      have hmark : Word (String.ofList ('e' :: if negative then ['-'] else [])) := by
        cases negative <;> decide
      exact word_chars hmark (word_digits (h.exponent _ he).2)
  exact word_chars (word_digits h.whole.2) (word_chars fraction exponent)

theorem word_doubleLiteral (x : Binary64) : Word (doubleLiteral x) := by
  have finite (r : Fin Binary64.infinityRank) : Word (Binary64.finite false r).text := by
    obtain ⟨n, hn, htext, -⟩ := Binary64.text_numeral r
    rw [← String.ofList_toList (s := (Binary64.finite false r).text), htext]
    exact word_numeral hn
  match x with
  | .nan | .infinity false | .infinity true => decide
  | .finite false r => exact finite r
  | .finite true r => exact (Word.append (by decide) (finite r)).append (by decide)

private theorem isControl_hexFour : ∀ n < 160, (Target.hexFour n).all (!isControl ·) = true := by
  decide +kernel

private theorem isControl_escape (c : Char) : (Target.escape c).all (!isControl ·) = true := by
  unfold Target.escape
  split_ifs with _ _ _ _ _ hc
  iterate 5 rfl
  · exact isControl_hexFour _ (Target.isControl_lt hc)
  · simpa using hc

theorem printable_stringLiteral (s : String) : Printable (stringLiteral s) := by
  intro c hc
  rw [stringLiteral, String.toList_ofList, List.mem_append, List.mem_cons, List.mem_flatMap] at hc
  rcases hc with (rfl | ⟨d, -, hd⟩) | hc
  · rfl
  · simpa using List.all_eq_true.mp (isControl_escape d) c hd
  · cases List.mem_singleton.mp hc
    rfl

theorem Worded.printable {s : String} (h : Worded s) : Printable s := by
  induction h with
  | word h => exact h.printable
  | literal s => exact printable_stringLiteral s
  | append _ _ hs ht => exact hs.append ht

theorem worded_boxedLiteral (v : Literal String) : Worded (Generator.boxedLiteral v) := by
  match v with
  | .null | .bool true | .bool false => exact .word (by decide)
  | .int n => exact .word ((Word.append (by decide) (word_longLiteral n)).append (by decide))
  | .float bits => exact .word ((Word.append (by decide) (word_doubleLiteral _)).append (by decide))
  | .str s => exact .append (.append (.word (by decide)) (.literal s)) (.word (by decide))

end Literals

section Generators

namespace Emission

variable {α β : Type}

/-- The emission prints words and string literals, and its result has the property. -/
structure Worded (P : α → Prop) (m : Emission α) : Prop where
  text : ContextCodegen.Worded m.output.text
  result : ∀ a, m.result = .ok a → P a

variable {P : α → Prop} {Q : β → Prop}

theorem worded_pure {a : α} (h : P a) : Worded P (pure a) :=
  ⟨worded_empty, fun _ hb => Except.ok.inj hb ▸ h⟩

theorem worded_refuse (r : Refusal) : Worded P (refuse r) :=
  ⟨worded_empty, fun _ hb => nomatch hb⟩

theorem worded_print {s : String} (h : ContextCodegen.Worded s) :
    Worded (fun _ => True) (print s) := by
  have hs : (print s).output.text = s := String.empty_append
  exact ⟨hs ▸ h, fun _ _ => trivial⟩

theorem word_print {s : String} (h : Word s) : Worded (fun _ => True) (print s) := worded_print (.word h)

theorem Worded.bind {m : Emission α} {f : α → Emission β} (h : m.Worded P)
    (hf : ∀ a, P a → (f a).Worded Q) : (m >>= f).Worded Q := by
  obtain ⟨out, x⟩ := m
  cases x with
  | error r => exact ⟨h.text, fun _ hb => nomatch hb⟩
  | ok a =>
    obtain ⟨ht, hr⟩ := hf a (h.result a rfl)
    refine ⟨?_, hr⟩
    have htext : (out ++ (f a).output).text = out.text ++ (f a).output.text := Output.text_append _ _
    exact htext ▸ h.text.append ht

theorem Worded.then {m : Emission α} {f : α → Emission β} (h : m.Worded P)
    (hf : ∀ a, (f a).Worded Q) : (m >>= f).Worded Q :=
  h.bind fun a _ => hf a

theorem worded_then {s : String} {f : Unit → Emission β} (h : ContextCodegen.Worded s)
    (hf : (f ()).Worded Q) : (print s >>= f).Worded Q :=
  (worded_print h).then fun _ => hf

theorem word_then {s : String} {f : Unit → Emission β} (h : Word s) (hf : (f ()).Worded Q) :
    (print s >>= f).Worded Q :=
  worded_then (.word h) hf

theorem Worded.discard {m : Emission α} (h : m.Worded P) :
    (Generator.discard m).Worded fun _ => True :=
  h.then fun _ => worded_pure trivial

theorem worded_ofFn {f : Context → Emission α} (h : ∀ c, (f c).Worded P) (c : Context) :
    ((PerContext.ofFn f).get c).Worded P := by
  cases c <;> exact h _

end Emission

open Emission

/-- The generator prints words and string literals in any context. -/
structure Generator.Worded (g : Generator) : Prop where
  value : g.value.Worded fun _ => True
  selfExpr : g.selfExpr.Worded fun _ => True
  boolean : g.boolean.Worded fun _ => True
  long : g.long.Worded fun _ => True
  double : g.double.Worded fun _ => True
  native : ∀ c, (g.native.get c).Worded fun _ => True

theorem Generator.Worded.emit {g : Generator} (h : g.Worded) (c : Context) :
    (g.emit c).Worded fun _ => True := by
  cases c with
  | value => exact h.value
  | boolean => exact h.boolean
  | long => exact h.long
  | double => exact h.double
  | selfExpr => exact h.selfExpr

theorem Generator.Worded.ofNative {g : Generator} (value : g.value.Worded fun _ => True)
    (selfExpr : g.selfExpr.Worded fun _ => True)
    (native : ∀ c, (g.native.get c).Worded fun _ => True) (hg : g.Derived) : g.Worded where
  value
  selfExpr
  boolean := by
    rw [hg.1]
    exact value.then fun _ => word_print (by decide)
  long := by
    rw [hg.2.1]
    exact (native .long).discard
  double := by
    rw [hg.2.2]
    exact (native .double).discard
  native

theorem Generator.Worded.comparison {g h : Generator} (hg : g.Worded) (hh : h.Worded)
    {opening closing : String} (ho : ContextCodegen.Worded opening)
    (hc : ContextCodegen.Worded closing) : Emission.Worded (fun _ => True)
      (do print opening; g.emit .value; print ".eql("; h.emit .value; print closing) := by
  refine worded_then ho (hg.value.then fun _ => ?_)
  exact word_then (by decide) (hh.value.then fun _ => worded_print hc)

theorem Generator.Worded.rebuildBinary {g h : Generator} (hg : g.Worded) (hh : h.Worded)
    {className : String} (hc : ContextCodegen.Worded className) :
    (Generator.rebuildBinary className g h).Worded fun _ => True := by
  refine worded_then (.append (.append (.word (by decide)) hc) (.word (by decide))) ?_
  refine hg.selfExpr.then fun _ => word_then (by decide) ?_
  exact hh.selfExpr.then fun _ => word_print (by decide)

/-- The operands' generators print words and string literals. -/
def Site.Worded (s : Site) : Prop := ∀ g, .ok g ∈ s.operands → g.Worded

namespace Site.Worded

variable {s : Site}

theorem operand (h : s.Worded) (i : Nat) : (s.operand i).Worded Generator.Worded := by
  unfold Site.operand
  split
  · rename_i x hx
    refine ⟨worded_empty, fun g hg => h g ?_⟩
    cases hg
    exact List.mem_of_getElem? hx
  · exact worded_refuse _

theorem agreeing (s : Site) (c : Context) (o : Option Folded) :
    (s.agreeing c o).Worded fun _ => True := by
  unfold Site.agreeing
  split
  · split_ifs
    · exact worded_pure trivial
    · exact worded_refuse _
  · exact worded_refuse _

/-- The native forms of a generator that has none. -/
theorem unfoldedNative (s : Site) (c : Context) :
    ((ContextCodegen.unfoldedNative s.subject (refuse (.unsupported s.subject .long))
      (refuse (.unsupported s.subject .double))).get c).Worded fun _ => True := by
  cases c with
  | long | double => exact (worded_refuse (P := fun _ => True) _).then fun _ => worded_pure trivial
  | value | boolean | selfExpr => exact worded_refuse _

theorem nativeLiteral (s : Subject) (v : Literal String) (c : Context) :
    Emission.Worded (fun _ => True) (Generator.nativeLiteral s v c) := by
  unfold Generator.nativeLiteral
  split
  · exact word_then (word_longLiteral _) (worded_pure trivial)
  · exact word_then (.append (.append (by decide) (word_longLiteral _)) (by decide))
      (worded_pure trivial)
  · exact word_then (word_doubleLiteral _) (worded_pure trivial)
  · exact worded_refuse _

theorem literal (s : Site) : (Generator.literal s).Worded := by
  obtain ⟨node, operands⟩ := s
  cases node with
  | literal loc v =>
    have native (c : Context) :
        ((Generator.literal ⟨.literal loc v, operands⟩).native.get c).Worded fun _ => True :=
      worded_ofFn (nativeLiteral _ v) c
    exact {
      value := worded_print (worded_boxedLiteral v)
      selfExpr := worded_print (.append (.append (.word (by decide)) (worded_boxedLiteral v)) (.word (by decide)))
      boolean := word_print (by split <;> decide)
      long := (native .long).discard
      double := (native .double).discard
      native }
  | _ =>
    exact ⟨worded_refuse _, worded_refuse _, worded_refuse _, worded_refuse _,
      worded_refuse _, worded_ofFn fun _ => worded_refuse _⟩

theorem var (s : Site) : (Generator.var s).Worded := by
  obtain ⟨node, operands⟩ := s
  cases node with
  | var loc x =>
    have hname (head : String) (hh : ContextCodegen.Worded head) :
        ContextCodegen.Worded (head ++ stringLiteral x ++ ")") :=
      (hh.append (.literal x)).append (.word (by decide))
    exact {
      value := worded_print (hname _ (.word (by decide)))
      selfExpr := worded_print (hname _ (.word (by decide)))
      boolean := worded_then (hname _ (.word (by decide))) (word_print (by decide))
      long := worded_refuse _
      double := worded_refuse _
      native := unfoldedNative _ }
  | _ =>
    exact ⟨worded_refuse _, worded_refuse _, worded_refuse _, worded_refuse _,
      worded_refuse _, unfoldedNative _⟩

theorem assign (h : s.Worded) : (Generator.assign s).Worded := by
  obtain ⟨node, operands⟩ := s
  cases node with
  | assign loc x e =>
    have hname (head : String) (hh : ContextCodegen.Worded head) :
        ContextCodegen.Worded (head ++ "(" ++ stringLiteral x ++ ", ") :=
      ((hh.append (.word (by decide))).append (.literal x)).append (.word (by decide))
    have value : (Generator.assign ⟨.assign loc x e, operands⟩).value.Worded fun _ => True := by
      refine (h.operand 0).bind fun _ hg => worded_then (hname _ (.word (by decide))) ?_
      exact hg.value.then fun _ => word_print (by decide)
    have selfExpr : (Generator.assign ⟨.assign loc x e, operands⟩).selfExpr.Worded fun _ => True := by
      refine (h.operand 0).bind fun _ hg => worded_then (hname _ (.word (by decide))) ?_
      exact hg.selfExpr.then fun _ => word_print (by decide)
    exact {
      value
      selfExpr
      boolean := value.then fun _ => word_print (by decide)
      long := worded_refuse _
      double := worded_refuse _
      native := unfoldedNative _ }
  | _ =>
    exact ⟨worded_refuse _, worded_refuse _, worded_refuse _, worded_refuse _,
      worded_refuse _, unfoldedNative _⟩

theorem equality (h : s.Worded) : (Generator.equality s).Worded := by
  obtain ⟨node, operands⟩ := s
  have value {m : Emission Unit} (hm : m.Worded fun _ => True) :
      Emission.Worded (fun _ => True) (do print "env.toValue("; m; print ")") :=
    word_then (by decide) (hm.then fun _ => word_print (by decide))
  cases node with
  | binary loc op a b =>
    cases op with
    | eq | ne =>
      exact {
        value := value ((h.operand 0).bind fun _ hl => (h.operand 1).bind fun _ hr =>
          hl.comparison hr (.word (by decide)) (.word (by decide)))
        selfExpr := (h.operand 0).bind fun _ hl => (h.operand 1).bind fun _ hr =>
          hl.rebuildBinary hr (.word (by decide))
        boolean := (h.operand 0).bind fun _ hl => (h.operand 1).bind fun _ hr =>
          hl.comparison hr (.word (by decide)) (.word (by decide))
        long := worded_refuse _
        double := worded_refuse _
        native := unfoldedNative _ }
    | add | sub =>
      exact ⟨value (worded_refuse _), worded_refuse _, worded_refuse _, worded_refuse _,
        worded_refuse _, unfoldedNative _⟩
  | _ =>
    exact ⟨value (worded_refuse _), worded_refuse _, worded_refuse _, worded_refuse _,
      worded_refuse _, unfoldedNative _⟩

theorem minus (h : s.Worded) : (Generator.minus s).Worded := by
  have native (c : Context) : ((Generator.minus s).native.get c).Worded fun _ => True := by
    refine worded_ofFn (fun c => ?_) c
    split_ifs
    · exact worded_refuse _
    · refine (h.operand 0).bind fun _ hg => word_then (by decide) ((hg.native c).then fun o => ?_)
      refine word_then (by decide) ?_
      cases o with
      | none => exact worded_pure trivial
      | some f => exact agreeing s c _
  have selfExpr : (Generator.minus s).selfExpr.Worded fun _ => True := by
    refine (h.operand 0).bind fun _ hg => word_then (by decide) ?_
    exact hg.selfExpr.then fun _ => word_print (by decide)
  have value : (Generator.minus s).value.Worded fun _ => True :=
    (h.operand 0).bind fun _ hg => hg.value.then fun _ => word_print (by decide)
  exact .ofNative value selfExpr native ⟨rfl, rfl, rfl⟩

theorem logicalNot (h : s.Worded) : (Generator.logicalNot s).Worded := by
  have boolean : (Generator.logicalNot s).boolean.Worded fun _ => True :=
    (h.operand 0).bind fun _ hg =>
      word_then (by decide) (hg.boolean.then fun _ => word_print (by decide))
  exact {
    value := word_then (by decide) (boolean.then fun _ => word_print (by decide))
    selfExpr := (h.operand 0).bind fun _ hg =>
      word_then (by decide) (hg.selfExpr.then fun _ => word_print (by decide))
    boolean
    long := worded_refuse _
    double := worded_refuse _
    native := unfoldedNative s }

theorem arithmetic (h : s.Worded) : (Generator.arithmetic s).Worded := by
  obtain ⟨node, operands⟩ := s
  cases node with
  | binary loc op a b =>
    cases op with
    | add | sub =>
      refine .ofNative ?value ?selfExpr ?native ⟨rfl, rfl, rfl⟩
      case value =>
        refine (h.operand 0).bind fun _ hl => (h.operand 1).bind fun _ hr => ?_
        refine hl.value.then fun _ => word_then (by decide) ?_
        exact hr.value.then fun _ => word_print (by decide)
      case selfExpr =>
        exact (h.operand 0).bind fun _ hl => (h.operand 1).bind fun _ hr => hl.rebuildBinary hr (.word (by decide))
      case native =>
        refine worded_ofFn fun c => ?_
        refine (h.operand 0).bind fun _ hl => (h.operand 1).bind fun _ hr => ?_
        refine word_then (by decide) ((hl.native c).then fun o => word_then (by decide) ?_)
        refine (hr.native c).then fun p => word_then (by decide) ?_
        cases o with
        | none => exact worded_pure trivial
        | some f =>
          cases p with
          | none => exact worded_pure trivial
          | some g => exact agreeing _ c _
    | eq | ne =>
      exact ⟨worded_refuse _, worded_refuse _, worded_refuse _, worded_refuse _,
        worded_refuse _, worded_ofFn fun _ => worded_refuse _⟩
  | _ =>
    exact ⟨worded_refuse _, worded_refuse _, worded_refuse _, worded_refuse _,
      worded_refuse _, worded_ofFn fun _ => worded_refuse _⟩

theorem standard (h : s.Worded) (k : NodeKind) : (Generator.standard k s).Worded := by
  cases k with
  | literal => exact literal s
  | var => exact var s
  | assign => exact h.assign
  | equals | notEquals => exact h.equality
  | unaryMinus => exact h.minus
  | not => exact h.logicalNot
  | add | sub => exact h.arithmetic

end Site.Worded

end Generators

namespace Registry

variable {r : Registry}

theorem fromStandard_standard : standard.FromStandard := fun k _ hf => ⟨k, (Option.some.inj hf).symm⟩

private theorem FromStandard.worded_generator (hr : r.FromStandard) {node : Expr} {g : Generator}
    {operands : List (Except Refusal Generator)} (h : r.generator node operands = .ok g)
    (hs : ∀ g, .ok g ∈ operands → g.Worded) : g.Worded := by
  unfold Registry.generator at h
  split at h
  · rename_i f hf
    obtain ⟨k, rfl⟩ := hr _ _ hf
    cases h
    have hsite : Site.Worded ⟨node, operands⟩ := hs
    exact hsite.standard k
  · cases h

/-- Over standard generators, every tree resolves to a generator that prints words and string literals. -/
theorem FromStandard.worded (hr : r.FromStandard) {e : Expr} {g : Generator}
    (h : r.resolve e = .ok g) : g.Worded := by
  induction e generalizing g with
  | literal | var => exact hr.worded_generator h (by simp)
  | assign _ _ e ih | unary _ _ e ih =>
    refine hr.worded_generator h fun g hg => ih ?_
    exact (List.mem_singleton.mp hg).symm
  | binary _ _ a b iha ihb =>
    refine hr.worded_generator h fun g hg => ?_
    rcases List.mem_cons.mp hg with ha | hb
    · exact iha ha.symm
    · exact ihb (List.mem_singleton.mp hb).symm

/-- Generated text is made of words and string literals. -/
theorem FromStandard.worded_text (hr : r.FromStandard) {e : Expr} {g : Generator}
    (h : r.resolve e = .ok g) {c : Context} {s : String} (hs : g.text c = .ok s) :
    ContextCodegen.Worded s := by
  have hg := ((hr.worded h).emit c).text
  obtain ⟨-, rfl⟩ := Emission.toText_eq_ok hs
  exact hg

/-- Generated text has no control character. -/
theorem FromStandard.printable_text (hr : r.FromStandard) {e : Expr} {g : Generator}
    (h : r.resolve e = .ok g) {c : Context} {s : String} (hs : g.text c = .ok s) :
    ContextCodegen.Printable s :=
  (hr.worded_text h hs).printable

end Registry

end ContextCodegen
