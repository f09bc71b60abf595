import ContextCodegen.Proofs.NativeForms
import ContextCodegen.Proofs.Storage

/-! The record that comes with a native form. One half of it is what the printed text runs to, the other
is the value of the expression, and neither depends on variables. -/
namespace ContextCodegen

open Target

namespace Emission

variable {α β : Type} {m : Emission α}

theorem toText_of_ok {a : α} (h : m.result = .ok a) : m.toText = .ok m.output.text := by
  rw [toText, h]
  rfl

theorem toText_of_error {r : Refusal} (h : m.result = .error r) : m.toText = .error r := by
  rw [toText, h]
  rfl

theorem toText_of_prints {a : α} {cs : List Char} (h : m.Prints a cs) :
    m.toText = .ok (String.ofList cs) := by
  rw [toText_of_ok h.1, ← h.2, String.ofList_toList]

theorem toText_then_pure (m : Emission α) (b : β) : (m >>= fun _ => pure b).toText = m.toText := by
  cases hm : m.result with
  | ok a =>
    have hp : m.Prints a m.output.text.toList := ⟨hm, rfl⟩
    have hb : (m >>= fun _ => pure b).Prints b (m.output.text.toList ++ []) := hp.bind (prints_pure b)
    rw [toText_of_prints hp, toText_of_prints hb, List.append_nil]
  | error r =>
    rw [toText_of_error hm, toText_of_error (result_bind_error hm)]

theorem toText_discard (m : Emission α) : (Generator.discard m).toText = m.toText :=
  m.toText_then_pure ()

end Emission

namespace Expr

variable {e : Expr} {c : Context}

/-- The native form with its record and the form that is asked for by itself print the same. -/
theorem generate_eq_native (e : Expr) (hc : c = .long ∨ c = .double) :
    Registry.standard.generate e c = (e.generator.native.get c).toText := by
  rw [generate_standard, emit_native e hc, Emission.toText_discard]

/-- A native form that exists has a record, and what it prints computes the record's number. -/
theorem folded_of_native {o : Option Folded} (h : (e.generator.native.get c).result = .ok o) :
    ∃ f s, o = some f ∧ e.folded c = .ok f ∧ (e.generator.native.get c).toText = .ok s ∧
      Computes s.toList f.native := by
  have hf := folds e c
  cases he : e.folded c with
  | error r =>
    rw [he] at hf
    cases h.symm.trans hf
  | ok f =>
    rw [he] at hf
    obtain ⟨cs, hp, hcs⟩ := hf
    refine ⟨f, String.ofList cs, Except.ok.inj (h.symm.trans hp.1), rfl, Emission.toText_of_prints hp, ?_⟩
    rw [String.toList_ofList]
    exact hcs

end Expr

/-- Where a node has a native form, the form comes with a record whose two halves agree. Its native half is
of the type of the context, and the printed text, which is the generated one, runs to it. Its boxed half is
the value of the node. Neither the run nor the evaluation touches a variable or the stored nodes. -/
theorem constant_record_sound {a : Arena} (ha : a.Built) {id : NodeId} (hid : id < a.size) :
    ∃ e g, a.tree id = .ok e ∧ Registry.standard.resolve e = .ok g ∧
      ∀ c, c = .long ∨ c = .double → ∀ o, (g.native.get c).result = .ok o →
        ∃ f s, o = some f ∧ f.agrees = true ∧ f.native.context = c ∧
          (g.native.get c).toText = .ok s ∧ Registry.standard.generate e c = .ok s ∧
          (∀ env, e.eval env = (f.boxed, env)) ∧
          ∀ env nodes, Machine.execute s ⟨env, nodes⟩ = (.ok f.native.toNative, ⟨env, nodes⟩) := by
  obtain ⟨e, he⟩ := ha.tree hid
  refine ⟨e, e.generator, he, e.resolve_standard, ?_⟩
  intro c hc o ho
  obtain ⟨f, s, hof, hf, hs, t, hd, ht⟩ := Expr.folded_of_native ho
  have hconst := Expr.isConstant_of_folded hf
  refine ⟨f, s, hof, hconst.agrees, hconst.typed, hs, ?_, hconst.value, ?_⟩
  · rw [Expr.generate_eq_native e hc, hs]
  · intro env nodes
    rw [Machine.execute_of_denotes hd, ht]

private def lessNegated : Arena :=
  let a := (Arena.push {} (.literal (.int 3)) ⟨1, 1⟩).2
  let a := (a.push (.literal (.float 0x3fe0000000000000)) ⟨1, 2⟩).2
  let a := (a.push (.unary .neg 1) ⟨1, 3⟩).2
  (a.push (.binary .sub 0 2) ⟨1, 4⟩).2

private def lessNegatedTree : Expr :=
  .binary ⟨1, 4⟩ .sub (.literal ⟨1, 1⟩ (.int 3))
    (.unary ⟨1, 3⟩ .neg (.literal ⟨1, 2⟩ (.float 0x3fe0000000000000)))

/-- The integer is widened in the text and in the native half, and taken as it is in the boxed half. -/
theorem less_negated_record_sound :
    let s := "(((double) 3L) - (-0.5))"
    let x := Binary64.ofBits 0x400c000000000000
    lessNegated.Built ∧ 3 < lessNegated.size ∧ lessNegated.tree 3 = .ok lessNegatedTree ∧
      (lessNegatedTree.generator.native.get .double).result = .ok (some ⟨.float x, .float x⟩) ∧
      Registry.standard.generate lessNegatedTree .double = .ok s ∧
      Machine.execute s ⟨{}, {}⟩ = (.ok (.double x), ⟨{}, {}⟩) := by
  have hb : lessNegated.Built := .push _ _ (.push _ _ (.push _ _ (.push _ _ .empty)))
  have hsize : 3 < lessNegated.size := by decide +kernel
  have htree : lessNegated.tree? 3 = some lessNegatedTree := by decide +kernel
  have hrecord : (lessNegatedTree.generator.native.get .double).result =
    .ok (some ⟨.float (.ofBits 0x400c000000000000), .float (.ofBits 0x400c000000000000)⟩) := by decide +kernel
  have hform : Registry.standard.generate lessNegatedTree .double = .ok "(((double) 3L) - (-0.5))" := by
    decide +kernel
  obtain ⟨e, g, he, hg, h⟩ := constant_record_sound hb hsize
  obtain rfl := Option.some.inj (htree.symm.trans (Arena.tree_eq_ok_iff.mp he))
  cases (Expr.resolve_standard _).symm.trans hg
  obtain ⟨f, s, hf, -, -, -, hs, -, hrun⟩ := h .double (.inr rfl) _ hrecord
  cases hf
  cases hform.symm.trans hs
  exact ⟨hb, hsize, he, hrecord, hform, hrun {} {}⟩

end ContextCodegen
