import ContextCodegen.Proofs.Outcomes
import ContextCodegen.Proofs.Storage

/-! Nodes compared by their numbers, in two arenas at once. Where both stand for trees the comparison comes
to an end and compares the trees, and only where both do can it find that all is the same. -/
namespace ContextCodegen

namespace Arena

variable {a b : Arena} {x y : NodeId} {d e : Expr} {same : NodeId → NodeId → Except ArenaError Bool}

theorem node_eq_ok_iff {n : Node} : a.node x = .ok n ↔ a.nodes[x]? = some n := by
  unfold node
  split <;> simp_all

theorem text_eq_ok_iff {n : Symbol} {s : String} : a.text n = .ok s ↔ a.names.text? n = some s := by
  unfold text
  split <;> simp_all

section Shapes

variable {m n : Symbol} {s t : String}

theorem sameText_eq (hm : a.names.text? m = some s) (hn : b.names.text? n = some t) :
    a.sameText m b n = .ok (s == t) := by
  rw [sameText, text_eq_ok_iff.mpr hm, text_eq_ok_iff.mpr hn]
  rfl

theorem texts_of_sameText {same : Bool} (h : a.sameText m b n = .ok same) :
    (∃ s, a.names.text? m = some s) ∧ ∃ t, b.names.text? n = some t := by
  obtain ⟨s, hs, h⟩ := bind_eq_ok h
  obtain ⟨t, ht, -⟩ := bind_eq_ok h
  exact ⟨⟨s, text_eq_ok_iff.mp hs⟩, t, text_eq_ok_iff.mp ht⟩

/-- Literals are compared by what they resolve to. Only texts have to be looked up for that. -/
theorem sameLiteral_eq {v w : Literal Symbol} {v' w' : Literal String}
    (hv : (Shape.literal v).resolve? a.names = some (.literal v'))
    (hw : (Shape.literal w).resolve? b.names = some (.literal w')) : a.sameLiteral b v w = .ok (v' == w') := by
  cases v with
  | str m =>
    obtain ⟨s, hs, ⟨⟩⟩ := Option.map_eq_some_iff.mp hv
    cases w with
    | str n =>
      obtain ⟨t, ht, ⟨⟩⟩ := Option.map_eq_some_iff.mp hw
      rw [sameLiteral, sameText_eq hs ht]
      exact congrArg Except.ok (Bool.eq_iff_iff.mpr (by simp))
    | _ =>
      cases hw
      rfl
  | _ =>
    cases hv
    cases w with
    | str n =>
      obtain ⟨t, -, ⟨⟩⟩ := Option.map_eq_some_iff.mp hw
      rfl
    | _ =>
      cases hw
      exact congrArg Except.ok (Bool.eq_iff_iff.mpr (by simp))

/-- One step of the comparison, where operands are compared by their trees. -/
theorem sameShape_eq {m n : Shape Symbol} {k l : Location} {f g : NodeId → Option Expr}
    (hd : m.StandsFor a.names k f d) (he : n.StandsFor b.names l g e)
    (h : ∀ {i j d e}, f i = some d → g j = some e → same i j = .ok (d.sameTree e)) :
    a.sameShape b same m n = .ok (d.sameTree e) := by
  cases hd with
  | literal hv =>
    cases he with
    | literal hw => exact sameLiteral_eq hv hw
    | _ => rfl
  | var hs =>
    cases he with
    | var ht => exact sameText_eq hs ht
    | _ => rfl
  | @assign _ s _ _ hs hi =>
    cases he with
    | @assign _ t _ _ ht hj =>
      rw [sameShape, sameText_eq hs ht, Expr.sameTree]
      cases s == t with
      | true => exact h hi hj
      | false => rfl
    | _ => rfl
  | @binary f _ _ c _ hi hk =>
    cases he with
    | @binary g _ _ c' _ hj hl =>
      rw [sameShape, Expr.sameTree, h hi hj, Bool.and_assoc]
      by_cases hfg : f = g
      · rw [if_pos hfg, beq_iff_eq.mpr hfg, Bool.true_and]
        cases c.sameTree c' with
        | true => exact h hk hl
        | false => rfl
      · rw [if_neg hfg, beq_false_of_ne hfg]
        rfl
    | _ => rfl
  | @unary f _ _ hi =>
    cases he with
    | @unary g _ _ hj =>
      rw [sameShape, Expr.sameTree, h hi hj]
      by_cases hfg : f = g
      · rw [if_pos hfg, beq_iff_eq.mpr hfg, Bool.true_and]
      · rw [if_neg hfg, beq_false_of_ne hfg]
        rfl
    | _ => rfl

theorem literals_of_sameLiteral {v w : Literal Symbol} (h : a.sameLiteral b v w = .ok true) :
    (∃ s, (Shape.literal v).resolve? a.names = some s) ∧ ∃ t, (Shape.literal w).resolve? b.names = some t := by
  cases v with
  | str m =>
    cases w with
    | str n =>
      obtain ⟨⟨s, hs⟩, t, ht⟩ := texts_of_sameText h
      simp only [Shape.resolve?, hs, ht, Option.map_some]
      exact ⟨⟨_, rfl⟩, _, rfl⟩
    | _ => cases h
  | _ =>
    cases w with
    | str n => cases h
    | _ => exact ⟨⟨_, rfl⟩, _, rfl⟩

/-- What compares as the same has all its texts, and operands that compare as the same. -/
theorem sameShape_eq_true {m n : Shape Symbol} (h : a.sameShape b same m n = .ok true) :
    (∃ s, m.resolve? a.names = some s) ∧ (∃ t, n.resolve? b.names = some t) ∧
      (∀ i ∈ m.operands, ∃ j, same i j = .ok true) ∧ ∀ j ∈ n.operands, ∃ i, same i j = .ok true := by
  cases m with
  | literal v =>
    cases n with
    | literal w =>
      obtain ⟨hs, ht⟩ := literals_of_sameLiteral h
      exact ⟨hs, ht, by simp [Shape.operands], by simp [Shape.operands]⟩
    | _ => cases h
  | var m =>
    cases n with
    | var n =>
      obtain ⟨⟨s, hs⟩, t, ht⟩ := texts_of_sameText h
      simp [Shape.resolve?, hs, ht, Shape.operands]
    | _ => cases h
  | assign m i =>
    cases n with
    | assign n j =>
      obtain ⟨same, htext, h⟩ := bind_eq_ok h
      obtain ⟨⟨s, hs⟩, t, ht⟩ := texts_of_sameText htext
      cases same with
      | false => cases h
      | true =>
        have hij : same i j = .ok true := h
        refine ⟨⟨.assign s i, by simp [Shape.resolve?, hs]⟩, ⟨.assign t j, by simp [Shape.resolve?, ht]⟩, ?_, ?_⟩
        · simpa [Shape.operands] using ⟨j, hij⟩
        · simpa [Shape.operands] using ⟨i, hij⟩
    | _ => cases h
  | binary f i k =>
    cases n with
    | binary g j l =>
      rw [sameShape] at h
      split at h
      · obtain ⟨same, hij, h⟩ := bind_eq_ok h
        cases same with
        | false => cases h
        | true =>
          refine ⟨⟨_, rfl⟩, ⟨_, rfl⟩, ?_, ?_⟩
          · simpa [Shape.operands] using ⟨⟨j, hij⟩, l, h⟩
          · simpa [Shape.operands] using ⟨⟨i, hij⟩, k, h⟩
      · cases h
    | _ => cases h
  | unary f i =>
    cases n with
    | unary g j =>
      rw [sameShape] at h
      split at h
      · refine ⟨⟨_, rfl⟩, ⟨_, rfl⟩, ?_, ?_⟩
        · simpa [Shape.operands] using ⟨j, h⟩
        · simpa [Shape.operands] using ⟨i, h⟩
      · cases h
    | _ => cases h

end Shapes

theorem sameTree_eq_ok_iff {same : Bool} : a.sameTree x b y = .ok same ↔
    ∃ m n, a.nodes[x]? = some m ∧ b.nodes[y]? = some n ∧
      a.sameShape b (fun i j =>
        if i < x then
          if j < y then a.sameTree i b j else throw (.forwardOperand j)
        else throw (.forwardOperand i)) m.shape n.shape = .ok same := by
  rw [sameTree]
  constructor
  · intro h
    obtain ⟨m, hm, h⟩ := bind_eq_ok h
    obtain ⟨n, hn, h⟩ := bind_eq_ok h
    exact ⟨m, n, node_eq_ok_iff.mp hm, node_eq_ok_iff.mp hn, h⟩
  · rintro ⟨m, n, hm, hn, h⟩
    rw [node_eq_ok_iff.mpr hm, node_eq_ok_iff.mpr hn]
    exact h

/-- Nodes that stand for trees are compared by these trees. -/
theorem sameTree_of_tree? (hx : a.tree? x = some d) (hy : b.tree? y = some e) :
    a.sameTree x b y = .ok (d.sameTree e) := by
  induction x using Nat.strongRecOn generalizing y d e with
  | ind x ih =>
    rw [tree?_eq] at hx hy
    obtain ⟨m, hm, hd⟩ := Option.bind_eq_some_iff.mp hx
    obtain ⟨n, hn, he⟩ := Option.bind_eq_some_iff.mp hy
    refine sameTree_eq_ok_iff.mpr ⟨m, n, hm, hn, ?_⟩
    apply sameShape_eq (Node.standsFor_of_tree? hd) (Node.standsFor_of_tree? he)
    intro i j d e hi hj
    obtain ⟨hix, hi⟩ := Option.ite_none_right_eq_some.mp hi
    obtain ⟨hjy, hj⟩ := Option.ite_none_right_eq_some.mp hj
    rw [if_pos hix, if_pos hjy]
    exact ih i hix hi hj

theorem operands_of_sameOperand {i j : NodeId}
    (h : (if i < x then if j < y then a.sameTree i b j else throw (.forwardOperand j)
      else throw (.forwardOperand i)) = .ok true) : i < x ∧ j < y ∧ a.sameTree i b j = .ok true := by
  split at h
  · split at h
    · exact ⟨‹_›, ‹_›, h⟩
    · cases h
  · cases h

/-- Nodes that compare as the same stand for trees, and these are the same. -/
theorem trees_of_sameTree (h : a.sameTree x b y = .ok true) :
    ∃ d e, a.tree? x = some d ∧ b.tree? y = some e ∧ d.sameTree e = true := by
  suffices ∃ d e, a.tree? x = some d ∧ b.tree? y = some e by
    obtain ⟨d, e, hd, he⟩ := this
    exact ⟨d, e, hd, he, Except.ok.inj ((sameTree_of_tree? hd he).symm.trans h)⟩
  induction x using Nat.strongRecOn generalizing y with
  | ind x ih =>
    obtain ⟨m, n, hm, hn, h⟩ := sameTree_eq_ok_iff.mp h
    obtain ⟨⟨s, hs⟩, ⟨t, ht⟩, hleft, hright⟩ := sameShape_eq_true h
    have hd : ∃ d, s.tree? m.loc (fun j => if j < x then a.tree? j else none) = some d := by
      apply Shape.tree?_of_operands
      intro i hi
      obtain ⟨j, hj⟩ := hleft i (Shape.operands_resolve? hs ▸ hi)
      obtain ⟨hix, -, hij⟩ := operands_of_sameOperand hj
      obtain ⟨d, -, hd, -⟩ := ih i hix hij
      exact ⟨d, by rw [if_pos hix, hd]⟩
    have he : ∃ e, t.tree? n.loc (fun j => if j < y then b.tree? j else none) = some e := by
      apply Shape.tree?_of_operands
      intro j hj
      obtain ⟨i, hi⟩ := hright j (Shape.operands_resolve? ht ▸ hj)
      obtain ⟨hix, hjy, hij⟩ := operands_of_sameOperand hi
      obtain ⟨-, e, -, he⟩ := ih i hix hij
      exact ⟨e, by rw [if_pos hjy, he]⟩
    obtain ⟨d, hd⟩ := hd
    obtain ⟨e, he⟩ := he
    refine ⟨d, e, ?_, ?_⟩
    · rw [tree?_eq, hm, Option.bind_some, Node.tree?, hs, Option.bind_some, hd]
    · rw [tree?_eq, hn, Option.bind_some, Node.tree?, ht, Option.bind_some, he]

end Arena

end ContextCodegen
