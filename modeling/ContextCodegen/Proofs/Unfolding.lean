import ContextCodegen.Proofs.ArenaRuns

/-! Nodes unfold to trees. Every node of a well-formed arena unfolds to one tree, and two nodes are compared
by what they unfold to, whatever else their arenas hold and however the trees are stored there. -/
namespace ContextCodegen

section Outlines

inductive Outline where
  | literal (value : Literal String)
  | var (name : String)
  | assign (target : String) (value : Outline)
  | binary (op : BinaryOp) (left right : Outline)
  | unary (op : UnaryOp) (operand : Outline)
  deriving DecidableEq, Repr

namespace Expr

def outline : Expr → Outline
  | .literal _ v => .literal v
  | .var _ x => .var x
  | .assign _ x e => .assign x e.outline
  | .binary _ op l r => .binary op l.outline r.outline
  | .unary _ op e => .unary op e.outline

theorem sameTree_iff {d e : Expr} : d.sameTree e = true ↔ d.outline = e.outline := by
  induction d generalizing e with
  | literal l v => cases e <;> simp [sameTree, outline]
  | var l x => cases e <;> simp [sameTree, outline]
  | assign l x d ih => cases e <;> simp [sameTree, outline, ih]
  | binary l op c d ihc ihd => cases e <;> simp [sameTree, outline, ihc, ihd, and_assoc]
  | unary l op d ih => cases e <;> simp [sameTree, outline, ih]

end Expr

end Outlines

namespace Arena

/-- The node unfolds to the tree, in which every node has its location. -/
inductive Unfolds (a : Arena) : NodeId → Expr → Prop
  | literal {id : NodeId} {loc : Location} {v : Literal String} : a.Reads id loc (.literal v) →
      Unfolds a id (.literal loc v)
  | var {id : NodeId} {loc : Location} {x : String} : a.Reads id loc (.var x) → Unfolds a id (.var loc x)
  | assign {id j : NodeId} {loc : Location} {x : String} {e : Expr} : a.Reads id loc (.assign x j) →
      Unfolds a j e → Unfolds a id (.assign loc x e)
  | binary {id i j : NodeId} {loc : Location} {op : BinaryOp} {d e : Expr} : a.Reads id loc (.binary op i j) →
      Unfolds a i d → Unfolds a j e → Unfolds a id (.binary loc op d e)
  | unary {id j : NodeId} {loc : Location} {op : UnaryOp} {e : Expr} : a.Reads id loc (.unary op j) →
      Unfolds a j e → Unfolds a id (.unary loc op e)

variable {a b : Arena} {id x y : NodeId} {d e : Expr}

theorem Reads.unique {l m : Location} {s t : Shape String} (h : a.Reads id l s) (k : a.Reads id m t) :
    l = m ∧ s = t := by
  obtain ⟨shape, hn, hs⟩ := h
  obtain ⟨_, hn', ht⟩ := k
  cases hn.symm.trans hn'
  exact ⟨rfl, Option.some.inj (hs.symm.trans ht)⟩

theorem Unfolds.unique (h : a.Unfolds id d) (k : a.Unfolds id e) : d = e := by
  induction h generalizing e with
  | literal h =>
    cases k with
    | literal k => obtain ⟨rfl, ⟨⟩⟩ := h.unique k; rfl
    | _ k => nomatch (h.unique k).2
  | var h =>
    cases k with
    | var k => obtain ⟨rfl, ⟨⟩⟩ := h.unique k; rfl
    | _ k => nomatch (h.unique k).2
  | assign h _ ih =>
    cases k with
    | assign k ke => obtain ⟨rfl, ⟨⟩⟩ := h.unique k; rw [ih ke]
    | _ k => nomatch (h.unique k).2
  | binary h _ _ ihl ihr =>
    cases k with
    | binary k kl kr => obtain ⟨rfl, ⟨⟩⟩ := h.unique k; rw [ihl kl, ihr kr]
    | _ k => nomatch (h.unique k).2
  | unary h _ ih =>
    cases k with
    | unary k ke => obtain ⟨rfl, ⟨⟩⟩ := h.unique k; rw [ih ke]
    | _ k => nomatch (h.unique k).2

/-- The tree of a node is the one that it unfolds to. -/
theorem unfolds_of_tree? (h : a.tree? id = some e) : a.Unfolds id e := by
  induction id using Nat.strongRecOn generalizing e with
  | ind id ih =>
    rw [tree?_eq] at h
    obtain ⟨n, hn, h⟩ := Option.bind_eq_some_iff.mp h
    obtain ⟨s, hs, h⟩ := Option.bind_eq_some_iff.mp h
    have hr : a.Reads id n.loc s := ⟨n.shape, hn, hs⟩
    have operand {j : NodeId} {e : Expr} (hj : (if j < id then a.tree? j else none) = some e) :
        a.Unfolds j e := by
      split at hj
      · exact ih j ‹_› hj
      · cases hj
    cases s with
    | literal v =>
      cases h
      exact .literal hr
    | var x =>
      cases h
      exact .var hr
    | assign x j =>
      obtain ⟨d, hd, rfl⟩ := Option.map_eq_some_iff.mp h
      exact .assign hr (operand hd)
    | binary op i j =>
      obtain ⟨c, hc, h⟩ := Option.bind_eq_some_iff.mp h
      obtain ⟨d, hd, rfl⟩ := Option.map_eq_some_iff.mp h
      exact .binary hr (operand hc) (operand hd)
    | unary op j =>
      obtain ⟨d, hd, rfl⟩ := Option.map_eq_some_iff.mp h
      exact .unary hr (operand hd)

theorem unfolds_iff_of_tree? (h : a.tree? id = some e) {t : Expr} : a.Unfolds id t ↔ t = e :=
  ⟨fun ht => ht.unique (unfolds_of_tree? h), fun ht => ht ▸ unfolds_of_tree? h⟩

/-- Nodes are compared by the outlines of their trees. -/
theorem sameTree_eq_outlines (hx : a.tree? x = some d) (hy : b.tree? y = some e) :
    a.sameTree x b y = .ok (decide (d.outline = e.outline)) := by
  have hdec : d.sameTree e = decide (d.outline = e.outline) := by
    rw [Bool.eq_iff_iff, Expr.sameTree_iff, decide_eq_true_iff]
  rw [sameTree_of_tree? hx hy, hdec]

end Arena

/-- Nodes of well-formed arenas unfold to one tree each, and they compare as the same exactly if these trees
are equal but for their locations. So the comparison is reflexive, symmetric and, across any three arenas,
transitive. -/
theorem same_tree_decides_outlines {a b : Arena} (ha : a.WellFormed) (hb : b.WellFormed) {x y : NodeId}
    (hx : x < a.size) (hy : y < b.size) :
    ∃ d e, (∀ t, a.Unfolds x t ↔ t = d) ∧ (∀ t, b.Unfolds y t ↔ t = e) ∧
      a.sameTree x b y = .ok (decide (d.outline = e.outline)) ∧
      a.sameTree x a x = .ok true ∧
      b.sameTree y a x = a.sameTree x b y ∧
      ∀ c : Arena, c.WellFormed → ∀ z < c.size, a.sameTree x b y = .ok true → b.sameTree y c z = .ok true →
        a.sameTree x c z = .ok true := by
  obtain ⟨d, hd⟩ := ha.tree? hx
  obtain ⟨e, he⟩ := hb.tree? hy
  have hxy := Arena.sameTree_eq_outlines hd he
  refine ⟨d, e, fun t => Arena.unfolds_iff_of_tree? hd, fun t => Arena.unfolds_iff_of_tree? he, hxy, ?_, ?_, ?_⟩
  · rw [Arena.sameTree_eq_outlines hd hd, decide_eq_true rfl]
  · rw [hxy, Arena.sameTree_eq_outlines he hd, decide_eq_decide.mpr eq_comm]
  · intro c hc z hz h h'
    obtain ⟨f, hf⟩ := hc.tree? hz
    rw [hxy] at h
    rw [Arena.sameTree_eq_outlines he hf] at h'
    have hde : d.outline = e.outline := of_decide_eq_true (Except.ok.inj h)
    have hef : e.outline = f.outline := of_decide_eq_true (Except.ok.inj h')
    rw [Arena.sameTree_eq_outlines hd hf, decide_eq_true (hde.trans hef)]

private def storedOnce : Arena :=
  let a := (Arena.push {} (.var "x") ⟨1, 1⟩).2
  let a := (a.push (.literal (.str "x")) ⟨1, 2⟩).2
  let a := (a.push (.binary .eq 0 1) ⟨1, 3⟩).2
  (a.push (.binary .sub 2 2) ⟨1, 4⟩).2

/-- The comparison is stored twice, its text before its variable and then after it. -/
private def storedTwice : Arena :=
  let a := (Arena.intern {} "y").2
  let a := (a.push (.literal (.str "x")) ⟨2, 1⟩).2
  let a := (a.push (.var "x") ⟨2, 2⟩).2
  let a := (a.push (.binary .eq 1 0) ⟨2, 3⟩).2
  let a := (a.push (.var "x") ⟨2, 4⟩).2
  let a := (a.push (.literal (.str "x")) ⟨2, 5⟩).2
  let a := (a.push (.binary .eq 3 4) ⟨2, 6⟩).2
  (a.push (.binary .sub 2 5) ⟨2, 7⟩).2

/-- The comparison is stored twice, but over the same operands. -/
private def storedApart : Arena :=
  let a := (Arena.push {} (.literal (.str "x")) ⟨3, 1⟩).2
  let a := (a.push (.var "x") ⟨3, 2⟩).2
  let a := (a.push (.binary .eq 1 0) ⟨3, 3⟩).2
  let a := (a.push (.binary .eq 1 0) ⟨3, 4⟩).2
  (a.push (.binary .sub 2 3) ⟨3, 5⟩).2

theorem sharing_is_not_compared :
    storedOnce.WellFormed ∧ storedTwice.WellFormed ∧ storedApart.WellFormed ∧
      3 < storedOnce.size ∧ 6 < storedTwice.size ∧ 4 < storedApart.size ∧
      storedOnce.sameTree 3 storedTwice 6 = .ok true ∧ storedTwice.sameTree 6 storedApart 4 = .ok true ∧
      (∃ d e, storedOnce.Unfolds 3 d ∧ storedTwice.Unfolds 6 e ∧ d.outline = e.outline) ∧
      storedTwice.sameTree 6 storedOnce 3 = .ok true ∧ storedOnce.sameTree 3 storedApart 4 = .ok true := by
  have hone : storedOnce.Built := .push _ _ (.push _ _ (.push _ _ (.push _ _ .empty)))
  have htwo : storedTwice.Built :=
    .push _ _ (.push _ _ (.push _ _ (.push _ _ (.push _ _ (.push _ _ (.push _ _ (.intern _ .empty)))))))
  have hthree : storedApart.Built := .push _ _ (.push _ _ (.push _ _ (.push _ _ (.push _ _ .empty))))
  have hx : 3 < storedOnce.size := by decide +kernel
  have hy : 6 < storedTwice.size := by decide +kernel
  have hz : 4 < storedApart.size := by decide +kernel
  have hxy : storedOnce.sameTree 3 storedTwice 6 = .ok true := by decide +kernel
  have hyz : storedTwice.sameTree 6 storedApart 4 = .ok true := by decide +kernel
  obtain ⟨d, e, hd, he, hsame, -, hsymm, htrans⟩ :=
    same_tree_decides_outlines hone.wellFormed htwo.wellFormed hx hy
  have houtline : d.outline = e.outline := of_decide_eq_true (Except.ok.inj (hsame.symm.trans hxy))
  exact ⟨hone.wellFormed, htwo.wellFormed, hthree.wellFormed, hx, hy, hz, hxy, hyz,
    ⟨d, e, (hd d).mpr rfl, (he e).mpr rfl, houtline⟩, hsymm.trans hxy,
    htrans _ hthree.wellFormed 4 hz hxy hyz⟩

end ContextCodegen
