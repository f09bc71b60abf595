import ContextCodegen.Proofs.Running
import ContextCodegen.Proofs.Unfolding

/-! Copies are appended. A copy goes behind what its arena holds, one node for each node of the tree, operands
first, and nothing else changes. -/
namespace ContextCodegen

namespace Arena

variable {a b : Arena} {e : Expr}

/-- Nodes at the same place of what is stored below two nodes. -/
inductive Corresponds (a : Arena) (x : NodeId) (b : Arena) (y : NodeId) : NodeId → NodeId → Prop
  | root : Corresponds a x b y x y
  | operand {i j p q : NodeId} {l m : Location} {s t : Shape String} {k : Nat} : Corresponds a x b y i j →
      a.Reads i l s → b.Reads j m t → s.operands[k]? = some p → t.operands[k]? = some q → Corresponds a x b y p q

theorem Unfolds.reads {id : NodeId} (h : a.Unfolds id e) : ∃ s, a.Reads id e.location s := by
  cases h with
  | literal h | var h | assign h _ | binary h _ _ | unary h _ => exact ⟨_, h⟩

theorem Unfolds.operand {id p : NodeId} {l : Location} {s : Shape String} {k : Nat} (h : a.Unfolds id e)
    (hr : a.Reads id l s) (hp : s.operands[k]? = some p) : ∃ d, e.operands[k]? = some d ∧ a.Unfolds p d := by
  cases h with
  | literal h | var h =>
    obtain ⟨-, rfl⟩ := h.unique hr
    cases hp
  | assign h hd | unary h hd =>
    obtain ⟨-, rfl⟩ := h.unique hr
    cases k with
    | zero =>
      cases hp
      exact ⟨_, rfl, hd⟩
    | succ k => cases hp
  | binary h hc hd =>
    obtain ⟨-, rfl⟩ := h.unique hr
    rcases k with _ | _ | k
    · cases hp
      exact ⟨_, rfl, hc⟩
    · cases hp
      exact ⟨_, rfl, hd⟩
    · cases hp

theorem Corresponds.unfolds {x y i j : NodeId} (h : a.Corresponds x b y i j) (hx : a.Unfolds x e)
    (hy : b.Unfolds y e) : ∃ t, a.Unfolds i t ∧ b.Unfolds j t := by
  induction h with
  | root => exact ⟨e, hx, hy⟩
  | operand _ hr hr' hp hq ih =>
    obtain ⟨t, ht, ht'⟩ := ih
    obtain ⟨d, hd, hu⟩ := ht.operand hr hp
    obtain ⟨_, hd', hu'⟩ := ht'.operand hr' hq
    cases hd.symm.trans hd'
    exact ⟨d, hu, hu'⟩

end Arena

open Target

/-- A machine rebuilds a tree as its arena stores it, and its variables are left as they are. -/
theorem rebuild_of_insert {e : Expr} {a b : Arena} {id : NodeId} (env : Env) (h : a.insert e = (.ok id, b)) :
    Machine.rebuild e ⟨env, a⟩ = (.ok id, ⟨env, b⟩) := by
  induction e generalizing a b id with
  | literal loc v | var loc x => exact Machine.store_ok h
  | assign loc x e ih | unary loc op e ih =>
    obtain ⟨j, c, hc, -⟩ := a.stores_insert e
    simp only [Arena.insert, hc] at h
    rw [Machine.rebuild, bind_ok (ih hc)]
    exact Machine.store_ok h
  | binary loc op l r ihl ihr =>
    obtain ⟨i, c, hc, -⟩ := a.stores_insert l
    obtain ⟨j, d, hd, -⟩ := c.stores_insert r
    simp only [Arena.insert, hc, hd] at h
    rw [Machine.rebuild, bind_ok (ihl hc), bind_ok (ihr hd)]
    exact Machine.store_ok h

/-- A copy is appended to its arena, whose nodes and texts keep their numbers. There is one new node for each
node of the tree, operands first and the root last, and the copy is the same tree as the source. Nodes at the
same place have the same location and unfold to the same tree, down to the patterns of floats. The variables
of a machine that holds the arena are left as they are. -/
theorem copy_appends_unfolded_tree {a : Arena} (ha : a.WellFormed) {id : NodeId} (hid : id < a.size)
    (out : Arena) :
    ∃ e copy grown, a.Unfolds id e ∧ a.copyInto id out = (.ok copy, grown) ∧ grown.size = copy + 1 ∧
      out.Extends grown ∧ grown.size = out.size + e.subtrees.length ∧
      (∀ k t, e.subtrees[k]? = some t → grown.Unfolds (out.size + k) t) ∧
      a.sameTree id grown copy = .ok true ∧
      (∀ i j, a.Corresponds id grown copy i j → ∃ t s s', a.Reads i t.location s ∧
        grown.Reads j t.location s' ∧ a.Unfolds i t ∧ grown.Unfolds j t) ∧
      ∀ env, Machine.copy a id ⟨env, out⟩ = (.ok copy, ⟨env, grown⟩) := by
  obtain ⟨e, he⟩ := ha.tree? hid
  obtain ⟨copy, grown, hinsert, hlast, hgrow⟩ := out.grows_insert e
  have hcopy : a.copyInto id out = (.ok copy, grown) := by
    rw [Arena.copyInto, Arena.tree_eq_ok_iff.mpr he]
    exact hinsert
  have hroot : grown.tree? copy = some e := hgrow.root hlast
  refine ⟨e, copy, grown, Arena.unfolds_of_tree? he, hcopy, hlast, hgrow.kept, hgrow.size, ?_, ?_, ?_, ?_⟩
  · exact fun k t ht => Arena.unfolds_of_tree? (hgrow.tree k t ht)
  · rw [Arena.sameTree_eq_outlines he hroot, decide_eq_true rfl]
  · intro i j hij
    obtain ⟨t, hi, hj⟩ := hij.unfolds (Arena.unfolds_of_tree? he) (Arena.unfolds_of_tree? hroot)
    obtain ⟨s, hs⟩ := hi.reads
    obtain ⟨s', hs'⟩ := hj.reads
    exact ⟨t, s, s', hs, hs', hi, hj⟩
  · intro env
    rw [Machine.copy, Arena.tree_eq_ok_iff.mpr he]
    exact rebuild_of_insert env hinsert

/-- A difference compared with itself, stored once, with a NaN that has a pattern of its own. -/
private def comparedWithItself : Arena :=
  let a := (Arena.push {} (.var "x") ⟨1, 1⟩).2
  let a := (a.push (.literal (.float 0xfff0000000000001)) ⟨1, 2⟩).2
  let a := (a.push (.binary .sub 0 1) ⟨1, 3⟩).2
  (a.push (.binary .eq 2 2) ⟨1, 4⟩).2

private def difference : Expr :=
  .binary ⟨1, 3⟩ .sub (.var ⟨1, 1⟩ "x") (.literal ⟨1, 2⟩ (.float 0xfff0000000000001))

private def occupied : Arena :=
  let a := (Arena.push {} (.var "y") ⟨2, 1⟩).2
  (a.push (.literal (.str "x")) ⟨2, 2⟩).2

/-- Four nodes become seven, and both copies of the NaN keep its pattern and its location. -/
theorem shared_operand_copied_twice :
    let grown := (comparedWithItself.copyInto 3 occupied).2
    let nan := Expr.literal ⟨1, 2⟩ (.float 0xfff0000000000001)
    comparedWithItself.WellFormed ∧ 3 < comparedWithItself.size ∧
      comparedWithItself.copyInto 3 occupied = (.ok 8, grown) ∧ grown.size = 9 ∧ occupied.Extends grown ∧
      comparedWithItself.Unfolds 3 (.binary ⟨1, 4⟩ .eq difference difference) ∧
      (Expr.binary ⟨1, 4⟩ .eq difference difference).subtrees[1]? = some nan ∧ grown.Unfolds 3 nan ∧
      comparedWithItself.Corresponds 3 grown 8 1 6 ∧
      (∃ t, comparedWithItself.Unfolds 1 t ∧ grown.Unfolds 6 t) ∧
      comparedWithItself.sameTree 3 grown 8 = .ok true := by
  intro grown nan
  have hb : comparedWithItself.Built := .push _ _ (.push _ _ (.push _ _ (.push _ _ .empty)))
  have hsize : 3 < comparedWithItself.size := by decide +kernel
  have htree : comparedWithItself.tree? 3 = some (.binary ⟨1, 4⟩ .eq difference difference) := by decide +kernel
  have hnumber : (comparedWithItself.copyInto 3 occupied).1 = .ok 8 := by decide +kernel
  have hnan : (Expr.binary ⟨1, 4⟩ .eq difference difference).subtrees[1]? = some nan := by decide +kernel
  have hplace : comparedWithItself.Corresponds 3 grown 8 1 6 := by
    have hright : comparedWithItself.Corresponds 3 grown 8 2 7 :=
      .operand (l := ⟨1, 4⟩) (m := ⟨1, 4⟩) (s := .binary .eq 2 2) (t := .binary .eq 4 7) (k := 1) .root
        ⟨.binary .eq 2 2, by decide +kernel, rfl⟩ ⟨.binary .eq 4 7, by decide +kernel, rfl⟩ rfl rfl
    exact .operand (l := ⟨1, 3⟩) (m := ⟨1, 3⟩) (s := .binary .sub 0 1) (t := .binary .sub 5 6) (k := 1) hright
      ⟨.binary .sub 0 1, by decide +kernel, rfl⟩ ⟨.binary .sub 5 6, by decide +kernel, rfl⟩ rfl rfl
  obtain ⟨e, copy, b, he, hcopy, hlast, hext, -, hk, hsame, hat, -⟩ :=
    copy_appends_unfolded_tree hb.wellFormed hsize occupied
  obtain rfl := he.unique (Arena.unfolds_of_tree? htree)
  obtain rfl : grown = b := congrArg Prod.snd hcopy
  obtain rfl : 8 = copy := Except.ok.inj (hnumber.symm.trans (congrArg Prod.fst hcopy))
  obtain ⟨t, -, -, -, -, ht, ht'⟩ := hat 1 6 hplace
  exact ⟨hb.wellFormed, hsize, hcopy, hlast, hext, he, hnan, hk 1 nan hnan, hplace, ⟨t, ht, ht'⟩, hsame⟩

end ContextCodegen
