import Mathlib.Data.List.Induction
import ContextCodegen.Arena.Basic

/-! Stored expressions. A tree is stored node by node, operands first. What an arena holds is kept by
everything that is stored after it, and every node of an arena that was built by storing stands for a
tree. -/
namespace ContextCodegen

namespace Expr

def operands : Expr → List Expr
  | .literal _ _ | .var _ _ => []
  | .assign _ _ e | .unary _ _ e => [e]
  | .binary _ _ l r => [l, r]

/-- The expression and all expressions in it, operands first. -/
def subtrees : Expr → List Expr
  | .literal loc v => [.literal loc v]
  | .var loc x => [.var loc x]
  | .assign loc x e => e.subtrees ++ [.assign loc x e]
  | .binary loc op l r => l.subtrees ++ r.subtrees ++ [.binary loc op l r]
  | .unary loc op e => e.subtrees ++ [.unary loc op e]

/-- Of the expressions in an expression, itself comes last. -/
theorem getLast?_subtrees (e : Expr) : e.subtrees.getLast? = some e := by
  cases e <;> simp [subtrees]

theorem mem_subtrees_self (e : Expr) : e ∈ e.subtrees := by
  cases e <;> simp [subtrees]

theorem mem_subtrees_iff {t e : Expr} : t ∈ e.subtrees ↔ t = e ∨ ∃ d ∈ e.operands, t ∈ d.subtrees := by
  cases e <;> simp [subtrees, operands, or_comm, or_left_comm]

theorem subtrees_subset {t e : Expr} (h : t ∈ e.subtrees) : t.subtrees ⊆ e.subtrees := by
  induction e with
  | literal loc v | var loc x =>
    cases List.mem_singleton.mp h
    exact List.Subset.refl _
  | assign loc x e ih | unary loc op e ih =>
    rcases List.mem_append.mp h with h | h
    · exact fun s hs => List.mem_append_left _ (ih h hs)
    · cases List.mem_singleton.mp h
      exact List.Subset.refl _
  | binary loc op l r ihl ihr =>
    rcases List.mem_append.mp h with h | h
    · rcases List.mem_append.mp h with h | h
      · exact fun s hs => List.mem_append_left _ (List.mem_append_left _ (ihl h hs))
      · exact fun s hs => List.mem_append_left _ (List.mem_append_right _ (ihr h hs))
    · cases List.mem_singleton.mp h
      exact List.Subset.refl _

/-- A property of all subtrees is one of the expression and of the subtrees of its operands. -/
theorem forall_subtrees_iff {P : Expr → Prop} {e : Expr} :
    (∀ t ∈ e.subtrees, P t) ↔ P e ∧ ∀ d ∈ e.operands, ∀ t ∈ d.subtrees, P t := by
  constructor
  · intro h
    exact ⟨h e e.mem_subtrees_self, fun d hd t ht => h t (mem_subtrees_iff.mpr (.inr ⟨d, hd, ht⟩))⟩
  · rintro ⟨he, ho⟩ t ht
    rcases mem_subtrees_iff.mp ht with rfl | ⟨d, hd, ht⟩
    · exact he
    · exact ho d hd t ht

end Expr

theorem getElem?_push_of_some {α : Type} {xs : Array α} {x y : α} {i : Nat} (h : xs[i]? = some y) :
    (xs.push x)[i]? = some y := by
  obtain ⟨hi, hy⟩ := Array.getElem?_eq_some_iff.mp h
  rw [Array.getElem?_push_lt hi, hy]

namespace NameTables

variable {t : NameTables}

theorem text?_intern_of_text? {n : Symbol} {x : String} (h : t.text? n = some x) (s : String) :
    (t.intern s).2.text? n = some x := by
  cases hs : t.number? s with
  | some m => rwa [intern_of_some hs]
  | none =>
    rw [intern_of_none hs]
    exact getElem?_push_of_some h

theorem Inverse.text?_intern (h : t.Inverse) (s : String) : (t.intern s).2.text? (t.intern s).1 = some s := by
  cases hs : t.number? s with
  | some n =>
    rw [intern_of_some hs]
    exact (h s n).mp hs
  | none =>
    rw [intern_of_none hs]
    exact Array.getElem?_push_size

end NameTables

namespace Interner

/-- The number of every text is kept. -/
def Extends (t u : Interner) : Prop := ∀ n s, t.text? n = some s → u.text? n = some s

theorem Extends.refl (t : Interner) : t.Extends t := fun _ _ h => h

theorem intern_extends (t : Interner) (s : String) : t.Extends (t.intern s).2 :=
  fun _ _ h => NameTables.text?_intern_of_text? h s

theorem text?_intern (t : Interner) (s : String) : (t.intern s).2.text? (t.intern s).1 = some s :=
  t.inverse.text?_intern s

end Interner

namespace Shape

theorem resolve?_mono {t u : Interner} {s : Shape Symbol} {r : Shape String} (h : t.Extends u)
    (hs : s.resolve? t = some r) : s.resolve? u = some r := by
  have text {n : Symbol} {f : String → Shape String} (hn : (t.text? n).map f = some r) :
      (u.text? n).map f = some r := by
    obtain ⟨x, hx, rfl⟩ := Option.map_eq_some_iff.mp hn
    rw [h n x hx, Option.map_some]
  match s with
  | .literal (.str n) | .var n | .assign n e => exact text hs
  | .literal .null | .literal (.bool b) | .literal (.int n) | .literal (.float bits) => exact hs
  | .binary op l r | .unary op e => exact hs

theorem intern_extends (s : Shape String) (t : Interner) : t.Extends (s.intern t).2 := by
  match s with
  | .literal (.str x) | .var x | .assign x e => exact t.intern_extends x
  | .literal .null | .literal (.bool b) | .literal (.int n) | .literal (.float bits) => exact .refl t
  | .binary op l r | .unary op e => exact .refl t

theorem resolve?_intern (s : Shape String) (t : Interner) :
    (s.intern t).1.resolve? (s.intern t).2 = some s := by
  match s with
  | .literal (.str x) | .var x | .assign x e => simp [intern, resolve?, t.text?_intern x]
  | .literal .null | .literal (.bool b) | .literal (.int n) | .literal (.float bits) => rfl
  | .binary op l r | .unary op e => rfl

theorem operands_intern (s : Shape String) (t : Interner) : (s.intern t).1.operands = s.operands := by
  match s with
  | .literal (.str x) | .var x | .assign x e => rfl
  | .literal .null | .literal (.bool b) | .literal (.int n) | .literal (.float bits) => rfl
  | .binary op l r | .unary op e => rfl

theorem operands_resolve? {t : Interner} {s : Shape Symbol} {r : Shape String}
    (h : s.resolve? t = some r) : r.operands = s.operands := by
  match s with
  | .literal (.str n) | .var n | .assign n e =>
    obtain ⟨x, -, rfl⟩ := Option.map_eq_some_iff.mp h
    rfl
  | .literal .null | .literal (.bool b) | .literal (.int n) | .literal (.float bits) => cases h; rfl
  | .binary op l r | .unary op e => cases h; rfl

theorem tree?_mono {loc : Location} {f g : NodeId → Option Expr} {s : Shape String} {e : Expr}
    (h : ∀ j ∈ s.operands, ∀ x, f j = some x → g j = some x) (hs : s.tree? loc f = some e) :
    s.tree? loc g = some e := by
  cases s with
  | literal v | var x => exact hs
  | assign x j | unary op j =>
    obtain ⟨y, hy, rfl⟩ := Option.map_eq_some_iff.mp hs
    simp [tree?, h j (by simp [operands]) y hy]
  | binary op l r =>
    obtain ⟨y, hy, hs⟩ := Option.bind_eq_some_iff.mp hs
    obtain ⟨z, hz, rfl⟩ := Option.map_eq_some_iff.mp hs
    simp [tree?, h l (by simp [operands]) y hy, h r (by simp [operands]) z hz]

theorem tree?_of_operands (loc : Location) {f : NodeId → Option Expr} {s : Shape String}
    (h : ∀ j ∈ s.operands, ∃ x, f j = some x) : ∃ e, s.tree? loc f = some e := by
  cases s with
  | literal v | var x => exact ⟨_, rfl⟩
  | assign x j | unary op j =>
    obtain ⟨y, hy⟩ := h j (by simp [operands])
    simp [tree?, hy]
  | binary op l r =>
    obtain ⟨y, hy⟩ := h l (by simp [operands])
    obtain ⟨z, hz⟩ := h r (by simp [operands])
    simp [tree?, hy, hz]

end Shape

/-- The node stands for the tree if its operands stand for theirs. -/
inductive Shape.StandsFor (names : Interner) (loc : Location) (operand : NodeId → Option Expr) :
    Shape Symbol → Expr → Prop
  | literal {v : Literal Symbol} {w : Literal String} :
      (Shape.literal v).resolve? names = some (.literal w) → StandsFor names loc operand (.literal v) (.literal loc w)
  | var {n : Symbol} {x : String} : names.text? n = some x → StandsFor names loc operand (.var n) (.var loc x)
  | assign {n : Symbol} {x : String} {j : NodeId} {e : Expr} : names.text? n = some x → operand j = some e →
      StandsFor names loc operand (.assign n j) (.assign loc x e)
  | binary {op : BinaryOp} {i j : NodeId} {d e : Expr} : operand i = some d → operand j = some e →
      StandsFor names loc operand (.binary op i j) (.binary loc op d e)
  | unary {op : UnaryOp} {j : NodeId} {e : Expr} : operand j = some e →
      StandsFor names loc operand (.unary op j) (.unary loc op e)

def Node.tree? (n : Node) (names : Interner) (operand : NodeId → Option Expr) : Option Expr :=
  (n.shape.resolve? names).bind (Shape.tree? n.loc operand)

theorem Node.standsFor_of_tree? {n : Node} {names : Interner} {operand : NodeId → Option Expr} {e : Expr}
    (h : n.tree? names operand = some e) : n.shape.StandsFor names n.loc operand e := by
  obtain ⟨shape, loc⟩ := n
  obtain ⟨s, hs, h⟩ := Option.bind_eq_some_iff.mp h
  cases shape with
  | literal v =>
    cases v with
    | str n =>
      obtain ⟨x, -, rfl⟩ := Option.map_eq_some_iff.mp hs
      cases h
      exact .literal hs
    | _ =>
      cases hs
      cases h
      exact .literal rfl
  | var n =>
    obtain ⟨x, hx, rfl⟩ := Option.map_eq_some_iff.mp hs
    cases h
    exact .var hx
  | assign n j =>
    obtain ⟨x, hx, rfl⟩ := Option.map_eq_some_iff.mp hs
    obtain ⟨d, hd, rfl⟩ := Option.map_eq_some_iff.mp h
    exact .assign hx hd
  | binary op i j =>
    cases hs
    obtain ⟨c, hc, h⟩ := Option.bind_eq_some_iff.mp h
    obtain ⟨d, hd, rfl⟩ := Option.map_eq_some_iff.mp h
    exact .binary hc hd
  | unary op j =>
    cases hs
    obtain ⟨d, hd, rfl⟩ := Option.map_eq_some_iff.mp h
    exact .unary hd

namespace Arena

/-- The tree of a node, if it stands for one. -/
def tree? (a : Arena) (id : NodeId) : Option Expr := (a.trees[id]?).join

theorem tree_eq_ok_iff {a : Arena} {id : NodeId} {e : Expr} :
    a.tree id = .ok e ↔ a.tree? id = some e := by
  unfold tree tree?
  split <;> simp_all

private def grow (names : Interner) (built : Array (Option Expr)) (n : Node) : Array (Option Expr) :=
  built.push (n.tree? names fun j => (built[j]?).join)

private theorem grow_spec (names : Interner) (ns : List Node) :
    (ns.foldl (grow names) #[]).size = ns.length ∧
    ∀ id : Nat, (ns.foldl (grow names) #[])[id]? = (ns[id]?).map fun n : Node =>
      n.tree? names fun j => if j < id then ((ns.foldl (grow names) #[])[j]?).join else none := by
  induction ns using List.reverseRecOn with
  | nil => simp
  | append_singleton ns n ih =>
    obtain ⟨hsize, hget⟩ := ih
    rw [List.foldl_append, List.foldl_cons, List.foldl_nil]
    generalize ns.foldl (grow names) #[] = built at hsize hget ⊢
    have old (j : Nat) (hj : j < ns.length) : (grow names built n)[j]? = built[j]? := by
      rw [grow, Array.getElem?_push_lt (hsize ▸ hj), Array.getElem?_eq_getElem (hsize ▸ hj)]
    have before (id : Nat) (hid : id ≤ ns.length) (j : Nat) :
        (if j < id then ((grow names built n)[j]?).join else none) =
          if j < id then (built[j]?).join else none := by
      split
      · rw [old j (by omega)]
      · rfl
    refine ⟨by simp [grow, hsize], fun id => ?_⟩
    rcases Nat.lt_trichotomy id ns.length with hid | rfl | hid
    · simp only [old id hid, hget id, List.getElem?_append_left hid, before id (Nat.le_of_lt hid)]
    · have hlast (j : Nat) : (if j < ns.length then (built[j]?).join else none) = (built[j]?).join := by
        split
        · rfl
        · rw [Array.getElem?_eq_none (by omega)]
          rfl
      simp only [before _ (Nat.le_refl _), hlast, List.getElem?_concat_length, Option.map_some]
      rw [grow, ← hsize, Array.getElem?_push_size]
    · rw [Array.getElem?_eq_none (by simp [grow]; omega), List.getElem?_eq_none (by simp; omega)]
      rfl

/-- A node stands for its tree over the trees of the nodes before it. -/
theorem tree?_eq (a : Arena) (id : NodeId) : a.tree? id = (a.nodes[id]?).bind fun n : Node =>
    n.tree? a.names fun j => if j < id then a.tree? j else none := by
  have htrees : a.trees = a.nodes.toList.foldl (grow a.names) #[] := (Array.foldl_toList _).symm
  have h := (grow_spec a.names a.nodes.toList).2 id
  rw [← htrees] at h
  unfold tree?
  rw [h, Array.getElem?_toList]
  cases a.nodes[id]? <;> rfl

/-- Nodes and texts are kept under their numbers. -/
structure Extends (a b : Arena) : Prop where
  nodes : ∀ (id : NodeId) (n : Node), a.nodes[id]? = some n → b.nodes[id]? = some n
  names : a.names.Extends b.names

theorem Extends.refl (a : Arena) : a.Extends a := ⟨fun _ _ h => h, .refl _⟩

theorem Extends.trans {a b c : Arena} (h : a.Extends b) (h' : b.Extends c) : a.Extends c :=
  ⟨fun id n hn => h'.nodes id n (h.nodes id n hn), fun n s hs => h'.names n s (h.names n s hs)⟩

theorem Extends.lt_size {a b : Arena} (h : a.Extends b) {id : NodeId} (hid : id < a.size) : id < b.size :=
  (Array.getElem?_eq_some_iff.mp (h.nodes id _ (Array.getElem?_eq_getElem hid))).1

theorem Extends.tree? {a b : Arena} (h : a.Extends b) {id : NodeId} {e : Expr}
    (he : a.tree? id = some e) : b.tree? id = some e := by
  induction id using Nat.strongRecOn generalizing e with
  | ind id ih =>
    rw [tree?_eq] at he ⊢
    obtain ⟨n, hn, he⟩ := Option.bind_eq_some_iff.mp he
    obtain ⟨s, hs, he⟩ := Option.bind_eq_some_iff.mp he
    rw [h.nodes id n hn, Option.bind_some, Node.tree?, Shape.resolve?_mono h.names hs, Option.bind_some]
    refine Shape.tree?_mono (fun j _ x hx => ?_) he
    split at hx
    · rename_i hj
      rw [if_pos hj, ih j hj hx]
    · cases hx

theorem push_eq {a : Arena} {s : Shape String} {loc : Location} (h : ∀ j ∈ s.operands, j < a.size) :
    a.push s loc = (.ok a.size, ⟨a.nodes.push ⟨(s.intern a.names).1, loc⟩, (s.intern a.names).2⟩) := by
  have hnone : (s.intern a.names).1.operands.find? (fun id => decide (a.nodes.size ≤ id)) = none := by
    rw [Shape.operands_intern, List.find?_eq_none]
    intro j hj
    have hlt : j < a.nodes.size := h j hj
    simpa using hlt
  simp only [push, store, hnone]
  rfl

/-- The request stores a node that stands for the expression, and keeps what the arena holds. -/
def Stores (a : Arena) (e : Expr) (x : Except ArenaError NodeId × Arena) : Prop :=
  ∃ id b, x = (.ok id, b) ∧ a.Extends b ∧ id < b.size ∧ b.tree? id = some e

/-- A node whose operands stand for trees stands for their tree. -/
theorem stores_push (a : Arena) (s : Shape String) (loc : Location) {e : Expr}
    (h : ∀ j ∈ s.operands, j < a.size) (he : s.tree? loc a.tree? = some e) : a.Stores e (a.push s loc) := by
  have hext : a.Extends ⟨a.nodes.push ⟨(s.intern a.names).1, loc⟩, (s.intern a.names).2⟩ :=
    ⟨fun id n hn => getElem?_push_of_some hn, s.intern_extends a.names⟩
  refine ⟨_, _, push_eq h, hext, by simp [size], ?_⟩
  rw [tree?_eq, size, Array.getElem?_push_size, Option.bind_some, Node.tree?, Shape.resolve?_intern,
    Option.bind_some]
  apply Shape.tree?_mono _ he
  intro j hj x hx
  have hlt : j < a.nodes.size := h j hj
  rw [if_pos hlt, hext.tree? hx]

/-- The arena has been extended by a node for each of the trees, in their order. -/
structure Grows (a : Arena) (ts : List Expr) (b : Arena) : Prop where
  kept : a.Extends b
  size : b.size = a.size + ts.length
  tree : ∀ (k : Nat) (t : Expr), ts[k]? = some t → b.tree? (a.size + k) = some t

section Growth

variable {a b c : Arena} {ts us : List Expr} {e : Expr}

theorem Grows.refl : a.Grows [] a := ⟨.refl a, rfl, by simp⟩

theorem Grows.trans (h : a.Grows ts b) (h' : b.Grows us c) : a.Grows (ts ++ us) c where
  kept := h.kept.trans h'.kept
  size := by rw [h'.size, h.size, List.length_append, Nat.add_assoc]
  tree k t ht := by
    rcases Nat.lt_or_ge k ts.length with hk | hk
    · rw [List.getElem?_append_left hk] at ht
      exact h'.kept.tree? (h.tree k t ht)
    · rw [List.getElem?_append_right hk] at ht
      have hlast := h'.tree _ t ht
      rwa [h.size, Nat.add_assoc, Nat.add_sub_cancel' hk] at hlast

theorem Grows.root {id : NodeId} (h : a.Grows e.subtrees b) (hid : b.size = id + 1) : b.tree? id = some e := by
  have hlast : e.subtrees[e.subtrees.length - 1]? = some e := by
    rw [← List.getLast?_eq_getElem?, e.getLast?_subtrees]
  have hpos : 0 < e.subtrees.length := List.length_pos_of_mem e.mem_subtrees_self
  have hsize := h.size
  have hroot : a.size + (e.subtrees.length - 1) = id := by omega
  exact hroot ▸ h.tree _ e hlast

theorem Grows.push (h : a.Grows ts b) (s : Shape String) (loc : Location) (hs : ∀ j ∈ s.operands, j < b.size)
    (he : s.tree? loc b.tree? = some e) :
    ∃ id c, b.push s loc = (.ok id, c) ∧ c.size = id + 1 ∧ a.Grows (ts ++ [e]) c := by
  obtain ⟨id, c, hc, hext, -, ht⟩ := b.stores_push s loc hs he
  obtain ⟨⟨⟩, rfl⟩ := Prod.mk.inj (hc.symm.trans (push_eq hs))
  have hsize : (Arena.mk (b.nodes.push ⟨(s.intern b.names).1, loc⟩) (s.intern b.names).2).size = b.size + 1 :=
    Array.size_push _
  refine ⟨_, _, hc, hsize, h.trans ⟨hext, hsize, fun k t hk => ?_⟩⟩
  obtain ⟨hlt, rfl⟩ := List.getElem?_eq_some_iff.mp hk
  obtain rfl : k = 0 := by simpa using hlt
  exact ht

/-- A copy of a tree is appended node by node. -/
theorem grows_insert (a : Arena) (e : Expr) :
    ∃ id b, a.insert e = (.ok id, b) ∧ b.size = id + 1 ∧ a.Grows e.subtrees b := by
  induction e generalizing a with
  | literal loc v => exact Grows.refl.push (.literal v) loc (by simp [Shape.operands]) rfl
  | var loc x => exact Grows.refl.push (.var x) loc (by simp [Shape.operands]) rfl
  | assign loc x e ih =>
    obtain ⟨j, b, hb, hj, hgrow⟩ := ih a
    simp only [insert, hb]
    apply hgrow.push (.assign x j) loc (by simp [Shape.operands, hj])
    rw [Shape.tree?, hgrow.root hj, Option.map_some]
  | binary loc op l r ihl ihr =>
    obtain ⟨i, b, hb, hi, hl⟩ := ihl a
    obtain ⟨j, c, hc, hj, hr⟩ := ihr b
    have hi' : i < c.size := hr.kept.lt_size (hi ▸ Nat.lt_succ_self i)
    have hj' : j < c.size := hj ▸ Nat.lt_succ_self j
    simp only [insert, hb, hc]
    apply (hl.trans hr).push (.binary op i j) loc (by simp [Shape.operands, hi', hj'])
    rw [Shape.tree?, hr.kept.tree? (hl.root hi), hr.root hj, Option.bind_some, Option.map_some]
  | unary loc op e ih =>
    obtain ⟨j, b, hb, hj, hgrow⟩ := ih a
    simp only [insert, hb]
    apply hgrow.push (.unary op j) loc (by simp [Shape.operands, hj])
    rw [Shape.tree?, hgrow.root hj, Option.map_some]

end Growth

theorem stores_insert (a : Arena) (e : Expr) : a.Stores e (a.insert e) := by
  obtain ⟨id, b, hb, hid, hgrow⟩ := a.grows_insert e
  exact ⟨id, b, hb, hgrow.kept, hid ▸ Nat.lt_succ_self id, hgrow.root hid⟩

/-- The arenas that come about by storing. A node is given with its texts, or with the numbers of
texts that the arena has. -/
inductive Built : Arena → Prop
  | empty : Built {}
  | intern {a : Arena} (s : String) : Built a → Built (a.intern s).2
  | push {a : Arena} (s : Shape String) (loc : Location) : Built a → Built (a.push s loc).2
  | store {a : Arena} (s : Shape Symbol) (loc : Location) : (s.resolve? a.names).isSome = true →
      Built a → Built (a.store s loc).2

/-- The operands of every node come before it, and its texts have numbers. -/
def WellFormed (a : Arena) : Prop := ∀ (id : NodeId) (n : Node), a.nodes[id]? = some n →
  (∀ j ∈ n.shape.operands, j < id) ∧ (n.shape.resolve? a.names).isSome = true

private theorem WellFormed.names {a : Arena} (h : a.WellFormed) {names : Interner}
    (hn : a.names.Extends names) : WellFormed ⟨a.nodes, names⟩ := by
  intro id n hget
  obtain ⟨hlt, hs⟩ := h id n hget
  obtain ⟨r, hr⟩ := Option.isSome_iff_exists.mp hs
  exact ⟨hlt, by rw [Shape.resolve?_mono hn hr]; rfl⟩

private theorem WellFormed.store {a : Arena} (h : a.WellFormed) {s : Shape Symbol} (loc : Location)
    (hs : (s.resolve? a.names).isSome = true) : (a.store s loc).2.WellFormed := by
  unfold Arena.store
  simp only
  split
  · exact h
  · rename_i hnone
    intro id n hget
    have hget : (a.nodes.push ⟨s, loc⟩)[id]? = some n := hget
    rw [Array.getElem?_push] at hget
    split at hget
    · rename_i hid
      cases hget
      refine ⟨fun j hj => ?_, hs⟩
      have hlt := List.find?_eq_none.mp hnone j hj
      rw [decide_eq_true_eq, Nat.not_le] at hlt
      exact hid ▸ hlt
    · exact h id n hget

theorem Built.wellFormed {a : Arena} (h : a.Built) : a.WellFormed := by
  induction h with
  | empty =>
    intro id n hn
    simp at hn
  | intern s _ ih => exact ih.names (Interner.intern_extends _ s)
  | @push a s loc _ ih =>
    have hs : ((s.intern a.names).1.resolve? (s.intern a.names).2).isSome = true := by
      rw [Shape.resolve?_intern, Option.isSome_some]
    exact (ih.names (s.intern_extends _)).store loc hs
  | store s loc hs _ ih => exact ih.store loc hs

/-- Every node of a well-formed arena stands for a tree. -/
theorem WellFormed.tree? {a : Arena} (h : a.WellFormed) {id : NodeId} (hid : id < a.size) :
    ∃ e, a.tree? id = some e := by
  induction id using Nat.strongRecOn with
  | ind id ih =>
    have hn : a.nodes[id]? = some a.nodes[id] := Array.getElem?_eq_getElem hid
    obtain ⟨hlt, hs⟩ := h id _ hn
    obtain ⟨s, hs⟩ := Option.isSome_iff_exists.mp hs
    rw [tree?_eq, hn, Option.bind_some, Node.tree?, hs, Option.bind_some]
    refine Shape.tree?_of_operands _ fun j hj => ?_
    have hj := hlt j (Shape.operands_resolve? hs ▸ hj)
    rw [if_pos hj]
    exact ih j hj (Nat.lt_trans hj hid)

theorem Built.tree {a : Arena} (h : a.Built) {id : NodeId} (hid : id < a.size) : ∃ e, a.tree id = .ok e := by
  obtain ⟨e, he⟩ := h.wellFormed.tree? hid
  exact ⟨e, tree_eq_ok_iff.mpr he⟩

end Arena

end ContextCodegen
