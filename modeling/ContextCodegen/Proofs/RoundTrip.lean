import ContextCodegen.Proofs.Comparison
import ContextCodegen.Proofs.Forms

/-! The self-expression rebuilds its node. Running it stores the nodes that a direct copy stores,
in the same order and with the same names, but without locations and with one pattern for NaN. -/
namespace ContextCodegen

open Target Machine

/-- The pattern with that of the one NaN for every NaN. -/
def quietBits (bits : UInt64) : UInt64 :=
  if (Binary64.ofBits bits).isNaN then 0x7ff8000000000000 else bits

def Literal.quiet {τ : Type} : Literal τ → Literal τ
  | .float bits => .float (quietBits bits)
  | v => v

def Shape.quiet {τ : Type} : Shape τ → Shape τ
  | .literal v => .literal v.quiet
  | s => s

def Node.rebuilt (n : Node) : Node := ⟨n.shape.quiet, .generated⟩

/-- The expression without its locations and with one pattern for NaN. -/
def Expr.rebuilt : Expr → Expr
  | .literal _ v => .literal .generated v.quiet
  | .var _ x => .var .generated x
  | .assign _ x e => .assign .generated x e.rebuilt
  | .binary _ op l r => .binary .generated op l.rebuilt r.rebuilt
  | .unary _ op e => .unary .generated op e.rebuilt

theorem toBits_ofBits (bits : UInt64) : (Binary64.ofBits bits).toBits = quietBits bits := by
  have hlt : bits.toNat < 2 * Binary64.signWeight := bits.toNat_lt
  have hsign : Binary64.signBit (decide (Binary64.signWeight ≤ bits.toNat)) +
      bits.toNat % Binary64.signWeight = bits.toNat := by
    unfold Binary64.signBit
    by_cases h : Binary64.signWeight ≤ bits.toNat
    · rw [decide_eq_true h, if_pos rfl, Nat.mod_eq_sub_mod h, Nat.mod_eq_of_lt (by omega)]
      omega
    · rw [decide_eq_false h, if_neg Bool.false_ne_true, Nat.mod_eq_of_lt (by omega), Nat.zero_add]
  have hword := congrArg UInt64.ofNat hsign
  rw [UInt64.ofNat_toNat] at hword
  unfold quietBits Binary64.ofBits
  simp only
  generalize bits.toNat % Binary64.signWeight = rank at hword ⊢
  by_cases hnan : Binary64.infinityRank < rank
  · simp [hnan, Binary64.isNaN, Binary64.toBits]
  · rw [if_neg hnan]
    unfold Binary64.ofRank
    split
    · exact hword
    · rename_i hinf
      obtain rfl : rank = Binary64.infinityRank := by omega
      exact hword

theorem literalOfValue_value (v : Literal String) : literalOfValue v.value = v.quiet := by
  cases v with
  | float bits => simp [Literal.value, literalOfValue, Literal.quiet, toBits_ofBits]
  | _ => rfl

/-- The self-expression stores what a copy without locations stores, and leaves the variables. -/
theorem eval_selfTerm {e : Expr} {a b : Arena} {id : NodeId} (env : Env)
    (h : a.insert e.rebuilt = (.ok id, b)) : eval e.selfTerm ⟨env, a⟩ = (.ok (.node id), ⟨env, b⟩) := by
  induction e generalizing a b id with
  | literal loc v =>
    refine (eval_new .literalExpr rfl rfl (evalAll_one (eval_literalTerm v _))).trans ?_
    refine (build_ok ?_ : build (.literal (literalOfValue v.value)) ⟨env, a⟩ = _)
    rw [literalOfValue_value]
    exact h
  | var loc x =>
    exact (eval_new .varExpr rfl rfl (evalAll_one (eval_str x _))).trans (build_ok h)
  | assign loc x e ih =>
    obtain ⟨j, c, hc, -⟩ := a.stores_insert e.rebuilt
    have hp : c.push (.assign x j) .generated = (.ok id, b) := by
      simpa only [Expr.rebuilt, Arena.insert, hc] using h
    exact (eval_new .assignExpr rfl rfl (evalAll_two (eval_str x _) (ih hc))).trans (build_ok hp)
  | binary loc op l r ihl ihr =>
    obtain ⟨i, c, hc, -⟩ := a.stores_insert l.rebuilt
    obtain ⟨j, d, hd, -⟩ := c.stores_insert r.rebuilt
    have hp : d.push (.binary op i j) .generated = (.ok id, b) := by
      simpa only [Expr.rebuilt, Arena.insert, hc, hd] using h
    have hf : ClassName.find? op.className = some (.binaryExpr op) := by cases op <;> rfl
    exact (eval_new (.binaryExpr op) hf rfl (evalAll_two (ihl hc) (ihr hd))).trans (build_ok hp)
  | unary loc op e ih =>
    obtain ⟨j, c, hc, -⟩ := a.stores_insert e.rebuilt
    have hp : c.push (.unary op j) .generated = (.ok id, b) := by
      simpa only [Expr.rebuilt, Arena.insert, hc] using h
    have hf : ClassName.find? op.className = some (.unaryExpr op) := by cases op <;> rfl
    exact (eval_new (.unaryExpr op) hf rfl (evalAll_one (ih hc))).trans (build_ok hp)

section Copies

private theorem intern_quiet (s : Shape String) (t : Interner) :
    s.quiet.intern t = ((s.intern t).1.quiet, (s.intern t).2) := by
  match s with
  | .literal .null | .literal (.bool b) | .literal (.int n) | .literal (.float bits) => rfl
  | .literal (.str x) | .var x | .assign x e | .binary op l r | .unary op e => rfl

private theorem operands_quiet (s : Shape String) : s.quiet.operands = s.operands := by
  cases s <;> rfl

/-- Both requests store nodes behind those of their arenas, the second without locations, under the
same numbers and with the same names. -/
def StoredAlike (a b : Arena) (x y : Except ArenaError NodeId × Arena) : Prop :=
  ∃ id added names, id < a.size + added.size ∧ x = (.ok id, ⟨a.nodes ++ added, names⟩) ∧
    y = (.ok id, ⟨b.nodes ++ added.map Node.rebuilt, names⟩)

private theorem storedAlike_push {a b : Arena} (hs : a.size = b.size) (added : Array Node) (names : Interner)
    (s : Shape String) (loc : Location) (h : ∀ j ∈ s.operands, j < a.size + added.size) :
    StoredAlike a b (Arena.push ⟨a.nodes ++ added, names⟩ s loc)
      (Arena.push ⟨b.nodes ++ added.map Node.rebuilt, names⟩ s.quiet .generated) := by
  have hsize : (Arena.mk (b.nodes ++ added.map Node.rebuilt) names).size = a.size + added.size := by
    simp [Arena.size] at hs ⊢
    omega
  have hsize' : (Arena.mk (a.nodes ++ added) names).size = a.size + added.size := by simp [Arena.size]
  refine ⟨a.size + added.size, added.push ⟨(s.intern names).1, loc⟩, (s.intern names).2, by simp, ?_, ?_⟩
  · rw [Arena.push_eq (by rwa [hsize']), hsize']
    simp
  · rw [Arena.push_eq (by rwa [hsize, operands_quiet]), hsize, intern_quiet]
    simp [Node.rebuilt]

private theorem storedAlike_leaf {a b : Arena} (hn : a.names = b.names) (hs : a.size = b.size)
    (s : Shape String) (loc : Location) (h : s.operands = []) :
    StoredAlike a b (a.push s loc) (b.push s.quiet .generated) := by
  obtain ⟨nodes, names⟩ := a
  obtain ⟨nodes', _⟩ := b
  cases hn
  simpa using storedAlike_push hs #[] names s loc (by simp [h])

/-- A tree and the tree without its locations are stored node for node. -/
theorem storedAlike_insert (e : Expr) {a b : Arena} (hn : a.names = b.names) (hs : a.size = b.size) :
    StoredAlike a b (a.insert e) (b.insert e.rebuilt) := by
  induction e generalizing a b with
  | literal loc v => exact storedAlike_leaf hn hs (.literal v) loc rfl
  | var loc x => exact storedAlike_leaf hn hs (.var x) loc rfl
  | assign loc x e ih =>
    obtain ⟨j, added, names, hj, ha, hb⟩ := ih hn hs
    simp only [Arena.insert, Expr.rebuilt, ha, hb]
    exact storedAlike_push hs added names (.assign x j) loc (by simpa [Shape.operands] using hj)
  | binary loc op l r ihl ihr =>
    obtain ⟨i, first, names, hi, ha, hb⟩ := ihl hn hs
    -- the right operand goes behind the left one on both sides
    have hs' : (Arena.mk (a.nodes ++ first) names).size =
        (Arena.mk (b.nodes ++ first.map Node.rebuilt) names).size := by
      simpa [Arena.size] using hs
    obtain ⟨j, second, names', hj, ha', hb'⟩ := ihr (by rfl) hs'
    simp only [Arena.insert, Expr.rebuilt, ha, hb, ha', hb', Array.append_assoc, ← Array.map_append]
    have hi' : i < a.size + (first ++ second).size := by
      rw [Array.size_append, ← Nat.add_assoc]
      exact Nat.lt_add_right _ hi
    have hj' : j < a.size + (first ++ second).size := by
      rw [Array.size_append, ← Nat.add_assoc]
      simpa [Arena.size] using hj
    refine storedAlike_push hs (first ++ second) names' (.binary op i j) loc ?_
    exact List.forall_mem_cons.mpr ⟨hi', List.forall_mem_singleton.mpr hj'⟩
  | unary loc op e ih =>
    obtain ⟨j, added, names, hj, ha, hb⟩ := ih hn hs
    simp only [Arena.insert, Expr.rebuilt, ha, hb]
    exact storedAlike_push hs added names (.unary op j) loc (by simpa [Shape.operands] using hj)

end Copies

section SameTree

def Expr.literals : Expr → List (Literal String)
  | .literal _ v => [v]
  | .var _ _ => []
  | .assign _ _ e => e.literals
  | .binary _ _ l r => l.literals ++ r.literals
  | .unary _ _ e => e.literals

theorem quietBits_eq_iff (bits : UInt64) : quietBits bits = bits ↔
    ((Binary64.ofBits bits).isNaN = true → bits = 0x7ff8000000000000) := by
  unfold quietBits
  split
  · rename_i h
    exact ⟨fun he _ => he.symm, fun he => (he h).symm⟩
  · rename_i h
    exact ⟨fun _ hn => absurd hn h, fun _ => rfl⟩

/-- A copy without locations is the same tree exactly if every NaN has the one pattern. -/
theorem sameTree_rebuilt (e : Expr) : e.sameTree e.rebuilt = true ↔
    ∀ bits, .float bits ∈ e.literals → (Binary64.ofBits bits).isNaN = true → bits = 0x7ff8000000000000 := by
  induction e with
  | literal loc v =>
    cases v with
    | float bits =>
      simp only [Expr.sameTree, Expr.rebuilt, Expr.literals, Literal.quiet, beq_iff_eq, Literal.float.injEq,
        List.mem_singleton, forall_eq]
      rw [eq_comm, quietBits_eq_iff]
    | _ => simp [Expr.sameTree, Expr.rebuilt, Expr.literals, Literal.quiet]
  | var loc x => simp [Expr.sameTree, Expr.rebuilt, Expr.literals]
  | assign loc x e ih => simpa [Expr.sameTree, Expr.rebuilt, Expr.literals] using ih
  | binary loc op l r ihl ihr =>
    simp only [Expr.sameTree, Expr.rebuilt, Expr.literals, BEq.rfl, Bool.true_and, Bool.and_eq_true, ihl, ihr,
      List.mem_append]
    grind
  | unary loc op e ih => simpa [Expr.sameTree, Expr.rebuilt, Expr.literals] using ih

end SameTree

/-- Running a self-expression stores, under the same numbers and with the same names, the nodes that a
direct copy stores, only without locations and with one pattern for NaN. It leaves the variables. The
result is the same tree as the node exactly if each NaN in that has the one pattern. -/
theorem self_expression_rebuilds {a : Arena} (ha : a.Built) {id : NodeId} (hid : id < a.size) :
    ∃ e s, a.tree id = .ok e ∧ Registry.standard.generate e .selfExpr = .ok s ∧
      ∀ env nodes, ∃ r added names,
        a.copyInto id nodes = (.ok r, ⟨nodes.nodes ++ added, names⟩) ∧
        execute s ⟨env, nodes⟩ = (.ok (.node r), ⟨env, ⟨nodes.nodes ++ added.map Node.rebuilt, names⟩⟩) ∧
        ∃ same, a.sameTree id ⟨nodes.nodes ++ added.map Node.rebuilt, names⟩ r = .ok same ∧
          (same = true ↔ ∀ bits, .float bits ∈ e.literals → (Binary64.ofBits bits).isNaN = true →
            bits = 0x7ff8000000000000) := by
  obtain ⟨e, he⟩ := ha.tree hid
  obtain ⟨s, hs, hd⟩ := generate_of_writes (e := e) (c := .selfExpr) (writesSelf e)
  refine ⟨e, s, he, hs, fun env nodes => ?_⟩
  obtain ⟨r, added, names, -, hcopy, hrebuilt⟩ := storedAlike_insert e (a := nodes) rfl rfl
  refine ⟨r, added, names, by rw [Arena.copyInto, he]; exact hcopy, ?_, e.sameTree e.rebuilt, ?_,
    sameTree_rebuilt e⟩
  · rw [execute_of_denotes hd, eval_selfTerm env hrebuilt]
  · obtain ⟨r', b, hb, -, -, ht⟩ := nodes.stores_insert e.rebuilt
    obtain ⟨⟨⟩, rfl⟩ := Prod.mk.inj (hb.symm.trans hrebuilt)
    exact Arena.sameTree_of_tree? (Arena.tree_eq_ok_iff.mp he) ht

private def signalling : Arena :=
  let a := (Arena.push {} (.literal (.float 0xfff0000000000001)) ⟨1, 1⟩).2
  (a.push (.unary .neg 0) ⟨1, 2⟩).2

private def signallingTree : Expr :=
  .unary ⟨1, 2⟩ .neg (.literal ⟨1, 1⟩ (.float 0xfff0000000000001))

/-- The NaN loses its pattern, so the result, stored behind another node, is another tree. -/
theorem signalling_self_expression_rebuilds :
    signalling.Built ∧ 1 < signalling.size ∧
      ∃ s r b, Registry.standard.generate signallingTree .selfExpr = .ok s ∧
        execute s ⟨{}, (Arena.push {} (.var "y") ⟨2, 1⟩).2⟩ = (.ok (.node r), ⟨{}, b⟩) ∧
        signalling.sameTree 1 b r = .ok false := by
  have hb : signalling.Built := .push _ _ (.push _ _ .empty)
  have hsize : 1 < signalling.size := by decide +kernel
  have htree : signalling.tree? 1 = some signallingTree := by decide +kernel
  obtain ⟨e, s, he, hs, h⟩ := self_expression_rebuilds hb hsize
  obtain rfl := Option.some.inj (htree.symm.trans (Arena.tree_eq_ok_iff.mp he))
  obtain ⟨r, added, names, -, hr, same, hsame, hiff⟩ := h {} (Arena.push {} (.var "y") ⟨2, 1⟩).2
  refine ⟨hb, hsize, s, r, _, hs, hr, ?_⟩
  have hne : same = false := Bool.eq_false_iff.mpr fun ht =>
    absurd (hiff.mp ht 0xfff0000000000001 (by decide +kernel)) (by decide +kernel)
  rw [hsame, hne]

end ContextCodegen
