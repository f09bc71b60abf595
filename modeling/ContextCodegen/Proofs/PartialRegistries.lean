import ContextCodegen.Proofs.ReboundReading

/-! Registries that lack the generators of some kinds. A tree is served as by the standard registry if all
its kinds are there, and otherwise the first node that is looked up in vain is refused. -/
namespace ContextCodegen

def Registry.only (kinds : List NodeKind) : Registry :=
  kinds.foldl (fun r k => r.register k (Generator.standard k)) .empty

namespace Expr

/-- The nodes below a node in the order in which their generators are looked up: those of the operands
first, then what is below the operands, from left to right. -/
def lookupsBelow : Expr → List Expr
  | .literal _ _ | .var _ _ => []
  | .assign _ _ e | .unary _ _ e => e :: e.lookupsBelow
  | .binary _ _ l r => l :: r :: (l.lookupsBelow ++ r.lookupsBelow)

def lookups (e : Expr) : List Expr := e :: e.lookupsBelow

/-- The expression, if all the nodes have one of the kinds, or else the refusal of the first that has not. -/
def served (kinds : List NodeKind) (e : Expr) (ts : List Expr) : Except Refusal Expr :=
  (ts.find? fun t => t.kind ∉ kinds).elim (.ok e) fun t => .error (.noGenerator ⟨t.kind, t.location⟩)

theorem mem_lookups_iff {t e : Expr} : t ∈ e.lookups ↔ t ∈ e.subtrees := by
  induction e with
  | literal loc v | var loc x => simp [lookups, lookupsBelow, subtrees]
  | assign loc x e ih | unary loc op e ih =>
    rw [lookups, List.mem_cons, mem_subtrees_iff]
    simpa [lookupsBelow, operands, lookups] using or_congr_right ih
  | binary loc op l r ihl ihr =>
    rw [lookups, List.mem_cons, mem_subtrees_iff]
    simp only [lookups, List.mem_cons] at ihl ihr
    simp only [lookupsBelow, operands, List.mem_cons, List.mem_append]
    grind

section Served

variable {kinds : List NodeKind} {d e t : Expr} {ts us : List Expr}

theorem served_cons (ht : t.kind ∈ kinds) : e.served kinds (t :: ts) = e.served kinds ts := by
  simp [served, ht]

theorem served_missing (ht : t.kind ∉ kinds) :
    e.served kinds (t :: ts) = .error (.noGenerator ⟨t.kind, t.location⟩) := by
  simp [served, ht]

theorem served_map (f : Expr → Expr) : (e.served kinds ts).map f = (f e).served kinds ts := by
  unfold served
  cases ts.find? fun t => decide (t.kind ∉ kinds) <;> rfl

theorem served_both (f : Expr → Expr → Expr) :
    (do return f (← d.served kinds ts) (← e.served kinds us)) = (f d e).served kinds (ts ++ us) := by
  unfold served
  rw [List.find?_append]
  cases ts.find? fun t => decide (t.kind ∉ kinds) with
  | some t => rfl
  | none => cases us.find? fun t => decide (t.kind ∉ kinds) <;> rfl

/-- A node is looked up in vain exactly if there is a kind that is missing. -/
theorem find?_lookups_eq_none_iff :
    e.lookups.find? (fun t => t.kind ∉ kinds) = none ↔ ∀ t ∈ e.subtrees, t.kind ∈ kinds := by
  simp [List.find?_eq_none, mem_lookups_iff]

end Served

end Expr

section Totality

theorem NodeKind.mem_all (k : NodeKind) : k ∈ NodeKind.all := by
  cases k <;> decide

theorem NodeKind.exists_expr (k : NodeKind) : ∃ e : Expr, e.kind = k := by
  let leaf : Expr := .literal .generated .null
  cases k with
  | literal => exact ⟨leaf, rfl⟩
  | var => exact ⟨.var .generated "", rfl⟩
  | assign => exact ⟨.assign .generated "" leaf, rfl⟩
  | equals => exact ⟨.binary .generated .eq leaf leaf, rfl⟩
  | notEquals => exact ⟨.binary .generated .ne leaf leaf, rfl⟩
  | unaryMinus => exact ⟨.unary .generated .neg leaf, rfl⟩
  | not => exact ⟨.unary .generated .not leaf, rfl⟩
  | add => exact ⟨.binary .generated .add leaf leaf, rfl⟩
  | sub => exact ⟨.binary .generated .sub leaf leaf, rfl⟩

end Totality

namespace Registry

variable (kinds : List NodeKind)

theorem factory?_only (k : NodeKind) :
    (only kinds).factory? k = if k ∈ kinds then some (Generator.standard k) else none := by
  have after (r : Registry) : (kinds.foldl (fun r k => r.register k (Generator.standard k)) r).factory? k =
      if k ∈ kinds then some (Generator.standard k) else r.factory? k := by
    induction kinds generalizing r with
    | nil => rfl
    | cons j kinds ih =>
      rw [List.foldl_cons, ih, register]
      by_cases hk : k = j
      · subst hk
        simp
      · simp [hk]
  exact after .empty

theorem resolve_eq (r : Registry) (e : Expr) : r.resolve e = r.generator e (e.operands.map r.resolve) := by
  cases e <;> rfl

theorem resolve_only {kinds : List NodeKind} {e : Expr} (h : e.kind ∈ kinds) :
    (only kinds).resolve e = .ok (Generator.standard e.kind ⟨e, e.operands.map (only kinds).resolve⟩) := by
  rw [resolve_eq, generator, factory?_only, if_pos h]

theorem resolve_only_missing {kinds : List NodeKind} {e : Expr} (h : e.kind ∉ kinds) :
    (only kinds).resolve e = .error (.noGenerator ⟨e.kind, e.location⟩) := by
  rw [resolve_eq, generator, factory?_only, if_neg h]

/-- A node whose generator is there emits in the boxed contexts as by the standard registry, unless the
generator of a node below is missing. -/
theorem boxes_only (e : Expr) :
    (Generator.standard e.kind ⟨e, e.operands.map (only kinds).resolve⟩).Boxes
      (e.served kinds e.lookupsBelow) := by
  induction e with
  | literal loc v => exact Generator.boxes_ok rfl rfl rfl
  | var loc x => exact Generator.boxes_ok rfl rfl rfl
  | assign loc x e ih =>
    rw [Expr.lookupsBelow, Expr.operands, List.map_singleton]
    by_cases he : e.kind ∈ kinds
    · rw [resolve_only he, Expr.served_cons he, ← Expr.served_map]
      exact ih.assign loc x e
    · rw [resolve_only_missing he, Expr.served_missing he]
      exact Generator.boxes_error rfl rfl rfl
  | binary loc op l r ihl ihr =>
    rw [Expr.lookupsBelow, Expr.operands, List.map_cons, List.map_singleton]
    by_cases hl : l.kind ∈ kinds
    · rw [resolve_only hl, Expr.served_cons hl]
      by_cases hr : r.kind ∈ kinds
      · rw [resolve_only hr, Expr.served_cons hr, ← Expr.served_both]
        exact ihl.binary ihr loc op l r
      · rw [resolve_only_missing hr, Expr.served_missing hr]
        cases op <;> exact Generator.boxes_error rfl rfl rfl
    · rw [resolve_only_missing hl, Expr.served_missing hl]
      cases op <;> exact Generator.boxes_error rfl rfl rfl
  | unary loc op e ih =>
    rw [Expr.lookupsBelow, Expr.operands, List.map_singleton]
    by_cases he : e.kind ∈ kinds
    · rw [resolve_only he, Expr.served_cons he, ← Expr.served_map]
      exact ih.unary _ [] loc op
    · rw [resolve_only_missing he, Expr.served_missing he]
      cases op <;> exact Generator.boxes_error rfl rfl rfl

theorem generate_only (e : Expr) {c : Context} (hc : c ≠ .long ∧ c ≠ .double) :
    (only kinds).generate e c = (do standard.generate (← e.served kinds e.lookups) c) := by
  rw [generate, Expr.lookups]
  by_cases he : e.kind ∈ kinds
  · rw [resolve_only he, Expr.served_cons he]
    exact (boxes_only kinds e).toText hc
  · rw [resolve_only_missing he, Expr.served_missing he]
    rfl

theorem generate_only_cases (e : Expr) {c : Context} (hc : c ≠ .long ∧ c ≠ .double) :
    ((∀ t ∈ e.subtrees, t.kind ∈ kinds) ∧
      ∃ s, (only kinds).generate e c = .ok s ∧ standard.generate e c = .ok s) ∨
    ∃ t, e.lookups.find? (fun t => t.kind ∉ kinds) = some t ∧
      (only kinds).generate e c = .error (.noGenerator ⟨t.kind, t.location⟩) := by
  rw [generate_only kinds e hc, Expr.served]
  cases hfind : e.lookups.find? fun t => decide (t.kind ∉ kinds) with
  | none =>
    obtain ⟨s, hs⟩ := e.generate_boxed hc
    exact .inl ⟨Expr.find?_lookups_eq_none_iff.mp hfind, s, hs, hs⟩
  | some t => exact .inr ⟨t, rfl, rfl⟩

theorem mem_missingKinds_only {k : NodeKind} : k ∈ (only kinds).missingKinds ↔ k ∉ kinds := by
  rw [missingKinds, List.mem_filter, contains, factory?_only]
  by_cases hk : k ∈ kinds
  · simp [hk]
  · simp [hk, NodeKind.mem_all]

theorem missingKinds_only_eq_nil_iff :
    (only kinds).missingKinds = [] ↔ ∀ e c s, (only kinds).generate e c ≠ .error (.noGenerator s) := by
  constructor
  · intro h e c s hs
    have hall : only kinds = standard := by
      refine congrArg Registry.mk (funext fun k => (factory?_only kinds k).trans (if_pos ?_))
      rw [List.eq_nil_iff_forall_not_mem] at h
      exact Decidable.not_not.mp fun hk => h k ((mem_missingKinds_only kinds).mpr hk)
    rw [hall] at hs
    rcases e.generate_outcome c with ⟨-, t, ht⟩ | ⟨-, r, hr, t, -, rfl⟩
    · cases ht.symm.trans hs
    · cases hr.symm.trans hs
  · intro h
    rw [List.eq_nil_iff_forall_not_mem]
    intro k hk
    obtain ⟨e, rfl⟩ := k.exists_expr
    apply h e .value ⟨e.kind, e.location⟩
    rw [generate, resolve_only_missing ((mem_missingKinds_only kinds).mp hk)]
    rfl

end Registry

/-- What becomes of every tree where the standard generators of some kinds are there and no others. In a
boxed context there is a text exactly if all kinds of the tree are there, and it is the standard one. Else the
first node that is looked up in vain is refused. So no lookup is ever in vain exactly if no kind is missing,
and a tree without the missing kinds is served all the same. -/
theorem partial_registry_exact (kinds : List NodeKind) :
    let r := Registry.only kinds
    (∀ e c, c ≠ .long ∧ c ≠ .double →
      ((∃ s, r.generate e c = .ok s) ↔ ∀ t ∈ e.subtrees, t.kind ∈ kinds) ∧
      (∀ s, r.generate e c = .ok s → Registry.standard.generate e c = .ok s) ∧
      ∀ x, r.generate e c = .error x → ∃ t ∈ e.subtrees, t.kind ∉ kinds ∧
        e.lookups.find? (fun t => t.kind ∉ kinds) = some t ∧ x = .noGenerator ⟨t.kind, t.location⟩) ∧
    (r.missingKinds = [] ↔ ∀ e c s, r.generate e c ≠ .error (.noGenerator s)) ∧
    ∀ e c, c ≠ .long ∧ c ≠ .double → (∀ t ∈ e.subtrees, t.kind ∉ r.missingKinds) →
      ∃ s, r.generate e c = .ok s ∧ Registry.standard.generate e c = .ok s := by
  intro r
  have first {e t : Expr} (h : e.lookups.find? (fun t => t.kind ∉ kinds) = some t) :
      t ∈ e.subtrees ∧ t.kind ∉ kinds :=
    ⟨Expr.mem_lookups_iff.mp (List.mem_of_find?_eq_some h), by simpa using List.find?_some h⟩
  refine ⟨fun e c hc => ?_, Registry.missingKinds_only_eq_nil_iff kinds, fun e c hc h => ?_⟩
  · rcases Registry.generate_only_cases kinds e hc with ⟨hall, s, hr, hs⟩ | ⟨t, ht, hr⟩
    · rw [hr]
      exact ⟨⟨fun _ => hall, fun _ => ⟨s, rfl⟩⟩, fun _ h => h ▸ hs, nofun⟩
    · rw [hr]
      obtain ⟨hmem, hkind⟩ := first ht
      refine ⟨⟨nofun, fun hall => absurd (hall t hmem) hkind⟩, nofun, ?_⟩
      rintro _ ⟨⟩
      exact ⟨t, hmem, hkind, ht, rfl⟩
  · rcases Registry.generate_only_cases kinds e hc with ⟨-, hs⟩ | ⟨t, ht, -⟩
    · exact hs
    · obtain ⟨hmem, hkind⟩ := first ht
      exact absurd ((Registry.mem_missingKinds_only kinds).mpr hkind) (h t hmem)

/-- The left side of the comparison lacks a generator below its root, the right side that of its root. -/
private def lacksOnBothSides : Expr :=
  .binary ⟨1, 5⟩ .eq (.unary ⟨1, 2⟩ .neg (.var ⟨1, 1⟩ "x")) (.unary ⟨1, 4⟩ .not (.literal ⟨1, 3⟩ .null))

/-- Both operands of a comparison are looked up before what is below them, so the right one is refused. The
negation that is served has none of the missing kinds. -/
theorem right_operand_missed_first :
    let r := Registry.only [.equals, .unaryMinus, .literal]
    (Context.value ≠ .long ∧ Context.value ≠ .double) ∧ (∃ t ∈ lacksOnBothSides.subtrees, t.kind = .var) ∧
      r.generate lacksOnBothSides .value = .error (.noGenerator ⟨.not, ⟨1, 4⟩⟩) ∧
      ∃ s, r.generate (.unary ⟨1, 2⟩ .neg (.literal ⟨1, 1⟩ .null)) .value = .ok s := by
  intro r
  obtain ⟨hboxed, -, -⟩ := partial_registry_exact [.equals, .unaryMinus, .literal]
  have hc : Context.value ≠ .long ∧ Context.value ≠ .double := by decide
  have hvar : .var ⟨1, 1⟩ "x" ∈ lacksOnBothSides.subtrees := by decide
  refine ⟨hc, ⟨.var ⟨1, 1⟩ "x", hvar, rfl⟩, ?_, ?_⟩
  · obtain ⟨hiff, -, hmissed⟩ := hboxed lacksOnBothSides .value hc
    cases hr : r.generate lacksOnBothSides .value with
    | ok s => exact absurd (hiff.mp ⟨s, hr⟩ _ hvar) (by decide)
    | error x =>
      obtain ⟨t, -, -, hfind, rfl⟩ := hmissed x hr
      cases hfind
      rfl
  · refine (hboxed _ .value hc).1.mpr fun t ht => ?_
    simp only [Expr.subtrees, List.mem_append, List.mem_singleton] at ht
    rcases ht with rfl | rfl <;> decide

end ContextCodegen
