import ContextCodegen.Proofs.DeclaredContexts

/-! Standard generators that are bound to other kinds of nodes, in the boxed contexts. They read a tree in
the nodes, which need not be the one that is there, or refuse a node for its shape. What they print is the
standard text of the tree that they read. -/
namespace ContextCodegen

open Emission

namespace NodeKind

/-- The first of the kinds that share a standard generator. -/
def family : NodeKind → NodeKind
  | .notEquals => .equals
  | .sub => .add
  | k => k

/-- The operation of a generator that looks at nothing but the first operand. -/
def unary? : NodeKind → Option UnaryOp
  | .unaryMinus => some .neg
  | .not => some .not
  | _ => none

def hasNative : NodeKind → Bool
  | .literal | .unaryMinus | .add | .sub => true
  | _ => false

theorem standard_congr {j k : NodeKind} (h : j.family = k.family) :
    (Generator.standard j : Factory) = Generator.standard k := by
  cases j <;> cases k <;> first | rfl | cases h

theorem hasNative_congr {j k : NodeKind} (h : j.family = k.family) : j.hasNative = k.hasNative := by
  cases j <;> cases k <;> first | rfl | cases h

theorem eq_kind_of_unary? {k : NodeKind} {op : UnaryOp} (h : k.unary? = some op) : k = op.kind := by
  cases k <;> cases h <;> rfl

end NodeKind

def Registry.rebound (of : NodeKind → NodeKind) : Registry := ⟨fun k => some (Generator.standard (of k))⟩

section Reading

namespace Expr

variable (of : NodeKind → NodeKind)

/-- The node has the shape that the generator of its kind expects. -/
def Suits (e : Expr) : Prop := (of e.kind).family = e.kind.family

instance (e : Expr) : Decidable (e.Suits of) := inferInstanceAs (Decidable (_ = _))

/-- The refusal says that some node of the tree has not the shape that its generator expects. -/
def Misfit (e : Expr) (r : Refusal) : Prop :=
  ∃ t ∈ e.subtrees, ¬ t.Suits of ∧ r = .wrongShape ⟨t.kind, t.location⟩

theorem misfit_self {e : Expr} (hs : ¬ e.Suits of) : e.Misfit of (.wrongShape ⟨e.kind, e.location⟩) :=
  ⟨e, e.mem_subtrees_self, hs, rfl⟩

theorem Misfit.mono {of : NodeKind → NodeKind} {d e : Expr} {r : Refusal} (h : d.Misfit of r)
    (hsub : d.subtrees ⊆ e.subtrees) : e.Misfit of r := by
  obtain ⟨t, ht, hs, hr⟩ := h
  exact ⟨t, hsub ht, hs, hr⟩

/-- What the generator of a node takes it for: a unary operation on what its first operand is taken for,
or else the same node, if the shape is right. -/
def takenFor (e : Expr) (first same : Except Refusal Expr) : Except Refusal Expr :=
  match (of e.kind).unary? with
  | some op => first.map (.unary e.location op)
  | none => if e.Suits of then same else .error (.wrongShape ⟨e.kind, e.location⟩)

/-- The tree that the generators read in the boxed contexts, or the first node that they refuse. -/
def readBy : Expr → Except Refusal Expr
  | .literal loc v =>
    takenFor of (.literal loc v) (.error (.wrongShape ⟨.literal, loc⟩)) (.ok (.literal loc v))
  | .var loc x => takenFor of (.var loc x) (.error (.wrongShape ⟨.var, loc⟩)) (.ok (.var loc x))
  | .assign loc x e => takenFor of (.assign loc x e) e.readBy (e.readBy.map (.assign loc x))
  | .binary loc op l r =>
    takenFor of (.binary loc op l r) l.readBy (do return .binary loc op (← l.readBy) (← r.readBy))
  | .unary loc op e => takenFor of (.unary loc op e) e.readBy (e.readBy.map (.unary loc op))

abbrev boundGenerator (e : Expr) : Generator := e.generatorBy fun k => Generator.standard (of k)

theorem generate_rebound (e : Expr) (c : Context) :
    (Registry.rebound of).generate e c = ((e.boundGenerator of).emit c).toText :=
  e.generate_of_table (fun _ => rfl) c

theorem boundGenerator_eq_standard (e : Expr) :
    ∃ operands, e.boundGenerator of = Generator.standard (of e.kind) ⟨e, operands⟩ := by
  cases e <;> exact ⟨_, rfl⟩

/-- Only the kinds of nodes that occur matter. -/
theorem generatorBy_congr {table table' : NodeKind → Factory} {e : Expr}
    (h : ∀ t ∈ e.subtrees, table t.kind = table' t.kind) : e.generatorBy table = e.generatorBy table' := by
  induction e with
  | literal loc v => exact congrFun (forall_subtrees_iff.mp h).1 _
  | var loc x => exact congrFun (forall_subtrees_iff.mp h).1 _
  | assign loc x e ih =>
    obtain ⟨hroot, ho⟩ := forall_subtrees_iff.mp h
    rw [generatorBy, ih (ho e (by simp [operands]))]
    exact congrFun hroot _
  | binary loc op l r ihl ihr =>
    obtain ⟨hroot, ho⟩ := forall_subtrees_iff.mp h
    rw [generatorBy, ihl (ho l (by simp [operands])), ihr (ho r (by simp [operands]))]
    exact congrFun hroot _
  | unary loc op e ih =>
    obtain ⟨hroot, ho⟩ := forall_subtrees_iff.mp h
    rw [generatorBy, ih (ho e (by simp [operands]))]
    exact congrFun hroot _

/-- Where every shape is right the generators are the standard ones. -/
theorem boundGenerator_eq {e : Expr} (h : ∀ t ∈ e.subtrees, t.Suits of) :
    e.boundGenerator of = e.generator :=
  generatorBy_congr fun t ht => NodeKind.standard_congr (h t ht)

end Expr

end Reading

section Boxed

namespace Generator

/-- The generator prints in the boxed contexts what the standard one of the tree prints, or is refused in
all of them. -/
structure Boxes (g : Generator) (x : Except Refusal Expr) : Prop where
  value : ∀ {d}, x = .ok d → g.value = d.generator.value
  boolean : ∀ {d}, x = .ok d → g.boolean = d.generator.boolean
  selfExpr : ∀ {d}, x = .ok d → g.selfExpr = d.generator.selfExpr
  refused : ∀ {r}, x = .error r →
    g.value.result = .error r ∧ g.boolean.result = .error r ∧ g.selfExpr.result = .error r

variable {g h : Generator} {x y : Except Refusal Expr}

theorem boxes_ok {d : Expr} (value : g.value = d.generator.value) (boolean : g.boolean = d.generator.boolean)
    (selfExpr : g.selfExpr = d.generator.selfExpr) : g.Boxes (.ok d) where
  value := by rintro _ ⟨⟩; exact value
  boolean := by rintro _ ⟨⟩; exact boolean
  selfExpr := by rintro _ ⟨⟩; exact selfExpr
  refused := nofun

theorem boxes_error {r : Refusal} (value : g.value.result = .error r) (boolean : g.boolean.result = .error r)
    (selfExpr : g.selfExpr.result = .error r) : g.Boxes (.error r) where
  value := nofun
  boolean := nofun
  selfExpr := nofun
  refused := by rintro _ ⟨⟩; exact ⟨value, boolean, selfExpr⟩

private theorem refused_after {α β : Type} {m : Emission α} {f : α → Emission β} {r : Refusal} (a : α)
    (hm : m.result = .ok a) (hf : (f a).result = .error r) : (m >>= f).result = .error r :=
  (result_bind_ok hm).trans hf

private theorem refused_within {m : Emission Unit} {r : Refusal} (h : m.result = .error r)
    (opening closing : String) : (do print opening; m; print closing : Emission Unit).result = .error r :=
  refused_after () rfl (result_bind_error h)

theorem Boxes.unary (hg : g.Boxes x) (node : Expr) (rest : List (Except Refusal Generator)) (loc : Location)
    (op : UnaryOp) : (standard op.kind ⟨node, .ok g :: rest⟩).Boxes (x.map (.unary loc op)) := by
  cases x with
  | ok d =>
    have hv := hg.value rfl
    have hb := hg.boolean rfl
    have hs := hg.selfExpr rfl
    cases op with
    | neg =>
      refine boxes_ok ?_ ?_ ?_
      · exact congrArg (fun m => do m; print ".neg()") hv
      · exact congrArg (fun m => do (do m; print ".neg()"); print ".toBoolean()") hv
      · exact congrArg (fun m => do print "new UnaryMinusExpr("; m; print ")") hs
    | not =>
      refine boxes_ok ?_ ?_ ?_
      · exact congrArg (fun m => do print "env.toValue("; (do print "(!"; m; print ")"); print ")") hb
      · exact congrArg (fun m => do print "(!"; m; print ")") hb
      · exact congrArg (fun m => do print "new UnaryNotExpr("; m; print ")") hs
  | error r =>
    obtain ⟨hv, hb, hs⟩ := hg.refused rfl
    cases op with
    | neg =>
      have value : (standard .unaryMinus ⟨node, .ok g :: rest⟩).value.result = .error r :=
        refused_after g rfl (result_bind_error hv)
      exact boxes_error value (result_bind_error value) (refused_after g rfl (refused_within hs _ _))
    | not =>
      have boolean : (standard .not ⟨node, .ok g :: rest⟩).boolean.result = .error r :=
        refused_after g rfl (refused_within hb _ _)
      exact boxes_error (refused_within boolean _ _) boolean (refused_after g rfl (refused_within hs _ _))

theorem Boxes.assign (hg : g.Boxes x) (loc : Location) (target : String) (e : Expr) :
    (Generator.assign ⟨.assign loc target e, [.ok g]⟩).Boxes (x.map (.assign loc target)) := by
  cases x with
  | ok d =>
    have hv := hg.value rfl
    have form (head : String) {m n : Emission Unit} (h : m = n) :
        (do print head; m; print ")" : Emission Unit) = (do print head; n; print ")") := by rw [h]
    have value : (Generator.assign ⟨.assign loc target e, [.ok g]⟩).value =
        (Expr.assign loc target d).generator.value := form _ hv
    refine boxes_ok value ?_ (form _ (hg.selfExpr rfl))
    exact congrArg (fun m => do m; print ".toBoolean()") value
  | error r =>
    obtain ⟨hv, -, hs⟩ := hg.refused rfl
    have value : (Generator.assign ⟨.assign loc target e, [.ok g]⟩).value.result = .error r :=
      refused_after _ rfl (refused_after g rfl (refused_within hv _ _))
    refine boxes_error value (result_bind_error value) ?_
    exact refused_after _ rfl (refused_after g rfl (refused_within hs _ _))

/-- The first of two emissions that is refused. -/
private def PairRefused (m n : Emission Unit) (s : Refusal) : Prop :=
  m.result = .error s ∨ m.result = .ok () ∧ n.result = .error s

private theorem PairRefused.joined {m n : Emission Unit} {s : Refusal} (hp : PairRefused m n s)
    (between closing : String) :
    (do m; print between; n; print closing : Emission Unit).result = .error s := by
  rcases hp with hm | ⟨hm, hn⟩
  · exact result_bind_error hm
  · exact refused_after () hm (refused_within hn _ _)

private theorem PairRefused.enclosed {m n : Emission Unit} {s : Refusal} (hp : PairRefused m n s)
    (opening between closing : String) :
    (do print opening; m; print between; n; print closing : Emission Unit).result = .error s :=
  refused_after () rfl (hp.joined between closing)

/-- Both operands of a binary node are read, or else the first one that is not is refused. A standard
tree has all boxed forms, so nothing else is refused before. -/
private theorem Boxes.operands (hg : g.Boxes x) (hh : h.Boxes y) :
    (∃ l r, x = .ok l ∧ y = .ok r) ∨
      ∃ s, (∀ f : Expr → Expr → Expr, (do return f (← x) (← y) : Except Refusal Expr) = .error s) ∧
        PairRefused g.value h.value s ∧ PairRefused g.selfExpr h.selfExpr s := by
  cases x with
  | error s =>
    obtain ⟨hv, -, hs⟩ := hg.refused rfl
    exact .inr ⟨s, fun _ => rfl, .inl hv, .inl hs⟩
  | ok l =>
    cases y with
    | ok r => exact .inl ⟨l, r, rfl, rfl⟩
    | error s =>
      obtain ⟨_, hvalue, -⟩ := (writesBoxed l).value
      obtain ⟨_, hself, -⟩ := writesSelf l
      obtain ⟨hv, -, hs⟩ := hh.refused rfl
      refine .inr ⟨s, fun _ => rfl, .inr ⟨?_, hv⟩, .inr ⟨?_, hs⟩⟩
      · rw [hg.value rfl]
        exact hvalue.1
      · rw [hg.selfExpr rfl]
        exact hself.1

theorem Boxes.binary (hg : g.Boxes x) (hh : h.Boxes y) (loc : Location) (op : BinaryOp) (d e : Expr) :
    (standard op.kind ⟨.binary loc op d e, [.ok g, .ok h]⟩).Boxes
      (do return .binary loc op (← x) (← y)) := by
  rcases hg.operands hh with ⟨l, r, rfl, rfl⟩ | ⟨s, hxy, hv, hs⟩
  · have joined (opening between closing : String) {m n m' n' : Emission Unit} (hm : m = m') (hn : n = n') :
        (do print opening; m; print between; n; print closing : Emission Unit) =
          (do print opening; m'; print between; n'; print closing) := by rw [hm, hn]
    have hv := hg.value rfl
    have hv' := hh.value rfl
    have rebuilt (className : String) : rebuildBinary className g h =
        rebuildBinary className l.generator r.generator :=
      joined _ _ _ (hg.selfExpr rfl) (hh.selfExpr rfl)
    cases op with
    | eq | ne =>
      refine boxes_ok ?_ (joined _ _ _ hv hv') (rebuilt _)
      exact congrArg (fun m => do print "env.toValue("; m; print ")") (joined _ _ _ hv hv')
    | add | sub =>
      have sum (between : String) : (do g.value; print between; h.value; print ")" : Emission Unit) =
          (do l.generator.value; print between; r.generator.value; print ")") := by rw [hv, hv']
      refine boxes_ok (sum _) ?_ (rebuilt _)
      exact congrArg (fun m => do m; print ".toBoolean()") (sum _)
  · rw [hxy]
    cases op with
    | eq | ne =>
      exact boxes_error (refused_within (hv.enclosed _ _ _) _ _) (hv.enclosed _ _ _) (hs.enclosed _ _ _)
    | add | sub => exact boxes_error (hv.joined _ _) (result_bind_error (hv.joined _ _)) (hs.enclosed _ _ _)

/-- All but the generators of unary operations look at the shape of the node in every boxed context. -/
theorem boxes_misfit {k : NodeKind} (site : Site) (hk : k.family ≠ site.node.kind.family)
    (hu : k.unary? = none) : (standard k site).Boxes (.error (.wrongShape site.subject)) := by
  obtain ⟨node, operands⟩ := site
  cases k with
  | unaryMinus | not => cases hu
  | literal =>
    cases node with
    | literal loc v => exact absurd rfl hk
    | _ => exact boxes_error rfl rfl rfl
  | var =>
    cases node with
    | var loc x => exact absurd rfl hk
    | _ => exact boxes_error rfl rfl rfl
  | assign =>
    cases node with
    | assign loc x e => exact absurd rfl hk
    | _ => exact boxes_error rfl rfl rfl
  | equals | notEquals =>
    cases node with
    | binary loc op l r =>
      cases op with
      | eq | ne => exact absurd rfl hk
      | add | sub => exact boxes_error rfl rfl rfl
    | _ => exact boxes_error rfl rfl rfl
  | add | sub =>
    cases node with
    | binary loc op l r =>
      cases op with
      | add | sub => exact absurd rfl hk
      | eq | ne => exact boxes_error rfl rfl rfl
    | _ => exact boxes_error rfl rfl rfl

theorem Boxes.toText (hg : g.Boxes x) {c : Context} (hc : c ≠ .long ∧ c ≠ .double) :
    (g.emit c).toText = (do Registry.standard.generate (← x) c) := by
  cases x with
  | ok d =>
    have hd : g.emit c = d.generator.emit c := by
      cases c with
      | value => exact hg.value rfl
      | boolean => exact hg.boolean rfl
      | selfExpr => exact hg.selfExpr rfl
      | long => exact absurd rfl hc.1
      | double => exact absurd rfl hc.2
    rw [hd, ← Expr.generate_standard]
    rfl
  | error r =>
    obtain ⟨hvalue, hboolean, hself⟩ := hg.refused rfl
    have hr : (g.emit c).result = .error r := by
      cases c with
      | value => exact hvalue
      | boolean => exact hboolean
      | selfExpr => exact hself
      | long => exact absurd rfl hc.1
      | double => exact absurd rfl hc.2
    rw [Emission.toText, hr]
    rfl

end Generator

namespace Expr

variable (of : NodeKind → NodeKind)

/-- What a bound generator does follows from what those of the unary operations and the standard one do. -/
private theorem boxes_takenFor {e : Expr} {operands : List (Except Refusal Generator)}
    {first same : Except Refusal Expr}
    (hfirst : ∀ op : UnaryOp,
      (Generator.standard op.kind ⟨e, operands⟩).Boxes (first.map (.unary e.location op)))
    (hsame : (Generator.standard e.kind ⟨e, operands⟩).Boxes same) :
    (Generator.standard (of e.kind) ⟨e, operands⟩).Boxes (takenFor of e first same) := by
  unfold takenFor
  cases hu : (of e.kind).unary? with
  | some op =>
    rw [NodeKind.eq_kind_of_unary? hu]
    exact hfirst op
  | none =>
    by_cases hs : e.Suits of
    · rw [NodeKind.standard_congr hs]
      simpa only [if_pos hs] using hsame
    · simp only [if_neg hs]
      exact Generator.boxes_misfit ⟨e, operands⟩ hs hu

private theorem boxes_leaf (e : Expr) (op : UnaryOp) :
    (Generator.standard op.kind ⟨e, []⟩).Boxes
      (Except.map (.unary e.location op) (.error (.wrongShape ⟨e.kind, e.location⟩))) := by
  cases op <;> exact Generator.boxes_error rfl rfl rfl

theorem boxes_boundGenerator (e : Expr) : (e.boundGenerator of).Boxes (e.readBy of) := by
  induction e with
  | literal loc v =>
    have same : (Expr.literal loc v).generator.Boxes (.ok (.literal loc v)) := Generator.boxes_ok rfl rfl rfl
    exact boxes_takenFor of (boxes_leaf (.literal loc v)) same
  | var loc x =>
    have same : (Expr.var loc x).generator.Boxes (.ok (.var loc x)) := Generator.boxes_ok rfl rfl rfl
    exact boxes_takenFor of (boxes_leaf (.var loc x)) same
  | assign loc x e ih =>
    exact boxes_takenFor of (ih.unary (.assign loc x e) [] loc) (ih.assign loc x e)
  | binary loc op l r ihl ihr =>
    exact boxes_takenFor of (ihl.unary (.binary loc op l r) [.ok (r.boundGenerator of)] loc)
      (ihl.binary ihr loc op l r)
  | unary loc op e ih =>
    have taken := ih.unary (.unary loc op e) [] loc
    exact boxes_takenFor of taken (taken op)

theorem generate_rebound_boxed (e : Expr) {c : Context} (hc : c ≠ .long ∧ c ≠ .double) :
    (Registry.rebound of).generate e c = (do Registry.standard.generate (← e.readBy of) c) := by
  rw [generate_rebound]
  exact (e.boxes_boundGenerator of).toText hc

end Expr

end Boxed

section Outcomes

namespace Expr

variable {of : NodeKind → NodeKind}

/-- In a boxed context a node of another shape is refused, unless its generator is that of a unary
operation and finds an operand. -/
theorem generate_misfit_boxed {e : Expr} {c : Context} (hc : c ≠ .long ∧ c ≠ .double) (hs : ¬ e.Suits of)
    (hu : (of e.kind).unary? = none ∨ e.kind.arity = 0) :
    (Registry.rebound of).generate e c = .error (.wrongShape ⟨e.kind, e.location⟩) := by
  have taken {first same : Except Refusal Expr} (h : (of e.kind).unary? = none ∨
      first = .error (.wrongShape ⟨e.kind, e.location⟩)) :
      takenFor of e first same = .error (.wrongShape ⟨e.kind, e.location⟩) := by
    unfold takenFor
    cases hk : (of e.kind).unary? with
    | none => exact if_neg hs
    | some op =>
      rcases h with h | rfl
      · cases hk.symm.trans h
      · rfl
  have hread : e.readBy of = .error (.wrongShape ⟨e.kind, e.location⟩) := by
    cases e with
    | literal loc v => exact taken (.inr rfl)
    | var loc x => exact taken (.inr rfl)
    | assign loc x e => exact taken (hu.imp_right nofun)
    | binary loc op l r => cases op <;> exact taken (hu.imp_right nofun)
    | unary loc op e => cases op <;> exact taken (hu.imp_right nofun)
  rw [generate_rebound_boxed of e hc, hread]
  rfl

theorem takenFor_eq_ok {e d : Expr} {first same : Except Refusal Expr} (h : takenFor of e first same = .ok d) :
    (∃ op f, (of e.kind).unary? = some op ∧ first = .ok f ∧ d = .unary e.location op f) ∨
      e.Suits of ∧ same = .ok d := by
  unfold takenFor at h
  cases hu : (of e.kind).unary? with
  | some op =>
    rw [hu] at h
    cases first with
    | error r => cases h
    | ok f => exact .inl ⟨op, f, rfl, rfl, (Except.ok.inj h).symm⟩
  | none =>
    simp only [hu] at h
    split at h
    · exact .inr ⟨‹_›, h⟩
    · cases h

theorem not_suits_leaf {e : Expr} {op : UnaryOp} (hu : (of e.kind).unary? = some op)
    (ha : e.kind.arity = 0) : ¬ e.Suits of := by
  unfold Suits
  rw [NodeKind.eq_kind_of_unary? hu]
  generalize e.kind = k at ha
  cases k with
  | literal | var => cases op <;> decide
  | _ => cases ha

theorem takenFor_eq_error {e : Expr} {first same : Except Refusal Expr} {r : Refusal}
    (h : takenFor of e first same = .error r) :
    (∃ op, (of e.kind).unary? = some op ∧ first = .error r) ∨ same = .error r ∨
      ¬ e.Suits of ∧ r = .wrongShape ⟨e.kind, e.location⟩ := by
  unfold takenFor at h
  cases hu : (of e.kind).unary? with
  | some op =>
    rw [hu] at h
    cases first with
    | error r' => exact .inl ⟨op, rfl, congrArg Except.error (Except.error.inj h)⟩
    | ok f => cases h
  | none =>
    simp only [hu] at h
    split at h
    · exact .inr (.inl h)
    · exact .inr (.inr ⟨‹_›, (Except.error.inj h).symm⟩)

theorem misfit_of_readBy {e : Expr} {r : Refusal} (h : e.readBy of = .error r) : e.Misfit of r := by
  induction e with
  | literal loc v | var loc x =>
    rcases takenFor_eq_error h with ⟨op, hu, h⟩ | h | ⟨hs, rfl⟩
    · exact Except.error.inj h ▸ misfit_self of (not_suits_leaf hu rfl)
    · cases h
    · exact misfit_self of hs
  | assign loc x e ih =>
    rcases takenFor_eq_error h with ⟨-, -, h⟩ | h | ⟨hs, rfl⟩
    · exact (ih h).mono (by simp [subtrees])
    · exact (ih (map_eq_error h)).mono (by simp [subtrees])
    · exact misfit_self of hs
  | binary loc op l r' ihl ihr =>
    rcases takenFor_eq_error h with ⟨-, -, h⟩ | h | ⟨hs, rfl⟩
    · exact (ihl h).mono (by simp [subtrees])
    · rcases both_eq_error h with hl | hr
      · exact (ihl hl).mono (by simp [subtrees])
      · exact (ihr hr).mono (by simp [subtrees])
    · exact misfit_self of hs
  | unary loc op e ih =>
    rcases takenFor_eq_error h with ⟨-, -, h⟩ | h | ⟨hs, rfl⟩
    · exact (ih h).mono (by simp [subtrees])
    · exact (ih (map_eq_error h)).mono (by simp [subtrees])
    · exact misfit_self of hs

/-- In a boxed context nothing but a shape is refused. -/
theorem misfit_of_generate {e : Expr} {c : Context} {r : Refusal} (hc : c ≠ .long ∧ c ≠ .double)
    (h : (Registry.rebound of).generate e c = .error r) : e.Misfit of r := by
  rw [generate_rebound_boxed of e hc] at h
  cases hread : e.readBy of with
  | error r' =>
    rw [hread] at h
    exact Except.error.inj h ▸ misfit_of_readBy hread
  | ok d =>
    obtain ⟨s, hs⟩ := d.generate_boxed hc
    rw [hread] at h
    cases hs.symm.trans h

end Expr

end Outcomes

end ContextCodegen
