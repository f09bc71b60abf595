import ContextCodegen.Proofs.Forms

/-! The native forms. A native form exists where the two computations of the constant agree at
every node, and it runs as the native one, in which the dynamic value is the other. -/
namespace ContextCodegen

open Target Emission

/-- A constant whose computations agree; any other node has no form in the context. -/
def Folded.kept (s : Subject) (c : Context) : Option Folded → Except Refusal Folded
  | some f => if f.agrees then .ok f else .error (.unsupported s c)
  | none => .error (.unsupported s c)

def Literal.folded (s : Subject) (c : Context) (v : Literal String) : Except Refusal Folded :=
  match c, v with
  | .long, .int n => .ok (.long n)
  | .double, .int n => .ok (.widened n)
  | .double, .float bits => .ok (.double (Binary64.ofBits bits))
  | _, _ => .error (.unsupported s c)

/-- The constant of an expression in a native context. -/
def Expr.folded (c : Context) : Expr → Except Refusal Folded
  | .literal loc v => v.folded ⟨.literal, loc⟩ c
  | .unary loc .neg e => do
    let f ← e.folded c
    Folded.kept ⟨.unaryMinus, loc⟩ c (some f.negated)
  | .binary loc .add l r => do
    let f ← l.folded c
    let g ← r.folded c
    Folded.kept ⟨.add, loc⟩ c (f.binary .add g)
  | .binary loc .sub l r => do
    let f ← l.folded c
    let g ← r.folded c
    Folded.kept ⟨.sub, loc⟩ c (f.binary .sub g)
  | e => .error (.unsupported ⟨e.kind, e.location⟩ c)

/-- The result of a native term that computes the number. -/
def Number.toNative : Number → Native
  | .int n => .long n
  | .float x => .double x

/-- The native context of a number. -/
def Number.context : Number → Context
  | .int _ => .long
  | .float _ => .double

/-- The characters are read as a term that computes the number and does nothing else. -/
def Computes (cs : List Char) (n : Number) : Prop :=
  ∃ t, Denotes cs t ∧ ∀ m, Machine.eval t m = (.ok n.toNative, m)

theorem Computes.neg {cs : List Char} {n : Number} (h : Computes cs n) :
    Computes ("(-".toList ++ (cs ++ [')'])) n.nativeNeg := by
  obtain ⟨t, hd, he⟩ := h
  refine ⟨_, hd.neg_group, ?_⟩
  intro m
  rw [Machine.eval_neg (he m)]
  cases n <;> rfl

theorem Computes.widen {cs : List Char} {n : Int64} (h : Computes cs (.int n)) :
    Computes ("((double) ".toList ++ (cs ++ [')'])) (.float (Value.int n).toFloat) := by
  obtain ⟨t, hd, he⟩ := h
  refine ⟨_, hd.double_group, ?_⟩
  intro m
  rw [Machine.eval_cast (he m)]
  rfl

/-- The operator of the target language for a sum or a difference. -/
def arithOf (op : BinaryOp) : Arith := if op = .sub then .sub else .add

theorem Computes.binary {cs ds es : List Char} {op : BinaryOp} {a b n : Number} (h : Computes cs a)
    (hop : Sealed (' ' :: es) [(arithOf op).token]) (h' : Computes ds b)
    (hn : a.nativeBinary op b = some n) :
    Computes ('(' :: (cs ++ (' ' :: es ++ (ds ++ [')'])))) n := by
  obtain ⟨t, hd, he⟩ := h
  obtain ⟨u, hd', he'⟩ := h'
  refine ⟨_, hd.binary_group hop hd', ?_⟩
  intro m
  rw [Machine.eval_binary (he m) (he' m)]
  cases a <;> cases b <;> cases op <;> cases hn <;> rfl

theorem computes_long (n : Int64) : Computes (longLiteral n).toList (.int n) :=
  ⟨_, denotes_longLiteral n, eval_longTerm n⟩

theorem computes_double (x : Binary64) : Computes (doubleLiteral x).toList (.float x) :=
  ⟨_, denotes_doubleLiteral x, eval_doubleTerm x⟩

section Generators

theorem result_bind_ok {α β : Type} {m : Emission α} {f : α → Emission β} {a : α}
    (h : m.result = .ok a) : (m >>= f).result = (f a).result := by
  change (Emission.bind m f).result = _
  simp only [Emission.bind, h]

theorem result_bind_error {α β : Type} {m : Emission α} {f : α → Emission β} {r : Refusal}
    (h : m.result = .error r) : (m >>= f).result = .error r := by
  change (Emission.bind m f).result = _
  simp only [Emission.bind, h]

/-- The emission has the outcome; where that is a constant, what it prints behind the characters
before it completes a form that computes the constant. -/
def FoldsAfter (before : List Char) (m : Emission (Option Folded)) : Except Refusal Folded → Prop
  | .ok f => ∃ cs, m.Prints (some f) cs ∧ Computes (before ++ cs) f.native
  | .error r => m.result = .error r

private theorem folds_step {α : Type} {m : Emission α} {k : α → Emission (Option Folded)} {a : α}
    {before cs : List Char} {x : Except Refusal Folded} (h : m.Prints a cs)
    (hk : FoldsAfter (before ++ cs) (k a) x) : FoldsAfter before (m >>= k) x := by
  cases x with
  | error r => exact (result_bind_ok h.1).trans hk
  | ok f =>
    obtain ⟨ds, hp, hc⟩ := hk
    exact ⟨_, h.bind hp, List.append_assoc _ _ _ ▸ hc⟩

private theorem folds_operand {m : Emission (Option Folded)} {k : Option Folded → Emission (Option Folded)}
    {before : List Char} {x : Except Refusal Folded} {y : Folded → Except Refusal Folded}
    (h : FoldsAfter [] m x)
    (hk : ∀ f cs, Computes cs f.native → FoldsAfter (before ++ cs) (k (some f)) (y f)) :
    FoldsAfter before (m >>= k) (x >>= y) := by
  cases x with
  | error r => exact result_bind_error h
  | ok f =>
    obtain ⟨cs, hp, hc⟩ := h
    exact folds_step hp (hk f cs hc)

private theorem folds_pure {before : List Char} {f : Folded} (h : Computes before f.native) :
    FoldsAfter before (pure (some f)) (.ok f) :=
  ⟨[], prints_pure _, by rwa [List.append_nil]⟩

private theorem folds_agreeing {site : Site} {c : Context} {o : Option Folded} {before : List Char}
    (h : ∀ f ∈ o, Computes before f.native) :
    FoldsAfter before (site.agreeing c o) (Folded.kept site.subject c o) := by
  cases o with
  | none => rfl
  | some f =>
    simp only [Site.agreeing, Folded.kept]
    split
    · exact folds_pure (h f rfl)
    · rfl

private theorem folds_literal (s : Subject) (c : Context) (v : Literal String) :
    FoldsAfter [] (Generator.nativeLiteral s v c) (v.folded s c) := by
  match c, v with
  | .long, .int n => exact folds_step (prints_print _) (folds_pure (computes_long n))
  | .double, .int n =>
    refine folds_step (prints_print _) (folds_pure ?_)
    rw [String.toList_append, String.toList_append, List.append_assoc]
    exact (computes_long n).widen
  | .double, .float bits => exact folds_step (prints_print _) (folds_pure (computes_double _))
  | .long, .null | .long, .bool _ | .long, .float _ | .long, .str _ => rfl
  | .double, .null | .double, .bool _ | .double, .str _ => rfl
  | .value, v | .boolean, v | .selfExpr, v => cases v <;> rfl

private theorem folds_neg (site : Site) (c : Context) {m : Emission (Option Folded)}
    {x : Except Refusal Folded} (hm : FoldsAfter [] m x) :
    FoldsAfter [] (do
      print "(-"
      let o ← m
      print ")"
      match o with
      | some f => site.agreeing c (some f.negated)
      | none => return none)
      (do
        let f ← x
        Folded.kept site.subject c (some f.negated)) := by
  refine folds_step (prints_print "(-") (folds_operand hm fun f cs hf => ?_)
  apply folds_step (prints_print ")")
  apply folds_agreeing
  rintro _ ⟨⟩
  rw [List.append_assoc]
  exact hf.neg

private theorem folds_binary (site : Site) (c : Context) (op : BinaryOp) (s : String)
    {m n : Emission (Option Folded)} {x y : Except Refusal Folded} {w : List Char}
    (hm : FoldsAfter [] m x) (hn : FoldsAfter [] n y) (hs : s.toList = ' ' :: w)
    (hop : Sealed (' ' :: w) [(arithOf op).token]) :
    FoldsAfter [] (do
      print "("
      let l ← m
      print s
      let r ← n
      print ")"
      match l, r with
      | some l, some r => site.agreeing c (l.binary op r)
      | _, _ => return none)
      (do
        let f ← x
        let g ← y
        Folded.kept site.subject c (f.binary op g)) := by
  refine folds_step (prints_print "(") (folds_operand hm fun f cs hf => ?_)
  refine folds_step (prints_print s) (folds_operand hn fun g ds hg => ?_)
  apply folds_step (prints_print ")")
  apply folds_agreeing
  intro k hk
  obtain ⟨native, hnative, rfl⟩ := Option.map_eq_some_iff.mp hk
  rw [hs]
  simp only [List.append_assoc]
  exact hf.binary hop hg hnative

theorem folds (e : Expr) (c : Context) : FoldsAfter [] (e.generator.native.get c) (e.folded c) := by
  induction e with
  | literal loc v =>
    have h : FoldsAfter [] (do Generator.nativeLiteral ⟨.literal, loc⟩ (← pure v) c)
        (v.folded ⟨.literal, loc⟩ c) := folds_step (prints_pure v) (folds_literal _ c v)
    cases c <;> exact h
  | var loc x => cases c <;> rfl
  | assign loc x e ih => cases c <;> rfl
  | binary loc op l r ihl ihr =>
    cases op with
    | eq => cases c <;> rfl
    | ne => cases c <;> rfl
    | add =>
      have h := folds_binary ⟨.binary loc .add l r, [.ok l.generator, .ok r.generator]⟩ c .add " + "
        (w := "+ ".toList) ihl ihr rfl (sealed_plain rfl rfl rfl)
      cases c <;> exact h
    | sub =>
      have h := folds_binary ⟨.binary loc .sub l r, [.ok l.generator, .ok r.generator]⟩ c .sub " - "
        (w := "- ".toList) ihl ihr rfl (sealed_plain rfl rfl rfl)
      cases c <;> exact h
  | unary loc op e ih =>
    cases op with
    | neg =>
      have h := folds_neg ⟨.unary loc .neg e, [.ok e.generator]⟩ c ih
      cases c <;> exact h
    | not => cases c <;> rfl

/-- In a native context the form without its constant is asked for. -/
theorem emit_native (e : Expr) {c : Context} (hc : c = .long ∨ c = .double) :
    e.generator.emit c = Generator.discard (e.generator.native.get c) := by
  cases e with
  | binary loc op l r => cases op <;> rcases hc with rfl | rfl <;> rfl
  | unary loc op e => cases op <;> rcases hc with rfl | rfl <;> rfl
  | _ => rcases hc with rfl | rfl <;> rfl

theorem generate_of_folded {e : Expr} {c : Context} {f : Folded} (hc : c = .long ∨ c = .double)
    (h : e.folded c = .ok f) :
    ∃ s, Registry.standard.generate e c = .ok s ∧ Computes s.toList f.native := by
  have hf := folds e c
  rw [h] at hf
  obtain ⟨cs, hp, hcs⟩ := hf
  have hd : (Generator.discard (e.generator.native.get c)).Prints () (cs ++ []) := hp.bind (prints_pure ())
  rw [List.append_nil] at hd
  refine ⟨_, ?_, hd.2.symm ▸ hcs⟩
  rw [Expr.generate_standard, emit_native e hc, Emission.toText, hd.1]
  rfl

theorem generate_of_refused {e : Expr} {c : Context} {r : Refusal} (hc : c = .long ∨ c = .double)
    (h : e.folded c = .error r) : Registry.standard.generate e c = .error r := by
  have hf := folds e c
  rw [h] at hf
  have hd : (Generator.discard (e.generator.native.get c)).result = .error r := result_bind_error hf
  rw [Expr.generate_standard, emit_native e hc, Emission.toText, hd]
  rfl

end Generators

section Constants

theorem Folded.kept_eq_ok {s : Subject} {c : Context} {o : Option Folded} {f : Folded}
    (h : Folded.kept s c o = .ok f) : o = some f ∧ f.agrees = true := by
  cases o with
  | none => cases h
  | some g =>
    simp only [Folded.kept] at h
    split at h
    · rename_i hg
      cases h
      exact ⟨rfl, hg⟩
    · cases h

private theorem nativeNeg_context (n : Number) : n.nativeNeg.context = n.context := by
  cases n <;> rfl

private theorem nativeBinary_context {op : BinaryOp} {a b n : Number} (h : a.nativeBinary op b = some n) :
    n.context = a.context := by
  cases a <;> cases b <;> cases h <;> rfl

theorem numEq_self (x : Binary64) : (x.numEq x || (x.isNaN && x.isNaN)) = true := by
  cases x <;> simp [Binary64.numEq, Binary64.isNaN]

/-- The constant is of the type of the context and stands for the dynamic value of the expression,
which does not depend on variables and leaves them alone. -/
structure Expr.IsConstant (e : Expr) (c : Context) (f : Folded) : Prop where
  typed : f.native.context = c
  value : ∀ env, e.eval env = (f.boxed, env)
  agrees : f.agrees = true

theorem Expr.isConstant_of_folded {e : Expr} {c : Context} {f : Folded} (h : e.folded c = .ok f) :
    e.IsConstant c f := by
  induction e generalizing f with
  | literal loc v =>
    match c, v with
    | .long, .int n =>
      cases h
      exact ⟨rfl, fun _ => rfl, by simp [Folded.long, Folded.agrees]⟩
    | .double, .int n =>
      cases h
      exact ⟨rfl, fun _ => rfl, numEq_self _⟩
    | .double, .float bits =>
      cases h
      exact ⟨rfl, fun _ => rfl, numEq_self _⟩
  | var loc x => cases h
  | assign loc x e ih => cases h
  | binary loc op l r ihl ihr =>
    have combine (hop : op = .add ∨ op = .sub)
        (h : (do Folded.kept ⟨op.kind, loc⟩ c ((← l.folded c).binary op (← r.folded c))) = .ok f) :
        (Expr.binary loc op l r).IsConstant c f := by
      obtain ⟨g, hl, h⟩ := bind_eq_ok h
      obtain ⟨k, hr, h⟩ := bind_eq_ok h
      obtain ⟨hf, ha⟩ := Folded.kept_eq_ok h
      obtain ⟨native, hn, rfl⟩ := Option.map_eq_some_iff.mp hf
      refine ⟨?_, fun env => ?_, ha⟩
      · rw [← (ihl hl).typed]
        exact nativeBinary_context hn
      · rcases hop with rfl | rfl <;> simp [eval, (ihl hl).value, (ihr hr).value, BinaryOp.apply]
    cases op with
    | eq | ne => cases h
    | add => exact combine (.inl rfl) h
    | sub => exact combine (.inr rfl) h
  | unary loc op e ih =>
    cases op with
    | not => cases h
    | neg =>
      obtain ⟨g, hg, h⟩ := bind_eq_ok h
      obtain ⟨⟨⟩, ha⟩ := Folded.kept_eq_ok h
      refine ⟨?_, fun env => ?_, ha⟩
      · rw [← (ih hg).typed]
        exact nativeNeg_context g.native
      · simp [eval, (ih hg).value, UnaryOp.apply, Folded.negated]

end Constants

end ContextCodegen
