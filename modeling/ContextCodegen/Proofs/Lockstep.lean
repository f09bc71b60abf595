import Mathlib.Data.List.Forall2
import ContextCodegen.Proofs.Running
import ContextCodegen.Proofs.Storage

/-! Execution is determined by the text. Two runs of one text, whatever variables and nodes they start
with, go in lockstep: they record the same accesses, store as many nodes, and end with results of one
type or with the same error, which is never that of a node stored before its operands. -/
namespace ContextCodegen.Target

open Machine

section Results

/-- Results of one type: the same text, or nodes with the same place among the `count` nodes that two
runs have stored behind `base` and `base'` others. Values and numbers may differ. -/
inductive Native.Alike (base base' count : Nat) : Native → Native → Prop
  | value (v w : Value) : Alike base base' count (.value v) (.value w)
  | bool (b c : Bool) : Alike base base' count (.bool b) (.bool c)
  | long (n k : Int64) : Alike base base' count (.long n) (.long k)
  | double (x y : Binary64) : Alike base base' count (.double x) (.double y)
  | str (s : String) : Alike base base' count (.str s) (.str s)
  | node {i : Nat} : i < count → Alike base base' count (.node (base + i)) (.node (base' + i))

/-- Both succeed, with related results, or both fail with the same error, which is none of the arena. -/
inductive SameResult {α : Type} (R : α → α → Prop) : Except ExecError α → Except ExecError α → Prop
  | ok {a b : α} : R a b → SameResult R (.ok a) (.ok b)
  | error {e : ExecError} : (∀ cause, e ≠ .arena cause) → SameResult R (.error e) (.error e)

theorem SameResult.bind {α β : Type} {R : α → α → Prop} {S : β → β → Prop} {x y : Except ExecError α}
    {f g : α → Except ExecError β} (h : SameResult R x y) (hf : ∀ a b, R a b → SameResult S (f a) (g b)) :
    SameResult S (x >>= f) (y >>= g) := by
  cases h with
  | ok hab => exact hf _ _ hab
  | error he => exact .error he

namespace Native

variable {base base' count : Nat} {n k : Native}

theorem Alike.mono (h : n.Alike base base' count k) {later : Nat} (hl : count ≤ later) :
    n.Alike base base' later k := by
  cases h with
  | value v w => exact .value v w
  | bool b c => exact .bool b c
  | long n k => exact .long n k
  | double x y => exact .double x y
  | str s => exact .str s
  | node hi => exact .node (Nat.lt_of_lt_of_le hi hl)

/-- The error tells the type of a result and nothing else. -/
theorem sameResult_mismatch {α : Type} {R : α → α → Prop} (h : n.type = k.type) (operation : String)
    (wanted : Wanted) : SameResult R (n.mismatch operation wanted) (k.mismatch operation wanted) := by
  unfold mismatch
  rw [h]
  exact .error nofun

theorem Alike.toValue (h : n.Alike base base' count k) (operation : String) :
    SameResult (fun _ _ => True) (n.toValue operation) (k.toValue operation) := by
  cases h with
  | value v w => exact .ok trivial
  | _ => exact sameResult_mismatch rfl operation _

theorem Alike.toBool (h : n.Alike base base' count k) (operation : String) :
    SameResult (fun _ _ => True) (n.toBool operation) (k.toBool operation) := by
  cases h with
  | bool b c => exact .ok trivial
  | _ => exact sameResult_mismatch rfl operation _

theorem Alike.toLong (h : n.Alike base base' count k) (operation : String) :
    SameResult (fun _ _ => True) (n.toLong operation) (k.toLong operation) := by
  cases h with
  | long n k => exact .ok trivial
  | _ => exact sameResult_mismatch rfl operation _

theorem Alike.toDouble (h : n.Alike base base' count k) (operation : String) :
    SameResult (fun _ _ => True) (n.toDouble operation) (k.toDouble operation) := by
  cases h with
  | double x y => exact .ok trivial
  | _ => exact sameResult_mismatch rfl operation _

theorem Alike.toStr (h : n.Alike base base' count k) (operation : String) :
    SameResult Eq (n.toStr operation) (k.toStr operation) := by
  cases h with
  | str s => exact .ok rfl
  | _ => exact sameResult_mismatch rfl operation _

theorem Alike.toNode (h : n.Alike base base' count k) (operation : String) :
    SameResult (fun i j => ∃ o < count, i = base + o ∧ j = base' + o) (n.toNode operation)
      (k.toNode operation) := by
  cases h with
  | node hi => exact .ok ⟨_, hi, rfl, rfl⟩
  | _ => exact sameResult_mismatch rfl operation _

theorem Alike.neg (h : n.Alike base base' count k) :
    SameResult (Native.Alike base base' count) n.neg k.neg := by
  cases h with
  | long n k => exact .ok (.long _ _)
  | double x y => exact .ok (.double _ _)
  | _ => exact sameResult_mismatch rfl _ _

theorem Alike.cast (h : n.Alike base base' count k) (type : Primitive) :
    SameResult (Native.Alike base base' count) (n.cast type) (k.cast type) := by
  cases type with
  | long =>
    cases h with
    | long n k => exact .ok (.long _ _)
    | double x y => exact .ok (.long _ _)
    | _ => exact sameResult_mismatch rfl _ _
  | double =>
    cases h with
    | long n k => exact .ok (.double _ _)
    | double x y => exact .ok (.double _ _)
    | _ => exact sameResult_mismatch rfl _ _

theorem Alike.widen (h : n.Alike base base' count k) (operation : String) :
    SameResult (fun _ _ => True) (n.widen operation) (k.widen operation) := by
  cases h with
  | long n k => exact .ok trivial
  | double x y => exact .ok trivial
  | _ => exact sameResult_mismatch rfl _ _

theorem Alike.arithmetic {l r : Native} (h : n.Alike base base' count k) (h' : l.Alike base base' count r)
    (op : Arith) :
    SameResult (Native.Alike base base' count) (Native.arithmetic op n l) (Native.arithmetic op k r) := by
  have widened (operation : String) (f : Binary64 → Binary64 → Binary64) :
      SameResult (Native.Alike base base' count)
        (do return .double (f (← n.widen operation) (← l.widen operation)))
        (do return .double (f (← k.widen operation) (← r.widen operation))) :=
    (h.widen operation).bind fun _ _ _ => (h'.widen operation).bind fun _ _ _ => .ok (.double _ _)
  cases op with
  | add =>
    cases h with
    | long n k =>
      cases h' with
      | long l r => exact .ok (.long _ _)
      | _ => exact widened "+" (· + ·)
    | _ => exact widened "+" (· + ·)
  | sub =>
    cases h with
    | long n k =>
      cases h' with
      | long l r => exact .ok (.long _ _)
      | _ => exact widened "-" (· - ·)
    | _ => exact widened "-" (· - ·)

end Native

/-- No constant is a node. -/
theorem alike_constant {base base' count : Nat} {owner name : String} {n : Native}
    (h : constant? owner name = some n) : n.Alike base base' count n := by
  unfold constant? at h
  repeat' split at h
  all_goals cases h
  all_goals constructor

theorem sameResult_fieldValue (base base' count : Nat) (target : Term) (name : String) :
    SameResult (Native.Alike base base' count) (fieldValue target name) (fieldValue target name) := by
  cases target with
  | name owner =>
    simp only [fieldValue]
    cases hc : constant? owner name with
    | none => exact .error nofun
    | some n => exact .ok (alike_constant hc)
  | _ => exact .error nofun

end Results

section Lockstep

/-- Since `start`, the machine recorded the accesses and stored `count` nodes behind those there were. -/
structure Machine.Since (start : Machine) (accesses : Array Access) (count : Nat) (m : Machine) : Prop where
  trace : m.env.trace = start.env.trace ++ accesses
  nodes : ∃ added : Array Node, added.size = count ∧ m.nodes.nodes = start.nodes.nodes ++ added

theorem Machine.Since.size {start m : Machine} {accesses : Array Access} {count : Nat}
    (h : start.Since accesses count m) : m.nodes.size = start.nodes.size + count := by
  obtain ⟨added, rfl, hn⟩ := h.nodes
  rw [Arena.size, hn, Array.size_append, Arena.size]

variable (start start' : Machine)

/-- Since they started, both machines recorded the same accesses and stored as many nodes. -/
def InStep (count : Nat) (m m' : Machine) : Prop :=
  ∃ accesses, start.Since accesses count m ∧ start'.Since accesses count m'

/-- Alike results of runs from the two machines. -/
abbrev AlikeSince (count : Nat) : Native → Native → Prop :=
  Native.Alike start.nodes.size start'.nodes.size count

/-- From machines in step the actions end alike, in step again. Which results are alike depends on how
many nodes are stored by then. -/
def Lockstep {α : Type} (count : Nat) (R : Nat → α → α → Prop) (x y : Exec α) : Prop :=
  ∀ m m', InStep start start' count m m' → ∃ later, count ≤ later ∧
    InStep start start' later (x m).2 (y m').2 ∧ SameResult (R later) (x m).1 (y m').1

variable {start start'} {α β : Type} {count : Nat} {R : Nat → α → α → Prop} {S : Nat → β → β → Prop}

namespace Lockstep

theorem ofExcept {x y : Except ExecError α} (h : SameResult (R count) x y) :
    Lockstep start start' count R (ExceptT.mk (Pure.pure x)) (ExceptT.mk (Pure.pure y)) :=
  fun _ _ hm => ⟨count, Nat.le_refl _, hm, h⟩

theorem pure {a b : α} (h : R count a b) :
    Lockstep start start' count R (Pure.pure a) (Pure.pure b) :=
  ofExcept (.ok h)

theorem throw {e : ExecError} (h : ∀ cause, e ≠ .arena cause) :
    Lockstep start start' count R (MonadExcept.throw e) (MonadExcept.throw e) :=
  ofExcept (.error h)

theorem bind {x y : Exec α} {f g : α → Exec β} (h : Lockstep start start' count R x y)
    (hf : ∀ later, count ≤ later → ∀ a b, R later a b → Lockstep start start' later S (f a) (g b)) :
    Lockstep start start' count S (x >>= f) (y >>= g) := by
  intro m m' hm
  obtain ⟨later, hle, hs, hr⟩ := h m m' hm
  generalize hx : x m = p at hs hr
  generalize hy : y m' = q at hs hr
  obtain ⟨p, n⟩ := p
  obtain ⟨q, n'⟩ := q
  cases hr with
  | error he =>
    rw [bind_error hx, bind_error hy]
    exact ⟨later, hle, hs, .error he⟩
  | ok hab =>
    rw [bind_ok hx, bind_ok hy]
    obtain ⟨last, hle', hs', hr'⟩ := hf later hle _ _ hab n n' hs
    exact ⟨last, Nat.le_trans hle hle', hs', hr'⟩

end Lockstep

/-- A result that no machine takes part in leaves the machines as they are. -/
theorem SameResult.then {P : α → α → Prop} {x y : Except ExecError α} {f g : α → Exec β}
    (h : SameResult P x y) (hf : ∀ a b, P a b → Lockstep start start' count S (f a) (g b)) :
    Lockstep start start' count S (liftM x >>= f) (liftM y >>= g) := by
  have hl : Lockstep start start' count (fun later a b => later = count ∧ P a b)
      (liftM x : Exec α) (liftM y : Exec α) := by
    apply Lockstep.ofExcept
    cases h with
    | ok hab => exact .ok ⟨rfl, hab⟩
    | error he => exact .error he
  refine hl.bind fun later _ a b hab => ?_
  obtain ⟨rfl, hab⟩ := hab
  exact hf a b hab

end Lockstep

section Actions

variable {start start' : Machine} {β : Type} {count : Nat} {S : Nat → β → β → Prop}

private theorem inStep_access {m m' : Machine} {env env' : Env} (a : Access)
    (h : InStep start start' count m m') (he : env.trace = m.env.trace.push a)
    (he' : env'.trace = m'.env.trace.push a) :
    InStep start start' count { m with env } { m' with env := env' } := by
  obtain ⟨accesses, hs, hs'⟩ := h
  refine ⟨accesses.push a, ⟨?_, hs.nodes⟩, ⟨?_, hs'.nodes⟩⟩
  · rw [he, hs.trace, Array.append_push]
  · rw [he', hs'.trace, Array.append_push]

theorem lockstep_getVariable (name : String) :
    Lockstep start start' count (fun _ _ _ => True) (getVariable name) (getVariable name) :=
  fun _ _ hm => ⟨count, Nat.le_refl _, inStep_access (.read name) hm rfl rfl, .ok trivial⟩

theorem lockstep_setVariable (name : String) (v w : Value) :
    Lockstep start start' count (fun _ _ _ => True) (setVariable name v) (setVariable name w) :=
  fun _ _ hm => ⟨count, Nat.le_refl _, inStep_access (.write name) hm rfl rfl, .ok trivial⟩

/-- A node whose operands are stored is stored behind all others. -/
private theorem Machine.Since.build {m : Machine} {accesses : Array Access} {s : Shape String}
    (h : start.Since accesses count m) (hs : ∀ j ∈ s.operands, j < start.nodes.size + count) :
    ∃ nodes, Machine.build s m = (.ok (.node (start.nodes.size + count)), { m with nodes }) ∧
      start.Since accesses (count + 1) { m with nodes } := by
  rw [← h.size] at hs
  have hp : m.nodes.push s .generated = _ := Arena.push_eq hs
  obtain ⟨added, hc, hn⟩ := h.nodes
  let stored : Node := ⟨(s.intern m.nodes.names).1, .generated⟩
  refine ⟨⟨m.nodes.nodes.push stored, (s.intern m.nodes.names).2⟩, ?_, h.trace, added.push stored, ?_, ?_⟩
  · rw [← h.size]
    exact Machine.build_ok hp
  · rw [Array.size_push, hc]
  · rw [hn, Array.append_push]

theorem lockstep_build {s s' : Shape String} (hs : ∀ j ∈ s.operands, j < start.nodes.size + count)
    (hs' : ∀ j ∈ s'.operands, j < start'.nodes.size + count) :
    Lockstep start start' count (AlikeSince start start') (build s) (build s') := by
  intro m m' hm
  obtain ⟨accesses, h, h'⟩ := hm
  obtain ⟨nodes, hb, hn⟩ := h.build hs
  obtain ⟨nodes', hb', hn'⟩ := h'.build hs'
  rw [hb, hb']
  exact ⟨count + 1, Nat.le_succ _, ⟨accesses, hn, hn'⟩, .ok (.node (Nat.lt_succ_self _))⟩

theorem lockstep_checkArity {operation : String} {k : Nat} {args : List Term} {x y : Exec β}
    (h : args.length = k → Lockstep start start' count S x y) :
    Lockstep start start' count S (do checkArity operation k args; x)
      (do checkArity operation k args; y) := by
  by_cases hk : args.length = k
  · rw [checkArity, if_pos hk]
    exact h hk
  · rw [checkArity, if_neg hk]
    exact .throw (by simp)

private theorem one_of_length {P : Native → Native → Prop} {ns ks : List Native}
    (h : List.Forall₂ P ns ks) (hl : ns.length = 1) : ∃ n k, ns = [n] ∧ ks = [k] ∧ P n k := by
  obtain ⟨n, rfl⟩ := List.length_eq_one_iff.mp hl
  cases h with
  | cons hn ht =>
    cases ht
    exact ⟨_, _, rfl, rfl, hn⟩

private theorem two_of_length {P : Native → Native → Prop} {ns ks : List Native}
    (h : List.Forall₂ P ns ks) (hl : ns.length = 2) :
    ∃ n l k r, ns = [n, l] ∧ ks = [k, r] ∧ P n k ∧ P l r := by
  obtain ⟨n, l, rfl⟩ := List.length_eq_two.mp hl
  cases h with
  | cons hn ht =>
    obtain ⟨_, _, ⟨⟩, rfl, hl⟩ := one_of_length ht rfl
    exact ⟨_, _, _, _, rfl, rfl, hn, hl⟩

theorem lockstep_callStatic (operation : String) (method : StaticMethod) {ns ks : List Native}
    (h : List.Forall₂ (AlikeSince start start' count) ns ks) (hl : ns.length = method.arity) :
    Lockstep start start' count (AlikeSince start start') (callStatic operation method ns)
      (callStatic operation method ks) := by
  cases method with
  | getValue =>
    obtain ⟨n, k, rfl, rfl, hn⟩ := one_of_length h hl
    refine (hn.toStr operation).then fun s _ hs => ?_
    subst hs
    exact (lockstep_getVariable s).bind fun _ _ _ _ _ => .pure (.value _ _)
  | setValue =>
    obtain ⟨n, l, k, r, rfl, rfl, hn, hr⟩ := two_of_length h hl
    refine (hn.toStr operation).then fun s _ hs => (hr.toValue operation).then fun v w _ => ?_
    subst hs
    exact (lockstep_setVariable s v w).bind fun _ _ _ _ _ => .pure (.value _ _)
  | toValue =>
    obtain ⟨n, k, rfl, rfl, hn⟩ := one_of_length h hl
    exact (hn.toBool operation).then fun _ _ _ => .pure (.value _ _)
  | createString =>
    obtain ⟨n, k, rfl, rfl, hn⟩ := one_of_length h hl
    exact (hn.toStr operation).then fun _ _ _ => .pure (.value _ _)
  | createLong =>
    obtain ⟨n, k, rfl, rfl, hn⟩ := one_of_length h hl
    exact (hn.toLong operation).then fun _ _ _ => .pure (.value _ _)

theorem sameResult_callValue (operation : String) (v w : Value) (method : ValueMethod)
    {ns ks : List Native} (h : List.Forall₂ (AlikeSince start start' count) ns ks)
    (hl : ns.length = method.arity) :
    SameResult (AlikeSince start start' count) (callValue operation v method ns)
      (callValue operation w method ks) := by
  cases method with
  | eql =>
    obtain ⟨n, k, rfl, rfl, hn⟩ := one_of_length h hl
    exact (hn.toValue operation).bind fun _ _ _ => .ok (.bool _ _)
  | add | sub =>
    obtain ⟨n, k, rfl, rfl, hn⟩ := one_of_length h hl
    exact (hn.toValue operation).bind fun _ _ _ => .ok (.value _ _)
  | neg | toBoolean | toLong | toDouble =>
    obtain rfl := List.length_eq_zero_iff.mp hl
    cases h
    exact .ok (by constructor)

theorem lockstep_construct (operation : String) (className : ClassName) {ns ks : List Native}
    (h : List.Forall₂ (AlikeSince start start' count) ns ks) (hl : ns.length = className.arity) :
    Lockstep start start' count (AlikeSince start start') (construct operation className ns)
      (construct operation className ks) := by
  cases className with
  | doubleValue =>
    obtain ⟨n, k, rfl, rfl, hn⟩ := one_of_length h hl
    exact (hn.toDouble operation).then fun _ _ _ => .pure (.value _ _)
  | literalExpr =>
    obtain ⟨n, k, rfl, rfl, hn⟩ := one_of_length h hl
    exact (hn.toValue operation).then fun _ _ _ => lockstep_build nofun nofun
  | varExpr =>
    obtain ⟨n, k, rfl, rfl, hn⟩ := one_of_length h hl
    exact (hn.toStr operation).then fun _ _ _ => lockstep_build nofun nofun
  | assignExpr =>
    obtain ⟨n, l, k, r, rfl, rfl, hn, hr⟩ := two_of_length h hl
    refine (hn.toStr operation).then fun _ _ _ => (hr.toNode operation).then fun _ _ hj => ?_
    obtain ⟨o, ho, rfl, rfl⟩ := hj
    exact lockstep_build (by simpa [Shape.operands] using ho) (by simpa [Shape.operands] using ho)
  | unaryExpr op =>
    obtain ⟨n, k, rfl, rfl, hn⟩ := one_of_length h hl
    refine (hn.toNode operation).then fun _ _ hj => ?_
    obtain ⟨o, ho, rfl, rfl⟩ := hj
    exact lockstep_build (by simpa [Shape.operands] using ho) (by simpa [Shape.operands] using ho)
  | binaryExpr op =>
    obtain ⟨n, l, k, r, rfl, rfl, hn, hr⟩ := two_of_length h hl
    refine (hn.toNode operation).then fun _ _ hi => (hr.toNode operation).then fun _ _ hj => ?_
    obtain ⟨o, ho, rfl, rfl⟩ := hi
    obtain ⟨p, hp, rfl, rfl⟩ := hj
    exact lockstep_build (by simp [Shape.operands, ho, hp]) (by simp [Shape.operands, ho, hp])

end Actions

section Terms

variable (start start' : Machine)

/-- The term runs in lockstep, however many nodes are stored before it. -/
def TermLockstep (t : Term) : Prop :=
  ∀ count, Lockstep start start' count (AlikeSince start start') (eval t) (eval t)

/-- The terms run in lockstep, one after the other, and give one result each. -/
def ArgsLockstep (ts : List Term) : Prop :=
  ∀ count, Lockstep start start' count
    (fun later ns ks => ns.length = ts.length ∧ List.Forall₂ (AlikeSince start start' later) ns ks)
    (evalAll ts) (evalAll ts)

variable {start start'}

theorem lockstep_call_static (owner method : String) {args : List Term}
    (h : ArgsLockstep start start' args) : TermLockstep start start' (.call (.name owner) method args) := by
  intro count
  rw [eval]
  cases hf : StaticMethod.find? owner method with
  | none => exact .throw (by simp)
  | some m =>
    refine lockstep_checkArity fun hl => (h count).bind fun _ _ ns ks hs => ?_
    exact lockstep_callStatic _ m hs.2 (hs.1.trans hl)

theorem lockstep_call_value {receiver : Term} (hr : ∀ owner, receiver ≠ .name owner) (method : String)
    {args : List Term} (h : TermLockstep start start' receiver) (h' : ArgsLockstep start start' args) :
    TermLockstep start start' (.call receiver method args) := by
  intro count
  rw [eval]
  · refine (h count).bind fun _ _ n k hn => (hn.toValue method).then fun v w _ => ?_
    cases hf : ValueMethod.find? method with
    | none => exact .throw (by simp)
    | some m =>
      refine lockstep_checkArity fun hl => (h' _).bind fun _ _ ns ks hs => ?_
      exact .ofExcept (sameResult_callValue _ v w m hs.2 (hs.1.trans hl))
  · exact hr

theorem lockstep_new (name : String) {args : List Term} (h : ArgsLockstep start start' args) :
    TermLockstep start start' (.new name args) := by
  intro count
  rw [eval]
  cases hf : ClassName.find? name with
  | none => exact .throw (by simp)
  | some c =>
    refine lockstep_checkArity fun hl => (h count).bind fun _ _ ns ks hs => ?_
    exact lockstep_construct _ c hs.2 (hs.1.trans hl)

mutual

/-- Every term runs in lockstep. What its parts leave alike decides how it goes on. -/
theorem lockstep_eval (t : Term) : TermLockstep start start' t := by
  intro count
  match t with
  | .long n => rw [eval]; exact .pure (.long n n)
  | .double x => rw [eval]; exact .pure (.double x x)
  | .str s => rw [eval]; exact .pure (.str s)
  | .bool b => rw [eval]; exact .pure (.bool b b)
  | .name x => rw [eval]; exact .throw (by simp)
  | .field target name => rw [eval]; exact .ofExcept (sameResult_fieldValue _ _ count target name)
  | .call receiver method args =>
    have hargs := lockstep_evalAll args
    by_cases hr : ∃ owner, receiver = .name owner
    · obtain ⟨owner, rfl⟩ := hr
      exact lockstep_call_static owner method hargs count
    · have hname (owner : String) (he : receiver = .name owner) : False := hr ⟨owner, he⟩
      exact lockstep_call_value hname method (lockstep_eval receiver) hargs count
  | .new name args => exact lockstep_new name (lockstep_evalAll args) count
  | .neg operand =>
    rw [eval]
    exact (lockstep_eval operand count).bind fun _ _ _ _ h => .ofExcept h.neg
  | .not operand =>
    rw [eval]
    refine (lockstep_eval operand count).bind fun _ _ _ _ h => ?_
    exact (h.toBool "!").then fun _ _ _ => .pure (.bool _ _)
  | .cast type operand =>
    rw [eval]
    exact (lockstep_eval operand count).bind fun _ _ _ _ h => .ofExcept (h.cast type)
  | .binary op left right =>
    rw [eval]
    refine (lockstep_eval left count).bind fun later _ _ _ hl => ?_
    refine (lockstep_eval right later).bind fun _ hle _ _ hr => ?_
    exact .ofExcept ((hl.mono hle).arithmetic hr op)

theorem lockstep_evalAll (ts : List Term) : ArgsLockstep start start' ts := by
  intro count
  match ts with
  | [] => rw [evalAll]; exact .pure ⟨rfl, .nil⟩
  | t :: rest =>
    rw [evalAll]
    refine (lockstep_eval t count).bind fun later _ n k hn => ?_
    refine (lockstep_evalAll rest later).bind fun _ hle ns ks hs => ?_
    exact .pure ⟨congrArg (· + 1) hs.1, .cons (hn.mono hle) hs.2⟩

end

end Terms

/-- Two executions of one text, from any variables and nodes, add the same accesses to their traces and
as many nodes to their arenas. Both succeed, with results of one type and nodes at the same place behind
those there were, or both fail with the same error, and no node is refused for an operand that is not
stored yet. -/
theorem execution_statically_determined (source : String) (m m' : Machine) :
    ∃ accesses count, m.Since accesses count (execute source m).2 ∧
      m'.Since accesses count (execute source m').2 ∧
      SameResult (Native.Alike m.nodes.size m'.nodes.size count) (execute source m).1
        (execute source m').1 := by
  have hrun : Lockstep m m' 0 (AlikeSince m m') (execute source) (execute source) := by
    unfold execute
    cases parse source with
    | ok t => exact lockstep_eval t 0
    | error e => exact .throw (by simp)
  have hstart (n : Machine) : n.Since #[] 0 n := ⟨by simp, #[], rfl, by simp⟩
  obtain ⟨count, -, ⟨accesses, hs, hs'⟩, hr⟩ := hrun m m' ⟨#[], hstart m, hstart m'⟩
  exact ⟨accesses, count, hs, hs', hr⟩

end ContextCodegen.Target
