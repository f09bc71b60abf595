import ContextCodegen.Target.Term

/-! The grammar of target terms as derivations over tokens. The reader accepts exactly the tokens
of an expression, and gives the one term that they derive. -/
namespace ContextCodegen.Target

def Arith.token : Arith → Token
  | .add => .plus
  | .sub => .minus

/-- A part of the grammar with the terms that it stands for. -/
inductive Phrase where
  | expr (t : Term)
  | unary (t : Term)
  | chain (t : Term)
  | primary (t : Term)
  | args (ts : List Term)
  | items (ts : List Term)

def CastFirst (ts : List Token) : Prop :=
  ∃ (type : Primitive) (rest : List Token), ts = .lparen :: .ident type.name :: .rparen :: rest

/-- The tokens of a phrase. A chain is a primary with the members behind it; where it could also
be a cast, it is no unary term. -/
inductive Derives : Phrase → List Token → Prop
  | unary {t ts} : Derives (.unary t) ts → Derives (.expr t) ts
  | binary {l r ts us} (op : Arith) : Derives (.expr l) ts → Derives (.unary r) us →
      Derives (.expr (.binary op l r)) (ts ++ op.token :: us)
  | neg {t ts} : Derives (.unary t) ts → Derives (.unary (.neg t)) (.minus :: ts)
  | not {t ts} : Derives (.unary t) ts → Derives (.unary (.not t)) (.bang :: ts)
  | cast {t ts} (type : Primitive) : Derives (.unary t) ts →
      Derives (.unary (.cast type t)) (.lparen :: .ident type.name :: .rparen :: ts)
  | chain {t ts} : Derives (.chain t) ts → ¬ CastFirst ts → Derives (.unary t) ts
  | primary {t ts} : Derives (.primary t) ts → Derives (.chain t) ts
  | field {t ts} (x : String) : Derives (.chain t) ts →
      Derives (.chain (.field t x)) (ts ++ [.dot, .ident x])
  | call {t as ts us} (x : String) : Derives (.chain t) ts → Derives (.args as) us →
      Derives (.chain (.call t x as)) (ts ++ .dot :: .ident x :: us)
  | long (n : Int64) : Derives (.primary (.long n)) [.long n]
  | double (x : Binary64) : Derives (.primary (.double x)) [.double x]
  | str (s : String) : Derives (.primary (.str s)) [.str s]
  | bool (b : Bool) : Derives (.primary (.bool b)) [.bool b]
  | name (x : String) : Derives (.primary (.name x)) [.ident x]
  | new {as us} (x : String) : Derives (.args as) us →
      Derives (.primary (.new x as)) (.new :: .ident x :: us)
  | paren {t ts} : Derives (.expr t) ts → Derives (.primary t) (.lparen :: ts ++ [.rparen])
  | empty : Derives (.args []) [.lparen, .rparen]
  | args {as ts} : Derives (.items as) ts → Derives (.args as) (.lparen :: ts ++ [.rparen])
  | one {t ts} : Derives (.expr t) ts → Derives (.items [t]) ts
  | more {as t ts us} : Derives (.items as) ts → Derives (.expr t) us →
      Derives (.items (as ++ [t])) (ts ++ .comma :: us)

namespace Reader

def read (r : Reader) : List Token → Except Expected Term
  | [] => r.finish
  | tok :: rest => (r.step tok).bind fun r => read r rest

@[simp] theorem read_nil (r : Reader) : r.read [] = r.finish := rfl

@[simp] theorem read_cons (r : Reader) (tok : Token) (rest : List Token) :
    r.read (tok :: rest) = (r.step tok).bind fun r => r.read rest := rfl

/-- Offsets matter only for where an error is. -/
theorem run_eq_ok_iff (size : Nat) (r : Reader) (ts : List (Token × Nat)) (t : Term) :
    r.run size ts = .ok t ↔ r.read (ts.map Prod.fst) = .ok t := by
  induction ts generalizing r with
  | nil =>
    cases h : r.finish with
    | error e =>
      have hr : r.run size [] = .error (.unexpected e none size) := by
        rw [run, h]
        rfl
      simp [hr, h]
    | ok u =>
      have hr : r.run size [] = .ok u := by
        rw [run, h]
        rfl
      simp [hr, h]
  | cons p ts ih =>
    obtain ⟨tok, offset⟩ := p
    cases h : r.step tok with
    | error e => simp [run, h, Except.bind]
    | ok r' => simpa [run, h, Except.bind] using ih r'

def Settled (stack : List Frame) : Prop := ∀ t, reduce t stack = (t, stack)

/-- What stands behind a whole unary term. -/
def Ends (rest : List Token) : Prop := rest.head? ≠ some .lparen ∧ rest.head? ≠ some .dot

theorem settled_nil : Settled [] := fun _ => rfl

theorem settled_paren (stack : List Frame) : Settled (.paren :: stack) := fun _ => rfl

theorem settled_args (callee : Callee) (done : Array Term) (stack : List Frame) :
    Settled (.args callee done :: stack) := fun _ => rfl

/-- Behind a term, only what it completes to counts, unless a member follows. -/
private theorem read_after_congr {t u : Term} {stack left : List Frame} {rest : List Token}
    (h : reduce t stack = reduce u left) (hrest : rest.head? ≠ some .dot) :
    read ⟨.after t, stack⟩ rest = read ⟨.after u, left⟩ rest := by
  cases rest with
  | nil => simp [finish, finishAfter, h]
  | cons tok rest =>
    have hs : afterStep t stack tok = afterStep u left tok := by
      cases tok <;> simp_all [afterStep]
    simp [step, hs]

private theorem read_named {t : Term} {x : String} {stack : List Frame} {rest : List Token}
    (hrest : rest.head? ≠ some .lparen) :
    read ⟨.memberNamed t x, stack⟩ rest = read ⟨.after (.field t x), stack⟩ rest := by
  cases rest with
  | nil => rfl
  | cons tok rest => cases tok <;> simp_all [step]

private theorem ofName_name (type : Primitive) : Primitive.ofName? type.name = some type := by
  cases type <;> decide

private theorem name_of_ofName {x : String} {type : Primitive}
    (h : Primitive.ofName? x = some type) : x = type.name := by
  unfold Primitive.ofName? at h
  split at h
  · cases h; assumption
  · split at h
    · cases h; assumption
    · cases h

/-- A parenthesis opens a group wherever no cast starts. -/
private theorem read_opened {stack : List Frame} {ts : List Token}
    (h : ¬ CastFirst (.lparen :: ts)) :
    read ⟨.opened, stack⟩ ts = read ⟨.operand, .paren :: stack⟩ ts := by
  cases ts with
  | nil => rfl
  | cons tok rest =>
    cases tok with
    | ident x =>
      cases hx : Primitive.ofName? x with
      | none => simp [step, hx]
      | some type =>
        obtain rfl := name_of_ofName hx
        simp only [read_cons, step, hx, operandStep, Except.bind]
        cases rest with
        | nil => rfl
        | cons next rest =>
          have hn : next ≠ .rparen := fun e => h ⟨type, rest, by rw [e]⟩
          cases next <;> simp_all [step]
    | _ => rfl

/-- Tokens of a phrase other than an argument list start where a term can start. -/
private theorem derives_head {p : Phrase} {ts : List Token} (h : Derives p ts) :
    ∃ tok rest, ts = tok :: rest ∧ tok ≠ .rparen := by
  induction h with
  | binary _ _ _ ih _ | field _ _ ih | call _ _ _ ih _ | more _ _ ih _ =>
    obtain ⟨tok, rest, rfl, hn⟩ := ih
    exact ⟨tok, _, rfl, hn⟩
  | unary _ ih | chain _ _ ih | primary _ ih | one _ ih => exact ih
  | _ => exact ⟨_, _, rfl, by simp⟩

private theorem read_argsOpened {stack : List Frame} {tok : Token} {rest : List Token}
    (h : tok ≠ .rparen) :
    read ⟨.argsOpened, stack⟩ (tok :: rest) = read ⟨.operand, stack⟩ (tok :: rest) := by
  cases tok <;> simp_all [step]

/-- What reading the tokens of a phrase amounts to, whatever stands behind them. -/
private def Reads : Phrase → List Token → Prop
  | .expr t, ts => ∀ stack rest, Settled stack → Ends rest →
      read ⟨.operand, stack⟩ (ts ++ rest) = read ⟨.after t, stack⟩ rest
  | .unary t, ts => ∀ stack rest, Ends rest →
      read ⟨.operand, stack⟩ (ts ++ rest) = read ⟨.after t, stack⟩ rest
  | .chain t, ts | .primary t, ts => ∀ stack rest, ¬ CastFirst ts → rest.head? ≠ some .lparen →
      read ⟨.operand, stack⟩ (ts ++ rest) = read ⟨.after t, stack⟩ rest
  | .args as, ts => ∃ us, ts = .lparen :: us ∧ ∀ callee stack rest,
      read ⟨.argsOpened, .args callee #[] :: stack⟩ (us ++ rest) =
        read ⟨.after (callee.apply as), stack⟩ rest
  | .items as, ts => ∃ init last, as = init ++ [last] ∧ ∀ callee done stack rest, Ends rest →
      read ⟨.operand, .args callee done :: stack⟩ (ts ++ rest) =
        read ⟨.after last, .args callee (done ++ init.toArray) :: stack⟩ rest

private theorem ends_token (op : Arith) (rest : List Token) : Ends (op.token :: rest) := by
  cases op <;> simp [Ends, Arith.token]

private theorem castFirst_append {ts : List Token} (h : CastFirst ts) (us : List Token) :
    CastFirst (ts ++ us) := by
  obtain ⟨type, rest, rfl⟩ := h
  exact ⟨type, rest ++ us, rfl⟩

private theorem derives_reads {p : Phrase} {ts : List Token} (h : Derives p ts) : Reads p ts := by
  induction h with
  | unary _ ih => exact fun stack rest _ hrest => ih stack rest hrest
  | @binary l r ts us op _ _ ihl ihr =>
    intro stack rest hstack hrest
    rw [List.append_assoc, List.cons_append, ihl stack _ hstack (ends_token op _)]
    have hs : step ⟨.after l, stack⟩ op.token = .ok ⟨.operand, .left op l :: stack⟩ := by
      cases op <;> simp [step, afterStep, Arith.token, hstack l]
    rw [read_cons, hs, Except.bind, ihr _ rest hrest]
    exact read_after_congr (by rw [hstack]; rfl) hrest.2
  | @neg t ts _ ih =>
    intro stack rest hrest
    exact (ih (.neg :: stack) rest hrest).trans (read_after_congr rfl hrest.2)
  | @not t ts _ ih =>
    intro stack rest hrest
    exact (ih (.not :: stack) rest hrest).trans (read_after_congr rfl hrest.2)
  | @cast t ts type _ ih =>
    intro stack rest hrest
    simp only [List.cons_append, read_cons, step, operandStep, Except.bind, ofName_name]
    exact (ih (.cast type :: stack) rest hrest).trans (read_after_congr rfl hrest.2)
  | chain _ hc ih => exact fun stack rest hrest => ih stack rest hc hrest.1
  | primary _ ih => exact ih
  | @field t ts x _ ih =>
    intro stack rest hc hrest
    rw [List.append_assoc, ih stack _ (fun h => hc (castFirst_append h _)) (by simp)]
    exact read_named hrest
  | @call t as ts us x _ _ iht iha =>
    intro stack rest hc hrest
    obtain ⟨us, rfl, iha⟩ := iha
    rw [List.append_assoc, iht stack _ (fun h => hc (castFirst_append h _)) (by simp)]
    exact iha (.method t x) stack rest
  | new x _ ih =>
    intro stack rest _ _
    obtain ⟨us, rfl, ih⟩ := ih
    exact ih (.constructor x) stack rest
  | @paren t ts _ ih =>
    intro stack rest hc _
    have ho : ¬ CastFirst (.lparen :: (ts ++ .rparen :: rest)) := by
      rintro ⟨type, more, he⟩
      apply hc
      match ts, he with
      | [_], he => exact ⟨type, [], by simp_all⟩
      | _ :: _ :: ts, he => exact ⟨type, ts ++ [.rparen], by simp_all⟩
    have he := ih (.paren :: stack) (.rparen :: rest) (settled_paren stack) (by simp [Ends])
    rw [List.cons_append, List.cons_append, List.append_assoc, read_cons]
    exact (read_opened ho).trans he
  | empty => exact ⟨[.rparen], rfl, fun callee stack rest => rfl⟩
  | @args as ts hd ih =>
    obtain ⟨init, last, rfl, ih⟩ := ih
    refine ⟨ts ++ [.rparen], rfl, fun callee stack rest => ?_⟩
    obtain ⟨tok, more, rfl, hn⟩ := derives_head hd
    have hi := ih callee #[] stack (.rparen :: rest) (by simp [Ends])
    rw [List.append_assoc, List.cons_append, read_argsOpened hn]
    refine hi.trans ?_
    simp [step, afterStep, reduce, closeStep, Except.bind]
  | @one t ts _ ih =>
    refine ⟨[], t, rfl, fun callee done stack rest hrest => ?_⟩
    simpa using ih _ rest (settled_args callee done stack) hrest
  | @more as t ts us _ _ iha iht =>
    obtain ⟨init, last, rfl, iha⟩ := iha
    refine ⟨init ++ [last], t, by simp, fun callee done stack rest hrest => ?_⟩
    rw [List.append_assoc, iha callee done stack _ (by simp [Ends])]
    simp only [List.cons_append, read_cons, step, afterStep, reduce, closeStep, Except.bind]
    rw [iht _ rest (settled_args _ _ _) hrest]
    simp
  | _ => exact fun stack rest _ _ => rfl

theorem read_of_derives {t : Term} {ts : List Token} (h : Derives (.expr t) ts) :
    start.read ts = .ok t := by
  have hr := derives_reads h [] [] settled_nil (by simp [Ends])
  rw [List.append_nil] at hr
  exact hr

inductive Opens : Callee → List Token → Prop
  | method {t ts} (x : String) : Derives (.chain t) ts → ¬ CastFirst ts →
      Opens (.method t x) (ts ++ [.dot, .ident x])
  | construct (x : String) : Opens (.constructor x) [.new, .ident x]

/-- The tokens of the complete arguments in front of another one. -/
inductive Listed : Array Term → List Token → Prop
  | none : Listed #[] []
  | some {done ts} : Derives (.items done.toList) ts → Listed done (ts ++ [.comma])

/-- Tokens that lead in front of a unary term, inside the constructs on the stack. -/
inductive Awaits : List Token → List Frame → Prop
  | start : Awaits [] []
  | neg {ts stack} : Awaits ts stack → Awaits (ts ++ [.minus]) (.neg :: stack)
  | not {ts stack} : Awaits ts stack → Awaits (ts ++ [.bang]) (.not :: stack)
  | cast {ts stack} (type : Primitive) : Awaits ts stack →
      Awaits (ts ++ [.lparen, .ident type.name, .rparen]) (.cast type :: stack)
  | left {l ts us stack} (op : Arith) : Awaits ts stack → Settled stack → Derives (.expr l) us →
      Awaits (ts ++ (us ++ [op.token])) (.left op l :: stack)
  | paren {ts stack} : Awaits ts stack → Awaits (ts ++ [.lparen]) (.paren :: stack)
  | args {callee done ts us vs stack} : Awaits ts stack → Opens callee us → Listed done vs →
      Awaits (ts ++ (us ++ .lparen :: vs)) (.args callee done :: stack)

def InGroup (stack : List Frame) : Prop := ∃ rest, stack = .paren :: rest

/-- Tokens that lead behind a chain. -/
structure Chained (us vs : List Token) (t : Term) (stack : List Frame) : Prop where
  awaits : Awaits us stack
  derives : Derives (.chain t) vs
  noCast : ¬ CastFirst vs

/-- What the tokens read so far are, in every mode. The name of a type alone in a group is kept
apart, since a cast may still come of it. -/
def Reached (ts : List Token) (r : Reader) : Prop :=
  match r.mode with
  | .operand => Awaits ts r.stack ∧ ¬ InGroup r.stack
  | .opened => ∃ us, ts = us ++ [.lparen] ∧ Awaits us r.stack
  | .typeName type => ∃ us, ts = us ++ [.lparen, .ident type.name] ∧ Awaits us r.stack
  | .argsOpened => ∃ us vs callee stack, ts = us ++ (vs ++ [.lparen]) ∧
      r.stack = .args callee #[] :: stack ∧ Awaits us stack ∧ Opens callee vs
  | .after t => ∃ us vs, ts = us ++ vs ∧ Chained us vs t r.stack ∧
      (InGroup r.stack → ∀ type : Primitive, vs ≠ [.ident type.name])
  | .member t => ∃ us vs, ts = us ++ (vs ++ [.dot]) ∧ Chained us vs t r.stack
  | .memberNamed t x => ∃ us vs, ts = us ++ (vs ++ [.dot, .ident x]) ∧ Chained us vs t r.stack
  | .construction => ∃ us, ts = us ++ [.new] ∧ Awaits us r.stack
  | .constructionNamed x => ∃ us, ts = us ++ [.new, .ident x] ∧ Awaits us r.stack

private theorem second_append {ts us : List Token} {sep : Token} (hts : ∃ tok rest, ts = tok :: rest)
    (h : ∀ x rest, ts ≠ .ident x :: .rparen :: rest) (hsep : sep ≠ .rparen) (x : String)
    (rest : List Token) : ts ++ sep :: us ≠ .ident x :: .rparen :: rest := by
  intro he
  match ts, hts, he with
  | [_], _, he => simp_all
  | _ :: _ :: ts, _, he => exact h x ts (by simp_all)

/-- No phrase has a closing parenthesis right behind a name that it starts with. -/
private theorem derives_second {p : Phrase} {ts : List Token} (h : Derives p ts) (x : String)
    (rest : List Token) : ts ≠ .ident x :: .rparen :: rest := by
  induction h generalizing x rest with
  | @binary l r ts us op hl _ ih _ =>
    obtain ⟨tok, more, he, _⟩ := derives_head hl
    exact second_append ⟨tok, more, he⟩ ih (by cases op <;> simp [Arith.token]) x rest
  | field _ hd ih =>
    obtain ⟨tok, more, he, _⟩ := derives_head hd
    exact second_append ⟨tok, more, he⟩ ih (by simp) x rest
  | call _ hd _ ih _ =>
    obtain ⟨tok, more, he, _⟩ := derives_head hd
    exact second_append ⟨tok, more, he⟩ ih (by simp) x rest
  | more hd _ ih _ =>
    obtain ⟨tok, more, he, _⟩ := derives_head hd
    exact second_append ⟨tok, more, he⟩ ih (by simp) x rest
  | unary _ ih | chain _ _ ih | primary _ ih | one _ ih => exact ih x rest
  | _ => simp

theorem not_castFirst_dot {ts : List Token} (h : ¬ CastFirst ts) (us : List Token) :
    ¬ CastFirst (ts ++ .dot :: us) := by
  rintro ⟨type, rest, he⟩
  match ts, he with
  | [_], he => simp at he
  | [_, _], he => simp at he
  | _ :: _ :: _ :: ts, he => exact h ⟨type, ts, by simp_all⟩

theorem not_castFirst_paren {t : Term} {ts : List Token} (h : Derives (.expr t) ts)
    (hn : ∀ type : Primitive, ts ≠ [.ident type.name]) : ¬ CastFirst (.lparen :: ts ++ [.rparen]) := by
  rintro ⟨type, rest, he⟩
  match ts, he with
  | [_], he => exact hn type (by simp_all)
  | _ :: _ :: ts, he => exact derives_second h type.name ts (by simp_all)

/-- Completing the waiting operators turns a unary term into an expression. Unless it is the
unary term itself, that has more than one token. -/
theorem reduce_spec {us vs : List Token} {t : Term} {stack : List Frame}
    (h : Awaits us stack) (hd : Derives (.unary t) vs) :
    ∃ us' vs', us ++ vs = us' ++ vs' ∧ Awaits us' (reduce t stack).2 ∧
      Settled (reduce t stack).2 ∧ Derives (.expr (reduce t stack).1) vs' ∧
      ∀ x, vs' = [.ident x] → vs = [.ident x] ∧ (reduce t stack).2 = stack := by
  induction h generalizing t vs with
  | start => exact ⟨[], vs, rfl, .start, settled_nil, .unary hd, fun x hx => ⟨hx, rfl⟩⟩
  | neg ha ih =>
    obtain ⟨us', vs', he, hw, hs, hx, hone⟩ := ih (.neg hd)
    exact ⟨us', vs', by simpa using he, hw, hs, hx, fun x h => by simpa using (hone x h).1⟩
  | not ha ih =>
    obtain ⟨us', vs', he, hw, hs, hx, hone⟩ := ih (.not hd)
    exact ⟨us', vs', by simpa using he, hw, hs, hx, fun x h => by simpa using (hone x h).1⟩
  | cast type ha ih =>
    obtain ⟨us', vs', he, hw, hs, hx, hone⟩ := ih (.cast type hd)
    exact ⟨us', vs', by simpa using he, hw, hs, hx, fun x h => by simpa using (hone x h).1⟩
  | @left l ts us stack op ha hs hl _ =>
    refine ⟨ts, us ++ op.token :: vs, by simp, ha, hs, .binary op hl hd, fun x h => ?_⟩
    obtain ⟨tok, rest, rfl, _⟩ := derives_head hl
    simp at h
  | @paren ts stack ha _ =>
    exact ⟨_, vs, rfl, .paren ha, settled_paren stack, .unary hd, fun x h => ⟨h, rfl⟩⟩
  | args ha ho hl _ =>
    exact ⟨_, vs, rfl, .args ha ho hl, settled_args _ _ _, .unary hd, fun x h => ⟨h, rfl⟩⟩

private theorem operandStep_reached {ts : List Token} {stack : List Frame} {tok : Token} {r : Reader}
    (h : Awaits ts stack) (hg : InGroup stack → ∀ type : Primitive, tok ≠ .ident type.name)
    (hs : operandStep stack tok = .ok r) : Reached (ts ++ [tok]) r := by
  have chained {t : Term} (hd : Derives (.primary t) [tok]) : Chained ts [tok] t stack := by
    refine ⟨h, .primary hd, ?_⟩
    rintro ⟨type, rest, he⟩
    simp at he
  cases tok with
  | minus => cases hs; exact ⟨.neg h, by simp [InGroup]⟩
  | bang => cases hs; exact ⟨.not h, by simp [InGroup]⟩
  | lparen => cases hs; exact ⟨ts, rfl, h⟩
  | new => cases hs; exact ⟨ts, rfl, h⟩
  | long n => cases hs; exact ⟨ts, _, rfl, chained (.long n), by simp⟩
  | double x => cases hs; exact ⟨ts, _, rfl, chained (.double x), by simp⟩
  | str s => cases hs; exact ⟨ts, _, rfl, chained (.str s), by simp⟩
  | bool b => cases hs; exact ⟨ts, _, rfl, chained (.bool b), by simp⟩
  | ident x =>
    cases hs
    exact ⟨ts, _, rfl, chained (.name x), fun hi type he => hg hi type (by simpa using he)⟩
  | _ => cases hs

/-- A complete argument list behind what it belongs to is a chain. -/
private theorem apply_reached {us vs ts : List Token} {callee : Callee} {as : List Term}
    {stack : List Frame} (h : Awaits us stack) (ho : Opens callee vs) (ha : Derives (.args as) ts) :
    Reached (us ++ (vs ++ ts)) ⟨.after (callee.apply as), stack⟩ := by
  have hlen : 2 ≤ (vs ++ ts).length := by
    cases ho with
    | method x hd hc =>
      simp only [List.length_append, List.length_cons]
      omega
    | construct x => simp
  refine ⟨us, vs ++ ts, rfl, ?_, fun _ type he => by simp [he] at hlen⟩
  cases ho with
  | @method t vs x hd hc =>
    rw [List.append_assoc]
    exact ⟨h, .call x hd ha, not_castFirst_dot hc _⟩
  | construct x =>
    refine ⟨h, .primary (.new x ha), ?_⟩
    rintro ⟨type, rest, he⟩
    simp at he

private theorem items_push {done : Array Term} {vs ts : List Token} {t : Term}
    (h : Listed done vs) (hd : Derives (.expr t) ts) :
    Derives (.items (done.push t).toList) (vs ++ ts) := by
  cases h with
  | none => exact .one hd
  | some hi => simpa using Derives.more hi hd

private theorem closeStep_reached {us vs : List Token} {t : Term} {stack : List Frame} {tok : Token}
    {r : Reader} (h : Awaits us stack) (hd : Derives (.expr t) vs)
    (hg : tok = .rparen → InGroup stack → ∀ type : Primitive, vs ≠ [.ident type.name])
    (hs : closeStep t stack tok = .ok r) : Reached (us ++ (vs ++ [tok])) r := by
  unfold closeStep at hs
  split at hs
  · cases hs
    cases h with
    | @paren us _ h =>
      have hn := not_castFirst_paren hd (hg rfl ⟨_, rfl⟩)
      exact ⟨us, .lparen :: vs ++ [.rparen], by simp, ⟨h, .primary (.paren hd), hn⟩, by simp⟩
  · cases hs
    cases h with
    | args h ho hl => simpa using apply_reached h ho (.args (items_push hl hd))
  · cases hs
    cases h with
    | args h ho hl =>
      have ha := Awaits.args h ho (.some (items_push hl hd))
      refine ⟨?_, by simp [InGroup]⟩
      simpa using ha
  · cases hs

private theorem afterStep_reached {us vs : List Token} {t : Term} {stack : List Frame} {tok : Token}
    {r : Reader} (h : Chained us vs t stack)
    (hg : tok = .rparen → InGroup stack → ∀ type : Primitive, vs ≠ [.ident type.name])
    (hs : afterStep t stack tok = .ok r) : Reached (us ++ (vs ++ [tok])) r := by
  by_cases hdot : tok = .dot
  · subst hdot
    cases hs
    exact ⟨us, vs, rfl, h⟩
  · obtain ⟨us', vs', he, hw, hset, hd, hone⟩ := reduce_spec h.awaits (.chain h.derives h.noCast)
    rw [← List.append_assoc, he, List.append_assoc]
    have left (op : Arith) : Reached (us' ++ (vs' ++ [op.token]))
        ⟨.operand, .left op (reduce t stack).1 :: (reduce t stack).2⟩ :=
      ⟨.left op hw hset hd, by simp [InGroup]⟩
    cases tok with
    | dot => exact absurd rfl hdot
    | plus => cases hs; exact left .add
    | minus => cases hs; exact left .sub
    | _ =>
      refine closeStep_reached hw hd (fun hr hi type hv => ?_) hs
      obtain ⟨hvs, hst⟩ := hone _ hv
      exact hg hr (hst ▸ hi) type hvs

/-- One token keeps the account of what was read. -/
theorem step_reached {ts : List Token} {r r' : Reader} {tok : Token} (h : Reached ts r)
    (hs : r.step tok = .ok r') : Reached (ts ++ [tok]) r' := by
  obtain ⟨mode, stack⟩ := r
  cases mode with
  | operand => exact operandStep_reached h.1 (fun hi => absurd hi h.2) hs
  | opened =>
    obtain ⟨us, rfl, h⟩ := h
    have group (hn : ∀ type : Primitive, tok ≠ .ident type.name)
        (hs : operandStep (.paren :: stack) tok = .ok r') :=
      operandStep_reached (.paren h) (fun _ => hn) hs
    cases tok with
    | ident x =>
      cases hx : Primitive.ofName? x with
      | none =>
        simp only [step, hx] at hs
        refine group (fun type he => ?_) hs
        cases he
        rw [ofName_name] at hx
        cases hx
      | some type =>
        obtain rfl := name_of_ofName hx
        simp only [step, hx] at hs
        cases hs
        exact ⟨us, by simp, h⟩
    | _ => exact group (by simp) hs
  | typeName type =>
    obtain ⟨us, rfl, h⟩ := h
    have chained : Chained (us ++ [.lparen]) [.ident type.name] (.name type.name) (.paren :: stack) := by
      refine ⟨.paren h, .primary (.name _), ?_⟩
      rintro ⟨type, rest, he⟩
      simp at he
    by_cases hr : tok = .rparen
    · subst hr
      cases hs
      refine ⟨?_, by simp [InGroup]⟩
      simpa using Awaits.cast type h
    · have hs : afterStep (.name type.name) (.paren :: stack) tok = .ok r' := by
        cases tok with
        | rparen => exact absurd rfl hr
        | _ => exact hs
      simpa using afterStep_reached chained (fun he => absurd he hr) hs
  | argsOpened =>
    obtain ⟨us, vs, callee, rest, rfl, rfl, h, ho⟩ := h
    by_cases hr : tok = .rparen
    · subst hr
      cases hs
      simpa using apply_reached h ho .empty
    · have hs : operandStep (.args callee #[] :: rest) tok = .ok r' := by
        cases tok with
        | rparen => exact absurd rfl hr
        | _ => exact hs
      exact operandStep_reached (.args h ho .none) (fun hi => by simp [InGroup] at hi) hs
  | after t =>
    obtain ⟨us, vs, rfl, h, hg⟩ := h
    rw [List.append_assoc]
    exact afterStep_reached h (fun _ => hg) hs
  | member t =>
    obtain ⟨us, vs, rfl, h⟩ := h
    cases tok with
    | ident x => cases hs; exact ⟨us, vs, by simp, h⟩
    | _ => cases hs
  | memberNamed t x =>
    obtain ⟨us, vs, rfl, h⟩ := h
    have chained : Chained us (vs ++ [.dot, .ident x]) (.field t x) stack :=
      ⟨h.awaits, .field x h.derives, not_castFirst_dot h.noCast _⟩
    by_cases hl : tok = .lparen
    · subst hl
      cases hs
      exact ⟨us, _, _, stack, by simp, rfl, h.awaits, .method x h.derives h.noCast⟩
    · have hs : afterStep (.field t x) stack tok = .ok r' := by
        cases tok with
        | lparen => exact absurd rfl hl
        | _ => exact hs
      rw [List.append_assoc]
      refine afterStep_reached chained (fun _ _ type he => ?_) hs
      obtain ⟨tok, rest, rfl, _⟩ := derives_head h.derives
      simp at he
  | construction =>
    obtain ⟨us, rfl, h⟩ := h
    cases tok with
    | ident x => cases hs; exact ⟨us, by simp, h⟩
    | _ => cases hs
  | constructionNamed x =>
    obtain ⟨us, rfl, h⟩ := h
    cases tok with
    | lparen => cases hs; exact ⟨us, _, _, stack, by simp, rfl, h, .construct x⟩
    | _ => cases hs

private theorem finishAfter_derives {us vs : List Token} {t u : Term} {stack : List Frame}
    (h : Chained us vs t stack) (hf : finishAfter t stack = .ok u) : Derives (.expr u) (us ++ vs) := by
  obtain ⟨us', vs', he, hw, -, hd, -⟩ := reduce_spec h.awaits (.chain h.derives h.noCast)
  rw [he]
  unfold finishAfter at hf
  split at hf
  · rename_i hr
    cases hf
    rw [hr] at hw hd
    cases hw
    exact hd
  · cases hf

private theorem finish_derives {ts : List Token} {r : Reader} {t : Term} (h : Reached ts r)
    (hf : r.finish = .ok t) : Derives (.expr t) ts := by
  obtain ⟨mode, stack⟩ := r
  cases mode with
  | after u =>
    obtain ⟨us, vs, rfl, h, -⟩ := h
    exact finishAfter_derives h hf
  | memberNamed u x =>
    obtain ⟨us, vs, rfl, h⟩ := h
    exact finishAfter_derives ⟨h.awaits, .field x h.derives, not_castFirst_dot h.noCast _⟩ hf
  | _ => cases hf

/-- The tokens read so far and those that complete them derive what is read. -/
theorem read_derives {ts us : List Token} {r : Reader} {t : Term} (h : Reached ts r)
    (hr : r.read us = .ok t) : Derives (.expr t) (ts ++ us) := by
  induction us generalizing ts r with
  | nil => simpa using finish_derives h hr
  | cons tok us ih =>
    cases hs : r.step tok with
    | error e => simp [hs, Except.bind] at hr
    | ok r' =>
      rw [read_cons, hs] at hr
      simpa using ih (step_reached h hs) hr

theorem reached_start : Reached [] start := ⟨.start, by simp [start, InGroup]⟩

theorem read_start_iff (ts : List Token) (t : Term) :
    start.read ts = .ok t ↔ Derives (.expr t) ts :=
  ⟨read_derives reached_start, read_of_derives⟩

end Reader

theorem parse_of_tokenize {source : String} {ts : List (Token × Nat)} (h : tokenize source = .ok ts) :
    parse source = Reader.start.run source.utf8ByteSize ts := by
  rw [parse, h]
  rfl

/-- A text is read as a term exactly when its tokens derive the term, and no tokens derive two. -/
theorem parse_eq_ok_iff_derives {source : String} {ts : List (Token × Nat)}
    (h : tokenize source = .ok ts) :
    (∀ t, parse source = .ok t ↔ Derives (.expr t) (ts.map Prod.fst)) ∧
      ∀ us t u, Derives (.expr t) us → Derives (.expr u) us → t = u := by
  refine ⟨fun t => ?_, fun us t u ht hu => ?_⟩
  · rw [parse_of_tokenize h, Reader.run_eq_ok_iff, Reader.read_start_iff]
  · have he := (Reader.read_of_derives ht).symm.trans (Reader.read_of_derives hu)
    exact Except.ok.inj he

/-- The first triple is a cast and the second group is none, since more than a name is in it. -/
theorem cast_before_group_derives :
    tokenize "(long)(long.x)" = .ok [(.lparen, 0), (.ident "long", 1), (.rparen, 5), (.lparen, 6),
      (.ident "long", 7), (.dot, 11), (.ident "x", 12), (.rparen, 13)] ∧
    ∀ t, Derives (.expr t) [.lparen, .ident "long", .rparen, .lparen, .ident "long", .dot, .ident "x",
      .rparen] ↔ t = .cast .long (.field (.name "long") "x") := by
  refine ⟨rfl, fun t => ?_⟩
  obtain ⟨hread, hone⟩ := parse_eq_ok_iff_derives (show tokenize "(long)(long.x)" = .ok _ from rfl)
  have hd := (hread (.cast .long (.field (.name "long") "x"))).mp rfl
  exact ⟨fun ht => hone _ _ _ ht hd, fun ht => ht ▸ hd⟩

end ContextCodegen.Target
