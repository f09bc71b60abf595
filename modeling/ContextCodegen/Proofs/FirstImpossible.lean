import ContextCodegen.Proofs.Grammar

/-! Where reading a term fails. Whatever the reader has taken so far can be completed to a term, so the
token that it does not take is the first one that no term could have there. -/
namespace ContextCodegen.Target

section Offsets

/-- The tokens start one behind the other, all of them before the offset. -/
structure Rising (ts : List (Token × Nat)) (offset : Nat) : Prop where
  ordered : ts.Pairwise fun p q => p.2 < q.2
  before : ∀ p ∈ ts, p.2 < offset

theorem Rising.mono {ts : List (Token × Nat)} {m n : Nat} (h : Rising ts m) (hmn : m ≤ n) : Rising ts n :=
  ⟨h.ordered, fun p hp => Nat.lt_of_lt_of_le (h.before p hp) hmn⟩

theorem Rising.concat {ts : List (Token × Nat)} {m n : Nat} (h : Rising ts m) (t : Token) (hmn : m < n) :
    Rising (ts ++ [(t, m)]) n := by
  constructor
  · rw [List.pairwise_append]
    refine ⟨h.ordered, List.pairwise_singleton _ _, ?_⟩
    intro p hp q hq
    rw [List.mem_singleton.mp hq]
    exact h.before p hp
  · intro p hp
    rcases List.mem_append.mp hp with hp | hp
    · exact Nat.lt_trans (h.before p hp) hmn
    · rw [List.mem_singleton.mp hp]
      exact hmn

theorem utf8ByteSize_cons (c : Char) (cs : List Char) :
    (String.ofList (c :: cs)).utf8ByteSize = c.utf8Size + (String.ofList cs).utf8ByteSize := by
  rw [String.ofList_cons, String.utf8ByteSize_append, String.utf8ByteSize_singleton]

private theorem tokensFrom_rising {found ts : Array (Token × Nat)} {offset skip : Nat} {cs : List Char}
    (hf : Rising found.toList offset) (h : tokensFrom found offset skip cs = .ok ts) :
    Rising ts.toList (offset + (String.ofList cs).utf8ByteSize) := by
  induction cs generalizing found offset skip with
  | nil =>
    cases h
    exact hf.mono (Nat.le_add_right _ _)
  | cons c cs ih =>
    have hc : offset < offset + c.utf8Size := Nat.lt_add_of_pos_right c.utf8Size_pos
    rw [utf8ByteSize_cons, ← Nat.add_assoc]
    by_cases hs : skip ≠ 0
    · rw [tokensFrom, if_pos hs] at h
      exact ih (hf.mono (Nat.le_of_lt hc)) h
    · by_cases hb : Lexeme.isBlank c = true
      · rw [tokensFrom, if_neg hs, if_pos hb] at h
        exact ih (hf.mono (Nat.le_of_lt hc)) h
      · cases ht : (Lexeme.find c cs).token with
        | none => simp [tokensFrom, hs, hb, ht] at h
        | some t =>
          simp only [tokensFrom, if_neg hs, if_neg hb, ht] at h
          refine ih ?_ h
          rw [Array.toList_push]
          exact hf.concat t hc

theorem tokenize_rising {source : String} {ts : List (Token × Nat)} (h : tokenize source = .ok ts) :
    Rising ts source.utf8ByteSize := by
  unfold tokenize at h
  cases hf : tokensFrom #[] 0 0 source.toList with
  | error bad => rw [hf] at h; cases h
  | ok found =>
    rw [hf] at h
    cases h
    have hr := tokensFrom_rising ⟨List.Pairwise.nil, by simp⟩ hf
    rwa [String.ofList_toList, Nat.zero_add] at hr

theorem Rising.index_unique {ts : List (Token × Nat)} {size offset j k : Nat} {t u : Token}
    (h : Rising ts size) (hj : ts[j]? = some (t, offset)) (hk : ts[k]? = some (u, offset)) : j = k := by
  obtain ⟨hjl, hj⟩ := List.getElem?_eq_some_iff.mp hj
  obtain ⟨hkl, hk⟩ := List.getElem?_eq_some_iff.mp hk
  have hlt := List.pairwise_iff_getElem.mp h.ordered
  rcases Nat.lt_trichotomy j k with hjk | hjk | hjk
  · have := hlt j k hjl hkl hjk
    rw [hj, hk] at this
    exact absurd this (Nat.lt_irrefl _)
  · exact hjk
  · have := hlt k j hkl hjl hjk
    rw [hj, hk] at this
    exact absurd this (Nat.lt_irrefl _)

end Offsets

namespace Reader

section Feeding

def feed (r : Reader) (us : List Token) : Except Expected Reader := us.foldlM step r

theorem feed_cons {r r' : Reader} {tok : Token} (us : List Token) (hs : r.step tok = .ok r') :
    r.feed (tok :: us) = r'.feed us := by
  rw [feed, List.foldlM_cons, hs]
  rfl

theorem feed_reached {ts us : List Token} {r r' : Reader} (h : Reached ts r) (hf : r.feed us = .ok r') :
    Reached (ts ++ us) r' := by
  induction us generalizing ts r with
  | nil =>
    cases hf
    rwa [List.append_nil]
  | cons tok us ih =>
    cases hs : r.step tok with
    | error e =>
      rw [feed, List.foldlM_cons, hs] at hf
      cases hf
    | ok r₁ =>
      rw [feed_cons us hs] at hf
      have hr := ih (step_reached h hs) hf
      rwa [List.append_assoc, List.singleton_append] at hr

theorem read_append_of_feed {us : List Token} {r r' : Reader} (hf : r.feed us = .ok r') (vs : List Token) :
    r.read (us ++ vs) = r'.read vs := by
  induction us generalizing r with
  | nil =>
    cases hf
    rfl
  | cons tok us ih =>
    cases hs : r.step tok with
    | error e =>
      rw [feed, List.foldlM_cons, hs] at hf
      cases hf
    | ok r₁ =>
      rw [feed_cons us hs] at hf
      rw [List.cons_append, read_cons, hs]
      exact ih hf

/-- A run stops at the first token that is not taken, or finds no term complete at the end. -/
theorem run_eq_unexpected {size offset : Nat} {r : Reader} {ts : List (Token × Nat)} {e : Expected}
    {found : Option Token} (h : r.run size ts = .error (.unexpected e found offset)) :
    (∃ k tok r', ts[k]? = some (tok, offset) ∧ found = some tok ∧
        r.feed ((ts.take k).map Prod.fst) = .ok r' ∧ r'.step tok = .error e) ∨
      (found = none ∧ offset = size ∧ ∃ r', r.feed (ts.map Prod.fst) = .ok r' ∧ r'.finish = .error e) := by
  induction ts generalizing r with
  | nil =>
    cases hf : r.finish with
    | ok t =>
      rw [run, hf] at h
      cases h
    | error e' =>
      rw [run, hf] at h
      cases h
      exact .inr ⟨rfl, rfl, r, rfl, hf⟩
  | cons p ts ih =>
    obtain ⟨tok, start⟩ := p
    cases hs : r.step tok with
    | error e' =>
      simp only [run, hs] at h
      cases h
      exact .inl ⟨0, tok, r, rfl, rfl, rfl, hs⟩
    | ok r₁ =>
      simp only [run, hs] at h
      rcases ih h with ⟨k, tok', r', hk, hfound, hfeed, hstep⟩ | ⟨hfound, hsize, r', hfeed, hfin⟩
      · exact .inl ⟨k + 1, tok', r', hk, hfound, (feed_cons _ hs).trans hfeed, hstep⟩
      · exact .inr ⟨hfound, hsize, r', (feed_cons _ hs).trans hfeed, hfin⟩

end Feeding

section Completing

variable {ts : List Token} {r r' : Reader}

/-- Some tokens complete what the reader has taken. -/
def Completable (r : Reader) : Prop := ∃ more t, r.read more = .ok t

theorem Completable.of_step {tok : Token} (hs : r.step tok = .ok r') (h : r'.Completable) :
    r.Completable := by
  obtain ⟨more, t, ht⟩ := h
  refine ⟨tok :: more, t, ?_⟩
  rw [read_cons, hs]
  exact ht

theorem length_reduce_le (t : Term) (stack : List Frame) : (reduce t stack).2.length ≤ stack.length := by
  fun_induction reduce t stack with
  | case1 | case2 | case3 =>
    rw [List.length_cons]
    omega
  | case4 => simp
  | case5 => exact Nat.le_refl _

/-- Only a group or an argument list waits for more than a unary term. -/
theorem settled_cases {frame : Frame} {stack : List Frame} (h : Settled (frame :: stack)) :
    frame = .paren ∨ ∃ callee done, frame = .args callee done := by
  have waiting {u : Term} (hr : reduce u stack = (.bool true, frame :: stack)) : False := by
    have hlen := length_reduce_le u stack
    rw [hr, List.length_cons] at hlen
    omega
  have hframe := h (.bool true)
  cases frame with
  | neg => exact (waiting hframe).elim
  | not => exact (waiting hframe).elim
  | cast type => exact (waiting hframe).elim
  | left op l =>
    have hlen := congrArg (fun p => p.2.length) hframe
    simp [reduce] at hlen
  | paren => exact .inl rfl
  | args callee done => exact .inr ⟨callee, done, rfl⟩

/-- Behind a term, closing every open construct completes the whole. -/
theorem completable_after {t : Term} {stack : List Frame} (h : Reached ts ⟨.after t, stack⟩) :
    Completable ⟨.after t, stack⟩ := by
  induction hn : stack.length using Nat.strongRecOn generalizing ts t stack with
  | _ n ih =>
    subst hn
    obtain ⟨us, vs, -, hc, -⟩ := id h
    obtain ⟨-, -, -, -, hset, -, -⟩ := reduce_spec hc.awaits (.chain hc.derives hc.noCast)
    have hlen := length_reduce_le t stack
    obtain ⟨⟨u, left⟩, hr⟩ : ∃ p, reduce t stack = p := ⟨_, rfl⟩
    have hstep : step ⟨.after t, stack⟩ .rparen = closeStep u left .rparen := by
      simp only [step, afterStep, hr]
    rw [hr] at hset hlen
    cases left with
    | nil => exact ⟨[], u, by simp only [read_nil, finish, finishAfter, hr]⟩
    | cons frame left =>
      -- behind the closing parenthesis there is one construct less
      have close {u : Term} (hs : step ⟨.after t, stack⟩ .rparen = .ok ⟨.after u, left⟩) :
          Completable ⟨.after t, stack⟩ := by
        refine .of_step hs (ih left.length ?_ (step_reached h hs) rfl)
        rw [List.length_cons] at hlen
        omega
      rcases settled_cases hset with rfl | ⟨callee, done, rfl⟩
      · exact close hstep
      · exact close hstep

theorem completable_operand {stack : List Frame} (h : Reached ts ⟨.operand, stack⟩) :
    Completable ⟨.operand, stack⟩ := by
  have hs : step ⟨.operand, stack⟩ (.bool true) = .ok ⟨.after (.bool true), stack⟩ := rfl
  exact .of_step hs (completable_after (step_reached h hs))

theorem completable_argsOpened {stack : List Frame} (h : Reached ts ⟨.argsOpened, stack⟩) :
    Completable ⟨.argsOpened, stack⟩ := by
  obtain ⟨us, vs, callee, left, -, hstack, -, -⟩ := id h
  obtain rfl : stack = .args callee #[] :: left := hstack
  have hs : step ⟨.argsOpened, .args callee #[] :: left⟩ .rparen =
    .ok ⟨.after (callee.apply []), left⟩ := rfl
  exact .of_step hs (completable_after (step_reached h hs))

theorem Reached.completable (h : Reached ts r) : r.Completable := by
  obtain ⟨mode, stack⟩ := r
  cases mode with
  | operand => exact completable_operand h
  | opened =>
    have hs : step ⟨.opened, stack⟩ (.bool true) = .ok ⟨.after (.bool true), .paren :: stack⟩ := rfl
    exact .of_step hs (completable_after (step_reached h hs))
  | typeName type =>
    have hs : step ⟨.typeName type, stack⟩ .rparen = .ok ⟨.operand, .cast type :: stack⟩ := rfl
    exact .of_step hs (completable_operand (step_reached h hs))
  | argsOpened => exact completable_argsOpened h
  | after t => exact completable_after h
  | member t =>
    have hx : step ⟨.member t, stack⟩ (.ident "x") = .ok ⟨.memberNamed t "x", stack⟩ := rfl
    have hs : step ⟨.memberNamed t "x", stack⟩ .lparen =
      .ok ⟨.argsOpened, .args (.method t "x") #[] :: stack⟩ := rfl
    exact .of_step hx (.of_step hs (completable_argsOpened (step_reached (step_reached h hx) hs)))
  | memberNamed t x =>
    have hs : step ⟨.memberNamed t x, stack⟩ .lparen =
      .ok ⟨.argsOpened, .args (.method t x) #[] :: stack⟩ := rfl
    exact .of_step hs (completable_argsOpened (step_reached h hs))
  | construction =>
    have hx : step ⟨.construction, stack⟩ (.ident "X") = .ok ⟨.constructionNamed "X", stack⟩ := rfl
    have hs : step ⟨.constructionNamed "X", stack⟩ .lparen =
      .ok ⟨.argsOpened, .args (.constructor "X") #[] :: stack⟩ := rfl
    exact .of_step hx (.of_step hs (completable_argsOpened (step_reached (step_reached h hx) hs)))
  | constructionNamed x =>
    have hs : step ⟨.constructionNamed x, stack⟩ .lparen =
      .ok ⟨.argsOpened, .args (.constructor x) #[] :: stack⟩ := rfl
    exact .of_step hs (completable_argsOpened (step_reached h hs))

end Completing

end Reader

section Accepting

/-- The reader takes the tokens as a term, at whatever offsets they stand. -/
def Accepted (us : List Token) : Prop :=
  ∃ (size : Nat) (ts : List (Token × Nat)) (t : Term),
    ts.map Prod.fst = us ∧ Reader.start.run size ts = .ok t

theorem accepted_iff (us : List Token) : Accepted us ↔ ∃ t, Reader.start.read us = .ok t := by
  constructor
  · rintro ⟨size, ts, t, rfl, ht⟩
    exact ⟨t, (Reader.run_eq_ok_iff size _ ts t).mp ht⟩
  · rintro ⟨t, ht⟩
    have hus : (us.map fun tok => (tok, 0)).map Prod.fst = us := by
      rw [List.map_map]
      exact List.map_id us
    refine ⟨0, us.map fun tok => (tok, 0), t, hus, ?_⟩
    rw [Reader.run_eq_ok_iff, hus, ht]

theorem accepted_of_feed {us : List Token} {r : Reader} (h : Reader.start.feed us = .ok r) :
    ∃ more, Accepted (us ++ more) := by
  have hr : Reader.Reached us r := Reader.feed_reached Reader.reached_start h
  obtain ⟨more, t, ht⟩ := hr.completable
  refine ⟨more, (accepted_iff _).mpr ⟨t, ?_⟩⟩
  rw [Reader.read_append_of_feed h, ht]

/-- A token that the reader does not take ends every accepted list before it. -/
theorem not_accepted_of_step {us : List Token} {tok : Token} {r : Reader} {e : Expected}
    (h : Reader.start.feed us = .ok r) (hs : r.step tok = .error e) (more : List Token) :
    ¬ Accepted (us ++ tok :: more) := by
  rw [accepted_iff, Reader.read_append_of_feed h, Reader.read_cons, hs]
  rintro ⟨t, ht⟩
  cases ht

theorem not_accepted_of_finish {us : List Token} {r : Reader} {e : Expected}
    (h : Reader.start.feed us = .ok r) (hf : r.finish = .error e) : ¬ Accepted us := by
  have hread := Reader.read_append_of_feed h []
  rw [List.append_nil, Reader.read_nil, hf] at hread
  rw [accepted_iff, hread]
  rintro ⟨t, ht⟩
  cases ht

end Accepting

/-- Reading a text fails at the first token that no accepted list has there, and the tokens before it
begin an accepted list. Where it fails at the end of the text, all tokens together begin an accepted list
and are none themselves. -/
theorem unexpected_token_is_first_impossible {source : String} {ts : List (Token × Nat)}
    (hts : tokenize source = .ok ts) {expected : Expected} {found : Option Token} {offset : Nat}
    (h : parse source = .error (.unexpected expected found offset)) :
    (∀ (k : Nat) (tok : Token), ts[k]? = some (tok, offset) →
      (∃ more, Accepted ((ts.take k).map Prod.fst ++ more)) ∧
        ∀ more, ¬ Accepted ((ts.take (k + 1)).map Prod.fst ++ more)) ∧
    (offset = source.utf8ByteSize →
      (∃ more, more ≠ [] ∧ Accepted (ts.map Prod.fst ++ more)) ∧ ¬ Accepted (ts.map Prod.fst)) ∧
    ((∃ (k : Nat) (tok : Token), ts[k]? = some (tok, offset) ∧ found = some tok) ∨
      (offset = source.utf8ByteSize ∧ found = none)) := by
  have hrising := tokenize_rising hts
  rw [parse_of_tokenize hts] at h
  rcases Reader.run_eq_unexpected h with ⟨j, tok, r, hj, hfound, hfeed, hstep⟩ | ⟨hfound, hsize, r, hfeed, hfin⟩
  · refine ⟨?_, ?_, .inl ⟨j, tok, hj, hfound⟩⟩
    · intro k tok' hk
      obtain rfl := hrising.index_unique hj hk
      refine ⟨accepted_of_feed hfeed, fun more => ?_⟩
      rw [List.take_add_one, hj, Option.toList_some, List.map_append, List.append_assoc]
      exact not_accepted_of_step hfeed hstep more
    · intro hend
      have hlt := hrising.before _ (List.mem_of_getElem? hj)
      exact absurd hend (Nat.ne_of_lt hlt)
  · refine ⟨?_, fun _ => ?_, .inr ⟨hsize, hfound⟩⟩
    · intro k tok hk
      have hlt := hrising.before _ (List.mem_of_getElem? hk)
      exact absurd hsize (Nat.ne_of_lt hlt)
    · have hnot := not_accepted_of_finish hfeed hfin
      obtain ⟨more, hmore⟩ := accepted_of_feed hfeed
      refine ⟨⟨more, ?_, hmore⟩, hnot⟩
      rintro rfl
      rw [List.append_nil] at hmore
      exact hnot hmore

/-- The parentheses around the name of a type are a cast, behind which no member can follow. -/
theorem member_of_cast_impossible :
    tokenize "(long).x" = .ok [(.lparen, 0), (.ident "long", 1), (.rparen, 5), (.dot, 6), (.ident "x", 7)] ∧
    parse "(long).x" = .error (.unexpected .expression (some .dot) 6) ∧
    (∃ more, Accepted ([.lparen, .ident "long", .rparen] ++ more)) ∧
    ∀ more, ¬ Accepted ([.lparen, .ident "long", .rparen, .dot] ++ more) := by
  have hts : tokenize "(long).x" =
    .ok [(.lparen, 0), (.ident "long", 1), (.rparen, 5), (.dot, 6), (.ident "x", 7)] := rfl
  have hp : parse "(long).x" = .error (.unexpected .expression (some .dot) 6) := rfl
  obtain ⟨htoken, -, -⟩ := unexpected_token_is_first_impossible hts hp
  obtain ⟨hbefore, hat⟩ := htoken 3 .dot rfl
  exact ⟨hts, hp, hbefore, hat⟩

end ContextCodegen.Target
