import ContextCodegen.Proofs.Outcomes
import ContextCodegen.Proofs.Grammar
import ContextCodegen.Proofs.Lexing
import ContextCodegen.Target.Execute

/-! Target text and what it does when it is run. The forms of the target language are put
together from texts that denote terms, and run as those terms do. -/
namespace ContextCodegen.Target

/-- The characters are read as one term that members may follow. -/
def Denotes (cs : List Char) (t : Term) : Prop :=
  ∃ ts, Spells cs ts ∧ Derives (.chain t) ts ∧ ¬ CastFirst ts

/-- The characters are read as the arguments behind an opening parenthesis, up to the closing one. -/
def DenotesArgs (cs : List Char) (as : List Term) : Prop :=
  ∃ ts, Sealed cs ts ∧ Derives (.args as) (.lparen :: ts)

theorem Denotes.parse_eq {source : String} {t : Term} (h : Denotes source.toList t) :
    parse source = .ok t := by
  obtain ⟨ts, hs, hd, hc⟩ := h
  obtain ⟨us, hu, rfl⟩ := tokenize_of_lex hs.lex_eq
  rw [parse_of_tokenize hu, Reader.run_eq_ok_iff]
  exact Reader.read_of_derives (.unary (.chain hd hc))

section Forms

private theorem not_castFirst_one (tok : Token) : ¬ CastFirst [tok] := by
  rintro ⟨type, rest, he⟩
  cases he

private theorem denotes_token {cs : List Char} {t : Term} {tok : Token} (hs : Spells cs [tok])
    (hd : Derives (.primary t) [tok]) : Denotes cs t :=
  ⟨_, hs, .primary hd, not_castFirst_one tok⟩

theorem denotes_long {n : Int64} {k : Nat} (hn : n.toInt = k) :
    Denotes (Nat.toDigits 10 k ++ ['L']) (.long n) :=
  denotes_token (sealed_long hn).spells (.long n)

theorem denotes_double {n : Numeral} (h : n.Fractional) : Denotes n.chars (.double n.float) :=
  denotes_token (spells_double h) (.double _)

theorem denotes_str (s : String) : Denotes (stringLiteral s).toList (.str s) :=
  denotes_token (sealed_stringLiteral s).spells (.str s)

theorem denotes_bool {cs : List Char} {b : Bool} (h : Spells cs [.bool b]) : Denotes cs (.bool b) :=
  denotes_token h (.bool b)

/-- A constant with its owner. -/
theorem denotes_field {cs : List Char} {x y : String} (h : Spells cs [.ident x, .dot, .ident y]) :
    Denotes cs (.field (.name x) y) :=
  ⟨_, h, .field y (.primary (.name x)), Reader.not_castFirst_dot (not_castFirst_one _) _⟩

private theorem sealed_close : Sealed [')'] [.rparen] := sealed_plain rfl rfl rfl

private theorem delimited_cons {c : Char} (h : Lexeme.isNamePart c = false) (cs : List Char) :
    Delimited (c :: cs) := by
  rintro d ⟨⟩
  exact h

theorem denotesArgs_nil : DenotesArgs [')'] [] := ⟨_, sealed_close, .empty⟩

theorem Denotes.one_arg {cs : List Char} {t : Term} (h : Denotes cs t) :
    DenotesArgs (cs ++ [')']) [t] := by
  obtain ⟨ts, hs, hd, hc⟩ := h
  refine ⟨ts ++ [.rparen], hs.append_sealed sealed_close fun _ => delimited_cons rfl _, ?_⟩
  exact .args (.one (.unary (.chain hd hc)))

theorem Denotes.two_args {cs ds : List Char} {t u : Term} (h : Denotes cs t) (h' : Denotes ds u) :
    DenotesArgs (cs ++ (", ".toList ++ (ds ++ [')']))) [t, u] := by
  obtain ⟨ts, hs, hd, hc⟩ := h
  obtain ⟨us, hs', hd', hc'⟩ := h'
  have hsep : Sealed ", ".toList [.comma] := sealed_plain rfl rfl rfl
  have hend := hs'.append_sealed sealed_close fun _ => delimited_cons rfl _
  refine ⟨_, hs.append_sealed (hsep.append hend) fun _ => delimited_cons rfl _, ?_⟩
  have hargs := Derives.args (.more (.one (.unary (.chain hd hc))) (.unary (.chain hd' hc')))
  simpa using hargs

theorem Denotes.call {cs ds es : List Char} {t : Term} {x : String} {as : List Term} (h : Denotes cs t)
    (hx : Sealed ('.' :: ds) [.dot, .ident x, .lparen]) (ha : DenotesArgs es as) :
    Denotes (cs ++ ('.' :: ds ++ es)) (.call t x as) := by
  obtain ⟨ts, hs, hd, hc⟩ := h
  obtain ⟨us, hs', hd'⟩ := ha
  refine ⟨_, (hs.append_sealed (hx.append hs') fun _ => delimited_cons rfl _).spells, ?_, ?_⟩
  · exact .call x hd hd'
  · exact Reader.not_castFirst_dot hc _

theorem DenotesArgs.static {cs ds : List Char} {x y : String} {as : List Term}
    (hx : Sealed cs [.ident x, .dot, .ident y, .lparen]) (ha : DenotesArgs ds as) :
    Denotes (cs ++ ds) (.call (.name x) y as) := by
  obtain ⟨us, hs, hd⟩ := ha
  refine ⟨_, (hx.append hs).spells, .call y (.primary (.name x)) hd, ?_⟩
  exact Reader.not_castFirst_dot (not_castFirst_one _) _

theorem DenotesArgs.new {cs ds : List Char} {x : String} {as : List Term}
    (hx : Sealed cs [.new, .ident x, .lparen]) (ha : DenotesArgs ds as) : Denotes (cs ++ ds) (.new x as) := by
  obtain ⟨us, hs, hd⟩ := ha
  refine ⟨_, (hx.append hs).spells, .primary (.new x hd), ?_⟩
  rintro ⟨type, rest, he⟩
  cases he

/-- A call of a static method with one argument, as one text. -/
theorem denotes_static_one {a s x y : String} {t : Term}
    (hx : Sealed a.toList [.ident x, .dot, .ident y, .lparen]) (h : Denotes s.toList t) :
    Denotes (a ++ s ++ ")").toList (.call (.name x) y [t]) := by
  rw [String.toList_append, String.toList_append, List.append_assoc]
  exact h.one_arg.static hx

/-- A new object with one argument, as one text. -/
theorem denotes_new_one {a s x : String} {t : Term} (hx : Sealed a.toList [.new, .ident x, .lparen])
    (h : Denotes s.toList t) : Denotes (a ++ s ++ ")").toList (.new x [t]) := by
  rw [String.toList_append, String.toList_append, List.append_assoc]
  exact h.one_arg.new hx

/-- An expression in parentheses, if it is more than a name. -/
private theorem denotes_group {cs : List Char} {ts : List Token} {t : Term}
    (hs : Sealed cs (.lparen :: ts ++ [.rparen])) (hd : Derives (.expr t) ts)
    (hn : ∀ type : Primitive, ts ≠ [.ident type.name]) : Denotes cs t :=
  ⟨_, hs.spells, .primary (.paren hd), Reader.not_castFirst_paren hd hn⟩

/-- An operator in front of a term, with both in parentheses. -/
private theorem Denotes.operator_group {cs ds : List Char} {t u : Term} (h : Denotes cs t)
    (us : List Token) (hopen : Sealed ds (.lparen :: us)) (hn : ∀ x, us.head? ≠ some (.ident x))
    (hne : us ≠ []) (hu : ∀ ts, Derives (.unary t) ts → Derives (.unary u) (us ++ ts)) :
    Denotes (ds ++ (cs ++ [')'])) u := by
  obtain ⟨ts, hs, hd, hc⟩ := h
  have hall : Sealed (ds ++ (cs ++ [')'])) (.lparen :: (us ++ ts) ++ [.rparen]) := by
    have hend := hs.append_sealed sealed_close fun _ => delimited_cons rfl _
    simpa using hopen.append hend
  apply denotes_group hall (.unary (hu ts (.chain hd hc)))
  intro type he
  obtain ⟨tok, us, rfl⟩ := List.exists_cons_of_ne_nil hne
  obtain ⟨rfl, -⟩ := List.cons.inj he
  exact hn _ rfl

theorem Denotes.neg_group {cs : List Char} {t : Term} (h : Denotes cs t) :
    Denotes ("(-".toList ++ (cs ++ [')'])) (.neg t) :=
  h.operator_group [.minus] (sealed_plain rfl rfl rfl) (by simp) (by simp) fun _ => .neg

theorem Denotes.not_group {cs : List Char} {t : Term} (h : Denotes cs t) :
    Denotes ("(!".toList ++ (cs ++ [')'])) (.not t) :=
  h.operator_group [.bang] (sealed_plain rfl rfl rfl) (by simp) (by simp) fun _ => .not

theorem Denotes.double_group {cs : List Char} {t : Term} (h : Denotes cs t) :
    Denotes ("((double) ".toList ++ (cs ++ [')'])) (.cast .double t) :=
  h.operator_group [.lparen, .ident "double", .rparen] (sealed_plain rfl rfl rfl) (by simp)
    (by simp) fun _ => .cast .double

theorem Denotes.binary_group {cs ds es : List Char} {t u : Term} {op : Arith} (h : Denotes cs t)
    (hop : Sealed (' ' :: es) [op.token]) (h' : Denotes ds u) :
    Denotes ('(' :: (cs ++ (' ' :: es ++ (ds ++ [')'])))) (.binary op t u) := by
  obtain ⟨ts, hs, hd, hc⟩ := h
  obtain ⟨us, hs', hd', hc'⟩ := h'
  have hopen : Sealed ['('] [.lparen] := sealed_plain rfl rfl rfl
  have hend := hs'.append_sealed sealed_close fun _ => delimited_cons rfl _
  have hall := hopen.append (hs.append_sealed (hop.append hend) fun _ => delimited_cons rfl _)
  have hd := Derives.binary op (.unary (.chain hd hc)) (.chain hd' hc')
  refine denotes_group (by simpa using hall) hd fun type he => ?_
  cases op <;> simp [Arith.token, List.append_eq_cons_iff] at he

end Forms

namespace Machine

private theorem checkArity_ok {operation : String} {args : List Term} {k : Nat} (h : args.length = k)
    (m : Machine) : checkArity operation k args m = (.ok (), m) := by
  rw [checkArity, if_pos h]
  rfl

theorem execute_of_denotes {s : String} {t : Term} (h : Denotes s.toList t) (m : Machine) :
    execute s m = eval t m := by
  rw [execute, h.parse_eq]

theorem store_ok {s : Shape String} {loc : Location} {env : Env} {a b : Arena} {id : NodeId}
    (h : a.push s loc = (.ok id, b)) : store s loc ⟨env, a⟩ = (.ok id, ⟨env, b⟩) := by
  simp only [store, h]

theorem build_ok {s : Shape String} {env : Env} {a b : Arena} {id : NodeId}
    (h : a.push s .generated = (.ok id, b)) : build s ⟨env, a⟩ = (.ok (.node id), ⟨env, b⟩) := by
  rw [build, bind_ok (store_ok h)]
  rfl

theorem eval_str (s : String) (m : Machine) : eval (.str s) m = (.ok (.str s), m) := rfl

theorem evalAll_nil (m : Machine) : evalAll [] m = (.ok [], m) := rfl

theorem evalAll_one {t : Term} {m m' : Machine} {n : Native} (h : eval t m = (.ok n, m')) :
    evalAll [t] m = (.ok [n], m') := by
  simp only [evalAll]
  rw [bind_ok h]
  rfl

theorem evalAll_two {t u : Term} {m m₁ m₂ : Machine} {n k : Native} (h : eval t m = (.ok n, m₁))
    (h' : eval u m₁ = (.ok k, m₂)) : evalAll [t, u] m = (.ok [n, k], m₂) := by
  rw [evalAll, bind_ok h, bind_ok (evalAll_one h')]
  rfl

theorem eval_call_static (k : StaticMethod) {owner name : String} {args : List Term}
    {ns : List Native} {m m' : Machine} (hf : StaticMethod.find? owner name = some k)
    (hl : args.length = k.arity) (ha : evalAll args m = (.ok ns, m')) :
    eval (.call (.name owner) name args) m = callStatic (owner ++ "." ++ name) k ns m' := by
  simp only [eval, hf]
  rw [bind_ok (checkArity_ok hl m), bind_ok ha]

theorem eval_call_value (k : ValueMethod) {t : Term} {name : String} {v : Value} {args : List Term}
    {ns : List Native} {m m₁ m₂ : Machine} (h : eval t m = (.ok (.value v), m₁))
    (hf : ValueMethod.find? name = some k) (hl : args.length = k.arity)
    (ha : evalAll args m₁ = (.ok ns, m₂)) :
    eval (.call t name args) m = (callValue name v k ns, m₂) := by
  rw [eval, bind_ok h]
  · refine (bind_ok (a := v) rfl).trans ?_
    simp only [hf]
    rw [bind_ok (checkArity_ok hl m₁), bind_ok ha]
    rfl
  · rintro x rfl
    rw [eval] at h
    cases h

theorem eval_new (k : ClassName) {name : String} {args : List Term} {ns : List Native} {m m' : Machine}
    (hf : ClassName.find? name = some k) (hl : args.length = k.arity)
    (ha : evalAll args m = (.ok ns, m')) :
    eval (.new name args) m = construct ("new " ++ name) k ns m' := by
  simp only [eval, hf]
  rw [bind_ok (checkArity_ok hl m), bind_ok ha]

theorem eval_neg {t : Term} {m m' : Machine} {n : Native} (h : eval t m = (.ok n, m')) :
    eval (.neg t) m = (n.neg, m') := by
  rw [eval, bind_ok h]
  rfl

theorem eval_not {t : Term} {m m' : Machine} {b : Bool} (h : eval t m = (.ok (.bool b), m')) :
    eval (.not t) m = (.ok (.bool !b), m') := by
  rw [eval, bind_ok h]
  rfl

theorem eval_cast {type : Primitive} {t : Term} {m m' : Machine} {n : Native}
    (h : eval t m = (.ok n, m')) : eval (.cast type t) m = (n.cast type, m') := by
  rw [eval, bind_ok h]
  rfl

theorem eval_binary {op : Arith} {t u : Term} {m m₁ m₂ : Machine} {n k : Native}
    (h : eval t m = (.ok n, m₁)) (h' : eval u m₁ = (.ok k, m₂)) :
    eval (.binary op t u) m = (Native.arithmetic op n k, m₂) := by
  rw [eval, bind_ok h, bind_ok h']
  rfl

end Machine

end ContextCodegen.Target
