import ContextCodegen.Emitter

/-! How computations that can fail come to their outcome: results that are taken apart into those of their
parts, and actions run one after the other, whose state is kept when they fail. -/
namespace ContextCodegen

section Results

variable {ε α β γ : Type} {x : Except ε α} {y : Except ε β} {cause : ε}

theorem bind_eq_ok {k : α → Except ε β} {b : β} (h : (x >>= k) = .ok b) : ∃ a, x = .ok a ∧ k a = .ok b := by
  cases x with
  | error cause => cases h
  | ok a => exact ⟨a, rfl, h⟩

theorem bind_eq_error {k : α → Except ε β} (h : (x >>= k) = .error cause) :
    x = .error cause ∨ ∃ a, x = .ok a ∧ k a = .error cause := by
  cases x with
  | error cause =>
    cases h
    exact .inl rfl
  | ok a => exact .inr ⟨a, rfl, h⟩

theorem map_eq_ok {f : α → β} {b : β} (h : x.map f = .ok b) : ∃ a, x = .ok a ∧ b = f a := by
  cases x with
  | error cause => cases h
  | ok a => exact ⟨a, rfl, (Except.ok.inj h).symm⟩

theorem map_eq_error {f : α → β} (h : x.map f = .error cause) : x = .error cause := by
  cases x with
  | error cause => exact congrArg Except.error (Except.error.inj h)
  | ok a => cases h

theorem both_eq_ok {f : α → β → γ} {c : γ} (h : (do return f (← x) (← y)) = Except.ok c) :
    ∃ a b, x = .ok a ∧ y = .ok b ∧ c = f a b := by
  obtain ⟨a, ha, h⟩ := bind_eq_ok h
  obtain ⟨b, hb, h⟩ := bind_eq_ok h
  exact ⟨a, b, ha, hb, (Except.ok.inj h).symm⟩

theorem both_eq_error {f : α → β → γ} (h : (do return f (← x) (← y)) = Except.error cause) :
    x = .error cause ∨ y = .error cause := by
  rcases bind_eq_error h with hx | ⟨a, -, h⟩
  · exact .inl hx
  · rcases bind_eq_error h with hy | ⟨b, -, h⟩
    · exact .inr hy
    · cases h

end Results

section Actions

variable {ε ε' σ α β : Type} {x : ExceptT ε (StateM σ) α} {f : α → ExceptT ε (StateM σ) β} {s s' : σ}

/-- Where an action succeeds, the next one goes on with its result. -/
theorem bind_ok {a : α} (h : x s = (.ok a, s')) : (x >>= f) s = f a s' := by
  simp only [bind, ExceptT.bind, ExceptT.mk, StateT.bind, ExceptT.bindCont, h]

/-- Where an action fails, the next one does not run. -/
theorem bind_error {e : ε} (h : x s = (.error e, s')) : (x >>= f) s = (.error e, s') := by
  simp only [bind, ExceptT.bind, ExceptT.mk, StateT.bind, ExceptT.bindCont, h]
  rfl

private theorem adapt_eq (g : ε → ε') : x.adapt g s = ((x s).1.mapError g, (x s).2) := rfl

theorem adapt_ok (g : ε → ε') {a : α} (h : x s = (.ok a, s')) : x.adapt g s = (.ok a, s') := by
  rw [adapt_eq, h]
  rfl

theorem adapt_error (g : ε → ε') {e : ε} (h : x s = (.error e, s')) :
    x.adapt g s = (.error (g e), s') := by
  rw [adapt_eq, h]
  rfl

end Actions

end ContextCodegen
