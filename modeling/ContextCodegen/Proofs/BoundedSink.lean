import ContextCodegen.Proofs.DirectEmission

/-! Emission into a sink that closes. However often a generator prints, and whatever it ends with, a sink that
takes too little sees the first bytes of what an open sink sees, and the emission ends with the sink's failure
and not with its own. -/
namespace ContextCodegen

section Carrying

variable {α : Type} {m : Emission α} {x : Printing EmitError α}

def Emission.bytes (m : Emission α) (depth : Nat) (line : Bool) : ByteArray :=
  (Layout.ofText depth line m.output.text).text.toUTF8

/-- The outcome where nothing but the emission itself can fail. -/
def Emission.outcome (m : Emission α) : Except EmitError α := m.result.mapError .refused

/-- The action acts on every sink as one write of the emission's bytes. The emission's own outcome counts
only if the write succeeds. -/
structure Carries (x : Printing EmitError α) (m : Emission α) : Prop where
  all : ∀ {depth line} {sink after : Sink}, sink.write (m.bytes depth line) = (.ok (), after) →
    ∃ place, x ⟨sink, depth, line⟩ = (m.outcome, ⟨after, depth, place⟩)
  cut : ∀ {depth line} {sink after : Sink} {cause : SinkError},
    sink.write (m.bytes depth line) = (.error cause, after) →
      ∃ place, x ⟨sink, depth, line⟩ = (.error (.emitter (.sink cause)), ⟨after, depth, place⟩)

theorem carries_run (m : Emission α) : Carries m.run m := by
  obtain ⟨output, result⟩ := m
  constructor
  · intro depth line sink after hw
    have hout := (laysOut_output output line).all hw
    cases result with
    | ok a => exact ⟨_, bind_ok hout⟩
    | error cause => exact ⟨_, bind_ok hout⟩
  · intro depth line sink after cause hw
    obtain ⟨place, hout⟩ := (laysOut_output output line).cut hw
    exact ⟨place, bind_error hout⟩

theorem Carries.unbounded (h : Carries x m) (depth : Nat) (line : Bool) :
    ∃ place, x { depth, atLineStart := line } = (m.outcome, ⟨{ written := m.bytes depth line }, depth, place⟩) := by
  apply h.all
  rw [Sink.write, ByteArray.empty_append]

theorem Carries.bounded (h : Carries x m) (depth : Nat) (line : Bool) (limit : Nat) :
    ∃ place, x { sink := { limit := some limit }, depth, atLineStart := line } =
      (if (m.bytes depth line).size ≤ limit then m.outcome else .error (.emitter (.sink .closed)),
        ⟨{ written := (m.bytes depth line).extract 0 (min limit (m.bytes depth line).size),
           limit := some limit }, depth, place⟩) := by
  have hw := Sink.write_bounded limit false (m.bytes depth line)
  split at hw
  · rename_i hsize
    rw [if_pos hsize]
    exact h.all hw
  · rename_i hsize
    rw [if_neg hsize]
    exact h.cut hw

end Carrying

theorem Registry.outcome_emit (r : Registry) (e : Expr) (c : Context) :
    (r.emit e c).outcome = ((r.generate e c).map fun _ => ()).mapError .refused := by
  rw [generate, emit]
  cases r.resolve e with
  | error cause => rfl
  | ok g =>
    change (g.emit c).result.mapError _ = (((g.emit c).result.map _).map _).mapError _
    cases (g.emit c).result with
    | ok => rfl
    | error cause => rfl

/-- Under any mix of the standard generators, a sink that closes sees the first bytes of what an open sink
sees. If it takes all of them the emission ends as it does there, which is how generation ends, and otherwise
it ends with the sink's failure. To emit directly is to run the pieces and the outcome that are kept apart. -/
theorem bounded_sink_sees_first_bytes (of : NodeKind → Option NodeKind) (e : Expr) (c : Context)
    (depth limit : Nat) (line : Bool) :
    let emit : Printing EmitError Unit := (Registry.assembled of).emit e c
    let whole := emit { depth, atLineStart := line }
    let cut := emit { sink := { limit := some limit }, depth, atLineStart := line }
    let bytes := whole.2.sink.written
    cut.2.sink.written = bytes.extract 0 (min limit bytes.size) ∧
    cut.1 = (if bytes.size ≤ limit then whole.1 else .error (.emitter (.sink .closed))) ∧
    whole.1 = (((Registry.assembled of).generate e c).map fun _ => ()).mapError .refused ∧
    emit = Emission.run ((Registry.assembled of).emit e c) := by
  intro emit
  have hemit : emit = Emission.run ((Registry.assembled of).emit e c) := Registry.emit_run of e c
  have hcarries : Carries emit ((Registry.assembled of).emit e c) := hemit ▸ carries_run _
  obtain ⟨_, hwhole⟩ := hcarries.unbounded depth line
  obtain ⟨_, hcut⟩ := hcarries.bounded depth line limit
  simp only [hwhole, hcut, true_and]
  exact ⟨Registry.outcome_emit _ e c, hemit⟩

end ContextCodegen
