import Miranda.Controls.ControlLoop

/-!
# The outputs of a control loop over whole runs

Every time in the system was shown by the clock, so differences of times are exact. What an
iteration reads is the latest of what was sent, and the time of the last output is that of
the latest robot state that counted for it, or 0 if there was none. With this an iteration
keeps its promise if it meets the condition, for all iterations of all runs.
-/

namespace Miranda.Controls

open Channel Timing Histories List

variable {σ γ ρ ω ς : Type}

/-! ## Times -/

/-- A time that the clock has shown by now. -/
structure Shown (now time : Time) : Prop where
  valid : time.Valid
  positive : 0 ≤ time.value
  past : time.value ≤ now.value

variable {now time : Time} {iteration : Iteration ω} {earlier : List (Iteration ω)} {zero : ω}
  {system : System σ γ ρ ω ς} {α : Type} {sent : List α} {message : α}

/-- How long ago a time is does not overflow. -/
theorem Shown.sub (shown : Shown now time) (valid : now.Valid) :
    (now - time).Valid ∧ (now - time).value = now.value - time.value := by
  have stands := (Time.stands_value valid).sub (Time.stands_value shown.valid)
  have fits : Time.Fits (now.value - time.value) := by
    have bounds := Time.fits_value valid
    have positive := shown.positive
    have past := shown.past
    simp only [Time.Fits] at bounds ⊢
    omega
  exact ⟨stands.1, stands.value_eq fits⟩

theorem Shown.later {later : Time} (shown : Shown now time) (passes : now.value ≤ later.value) :
    Shown later time :=
  ⟨shown.valid, shown.positive, Int.le_trans shown.past passes⟩

/-- What a gate reads was sent by now. -/
structure Gate.Stamped (gate : Gate) : Prop where
  now : gate.now.Valid
  joystickState : ∀ state, gate.joystickState = some state → Shown gate.now state.sentTime
  robotState : Shown gate.now gate.robotState.sentTime
  lastPwmSent : Shown gate.now gate.lastPwmSent

namespace Gate

variable {gate : Gate}

theorem Stamped.pwmSent (stamped : gate.Stamped) : Shown gate.now gate.pwmSent := by
  rw [Gate.pwmSent]
  split
  · exact stamped.robotState
  · exact stamped.lastPwmSent

theorem Stamped.motorsOff_iff (stamped : gate.Stamped) :
    gate.motorsOff = false ↔ gate.now.value - gate.pwmSent.value < 100000000 := by
  obtain ⟨valid, exact⟩ := stamped.pwmSent.sub stamped.now
  have limit : kPwmDisableTime.value = 100000000 := rfl
  have off : gate.motorsOff = true ↔ 100000000 ≤ gate.now.value - gate.pwmSent.value := by
    rw [motorsOff, Time.ge_iff valid (by decide), exact, limit]
  rw [← Bool.not_eq_true, off, Int.not_le]

/-- The outputs are asked for by an enabled joystick state that is new or young. -/
theorem Stamped.asked_iff (stamped : gate.Stamped) :
    gate.asked = true ↔ ∃ state, gate.joystickState = some state ∧ state.enabled = true ∧
      (gate.fetched = true ∨ gate.now.value - state.sentTime.value < 500000000) := by
  cases held : gate.joystickState with
  | none => simp [asked, enabled, held]
  | some state =>
    obtain ⟨valid, exact⟩ := (stamped.joystickState state held).sub stamped.now
    have limit : Time.inMS kDSPacketTimeoutMs = some ⟨0, 500000000⟩ := by decide
    have young : isNewerThanMS gate.now (some state) kDSPacketTimeoutMs = true ↔
        gate.now.value - state.sentTime.value < 500000000 := by
      simp only [isNewerThanMS, limit, Option.any_some]
      rw [Time.lt_iff valid (by decide), exact]
      rfl
    cases fetched : gate.fetched with
    | true => simp [asked, enabled, held, fetched]
    | false => simp [asked, enabled, held, fetched, young, and_comm]

theorem Stamped.outputsEnabled_iff (stamped : gate.Stamped) :
    gate.outputsEnabled = true ↔
      gate.asked = true ∧ gate.now.value - gate.pwmSent.value < 100000000 := by
  rw [outputsEnabled, Bool.and_eq_true, Bool.not_eq_true', stamped.motorsOff_iff]

end Gate

/-! ## What is recorded -/

/-- The time of the last output is that of an iteration that has set it, or where it started and
none has. -/
def SetBy (iterations : List (Iteration ω)) (time : Time) : Prop :=
  (∃ other ∈ iterations, other.Opened time) ∨
    time = Time.kZero ∧ ∀ other ∈ iterations, ∀ sentTime, ¬ other.Opened sentTime

/-- An iteration that does not set it changes nothing. -/
theorem SetBy.snoc (set : SetBy earlier time) (closed : ∀ sentTime, ¬ iteration.Opened sentTime) :
    SetBy (earlier ++ [iteration]) time := by
  rcases set with ⟨other, member, opened⟩ | ⟨start, none⟩
  · exact .inl ⟨other, mem_append_left _ member, opened⟩
  · exact .inr ⟨start, forall_mem_append.mpr ⟨none, forall_mem_singleton.mpr closed⟩⟩

/-- What the record of an iteration says. -/
structure Recorded (zero : ω) (earlier : List (Iteration ω)) (iteration : Iteration ω) :
    Prop where
  stamped : ∀ gate, iteration.gate = some gate → gate.Stamped
  now : ∀ gate, iteration.gate = some gate → gate.now = iteration.time
  latest : ∀ gate, iteration.gate = some gate → gate.joystickState = iteration.latest
  driven : iteration.driven = iteration.gate.any Gate.outputsEnabled
  pwm : ∀ gate, iteration.gate = some gate → SetBy earlier gate.lastPwmSent
  zeroed : iteration.driven = false → iteration.gate.isSome = true → iteration.sent = [zero]

/-- An iteration is driven if it asks for the outputs and the motors are not off. -/
theorem Recorded.driven_iff (recorded : Recorded zero earlier iteration) :
    iteration.driven = true ↔ ∃ gate, iteration.gate = some gate ∧ gate.asked = true ∧
      iteration.time.value - gate.pwmSent.value < 100000000 := by
  rw [recorded.driven]
  cases held : iteration.gate with
  | none => simp
  | some gate =>
    rw [Option.any_some, (recorded.stamped gate held).outputsEnabled_iff, recorded.now gate held]
    simp

/-- The time that counts for an iteration is set by one up to it. -/
theorem Recorded.pwmSent (recorded : Recorded zero earlier iteration) {gate : Gate}
    (held : iteration.gate = some gate) : SetBy (earlier ++ [iteration]) gate.pwmSent := by
  cases opens : gate.opens with
  | true =>
    refine .inl ⟨iteration, by simp, gate, held, opens, ?_⟩
    rw [Gate.pwmSent, if_pos opens]
  | false =>
    have kept : gate.pwmSent = gate.lastPwmSent := by simp [Gate.pwmSent, opens]
    rw [kept]
    refine (recorded.pwm gate held).snoc ?_
    rintro sentTime ⟨own, found, opened, -⟩
    obtain rfl : gate = own := Option.some.inj (held.symm.trans found)
    rw [opens] at opened
    cases opened

/-- An iteration that meets the condition keeps its promise. -/
theorem Recorded.safe (recorded : Recorded zero earlier iteration)
    (timely : Timely earlier iteration) : Safe zero earlier iteration := by
  refine ⟨?_, ?_, recorded.zeroed⟩
  · intro driven
    obtain ⟨gate, held, asked, recent⟩ := recorded.driven_iff.mp driven
    obtain ⟨state, has, enabled, new⟩ := (recorded.stamped gate held).asked_iff.mp asked
    refine ⟨state, (recorded.latest gate held) ▸ has, enabled, ?_⟩
    rcases new with fetched | young
    · exact timely.recent gate state held fetched has enabled
    · rw [recorded.now gate held] at young
      exact Int.le_of_lt young
  · intro driven
    obtain ⟨gate, held, asked, recent⟩ := recorded.driven_iff.mp driven
    obtain ⟨state, has, enabled, -⟩ := (recorded.stamped gate held).asked_iff.mp asked
    rcases recorded.pwmSent held with ⟨other, member, opened⟩ | ⟨start, none⟩
    · exact ⟨other, member, gate.pwmSent, opened, recent⟩
    · -- The last output is at time 0, so the clock is still close to 0.
      have zero : gate.pwmSent.value = 0 := by
        rw [start]
        rfl
      obtain ⟨other, member, sentTime, opened⟩ := timely.seen gate state held has enabled (by omega)
      exact absurd opened (none other member sentTime)

/-! ## Every run -/

/-- Holds at the start of a run and is kept by every step. -/
structure Sane (zero : ω) (system : System σ γ ρ ω ς) : Prop where
  clock : Shown system.clock system.clock
  joystickStates : ∀ state ∈ system.joystickStates, Shown system.clock state.sentTime
  robotStates : ∀ state ∈ system.robotStates, Shown system.clock state.sentTime
  joystickReader : Reader.InStep system.joystickStates system.loop.joystickState
  robotReader : Reader.InStep system.robotStates system.loop.robotState
  lastPwmSent : Shown system.clock system.loop.lastPwmSent
  opened : SetBy system.iterations system.loop.lastPwmSent
  recorded : Always (Recorded zero) system.iterations

theorem shown_kZero : Shown Time.kZero Time.kZero := ⟨by decide, by decide, Int.le_refl _⟩

theorem sane_initial (zero : ω) (state : σ) :
    Sane zero ({ loop := { state } } : System σ γ ρ ω ς) where
  clock := shown_kZero
  joystickStates := nofun
  robotStates := nofun
  joystickReader := Reader.inStep_start _
  robotReader := Reader.inStep_start _
  lastPwmSent := shown_kZero
  opened := .inr ⟨rfl, nofun⟩
  recorded := always_nil

theorem Sane.advance (sane : Sane zero system) (valid : now.Valid)
    (passes : system.clock.value ≤ now.value) :
    Sane zero { system with clock := now } :=
  { sane with
    clock := ⟨valid, Int.le_trans sane.clock.positive passes, Int.le_refl _⟩
    joystickStates state member := (sane.joystickStates state member).later passes
    robotStates state member := (sane.robotStates state member).later passes
    lastPwmSent := sane.lastPwmSent.later passes }

/-- A message that is sent now is stamped with the clock. -/
theorem shown_append {sentTime : α → Time} (before : ∀ other ∈ sent, Shown now (sentTime other))
    (last : Shown now (sentTime message)) :
    ∀ other ∈ sent ++ [message], Shown now (sentTime other) :=
  forall_mem_append.mpr ⟨before, forall_mem_singleton.mpr last⟩

/-- What a reader holds was sent. -/
theorem mem_of_inStep {reader : Reader α} (reading : Reader.InStep sent reader)
    (held : reader.message = some message) :
    message ∈ sent := by
  rw [reading.message] at held
  exact mem_of_mem_take (mem_of_getLast? held)

/-- An iteration without a robot state. -/
theorem Sane.skipped (sane : Sane zero system) :
    Sane zero { system with iterations := system.iterations ++
      [{ time := system.clock
         latest := system.joystickStates.getLast?
         gate := none
         driven := false
         sent := [] }] } :=
  { sane with
    opened := by
      refine sane.opened.snoc ?_
      rintro sentTime ⟨gate, held, -⟩
      cases held
    recorded := always_snoc.mpr ⟨sane.recorded, nofun, nofun, nofun, rfl, nofun, nofun⟩ }

/-- An iteration with a robot state. -/
theorem Sane.run (controller : Controller σ γ ρ ω ς) (sane : Sane controller.zero system)
    {robotState : RobotState} (held : system.loop.robotState.message = some robotState) :
    Sane controller.zero (system.run controller robotState) := by
  obtain ⟨reading, latest⟩ := sane.joystickReader.latest
  let gate : Gate :=
    { now := system.clock
      fetched := (system.loop.joystickState.fetchLatest system.joystickStates).isSome
      joystickState := ((system.loop.joystickState.fetchLatest system.joystickStates).getD
        system.loop.joystickState).message
      robotState
      lastPwmSent := system.loop.lastPwmSent }
  have stamped : gate.Stamped :=
    { now := sane.clock.valid
      joystickState := fun state has => sane.joystickStates state (mem_of_inStep reading has)
      robotState := sane.robotStates robotState (mem_of_inStep sane.robotReader held)
      lastPwmSent := sane.lastPwmSent }
  have recorded : Always (Recorded controller.zero)
      (system.run controller robotState).iterations := by
    refine always_snoc.mpr ⟨sane.recorded, ?_⟩
    exact
      { stamped := by
          rintro _ ⟨⟩
          exact stamped
        now := by
          rintro _ ⟨⟩
          rfl
        latest := by
          rintro _ ⟨⟩
          exact latest
        driven := rfl
        pwm := by
          rintro _ ⟨⟩
          exact sane.opened
        zeroed := by
          intro disabled _
          simp only at disabled ⊢
          rw [disabled]
          rfl }
  exact
    { clock := sane.clock
      joystickStates := sane.joystickStates
      robotStates := sane.robotStates
      joystickReader := reading
      robotReader := sane.robotReader
      lastPwmSent := stamped.pwmSent
      opened := (always_snoc.mp recorded).2.pwmSent rfl
      recorded := recorded }

theorem Sane.step (controller : Controller σ γ ρ ω ς) (sane : Sane controller.zero system)
    (label : Label γ ρ) :
    Sane controller.zero (step controller system label) := by
  cases label with
  | advance now =>
    rw [Controls.step]
    split
    · next passes => exact sane.advance passes.1 passes.2
    · exact sane
  | joystickState enabled =>
    exact
      { sane with
        joystickStates := shown_append sane.joystickStates sane.clock
        joystickReader := sane.joystickReader.append _ }
  | robotState readerPid outputsEnabled =>
    exact
      { sane with
        robotStates := shown_append sane.robotStates sane.clock
        robotReader := sane.robotReader.append _ }
  | goal message => exact { sane with }
  | position message => exact { sane with }
  | iterate waited =>
    simp only [Controls.step, System.iterate]
    split
    · exact sane
    · next position fetched =>
      have read : Sane _ { system with loop := { system.loop with
          position
          goal := (system.loop.goal.fetchLatest system.goals).getD system.loop.goal
          robotState := (system.loop.robotState.fetchLatest _).getD
            _ } } :=
        { sane with robotReader := sane.robotReader.latest.1 }
      split
      · exact read.skipped
      · next held => exact read.run controller held

/-- A controller without state. -/
def idle : Controller Unit Unit Unit Unit Unit := ⟨fun _ _ _ _ _ => ⟨(), false, (), ()⟩, ()⟩

/-- The iterations of a run with it. -/
def iterations (labels : List (Label Unit Unit)) : List (Iteration Unit) :=
  (labels.foldl (step idle) { loop := { state := () } }).iterations

/-- At 1 s everything is enabled; an iteration follows at once, and one 90 ms later. -/
def liveStation : List (Label Unit Unit) :=
  [.advance ⟨1, 0⟩, .joystickState true, .robotState 1 true, .position (), .iterate false,
    .advance ⟨1, 90000000⟩, .position (), .iterate false]

/-- The driver station sends a message at 1 s and dies, and the first position comes at 10 s. -/
def silentStation : List (Label Unit Unit) :=
  [.advance ⟨1, 0⟩, .joystickState true, .advance ⟨10, 0⟩, .robotState 1 true, .position (),
    .iterate false]

/-- At 50 ms the driver station is enabled and the outputs are not. -/
def earlyStation : List (Label Unit Unit) :=
  [.advance ⟨0, 50000000⟩, .joystickState true, .robotState 1 false, .position (), .iterate false]

end Miranda.Controls
