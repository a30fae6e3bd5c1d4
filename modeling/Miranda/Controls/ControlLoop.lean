import Miranda.Timing.Arithmetic
import Miranda.Lib.Channel
import Miranda.Lib.Histories

/-!
# When a control loop drives its outputs

`ControlLoop::Iterate` waits for a position, looks at the latest goal, robot state and
joystick state, and decides whether the iteration may drive the outputs. What the control
loop itself does is left to a controller, which is told whether it gets an output to fill
in; if not, a zeroed output is sent. The other parts of the system are the clock and the
processes that send messages, each stamped with the clock.

An iteration runs at one time. A label that is not possible (a clock that goes back, or an
iteration without a position to read) changes nothing. `MakeMessage` never returns null,
since it ends the process when it is out of messages, so the branch for a missing status
message is not taken; logging is left out.

The iterations are recorded with what they read. The age of a joystick state is only
checked if it is not new, and the time of the last output starts as 0, so an iteration may
drive the outputs on an old joystick state, and soon after the clock was 0 without the
outputs having been seen enabled. Messages that come in time exclude both.
-/

namespace Miranda.Controls

open Channel Timing Histories

structure JoystickState where
  sentTime : Time
  enabled : Bool
  deriving DecidableEq, Repr

structure RobotState where
  sentTime : Time
  readerPid : Int32
  outputsEnabled : Bool
  deriving DecidableEq, Repr

def kPwmDisableTime : Time := ⟨0, 100000000⟩

example : Time.inMS 100 = some kPwmDisableTime := by decide

def kDSPacketTimeoutMs : Int32 := 500

/-- `IsNewerThanMS`, for the message that was fetched last. -/
def isNewerThanMS (now : Time) (message : Option JoystickState) (age : Int32) : Bool :=
  message.any fun state => (Time.inMS age).any fun limit => (now - state.sentTime).lt limit

/-- What decides whether an iteration drives the outputs. `fetched` says whether the joystick
state is new. -/
structure Gate where
  now : Time
  fetched : Bool
  joystickState : Option JoystickState
  robotState : RobotState
  lastPwmSent : Time
  deriving DecidableEq, Repr

namespace Gate

/-- The joystick state says enabled. -/
def enabled (gate : Gate) : Bool := gate.joystickState.any JoystickState.enabled

/-- `outputs_enabled` before the motors are looked at. -/
def asked (gate : Gate) : Bool :=
  if gate.fetched then gate.enabled
  else if isNewerThanMS gate.now gate.joystickState kDSPacketTimeoutMs then gate.enabled
  else false

/-- A new joystick state says enabled, and the robot state says that outputs are enabled. -/
def opens (gate : Gate) : Bool := gate.fetched && gate.enabled && gate.robotState.outputsEnabled

/-- `last_pwm_sent_` after the iteration. -/
def pwmSent (gate : Gate) : Time :=
  if gate.opens then gate.robotState.sentTime else gate.lastPwmSent

def motorsOff (gate : Gate) : Bool := (gate.now - gate.pwmSent).ge kPwmDisableTime

def outputsEnabled (gate : Gate) : Bool := gate.asked && !gate.motorsOff

end Gate

/-- What `RunIteration` does: its state and `reset_` after it, which `WasReset` may have
cleared, and the messages it filled in. -/
structure Result (σ ω ς : Type) where
  state : σ
  reset : Bool
  output : ω
  status : ς

/-- A subclass of `ControlLoop`. `RunIteration` gets its state, `reset_`, the goal, the
position, and whether there is an output to fill in. -/
structure Controller (σ γ ρ ω ς : Type) where
  runIteration : σ → Bool → Option γ → Option ρ → Bool → Result σ ω ς
  zero : ω

variable {σ γ ρ ω ς : Type}

structure ControlLoop (σ γ ρ : Type) where
  state : σ
  reset : Bool := false
  sensorReaderPid : Int32 := 0
  lastPwmSent : Time := Time.kZero
  position : Reader ρ := {}
  goal : Reader γ := {}
  robotState : Reader RobotState := {}
  joystickState : Reader JoystickState := {}

/-- One iteration: its time, the joystick state sent last, what decided about the outputs if
there was a robot state, whether an output was passed to `RunIteration`, and the outputs that
were sent. -/
structure Iteration (ω : Type) where
  time : Time
  latest : Option JoystickState
  gate : Option Gate
  driven : Bool
  sent : List ω

structure System (σ γ ρ ω ς : Type) where
  loop : ControlLoop σ γ ρ
  clock : Time := Time.kZero
  joystickStates : List JoystickState := []
  robotStates : List RobotState := []
  goals : List γ := []
  positions : List ρ := []
  outputs : List ω := []
  statuses : List ς := []
  iterations : List (Iteration ω) := []

/-- `FetchAnother`. If there was nothing to read when it was called, it has waited. -/
def fetchAnother {α : Type} (waited : Bool) (sent : List α) (reader : Reader α) :
    Option (Reader α) :=
  if waited then reader.fetchNext sent else reader.fetchLatest sent

/-- The part of an iteration after the fetches, if there is a robot state. -/
def System.run (controller : Controller σ γ ρ ω ς) (system : System σ γ ρ ω ς)
    (robotState : RobotState) : System σ γ ρ ω ς :=
  let fetched := system.loop.joystickState.fetchLatest system.joystickStates
  let joystickState := fetched.getD system.loop.joystickState
  let gate : Gate :=
    { now := system.clock
      fetched := fetched.isSome
      joystickState := joystickState.message
      robotState
      lastPwmSent := system.loop.lastPwmSent }
  let reset := system.loop.reset || system.loop.sensorReaderPid != robotState.readerPid
  let result := controller.runIteration system.loop.state reset system.loop.goal.message
    system.loop.position.message gate.outputsEnabled
  let output := if gate.outputsEnabled then result.output else controller.zero
  { system with
    loop := { system.loop with
      state := result.state
      reset := result.reset
      sensorReaderPid := robotState.readerPid
      lastPwmSent := gate.pwmSent
      joystickState }
    outputs := system.outputs ++ [output]
    statuses := system.statuses ++ [result.status]
    iterations := system.iterations ++
      [{ time := system.clock
         latest := system.joystickStates.getLast?
         gate := some gate
         driven := gate.outputsEnabled
         sent := [output] }] }

/-- `Iterate`. -/
def System.iterate (controller : Controller σ γ ρ ω ς) (waited : Bool)
    (system : System σ γ ρ ω ς) : System σ γ ρ ω ς :=
  match fetchAnother waited system.positions system.loop.position with
  | none => system
  | some position =>
    let goal := (system.loop.goal.fetchLatest system.goals).getD system.loop.goal
    let robotState :=
      (system.loop.robotState.fetchLatest system.robotStates).getD system.loop.robotState
    let system := { system with loop := { system.loop with position, goal, robotState } }
    match robotState.message with
    | none =>
      { system with iterations := system.iterations ++
          [{ time := system.clock
             latest := system.joystickStates.getLast?
             gate := none
             driven := false
             sent := [] }] }
    | some message => system.run controller message

/-- What happens in the system. -/
inductive Label (γ ρ : Type) where
  | advance (now : Time)
  | joystickState (enabled : Bool)
  | robotState (readerPid : Int32) (outputsEnabled : Bool)
  | goal (message : γ)
  | position (message : ρ)
  | iterate (waited : Bool)

def step (controller : Controller σ γ ρ ω ς) (system : System σ γ ρ ω ς) :
    Label γ ρ → System σ γ ρ ω ς
  | .advance now =>
    if now.Valid ∧ system.clock.value ≤ now.value then { system with clock := now } else system
  | .joystickState enabled =>
    { system with joystickStates := system.joystickStates ++ [⟨system.clock, enabled⟩] }
  | .robotState readerPid outputsEnabled =>
    { system with
      robotStates := system.robotStates ++ [⟨system.clock, readerPid, outputsEnabled⟩] }
  | .goal message => { system with goals := system.goals ++ [message] }
  | .position message => { system with positions := system.positions ++ [message] }
  | .iterate waited => system.iterate controller waited

/-! ## The promise and its condition -/

/-- An iteration fetched a new enabled joystick state together with a robot state that has
outputs enabled, which was sent at `sentTime`. -/
def Iteration.Opened (iteration : Iteration ω) (sentTime : Time) : Prop :=
  ∃ gate, iteration.gate = some gate ∧ gate.opens = true ∧ gate.robotState.sentTime = sentTime

/-- What an iteration promises, given the ones before it. -/
structure Safe (zero : ω) (earlier : List (Iteration ω)) (iteration : Iteration ω) : Prop where
  /-- The driver station is alive and enabled. -/
  alive : iteration.driven = true → ∃ state, iteration.latest = some state ∧
    state.enabled = true ∧ iteration.time.value - state.sentTime.value ≤ 500000000
  /-- The outputs were enabled a short time ago. -/
  enabled : iteration.driven = true → ∃ other ∈ earlier ++ [iteration], ∃ sentTime,
    other.Opened sentTime ∧ iteration.time.value - sentTime.value < 100000000
  /-- Otherwise one zeroed output is sent. -/
  zeroed : iteration.driven = false → iteration.gate.isSome = true → iteration.sent = [zero]

/-- The condition on the messages an iteration finds and on the clock. A joystick state that says
enabled is not old when it is fetched first, and no iteration finds one before the outputs were
seen enabled, as long as the clock is close to 0. -/
structure Timely (earlier : List (Iteration ω)) (iteration : Iteration ω) : Prop where
  recent : ∀ gate state, iteration.gate = some gate → gate.fetched = true →
    gate.joystickState = some state → state.enabled = true →
      iteration.time.value - state.sentTime.value ≤ 500000000
  seen : ∀ gate state, iteration.gate = some gate → gate.joystickState = some state →
    state.enabled = true → iteration.time.value < 100000000 →
      ∃ other ∈ earlier ++ [iteration], ∃ sentTime, other.Opened sentTime

end Miranda.Controls
