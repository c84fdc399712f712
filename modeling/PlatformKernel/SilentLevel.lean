import PlatformKernel.LatchedSignals
import PlatformKernel.SilentMonitor

/-!
# The silent mode follows the GPIO

The level of the GPIO changes, the interrupt puts the delayed work on, and the work reads the
level and updates the mode and the hardware state, one atomic operation at a time. The level
may change again at any point, userspace may take the mode over, and edges are not delivered
while the interrupt is disabled.
-/

namespace SilentLevel

open GuardedRuns LatchedSignals
open SilentControl (Header WriteId UpdateId header)

/-- Where the work is: a work does not run twice at once, but it can be put on again while it
runs. -/
inductive Phase where
  | idle
  | reading
  | updating
  deriving DecidableEq

/-- `first`, `levels` and `readings` are history, newest first; `owed` tells whether the
interrupt of the latest change has yet to be delivered. -/
structure State where
  mon : SilentMonitor.State
  phase : Phase
  first : Int32
  levels : List Int32
  owed : Bool
  readings : List Int32

def State.level (s : State) : Int32 := s.levels.headD s.first

def State.probed (H : Header) (silent : Bool) (level : Int32) : State where
  mon := .probed H silent
  phase := .idle
  first := level
  levels := []
  owed := false
  readings := []

/-- The work makes one update at a time, so they can share a name. -/
def workUpdate : UpdateId := 0

def State.setMode (s : State) (mode : SilentControl.State) : State :=
  { s with mon := { s.mon with mode := mode } }

/-- The next access of `silent_mode_handler_work_func` and of the update it makes. -/
def silentModeHandlerWorkFunc (H : Header) (s : State) : Phase → Option State
  | .idle => none
  | .reading => (SilentControl.step H s.mon.mode (.driverUpdate workUpdate s.level)).map fun mode =>
    { s.setMode mode with phase := .updating, readings := s.level :: s.readings }
  | .updating => (SilentControl.step H s.mon.mode (.driver workUpdate)).map fun mode =>
    { s.setMode mode with phase := if mode.driver workUpdate = none then .idle else .updating }

inductive Action where
  | level (level : Int32)
  | edge
  | take
  | work
  | userUpdate (u : WriteId) (kobj : Bool) (val : Int32)
  | user (u : WriteId)
  | suspendLate
  | resumeEarly (gpio : Int)

def step (H : Header) (s : State) : Action → Option State
  | .level level => some { s with levels := level :: s.levels, owed := true }
  | .edge => (SilentMonitor.step H s.mon .edge).map fun mon => { s with mon := mon, owed := false }
  | .take =>
    if s.phase = .idle ∧ s.mon.workPending = true then
      some { s with mon := { s.mon with workPending := false }, phase := .reading }
    else none
  | .work => silentModeHandlerWorkFunc H s s.phase
  | .userUpdate u kobj val =>
    (SilentControl.step H s.mon.mode (.userUpdate u kobj val)).map s.setMode
  | .user u => (SilentControl.step H s.mon.mode (.user u)).map s.setMode
  | .suspendLate => (SilentMonitor.step H s.mon .suspendLate).map fun mon => { s with mon := mon }
  | .resumeEarly gpio =>
    (SilentMonitor.step H s.mon (.resumeEarly gpio)).map fun mon => { s with mon := mon }

/-- The mode is that of the level unless userspace has taken control. -/
def Followed (level : Int32) (mode : SilentControl.State) : Prop :=
  mode.userspaceCntrl = 0 → mode.silentModeEnable = level ^^^ 1

/-- How far the update of the work is: past the store only if the mode is as it should be. -/
inductive Underway (level : Int32) (mode : SilentControl.State) : Prop where
  | tests (pc : mode.driver workUpdate = some (.test (level ^^^ 1)))
  | stores (pc : mode.driver workUpdate = some (.store (level ^^^ 1)))
  | ends (pc : mode.driver workUpdate = some (.hwState (level ^^^ 1))) (mode : Followed level mode)

/-- What was read last is being stored, or has been. -/
inductive Place (mode : SilentControl.State) (readings : List Int32) : Phase → Prop where
  | idle (none : mode.driver workUpdate = none)
      (done : ∀ v, readings.head? = some v → mode.hwState = v ^^^ 1 ∧ Followed v mode) :
      Place mode readings .idle
  | reading (none : mode.driver workUpdate = none)
      (done : ∀ v, readings.head? = some v → mode.hwState = v ^^^ 1 ∧ Followed v mode) :
      Place mode readings .reading
  | updating (v : Int32) (read : readings.head? = some v) (underway : Underway v mode) :
      Place mode readings .updating

structure Tracked (H : Header) (s : State) : Prop where
  raised : SilentControl.Raised H s.mon.mode
  place : Place s.mon.mode s.readings s.phase

/-- A step of userspace leaves the updates and the hardware state alone, and the mode unless
it has control. -/
structure Aside (mode mode' : SilentControl.State) : Prop where
  driver : mode'.driver = mode.driver
  hwState : mode'.hwState = mode.hwState
  followed : ∀ v, Followed v mode → Followed v mode'

section Steps

variable {H : Header}

theorem userUpdate_aside {mode mode' : SilentControl.State} {u : WriteId} {kobj : Bool}
    {val : Int32} (h : SilentControl.step H mode (.userUpdate u kobj val) = some mode') :
    Aside mode mode' := by
  simp only [SilentControl.step, Option.ite_none_right_eq_some] at h
  obtain rfl := Option.some.inj h.2
  cases kobj
  · exact ⟨rfl, rfl, fun _ h => h⟩
  · exact ⟨rfl, rfl, fun _ h => h⟩

theorem user_aside {mode mode' : SilentControl.State} {u : WriteId}
    (raised : SilentControl.Raised H mode)
    (h : SilentControl.step H mode (.user u) = some mode') : Aside mode mode' := by
  obtain ⟨pc, place, rfl⟩ := Option.map_eq_some_iff.mp h
  cases pc with
  | control val => exact ⟨rfl, rfl, fun v _ zero => absurd zero H.enabled_ne_zero⟩
  | store val =>
    refine ⟨rfl, rfl, fun v _ zero => ?_⟩
    have up : mode.userspaceCntrl = H.userspaceControlEnabled := raised u val place
    exact absurd (up.symm.trans zero) H.enabled_ne_zero

theorem Underway.aside {v : Int32} {mode mode' : SilentControl.State} (h : Underway v mode)
    (aside : Aside mode mode') : Underway v mode' := by
  cases h with
  | tests pc => exact .tests (aside.driver ▸ pc)
  | stores pc => exact .stores (aside.driver ▸ pc)
  | ends pc followed => exact .ends (aside.driver ▸ pc) (aside.followed v followed)

theorem Place.aside {mode mode' : SilentControl.State} {readings : List Int32} {phase : Phase}
    (h : Place mode readings phase) (aside : Aside mode mode') : Place mode' readings phase := by
  cases h with
  | idle none done =>
    refine .idle (aside.driver ▸ none) fun v hv => ?_
    exact ⟨aside.hwState.trans (done v hv).1, aside.followed v (done v hv).2⟩
  | reading none done =>
    refine .reading (aside.driver ▸ none) fun v hv => ?_
    exact ⟨aside.hwState.trans (done v hv).1, aside.followed v (done v hv).2⟩
  | updating v read underway => exact .updating v read (underway.aside aside)

/-- The update of the work goes on, or is done. -/
theorem Underway.next {v : Int32} {mode mode' : SilentControl.State} {readings : List Int32}
    (h : Underway v mode) (read : readings.head? = some v)
    (hstep : SilentControl.step H mode (.driver workUpdate) = some mode') :
    Place mode' readings (if mode'.driver workUpdate = none then .idle else .updating) := by
  obtain ⟨pc, place, rfl⟩ := Option.map_eq_some_iff.mp hstep
  cases h with
  | tests pc' =>
    obtain rfl := Option.some.inj (place.symm.trans pc')
    by_cases free : mode.userspaceCntrl = 0
    · simp only [SilentControl.driverStep, free, if_true, SilentControl.setDriver_self,
        reduceCtorEq, if_false]
      exact .updating v read (.stores (SilentControl.setDriver_self ..))
    · simp only [SilentControl.driverStep, free, if_false, SilentControl.setDriver_self,
        reduceCtorEq]
      exact .updating v read (.ends (SilentControl.setDriver_self ..) fun zero => absurd zero free)
  | stores pc' =>
    obtain rfl := Option.some.inj (place.symm.trans pc')
    simp only [SilentControl.driverStep, SilentControl.setDriver_self, reduceCtorEq, if_false]
    exact .updating v read (.ends (SilentControl.setDriver_self ..) fun _ => rfl)
  | ends pc' followed =>
    obtain rfl := Option.some.inj (place.symm.trans pc')
    simp only [SilentControl.driverStep, SilentControl.setDriver_self, if_true]
    refine .idle (SilentControl.setDriver_self ..) fun w hw => ?_
    obtain rfl := Option.some.inj (read.symm.trans hw)
    exact ⟨rfl, followed⟩

theorem step_tracked {s t : State} {a : Action} (h : Tracked H s) (hstep : step H s a = some t) :
    Tracked H t := by
  cases a with
  | level level =>
    obtain rfl := Option.some.inj hstep
    exact ⟨h.raised, h.place⟩
  | edge =>
    obtain ⟨mon, edge, rfl⟩ := Option.map_eq_some_iff.mp hstep
    simp only [SilentMonitor.step, Option.ite_none_right_eq_some] at edge
    obtain rfl := Option.some.inj edge.2
    exact ⟨h.raised, h.place⟩
  | take =>
    simp only [step, Option.ite_none_right_eq_some] at hstep
    obtain ⟨⟨idle, -⟩, hstep⟩ := hstep
    obtain rfl := Option.some.inj hstep
    have place := h.place
    rw [idle] at place
    cases place with
    | idle none done => exact ⟨h.raised, .reading none done⟩
  | work =>
    have place := h.place
    cases phase : s.phase with
    | idle =>
      simp only [step, phase] at hstep
      cases hstep
    | reading =>
      simp only [step, phase] at hstep
      obtain ⟨mode, update, rfl⟩ := Option.map_eq_some_iff.mp hstep
      refine ⟨SilentControl.step_raised h.raised update, ?_⟩
      simp only [SilentControl.step, Option.ite_none_right_eq_some] at update
      obtain rfl := Option.some.inj update.2
      exact .updating s.level rfl (.tests (SilentControl.setDriver_self ..))
    | updating =>
      simp only [step, phase] at hstep
      obtain ⟨mode, update, rfl⟩ := Option.map_eq_some_iff.mp hstep
      rw [phase] at place
      cases place with
      | updating v read underway =>
        exact ⟨SilentControl.step_raised h.raised update, underway.next read update⟩
  | userUpdate u kobj val =>
    obtain ⟨mode, update, rfl⟩ := Option.map_eq_some_iff.mp hstep
    exact ⟨SilentControl.step_raised h.raised update, h.place.aside (userUpdate_aside update)⟩
  | user u =>
    obtain ⟨mode, update, rfl⟩ := Option.map_eq_some_iff.mp hstep
    exact ⟨SilentControl.step_raised h.raised update, h.place.aside (user_aside h.raised update)⟩
  | suspendLate =>
    obtain ⟨mon, suspend, rfl⟩ := Option.map_eq_some_iff.mp hstep
    simp only [SilentMonitor.step, Option.ite_none_left_eq_some] at suspend
    obtain rfl := Option.some.inj suspend.2
    exact ⟨h.raised, h.place⟩
  | resumeEarly gpio =>
    obtain ⟨mon, resume, rfl⟩ := Option.map_eq_some_iff.mp hstep
    cases SilentMonitor.step_moves resume with
    | high => exact ⟨h.raised, h.place⟩
    | low => exact ⟨h.raised, h.place⟩
    | aside pending mode sleeps wakes => exact absurd rfl (wakes gpio)

def view (s : State) : Channel Int32 where
  first := s.first
  changes := s.levels
  owed := s.owed
  latched := s.mon.workPending
  looking := decide (s.phase = .reading)
  seen := s.readings

theorem step_simulates {s t : State} {a : Action} (hstep : step H s a = some t) :
    view t = view s ∨ ∃ e, LatchedSignals.step (view s) e = some (view t) := by
  cases a with
  | level level =>
    obtain rfl := Option.some.inj hstep
    exact .inr ⟨.change level, rfl⟩
  | edge =>
    obtain ⟨mon, edge, rfl⟩ := Option.map_eq_some_iff.mp hstep
    simp only [SilentMonitor.step, Option.ite_none_right_eq_some] at edge
    obtain rfl := Option.some.inj edge.2
    exact .inr ⟨.announce, rfl⟩
  | take =>
    simp only [step, Option.ite_none_right_eq_some] at hstep
    obtain ⟨⟨-, pending⟩, hstep⟩ := hstep
    obtain rfl := Option.some.inj hstep
    exact .inr ⟨.look false, by simp [view, LatchedSignals.step, pending]⟩
  | work =>
    cases phase : s.phase with
    | idle =>
      simp only [step, phase] at hstep
      cases hstep
    | reading =>
      simp only [step, phase] at hstep
      obtain ⟨mode, -, rfl⟩ := Option.map_eq_some_iff.mp hstep
      refine .inr ⟨.read, ?_⟩
      simp [view, LatchedSignals.step, phase, State.setMode, Channel.value, State.level]
    | updating =>
      simp only [step, phase] at hstep
      obtain ⟨mode, -, rfl⟩ := Option.map_eq_some_iff.mp hstep
      refine .inl ?_
      by_cases done : mode.driver workUpdate = none
      · simp [view, phase, done, State.setMode]
      · simp [view, phase, done, State.setMode]
  | userUpdate u kobj val =>
    obtain ⟨mode, -, rfl⟩ := Option.map_eq_some_iff.mp hstep
    exact .inl rfl
  | user u =>
    obtain ⟨mode, -, rfl⟩ := Option.map_eq_some_iff.mp hstep
    exact .inl rfl
  | suspendLate =>
    obtain ⟨mon, suspend, rfl⟩ := Option.map_eq_some_iff.mp hstep
    simp only [SilentMonitor.step, Option.ite_none_left_eq_some] at suspend
    obtain rfl := Option.some.inj suspend.2
    exact .inl rfl
  | resumeEarly gpio =>
    obtain ⟨mon, resume, rfl⟩ := Option.map_eq_some_iff.mp hstep
    cases SilentMonitor.step_moves resume with
    | high => exact .inl rfl
    | low => exact .inl rfl
    | aside pending mode sleeps wakes => exact absurd rfl (wakes gpio)

end Steps

/-- Levels are read in their order, and once the latest change has been delivered and its work
is done, the hardware state is the inverse of the level, and so is the mode unless userspace
has taken control. -/
structure Settles (s : State) : Prop where
  order : Echoes s.readings (s.levels ++ [s.first])
  last : s.owed = false → s.mon.workPending = false → s.phase = .idle → s.levels ≠ [] →
    s.mon.mode.hwState = s.level ^^^ 1 ∧
      (s.mon.mode.userspaceCntrl = 0 → s.mon.mode.silentModeEnable = s.level ^^^ 1)

theorem hardware_state_follows (H : Header) (silent : Bool) (level : Int32) (as : List Action)
    (s : State) (run : exec (step H) (State.probed H silent level) as = some s) : Settles s := by
  have start : Tracked H (State.probed H silent level) := by
    refine ⟨fun _ _ pc => ?_, .idle rfl fun _ read => ?_⟩
    · cases pc
    · cases read
  have tracked : Tracked H s := exec_invariant (fun _ _ _ h hstep => step_tracked h hstep) start run
  obtain ⟨es, events⟩ := run_simulates view (step H) (fun _ _ _ _ _ => trivial)
    (fun s a t _ hstep => step_simulates hstep) trivial run
  have kept := run_kept (quiet_kept level) events
  refine ⟨kept.order, fun announced pending idle changed => ?_⟩
  have read : s.readings.head? = some s.level :=
    kept.last announced pending (by simp [view, idle]) changed
  have place := tracked.place
  rw [idle] at place
  cases place with
  | idle none done => exact done s.level read

/-- The level goes up and, while the work stores that, down again. -/
def upAndDown : List Action :=
  [.level 1, .edge, .take, .work, .level 0, .work, .edge, .work, .work, .take, .work, .work, .work,
    .work]

theorem upAndDown_settles : ∃ s : State,
    exec (step header) (State.probed header true 0) upAndDown = some s ∧
      s.readings = [0, 1] ∧ s.mon.mode.hwState = 1 ∧ Settles s :=
  ⟨_, rfl, rfl, rfl, hardware_state_follows header true 0 upAndDown _ rfl⟩

end SilentLevel
