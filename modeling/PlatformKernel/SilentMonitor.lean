import PlatformKernel.ReturnCodes
import PlatformKernel.SilentControl

/-!
# Monitoring the silent mode GPIO

An edge of the GPIO raises an interrupt, whose delayed work reads the level and starts a
driver update of the silent mode. The interrupt is disabled while the system sleeps. The
kernel counts how often it was disabled; it is delivered at depth zero only.
-/

namespace SilentMonitor

open GuardedRuns ReturnCodes
open SilentControl (Header UpdateId)

/-- `depth` is the nesting of `disable_irq`. `lows` is history: the number of resumes that
read the GPIO low. -/
structure State where
  depth : Nat
  asleep : Bool
  workPending : Bool
  lows : Nat
  mode : SilentControl.State

def State.probed (H : Header) (silent : Bool) : State where
  depth := 0
  asleep := false
  workPending := false
  lows := 0
  mode := .init H silent

/-- An unbalanced `enable_irq` is warned about and does nothing. -/
def enableIrq (s : State) : State := { s with depth := s.depth - 1 }

def disableIrq (s : State) : State := { s with depth := s.depth + 1 }

def silentModeEnableMonitor (gpio : Int) (s : State) : Int × State :=
  if gpio ≠ 0 then (0, enableIrq s) else (-EEXIST, { s with lows := s.lows + 1 })

def silentModeDisableMonitor (s : State) : Int × State := (0, disableIrq s)

def silentModeSuspendLate (s : State) : Int × State :=
  let r := silentModeDisableMonitor s
  (r.1, { r.2 with asleep := true })

def silentModeResumeEarly (gpio : Int) (s : State) : Int × State :=
  let r := silentModeEnableMonitor gpio s
  (r.1, { r.2 with asleep := false })

/-- Suspend and resume alternate; the core goes on whatever they return. In between there
are edges, the work of the monitor, and the steps of the updates and writes of the mode. -/
inductive Action where
  | suspendLate
  | resumeEarly (gpio : Int)
  | edge
  | work (d : UpdateId) (level : Int32)
  | mode (a : SilentControl.Action)

def step (H : Header) (s : State) : Action → Option State
  | .suspendLate => if s.asleep then none else some (silentModeSuspendLate s).2
  | .resumeEarly gpio => if s.asleep then some (silentModeResumeEarly gpio s).2 else none
  | .edge => if s.depth = 0 then some { s with workPending := true } else none
  | .work d level =>
    if s.workPending then
      (SilentControl.step H s.mode (.driverUpdate d level)).map fun mode =>
        { s with workPending := false, mode := mode }
    else none
  | .mode a => (SilentControl.step H s.mode a).map fun mode => { s with mode := mode }

/-- The depth stays within one, and is zero after a resume with the GPIO high. -/
def Kept (H : Header) (s : State) (a : Action) : Prop :=
  ∀ t, step H s a = some t →
    t.depth ≤ 1 ∧ ∀ gpio, a = .resumeEarly gpio → gpio ≠ 0 → t.depth = 0

/-- The system goes to sleep only while no resume has read the GPIO low. -/
def HighSoFar (s : State) : Action → Prop
  | .suspendLate => s.lows = 0
  | _ => True

instance (s : State) (a : Action) : Decidable (HighSoFar s a) :=
  match a with
  | .suspendLate => inferInstanceAs (Decidable (s.lows = 0))
  | .resumeEarly _ => isTrue trivial
  | .edge => isTrue trivial
  | .work _ _ => isTrue trivial
  | .mode _ => isTrue trivial

section steps

variable {H : Header} {s t : State} {a : Action}

/-- What a step does to the interrupt. -/
inductive Moves (s : State) : Action → State → Prop where
  | suspends (awake : s.asleep = false) :
      Moves s .suspendLate { s with depth := s.depth + 1, asleep := true }
  | high {gpio : Int} (asleep : s.asleep = true) (high : gpio ≠ 0) :
      Moves s (.resumeEarly gpio) { s with depth := s.depth - 1, asleep := false }
  | low (asleep : s.asleep = true) :
      Moves s (.resumeEarly 0) { s with lows := s.lows + 1, asleep := false }
  | aside {a : Action} (pending : Bool) (mode : SilentControl.State)
      (sleeps : a ≠ .suspendLate) (wakes : ∀ gpio, a ≠ .resumeEarly gpio) :
      Moves s a { s with workPending := pending, mode := mode }

theorem step_moves (hstep : step H s a = some t) : Moves s a t := by
  cases a with
  | suspendLate =>
    simp only [step] at hstep
    split_ifs at hstep with asleep
    obtain rfl := Option.some.inj hstep
    exact .suspends (eq_false_of_ne_true asleep)
  | resumeEarly gpio =>
    simp only [step] at hstep
    split_ifs at hstep with asleep
    obtain rfl := Option.some.inj hstep
    unfold silentModeResumeEarly silentModeEnableMonitor
    by_cases low : gpio = 0
    · subst low
      exact .low asleep
    · rw [if_pos low]
      exact .high asleep low
  | edge =>
    simp only [step] at hstep
    split_ifs at hstep
    obtain rfl := Option.some.inj hstep
    exact .aside true s.mode (by simp) (by simp)
  | work d level =>
    simp only [step] at hstep
    split_ifs at hstep
    obtain ⟨mode, -, rfl⟩ := Option.map_eq_some_iff.mp hstep
    exact .aside false mode (by simp) (by simp)
  | mode a =>
    obtain ⟨mode, -, rfl⟩ := Option.map_eq_some_iff.mp hstep
    exact .aside s.workPending mode (by simp) (by simp)

/-- Every low resume leaves the interrupt disabled once more. -/
def Nested (s : State) : Prop := s.depth = s.lows + if s.asleep then 1 else 0

theorem step_nested (h : Nested s) (hstep : step H s a = some t) : Nested t := by
  unfold Nested at h ⊢
  cases step_moves hstep with
  | suspends awake =>
    rw [awake] at h
    simp [h]
  | high asleep high =>
    rw [asleep] at h
    simp [h]
  | low asleep =>
    rw [asleep] at h
    simp [h]
  | aside pending mode sleeps wakes => exact h

/-- The depth in every run: the resumes so far that read the GPIO low, and one for sleeping. -/
theorem run_nested {silent : Bool} {as : List Action}
    (run : exec (step H) (State.probed H silent) as = some s) : Nested s := by
  have start : Nested (State.probed H silent) := Eq.refl 0
  exact exec_invariant (fun _ _ _ h hstep => step_nested h hstep) start run

/-- After a resume that read the GPIO low no edge is delivered any more. -/
theorem run_deaf {silent : Bool} {as : List Action}
    (run : exec (step H) (State.probed H silent) as = some s) (low : s.lows ≠ 0) :
    step H s .edge = none := by
  have nested := run_nested run
  unfold Nested at nested
  have disabled : s.depth ≠ 0 := by omega
  exact if_neg disabled

theorem step_mode {a : Action} (hstep : step H s a = some t) :
    ∃ bs, exec (SilentControl.step H) s.mode bs = some t.mode := by
  cases a with
  | suspendLate =>
    simp only [step] at hstep
    split_ifs at hstep
    obtain rfl := Option.some.inj hstep
    exact ⟨[], rfl⟩
  | resumeEarly gpio =>
    simp only [step] at hstep
    split_ifs at hstep
    obtain rfl := Option.some.inj hstep
    refine ⟨[], ?_⟩
    unfold silentModeResumeEarly silentModeEnableMonitor
    split_ifs <;> rfl
  | edge =>
    simp only [step] at hstep
    split_ifs at hstep
    obtain rfl := Option.some.inj hstep
    exact ⟨[], rfl⟩
  | work d level =>
    simp only [step] at hstep
    split_ifs at hstep
    obtain ⟨mode, update, rfl⟩ := Option.map_eq_some_iff.mp hstep
    exact ⟨[.driverUpdate d level], exec_singleton update⟩
  | mode a =>
    obtain ⟨mode, moves, rfl⟩ := Option.map_eq_some_iff.mp hstep
    exact ⟨[a], exec_singleton moves⟩

/-- The updates and writes of the mode are a run of their own. -/
theorem run_mode {silent : Bool} {as : List Action}
    (run : exec (step H) (State.probed H silent) as = some s) :
    ∃ bs, exec (SilentControl.step H) (SilentControl.State.init H silent) bs = some s.mode := by
  have preserved : ∀ s a t,
      (∃ bs, exec (SilentControl.step H) (SilentControl.State.init H silent) bs = some s.mode) →
      step H s a = some t →
      ∃ bs, exec (SilentControl.step H) (SilentControl.State.init H silent) bs = some t.mode := by
    rintro s a t ⟨bs, reached⟩ hstep
    obtain ⟨more, moves⟩ := step_mode hstep
    exact ⟨bs ++ more, exec_append reached moves⟩
  exact exec_invariant preserved ⟨[], rfl⟩ run

/-- The invariant of a run that has gone well so far. -/
structure Balanced (s : State) : Prop where
  nested : Nested s
  high : s.asleep = true → s.lows = 0
  bound : s.depth ≤ 1

theorem kept_iff (h : Balanced s) (hstep : step H s a = some t) : Kept H s a ↔ HighSoFar s a := by
  have only : Kept H s a ↔
      t.depth ≤ 1 ∧ ∀ gpio, a = .resumeEarly gpio → gpio ≠ 0 → t.depth = 0 := by
    constructor
    · exact fun kept => kept t hstep
    · intro kept u hu
      obtain rfl := Option.some.inj (hstep.symm.trans hu)
      exact kept
  have nested := h.nested
  unfold Nested at nested
  rw [only]
  cases step_moves hstep with
  | suspends awake =>
    have depth : s.depth = s.lows := by simpa [awake] using nested
    constructor
    · rintro ⟨bound, -⟩
      simp only [depth] at bound
      exact Nat.eq_zero_of_le_zero (Nat.le_of_succ_le_succ bound)
    · intro high
      have zero : s.lows = 0 := high
      exact ⟨by simp [depth, zero], fun gpio wakes => by cases wakes⟩
  | high asleep high =>
    have none := h.high asleep
    rw [asleep, none] at nested
    refine iff_of_true ⟨?_, fun _ _ _ => ?_⟩ trivial
    · simp [nested]
    · simp [nested]
  | low asleep =>
    refine iff_of_true ⟨h.bound, fun gpio wakes high => ?_⟩ trivial
    exact absurd (Action.resumeEarly.inj wakes).symm high
  | aside pending mode sleeps wakes =>
    refine iff_of_true ⟨h.bound, fun gpio same => absurd same (wakes gpio)⟩ ?_
    cases a with
    | suspendLate => exact absurd rfl sleeps
    | resumeEarly gpio => exact absurd rfl (wakes gpio)
    | edge => trivial
    | work d level => trivial
    | mode a => trivial

theorem step_balanced (h : Balanced s) (kept : Kept H s a) (hstep : step H s a = some t) :
    Balanced t := by
  have high := (kept_iff h hstep).mp kept
  refine ⟨step_nested h.nested hstep, fun asleep => ?_, (kept t hstep).1⟩
  cases step_moves hstep with
  | suspends awake => exact high
  | high _ _ => cases asleep
  | low _ => cases asleep
  | aside pending mode sleeps wakes => exact h.high asleep

end steps

/-- The interrupt is balanced along a run exactly if the system never goes to sleep after a
resume that read the GPIO low. -/
theorem monitor_kept_iff (H : Header) (silent : Bool) (as : List Action) (s : State)
    (run : exec (step H) (State.probed H silent) as = some s) :
    Along (step H) (Kept H) (State.probed H silent) as ↔
      Along (step H) HighSoFar (State.probed H silent) as :=
  along_iff Balanced (fun _ _ _ h hstep => kept_iff h hstep)
    (fun _ _ _ h kept hstep => step_balanced h kept hstep)
    ⟨Eq.refl 0, (fun asleep => by cases asleep), Nat.zero_le 1⟩ run

/-- An edge between two sleeps, and a low level at the last resume. -/
def lowAtLast : List Action :=
  [.suspendLate, .resumeEarly 1, .edge, .work 0 1, .mode (.driver 0), .suspendLate, .resumeEarly 0]

theorem lowAtLast_kept : ∃ s, exec (step SilentControl.header) (State.probed SilentControl.header
      false) lowAtLast = some s ∧ s.depth = 1 ∧
    Along (step SilentControl.header) (Kept SilentControl.header)
      (State.probed SilentControl.header false) lowAtLast :=
  ⟨_, rfl, rfl, (monitor_kept_iff SilentControl.header false lowAtLast _ rfl).mpr (by decide)⟩

/-- A low level at the first resume: the second sleep has depth two, and the interrupt is
still disabled after the next resume although the GPIO is high. -/
theorem monitoring_lost :
    ((exec (step SilentControl.header) (State.probed SilentControl.header false)
      [.suspendLate, .resumeEarly 0, .suspendLate]).map State.depth) = some 2 ∧
    ((exec (step SilentControl.header) (State.probed SilentControl.header false)
      [.suspendLate, .resumeEarly 0, .suspendLate, .resumeEarly 1]).map State.depth) = some 1 := by
  decide

end SilentMonitor
