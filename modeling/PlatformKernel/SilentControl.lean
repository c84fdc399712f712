import Mathlib.Logic.Function.Basic
import PlatformKernel.GuardedRuns

/-!
# Who controls the silent mode

Drivers and userspace both set `pm_silent_mode_enable`. A userspace write first raises the
control flag and then stores its value; a driver update stores its value if it finds the flag
down. One step here is one atomic operation of one caller, and any number of updates and
writes are under way at once.
-/

namespace SilentControl

open GuardedRuns

abbrev UpdateId := Nat
abbrev WriteId := Nat

/-- Values of `linux/silent_mode.h`. -/
structure Header where
  userspaceControlDisabled : Int32
  userspaceControlEnabled : Int32
  modeNonSilent : Int32
  modeGpioLow : Int32
  modeGpioHigh : Int32
  enabled_ne_zero : userspaceControlEnabled ≠ 0

/-- A driver update before its test of the flag, between the test and its store, and before
it stores the hardware state. -/
inductive DriverPc where
  | test (val : Int32)
  | store (val : Int32)
  | hwState (val : Int32)
  deriving DecidableEq

/-- A userspace write before it raises the flag, and before it stores its value. -/
inductive UserPc where
  | control (val : Int32)
  | store (val : Int32)
  deriving DecidableEq

/-- `latest` is history: the value of the latest userspace write that is complete. -/
structure State where
  userspaceCntrl : Int32
  silentModeEnable : Int32
  hwState : Int32
  driver : UpdateId → Option DriverPc
  user : WriteId → Option UserPc
  latest : Option Int32

/-- `pm_silentmode_init`, for the mode of the command line. -/
def State.init (H : Header) (silent : Bool) : State where
  userspaceCntrl := H.userspaceControlDisabled
  silentModeEnable :=
    if H.userspaceControlDisabled ≠ 0 then H.modeNonSilent else if silent then 1 else 0
  hwState := if silent then H.modeGpioHigh else H.modeGpioLow
  driver := fun _ => none
  user := fun _ => none
  latest := none

/-- `kobj` tells whether a userspace write has a kobject. -/
inductive Action where
  | driverUpdate (d : UpdateId) (val : Int32)
  | driver (d : UpdateId)
  | userUpdate (u : WriteId) (kobj : Bool) (val : Int32)
  | user (u : WriteId)

def State.setDriver (s : State) (d : UpdateId) (pc : Option DriverPc) : State :=
  { s with driver := Function.update s.driver d pc }

def State.setUser (s : State) (u : WriteId) (pc : Option UserPc) : State :=
  { s with user := Function.update s.user u pc }

@[simp] theorem setDriver_self (s : State) (d : UpdateId) (pc : Option DriverPc) :
    (s.setDriver d pc).driver d = pc := Function.update_self ..

theorem setDriver_of_ne (s : State) {d x : UpdateId} (pc : Option DriverPc) (h : x ≠ d) :
    (s.setDriver d pc).driver x = s.driver x := Function.update_of_ne h ..

@[simp] theorem setUser_self (s : State) (u : WriteId) (pc : Option UserPc) :
    (s.setUser u pc).user u = pc := Function.update_self ..

theorem setUser_of_ne (s : State) {u x : WriteId} (pc : Option UserPc) (h : x ≠ u) :
    (s.setUser u pc).user x = s.user x := Function.update_of_ne h ..

/-- The next atomic operation of `pm_silentmode_kernel_set` and `pm_silentmode_hw_state_set`. -/
def driverStep (s : State) (d : UpdateId) : DriverPc → State
  | .test val => s.setDriver d (some (if s.userspaceCntrl = 0 then .store val else .hwState val))
  | .store val => { s with silentModeEnable := val }.setDriver d (some (.hwState val))
  | .hwState val => { s with hwState := val }.setDriver d none

/-- The next atomic operation of `pm_silentmode_user_update`. -/
def userStep (H : Header) (s : State) (u : WriteId) : UserPc → State
  | .control val =>
    { s with userspaceCntrl := H.userspaceControlEnabled }.setUser u (some (.store val))
  | .store val => { s with silentModeEnable := val, latest := some val }.setUser u none

/-- `pm_silentmode_update` stores the inverse of the level it is given by a driver. -/
def step (H : Header) (s : State) : Action → Option State
  | .driverUpdate d val =>
    if s.driver d = none then some (s.setDriver d (some (.test (val ^^^ 1)))) else none
  | .driver d => (s.driver d).map (driverStep s d)
  | .userUpdate u kobj val =>
    if s.user u = none then some (if kobj then s.setUser u (some (.control val)) else s) else none
  | .user u => (s.user u).map (userStep H s u)

/-- A write that has raised the flag finds it up. -/
def Raised (H : Header) (s : State) : Prop :=
  ∀ u val, s.user u = some (.store val) → s.userspaceCntrl = H.userspaceControlEnabled

/-- No driver update is between its test and its store. -/
def NoneBetween (s : State) : Prop := ∀ d val, s.driver d ≠ some (.store val)

section steps

variable {H : Header} {s t : State} {a : Action}

theorem raised_setUser {u : WriteId} {pc : Option UserPc} (h : Raised H s)
    (new : ∀ val, pc = some (.store val) → s.userspaceCntrl = H.userspaceControlEnabled) :
    Raised H (s.setUser u pc) := by
  intro x val hx
  by_cases same : x = u
  · subst same
    exact new val ((setUser_self s x pc).symm.trans hx)
  · exact h x val ((setUser_of_ne s pc same).symm.trans hx)

theorem step_raised (h : Raised H s) (hstep : step H s a = some t) : Raised H t := by
  cases a with
  | driverUpdate d val =>
    simp only [step] at hstep
    split_ifs at hstep
    obtain rfl := Option.some.inj hstep
    exact h
  | driver d =>
    obtain ⟨pc, -, rfl⟩ := Option.map_eq_some_iff.mp hstep
    cases pc <;> exact h
  | userUpdate u kobj val =>
    simp only [step] at hstep
    split_ifs at hstep with idle object
    · obtain rfl := Option.some.inj hstep
      exact raised_setUser h fun x hx => by cases hx
    · obtain rfl := Option.some.inj hstep
      exact h
  | user u =>
    obtain ⟨pc, hpc, rfl⟩ := Option.map_eq_some_iff.mp hstep
    cases pc with
    | control val =>
      have raised : Raised H { s with userspaceCntrl := H.userspaceControlEnabled } :=
        fun _ _ _ => rfl
      exact raised_setUser raised fun _ _ => rfl
    | store val =>
      have raised : Raised H { s with silentModeEnable := val, latest := some val } := h
      exact raised_setUser raised fun x hx => by cases hx

/-- The flag is up, no driver update is past its test, and the mode is that of the latest
write. -/
structure Settled (s : State) : Prop where
  control : s.userspaceCntrl ≠ 0
  between : NoneBetween s
  mode : s.latest = some s.silentModeEnable

theorem noneBetween_setDriver {d : UpdateId} {pc : Option DriverPc} (h : NoneBetween s)
    (new : ∀ val, pc ≠ some (.store val)) : NoneBetween (s.setDriver d pc) := by
  intro x val hx
  by_cases same : x = d
  · subst same
    exact new val ((setDriver_self s x pc).symm.trans hx)
  · exact h x val ((setDriver_of_ne s pc same).symm.trans hx)

/-- Nothing a driver does from then on reaches the mode. -/
theorem step_settled (h : Settled s) (hstep : step H s a = some t) : Settled t := by
  cases a with
  | driverUpdate d val =>
    simp only [step] at hstep
    split_ifs at hstep
    obtain rfl := Option.some.inj hstep
    exact ⟨h.control, noneBetween_setDriver h.between (fun x hx => by cases hx), h.mode⟩
  | driver d =>
    obtain ⟨pc, hpc, rfl⟩ := Option.map_eq_some_iff.mp hstep
    cases pc with
    | test val =>
      refine ⟨h.control, noneBetween_setDriver h.between fun x hx => ?_, h.mode⟩
      rw [if_neg h.control] at hx
      cases hx
    | store val => exact absurd hpc (h.between d val)
    | hwState val =>
      have between : NoneBetween { s with hwState := val } := h.between
      exact ⟨h.control, noneBetween_setDriver between (fun x hx => by cases hx), h.mode⟩
  | userUpdate u kobj val =>
    simp only [step] at hstep
    split_ifs at hstep
    · obtain rfl := Option.some.inj hstep
      exact ⟨h.control, h.between, h.mode⟩
    · obtain rfl := Option.some.inj hstep
      exact h
  | user u =>
    obtain ⟨pc, hpc, rfl⟩ := Option.map_eq_some_iff.mp hstep
    cases pc with
    | control val => exact ⟨H.enabled_ne_zero, h.between, h.mode⟩
    | store val => exact ⟨h.control, h.between, rfl⟩

theorem run_raised {silent : Bool} {as : List Action}
    (run : exec (step H) (State.init H silent) as = some s) : Raised H s :=
  exec_invariant (fun _ _ _ h hstep => step_raised h hstep) (fun u val h => by cases h) run

/-- A userspace write that no driver update stands before settles the mode. -/
theorem write_settles {u : WriteId} {val : Int32} (h : Raised H s)
    (storing : s.user u = some (.store val)) (between : NoneBetween s) :
    Settled (userStep H s u (.store val)) := by
  have control : s.userspaceCntrl ≠ 0 := by
    intro zero
    exact H.enabled_ne_zero ((h u val storing).symm.trans zero)
  exact ⟨control, between, rfl⟩

/-- A whole userspace write. -/
theorem write_run {u : WriteId} (idle : s.user u = none) (val : Int32) :
    ∃ t, exec (step H) s [.userUpdate u true val, .user u, .user u] = some t ∧
      t.silentModeEnable = val ∧ t.latest = some val ∧ t.driver = s.driver := by
  have first : step H s (.userUpdate u true val) = some (s.setUser u (some (.control val))) :=
    if_pos idle
  have second : step H (s.setUser u (some (.control val))) (.user u) =
      some (userStep H (s.setUser u (some (.control val))) u (.control val)) := by
    simp [step]
  have third : step H (userStep H (s.setUser u (some (.control val))) u (.control val))
      (.user u) = some (userStep H (userStep H (s.setUser u (some (.control val))) u
        (.control val)) u (.store val)) := by
    simp [step, userStep]
  refine ⟨_, exec_append (exec_singleton first) (exec_append (exec_singleton second)
    (exec_singleton third)), rfl, rfl, rfl⟩

/-- A value that a driver update has ready ends up in the place of a userspace write. -/
theorem between_overwrites {d : UpdateId} {u : WriteId} {w : Int32} (idle : s.user u = none)
    (ready : s.driver d = some (.store w)) :
    ∃ bs r, exec (step H) s bs = some r ∧ r.latest ≠ some r.silentModeEnable := by
  obtain ⟨val, differs⟩ : ∃ val : Int32, val ≠ w := by
    by_cases zero : w = 0
    · exact ⟨1, fun one => absurd (one.trans zero) (by decide)⟩
    · exact ⟨0, Ne.symm zero⟩
  obtain ⟨t, writes, -, latest, drivers⟩ := write_run (H := H) idle val
  have stores : step H t (.driver d) = some (driverStep t d (.store w)) := by
    rw [step, drivers, ready, Option.map_some]
  refine ⟨_, _, exec_append writes (exec_singleton stores), fun kept => differs ?_⟩
  exact Option.some.inj (latest.symm.trans kept)

/-- No userspace write completes while a driver update is between its test and its store. -/
def Undisturbed (s : State) : Action → Prop
  | .user u => ∀ val, s.user u = some (.store val) → NoneBetween s
  | _ => True

theorem latest_kept (hstep : step H s a = some t) (writes : ∀ u, a ≠ .user u) :
    t.latest = s.latest := by
  cases a with
  | driverUpdate d val =>
    simp only [step] at hstep
    split_ifs at hstep
    obtain rfl := Option.some.inj hstep
    rfl
  | driver d =>
    obtain ⟨pc, -, rfl⟩ := Option.map_eq_some_iff.mp hstep
    cases pc <;> rfl
  | userUpdate u kobj val =>
    simp only [step] at hstep
    split_ifs at hstep <;> obtain rfl := Option.some.inj hstep <;> rfl
  | user u => exact absurd rfl (writes u)

/-- In an undisturbed run the mode is that of the latest write from the first write on. -/
theorem run_kept {silent : Bool} {as : List Action}
    (along : Along (step H) Undisturbed (State.init H silent) as)
    (run : exec (step H) (State.init H silent) as = some s) (val : Int32)
    (written : s.latest = some val) : s.silentModeEnable = val := by
  suffices both : Raised H s ∧ (s.latest ≠ none → Settled s) by
    have settled := both.2 (by rw [written]; exact Option.some_ne_none val)
    exact Option.some.inj (settled.mode.symm.trans written)
  have start : Raised H (State.init H silent) ∧
      ((State.init H silent).latest ≠ none → Settled (State.init H silent)) :=
    ⟨(fun u val h => by cases h), fun h => absurd rfl h⟩
  have preserved : ∀ s a t, Raised H s ∧ (s.latest ≠ none → Settled s) → Undisturbed s a →
      step H s a = some t → Raised H t ∧ (t.latest ≠ none → Settled t) := by
    rintro s a t ⟨raised, settled⟩ quiet hstep
    refine ⟨step_raised raised hstep, fun written => ?_⟩
    by_cases before : s.latest = none
    · by_cases user : ∃ u, a = .user u
      · obtain ⟨u, rfl⟩ := user
        obtain ⟨pc, hpc, rfl⟩ := Option.map_eq_some_iff.mp hstep
        cases pc with
        | control val => exact absurd before written
        | store val => exact write_settles raised hpc (quiet val hpc)
      · rw [latest_kept hstep fun u hu => user ⟨u, hu⟩] at written
        exact absurd before written
    · exact step_settled (settled before) hstep
  exact exec_invariant_along Undisturbed preserved start along run

end steps

/-- Once a userspace write is complete its value, or that of a later write, stays whatever
happens, exactly if no driver update was between its test and its store then. -/
theorem user_write_kept_iff (H : Header) (silent : Bool) (as : List Action) (s t : State)
    (u : WriteId) (val : Int32) (run : exec (step H) (State.init H silent) as = some s)
    (storing : s.user u = some (.store val)) (hstep : step H s (.user u) = some t) :
    (∀ bs r, exec (step H) t bs = some r → r.latest = some r.silentModeEnable) ↔
      ∀ d w, s.driver d ≠ some (.store w) := by
  have done : t = userStep H s u (.store val) := by
    rw [step, storing] at hstep
    exact (Option.some.inj hstep).symm
  constructor
  · intro kept d w ready
    have idle : t.user u = none := by rw [done, userStep, setUser_self]
    have pending : t.driver d = some (.store w) := by rw [done]; exact ready
    obtain ⟨bs, r, more, lost⟩ := between_overwrites (H := H) idle pending
    exact lost (kept bs r more)
  · intro between bs r more
    have settled : Settled t := done ▸ write_settles (run_raised run) storing between
    exact (exec_invariant (fun _ _ _ h hs => step_settled h hs) settled more).mode

def header : Header := ⟨0, 1, 0, 0, 1, by decide⟩

/-- A write of 1 is about to store while a driver update has not tested the flag yet. -/
def earlyUpdate : List Action := [.driverUpdate 3 1, .userUpdate 0 true 1, .user 0]

theorem earlyUpdate_kept : ∃ s t, exec (step header) (State.init header false) earlyUpdate =
      some s ∧ step header s (.user 0) = some t ∧
    ∀ bs r, exec (step header) t bs = some r → r.latest = some r.silentModeEnable := by
  obtain ⟨s, run⟩ : ∃ s, exec (step header) (State.init header false) earlyUpdate = some s :=
    ⟨_, rfl⟩
  obtain rfl := Option.some.inj run
  refine ⟨_, _, run, rfl,
    (user_write_kept_iff header false earlyUpdate _ _ 0 1 run rfl rfl).mpr ?_⟩
  intro d w ready
  by_cases same : d = 3
  · subst same
    cases ready
  · have none : (State.init header false).driver d = some (.store w) :=
      (setDriver_of_ne (State.init header false) (some (.test (1 ^^^ 1))) same).symm.trans ready
    cases none

/-- The driver update has tested the flag when the write comes, and stores over it. -/
theorem write_overwritten : ∃ s t, exec (step header) (State.init header false)
      [.driverUpdate 3 1, .driver 3, .userUpdate 0 true 1, .user 0, .user 0] = some s ∧
    s.latest = some 1 ∧ s.silentModeEnable = 1 ∧ step header s (.driver 3) = some t ∧
    t.latest = some 1 ∧ t.silentModeEnable = 0 :=
  ⟨_, _, rfl, rfl, rfl, rfl, rfl, rfl⟩

end SilentControl
