import Mathlib.Data.List.DropRight
import PlatformKernel.ReturnCodes
import PlatformKernel.SilentLevel

/-!
# Booting into a mode

The mode comes from the kernel command line, as the parameter of a text. `silent_mode_param_set`
looks for four words in the first fifteen bytes of the text, and does not stop at its end.
The first setting counts. A forced mode is negative; then the GPIO is not to be monitored.
-/

namespace SilentBoot

open GuardedRuns ReturnCodes
open SilentControl (Header)

/-- The values of the modes in `linux/silent_mode.h`. -/
structure Modes where
  header : Header
  modeSilent : Int32
  silent_pos : 0 < modeSilent
  nonSilent_pos : 0 < header.modeNonSilent
  distinct : modeSilent ≠ header.modeNonSilent

def Modes.modeNonSilent (M : Modes) : Int32 := M.header.modeNonSilent

def nul : Char := Char.ofNat 0

/-- Memory from the start of a text on; `after` follows the zero that ends it. -/
def memory : List Char → (Nat → Char) → Nat → Char
  | [], after => fun i => if i = 0 then nul else after (i - 1)
  | c :: text, after => fun i => if i = 0 then c else memory text after (i - 1)

/-- `memcmp` with a text of its own length finds no difference. -/
def matchesAt (s : Nat → Char) : List Char → Bool
  | [] => true
  | c :: pat => s 0 == c && matchesAt (fun i => s (i + 1)) pat

/-- `strnstr`: the search stops when fewer than `pat` bytes are left of the length, and at
nothing else. -/
def strnstr (s : Nat → Char) (pat : List Char) : Nat → Bool
  | 0 => pat.isEmpty
  | len + 1 =>
    if len + 1 < pat.length then false
    else if matchesAt s pat then true
    else strnstr (fun i => s (i + 1)) pat len

/-- `isspace`. -/
def isSpace (c : Char) : Bool :=
  c.toNat == 32 || (9 ≤ c.toNat && c.toNat ≤ 13) || c.toNat == 160

/-- `strim`: a zero is stored behind the last byte that is no space, and leading spaces are
skipped. What the text held behind that zero is still in memory. -/
def strim (text : List Char) (after : Nat → Char) : List Char × (Nat → Char) :=
  let body := text.rdropWhile isSpace
  (body.dropWhile isSpace, fun i => memory text after (body.length + 1 + i))

def silent : List Char := ['s', 'i', 'l', 'e', 'n', 't']
def nonsilent : List Char := ['n', 'o', 'n'] ++ silent
def forcedsilent : List Char := ['f', 'o', 'r', 'c', 'e', 'd'] ++ silent
def forcednonsilent : List Char := ['f', 'o', 'r', 'c', 'e', 'd'] ++ nonsilent

/-- The words in the order in which they are looked for. -/
def wordMode (M : Modes) (found : List Char → Bool) : Int32 :=
  if found forcednonsilent then -M.modeNonSilent
  else if found forcedsilent then -M.modeSilent
  else if found nonsilent then M.modeNonSilent
  else if found silent then M.modeSilent
  else M.modeNonSilent

/-- The mode that is stored for a text; `after` is what follows the text in memory. -/
def paramMode (M : Modes) (text : List Char) (after : Nat → Char) : Int32 :=
  let s := strim text after
  wordMode M fun word => strnstr (memory s.1 s.2) word forcednonsilent.length

/-- Only the first setting counts. -/
def silentModeParamSet (M : Modes) (silentMode : Int32) (text : List Char) (after : Nat → Char) :
    Int32 :=
  if silentMode = 0 then paramMode M text after else silentMode

/-- What the calls of `silent_mode_probe` return. -/
structure Outcome where
  infoAlloc : Bool
  gpioRequestOne : Int
  gpioIsValid : Bool
  setDebounce : Int
  requestAnyContextIrq : Int

def silentModeInitMonitor (o : Outcome) : Int :=
  if !o.gpioIsValid then -EINVAL
  else if o.setDebounce < 0 then o.setDebounce
  else o.requestAnyContextIrq

def forcedModeEnforced (silentMode : Int32) : Bool := decide (silentMode < 0)

/-- The result, and whether the device got its data. The error of the GPIO request is
overwritten. -/
def silentModeProbe (silentMode : Int32) (o : Outcome) : Int × Bool :=
  if forcedModeEnforced silentMode then (0, false)
  else if !o.infoAlloc then (-ENOMEM, false)
  else
    let result := silentModeInitMonitor o
    (if result < 0 then -EINVAL else result, true)

/-- The core keeps a device bound if its probe returned zero; `info` is its driver data. -/
inductive Monitor where
  | unbound
  | bound (info : Bool)
  deriving DecidableEq

/-- `running` is there from `pm_silentmode_init` on. `oops` tells that a callback followed a
null pointer. -/
structure State where
  silentMode : Int32
  monitor : Monitor
  running : Option SilentLevel.State
  oops : Bool

def State.start : State := ⟨0, .unbound, none, false⟩

inductive Action where
  | paramSet (text : List Char) (after : Nat → Char)
  | init (level : Int32)
  | probe (o : Outcome)
  | run (a : SilentLevel.Action)

def isSilent (M : Modes) (mode : Int32) : Bool :=
  decide (mode = M.modeSilent ∨ mode = -M.modeSilent)

def pmSilentmodeInit (M : Modes) (s : State) (level : Int32) : State :=
  let mode := if s.silentMode = 0 then M.modeNonSilent else s.silentMode
  { s with silentMode := mode, running := some (.probed M.header (isSilent M mode) level) }

/-- `silent_mode_suspend_late` and `silent_mode_resume_early` use the data of the device
before they look whether it is there. -/
def callback (M : Modes) (s : State) (l : SilentLevel.State) (a : SilentLevel.Action) :
    Option State :=
  match s.monitor with
  | .unbound => some s
  | .bound false => some { s with oops := true }
  | .bound true => (SilentLevel.step M.header l a).map fun l => { s with running := some l }

def step (M : Modes) (s : State) : Action → Option State
  | .paramSet text after =>
    some { s with silentMode := silentModeParamSet M s.silentMode text after }
  | .init level => if s.running.isNone then some (pmSilentmodeInit M s level) else none
  | .probe o =>
    if s.running.isSome ∧ s.monitor = .unbound then
      let r := silentModeProbe s.silentMode o
      some { s with monitor := if r.1 = 0 then .bound r.2 else .unbound }
    else none
  | .run a => s.running.bind fun l =>
    match a with
    | .suspendLate => callback M s l .suspendLate
    | .resumeEarly gpio => callback M s l (.resumeEarly gpio)
    | .edge =>
      if s.monitor = .bound true then
        (SilentLevel.step M.header l .edge).map fun l => { s with running := some l }
      else none
    | a => (SilentLevel.step M.header l a).map fun l => { s with running := some l }

/-- Steps that reach the driver only while its device is bound. -/
def needsMonitor : SilentLevel.Action → Bool
  | .edge => true
  | .suspendLate => true
  | .resumeEarly _ => true
  | _ => false

/-- Everything a step can do. -/
inductive Moves (M : Modes) (s : State) : Action → State → Prop where
  | sets (text : List Char) (after : Nat → Char) : Moves M s (.paramSet text after)
      { s with silentMode := silentModeParamSet M s.silentMode text after }
  | inits {level : Int32} (first : s.running = none) :
      Moves M s (.init level) (pmSilentmodeInit M s level)
  | probes {o : Outcome} (running : s.running ≠ none) (unbound : s.monitor = .unbound) :
      Moves M s (.probe o) { s with
        monitor := if (silentModeProbe s.silentMode o).1 = 0
          then .bound (silentModeProbe s.silentMode o).2 else .unbound }
  | runs {a : SilentLevel.Action} {l l' : SilentLevel.State} (running : s.running = some l)
      (moved : SilentLevel.step M.header l a = some l')
      (watched : needsMonitor a = true → s.monitor = .bound true) :
      Moves M s (.run a) { s with running := some l' }
  | unnoticed {a : SilentLevel.Action} (unbound : s.monitor = .unbound) : Moves M s (.run a) s
  | faults {a : SilentLevel.Action} (missing : s.monitor = .bound false) :
      Moves M s (.run a) { s with oops := true }

section Runs

variable {M : Modes} {s t : State} {a : Action}

theorem callback_moves {l : SilentLevel.State} {b : SilentLevel.Action}
    (running : s.running = some l) (h : callback M s l b = some t) : Moves M s (.run b) t := by
  unfold callback at h
  split at h
  · rename_i unbound
    obtain rfl := Option.some.inj h
    exact .unnoticed unbound
  · rename_i missing
    obtain rfl := Option.some.inj h
    exact .faults missing
  · rename_i bound
    obtain ⟨l', moved, rfl⟩ := Option.map_eq_some_iff.mp h
    exact .runs running moved fun _ => bound

theorem step_moves (hstep : step M s a = some t) : Moves M s a t := by
  cases a with
  | paramSet text after =>
    obtain rfl := Option.some.inj hstep
    exact .sets text after
  | init level =>
    obtain ⟨first, hstep⟩ := Option.ite_none_right_eq_some.mp hstep
    obtain rfl := Option.some.inj hstep
    exact .inits (Option.isNone_iff_eq_none.mp first)
  | probe o =>
    obtain ⟨⟨running, unbound⟩, hstep⟩ := Option.ite_none_right_eq_some.mp hstep
    obtain rfl := Option.some.inj hstep
    exact .probes (Option.isSome_iff_ne_none.mp running) unbound
  | run b =>
    obtain ⟨l, running, hstep⟩ := Option.bind_eq_some_iff.mp hstep
    cases b with
    | suspendLate => exact callback_moves running hstep
    | resumeEarly gpio => exact callback_moves running hstep
    | edge =>
      obtain ⟨bound, hstep⟩ := Option.ite_none_right_eq_some.mp hstep
      obtain ⟨l', moved, rfl⟩ := Option.map_eq_some_iff.mp hstep
      exact .runs running moved fun _ => bound
    | level v | take | work | userUpdate u kobj val | user u =>
      obtain ⟨l', moved, rfl⟩ := Option.map_eq_some_iff.mp hstep
      exact .runs running moved fun needs => by cases needs

theorem paramMode_ne_zero (text : List Char) (after : Nat → Char) : paramMode M text after ≠ 0 := by
  have first : M.modeNonSilent ≠ 0 := (Int32.ne_of_lt M.nonSilent_pos).symm
  have second : M.modeSilent ≠ 0 := (Int32.ne_of_lt M.silent_pos).symm
  simp only [paramMode, wordMode]
  split_ifs
  · grind
  · grind
  · exact first
  · exact second
  · exact first

/-- The mode that a run decides on: that of the first parameter, if there is one before the
initialisation. -/
def decided (M : Modes) : List Action → Int32
  | [] => 0
  | .paramSet text after :: _ => paramMode M text after
  | .init _ :: _ => M.modeNonSilent
  | _ :: rest => decided M rest

theorem step_silentMode (set : s.silentMode ≠ 0) (hstep : step M s a = some t) :
    t.silentMode = s.silentMode := by
  cases step_moves hstep with
  | sets text after => exact if_neg set
  | inits first => exact if_neg set
  | probes running unbound => rfl
  | runs running moved watched => rfl
  | unnoticed unbound => rfl
  | faults missing => rfl

theorem run_silentMode {as : List Action} (set : s.silentMode ≠ 0)
    (run : exec (step M) s as = some t) : t.silentMode = s.silentMode := by
  have kept : ∀ u a v, u.silentMode = s.silentMode → step M u a = some v →
      v.silentMode = s.silentMode :=
    fun u a v same hstep => (step_silentMode (same ▸ set) hstep).trans same
  exact exec_invariant (fun u a v same hstep => kept u a v same hstep) rfl run

theorem run_decided {as : List Action} (unset : s.silentMode = 0)
    (run : exec (step M) s as = some t) : t.silentMode = decided M as := by
  have nonSilent : M.modeNonSilent ≠ 0 := (Int32.ne_of_lt M.nonSilent_pos).symm
  induction as generalizing s with
  | nil =>
    obtain rfl := Option.some.inj run
    exact unset
  | cons a rest ih =>
    obtain ⟨u, hstep, hrest⟩ := exec_cons_eq_some run
    cases step_moves hstep with
    | sets text after =>
      have mode : silentModeParamSet M s.silentMode text after = paramMode M text after :=
        if_pos unset
      exact (run_silentMode (mode ▸ paramMode_ne_zero text after) hrest).trans mode
    | inits first =>
      rename_i level
      have mode : (pmSilentmodeInit M s level).silentMode = M.modeNonSilent := if_pos unset
      exact (run_silentMode (mode ▸ nonSilent) hrest).trans mode
    | probes running unbound =>
      refine ih ?_ hrest
      exact unset
    | runs running moved watched =>
      refine ih ?_ hrest
      exact unset
    | unnoticed unbound => exact ih unset hrest
    | faults missing =>
      refine ih ?_ hrest
      exact unset

/-- Nothing has been read from the GPIO, and the mode is what userspace wrote last, or as it was
initialised. -/
structure Quiet (M : Modes) (silent : Bool) (l : SilentLevel.State) : Prop where
  pending : l.mon.workPending = false
  idle : l.phase = .idle
  hwState : l.mon.mode.hwState = (SilentControl.State.init M.header silent).hwState
  mode : l.mon.mode.silentModeEnable =
    l.mon.mode.latest.getD (SilentControl.State.init M.header silent).silentModeEnable

theorem step_quiet {silent : Bool} {l l' : SilentLevel.State} {b : SilentLevel.Action}
    (h : Quiet M silent l) (unwatched : needsMonitor b = false)
    (moved : SilentLevel.step M.header l b = some l') : Quiet M silent l' := by
  cases b with
  | level v =>
    obtain rfl := Option.some.inj moved
    exact ⟨h.pending, h.idle, h.hwState, h.mode⟩
  | take =>
    obtain ⟨⟨-, pending⟩, -⟩ := Option.ite_none_right_eq_some.mp moved
    rw [h.pending] at pending
    cases pending
  | work =>
    simp only [SilentLevel.step, h.idle] at moved
    cases moved
  | userUpdate u kobj val =>
    obtain ⟨mode, update, rfl⟩ := Option.map_eq_some_iff.mp moved
    obtain ⟨-, update⟩ := Option.ite_none_right_eq_some.mp update
    obtain rfl := Option.some.inj update
    cases kobj with
    | false => exact ⟨h.pending, h.idle, h.hwState, h.mode⟩
    | true => exact ⟨h.pending, h.idle, h.hwState, h.mode⟩
  | user u =>
    obtain ⟨mode, update, rfl⟩ := Option.map_eq_some_iff.mp moved
    obtain ⟨pc, -, rfl⟩ := Option.map_eq_some_iff.mp update
    cases pc with
    | control val => exact ⟨h.pending, h.idle, h.hwState, h.mode⟩
    | store val => exact ⟨h.pending, h.idle, h.hwState, rfl⟩
  | edge | suspendLate | resumeEarly gpio => cases unwatched

structure Inv (M : Modes) (s : State) : Prop where
  data : ∀ info, s.monitor = .bound info → (info = false ↔ s.silentMode < 0)
  early : s.running = none → s.monitor = .unbound ∧ s.oops = false
  set : s.running ≠ none → s.silentMode ≠ 0
  quiet : ∀ l, s.running = some l → s.silentMode < 0 → Quiet M (isSilent M s.silentMode) l
  oops : s.oops = true → s.silentMode < 0

theorem start_inv (M : Modes) : Inv M .start where
  data := fun _ h => by cases h
  early := fun _ => ⟨rfl, rfl⟩
  set := fun h => absurd rfl h
  quiet := fun _ h => by cases h
  oops := fun h => by cases h

/-- A device that is bound has its data unless the mode is forced. -/
theorem probe_data {mode : Int32} {o : Outcome} (bound : (silentModeProbe mode o).1 = 0) :
    (silentModeProbe mode o).2 = false ↔ mode < 0 := by
  unfold silentModeProbe forcedModeEnforced at bound ⊢
  by_cases forced : mode < 0
  · simp [forced]
  · cases alloc : o.infoAlloc with
    | false =>
      rw [alloc] at bound
      simp [forced, ENOMEM] at bound
    | true => simp [forced]

theorem step_inv (h : Inv M s) (hstep : step M s a = some t) : Inv M t := by
  cases step_moves hstep with
  | sets text after =>
    by_cases set : s.silentMode = 0
    · have none : s.running = none := by
        by_contra running
        exact h.set running set
      obtain ⟨unbound, calm⟩ := h.early none
      refine ⟨fun info bound => ?_, h.early, fun running => absurd none running,
        fun l running => ?_, fun fault => ?_⟩
      · rw [unbound] at bound
        cases bound
      · rw [none] at running
        cases running
      · rw [calm] at fault
        cases fault
    · have same : silentModeParamSet M s.silentMode text after = s.silentMode := if_neg set
      rw [same]
      exact ⟨h.data, h.early, h.set, h.quiet, h.oops⟩
  | inits first =>
    obtain ⟨unbound, calm⟩ := h.early first
    refine ⟨fun info bound => ?_, fun none => ?_, fun _ => ?_, fun l running _ => ?_,
      fun fault => ?_⟩
    · exact absurd (unbound.symm.trans bound) (by simp)
    · cases none
    · simp only [pmSilentmodeInit]
      split
      · exact (Int32.ne_of_lt M.nonSilent_pos).symm
      · assumption
    · obtain rfl := Option.some.inj running
      exact ⟨rfl, rfl, rfl, rfl⟩
    · exact absurd (calm.symm.trans fault) (by simp)
  | probes running unbound =>
    refine ⟨fun info bound => ?_, fun none => absurd none running, h.set, h.quiet, h.oops⟩
    simp only at bound
    split at bound
    · rename_i zero
      obtain rfl := Monitor.bound.inj bound
      exact probe_data zero
    · cases bound
  | runs running moved watched =>
    refine ⟨h.data, fun none => (by cases none), fun _ => h.set (by simp [running]), ?_, h.oops⟩
    intro l now forced
    obtain rfl := Option.some.inj now
    refine step_quiet (h.quiet _ running forced) (Bool.eq_false_iff.mpr fun needs => ?_) moved
    have data := (h.data true (watched needs)).mpr forced
    cases data
  | unnoticed unbound => exact h
  | faults missing =>
    have forced := (h.data false missing).mp rfl
    refine ⟨h.data, fun none => ?_, h.set, h.quiet, fun _ => forced⟩
    exact absurd ((h.early none).1.symm.trans missing) (by simp)

theorem run_inv {as : List Action} (run : exec (step M) .start as = some s) : Inv M s :=
  exec_invariant (fun _ _ _ h hs => step_inv h hs) (start_inv M) run

end Runs

/-- The mode that `pm_silentmode_init` stores for a forced mode. -/
def forcedMode (M : Modes) (silentMode : Int32) : Int32 :=
  if M.header.userspaceControlDisabled ≠ 0 then M.header.modeNonSilent
  else if silentMode = -M.modeSilent then 1 else 0

/-- What a forced mode means for the running system: only userspace changes it. -/
structure Enforced (M : Modes) (s : State) (l : SilentLevel.State) : Prop where
  hwState : l.mon.mode.hwState =
    if s.silentMode = -M.modeSilent then M.header.modeGpioHigh else M.header.modeGpioLow
  mode : l.mon.mode.silentModeEnable = l.mon.mode.latest.getD (forcedMode M s.silentMode)

/-- In every run from the command line on: the first setting of the parameter decides the mode
for good; a forced mode is never changed by the GPIO, only by userspace; and a device that is
bound faults when the system goes to sleep just if the mode is forced. -/
theorem forced_mode_enforced (M : Modes) (as : List Action) (s : State)
    (run : exec (step M) .start as = some s) :
    s.silentMode = decided M as ∧
      (∀ l, s.running = some l → s.silentMode < 0 → Enforced M s l) ∧
      (s.oops = true → s.silentMode < 0) ∧
      ∀ t, step M s (.run .suspendLate) = some t → s.monitor ≠ .unbound → s.oops = false →
        (t.oops = true ↔ s.silentMode < 0) := by
  have inv := run_inv run
  refine ⟨run_decided rfl run, fun l running forced => ?_, inv.oops, fun t hstep bound calm => ?_⟩
  · have quiet := inv.quiet l running forced
    have positive : s.silentMode ≠ M.modeSilent := by
      intro same
      rw [same] at forced
      exact Int32.lt_irrefl (Int32.lt_trans forced M.silent_pos)
    have forcedSilent : isSilent M s.silentMode = decide (s.silentMode = -M.modeSilent) := by
      simp [isSilent, positive]
    refine ⟨?_, ?_⟩
    · rw [quiet.hwState, forcedSilent]
      simp [SilentControl.State.init]
    · rw [quiet.mode, forcedSilent]
      simp [SilentControl.State.init, forcedMode]
  · cases step_moves hstep with
    | runs running moved watched =>
      have data := inv.data true (watched rfl)
      simp only [calm, Bool.false_eq_true, false_iff]
      exact fun forced => Bool.noConfusion (data.mpr forced)
    | unnoticed unbound => exact absurd unbound bound
    | faults missing => exact iff_of_true rfl ((inv.data false missing).mp rfl)

def someModes : Modes where
  header := { SilentControl.header with modeNonSilent := 2 }
  modeSilent := 1
  silent_pos := by decide
  nonSilent_pos := by decide
  distinct := by decide

/-- The second setting is ignored, userspace writes the mode, and the system goes to sleep. -/
def forcedBoot : List Action :=
  [.paramSet forcedsilent fun _ => nul, .paramSet nonsilent fun _ => nul, .init 1,
    .probe ⟨true, 0, true, 0, 0⟩, .run (.level 0), .run (.userUpdate 0 true 0), .run (.user 0),
    .run (.user 0), .run .suspendLate]

theorem forcedBoot_enforced : ∃ s l, exec (step someModes) .start forcedBoot = some s ∧
    s.running = some l ∧ (s.silentMode, s.oops) = (-1, true) ∧
      l.mon.mode.silentModeEnable = 0 ∧
      s.silentMode = decided someModes forcedBoot ∧
      (∀ l, s.running = some l → s.silentMode < 0 → Enforced someModes s l) ∧
      (s.oops = true → s.silentMode < 0) ∧
      ∀ t, step someModes s (.run .suspendLate) = some t → s.monitor ≠ .unbound →
        s.oops = false → (t.oops = true ↔ s.silentMode < 0) := by
  have seen : (exec (step someModes) .start forcedBoot).bind (fun s => s.running.map fun l =>
      (s.silentMode, s.oops, l.mon.mode.silentModeEnable)) = some (-1, true, 0) := by decide
  obtain ⟨s, run, there⟩ := Option.bind_eq_some_iff.mp seen
  obtain ⟨l, running, facts⟩ := Option.map_eq_some_iff.mp there
  obtain ⟨mode, rest⟩ := Prod.mk.inj facts
  obtain ⟨oops, enable⟩ := Prod.mk.inj rest
  exact ⟨s, l, run, running, by rw [mode, oops], enable,
    forced_mode_enforced someModes forcedBoot s run⟩

end SilentBoot
