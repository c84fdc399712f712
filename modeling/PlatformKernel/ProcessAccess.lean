import PlatformKernel.ControlPlane

/-!
# Which process gets which protection domain

Two properties of whole ioctl sequences. A non-secure node never starts a signed
process on a secure channel: `unsigned_support` of a secure channel changes at
most once, and GETINFO binds the file only after that change. A process that did
not open the device gets neither a signed PD nor a second session, provided the
file has seen GETINFO from a foreign process before; without that it does.
-/

namespace ProcessAccess

open GuardedRuns ControlPlane ReturnCodes

variable {ids : SharedIds}

section SecureChannels

/-- A file of the non-secure node is bound only to channels it may use. -/
def BoundOk (s : Driver) (x : File) : Prop :=
  x.devMinor = .dev → 0 ≤ x.domain →
    x.domain < s.numChannels.toNat ∧
      ((s.channel x.domain).secure = true → (s.channel x.domain).unsignedSupport = true)

def EventOk (e : Event) : Prop :=
  ∀ f d uproc, e = .enterOpen f .dev d true uproc → 0 ≤ d → uproc.unsignedModule = true

/-- `learned` is why `unsigned_support` never goes back: once a secure channel
has it, the channel is cached and no query writes it again. -/
structure Gate (s : Driver) : Prop where
  learned : ∀ d : Int, 0 ≤ d → d < s.numChannels.toNat → (s.channel d).secure = true →
    (s.channel d).unsignedSupport = true → (s.channel d).isCached = true
  bound : ∀ f x, s.files f = some x → BoundOk s x
  opened : ∀ e ∈ s.log, EventOk e

theorem probed_gate (numChannels : UInt32) (debugfsRoot : Bool) (memory : Int → ChannelCtx) :
    Gate (Driver.probed ids numChannels debugfsRoot memory) where
  learned := by
    intro d hlo hhi hsecure hunsigned
    simp only [Driver.probed, vfastrpcChannelInit] at hhi hsecure hunsigned
    rw [if_pos ⟨hlo, hhi⟩] at hsecure hunsigned
    split_ifs at hsecure hunsigned
  bound := by intro f x h; cases h
  opened := by intro e he; cases he

theorem boundOk_of_sameAccess {s : Driver} {x y : File} (same : SameAccess y x)
    (h : BoundOk s x) : BoundOk s y := by
  obtain ⟨hminor, -, hdomain, -⟩ := same
  unfold BoundOk at h ⊢
  rwa [hminor, hdomain]

theorem gate_setFile {s : Driver} (h : Gate s) (f : FileId) {y : File} {events : List Event}
    (hbound : BoundOk s y) (hevents : ∀ e ∈ events, EventOk e) :
    Gate (s.setFile f y events) where
  learned := h.learned
  bound := by
    intro g x hx
    change Function.update s.files f (some y) g = some x at hx
    change BoundOk s x
    by_cases hg : g = f
    · subst hg
      rw [Function.update_self] at hx
      exact Option.some.inj hx ▸ hbound
    · rw [Function.update_of_ne hg] at hx
      exact h.bound g x hx
  opened := by
    intro e he
    rcases List.mem_append.mp he with old | new
    · exact h.opened e old
    · exact hevents e new

theorem getInfo_boundOk {s : Driver} {x : File} (h : BoundOk s x) (cur : Process)
    (out : DebugOutcome) (info : UInt32) :
    BoundOk s (vfastrpcInternalGetInfo s.numChannels s.channel s.debugfsRoot cur out info x).1 := by
  obtain ⟨hminor, -, -⟩ :=
    getInfo_caller s.numChannels s.channel s.debugfsRoot cur out info x
  intro hdev hlo
  rw [hminor] at hdev
  rcases getInfo_domain s.numChannels s.channel s.debugfsRoot cur out info x with
    same | ⟨-, hrange, hdomain, hallowed⟩
  · rw [same] at hlo ⊢
    exact h hdev hlo
  · rw [hdomain] at hlo ⊢
    rw [intOfU32_of_nonneg hlo]
    refine ⟨?_, hallowed hdev⟩
    exact_mod_cast UInt32.lt_iff_toNat_lt.mp hrange

/-- The non-secure node reaches `virt_fastrpc_open` on a secure channel that
supports unsigned offload only with the unsigned attribute. -/
theorem entered_unsigned {s : Driver} {x : File} {uproc : InitAttrs} {out : OpenOutcome}
    (h : BoundOk s x) (hdev : x.devMinor = .dev) (hlo : 0 ≤ x.domain)
    (hsecure : (s.channel x.domain).secure = true)
    (entered : (vfastrpcInitIoctl s.channel uproc out x).entered = true) :
    uproc.unsignedModule = true := by
  obtain ⟨hpassed, -, -⟩ := init_entered entered
  have hunsigned := (h hdev hlo).2 hsecure
  simpa [initRefused, hunsigned, hdev, hsecure] using hpassed

theorem init_events_ok {s : Driver} {x : File} {uproc : InitAttrs} {out : OpenOutcome}
    (f : FileId) (cur : Process) (h : BoundOk s x) :
    ∀ e ∈ initEvents f cur s.channel x uproc (vfastrpcInitIoctl s.channel uproc out x),
      EventOk e := by
  intro e he
  rintro g d u rfl hlo
  rcases List.mem_append.mp he with hopen | hcreated
  · split_ifs at hopen with entered
    · obtain ⟨-, hdev, hdomain, hsecure, rfl⟩ := by simpa using hopen
      subst hdomain
      exact entered_unsigned h hdev.symm hlo hsecure entered
    · cases hopen
  · split_ifs at hcreated <;> simp at hcreated

theorem gate_getDspInfo {s : Driver} (h : Gate s) (cap : Capability) (out : CapOutcome) :
    Gate { s with channel :=
      (vfastrpcInternalGetDspInfo ids s.numChannels s.channel cap out).channel } where
  learned := by
    intro d hlo hhi hsecure hunsigned
    rcases getDspInfo_channel ids s.numChannels s.channel cap out d with same | ⟨-, caps, new⟩
    · simp only [same] at hsecure hunsigned ⊢
      exact h.learned d hlo hhi hsecure hunsigned
    · simp only [new, learn_isCached]
  bound := by
    intro f x hx hdev hlo
    obtain ⟨hhi, hunsigned⟩ := h.bound f x hx hdev hlo
    refine ⟨hhi, ?_⟩
    intro hsecure
    rcases getDspInfo_channel ids s.numChannels s.channel cap out x.domain with
      same | ⟨fresh, caps, new⟩
    · simp only [same] at hsecure ⊢
      exact hunsigned hsecure
    · simp only [new, learn_secure] at hsecure
      have cached := h.learned x.domain hlo hhi hsecure (hunsigned hsecure)
      rw [fresh] at cached
      cases cached
  opened := h.opened

theorem gate_ioctl {s : Driver} (h : Gate s) {f : FileId} {x : File} (old : s.files f = some x)
    (cur : Process) (c : Ioctl) : Gate (vfastrpcIoctl ids s f cur x c) := by
  have hx := h.bound f x old
  cases c with
  | setmode m =>
    refine gate_setFile h f (boundOk_of_sameAccess (setmode_access m x) hx) ?_
    intro e he
    split_ifs at he
    · rintro g d u rfl
      simp at he
    · cases he
  | getInfo info out =>
    cases info with
    | none => exact h
    | some info =>
      refine gate_setFile h f (getInfo_boundOk hx cur out info) ?_
      intro e he g d u heq
      rw [heq] at he
      simp at he
  | init uproc out =>
    cases uproc with
    | none => exact h
    | some uproc =>
      exact gate_setFile h f (boundOk_of_sameAccess (init_access s.channel uproc out x) hx)
        (init_events_ok f cur hx)
  | getDspInfo cap out =>
    cases cap with
    | none => exact h
    | some cap => exact gate_getDspInfo h cap out
  | other => exact h

theorem gate_files {s : Driver} (h : Gate s) {files : FileId → Option File} (next : FileId)
    (hfiles : ∀ f x, files f = some x → s.files f = some x ∨ x.domain = -1) :
    Gate { s with files := files, nextFile := next } where
  learned := h.learned
  bound := by
    intro f x hx
    rcases hfiles f x hx with old | unset
    · exact h.bound f x old
    · intro _ hlo
      rw [unset] at hlo
      omega
  opened := h.opened

theorem step_gate {s t : Driver} {a : Action} (h : Gate s) (hstep : step ids s a = some t) :
    Gate t := by
  cases a with
  | openFile minor cur =>
    obtain rfl := Option.some.inj hstep
    refine gate_files h (s.nextFile + 1) ?_
    intro f x hx
    by_cases hf : f = s.nextFile
    · subst hf
      rw [Function.update_self] at hx
      exact Or.inr (Option.some.inj hx ▸ rfl)
    · exact Or.inl (by rwa [Function.update_of_ne hf] at hx)
  | ioctl f cur c =>
    obtain ⟨x, old, rfl⟩ := Option.map_eq_some_iff.mp hstep
    exact gate_ioctl h old cur c
  | release f =>
    obtain ⟨x, old, rfl⟩ := Option.map_eq_some_iff.mp hstep
    refine gate_files h s.nextFile ?_
    intro g y hy
    by_cases hg : g = f
    · subst hg
      rw [Function.update_self] at hy
      cases hy
    · exact Or.inl (by rwa [Function.update_of_ne hg] at hy)

/-- Every OPEN attempt of a run: through the non-secure node, on a channel that is
secure, only with `FASTRPC_MODE_UNSIGNED_MODULE`. -/
theorem nonsecure_open_unsigned (ids : SharedIds) (numChannels : UInt32) (debugfsRoot : Bool)
    (memory : Int → ChannelCtx) (as : List Action) (s : Driver)
    (run : exec (step ids) (Driver.probed ids numChannels debugfsRoot memory) as = some s)
    (f : FileId) (d : Int) (uproc : InitAttrs) (bound : 0 ≤ d)
    (entered : .enterOpen f .dev d true uproc ∈ s.log) :
    uproc.attrs &&& fastrpcModeUnsignedModule ≠ 0 := by
  have gate : Gate s := exec_invariant (fun _ _ _ hi hs => step_gate hi hs)
    (probed_gate numChannels debugfsRoot memory) run
  have unsigned := gate.opened _ entered f d uproc rfl bound
  simpa [InitAttrs.unsignedModule] using unsigned

/-- The values of the kernel header, for runs on fixed inputs. -/
def headerIds : SharedIds := ⟨3, 256, 260, 9, by decide⟩

def zeroMemory : Int → ChannelCtx := fun _ => ⟨false, false, false, fun _ => 0⟩

/-- The capability query makes secure channel 0 support unsigned offload; after it
GETINFO binds the non-secure file to channel 0 and an unsigned INIT goes through. -/
def unsignedRun : List Action :=
  [.openFile .dev ⟨100, 100⟩,
    .ioctl 0 ⟨100, 100⟩ (.getDspInfo (some ⟨0, 1⟩) (.reply 0 fun _ => 1)),
    .ioctl 0 ⟨100, 100⟩ (.getInfo (some 0) ⟨true, true⟩),
    .ioctl 0 ⟨100, 100⟩ (.init (some ⟨.create, 0, 0, 8⟩) (.reply 0 5))]

theorem unsignedRun_opens :
    (∃ s, exec (step headerIds) (Driver.probed headerIds 4 false zeroMemory) unsignedRun = some s ∧
      .enterOpen 0 .dev 0 true ⟨.create, 0, 0, 8⟩ ∈ s.log) ∧
    (8 : UInt32) &&& fastrpcModeUnsignedModule ≠ 0 :=
  ⟨⟨_, rfl, by decide⟩,
    nonsecure_open_unsigned headerIds 4 false zeroMemory unsignedRun _ rfl 0 0 ⟨.create, 0, 0, 8⟩
      (by decide) (by decide)⟩

end SecureChannels

section ForeignProcesses

/-- Requests that only the process that opened the file may make. -/
def AsksPrivilege : Ioctl → Prop
  | .setmode m => m = .session
  | .init (some uproc) _ => uproc.flags = .create ∧ uproc.unsignedModule = false
  | _ => False

/-- Some process other than the opener has issued GETINFO on the file. -/
def Announced (s : Driver) (f : FileId) (opener : UInt32) : Prop :=
  ∃ caller, .processInfo f caller ∈ s.log ∧ caller ≠ opener

/-- A foreign process asks for a privilege only on a file that is announced. -/
def ForeignAnnounced (s : Driver) : Action → Prop
  | .ioctl f cur c => ∀ x, s.files f = some x → cur.tgid ≠ x.tgidOpen → AsksPrivilege c →
      Announced s f x.tgidOpen
  | _ => True

def GrantOk : Event → Prop
  | .created _ caller opener uproc => uproc.unsignedModule = false → caller = opener
  | .session _ caller opener => caller = opener
  | _ => True

structure Watch (s : Driver) : Prop where
  flagged : ∀ f x, s.files f = some x → Announced s f x.tgidOpen → x.untrustedProcess = true
  known : ∀ f x, s.files f = some x → f < s.nextFile
  past : ∀ f caller, .processInfo f caller ∈ s.log → f < s.nextFile
  granted : ∀ e ∈ s.log, GrantOk e

theorem probed_watch (numChannels : UInt32) (debugfsRoot : Bool) (memory : Int → ChannelCtx) :
    Watch (Driver.probed ids numChannels debugfsRoot memory) where
  flagged := by intro f x h; cases h
  known := by intro f x h; cases h
  past := by intro f caller h; cases h
  granted := by intro e h; cases h

theorem announced_setFile {s : Driver} {f g : FileId} {y : File} {events : List Event}
    {opener : UInt32} (h : Announced (s.setFile f y events) g opener) :
    Announced s g opener ∨ ∃ caller, .processInfo g caller ∈ events ∧ caller ≠ opener := by
  obtain ⟨caller, hmem, hne⟩ := h
  rcases List.mem_append.mp hmem with old | new
  · exact Or.inl ⟨caller, old, hne⟩
  · exact Or.inr ⟨caller, new, hne⟩

/-- A handler keeps the watch if it keeps the opener, never lowers the flag, raises
it when it announces a foreign caller, and grants only what it may. -/
theorem watch_setFile {s : Driver} (h : Watch s) {f : FileId} {x y : File}
    {events : List Event} (old : s.files f = some x) (hopener : y.tgidOpen = x.tgidOpen)
    (hflag : x.untrustedProcess = true → y.untrustedProcess = true)
    (hraise : ∀ g caller, .processInfo g caller ∈ events →
      g = f ∧ (caller ≠ x.tgidOpen → y.untrustedProcess = true))
    (hgrant : ∀ e ∈ events, GrantOk e) : Watch (s.setFile f y events) where
  flagged := by
    intro g z hz hann
    change Function.update s.files f (some y) g = some z at hz
    by_cases hg : g = f
    · subst hg
      rw [Function.update_self] at hz
      obtain rfl := Option.some.inj hz
      rw [hopener] at hann
      rcases announced_setFile hann with before | ⟨caller, hmem, hne⟩
      · exact hflag (h.flagged g x old before)
      · exact (hraise g caller hmem).2 hne
    · rw [Function.update_of_ne hg] at hz
      rcases announced_setFile hann with before | ⟨caller, hmem, -⟩
      · exact h.flagged g z hz before
      · exact False.elim (hg (hraise g caller hmem).1)
  known := by
    intro g z hz
    change Function.update s.files f (some y) g = some z at hz
    by_cases hg : g = f
    · exact hg ▸ h.known f x old
    · rw [Function.update_of_ne hg] at hz
      exact h.known g z hz
  past := by
    intro g caller hmem
    rcases List.mem_append.mp hmem with before | new
    · exact h.past g caller before
    · exact (hraise g caller new).1 ▸ h.known f x old
  granted := by
    intro e he
    rcases List.mem_append.mp he with before | new
    · exact h.granted e before
    · exact hgrant e new

/-- With the condition, an unflagged file is asked for privileges by its opener only. -/
theorem caller_is_opener {s : Driver} (h : Watch s) {f : FileId} {x : File}
    (old : s.files f = some x) {cur : Process} {c : Ioctl}
    (ok : ForeignAnnounced s (.ioctl f cur c)) (asks : AsksPrivilege c)
    (trusted : x.untrustedProcess = false) : cur.tgid = x.tgidOpen := by
  by_contra hne
  have flagged := h.flagged f x old (ok x old hne asks)
  rw [trusted] at flagged
  cases flagged

theorem watch_setmode {s : Driver} (h : Watch s) {f : FileId} {x : File}
    (old : s.files f = some x) (cur : Process) (m : Mode)
    (ok : ForeignAnnounced s (.ioctl f cur (.setmode m))) :
    Watch (vfastrpcIoctl ids s f cur x (.setmode m)) := by
  obtain ⟨-, hopener, -, huntrusted⟩ := setmode_access m x
  refine watch_setFile h old hopener (fun hu => huntrusted.trans hu) ?_ ?_
  · intro g caller hmem
    split_ifs at hmem <;> simp at hmem
  · intro e he
    split_ifs at he with hsession
    · obtain rfl := List.mem_singleton.mp he
      obtain ⟨rfl, hzero⟩ := hsession
      exact caller_is_opener h old ok rfl (session_trusted hzero)
    · cases he

theorem watch_getInfo {s : Driver} (h : Watch s) {f : FileId} {x : File}
    (old : s.files f = some x) (cur : Process) (info : UInt32) (out : DebugOutcome) :
    Watch (vfastrpcIoctl ids s f cur x (.getInfo (some info) out)) := by
  obtain ⟨-, hopener, huntrusted⟩ :=
    getInfo_caller s.numChannels s.channel s.debugfsRoot cur out info x
  refine watch_setFile h old hopener (fun hu => by rw [huntrusted, hu]; rfl) ?_ ?_
  · intro g caller hmem
    obtain ⟨rfl, rfl⟩ := by simpa using hmem
    exact ⟨rfl, fun hne => by rw [huntrusted]; simp [hne]⟩
  · intro e he
    obtain rfl := List.mem_singleton.mp he
    exact trivial

theorem watch_init {s : Driver} (h : Watch s) {f : FileId} {x : File}
    (old : s.files f = some x) (cur : Process) (uproc : InitAttrs) (out : OpenOutcome)
    (ok : ForeignAnnounced s (.ioctl f cur (.init (some uproc) out))) :
    Watch (vfastrpcIoctl ids s f cur x (.init (some uproc) out)) := by
  obtain ⟨-, hopener, -, huntrusted⟩ := init_access s.channel uproc out x
  refine watch_setFile h old hopener (fun hu => huntrusted.trans hu) ?_ ?_
  · intro g caller hmem
    rcases List.mem_append.mp hmem with hmem | hmem <;>
      split_ifs at hmem <;> simp at hmem
  · intro e he
    rcases List.mem_append.mp he with hopen | hcreated
    · split_ifs at hopen
      · obtain rfl := List.mem_singleton.mp hopen
        exact trivial
      · cases hopen
    · split_ifs at hcreated with hzero
      · obtain rfl := List.mem_singleton.mp hcreated
        intro hsigned
        obtain ⟨-, hflags, htrusted⟩ := init_entered (init_success_entered hzero)
        refine caller_is_opener h old ok ⟨hflags, hsigned⟩ ?_
        by_contra hu
        have unsigned := htrusted (by simpa using hu)
        rw [hsigned] at unsigned
        cases unsigned
      · cases hcreated

theorem step_watch {s t : Driver} {a : Action} (h : Watch s) (ok : ForeignAnnounced s a)
    (hstep : step ids s a = some t) : Watch t := by
  cases a with
  | openFile minor cur =>
    obtain rfl := Option.some.inj hstep
    refine ⟨?_, ?_, fun f caller hm => Nat.lt_succ_of_lt (h.past f caller hm), h.granted⟩
    · intro f x hx hann
      by_cases hf : f = s.nextFile
      · obtain ⟨caller, hmem, -⟩ := hann
        exact False.elim (Nat.lt_irrefl _ (hf ▸ h.past f caller hmem))
      · simp only [Function.update_of_ne hf] at hx
        exact h.flagged f x hx hann
    · intro f x hx
      by_cases hf : f = s.nextFile
      · exact hf ▸ Nat.lt_succ_self _
      · simp only [Function.update_of_ne hf] at hx
        exact Nat.lt_succ_of_lt (h.known f x hx)
  | ioctl f cur c =>
    obtain ⟨x, old, rfl⟩ := Option.map_eq_some_iff.mp hstep
    cases c with
    | setmode m => exact watch_setmode h old cur m ok
    | getInfo info out =>
      cases info with
      | none => exact h
      | some info => exact watch_getInfo h old cur info out
    | init uproc out =>
      cases uproc with
      | none => exact h
      | some uproc => exact watch_init h old cur uproc out ok
    | getDspInfo cap out =>
      cases cap with
      | none => exact h
      | some cap => exact ⟨h.flagged, h.known, h.past, h.granted⟩
    | other => exact h
  | release f =>
    obtain ⟨x, old, rfl⟩ := Option.map_eq_some_iff.mp hstep
    refine ⟨?_, ?_, h.past, h.granted⟩
    · intro g y hy hann
      by_cases hg : g = f
      · simp [hg] at hy
      · simp only [Function.update_of_ne hg] at hy
        exact h.flagged g y hy hann
    · intro g y hy
      by_cases hg : g = f
      · simp [hg] at hy
      · simp only [Function.update_of_ne hg] at hy
        exact h.known g y hy

/-- In every run in which foreign processes ask for privileges only after the file
is announced, each signed PD and each second session went to the opener. -/
theorem privileges_to_opener (ids : SharedIds) (numChannels : UInt32) (debugfsRoot : Bool)
    (memory : Int → ChannelCtx) (as : List Action) (s : Driver)
    (along : Along (step ids) ForeignAnnounced
      (Driver.probed ids numChannels debugfsRoot memory) as)
    (run : exec (step ids) (Driver.probed ids numChannels debugfsRoot memory) as = some s) :
    (∀ f caller opener uproc, .created f caller opener uproc ∈ s.log →
      uproc.attrs &&& fastrpcModeUnsignedModule = 0 → caller = opener) ∧
    (∀ f caller opener, .session f caller opener ∈ s.log → caller = opener) := by
  have watch : Watch s := exec_invariant_along ForeignAnnounced
    (fun _ _ _ hi ok hs => step_watch hi ok hs)
    (probed_watch numChannels debugfsRoot memory) along run
  constructor
  · intro f caller opener uproc hmem hsigned
    exact watch.granted _ hmem (by simp [InitAttrs.unsignedModule, hsigned])
  · intro f caller opener hmem
    exact watch.granted _ hmem

/-- A run that meets the condition: the app announces itself by GETINFO, is then
refused a second session, and the opener still gets a signed PD. -/
def announcedRun : List Action :=
  [.openFile .secureDev ⟨100, 100⟩,
    .ioctl 0 ⟨100, 100⟩ (.setmode .session),
    .ioctl 0 ⟨200, 200⟩ (.getInfo (some 3) ⟨true, true⟩),
    .ioctl 0 ⟨200, 200⟩ (.setmode .session)]

theorem announcedRun_meets : Along (step headerIds) ForeignAnnounced
    (Driver.probed headerIds 4 false zeroMemory) announcedRun := by
  refine ⟨trivial, fun t ht => ?_⟩
  obtain rfl := Option.some.inj ht
  refine ⟨fun x hx hne _ => ?_, fun t ht => ?_⟩
  · obtain rfl := Option.some.inj hx
    exact False.elim (hne rfl)
  obtain rfl := Option.some.inj ht
  refine ⟨fun x hx hne asks => False.elim asks, fun t ht => ?_⟩
  obtain rfl := Option.some.inj ht
  refine ⟨fun x hx hne _ => ?_, fun _ _ => trivial⟩
  obtain rfl := Option.some.inj hx
  exact ⟨200, by decide, by decide⟩

theorem announcedRun_sessions :
    (∃ s, exec (step headerIds) (Driver.probed headerIds 4 false zeroMemory) announcedRun = some s ∧
      .session 0 100 100 ∈ s.log) ∧ (100 : UInt32) = 100 :=
  ⟨⟨_, rfl, by decide⟩,
    (privileges_to_opener headerIds 4 false zeroMemory announcedRun _ announcedRun_meets rfl).2
      0 100 100 (by decide)⟩

/-- Process 100 opens and binds the file; process 200 never calls GETINFO. -/
def unannouncedRun : List Action :=
  [.openFile .dev ⟨100, 100⟩,
    .ioctl 0 ⟨100, 100⟩ (.getInfo (some 3) ⟨true, true⟩),
    .ioctl 0 ⟨200, 200⟩ (.setmode .session),
    .ioctl 0 ⟨200, 200⟩ (.init (some ⟨.create, 0, 0, 0⟩) (.reply 0 5))]

/-- Both grants go to process 200, although process 100 opened the file. -/
theorem foreign_process_privileged :
    ∃ s, exec (step headerIds) (Driver.probed headerIds 4 false zeroMemory) unannouncedRun =
        some s ∧
      .session 0 200 100 ∈ s.log ∧ .created 0 200 100 ⟨.create, 0, 0, 0⟩ ∈ s.log ∧
      (0 : UInt32) &&& fastrpcModeUnsignedModule = 0 ∧ (200 : UInt32) ≠ 100 :=
  ⟨_, rfl, by decide, by decide, by decide, by decide⟩

end ForeignProcesses

end ProcessAccess
