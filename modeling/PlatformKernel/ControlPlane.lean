import PlatformKernel.GuardedRuns
import PlatformKernel.ReturnCodes

/-!
# Opening a file and its control ioctls

The part of the virtual fastrpc driver that decides which process may use which
DSP: device open, SETMODE, GETINFO, INIT and GET_DSP_INFO, over the channel array
shared by all files. One action is one ioctl run to completion. The outcome of
every call that leaves the driver (user copies, allocation, the reply of the back
end) is part of the action. The log is history only; no function reads it.

`channel` is the memory the channel array lies in. The entries outside
`[0, numChannels)` are whatever is stored there, since `channel[domain]` is also
read with the unset domain -1.
-/

namespace ControlPlane

open ReturnCodes

abbrev FileId := Nat

/-- Values of `adsprpc_shared.h`, which is outside the repository. The async
capability and `UNSIGNED_PD_SUPPORT` are different entries of one attribute array. -/
structure SharedIds where
  cdspDomainId : Nat
  maxDspAttributes : Nat
  maxAttributes : Nat
  asyncFastrpcCap : Nat
  async_ne_unsigned : asyncFastrpcCap ≠ 1

def cdsp1DomainId : Nat := 4
def unsignedPdSupport : Nat := 1
def perfCapability : UInt32 := 2
def fastrpcModeUnsignedModule : UInt32 := 8
def sessionIdIndex : UInt32 := 30
def initFilelenMax : Int := 2 * 1024 * 1024
def initMemlenMax : Int := 8 * 1024 * 1024

abbrev Caps := Nat → UInt32

structure ChannelCtx where
  secure : Bool
  unsignedSupport : Bool
  isCached : Bool
  dspAttributes : Caps

inductive DevMinor where
  | dev
  | secureDev
  deriving DecidableEq

inductive Pd where
  | staticPd
  | dynamicPd
  | guestOs
  deriving DecidableEq

inductive Mode where
  | parallel
  | serial
  | session
  | profile
  | unknown
  deriving DecidableEq

inductive InitFlags where
  | create
  | createStatic
  | attach
  | attachSensors
  | unknown
  deriving DecidableEq

/-- `current` as the ioctl sees it. -/
structure Process where
  pid : UInt32
  tgid : UInt32
  deriving DecidableEq

structure File where
  devMinor : DevMinor
  tgid : UInt32
  tgidOpen : UInt32
  untrustedProcess : Bool
  mode : Mode
  sessionid : Bool
  profile : Bool
  domain : Int
  procattrs : UInt32
  pd : Pd
  cid : Int
  dspProcInit : Bool
  debugBufAllocedAttempted : Bool
  deriving DecidableEq

/-- All channels are secure by default except CDSP and CDSP1. -/
def vfastrpcChannelInit (ids : SharedIds) (numChannels : UInt32)
    (memory : Int → ChannelCtx) (d : Int) : ChannelCtx :=
  if 0 ≤ d ∧ d < numChannels.toNat then
    if d = ids.cdspDomainId ∨ d = cdsp1DomainId then ⟨false, true, false, fun _ => 0⟩
    else ⟨true, false, false, fun _ => 0⟩
  else memory d

def vfastrpcFileAlloc (minor : DevMinor) (cur : Process) : File where
  devMinor := minor
  tgid := cur.tgid
  tgidOpen := cur.tgid
  untrustedProcess := false
  mode := .serial
  sessionid := false
  profile := false
  domain := -1
  procattrs := 0
  pd := .staticPd
  cid := -1
  dspProcInit := false
  debugBufAllocedAttempted := false

/-- Results of `kzalloc` for the debugfs name and of `debugfs_create_file`. -/
structure DebugOutcome where
  kzalloc : Bool
  createFile : Bool

/-- Third-party apps are detected here, and only here, by comparing the caller
with the process that opened the device. -/
def vfastrpcSetProcessInfo (debugfsRoot : Bool) (cur : Process) (out : DebugOutcome)
    (f : File) : File × Int :=
  let f := { f with
    tgid := cur.tgid
    untrustedProcess := f.untrustedProcess || decide (cur.tgid ≠ f.tgidOpen) }
  if debugfsRoot = true ∧ f.debugBufAllocedAttempted = false then
    if out.kzalloc = false then (f, -ENOMEM)
    else ({ f with debugBufAllocedAttempted := out.createFile }, 0)
  else (f, 0)

/-- The second component is the return value; `*info` is set to 1 on success. -/
def vfastrpcInternalGetInfo (numChannels : UInt32) (channel : Int → ChannelCtx)
    (debugfsRoot : Bool) (cur : Process) (out : DebugOutcome) (info : UInt32)
    (f : File) : File × Int :=
  let r := vfastrpcSetProcessInfo debugfsRoot cur out f
  if r.2 ≠ 0 then r
  else if r.1.domain = -1 then
    if info < numChannels then
      let chan := channel info.toNat
      if r.1.devMinor = .dev ∧ chan.secure = true ∧ chan.unsignedSupport = false then
        (r.1, -EACCES)
      else ({ r.1 with domain := intOfU32 info }, 0)
    else (r.1, verifyErr)
  else r

def vfastrpcSetmodeIoctl (m : Mode) (f : File) : File × Int :=
  match m with
  | .parallel => ({ f with mode := .parallel }, 0)
  | .serial => ({ f with mode := .serial }, 0)
  | .session =>
    if f.untrustedProcess then (f, -EPERM)
    else ({ f with sessionid := true, tgid := f.tgid ||| (1 <<< sessionIdIndex) }, 0)
  | .profile => ({ f with profile := true }, 0)
  | .unknown => (f, -ENOTTY)

/-- How the OPEN exchange ends: no message, a send error, or the reply. The
completion is signalled only after `rxbuf` is stored, so a reply is then there. -/
inductive OpenOutcome where
  | noMsg
  | sendError (err : Int)
  | reply (result : UInt32) (cid : Int)

def virtFastrpcOpen (out : OpenOutcome) (f : File) : File × Int :=
  match out with
  | .noMsg => (f, -ENOMEM)
  | .sendError err => (f, err)
  | .reply result cid =>
    if intOfU32 result ≠ 0 then (f, intOfU32 result)
    else if cid < 0 then (f, -EINVAL)
    else ({ f with cid := cid }, 0)

structure InitAttrs where
  flags : InitFlags
  filelen : Int
  memlen : Int
  attrs : UInt32
  deriving DecidableEq

def InitAttrs.unsignedModule (u : InitAttrs) : Bool :=
  u.attrs &&& fastrpcModeUnsignedModule != 0

/-- The two access checks that come before the switch on the init flags. -/
def initRefused (chan : ChannelCtx) (minor : DevMinor) (uproc : InitAttrs) : Bool :=
  if chan.unsignedSupport = true ∧ minor = .dev then
    chan.secure && !uproc.unsignedModule
  else !chan.unsignedSupport && uproc.unsignedModule

/-- File, return value, and whether `virt_fastrpc_open` was entered. -/
structure InitResult where
  file : File
  err : Int
  entered : Bool

def vfastrpcInternalInitProcess (channel : Int → ChannelCtx) (uproc : InitAttrs)
    (out : OpenOutcome) (f : File) : InitResult :=
  if initRefused (channel f.domain) f.devMinor uproc then ⟨f, -ECONNREFUSED, false⟩
  else match uproc.flags with
    | .create =>
      let f := { f with pd := .dynamicPd }
      if f.untrustedProcess && !uproc.unsignedModule then ⟨f, -ECONNREFUSED, false⟩
      else
        let r := virtFastrpcOpen out { f with procattrs := uproc.attrs }
        if r.2 ≠ 0 then ⟨r.1, r.2, true⟩
        else ⟨{ r.1 with dspProcInit := true }, 0, true⟩
    | .createStatic | .attach | .attachSensors => ⟨f, -ECONNREFUSED, false⟩
    | .unknown => ⟨f, -ENOTTY, false⟩

def vfastrpcInitIoctl (channel : Int → ChannelCtx) (uproc : InitAttrs)
    (out : OpenOutcome) (f : File) : InitResult :=
  if 0 ≤ uproc.filelen ∧ uproc.filelen < initFilelenMax ∧
      0 ≤ uproc.memlen ∧ uproc.memlen < initMemlenMax then
    vfastrpcInternalInitProcess channel uproc out f
  else ⟨f, verifyErr, false⟩

-- The four writes with which an uncached capability query updates its channel.

def ChannelCtx.storeCaps (chan : ChannelCtx) (caps : Caps) : ChannelCtx :=
  { chan with dspAttributes := caps }

def ChannelCtx.setUnsigned (chan : ChannelCtx) : ChannelCtx :=
  { chan with unsignedSupport := chan.dspAttributes unsignedPdSupport != 0 }

def ChannelCtx.forceAsync (ids : SharedIds) (chan : ChannelCtx) : ChannelCtx :=
  { chan with dspAttributes := Function.update chan.dspAttributes ids.asyncFastrpcCap 1 }

def ChannelCtx.setCached (chan : ChannelCtx) : ChannelCtx :=
  { chan with isCached := true }

def ChannelCtx.learn (ids : SharedIds) (chan : ChannelCtx) (caps : Caps) : ChannelCtx :=
  ((((chan.storeCaps caps).setUnsigned).forceAsync ids).setCached)

/-- PERF_LOGGING_V2_SUPPORT is the only driver capability that is set. -/
def kernelCapabilities (i : Nat) : UInt32 := if i = 0 then perfCapability else 0

structure Capability where
  domain : UInt32
  attributeId : UInt32

inductive CapOutcome where
  | noMsg
  | sendError (err : Int)
  | reply (result : UInt32) (caps : Caps)

/-- Return value of `virt_fastrpc_get_dsp_info`, and the attributes it copied. -/
def virtFastrpcGetDspInfo (out : CapOutcome) : Int × Option Caps :=
  match out with
  | .noMsg => (-ENOMEM, none)
  | .sendError err => (err, none)
  | .reply result caps =>
    if intOfU32 result ≠ 0 then (intOfU32 result, none) else (0, some caps)

structure CapResult where
  channel : Int → ChannelCtx
  err : Int
  capability : UInt32

def vfastrpcGetInfoFromKernel (ids : SharedIds) (channel : Int → ChannelCtx)
    (cap : Capability) (out : CapOutcome) : CapResult :=
  let id := cap.attributeId.toNat
  let d : Int := cap.domain.toNat
  if ids.maxAttributes ≤ id then ⟨channel, -EOVERFLOW, 0⟩
  else if ids.maxDspAttributes ≤ id then
    ⟨channel, 0, kernelCapabilities (id - ids.maxDspAttributes)⟩
  else if (channel d).isCached = false then
    match virtFastrpcGetDspInfo out with
    | (_, some caps) =>
      let chan := (channel d).learn ids caps
      ⟨Function.update channel d chan, 0, chan.dspAttributes id⟩
    | (err, none) => ⟨channel, err, 0⟩
  else ⟨channel, 0, (channel d).dspAttributes id⟩

def vfastrpcInternalGetDspInfo (ids : SharedIds) (numChannels : UInt32)
    (channel : Int → ChannelCtx) (cap : Capability) (out : CapOutcome) : CapResult :=
  if cap.domain < numChannels then vfastrpcGetInfoFromKernel ids channel cap out
  else ⟨channel, -ECHRNG, 0⟩

/-- `none` for a user argument is a faulting copy. The ioctls not listed here
(invoke, map, unmap, control) write none of the modelled fields: they are `other`. -/
inductive Ioctl where
  | setmode (m : Mode)
  | getInfo (info : Option UInt32) (out : DebugOutcome)
  | init (uproc : Option InitAttrs) (out : OpenOutcome)
  | getDspInfo (cap : Option Capability) (out : CapOutcome)
  | other

inductive Action where
  | openFile (minor : DevMinor) (cur : Process)
  | ioctl (f : FileId) (cur : Process) (c : Ioctl)
  | release (f : FileId)

/-- `enterOpen` records the file as it was when `virt_fastrpc_open` was entered;
`created` and `session` record a return value of 0 and who called. -/
inductive Event where
  | processInfo (f : FileId) (caller : UInt32)
  | enterOpen (f : FileId) (minor : DevMinor) (domain : Int) (secure : Bool)
      (uproc : InitAttrs)
  | created (f : FileId) (caller tgidOpen : UInt32) (uproc : InitAttrs)
  | session (f : FileId) (caller tgidOpen : UInt32)
  deriving DecidableEq

structure Driver where
  numChannels : UInt32
  debugfsRoot : Bool
  channel : Int → ChannelCtx
  files : FileId → Option File
  nextFile : FileId
  log : List Event

def Driver.probed (ids : SharedIds) (numChannels : UInt32) (debugfsRoot : Bool)
    (memory : Int → ChannelCtx) : Driver where
  numChannels := numChannels
  debugfsRoot := debugfsRoot
  channel := vfastrpcChannelInit ids numChannels memory
  files := fun _ => none
  nextFile := 0
  log := []

def Driver.setFile (s : Driver) (f : FileId) (x : File) (events : List Event) : Driver :=
  { s with files := Function.update s.files f (some x), log := s.log ++ events }

def initEvents (f : FileId) (cur : Process) (channel : Int → ChannelCtx) (x : File)
    (uproc : InitAttrs) (r : InitResult) : List Event :=
  (if r.entered then
    [.enterOpen f x.devMinor x.domain (channel x.domain).secure uproc] else []) ++
  (if r.err = 0 then [.created f cur.tgid x.tgidOpen uproc] else [])

def vfastrpcIoctl (ids : SharedIds) (s : Driver) (f : FileId) (cur : Process)
    (x : File) (c : Ioctl) : Driver :=
  match c with
  | .setmode m =>
    let r := vfastrpcSetmodeIoctl m x
    s.setFile f r.1 (if m = .session ∧ r.2 = 0 then [.session f cur.tgid x.tgidOpen] else [])
  | .getInfo (some info) out =>
    s.setFile f (vfastrpcInternalGetInfo s.numChannels s.channel s.debugfsRoot cur out info x).1
      [.processInfo f cur.tgid]
  | .init (some uproc) out =>
    let r := vfastrpcInitIoctl s.channel uproc out x
    s.setFile f r.file (initEvents f cur s.channel x uproc r)
  | .getDspInfo (some cap) out =>
    { s with channel := (vfastrpcInternalGetDspInfo ids s.numChannels s.channel cap out).channel }
  | .getInfo none _ | .init none _ | .getDspInfo none _ | .other => s

def step (ids : SharedIds) (s : Driver) : Action → Option Driver
  | .openFile minor cur =>
    some { s with
      files := Function.update s.files s.nextFile (some (vfastrpcFileAlloc minor cur))
      nextFile := s.nextFile + 1 }
  | .ioctl f cur c => (s.files f).map fun x => vfastrpcIoctl ids s f cur x c
  | .release f => (s.files f).map fun _ => { s with files := Function.update s.files f none }

-- What each handler leaves alone, and what it checks before it acts.

/-- Agreement on what identifies a file to the access checks. -/
def SameAccess (y x : File) : Prop :=
  y.devMinor = x.devMinor ∧ y.tgidOpen = x.tgidOpen ∧ y.domain = x.domain ∧
    y.untrustedProcess = x.untrustedProcess

theorem setProcessInfo_access (debugfsRoot : Bool) (cur : Process) (out : DebugOutcome)
    (x : File) : SameAccess (vfastrpcSetProcessInfo debugfsRoot cur out x).1
      { x with untrustedProcess := x.untrustedProcess || decide (cur.tgid ≠ x.tgidOpen) } := by
  unfold vfastrpcSetProcessInfo
  dsimp only
  split_ifs <;> exact ⟨rfl, rfl, rfl, rfl⟩

/-- GETINFO raises the untrusted flag for a foreign caller whatever else it does. -/
theorem getInfo_caller (n : UInt32) (channel : Int → ChannelCtx) (debugfsRoot : Bool)
    (cur : Process) (out : DebugOutcome) (info : UInt32) (x : File) :
    let y := (vfastrpcInternalGetInfo n channel debugfsRoot cur out info x).1
    y.devMinor = x.devMinor ∧ y.tgidOpen = x.tgidOpen ∧
      y.untrustedProcess = (x.untrustedProcess || decide (cur.tgid ≠ x.tgidOpen)) := by
  obtain ⟨hminor, hopen, -, huntrusted⟩ := setProcessInfo_access debugfsRoot cur out x
  unfold vfastrpcInternalGetInfo
  dsimp only
  split_ifs <;> exact ⟨hminor, hopen, huntrusted⟩

/-- GETINFO binds a file once, and a non-secure node only to a channel that is
not secure or supports unsigned offload. -/
theorem getInfo_domain (n : UInt32) (channel : Int → ChannelCtx) (debugfsRoot : Bool)
    (cur : Process) (out : DebugOutcome) (info : UInt32) (x : File) :
    let y := (vfastrpcInternalGetInfo n channel debugfsRoot cur out info x).1
    y.domain = x.domain ∨ (x.domain = -1 ∧ info < n ∧ y.domain = intOfU32 info ∧
      (x.devMinor = .dev → (channel info.toNat).secure = true →
        (channel info.toNat).unsignedSupport = true)) := by
  obtain ⟨hminor, -, hdomain, -⟩ := setProcessInfo_access debugfsRoot cur out x
  unfold vfastrpcInternalGetInfo
  dsimp only
  split_ifs with herr hunset hrange hdenied
  · exact Or.inl hdomain
  · exact Or.inl hdomain
  · refine Or.inr ⟨hdomain.symm.trans hunset, hrange, rfl, ?_⟩
    intro hdev hsecure
    by_contra hno
    exact hdenied ⟨hminor.trans hdev, hsecure, by simpa using hno⟩
  · exact Or.inl hdomain
  · exact Or.inl hdomain

theorem setmode_access (m : Mode) (x : File) : SameAccess (vfastrpcSetmodeIoctl m x).1 x := by
  cases m with
  | session =>
    simp only [vfastrpcSetmodeIoctl]
    split_ifs <;> exact ⟨rfl, rfl, rfl, rfl⟩
  | parallel => exact ⟨rfl, rfl, rfl, rfl⟩
  | serial => exact ⟨rfl, rfl, rfl, rfl⟩
  | profile => exact ⟨rfl, rfl, rfl, rfl⟩
  | unknown => exact ⟨rfl, rfl, rfl, rfl⟩

theorem session_trusted {x : File} (h : (vfastrpcSetmodeIoctl .session x).2 = 0) :
    x.untrustedProcess = false := by
  cases hu : x.untrustedProcess with
  | false => rfl
  | true => simp [vfastrpcSetmodeIoctl, hu, EPERM] at h

theorem open_access (out : OpenOutcome) (x : File) :
    SameAccess (virtFastrpcOpen out x).1 x := by
  cases out with
  | noMsg => exact ⟨rfl, rfl, rfl, rfl⟩
  | sendError err => exact ⟨rfl, rfl, rfl, rfl⟩
  | reply result cid =>
    simp only [virtFastrpcOpen]
    split_ifs <;> exact ⟨rfl, rfl, rfl, rfl⟩

theorem initProcess_access (channel : Int → ChannelCtx) (uproc : InitAttrs)
    (out : OpenOutcome) (x : File) :
    SameAccess (vfastrpcInternalInitProcess channel uproc out x).file x := by
  have hopen := open_access out { x with pd := .dynamicPd, procattrs := uproc.attrs }
  unfold vfastrpcInternalInitProcess
  split
  · exact ⟨rfl, rfl, rfl, rfl⟩
  · split
    · dsimp only
      split_ifs
      · exact ⟨rfl, rfl, rfl, rfl⟩
      · exact hopen
      · exact hopen
    all_goals exact ⟨rfl, rfl, rfl, rfl⟩

theorem init_access (channel : Int → ChannelCtx) (uproc : InitAttrs) (out : OpenOutcome)
    (x : File) : SameAccess (vfastrpcInitIoctl channel uproc out x).file x := by
  unfold vfastrpcInitIoctl
  split
  · exact initProcess_access channel uproc out x
  · exact ⟨rfl, rfl, rfl, rfl⟩

/-- Everything INIT has checked by the time it talks to the back end. -/
theorem initProcess_entered {channel : Int → ChannelCtx} {uproc : InitAttrs}
    {out : OpenOutcome} {x : File}
    (h : (vfastrpcInternalInitProcess channel uproc out x).entered = true) :
    initRefused (channel x.domain) x.devMinor uproc = false ∧ uproc.flags = .create ∧
      (x.untrustedProcess = true → uproc.unsignedModule = true) := by
  unfold vfastrpcInternalInitProcess at h
  split at h
  · simp at h
  · rename_i hrefused
    split at h
    · rename_i hflags
      dsimp only at h
      split at h
      · simp at h
      · rename_i hsigned
        refine ⟨by simpa using hrefused, hflags, ?_⟩
        intro hu
        by_contra hno
        exact hsigned (by simp [hu, hno])
    all_goals simp at h

theorem init_entered {channel : Int → ChannelCtx} {uproc : InitAttrs} {out : OpenOutcome}
    {x : File} (h : (vfastrpcInitIoctl channel uproc out x).entered = true) :
    initRefused (channel x.domain) x.devMinor uproc = false ∧ uproc.flags = .create ∧
      (x.untrustedProcess = true → uproc.unsignedModule = true) := by
  unfold vfastrpcInitIoctl at h
  split at h
  · exact initProcess_entered h
  · simp at h

theorem init_success_entered {channel : Int → ChannelCtx} {uproc : InitAttrs}
    {out : OpenOutcome} {x : File} (h : (vfastrpcInitIoctl channel uproc out x).err = 0) :
    (vfastrpcInitIoctl channel uproc out x).entered = true := by
  unfold vfastrpcInitIoctl vfastrpcInternalInitProcess at h ⊢
  split at h
  · rename_i hsize
    rw [if_pos hsize]
    split at h
    · simp [ECONNREFUSED] at h
    · rename_i hrefused
      rw [if_neg hrefused]
      split at h
      · dsimp only at h ⊢
        split at h
        · simp [ECONNREFUSED] at h
        · rename_i hsigned
          rw [if_neg hsigned]
          split <;> rfl
      all_goals simp [ECONNREFUSED, ENOTTY] at h
  · simp [verifyErr] at h

/-- A capability query changes at most the channel it names, and only an uncached one. -/
theorem getDspInfo_channel (ids : SharedIds) (n : UInt32) (channel : Int → ChannelCtx)
    (cap : Capability) (out : CapOutcome) (d : Int) :
    let after := (vfastrpcInternalGetDspInfo ids n channel cap out).channel d
    after = channel d ∨
      ((channel d).isCached = false ∧ ∃ caps, after = (channel d).learn ids caps) := by
  unfold vfastrpcInternalGetDspInfo vfastrpcGetInfoFromKernel
  dsimp only
  split_ifs with hrange hover hkernel hcached
  · exact Or.inl rfl
  · exact Or.inl rfl
  · cases virtFastrpcGetDspInfo out with
    | mk err got =>
      cases got with
      | none => exact Or.inl rfl
      | some caps =>
        by_cases hd : d = cap.domain.toNat
        · subst hd
          exact Or.inr ⟨hcached, caps, by simp⟩
        · exact Or.inl (by simp [hd])
  · exact Or.inl rfl
  · exact Or.inl rfl

@[simp] theorem learn_secure (ids : SharedIds) (chan : ChannelCtx) (caps : Caps) :
    (chan.learn ids caps).secure = chan.secure := rfl

@[simp] theorem learn_isCached (ids : SharedIds) (chan : ChannelCtx) (caps : Caps) :
    (chan.learn ids caps).isCached = true := rfl

end ControlPlane
