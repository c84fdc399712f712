import PlatformKernel.ControlPlane

/-!
# The commands of a file

Ten functions build the messages a file sends, each filling the header by hand, and
each handler decides for itself what it checks before it calls one. INIT is cut where
it waits for the back end, so that several of them may overlap; the other commands
write nothing the checks and the headers read, so they are one step. The response that
ends the wait is found by its message id only, so it need not be the answer to this OPEN.
The lists of sent messages, of channels the back end opened and of channel indices are
history only.
-/

namespace FileCommands

open ControlPlane ReturnCodes

/-- `VIRTIO_FASTRPC_CMD_*`. -/
inductive Cmd where
  | cmdOpen
  | cmdClose
  | cmdInvoke
  | cmdMmap
  | cmdMunmap
  | cmdControl
  | cmdGetDspInfo
  | cmdMunmapFd
  | cmdMemMap
  | cmdMemUnmap
  deriving DecidableEq

/-- The part of `struct virt_msg_hdr` that says who sends what. -/
structure Hdr where
  pid : UInt32
  tid : UInt32
  cid : Int
  cmd : Cmd
  deriving DecidableEq

def sessionBit : UInt32 := 1 <<< sessionIdIndex

/-- What eight of the ten builders have in common. -/
def sessionHdr (cid : Int) (cmd : Cmd) (x : File) (cur : Process) : Hdr where
  pid := x.tgid
  tid := if x.sessionid then cur.pid ||| sessionBit else cur.pid
  cid := cid
  cmd := cmd

def virtFastrpcOpenHdr (x : File) (cur : Process) : Hdr := sessionHdr (-1) .cmdOpen x cur
def virtFastrpcCloseHdr (x : File) (cur : Process) : Hdr := sessionHdr x.cid .cmdClose x cur
def getArgsHdr (x : File) (cur : Process) : Hdr := sessionHdr x.cid .cmdInvoke x cur
def virtFastrpcMmapHdr (x : File) (cur : Process) : Hdr := sessionHdr x.cid .cmdMmap x cur
def virtFastrpcMunmapHdr (x : File) (cur : Process) : Hdr := sessionHdr x.cid .cmdMunmap x cur
def virtFastrpcControlHdr (x : File) (cur : Process) : Hdr := sessionHdr x.cid .cmdControl x cur
def virtFastrpcGetDspInfoHdr (x : File) (cur : Process) : Hdr :=
  sessionHdr (-1) .cmdGetDspInfo x cur
def virtFastrpcMunmapFdHdr (x : File) (cur : Process) : Hdr :=
  sessionHdr x.cid .cmdMunmapFd x cur

/-- The two newer builders leave the thread as it is. -/
def virtFastrpcMemMapHdr (x : File) (cur : Process) : Hdr := ⟨x.tgid, cur.pid, x.cid, .cmdMemMap⟩
def virtFastrpcMemUnmapHdr (x : File) (cur : Process) : Hdr :=
  ⟨x.tgid, cur.pid, x.cid, .cmdMemUnmap⟩

def Cmd.hdr : Cmd → File → Process → Hdr
  | .cmdOpen => virtFastrpcOpenHdr
  | .cmdClose => virtFastrpcCloseHdr
  | .cmdInvoke => getArgsHdr
  | .cmdMmap => virtFastrpcMmapHdr
  | .cmdMunmap => virtFastrpcMunmapHdr
  | .cmdControl => virtFastrpcControlHdr
  | .cmdGetDspInfo => virtFastrpcGetDspInfoHdr
  | .cmdMunmapFd => virtFastrpcMunmapFdHdr
  | .cmdMemMap => virtFastrpcMemMapHdr
  | .cmdMemUnmap => virtFastrpcMemUnmapHdr

/-- Features negotiated with the device. -/
structure Features where
  hasMmap : Bool
  hasControl : Bool
  hasMemMap : Bool

/-- What becomes of a command after the checks of its handler: it is given up for another
reason, `vfastrpc_txbuf_send` fails, or it goes out. -/
inductive SendOutcome where
  | stopped
  | sendError
  | sent
  deriving DecidableEq

/-- The checks of the file that come before each builder. -/
def accepts (feat : Features) (numChannels : UInt32) (x : File) : Cmd → Bool
  | .cmdInvoke => decide (0 ≤ x.domain ∧ x.domain < numChannels.toNat)
  | .cmdMmap => feat.hasMmap && x.dspProcInit
  | .cmdMunmap => feat.hasMmap && x.dspProcInit
  | .cmdMunmapFd => x.dspProcInit
  | .cmdMemMap => feat.hasMemMap && x.dspProcInit
  | .cmdMemUnmap => feat.hasMemMap && x.dspProcInit
  | .cmdControl => feat.hasControl
  -- these have handlers of their own below
  | .cmdOpen => false
  | .cmdClose => false
  | .cmdGetDspInfo => false

def initLengths (uproc : InitAttrs) : Bool :=
  decide (0 ≤ uproc.filelen ∧ uproc.filelen < initFilelenMax ∧
    0 ≤ uproc.memlen ∧ uproc.memlen < initMemlenMax)

/-- `vfastrpc_init_ioctl` up to `virt_fastrpc_open`; an error if it does not get there. -/
def initBegin (channel : Int → ChannelCtx) (uproc : InitAttrs) (x : File) : File × Option Int :=
  if initLengths uproc then
    if initRefused (channel x.domain) x.devMinor uproc then (x, some (-ECONNREFUSED))
    else match uproc.flags with
      | .create =>
        let x := { x with pd := .dynamicPd }
        if x.untrustedProcess && !uproc.unsignedModule then (x, some (-ECONNREFUSED))
        else ({ x with procattrs := uproc.attrs }, none)
      | .createStatic | .attach | .attachSensors => (x, some (-ECONNREFUSED))
      | .unknown => (x, some (-ENOTTY))
  else (x, some verifyErr)

/-- The rest of it, once `virt_fastrpc_open` has its answer. -/
def initEnd (result : UInt32) (cid : Int) (x : File) : File × Int :=
  let r := virtFastrpcOpen (.reply result cid) x
  if r.2 ≠ 0 then r else ({ r.1 with dspProcInit := true }, 0)

/-- The two halves make up the ioctl that is run to completion. -/
theorem initIoctl_eq (channel : Int → ChannelCtx) (uproc : InitAttrs) (result : UInt32)
    (cid : Int) (x : File) :
    vfastrpcInitIoctl channel uproc (.reply result cid) x =
      match initBegin channel uproc x with
      | (y, none) => ⟨(initEnd result cid y).1, (initEnd result cid y).2, true⟩
      | (y, some err) => ⟨y, err, false⟩ := by
  unfold vfastrpcInitIoctl vfastrpcInternalInitProcess initBegin initLengths initEnd
  by_cases hsize : 0 ≤ uproc.filelen ∧ uproc.filelen < initFilelenMax ∧
      0 ≤ uproc.memlen ∧ uproc.memlen < initMemlenMax
  · simp only [if_pos hsize, decide_eq_true hsize, if_true]
    split
    · rfl
    · cases uproc.flags with
      | create =>
        dsimp only
        split
        · rfl
        · dsimp only
          split <;> rfl
      | createStatic => rfl
      | attach => rfl
      | attachSensors => rfl
      | unknown => rfl
  · simp only [if_neg hsize, decide_eq_false hsize]
    rfl

inductive Invoke2Req where
  | async
  | asyncResponse
  | other
  deriving DecidableEq

structure Sent where
  file : FileId
  hdr : Hdr
  deriving DecidableEq

/-- `waiting` lists the files with an OPEN that waits for a response, `strayed` those with an
OPEN that ended with the response to another message. -/
structure State where
  drv : Driver
  waiting : List FileId
  strayed : List FileId
  sent : List Sent
  opened : List (FileId × Int)
  indices : List Int

def State.probed (ids : SharedIds) (numChannels : UInt32) (debugfsRoot : Bool)
    (memory : Int → ChannelCtx) : State where
  drv := .probed ids numChannels debugfsRoot memory
  waiting := []
  strayed := []
  sent := []
  opened := []
  indices := []

def State.post (s : State) (f : FileId) (out : SendOutcome) (h : Hdr) : State :=
  if out = .sent then { s with sent := s.sent ++ [⟨f, h⟩] } else s

/-- The back end opened the channel `cid`. -/
def Granted (result : UInt32) (cid : Int) : Prop := result = 0 ∧ 0 ≤ cid

instance (result : UInt32) (cid : Int) : Decidable (Granted result cid) :=
  inferInstanceAs (Decidable (_ ∧ _))

/-- `own` says that the response is the answer of the back end to this OPEN. After a response
that is not, the answer is still to come. -/
inductive Action where
  | openFile (minor : DevMinor) (cur : Process)
  | control (f : FileId) (cur : Process) (c : Ioctl)
  | initBegin (f : FileId) (cur : Process) (uproc : InitAttrs) (out : SendOutcome)
  | initEnd (f : FileId) (own : Bool) (result : UInt32) (cid : Int)
  | strayAnswer (f : FileId) (result : UInt32) (cid : Int)
  | command (f : FileId) (cur : Process) (cmd : Cmd) (out : SendOutcome)
  | invoke2 (f : FileId) (cur : Process) (req : Invoke2Req) (out : SendOutcome)
  | release (f : FileId) (cur : Process) (out : SendOutcome)

/-- Channel entries GETINFO and GET_DSP_INFO look at. -/
def ioctlIndices (ids : SharedIds) (s : Driver) (cur : Process) (x : File) : Ioctl → List Int
  | .getInfo (some info) out =>
    let r := vfastrpcSetProcessInfo s.debugfsRoot cur out x
    if r.2 = 0 ∧ r.1.domain = -1 ∧ info < s.numChannels then [(info.toNat : Int)] else []
  | .getDspInfo (some cap) _ =>
    if cap.domain < s.numChannels ∧ cap.attributeId.toNat < ids.maxAttributes then
      [(cap.domain.toNat : Int)] else []
  | _ => []

/-- The message of an uncached capability query. -/
def ioctlSent (ids : SharedIds) (s : Driver) (cur : Process) (x : File) : Ioctl → List Hdr
  | .getDspInfo (some cap) (.reply _ _) =>
    if cap.domain < s.numChannels ∧ cap.attributeId.toNat < ids.maxAttributes ∧
        cap.attributeId.toNat < ids.maxDspAttributes ∧
        (s.channel cap.domain.toNat).isCached = false then
      [virtFastrpcGetDspInfoHdr x cur] else []
  | _ => []

/-- `init_process` takes the channel of the file whether or not there is one. -/
def initIndices (uproc : InitAttrs) (x : File) : List Int :=
  if initLengths uproc then [x.domain] else []

def asyncDomain (ids : SharedIds) (x : File) : Bool :=
  x.domain == ids.cdspDomainId || x.domain == cdsp1DomainId

def invoke2Indices (ids : SharedIds) (x : File) (req : Invoke2Req) : List Int :=
  if req ≠ .other ∧ asyncDomain ids x then [x.domain] else []

/-- INVOKE2 goes on to `vfastrpc_internal_invoke` for an asynchronous request. -/
def invoke2Accepts (ids : SharedIds) (feat : Features) (s : Driver) (x : File)
    (req : Invoke2Req) : Bool :=
  req == .async && asyncDomain ids x &&
    (s.channel x.domain).dspAttributes ids.asyncFastrpcCap == 1 &&
    accepts feat s.numChannels x .cmdInvoke

def isInit : Ioctl → Bool
  | .init _ _ => true
  | _ => false

/-- The message of `vfastrpc_file_free`. -/
def closeSent (x : File) (cur : Process) (f : FileId) (out : SendOutcome) : List Sent :=
  if x.dspProcInit ∧ 0 ≤ x.cid ∧ out = .sent then [⟨f, virtFastrpcCloseHdr x cur⟩] else []

def step (ids : SharedIds) (feat : Features) (s : State) : Action → Option State
  | .openFile minor cur =>
    some { s with drv := { s.drv with
      files := Function.update s.drv.files s.drv.nextFile (some (vfastrpcFileAlloc minor cur))
      nextFile := s.drv.nextFile + 1 } }
  | .control f cur c =>
    if isInit c then none
    else (s.drv.files f).map fun x => { s with
      drv := vfastrpcIoctl ids s.drv f cur x c
      sent := s.sent ++ (ioctlSent ids s.drv cur x c).map (Sent.mk f)
      indices := s.indices ++ ioctlIndices ids s.drv cur x c }
  | .initBegin f cur uproc out =>
    (s.drv.files f).map fun x =>
      let r := initBegin s.drv.channel uproc x
      let s := { s with
        drv := s.drv.setFile f r.1 []
        indices := s.indices ++ initIndices uproc x }
      if r.2 = none ∧ out = .sent then
        { s with
          sent := s.sent ++ [⟨f, virtFastrpcOpenHdr r.1 cur⟩]
          waiting := f :: s.waiting }
      else s
  | .initEnd f own result cid =>
    if f ∈ s.waiting then
      (s.drv.files f).map fun x => { s with
        drv := s.drv.setFile f (initEnd result cid x).1 []
        waiting := s.waiting.erase f
        strayed := if own then s.strayed else f :: s.strayed
        opened := if own ∧ Granted result cid then (f, cid) :: s.opened else s.opened }
    else none
  | .strayAnswer f result cid =>
    if f ∈ s.strayed then
      some { s with
        strayed := s.strayed.erase f
        opened := if Granted result cid then (f, cid) :: s.opened else s.opened }
    else none
  | .command f cur cmd out =>
    (s.drv.files f).map fun x =>
      if accepts feat s.drv.numChannels x cmd then s.post f out (cmd.hdr x cur) else s
  | .invoke2 f cur req out =>
    (s.drv.files f).map fun x =>
      let t := { s with indices := s.indices ++ invoke2Indices ids x req }
      if invoke2Accepts ids feat s.drv x req then t.post f out (getArgsHdr x cur) else t
  | .release f cur out =>
    if f ∈ s.waiting then none
    else (s.drv.files f).map fun x => { s with
      drv := { s.drv with files := Function.update s.drv.files f none }
      sent := s.sent ++ closeSent x cur f out }

/-- Agreement on what the checks and the headers read. -/
structure SameSender (y x : File) : Prop where
  domain : y.domain = x.domain
  cid : y.cid = x.cid
  dspProcInit : y.dspProcInit = x.dspProcInit
  sessionid : y.sessionid = x.sessionid
  tgid : y.tgid = x.tgid

theorem SameSender.refl (x : File) : SameSender x x := ⟨rfl, rfl, rfl, rfl, rfl⟩

theorem initBegin_sender (channel : Int → ChannelCtx) (uproc : InitAttrs) (x : File) :
    SameSender (initBegin channel uproc x).1 x := by
  unfold initBegin
  split
  · split
    · exact SameSender.refl x
    · split
      · dsimp only
        split <;> exact ⟨rfl, rfl, rfl, rfl, rfl⟩
      all_goals exact SameSender.refl x
  · exact SameSender.refl x

theorem initEnd_cases (result : UInt32) (cid : Int) (x : File) :
    ¬ Granted result cid ∧ (initEnd result cid x).1 = x ∨
      Granted result cid ∧
        (initEnd result cid x).1 = { x with cid := cid, dspProcInit := true } := by
  rw [Granted, ← intOfU32_eq_zero]
  unfold initEnd virtFastrpcOpen
  dsimp only
  by_cases hresult : intOfU32 result = 0
  · by_cases hcid : cid < 0
    · simp [hresult, hcid, Int.not_le.mpr hcid, EINVAL]
    · simp [hresult, hcid, Int.not_lt.mp hcid]
  · simp [hresult]

theorem setmode_cases (m : Mode) (x : File) :
    SameSender (vfastrpcSetmodeIoctl m x).1 x ∧ (m = .session → (vfastrpcSetmodeIoctl m x).2 ≠ 0) ∨
      m = .session ∧ (vfastrpcSetmodeIoctl m x).1 =
        { x with sessionid := true, tgid := x.tgid ||| sessionBit } := by
  cases m with
  | session =>
    unfold vfastrpcSetmodeIoctl
    dsimp only
    split
    · exact Or.inl ⟨SameSender.refl x, fun _ => by simp [EPERM]⟩
    · exact Or.inr ⟨rfl, rfl⟩
  | parallel => exact Or.inl ⟨⟨rfl, rfl, rfl, rfl, rfl⟩, fun h => by cases h⟩
  | serial => exact Or.inl ⟨⟨rfl, rfl, rfl, rfl, rfl⟩, fun h => by cases h⟩
  | profile => exact Or.inl ⟨⟨rfl, rfl, rfl, rfl, rfl⟩, fun h => by cases h⟩
  | unknown => exact Or.inl ⟨SameSender.refl x, fun h => by cases h⟩

/-- GETINFO forgets the session bit of `tgid`. -/
theorem getInfo_sender (n : UInt32) (channel : Int → ChannelCtx) (debugfsRoot : Bool)
    (cur : Process) (out : DebugOutcome) (info : UInt32) (x : File) :
    let y := (vfastrpcInternalGetInfo n channel debugfsRoot cur out info x).1
    y.cid = x.cid ∧ y.dspProcInit = x.dspProcInit ∧ y.sessionid = x.sessionid ∧
      y.tgid = cur.tgid := by
  unfold vfastrpcInternalGetInfo vfastrpcSetProcessInfo
  dsimp only
  split_ifs <;> exact ⟨rfl, rfl, rfl, rfl⟩

/-- The file after an ioctl other than INIT. -/
inductive Turned (s : Driver) (cur : Process) (x : File) : Ioctl → File → Prop where
  | setmode (m : Mode) : Turned s cur x (.setmode m) (vfastrpcSetmodeIoctl m x).1
  | getInfo (info : UInt32) (out : DebugOutcome) : Turned s cur x (.getInfo (some info) out)
      (vfastrpcInternalGetInfo s.numChannels s.channel s.debugfsRoot cur out info x).1
  | same {c : Ioctl} (mode : ∀ m, c ≠ .setmode m) : Turned s cur x c x

/-- The step of a driver that changes file `f` to `y`. -/
structure Drives (s t : Driver) (f : FileId) (y : File) : Prop where
  files : t.files = Function.update s.files f (some y)
  numChannels : t.numChannels = s.numChannels
  nextFile : t.nextFile = s.nextFile

theorem drives_setFile (s : Driver) (f : FileId) (y : File) (events : List Event) :
    Drives s (s.setFile f y events) f y := ⟨rfl, rfl, rfl⟩

theorem ioctl_drives (ids : SharedIds) {s : Driver} {f : FileId} {x : File} (cur : Process)
    {c : Ioctl} (file : s.files f = some x) (kind : isInit c = false) :
    ∃ y, Drives s (vfastrpcIoctl ids s f cur x c) f y ∧ Turned s cur x c y := by
  have same : s.files = Function.update s.files f (some x) := by
    rw [← file, Function.update_eq_self]
  cases c with
  | setmode m => exact ⟨_, drives_setFile s f _ _, .setmode m⟩
  | getInfo info out =>
    cases info with
    | none => exact ⟨x, ⟨same, rfl, rfl⟩, .same fun m h => by cases h⟩
    | some info => exact ⟨_, drives_setFile s f _ _, .getInfo info out⟩
  | init uproc out => cases kind
  | getDspInfo cap out =>
    cases cap with
    | none => exact ⟨x, ⟨same, rfl, rfl⟩, .same fun m h => by cases h⟩
    | some cap => exact ⟨x, ⟨same, rfl, rfl⟩, .same fun m h => by cases h⟩
  | other => exact ⟨x, ⟨same, rfl, rfl⟩, .same fun m h => by cases h⟩

/-- What holds of every file after one of them changed. -/
theorem files_forall {files : FileId → Option File} {f : FileId} {y : File}
    {P : FileId → File → Prop} (hy : P f y) (h : ∀ g x, files g = some x → P g x) :
    ∀ g x, Function.update files f (some y) g = some x → P g x := by
  intro g x hg
  rw [Function.update_apply] at hg
  split_ifs at hg with hgf
  · subst hgf
    exact Option.some.inj hg ▸ hy
  · exact h g x hg

theorem files_released {files : FileId → Option File} {f : FileId} {P : FileId → File → Prop}
    (h : ∀ g x, files g = some x → P g x) :
    ∀ g x, Function.update files f none g = some x → P g x := by
  intro g x hg
  rw [Function.update_apply] at hg
  split_ifs at hg
  exact h g x hg

end FileCommands
