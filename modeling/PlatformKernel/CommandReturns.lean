import PlatformKernel.FileCommands
import PlatformKernel.ProcessAccess
import PlatformKernel.UnmapCalls
import PlatformKernel.InvokeResume

/-!
# Return values of the ioctls that ask the back end

Each handler carries its error through `VERIFY`, `goto bail` and its callees in its own
way: some pass on the result of the back end, some only keep that there was an error, and
CONTROL keeps nothing. A request is given here together with all that may happen to it,
copies, allocations, sending, interruption and the response, and the state is any state.
The response that ends a wait is found by its message id only, so whether it is the answer
to the message is part of what may happen.
MMAP_64 and MUNMAP_64 only copy their fields to MMAP and MUNMAP and are the same here.
-/

namespace CommandReturns

open FileMaps UnmapCalls ReturnCodes
open FileOperations (MmapArgs bufAlloc internalMmap internalMunmap internalMemMap internalMemUnmap
  adspMmapAddPages unmappable Tid savedOf)
open ControlPlane (SharedIds ChannelCtx InitAttrs OpenOutcome CapOutcome Capability Caps
  vfastrpcInitIoctl vfastrpcInternalGetDspInfo virtFastrpcOpen)

/-- A command sent with `vfastrpc_txbuf_send`, whose errors are those of
`virtqueue_add_outbuf`, and awaited without interruption. `routed` says that the response is
the answer of the back end to this command. -/
inductive Exchange where
  | noMsg
  | sendError (err : Int) (neg : err < 0)
  | reply (result : UInt32) (routed : Bool)

def Exchange.err : Exchange → Int
  | .noMsg => -ENOMEM
  | .sendError err _ => err
  | .reply result _ => intOfU32 result

def Exchange.replied : Exchange → Option UInt32
  | .reply result _ => some result
  | _ => none

def Exchange.routed : Exchange → Bool
  | .reply _ routed => routed
  | _ => true

/-- The return value, the result in the response if there was one, and whether that was the
answer to a message sent for this request. -/
structure Outcome where
  ret : Int
  reply : Option UInt32
  own : Bool
  deriving DecidableEq

/-- Nothing was sent. -/
def Outcome.refused (err : Int) : Outcome := ⟨err, none, true⟩

/-- `err = f()`. -/
def Exchange.direct (ex : Exchange) : Outcome := ⟨ex.err, ex.replied, ex.routed⟩

/-- `VERIFY(err, 0 == f())`. -/
def verify (err : Int) : Int := if err = 0 then 0 else verifyErr

def Exchange.verified (ex : Exchange) : Outcome := ⟨verify ex.err, ex.replied, ex.routed⟩

/-- `K_COPY_TO_USER` after a success. -/
def Outcome.copied (o : Outcome) (copy : Bool) : Outcome :=
  if o.ret = 0 ∧ copy = false then { o with ret := verifyErr } else o

/-- Whether `kzalloc` and the pages of `vfastrpc_buf_alloc` are there. -/
structure PagesOutcome where
  kzalloc : Bool
  pages : Bool

def PagesOutcome.ok (p : PagesOutcome) : Bool := p.kzalloc && p.pages

def bufAllocErr (size : UInt64) (p : PagesOutcome) : Int :=
  if size = 0 ∨ p.kzalloc = false then verifyErr else -ENOMEM

def vfastrpcInternalMmap (k : Uapi) (s : FileOperations.File) (ud : MmapArgs) (dma : DmaOutcome)
    (pages : PagesOutcome) (ex : Exchange) : Outcome :=
  if s.dspProcInit = false then .refused (-EBADR)
  else if ud.flags = adspMmapAddPages then
    if ud.vaddrin ≠ 0 then .refused (-EINVAL)
    else
      match bufAlloc s ud.size ud.flags true pages.ok with
      | none => .refused (bufAllocErr ud.size pages)
      | some _ => ex.direct
  else
    match mmapCreate k s.maps ⟨ud.fd, 0, ud.vaddrin, ud.size, ud.flags⟩ dma with
    | (.error _, _) => .refused verifyErr
    | (.ok _, _) => ex.verified

def vfastrpcInternalMunmap (k : Uapi) (s : FileOperations.File) (vaddrout size : UInt64)
    (ex : Exchange) : Outcome :=
  if s.dspProcInit = false then .refused (-EBADR)
  else
    match s.remoteBufs.find? fun b => (s.bufs b).raddr != 0 &&
        (s.bufs b).flags == adspMmapAddPages && (s.bufs b).raddr == vaddrout &&
        (s.bufs b).size == size with
    | some _ => ex.verified
    | none =>
      match mmapRemove k s.maps (-1) vaddrout size with
      | .error _ => .refused verifyErr
      | .ok _ => ex.verified

/-- Before the process is initialised this returns `EBADR`, not `-EBADR`. -/
def vfastrpcInternalMemMap (k : Uapi) (s : FileOperations.File) (req : MapRequest)
    (dma : DmaOutcome) (ex : Exchange) : Outcome :=
  if s.dspProcInit = false then .refused EBADR
  else
    match mmapCreate k s.maps req dma with
    | (.error _, _) => .refused verifyErr
    | (.ok id, maps) => if (maps.mem id).raddr ≠ 0 then .refused (-EEXIST) else ex.direct

def vfastrpcInternalMemUnmap (k : Uapi) (s : FileOperations.File) (fd : Int)
    (vaddr length : UInt64) (ex : Exchange) : Outcome :=
  if s.dspProcInit = false then .refused EBADR
  else
    match mmapRemove k s.maps fd vaddr length with
    | .error _ => .refused verifyErr
    | .ok (id, maps) => if unmappable k (maps.mem id) then ex.direct else .refused (-EBADMSG)

/-- How `virt_fastrpc_munmap_fd` ends. -/
inductive FdWait where
  | exchange (ex : Exchange)
  | interrupted (saved : Bool)

def FdWait.err : FdWait → Int
  | .exchange ex => ex.err
  | .interrupted saved => if saved then 0 else verifyErr

def FdWait.replied : FdWait → Option UInt32
  | .exchange ex => ex.replied
  | .interrupted _ => none

def FdWait.routed : FdWait → Bool
  | .exchange ex => ex.routed
  | .interrupted _ => true

def vfastrpcInternalMunmapFd (k : Uapi) (s : FileOperations.File) (tid : Tid) (fd : Int)
    (wait : FdWait) : Outcome :=
  if s.dspProcInit = false then .refused (-EBADR)
  else
    match s.cmds.find? fun cmd => cmd.tid == tid with
    | some _ => ⟨wait.err, wait.replied, false⟩
    | none =>
      let r := mmapRemoveFd k s.maps fd
      if r.2.1 = 0 then .refused r.1
      else ⟨if wait.err ≠ 0 then wait.err else r.1, wait.replied, wait.routed⟩

/-- FASTRPC_CONTROL_LATENCY: the result of `virt_fastrpc_control` is dropped. -/
def vfastrpcInternalControl (hasControl : Bool) (ex : Exchange) : Outcome :=
  if hasControl = false then .refused (-ENOTTY) else ⟨0, ex.replied, ex.routed⟩

def Exchange.toOpen (cid : Int) : Exchange → OpenOutcome
  | .noMsg => .noMsg
  | .sendError err _ => .sendError err
  | .reply result _ => .reply result cid

def Exchange.toCap (caps : Caps) : Exchange → CapOutcome
  | .noMsg => .noMsg
  | .sendError err _ => .sendError err
  | .reply result _ => .reply result caps

/-- Outcomes of an invoke after its checks. -/
inductive InvokeEnd where
  | allocFailed
  | argsFailed
  | sendFailed
  | interrupted
  | answered (result : UInt32) (copied routed : Bool)

def InvokeEnd.routed : InvokeEnd → Bool
  | .answered _ _ routed => routed
  | _ => true

/-- `fresh` says that the message waited for was sent by this call. -/
def InvokeEnd.outcome (fresh : Bool) : InvokeEnd → Outcome
  | .allocFailed => .refused verifyErr
  | .argsFailed => .refused verifyErr
  | .sendFailed => .refused verifyErr
  | .interrupted => .refused (-ERESTARTSYS)
  | .answered result copied routed =>
    ⟨if intOfU32 result = 0 ∧ copied then 0 else verifyErr, some result, fresh && routed⟩

structure InvokeArgs where
  pid : Tid
  handle : UInt32
  sc : UInt32
  hasAttrs : Bool
  hasCrc : Bool

/-- What the handlers read of the device. -/
structure Device where
  ids : SharedIds
  numChannels : UInt32
  channel : Int → ChannelCtx
  feat : FileCommands.Features
  hasInvokeAttr : Bool
  hasInvokeCrc : Bool
  kernelHandle : UInt32

/-- `fileClose` is set while the file is released. -/
structure State where
  ctl : ControlPlane.File
  file : FileOperations.File
  fileClose : Bool

def checkInvokeSupported (d : Device) (inv : InvokeArgs) : Int :=
  if inv.hasAttrs ∧ d.hasInvokeAttr = false then -ENOTTY
  else if inv.hasCrc ∧ d.hasInvokeCrc = false then -ENOTTY
  else 0

def vfastrpcInternalInvoke (d : Device) (s : State) (inv : InvokeArgs) (last : InvokeEnd) :
    Outcome :=
  if inv.handle = d.kernelHandle then .refused verifyErr
  else if ¬ (0 ≤ s.ctl.domain ∧ s.ctl.domain < d.numChannels.toNat) then .refused (-EBADR)
  else
    match savedOf s.file inv.pid with
    | some c => if (s.file.ctxs c).sc ≠ inv.sc then .refused verifyErr else last.outcome false
    | none => last.outcome true

inductive Ioctl where
  | init (uproc : InitAttrs) (ex : Exchange) (cid : Int)
  | mmap (ud : MmapArgs) (dma : DmaOutcome) (pages : PagesOutcome) (ex : Exchange)
  | munmap (vaddrout size : UInt64) (ex : Exchange)
  | munmapFd (tid : Tid) (fd : Int) (wait : FdWait)
  | memMap (req : MapRequest) (dma : DmaOutcome) (ex : Exchange)
  | memUnmap (fd : Int) (vaddr length : UInt64) (ex : Exchange)
  | controlLatency (ex : Exchange)
  | getDspInfo (cap : Capability) (ex : Exchange) (caps : Caps)
  | invoke (inv : InvokeArgs) (last : InvokeEnd)

/-- A capability query that goes to the back end. -/
def uncached (d : Device) (cap : Capability) : Bool :=
  decide (cap.domain < d.numChannels) && decide (cap.attributeId.toNat < d.ids.maxAttributes) &&
    decide (cap.attributeId.toNat < d.ids.maxDspAttributes) &&
    !(d.channel cap.domain.toNat).isCached

/-- The features an ioctl needs, checked before anything is read from the user. -/
def supported (d : Device) : Ioctl → Bool
  | .mmap _ _ _ _ => d.feat.hasMmap
  | .munmap _ _ _ => d.feat.hasMmap
  | .memMap _ _ _ => d.feat.hasMemMap
  | .memUnmap _ _ _ _ => d.feat.hasMemMap
  | _ => true

def internal (k : Uapi) (d : Device) (s : State) (copyOut : Bool) : Ioctl → Outcome
  | .init uproc ex cid =>
    let r := vfastrpcInitIoctl d.channel uproc (ex.toOpen cid) s.ctl
    if r.entered then ⟨r.err, ex.replied, ex.routed⟩ else .refused r.err
  | .mmap ud dma pages ex => (vfastrpcInternalMmap k s.file ud dma pages ex).copied copyOut
  | .munmap vaddrout size ex => vfastrpcInternalMunmap k s.file vaddrout size ex
  | .munmapFd tid fd wait => vfastrpcInternalMunmapFd k s.file tid fd wait
  | .memMap req dma ex => (vfastrpcInternalMemMap k s.file req dma ex).copied copyOut
  | .memUnmap fd vaddr length ex => vfastrpcInternalMemUnmap k s.file fd vaddr length ex
  | .controlLatency ex => vfastrpcInternalControl d.feat.hasControl ex
  | .getDspInfo cap ex caps =>
    let r := vfastrpcInternalGetDspInfo d.ids d.numChannels d.channel cap (ex.toCap caps)
    Outcome.copied
      (if uncached d cap then ⟨r.err, ex.replied, ex.routed⟩ else .refused r.err) copyOut
  | .invoke inv last =>
    if checkInvokeSupported d inv ≠ 0 then .refused (checkInvokeSupported d inv)
    else vfastrpcInternalInvoke d s inv last

/-- `vfastrpc_ioctl`, with the copies from and to the user. -/
def run (k : Uapi) (d : Device) (s : State) (copyIn copyOut : Bool) (c : Ioctl) : Outcome :=
  if s.fileClose then .refused (-EBADF)
  else if supported d c = false then .refused (-ENOTTY)
  else if copyIn = false then .refused verifyErr
  else internal k d s copyOut c

section waits

variable {k : Uapi} {s : FileOperations.File} {ex : Exchange}

theorem mmap_waits {ud : MmapArgs} {dma : DmaOutcome} {pages : PagesOutcome}
    (h : (vfastrpcInternalMmap k s ud dma pages ex).reply ≠ none) :
    s.dspProcInit = true ∧ (internalMmap k s ud dma pages.ok).op ≠ none := by
  unfold vfastrpcInternalMmap at h
  unfold internalMmap
  split at h
  · exact False.elim (h rfl)
  rename_i hinit
  refine ⟨by simpa using hinit, ?_⟩
  split at h
  · rename_i hflags
    rw [if_pos hflags]
    split at h
    · exact False.elim (h rfl)
    · rename_i hva
      rw [if_neg hva]
      split at h
      · exact False.elim (h rfl)
      · rename_i hsome
        rw [hsome]
        exact fun e => by cases e
  · rename_i hflags
    rw [if_neg hflags]
    split at h
    · exact False.elim (h rfl)
    · rename_i hok
      rw [hok]
      exact fun e => by cases e

theorem munmap_waits {vaddrout size : UInt64}
    (h : (vfastrpcInternalMunmap k s vaddrout size ex).reply ≠ none) :
    s.dspProcInit = true ∧ (internalMunmap k s vaddrout size).op ≠ none := by
  unfold vfastrpcInternalMunmap at h
  unfold internalMunmap
  split at h
  · exact False.elim (h rfl)
  rename_i hinit
  refine ⟨by simpa using hinit, ?_⟩
  generalize s.remoteBufs.find? _ = found at h ⊢
  cases found with
  | some b => exact fun e => by cases e
  | none =>
    dsimp only at h ⊢
    split at h
    · exact False.elim (h rfl)
    · rename_i hok
      rw [hok]
      exact fun e => by cases e

theorem memMap_waits {req : MapRequest} {dma : DmaOutcome}
    (h : (vfastrpcInternalMemMap k s req dma ex).reply ≠ none) :
    s.dspProcInit = true ∧ (internalMemMap k s req dma).op ≠ none := by
  unfold vfastrpcInternalMemMap at h
  unfold internalMemMap
  split at h
  · exact False.elim (h rfl)
  rename_i hinit
  refine ⟨by simpa using hinit, ?_⟩
  split at h
  · exact False.elim (h rfl)
  · rename_i hok
    rw [hok]
    exact fun e => by cases e

theorem memUnmap_waits {fd : Int} {vaddr length : UInt64}
    (h : (vfastrpcInternalMemUnmap k s fd vaddr length ex).reply ≠ none) :
    s.dspProcInit = true ∧ (internalMemUnmap k s fd vaddr length).op ≠ none := by
  unfold vfastrpcInternalMemUnmap at h
  unfold internalMemUnmap
  split at h
  · exact False.elim (h rfl)
  rename_i hinit
  refine ⟨by simpa using hinit, ?_⟩
  split at h
  · exact False.elim (h rfl)
  · rename_i hok
    rw [hok]
    exact fun e => by cases e

end waits

/-- A return of 0 stands for the result 0 in the response to a message of this request; it is
the answer to that message if `routed`. -/
def Sound (routed : Bool) (o : Outcome) : Prop := o.ret = 0 → o.reply = some 0 ∧ o.own = routed

/-- An error that is not the back end's is negative. -/
def Negative (o : Outcome) : Prop := o.ret ≠ 0 → (∀ r ∈ o.reply, r = 0) → o.ret < 0

structure Honest (routed : Bool) (o : Outcome) : Prop where
  sound : Sound routed o
  negative : Negative o

section outcomes

variable {ex : Exchange} {routed : Bool}

theorem refused_negative {err : Int} (nonpos : err ≤ 0) : Negative (.refused err) :=
  fun hne _ => lt_of_le_of_ne nonpos hne

theorem refused_honest {err : Int} (neg : err < 0) : Honest routed (.refused err) where
  sound := fun hzero => by
    rw [show err = 0 from hzero] at neg
    exact False.elim (Int.lt_irrefl 0 neg)
  negative := refused_negative (Int.le_of_lt neg)

theorem err_zero (h : ex.err = 0) : ex.replied = some 0 := by
  cases ex with
  | noMsg => cases h
  | sendError err neg =>
    rw [show err = 0 from h] at neg
    exact False.elim (Int.lt_irrefl 0 neg)
  | reply result routed => exact congrArg some (intOfU32_eq_zero.mp h)

theorem err_negative (h : ex.err ≠ 0) (own : ∀ r ∈ ex.replied, r = 0) : ex.err < 0 := by
  cases ex with
  | noMsg => decide
  | sendError err neg => exact neg
  | reply result routed =>
    obtain rfl := own result rfl
    exact False.elim (h rfl)

theorem direct_honest (ex : Exchange) : Honest ex.routed ex.direct :=
  ⟨fun hzero => ⟨err_zero hzero, rfl⟩, err_negative⟩

theorem verifyErr_neg : verifyErr < 0 := by decide

theorem verify_cases (err : Int) : verify err = 0 ∧ err = 0 ∨ verify err = verifyErr := by
  unfold verify
  split_ifs with h
  · exact Or.inl ⟨rfl, h⟩
  · exact Or.inr rfl

theorem verified_honest (ex : Exchange) : Honest ex.routed ex.verified := by
  unfold Exchange.verified
  rcases verify_cases ex.err with ⟨hverify, herr⟩ | hverify
  · rw [hverify]
    exact ⟨fun _ => ⟨err_zero herr, rfl⟩, fun hne => False.elim (hne rfl)⟩
  · rw [hverify]
    exact ⟨fun hzero => (by cases hzero), fun _ _ => verifyErr_neg⟩

theorem copied_sound {o : Outcome} (h : Sound routed o) (copy : Bool) :
    Sound routed (o.copied copy) := by
  unfold Outcome.copied
  split_ifs
  · exact fun hzero => by cases hzero
  · exact h

theorem copied_negative {o : Outcome} (h : Negative o) (copy : Bool) :
    Negative (o.copied copy) := by
  unfold Outcome.copied
  split_ifs
  · exact fun _ _ => verifyErr_neg
  · exact h

end outcomes

section handlers

variable {k : Uapi} {d : Device} {s : State} {ex : Exchange}

theorem mmap_honest (file : FileOperations.File) (ud : MmapArgs) (dma : DmaOutcome)
    (pages : PagesOutcome) (ex : Exchange) :
    Honest ex.routed (vfastrpcInternalMmap k file ud dma pages ex) := by
  unfold vfastrpcInternalMmap
  split
  · exact refused_honest (by decide)
  split
  · split
    · exact refused_honest (by decide)
    split
    · refine refused_honest ?_
      unfold bufAllocErr
      split_ifs <;> decide
    · exact direct_honest ex
  · split
    · exact refused_honest (by decide)
    · exact verified_honest ex

theorem munmap_honest (file : FileOperations.File) (vaddrout size : UInt64) (ex : Exchange) :
    Honest ex.routed (vfastrpcInternalMunmap k file vaddrout size ex) := by
  unfold vfastrpcInternalMunmap
  split
  · exact refused_honest (by decide)
  split
  · exact verified_honest ex
  split
  · exact refused_honest (by decide)
  · exact verified_honest ex

/-- A return of `EBADR` is not 0 either. -/
theorem uninitialised_sound {routed : Bool} : Sound routed (.refused EBADR) := fun hzero => by
  cases hzero

theorem memMap_sound (file : FileOperations.File) (req : MapRequest) (dma : DmaOutcome)
    (ex : Exchange) : Sound ex.routed (vfastrpcInternalMemMap k file req dma ex) ∧
      (file.dspProcInit = true → Negative (vfastrpcInternalMemMap k file req dma ex)) := by
  have after : ∀ o : Outcome, Honest ex.routed o →
      Sound ex.routed o ∧ (file.dspProcInit = true → Negative o) :=
    fun o h => ⟨h.sound, fun _ => h.negative⟩
  unfold vfastrpcInternalMemMap
  split
  · rename_i hinit
    exact ⟨uninitialised_sound, fun h => by rw [hinit] at h; cases h⟩
  split
  · exact after _ (refused_honest (by decide))
  split
  · exact after _ (refused_honest (by decide))
  · exact after _ (direct_honest ex)

theorem memUnmap_sound (file : FileOperations.File) (fd : Int) (vaddr length : UInt64)
    (ex : Exchange) : Sound ex.routed (vfastrpcInternalMemUnmap k file fd vaddr length ex) ∧
      (file.dspProcInit = true →
        Negative (vfastrpcInternalMemUnmap k file fd vaddr length ex)) := by
  have after : ∀ o : Outcome, Honest ex.routed o →
      Sound ex.routed o ∧ (file.dspProcInit = true → Negative o) :=
    fun o h => ⟨h.sound, fun _ => h.negative⟩
  unfold vfastrpcInternalMemUnmap
  split
  · rename_i hinit
    exact ⟨uninitialised_sound, fun h => by rw [hinit] at h; cases h⟩
  split
  · exact after _ (refused_honest (by decide))
  split
  · exact after _ (direct_honest ex)
  · exact after _ (refused_honest (by decide))

theorem removeFdLoop_err_nonpos (fd : Int) (ids : List MapId) (maps : Maps) (err : Int)
    (entries : Nat) (h : err ≤ 0) : (removeFdLoop k fd ids err entries maps).1 ≤ 0 := by
  induction ids generalizing maps err entries with
  | nil => exact h
  | cons id rest ih =>
    unfold removeFdLoop
    dsimp only
    split
    · refine ih _ _ _ ?_
      split_ifs
      · decide
      · exact h
    · exact ih _ _ _ h

theorem wait_negative {wait : FdWait} (h : wait.err ≠ 0) (own : ∀ r ∈ wait.replied, r = 0) :
    wait.err < 0 := by
  cases wait with
  | exchange ex => exact err_negative h own
  | interrupted saved =>
    cases saved with
    | true => exact False.elim (h rfl)
    | false => exact verifyErr_neg

theorem munmapFd_negative (file : FileOperations.File) (tid : Tid) (fd : Int) (wait : FdWait) :
    Negative (vfastrpcInternalMunmapFd k file tid fd wait) := by
  have nonpos := removeFdLoop_err_nonpos (k := k) fd file.maps.linked file.maps 0 0 (Int.le_refl 0)
  unfold vfastrpcInternalMunmapFd
  split
  · exact refused_negative (by decide)
  split
  · exact wait_negative
  dsimp only
  split
  · exact refused_negative nonpos
  · intro hne own
    dsimp only at hne own ⊢
    split_ifs at hne ⊢ with herr
    · exact wait_negative herr own
    · exact lt_of_le_of_ne nonpos hne

/-- A MUNMAP_FD that is not interrupted and resumes nothing. -/
theorem munmapFd_sound {file : FileOperations.File} {tid : Tid} {fd : Int} {wait : FdWait}
    (fresh : (file.cmds.find? fun cmd => cmd.tid == tid) = none)
    (waited : wait ≠ .interrupted true)
    (hzero : (vfastrpcInternalMunmapFd k file tid fd wait).ret = 0) :
    (vfastrpcInternalMunmapFd k file tid fd wait).reply = some 0 ∧
        (vfastrpcInternalMunmapFd k file tid fd wait).own = wait.routed ∨
      keptMaps k file.maps fd = [] ∧
        (vfastrpcInternalMunmapFd k file tid fd wait).reply = none := by
  unfold vfastrpcInternalMunmapFd at hzero ⊢
  rw [fresh] at hzero ⊢
  split at hzero
  · cases hzero
  rename_i hinit
  rw [if_neg hinit]
  dsimp only at hzero ⊢
  split at hzero
  · rename_i hentries
    rw [if_pos hentries]
    exact Or.inr ⟨removeFd_entries.mp hentries, rfl⟩
  · rename_i hentries
    rw [if_neg hentries]
    dsimp only at hzero ⊢
    split_ifs at hzero with herr
    · exact False.elim (herr hzero)
    · have hwait : wait.err = 0 := not_not.mp herr
      cases wait with
      | exchange ex => exact Or.inl ⟨err_zero hwait, rfl⟩
      | interrupted saved =>
        cases saved with
        | true => exact False.elim (waited rfl)
        | false => cases hwait

theorem open_honest (ex : Exchange) (cid : Int) (x : ControlPlane.File) :
    Honest ex.routed ⟨(virtFastrpcOpen (ex.toOpen cid) x).2, ex.replied, ex.routed⟩ := by
  cases ex with
  | noMsg => exact direct_honest .noMsg
  | sendError err neg => exact direct_honest (.sendError err neg)
  | reply result routed =>
    simp only [Exchange.toOpen, virtFastrpcOpen]
    split_ifs with hresult hcid
    · exact direct_honest (.reply result routed)
    · exact ⟨fun hzero => (by cases hzero), fun _ _ => (by decide : (-EINVAL) < 0)⟩
    · exact ⟨fun _ => ⟨congrArg some (intOfU32_eq_zero.mp (not_not.mp hresult)), rfl⟩,
        fun hne => False.elim (hne rfl)⟩

theorem init_honest (channel : Int → ChannelCtx) (uproc : InitAttrs) (ex : Exchange) (cid : Int)
    (x : ControlPlane.File) :
    let r := vfastrpcInitIoctl channel uproc (ex.toOpen cid) x
    Honest ex.routed (if r.entered then ⟨r.err, ex.replied, ex.routed⟩ else .refused r.err) := by
  unfold vfastrpcInitIoctl ControlPlane.vfastrpcInternalInitProcess
  split
  · split
    · exact refused_honest (Int.negSucc_lt_zero _)
    split
    · dsimp only
      split
      · exact refused_honest (Int.negSucc_lt_zero _)
      · generalize hx : ({ x with pd := .dynamicPd, procattrs := uproc.attrs } :
          ControlPlane.File) = y
        have opened := open_honest ex cid y
        split
        · exact opened
        · rename_i herr
          have hzero : (virtFastrpcOpen (ex.toOpen cid) y).2 = 0 := not_not.mp herr
          rw [hzero] at opened
          exact opened
    all_goals exact refused_honest (Int.negSucc_lt_zero _)
  · exact refused_honest (Int.negSucc_lt_zero _)

theorem dspInfo_err (d : Device) (cap : Capability) (ex : Exchange) (caps : Caps) :
    let r := vfastrpcInternalGetDspInfo d.ids d.numChannels d.channel cap (ex.toCap caps)
    uncached d cap = true ∧ r.err = ex.err ∨ uncached d cap = false ∧ r.err ≤ 0 := by
  unfold vfastrpcInternalGetDspInfo ControlPlane.vfastrpcGetInfoFromKernel uncached
  dsimp only
  split_ifs with hdomain hover hkernel hcached
  · exact Or.inr ⟨by simp [Nat.not_lt.mpr hover], Int.le_of_lt (Int.negSucc_lt_zero _)⟩
  · exact Or.inr ⟨by simp [Nat.not_lt.mpr hkernel], Int.le_refl 0⟩
  · refine Or.inl ⟨by simp [hdomain, Nat.lt_of_not_le hover, Nat.lt_of_not_le hkernel, hcached], ?_⟩
    cases ex with
    | noMsg => rfl
    | sendError err neg => rfl
    | reply result routed =>
      simp only [Exchange.toCap, ControlPlane.virtFastrpcGetDspInfo]
      split_ifs with hresult
      · rfl
      · exact (not_not.mp hresult).symm
  · exact Or.inr ⟨by simp [hcached], Int.le_refl 0⟩
  · exact Or.inr ⟨by simp [hdomain], Int.le_of_lt (Int.negSucc_lt_zero _)⟩

theorem dspInfo_outcome (d : Device) (cap : Capability) (ex : Exchange) (caps : Caps) :
    let r := vfastrpcInternalGetDspInfo d.ids d.numChannels d.channel cap (ex.toCap caps)
    let o := if uncached d cap then ⟨r.err, ex.replied, ex.routed⟩ else Outcome.refused r.err
    (uncached d cap = true → Sound ex.routed o) ∧ Negative o := by
  dsimp only
  rcases dspInfo_err d cap ex caps with ⟨hask, herr⟩ | ⟨hask, herr⟩
  · rw [hask, herr]
    exact ⟨fun _ => (direct_honest ex).sound, (direct_honest ex).negative⟩
  · rw [hask]
    exact ⟨fun h => (by cases h), refused_negative herr⟩

theorem invokeEnd_negative (last : InvokeEnd) (fresh : Bool) :
    Negative (last.outcome fresh) := by
  cases last with
  | answered result copied routed =>
    intro hne _
    simp only [InvokeEnd.outcome] at hne ⊢
    split_ifs at hne ⊢
    · exact False.elim (hne rfl)
    · exact verifyErr_neg
  | _ => exact refused_negative (by decide)

theorem invokeEnd_sound (last : InvokeEnd) : Sound last.routed (last.outcome true) := by
  cases last with
  | answered result copied routed =>
    intro hzero
    dsimp only [InvokeEnd.outcome] at hzero ⊢
    split_ifs at hzero with hcond
    · exact ⟨congrArg some (intOfU32_eq_zero.mp hcond.1), rfl⟩
    · cases hzero
  | _ => exact (refused_honest (by decide)).sound

theorem invoke_outcome (inv : InvokeArgs) (last : InvokeEnd) :
    (savedOf s.file inv.pid = none → Sound last.routed (vfastrpcInternalInvoke d s inv last)) ∧
    Negative (vfastrpcInternalInvoke d s inv last) := by
  have both : ∀ {p : Prop} {o : Outcome}, Honest last.routed o →
      (p → Sound last.routed o) ∧ Negative o := fun h => ⟨fun _ => h.sound, h.negative⟩
  unfold vfastrpcInternalInvoke
  split
  · exact both (refused_honest (by decide))
  split
  · exact both (refused_honest (by decide))
  split
  · rename_i hfind
    refine ⟨fun hnone => ?_, ?_⟩
    · rw [hfind] at hnone
      cases hnone
    · split
      · exact refused_negative (by decide)
      · exact invokeEnd_negative last false
  · exact ⟨fun _ => invokeEnd_sound last, invokeEnd_negative last true⟩

end handlers

/-- The requests for which 0 stands for an answer: a capability query that goes to the back
end, a MUNMAP_FD that is not interrupted and resumes nothing, an invoke that resumes
nothing, and everything else but CONTROL. -/
def Explained (d : Device) (s : State) : Ioctl → Prop
  | .munmapFd tid _ wait =>
      (s.file.cmds.find? fun cmd => cmd.tid == tid) = none ∧ wait ≠ .interrupted true
  | .controlLatency _ => False
  | .getDspInfo cap _ _ => uncached d cap = true
  | .invoke inv _ => savedOf s.file inv.pid = none
  | _ => True

/-- The response that ends the wait, if there is one, is the answer to the message. -/
def Ioctl.routed : Ioctl → Bool
  | .init _ ex _ => ex.routed
  | .mmap _ _ _ ex => ex.routed
  | .munmap _ _ ex => ex.routed
  | .munmapFd _ _ wait => wait.routed
  | .memMap _ _ ex => ex.routed
  | .memUnmap _ _ _ ex => ex.routed
  | .controlLatency ex => ex.routed
  | .getDspInfo _ ex _ => ex.routed
  | .invoke _ last => last.routed

/-- MEM_MAP and MEM_UNMAP come after INIT. -/
def Ready (s : State) : Ioctl → Prop
  | .memMap _ _ _ => s.file.dspProcInit = true
  | .memUnmap _ _ _ _ => s.file.dspProcInit = true
  | _ => True

theorem internal_zero {k : Uapi} {d : Device} {s : State} {c : Ioctl} (copyOut : Bool)
    (explained : Explained d s c) (hzero : (internal k d s copyOut c).ret = 0) :
    (internal k d s copyOut c).reply = some 0 ∧ (internal k d s copyOut c).own = c.routed ∨
      ∃ tid fd wait, c = .munmapFd tid fd wait ∧ keptMaps k s.file.maps fd = [] ∧
        (internal k d s copyOut c).reply = none := by
  cases c with
  | munmapFd tid fd wait =>
    rcases munmapFd_sound explained.1 explained.2 hzero with answered | ⟨hnone, hreply⟩
    · exact Or.inl answered
    · exact Or.inr ⟨tid, fd, wait, rfl, hnone, hreply⟩
  | init uproc ex cid => exact Or.inl ((init_honest d.channel uproc ex cid s.ctl).sound hzero)
  | mmap ud dma pages ex =>
    exact Or.inl (copied_sound (mmap_honest s.file ud dma pages ex).sound copyOut hzero)
  | munmap vaddrout size ex =>
    exact Or.inl ((munmap_honest s.file vaddrout size ex).sound hzero)
  | memMap req dma ex =>
    exact Or.inl (copied_sound (memMap_sound s.file req dma ex).1 copyOut hzero)
  | memUnmap fd vaddr length ex =>
    exact Or.inl ((memUnmap_sound s.file fd vaddr length ex).1 hzero)
  | controlLatency ex => exact False.elim explained
  | getDspInfo cap ex caps =>
    exact Or.inl (copied_sound ((dspInfo_outcome d cap ex caps).1 explained) copyOut hzero)
  | invoke inv last =>
    simp only [internal] at hzero ⊢
    split at hzero
    · exact absurd hzero ‹_›
    · rename_i hsupported
      rw [if_neg hsupported]
      exact Or.inl ((invoke_outcome inv last).1 explained hzero)

theorem internal_negative {k : Uapi} {d : Device} {s : State} {c : Ioctl} (copyOut : Bool)
    (ready : Ready s c) : Negative (internal k d s copyOut c) := by
  cases c with
  | munmapFd tid fd wait => exact munmapFd_negative s.file tid fd wait
  | init uproc ex cid => exact (init_honest d.channel uproc ex cid s.ctl).negative
  | mmap ud dma pages ex =>
    exact copied_negative (mmap_honest s.file ud dma pages ex).negative copyOut
  | munmap vaddrout size ex => exact (munmap_honest s.file vaddrout size ex).negative
  | memMap req dma ex => exact copied_negative ((memMap_sound s.file req dma ex).2 ready) copyOut
  | memUnmap fd vaddr length ex => exact (memUnmap_sound s.file fd vaddr length ex).2 ready
  | controlLatency ex =>
    simp only [internal, vfastrpcInternalControl]
    split
    · exact refused_negative (by decide)
    · exact fun hne => False.elim (hne rfl)
  | getDspInfo cap ex caps => exact copied_negative (dspInfo_outcome d cap ex caps).2 copyOut
  | invoke inv last =>
    simp only [internal]
    split
    · refine refused_negative ?_
      unfold checkInvokeSupported
      split_ifs <;> decide
    · exact (invoke_outcome inv last).2

/-- Whatever happens to a request, if responses end the waits for the messages they answer, a
return of 0 stands for the answer 0 of the back end to a message of this request, or for a
MUNMAP_FD that found nothing to unmap; and an error that is not in the response is negative. -/
theorem returns_explained (k : Uapi) (d : Device) (s : State) (copyIn copyOut : Bool) (c : Ioctl) :
    (Explained d s c → c.routed = true → (run k d s copyIn copyOut c).ret = 0 →
      (run k d s copyIn copyOut c).reply = some 0 ∧ (run k d s copyIn copyOut c).own = true ∨
        ∃ tid fd wait, c = .munmapFd tid fd wait ∧ keptMaps k s.file.maps fd = [] ∧
          (run k d s copyIn copyOut c).reply = none) ∧
    (Ready s c → (run k d s copyIn copyOut c).ret ≠ 0 →
      (∀ r ∈ (run k d s copyIn copyOut c).reply, r = 0) →
      (run k d s copyIn copyOut c).ret < 0) := by
  unfold run
  split
  · exact ⟨fun _ _ hzero => (by cases hzero), fun _ => refused_negative (by decide)⟩
  split
  · exact ⟨fun _ _ hzero => (by cases hzero), fun _ => refused_negative (by decide)⟩
  split
  · exact ⟨fun _ _ hzero => (by cases hzero), fun _ => refused_negative (by decide)⟩
  · refine ⟨fun explained routed => ?_, internal_negative copyOut⟩
    rw [← routed]
    exact internal_zero copyOut explained

open MapReferences (uapi)

def cdspDevice : Device :=
  ⟨ProcessAccess.headerIds, 4, ProcessAccess.zeroMemory, ⟨true, true, true⟩, true, true, 1⟩

/-- A file after INIT, without maps. -/
def initialised : State :=
  ⟨ControlPlane.vfastrpcFileAlloc .dev ⟨100, 100⟩,
    { FileOperations.File.opened with dspProcInit := true }, false⟩

/-- MMAP of a buffer, accepted by the back end. -/
def acceptedMmap : Ioctl :=
  .mmap ⟨5, 0x1000, 0x100, 0⟩ .mapped ⟨true, true⟩ (.reply 0 true)

theorem acceptedMmap_explained : (run uapi cdspDevice initialised true true acceptedMmap).ret = 0 ∧
    ((run uapi cdspDevice initialised true true acceptedMmap).reply = some 0 ∧
        (run uapi cdspDevice initialised true true acceptedMmap).own = true ∨
      ∃ tid fd wait, acceptedMmap = .munmapFd tid fd wait ∧
        keptMaps uapi initialised.file.maps fd = [] ∧
        (run uapi cdspDevice initialised true true acceptedMmap).reply = none) :=
  ⟨rfl, (returns_explained uapi cdspDevice initialised true true acceptedMmap).1 trivial rfl rfl⟩

/-- With no `KEEP_MAP` map of the descriptor MUNMAP_FD returns 0 and sends nothing. -/
theorem munmap_fd_without_maps :
    (run uapi cdspDevice initialised true true
        (.munmapFd 9 5 (.exchange (.reply 0 true)))).ret = 0 ∧
      (run uapi cdspDevice initialised true true
        (.munmapFd 9 5 (.exchange (.reply 0 true)))).reply = none :=
  ⟨rfl, rfl⟩

end CommandReturns
