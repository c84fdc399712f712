import PlatformKernel.LockPrograms

/-!
# The locks of the driver

Two mutexes and two spin locks of each file, the locks of the two virtqueues and the lock
of the message table. Each function below is the locking skeleton of the function of that
name: what it takes and gives back, what it accesses of the lists and tables that several
tasks use, where it may sleep, where it waits for the back end or for the readers of the
debug file, and where it jumps. The receive interrupt runs on top of any task that has
interrupts on.
-/

namespace DriverLocks

open GuardedRuns LockPrograms

/-- `debugfsFile` is no lock: the readers of the debug file are counted, and its removal
waits for them. -/
inductive Lock where
  | internalMapMutex
  | debugfsFile
  | mapMutex
  | hlock
  | svqLock
  | rvqLock
  | msglock
  | aqlock
  deriving DecidableEq

/-- The lists and tables that tasks share. `sendQueue` has `last_sbuf` with it and `cachedBufs`
has `num_cached_buf`; `maps` is the list with the changes of `refs` and `ctx_refs`;
`capabilities` is `dsp_cap_kernel` and `unsigned_support` of the channels, the one table that
no lock guards. The fields of a file and of a context are not among these: they are read and
written without a lock, except for those named here, and so is `refs` where it is sent to the
back end. -/
inductive Data where
  | sendQueue
  | receiveQueue
  | msgtable
  | contexts
  | cachedBufs
  | remoteBufs
  | interruptedCmds
  | debugBufAttempted
  | maps
  | raddr
  | asyncQueue
  | capabilities
  deriving DecidableEq

def rules : Rules Lock Data where
  rank
    | .internalMapMutex => 0
    | .debugfsFile => 1
    | .mapMutex => 2
    | .hlock => 3
    | .svqLock => 4
    | .rvqLock => 5
    | .msglock => 6
    | .aqlock => 7
  spins
    | .internalMapMutex | .debugfsFile | .mapMutex => false
    | _ => true
  interrupt
    | .rvqLock | .msglock | .aqlock => true
    | _ => false
  shared
    | .svqLock | .rvqLock | .msglock => true
    | _ => false
  users k := decide (k = .debugfsFile)
  lent
    | .svqLock | .rvqLock => true
    | _ => false
  guard
    | .sendQueue => some .svqLock
    | .receiveQueue => some .rvqLock
    | .msgtable => some .msglock
    | .contexts | .cachedBufs | .remoteBufs | .interruptedCmds | .debugBufAttempted => some .hlock
    | .maps => some .mapMutex
    | .raddr => some .internalMapMutex
    | .asyncQueue => some .aqlock
    | .capabilities => none

abbrev Code := Prog Lock Data

theorem rules_ordered : rules.Ordered where
  bounded := ⟨8, by rintro (_ | _) <;> decide⟩
  above := by rintro (_ | _) (_ | _) <;> decide
  inner := by rintro (_ | _) <;> decide
  used := by rintro (_ | _) <;> decide

/-- `if (err) goto bail;` or an early return: `n` is the number of enclosing blocks it stays
in. -/
def bails (n : Nat) : Code := .maybe (.exit n)

def sleeps : Code := .op .sleep

/-- A copy from or to user space, or an allocation, that may fail. -/
def sleepsOrBails (n : Nat) : Code := .steps [sleeps, bails n]

def access (d : Data) : Code := .op (.touch d)

/-- The list is walked through. -/
def eachOf (d : Data) : Code := .loop (access d)

def locked (k : Lock) (p : Code) : Code := .within k false p

def lockedIrqsave (k : Lock) (d : Data) : Code := .within k true (access d)

def getATxBuf : Code := lockedIrqsave .svqLock .sendQueue

/-- Add a buffer to a queue and kick it; the error path gives the lock back by itself. The
queue is added to with `GFP_KERNEL`: whether virtio asks for memory there is its own affair. -/
def addBuf (k : Lock) (d : Data) : Code :=
  .block (.steps [.op (.lock k true), .maybe (.op .alloc), access d,
    .maybe (.steps [.op (.unlock k), .exit 0]), access d, .op (.unlock k)])

def vfastrpcTxbufSend : Code := addBuf .svqLock .sendQueue

def vfastrpcRxbufSend : Code := addBuf .rvqLock .receiveQueue

def virtFreeMsg : Code := lockedIrqsave .msglock .msgtable

def virtAllocMsg : Code :=
  .block (.steps [bails 0, sleepsOrBails 0, .within .msglock true (eachOf .msgtable), bails 0,
    getATxBuf,
    .maybe (.steps [virtFreeMsg, .exit 0])])

def vfastrpcMmapFree : Code :=
  .block (.steps [bails 0, .maybe (.steps [access .maps, bails 0, access .maps, .maybe sleeps])])

def vfastrpcMmapAdd : Code := .maybe (access .maps)

def vfastrpcMmapRemove : Code := .loop (.steps [access .maps, access .raddr])

def vfastrpcMmapFind : Code := .block (.steps [bails 0, .maybe (eachOf .maps)])

/-- A new map is an allocation and three calls into the exporter of the buffer. -/
def vfastrpcMmapCreate : Code :=
  .block (.steps [vfastrpcMmapFind, bails 0,
    .block (.steps [sleepsOrBails 0, bails 0, sleepsOrBails 0, sleepsOrBails 0, sleepsOrBails 0,
      vfastrpcMmapAdd]),
    .maybe vfastrpcMmapFree])

def vfastrpcMmapRemoveFd : Code := .loop (.steps [access .maps, .maybe vfastrpcMmapFree])

def vfastrpcBufFree : Code :=
  .block (.steps [bails 0,
    .block (.maybe (.steps [.op (.lock .hlock false), access .cachedBufs,
      .maybe (.steps [.op (.unlock .hlock), .exit 0]), access .cachedBufs, .op (.unlock .hlock),
      .exit 1])),
    .maybe (locked .hlock (access .remoteBufs)), .maybe sleeps])

def vfastrpcBufAlloc : Code :=
  .block (.steps [
    .block (.steps [bails 0,
      .maybe (.steps [locked .hlock (.steps [eachOf .cachedBufs, .maybe (access .cachedBufs)]),
        bails 1]),
      sleepsOrBails 0, sleepsOrBails 0, .maybe (locked .hlock (access .remoteBufs))]),
    .maybe vfastrpcBufFree])

def contextFree : Code :=
  .steps [locked .hlock (access .contexts),
    locked .mapMutex (.loop (.steps [.maybe (access .maps), vfastrpcMmapFree])),
    .maybe (.steps [.maybe vfastrpcRxbufSend, virtFreeMsg]),
    .loop (.maybe vfastrpcBufFree)]

/-- `do { take the head under hlock; if (head) free(head) } while (head)`. -/
def drained (d : Data) (free : Code) : Code :=
  .steps [locked .hlock (access d), .loop (.steps [free, locked .hlock (access d)])]

def vfastrpcContextListDtor : Code :=
  .steps [drained .contexts contextFree, drained .contexts contextFree]

def vfastrpcCachedBufListFree : Code := drained .cachedBufs vfastrpcBufFree

def vfastrpcRemoteBufListFree : Code := drained .remoteBufs vfastrpcBufFree

def vfastrpcInterruptedCmdListFree : Code :=
  drained .interruptedCmds (.maybe (.steps [.maybe vfastrpcRxbufSend, virtFreeMsg]))

def contextRestoreInterrupted : Code := locked .hlock (eachOf .contexts)

def contextSaveInterrupted : Code := locked .hlock (access .contexts)

def contextAlloc : Code :=
  .steps [
    .block (.steps [sleepsOrBails 0, sleepsOrBails 0, .maybe (sleepsOrBails 0),
      .maybe (sleepsOrBails 0), .maybe (sleepsOrBails 0), .maybe (sleepsOrBails 0),
      locked .hlock (access .contexts)]),
    .maybe contextFree]

/-- Send, wait without being interruptible, look at the answer (`checks`), give its buffer
back and free the message. -/
def command (checks : List (Code)) : Code :=
  .block (.steps [virtAllocMsg, bails 0,
    .block (.steps ([vfastrpcTxbufSend, bails 0, .op .wait, bails 0] ++ checks)),
    .maybe vfastrpcRxbufSend, virtFreeMsg])

def virtFastrpcClose : Code := .block (.steps [bails 0, command []])

def virtFastrpcMunmap : Code := command []

def virtFastrpcMmap : Code := command [bails 0]

def virtFastrpcMemMap : Code := command [bails 0, access .raddr]

def virtFastrpcMemUnmap : Code := command []

def virtFastrpcControl : Code := command []

def virtFastrpcOpen : Code := command [bails 0, bails 0]

def virtFastrpcGetDspInfo : Code := command [bails 0, access .capabilities]

def findInterruptedCmds : Code := locked .hlock (eachOf .interruptedCmds)

def saveInterruptedCmds : Code :=
  .block (.steps [sleepsOrBails 0, locked .hlock (access .interruptedCmds)])

/-- The message of an interrupted command is waited for again without being sent. -/
def virtFastrpcMunmapFd : Code :=
  .block (.steps [
    .block (.steps [.maybe (.steps [virtAllocMsg, bails 1, vfastrpcTxbufSend, bails 0]),
      .op .wait, bails 0, bails 0]),
    .alt saveInterruptedCmds (.steps [.maybe vfastrpcRxbufSend, virtFreeMsg])])

def getArgs : Code :=
  .block (.steps [
    .loop (.maybe (.steps [
      locked .mapMutex (.steps [vfastrpcMmapCreate, .maybe (access .maps)]), bails 0])),
    .op (.lock .mapMutex false),
    .loop (.maybe (.steps [vfastrpcMmapCreate, .maybe (access .maps),
      .maybe (.steps [.loop (.steps [.maybe (access .maps), vfastrpcMmapFree]),
        .op (.unlock .mapMutex), .exit 0])])),
    .op (.unlock .mapMutex),
    .maybe (.steps [sleepsOrBails 0, .loop (.maybe (.steps [vfastrpcBufAlloc, bails 0]))]),
    virtAllocMsg, bails 0,
    -- the read lock of the address space, or a copy from user space
    .loop (.maybe (.steps [sleepsOrBails 0, bails 0])),
    .loop .skip])

def putArgs : Code :=
  .block (.steps [bails 0, bails 0, bails 0,
    .loop (.alt (locked .mapMutex (.steps [access .maps, vfastrpcMmapFree])) (sleepsOrBails 0)),
    locked .mapMutex (.loop (.steps [vfastrpcMmapFind,
      .maybe (.steps [.maybe (access .maps), vfastrpcMmapFree])])),
    .maybe sleeps])

def virtFastrpcInvoke : Code := .block (.steps [bails 0, bails 0, vfastrpcTxbufSend])

def vfastrpcQueueCompletedAsyncJob : Code := lockedIrqsave .aqlock .asyncQueue

def vfastrpcInternalInvoke : Code :=
  .block (.steps [
    .block (.steps [bails 0, bails 0, contextRestoreInterrupted, bails 0,
      -- a restored context only waits
      .maybe (.steps [contextAlloc, bails 0, getArgs, bails 0, virtFastrpcInvoke, bails 0,
        bails 1]),
      .op .wait, bails 0, putArgs, bails 0]),
    .oneOf [contextSaveInterrupted, .steps [.maybe sleeps, contextFree], .skip]])

def vfastrpcWaitOnAsyncQueue : Code :=
  .steps [
    .block (.loop (.steps [.op .wait, bails 0, bails 0, lockedIrqsave .aqlock .asyncQueue,
      .maybe (.steps [bails 0, putArgs, .exit 0])])),
    .maybe (.steps [.maybe sleeps, contextFree])]

def vfastrpcGetAsyncResponse : Code :=
  .block (.steps [vfastrpcWaitOnAsyncQueue, bails 0, sleeps])

def vfastrpcInternalInvoke2 : Code :=
  .block (.steps [.maybe (.steps [bails 0, access .capabilities, bails 0]), .oneOf [
    .steps [bails 0, sleepsOrBails 0, vfastrpcInternalInvoke],
    .steps [bails 0, vfastrpcGetAsyncResponse],
    .skip]])

def vfastrpcInternalMunmap : Code :=
  .block (.steps [bails 0, .op (.lock .internalMapMutex false),
    locked .hlock (eachOf .remoteBufs),
    .block (.steps [
      .maybe (.steps [virtFastrpcMunmap, bails 0, vfastrpcBufFree,
        .op (.unlock .internalMapMutex), .exit 1]),
      locked .mapMutex vfastrpcMmapRemove, bails 0, access .raddr, virtFastrpcMunmap, bails 0,
      locked .mapMutex vfastrpcMmapFree]),
    .maybe (locked .mapMutex vfastrpcMmapAdd), .op (.unlock .internalMapMutex)])

def vfastrpcInternalMunmapFd : Code :=
  .block (.steps [bails 0, .op (.lock .internalMapMutex false), findInterruptedCmds,
    .block (.steps [.maybe (.steps [locked .mapMutex vfastrpcMmapRemoveFd, bails 0]),
      virtFastrpcMunmapFd]),
    .op (.unlock .internalMapMutex)])

def vfastrpcInternalMmap : Code :=
  .block (.steps [bails 0, .op (.lock .internalMapMutex false),
    .block (.alt
      (.steps [bails 0, vfastrpcBufAlloc, bails 0, virtFastrpcMmap, bails 0])
      (.steps [locked .mapMutex vfastrpcMmapCreate, bails 0, virtFastrpcMmap, bails 0,
        access .raddr])),
    .maybe (locked .mapMutex vfastrpcMmapFree), .op (.unlock .internalMapMutex)])

def vfastrpcInternalMemMap : Code :=
  .block (.steps [bails 0, .op (.lock .internalMapMutex false),
    .block (.steps [locked .mapMutex vfastrpcMmapCreate, bails 0, access .raddr, bails 0,
      virtFastrpcMemMap, bails 0, access .raddr]),
    .maybe (locked .mapMutex vfastrpcMmapFree), .op (.unlock .internalMapMutex)])

def vfastrpcInternalMemUnmap : Code :=
  .block (.steps [bails 0, .op (.lock .internalMapMutex false),
    .block (.steps [locked .mapMutex vfastrpcMmapRemove, bails 0, bails 0, access .raddr,
      virtFastrpcMemUnmap, bails 0, locked .mapMutex vfastrpcMmapFree]),
    .maybe (locked .mapMutex (.steps [.maybe (access .maps), vfastrpcMmapAdd])),
    .op (.unlock .internalMapMutex)])

def vfastrpcInternalControl : Code :=
  .block (.steps [bails 0, bails 0, .oneOf [.steps [bails 0, virtFastrpcControl], .skip, .skip]])

def vfastrpcSetProcessInfo : Code :=
  .block (.maybe (.steps [.op (.lock .hlock false), access .debugBufAttempted,
    .maybe (.steps [.op (.unlock .hlock), .exit 0]), access .debugBufAttempted,
    .op (.unlock .hlock), sleeps,
    .maybe (.steps [locked .hlock (access .debugBufAttempted), .exit 0]), sleeps,
    .maybe (locked .hlock (access .debugBufAttempted))]))

def vfastrpcInternalGetInfo : Code :=
  .block (.steps [bails 0, vfastrpcSetProcessInfo, bails 0,
    .maybe (.steps [bails 0, .maybe (.steps [access .capabilities, bails 0])])])

def vfastrpcInternalInitProcess : Code :=
  .block (.steps [access .capabilities, bails 0, bails 0, virtFastrpcOpen])

def vfastrpcGetInfoFromKernel : Code :=
  .block (.steps [bails 0, .maybe (.steps [access .capabilities,
    .maybe (.steps [virtFastrpcGetDspInfo, bails 0]), access .capabilities])])

def vfastrpcInternalGetDspInfo : Code :=
  .block (.steps [sleepsOrBails 0, bails 0, vfastrpcGetInfoFromKernel, bails 0, sleeps])

def vfastrpcSetmodeIoctl : Code := .skip

/-- Copy the argument in, run the request, copy the result out. -/
def requestIoctl (request : Code) : Code :=
  .block (.steps [bails 0, sleepsOrBails 0, request, bails 0, .maybe sleeps])

def vfastrpcMmapIoctl : Code :=
  .oneOf [requestIoctl vfastrpcInternalMemMap, requestIoctl vfastrpcInternalMemUnmap,
    requestIoctl vfastrpcInternalMmap, requestIoctl vfastrpcInternalMunmap,
    requestIoctl vfastrpcInternalMunmapFd, .skip]

def vfastrpcControlIoctl : Code := requestIoctl vfastrpcInternalControl

def vfastrpcGetInfoIoctl : Code := requestIoctl vfastrpcInternalGetInfo

def vfastrpcInitIoctl : Code :=
  .block (.steps [sleepsOrBails 0, bails 0, bails 0, vfastrpcInternalInitProcess])

def vfastrpcIoctl : Code :=
  .block (.steps [.op (.lock .hlock false), .maybe (.steps [.op (.unlock .hlock), .exit 0]),
    .op (.unlock .hlock),
    .oneOf [.steps [sleepsOrBails 0, bails 0, vfastrpcInternalInvoke],
      .steps [sleepsOrBails 0, vfastrpcInternalInvoke2], vfastrpcMmapIoctl, vfastrpcSetmodeIoctl,
      vfastrpcControlIoctl, vfastrpcGetInfoIoctl, vfastrpcInitIoctl, vfastrpcInternalGetDspInfo,
      .skip]])

def vfastrpcOpen : Code := .block (.steps [bails 0, sleepsOrBails 0])

/-- `debugfs_remove` waits for the readers of the file. -/
def vfastrpcFileFree : Code :=
  .block (.steps [bails 0, locked .hlock .skip, .op (.drain .debugfsFile), .maybe virtFastrpcClose,
    .within .aqlock true .skip, vfastrpcContextListDtor, vfastrpcCachedBufListFree,
    vfastrpcRemoteBufListFree, vfastrpcInterruptedCmdListFree,
    locked .mapMutex (.loop (.steps [access .maps, vfastrpcMmapFree]))])

def vfastrpcRelease : Code := .maybe vfastrpcFileFree

/-- Its caller makes it a reader of the file, which the file is not removed under. -/
def vfastrpcDebugfsRead : Code :=
  .steps [.op (.use .debugfsFile),
    .block (.steps [bails 0, sleepsOrBails 0,
      .maybe (.steps [
        locked .hlock (.steps [eachOf .cachedBufs, eachOf .contexts, eachOf .contexts]),
        locked .mapMutex (eachOf .maps)]),
      sleeps]),
    .op (.unlock .debugfsFile)]

/-- Each response is for a file of its own. -/
def recvSingle : Code :=
  .block (.steps [.op .turn, bails 0, locked .msglock (access .msgtable), bails 0,
    .alt vfastrpcQueueCompletedAsyncJob .skip])

def recvDone : Code :=
  .block (.steps [.op (.lock .rvqLock true), access .receiveQueue,
    .maybe (.steps [.op (.unlock .rvqLock), .exit 0]), .op (.unlock .rvqLock),
    .loop (.steps [recvSingle, bails 0, lockedIrqsave .rvqLock .receiveQueue])])

/-- What a task can enter: the file operations and the functions the 32-bit entry calls. -/
def entries : List (Code) :=
  [vfastrpcOpen, vfastrpcIoctl, vfastrpcRelease, vfastrpcDebugfsRead, vfastrpcInternalInvoke,
    vfastrpcInternalInvoke2, vfastrpcInternalMmap, vfastrpcInternalMunmap,
    vfastrpcInternalMunmapFd, vfastrpcInternalMemMap, vfastrpcInternalMemUnmap,
    vfastrpcInternalControl, vfastrpcGetInfoIoctl, vfastrpcInitIoctl, vfastrpcInternalGetDspInfo,
    vfastrpcSetmodeIoctl]

theorem entries_checked : ∀ p ∈ entries, Checked rules false p = true := by
  decide +kernel

theorem recvDone_checked : ∀ p ∈ [recvDone], Checked rules true p = true := by
  decide +kernel

section Runs

variable {F : Type} [DecidableEq F] {n : Nat}

theorem run_disciplined {f : F} {s : State Lock Data F n} {as : List (Action F n)}
    (run : exec (step rules entries [recvDone]) (State.idle n f) as = some s) :
    Disciplined rules s :=
  LockPrograms.run_disciplined entries_checked recvDone_checked run

theorem rank_zero {k : Lock} (h : rules.rank k = 0) : k = .internalMapMutex := by
  cases k <;> simp_all [rules]

/-- All that stands still waits for the back end: no interrupt is being handled, the only
locks held are `internal_map_mutex`es of tasks that wait, and any other task that has not
returned wants such a mutex. -/
structure BackEndsTurn (s : State Lock Data F n) : Prop where
  interrupts : ∀ t, s.handlers t = none
  held : ∀ t, ∀ x ∈ (s.tasks t).held, x.1 = .internalMapMutex ∧ (s.tasks t).at .wait = true
  tasks : ∀ t, (s.tasks t).code = [] ∨ (s.tasks t).at .wait = true ∨
    (s.tasks t).Wants .internalMapMutex ∧ ∃ u, (s.tasks u).at .wait = true ∧
      (s.tasks u).holds rules .internalMapMutex (s.tasks t).object = true

/-- In every state that any number of tasks and receive interrupts reach, if nobody can go
on by itself then it is the back end's turn. -/
theorem standstill_waits_for_back_end (f : F) (as : List (Action F n)) (s : State Lock Data F n)
    (run : exec (step rules entries [recvDone]) (State.idle n f) as = some s)
    (stalled : Stalled rules s) : BackEndsTurn s := by
  have quiet := stalled_quiet rules_ordered (run_disciplined run) stalled
  refine ⟨quiet.handlers, fun t x hx => ?_, fun t => ?_⟩
  · obtain ⟨zero, waits⟩ := quiet.held t x hx
    exact ⟨rank_zero zero, waits⟩
  · rcases quiet.tasks t with done | waits | ⟨k, wants, zero, u, waits, holds⟩
    · exact .inl done
    · exact .inr (.inl waits)
    · obtain rfl := rank_zero zero
      exact .inr (.inr ⟨wants, u, waits, holds⟩)

/-- One task waits for the answer to `MUNMAP_FD`, another one wants to map in the same file. -/
def unmapsTwice : List (Action Nat 2) :=
  .enter 0 8 0 :: List.replicate 24 (.task 0 false 0) ++
    .enter 1 6 0 :: List.replicate 5 (.task 1 false 0)

theorem unmapsTwice_stalled : ∃ s : State Lock Data Nat 2,
    exec (step rules entries [recvDone]) (State.idle 2 0) unmapsTwice = some s ∧
      Stalled rules s ∧ (s.tasks 1).Wants .internalMapMutex := by
  refine ⟨_, rfl, stalled_of (fun t => rfl) (Fin.forall_fin_two.mpr ⟨?_, ?_⟩), false, rfl⟩
  · exact .inr (.inl rfl)
  · exact .inr (.inr ⟨.internalMapMutex, .inl ⟨false, rfl⟩, rfl⟩)

theorem unmapsTwice_waits : ∃ s : State Lock Data Nat 2,
    exec (step rules entries [recvDone]) (State.idle 2 0) unmapsTwice = some s ∧
      Stalled rules s ∧ (s.tasks 1).Wants .internalMapMutex ∧ BackEndsTurn s := by
  obtain ⟨s, run, stalled, wants⟩ := unmapsTwice_stalled
  exact ⟨s, run, stalled, wants, standstill_waits_for_back_end 0 _ s run stalled⟩

/-- The driver sleeps with no spin lock held, virtio is left to ask for memory under the spin
lock of a virtqueue and under no other, an interrupt handler does neither and never spins on a
lock of the task it interrupted, and a request returns without locks. -/
structure AtomicSections (s : State Lock Data F n) : Prop where
  tasks : ∀ t, (s.tasks t).MaySleep rules → ∀ x ∈ (s.tasks t).held, rules.spins x.1 = false
  allocations : ∀ t, (s.tasks t).at .alloc = true → ∀ x ∈ (s.tasks t).held,
    rules.spins x.1 = true → x.1 = .svqLock ∨ x.1 = .rvqLock
  interrupts : ∀ t a, s.handlers t = some a → ¬ a.MaySleep rules ∧ a.at .alloc = false ∧
    ∀ k, a.Wants k → ∀ x ∈ (s.tasks t).held, x.1 ≠ k
  returned : ∀ t, (s.tasks t).code = [] → (s.tasks t).held = []

theorem lent_queue {k : Lock} (h : rules.lent k = true) : k = .svqLock ∨ k = .rvqLock := by
  cases k <;> simp_all [rules]

/-- The receive interrupt comes while an ioctl is in its first critical section. -/
def interrupted : List (Action Nat 1) :=
  [.enter 0 1 0, .task 0 false 0, .task 0 false 0, .task 0 false 0, .raise 0 0 0,
    .handler 0 false 0, .handler 0 false 0]

/-- A list or table that has a lock is accessed under it, and while somebody holds that lock
nobody else is about to access it, be it another task or an interrupt: each critical section
is one step for the others. Only the capabilities have no lock. -/
structure SectionsAlone (s : State Lock Data F n) : Prop where
  guarded : ∀ w a d, d ≠ .capabilities → s.activity w = some a → a.at (.touch d) = true →
    ∃ k, rules.guard d = some k ∧ a.holds rules k a.object = true
  alone : ∀ w w' a a' d k, rules.guard d = some k → s.activity w = some a →
    s.activity w' = some a' → a.holds rules k a'.object = true → a'.at (.touch d) = true → w = w'

theorem guard_some {d : Data} (h : d ≠ .capabilities) : ∃ k, rules.guard d = some k := by
  cases d <;> simp_all [rules]

theorem guard_lock {d : Data} {k : Lock} (h : rules.guard d = some k) : rules.users k = false := by
  cases d <;> cases h <;> rfl

/-- The debug file of a file is read while an ioctl on the same file begins. -/
def readAndIoctl : List (Action Nat 2) :=
  .enter 0 3 0 :: List.replicate 13 (.task 0 false 0) ++
    List.replicate 7 (.task 0 true 0) ++ .enter 1 1 0 :: List.replicate 2 (.task 1 false 0)

end Runs

end DriverLocks
