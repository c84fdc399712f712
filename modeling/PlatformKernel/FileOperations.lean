import PlatformKernel.FileMaps
import PlatformKernel.InvokeMessage
import PlatformKernel.MessageTransport

/-!
# A file, its lists and the ioctls that change them

The state of one open file: its contexts, internal buffers, maps, messages and
interrupted commands. A step is one critical section of an ioctl, so the calls of
any number of threads may interleave; what the back end answers and which
allocations succeed is part of the action. Other files only take and free slots of
the message table. Contexts, buffers and commands are identified by their
allocation, and the `freed` lists record every `kfree`.
-/

namespace FileOperations

open CountedLoops FileMaps
open InvokeMessage (inbufs bufs)
open MessageTransport (freeSlot)

abbrev Tid := Nat
abbrev CtxId := Nat
abbrev BufId := Nat
abbrev MsgId := Nat
abbrev CmdId := Nat

def adspMmapAddPages : UInt32 := 0x1000
def maxCacheBufSize : UInt64 := 8 * 1024 * 1024
def maxCachedBufs : Int := 32

/-- `building` is in `get_args` or before the send, `waiting` waits for the response,
`queued` is an asynchronous job no thread waits for, `ending` is in `put_args` or on the
way to `context_free`. -/
inductive Stage where
  | building
  | waiting
  | queued
  | ending
  deriving DecidableEq

/-- `struct vfastrpc_invoke_ctx`; `desc` lists the internal buffers that were allocated. -/
structure InvokeCtx where
  pid : Tid
  sc : UInt32
  isAsync : Bool
  maps : Nat → Option MapId
  desc : List BufId
  msg : Option MsgId
  stage : Stage

structure VfastrpcBuf where
  size : UInt64
  flags : UInt32
  raddr : UInt64
  remote : Bool

/-- `struct virt_fastrpc_cmd`. The only command that is saved is
`VIRTIO_FASTRPC_CMD_MUNMAP_FD`. -/
structure Cmd where
  id : CmdId
  tid : Tid
  msg : MsgId
  deriving DecidableEq

/-- The message in a slot of the table, which all files share. -/
inductive Owner where
  | ours (m : MsgId)
  | foreign
  deriving DecidableEq

/-- The call that holds `internal_map_mutex` while it waits for the back end, and what
it holds. -/
inductive Op where
  | mmap (id : MapId)
  | memMap (id : MapId)
  | munmap (id : MapId)
  | memUnmap (id : MapId)
  | mmapPages (b : BufId)
  | munmapPages (b : BufId)
  | notify (tid : Tid)
  | notified (tid : Tid) (m : MsgId)
  deriving DecidableEq

structure File where
  maps : Maps
  ctxs : CtxId → InvokeCtx
  pending : List CtxId
  interrupted : List CtxId
  freedCtxs : List CtxId
  nextCtx : CtxId
  bufs : BufId → VfastrpcBuf
  cached : List BufId
  numCached : Int
  remoteBufs : List BufId
  freedBufs : List BufId
  nextBuf : BufId
  table : Nat → Option Owner
  msgid : MsgId → Nat
  nextMsg : MsgId
  commands : List MsgId
  cmds : List Cmd
  freedCmds : List CmdId
  nextCmd : CmdId
  op : Option Op
  dspProcInit : Bool
  cid : Int

/-- `vfastrpc_file_alloc`. -/
def File.opened : File where
  maps := .empty
  ctxs := fun _ => ⟨0, 0, false, fun _ => none, [], none, .ending⟩
  pending := []
  interrupted := []
  freedCtxs := []
  nextCtx := 0
  bufs := fun _ => ⟨0, 0, 0, false⟩
  cached := []
  numCached := 0
  remoteBufs := []
  freedBufs := []
  nextBuf := 0
  table := fun _ => none
  msgid := fun _ => 0
  nextMsg := 0
  commands := []
  cmds := []
  freedCmds := []
  nextCmd := 0
  op := none
  dspProcInit := false
  cid := -1

def File.setCtx (s : File) (c : CtxId) (ctx : InvokeCtx) : File :=
  { s with ctxs := Function.update s.ctxs c ctx }

/-- `virt_alloc_msg`; `tx` says whether `get_a_tx_buf` has a buffer. -/
def virtAllocMsg (s : File) (tx : Bool) : Option (MsgId × File) :=
  match freeSlot s.table with
  | some i =>
    if tx then
      some (s.nextMsg, { s with
        table := Function.update s.table i (some (.ours s.nextMsg))
        msgid := Function.update s.msgid s.nextMsg i
        nextMsg := s.nextMsg + 1 })
    else none
  | none => none

/-- `virt_free_msg`. -/
def virtFreeMsg (s : File) (m : MsgId) : File :=
  if s.table (s.msgid m) = some (.ours m) then
    { s with table := Function.update s.table (s.msgid m) none }
  else s

/-- `vfastrpc_buf_free` past its label `skip_buf_cache`. -/
def bufDrop (s : File) (b : BufId) : File :=
  if (s.bufs b).remote then
    { s with
      remoteBufs := s.remoteBufs.erase b
      bufs := Function.update s.bufs b { s.bufs b with remote := false, raddr := 0 }
      freedBufs := b :: s.freedBufs }
  else { s with freedBufs := b :: s.freedBufs }

/-- `vfastrpc_buf_free`. -/
def bufFree (s : File) (b : BufId) (cache : Bool) : File :=
  if cache ∧ (s.bufs b).size < maxCacheBufSize then
    if maxCachedBufs < s.numCached then bufDrop s b
    else { s with cached := b :: s.cached, numCached := s.numCached + 1 }
  else bufDrop s b

def betterFit (s : File) (size : UInt64) (fr : Option BufId) (b : BufId) : Option BufId :=
  if size ≤ (s.bufs b).size ∧ ∀ f ∈ fr, (s.bufs b).size < (s.bufs f).size then some b else fr

/-- The smallest buffer in the cache that is large enough, the first of equal ones. -/
def bestFit (s : File) (size : UInt64) : Option BufId :=
  s.cached.foldl (betterFit s size) none

def bufNew (s : File) (size : UInt64) (rflags : UInt32) (remote : Bool) : BufId × File :=
  (s.nextBuf, { s with
    bufs := Function.update s.bufs s.nextBuf ⟨size, rflags, 0, remote⟩
    nextBuf := s.nextBuf + 1
    remoteBufs := if remote then s.nextBuf :: s.remoteBufs else s.remoteBufs })

/-- `vfastrpc_buf_alloc`; `ok` says whether a new buffer can be allocated. -/
def bufAlloc (s : File) (size : UInt64) (rflags : UInt32) (remote ok : Bool) :
    Option (BufId × File) :=
  if size = 0 then none
  else
    match if remote then none else bestFit s size with
    | some b => some (b, { s with cached := s.cached.erase b, numCached := s.numCached - 1 })
    | none => if ok then some (bufNew s size rflags remote) else none

/-- The saved context of a thread, which `context_restore_interrupted` looks at. -/
def savedOf (s : File) (pid : Tid) : Option CtxId :=
  s.interrupted.find? fun c => (s.ctxs c).pid == pid

/-- `context_restore_interrupted` and, if there is none to restore, `context_alloc`. -/
def internalInvoke (s : File) (pid : Tid) (sc : UInt32) (isAsync : Bool) : File :=
  match savedOf s pid with
  | some c =>
    if (s.ctxs c).sc ≠ sc then s
    else { s.setCtx c { s.ctxs c with stage := .waiting } with
      interrupted := s.interrupted.erase c
      pending := c :: s.pending }
  | none =>
    { s.setCtx s.nextCtx ⟨pid, sc, isAsync, fun _ => none, [], none, .building⟩ with
      pending := s.nextCtx :: s.pending
      nextCtx := s.nextCtx + 1 }

/-- One buffer of the first loop of `get_args`. -/
def mapBuffer (k : Uapi) (s : File) (c : CtxId) (i : Nat) (req : MapRequest)
    (dma : DmaOutcome) : File :=
  match ctxMap k s.maps { req with mflags := 0 } dma with
  | (.ok id, maps) =>
    { s.setCtx c { s.ctxs c with maps := Function.update (s.ctxs c).maps i (some id) } with
      maps := maps }
  | (.error _, maps) => { s.setCtx c { s.ctxs c with stage := .ending } with maps := maps }

/-- A DMA handle of an invoke; `fd` is -1 if there is no descriptor for it. -/
structure Handle where
  fd : Int
  attr : UInt32
  dma : DmaOutcome

/-- Maps and the slots of a context. -/
abbrev Slots := Maps × (Nat → Option MapId)

/-- Let go of the maps in slots `lo` to `lo + n - 1`. -/
def releaseSlots (slots : Nat → Option MapId) (lo n : Nat) (maps : Maps) : Maps :=
  (List.range' lo n).foldl (fun maps i => ctxRelease maps (slots i)) maps

/-- One handle of the second loop of `get_args`; a failure releases the handles before. -/
def mapHandle (k : Uapi) (sc : UInt32) (handles : Nat → Handle) (i : Nat) (st : Slots) :
    Flow Int Slots :=
  if (handles i).fd = -1 then .next st
  else
    let flags := if (handles i).attr &&& k.attrNomap ≠ 0 then k.dmahandleNomap else 0
    let attr := (handles i).attr &&& ~~~k.attrKeepMap
    match ctxMap k st.1 ⟨(handles i).fd, attr, 0, 0, flags⟩ (handles i).dma with
    | (.ok id, maps) => .next (maps, Function.update st.2 i (some id))
    | (.error err, maps) => .bail err (releaseSlots st.2 (bufs sc) (i - bufs sc) maps, st.2)

/-- The second loop of `get_args`, under one lock. -/
def mapHandles (k : Uapi) (s : File) (c : CtxId) (handles : Nat → Handle) : File :=
  let ctx := s.ctxs c
  match loop (mapHandle k ctx.sc handles) (bufs ctx.sc) (InvokeMessage.handles ctx.sc)
      (s.maps, ctx.maps) with
  | .next (maps, slots) => { s.setCtx c { ctx with maps := slots } with maps := maps }
  | .bail _ (maps, slots) =>
    { s.setCtx c { ctx with maps := slots, stage := .ending } with maps := maps }

/-- `get_args` takes an internal buffer for an oversize message. -/
def stageBuffer (s : File) (c : CtxId) (size : UInt64) (ok : Bool) : File :=
  match bufAlloc s size 0 false ok with
  | some (b, s) => s.setCtx c { s.ctxs c with desc := (s.ctxs c).desc ++ [b] }
  | none => s.setCtx c { s.ctxs c with stage := .ending }

/-- `get_args` takes its message. -/
def allocCtxMsg (s : File) (c : CtxId) (tx : Bool) : File :=
  match virtAllocMsg s tx with
  | some (m, s) => s.setCtx c { s.ctxs c with msg := some m }
  | none => s.setCtx c { s.ctxs c with stage := .ending }

/-- `put_args` releases the map of an output buffer. -/
def putBuffer (s : File) (c : CtxId) (i : Nat) : File :=
  { s.setCtx c { s.ctxs c with maps := Function.update (s.ctxs c).maps i none } with
    maps := ctxRelease s.maps ((s.ctxs c).maps i) }

/-- `put_args` releases the handles the back end lists; a zero ends the list. -/
def putFdlist : List UInt64 → Maps → Maps
  | [], maps => maps
  | fd :: rest, maps =>
    if fd = 0 then maps
    else
      match mmapFind maps fd.toUInt32.toInt32.toInt 0 0 0 false with
      | .ok (id, maps) => putFdlist rest (ctxRelease maps (some id))
      | .error _ => putFdlist rest maps

def freeMsg (s : File) (m : Option MsgId) : File :=
  match m with
  | some m => virtFreeMsg s m
  | none => s

/-- `context_free` once the context is off its list. Only the slots of buffers are
released, not those of handles. -/
def contextDrop (s : File) (c : CtxId) : File :=
  let ctx := s.ctxs c
  let s := { s with maps := releaseSlots ctx.maps 0 (bufs ctx.sc) s.maps }
  let s := freeMsg s ctx.msg
  let s := ctx.desc.foldl (fun s b => bufFree s b true) s
  { s with freedCtxs := c :: s.freedCtxs }

/-- `context_free`. -/
def contextFree (s : File) (c : CtxId) : File :=
  contextDrop { s with
    pending := s.pending.erase c
    interrupted := s.interrupted.erase c } c

structure MmapArgs where
  fd : Int
  vaddrin : UInt64
  size : UInt64
  flags : UInt32

/-- `vfastrpc_internal_mmap` up to its message; `pages` says whether pages for the DSP
heap can be allocated. -/
def internalMmap (k : Uapi) (s : File) (ud : MmapArgs) (dma : DmaOutcome) (pages : Bool) :
    File :=
  if ud.flags = adspMmapAddPages then
    if ud.vaddrin ≠ 0 then s
    else
      match bufAlloc s ud.size ud.flags true pages with
      | some (b, s) => { s with op := some (.mmapPages b) }
      | none => s
  else
    match mmapCreate k s.maps ⟨ud.fd, 0, ud.vaddrin, ud.size, ud.flags⟩ dma with
    | (.ok id, maps) => { s with maps := maps, op := some (.mmap id) }
    | (.error _, maps) => { s with maps := maps }

/-- `vfastrpc_internal_mem_map` up to its message. -/
def internalMemMap (k : Uapi) (s : File) (req : MapRequest) (dma : DmaOutcome) : File :=
  match mmapCreate k s.maps req dma with
  | (.ok id, maps) => { s with maps := maps, op := some (.memMap id) }
  | (.error _, maps) => { s with maps := maps }

/-- `vfastrpc_internal_munmap` up to its message. -/
def internalMunmap (k : Uapi) (s : File) (vaddrout size : UInt64) : File :=
  match s.remoteBufs.find? fun b => (s.bufs b).raddr != 0 &&
      (s.bufs b).flags == adspMmapAddPages && (s.bufs b).raddr == vaddrout &&
      (s.bufs b).size == size with
  | some b => { s with op := some (.munmapPages b) }
  | none =>
    match mmapRemove k s.maps (-1) vaddrout size with
    | .ok (id, maps) => { s with maps := maps, op := some (.munmap id) }
    | .error _ => s

/-- `vfastrpc_internal_mem_unmap` up to its message. -/
def internalMemUnmap (k : Uapi) (s : File) (fd : Int) (vaddr length : UInt64) : File :=
  match mmapRemove k s.maps fd vaddr length with
  | .ok (id, maps) => { s with maps := maps, op := some (.memUnmap id) }
  | .error _ => s

/-- `find_interrupted_cmds` and `vfastrpc_internal_munmap_fd` up to its message. -/
def internalMunmapFd (k : Uapi) (s : File) (tid : Tid) (fd : Int) : File :=
  match s.cmds.find? fun cmd => cmd.tid == tid with
  | some cmd =>
    { s with
      cmds := s.cmds.erase cmd
      freedCmds := cmd.id :: s.freedCmds
      op := some (.notified tid cmd.msg) }
  | none =>
    let (_, entries, maps) := mmapRemoveFd k s.maps fd
    if entries = 0 then { s with maps := maps }
    else { s with maps := maps, op := some (.notify tid) }

/-- The flags with which `vfastrpc_internal_mem_unmap` goes to the back end. -/
def unmappable (k : Uapi) (map : VfastrpcMmap) : Bool :=
  map.flags == k.mapFd || map.flags == k.mapFdDelayed || map.flags == k.mapStatic

/-- The rest of the map calls, after the back end answered. `vfastrpc_internal_munmap`
puts a map back as it is, `vfastrpc_internal_mem_unmap` restores its `KEEP_MAP`
reference. -/
def finishOp (k : Uapi) (s : File) (ok : Bool) (raddr : UInt64) : Option File :=
  match s.op with
  | some (.mmap id) =>
    some { s with
      op := none
      maps := if ok then s.maps.set id { s.maps.mem id with raddr := raddr }
        else mmapFree s.maps (some id) false }
  | some (.memMap id) =>
    some { s with
      op := none
      maps := if (s.maps.mem id).raddr = 0 ∧ ok then
          s.maps.set id { s.maps.mem id with raddr := raddr }
        else mmapFree s.maps (some id) false }
  | some (.munmap id) =>
    some { s with
      op := none
      maps := if ok then mmapFree s.maps (some id) false else mmapAdd s.maps id }
  | some (.memUnmap id) =>
    let map := s.maps.mem id
    some { s with
      op := none
      maps := if unmappable k map ∧ ok then mmapFree s.maps (some id) false
        else mmapAdd (if map.keep k then s.maps.set id { map with refs := map.refs + 1 }
          else s.maps) id }
  | some (.mmapPages b) =>
    some { s with
      op := none
      bufs := if ok then Function.update s.bufs b { s.bufs b with raddr := raddr } else s.bufs }
  | some (.munmapPages b) => some { (if ok then bufFree s b false else s) with op := none }
  | _ => none

/-- `virt_fastrpc_munmap_fd` takes its message. -/
def notifyAlloc (s : File) (tx : Bool) : Option File :=
  match s.op with
  | some (.notify tid) =>
    match virtAllocMsg s tx with
    | some (m, s) => some { s with op := some (.notified tid m) }
    | none => some { s with op := none }
  | _ => none

/-- The end of `virt_fastrpc_munmap_fd`: answered, not sent, or interrupted. If
`save_interrupted_cmds` fails nothing refers to the message any more. -/
def notifyDone (s : File) (interrupted saved : Bool) : Option File :=
  match s.op with
  | some (.notified tid m) =>
    if interrupted then
      if saved then
        some { s with
          op := none
          cmds := ⟨s.nextCmd, tid, m⟩ :: s.cmds
          nextCmd := s.nextCmd + 1 }
      else some { s with op := none }
    else some { virtFreeMsg s m with op := none }
  | _ => none

inductive Action where
  | init (cid : Int)
  | invoke (pid : Tid) (sc : UInt32) (isAsync : Bool)
  | mapBuffer (c : CtxId) (i : Nat) (req : MapRequest) (dma : DmaOutcome)
  | mapHandles (c : CtxId) (handles : Nat → Handle)
  | stageBuffer (c : CtxId) (size : UInt64) (ok : Bool)
  | allocMsg (c : CtxId) (tx : Bool)
  | send (c : CtxId) (ok : Bool)
  | interrupt (c : CtxId)
  | wake (c : CtxId)
  | takeAsync (c : CtxId)
  | putBuffer (c : CtxId) (i : Nat)
  | putFdlist (c : CtxId) (fdlist : List UInt64)
  | contextFree (c : CtxId)
  | mmap (ud : MmapArgs) (dma : DmaOutcome) (pages : Bool)
  | memMap (req : MapRequest) (dma : DmaOutcome)
  | munmap (vaddrout size : UInt64)
  | memUnmap (fd : Int) (vaddr length : UInt64)
  | munmapFd (tid : Tid) (fd : Int)
  | finishOp (ok : Bool) (raddr : UInt64)
  | notifyAlloc (tx : Bool)
  | notifyDone (interrupted saved : Bool)
  | cmdBegin (tx : Bool)
  | cmdEnd (m : MsgId)
  | foreignClaim (i : Nat)
  | foreignFree (i : Nat)

/-- Steps of the thread that works on context `c`. -/
def ctxStep (k : Uapi) (s : File) (c : CtxId) : Action → Option File
  | .mapBuffer _ i req dma =>
    if (s.ctxs c).stage = .building ∧ i < bufs (s.ctxs c).sc ∧ (s.ctxs c).maps i = none then
      some (mapBuffer k s c i req dma)
    else none
  | .mapHandles _ handles =>
    if (s.ctxs c).stage = .building then some (mapHandles k s c handles) else none
  | .stageBuffer _ size ok =>
    if (s.ctxs c).stage = .building then some (stageBuffer s c size ok) else none
  | .allocMsg _ tx =>
    if (s.ctxs c).stage = .building ∧ (s.ctxs c).msg = none then some (allocCtxMsg s c tx)
    else none
  -- not `ok`: the rest of `get_args` or `virt_fastrpc_invoke` fails
  | .send _ ok =>
    if (s.ctxs c).stage = .building ∧ (ok → (s.ctxs c).msg ≠ none) then
      some (s.setCtx c { s.ctxs c with
        stage := if ok then if (s.ctxs c).isAsync then .queued else .waiting else .ending })
    else none
  -- `context_save_interrupted`
  | .interrupt _ =>
    if (s.ctxs c).stage = .waiting then
      some { s with pending := s.pending.erase c, interrupted := c :: s.interrupted }
    else none
  | .wake _ =>
    if (s.ctxs c).stage = .waiting then
      some (s.setCtx c { s.ctxs c with stage := .ending })
    else none
  | .takeAsync _ =>
    if (s.ctxs c).stage = .queued then
      some (s.setCtx c { s.ctxs c with stage := .ending })
    else none
  | .putBuffer _ i =>
    if (s.ctxs c).stage = .ending ∧ inbufs (s.ctxs c).sc ≤ i ∧ i < bufs (s.ctxs c).sc then
      some (putBuffer s c i)
    else none
  | .putFdlist _ fdlist =>
    if (s.ctxs c).stage = .ending then
      some { s with maps := putFdlist (fdlist.take InvokeMessage.mFdlist.toNat) s.maps }
    else none
  | .contextFree _ => if (s.ctxs c).stage = .ending then some (contextFree s c) else none
  | _ => none

/-- Calls that take `internal_map_mutex`, once the process exists on the DSP. -/
def mapCall (k : Uapi) (s : File) : Action → Option File
  | .mmap ud dma pages => some (internalMmap k s ud dma pages)
  | .memMap req dma => some (internalMemMap k s req dma)
  | .munmap vaddrout size => some (internalMunmap k s vaddrout size)
  | .memUnmap fd vaddr length => some (internalMemUnmap k s fd vaddr length)
  | .munmapFd tid fd => some (internalMunmapFd k s tid fd)
  | _ => none

/-- Everything else: commands that wait for their answer, and other files. -/
def otherStep (k : Uapi) (s : File) : Action → Option File
  | .init cid => if 0 ≤ cid then some { s with dspProcInit := true, cid := cid } else none
  | .invoke pid sc isAsync => some (internalInvoke s pid sc isAsync)
  | .finishOp ok raddr => finishOp k s ok raddr
  | .notifyAlloc tx => notifyAlloc s tx
  | .notifyDone interrupted saved => notifyDone s interrupted saved
  | .cmdBegin tx =>
    (virtAllocMsg s tx).map fun r => { r.2 with commands := r.1 :: r.2.commands }
  | .cmdEnd m =>
    if m ∈ s.commands then some { virtFreeMsg s m with commands := s.commands.erase m } else none
  | .foreignClaim i =>
    if s.table i = none then some { s with table := Function.update s.table i (some .foreign) }
    else none
  | .foreignFree i =>
    if s.table i = some .foreign then some { s with table := Function.update s.table i none }
    else none
  | _ => none

def Action.ctx : Action → Option CtxId
  | .mapBuffer c _ _ _ => some c
  | .mapHandles c _ => some c
  | .stageBuffer c _ _ => some c
  | .allocMsg c _ => some c
  | .send c _ => some c
  | .interrupt c => some c
  | .wake c => some c
  | .takeAsync c => some c
  | .putBuffer c _ => some c
  | .putFdlist c _ => some c
  | .contextFree c => some c
  | _ => none

def Action.isMapCall : Action → Bool
  | .mmap _ _ _ => true
  | .memMap _ _ => true
  | .munmap _ _ => true
  | .memUnmap _ _ _ => true
  | .munmapFd _ _ => true
  | _ => false

def step (k : Uapi) (s : File) (a : Action) : Option File :=
  match a.ctx with
  | some c => if c ∈ s.pending then ctxStep k s c a else none
  | none =>
    if a.isMapCall then if s.op = none ∧ s.dspProcInit then mapCall k s a else none
    else otherStep k s a

end FileOperations
