import PlatformKernel.ByteMemory
import PlatformKernel.CountedLoops
import PlatformKernel.ReturnCodes

/-!
# Invoke messages

`get_args` sizes and writes the invoke message of a remote call and `put_args`
reads the response. The transmit buffer is represented by the log of the stores
made into it; offsets are relative to the start of the buffer and wrap like the
pointers they stand for. `size_t` is `UInt64`. What the kernel decides for each
argument (maps, staging buffers, faults) is in `Request` and `Outcomes`.
-/

namespace InvokeMessage

open ByteMemory CountedLoops ReturnCodes

-- REMOTE_SCALARS: the 8/8/4/4-bit counts.

def inbufs (sc : UInt32) : Nat := ((sc >>> 16) &&& 0xff).toNat
def outbufs (sc : UInt32) : Nat := ((sc >>> 8) &&& 0xff).toNat
def inhandles (sc : UInt32) : Nat := ((sc >>> 4) &&& 0x0f).toNat
def outhandles (sc : UInt32) : Nat := (sc &&& 0x0f).toNat
def bufs (sc : UInt32) : Nat := inbufs sc + outbufs sc
def handles (sc : UInt32) : Nat := inhandles sc + outhandles sc
def total (sc : UInt32) : Nat := bufs sc + handles sc

def mFdlist : UInt64 := 16
def mCrclist : UInt64 := 64
def mDspPerfList : UInt64 := 12

def sizeOfInvokeMsg : UInt64 := 46
def sizeOfBuf : UInt64 := 40
def sizeOfMappingHead : UInt64 := 32
def sizeOfSgl : UInt64 := 16

/-- The fd, crc, hint and perf lists between the descriptors and the payload. -/
def sizeOfLists : UInt64 := 8 * mFdlist + 4 * mCrclist + 4 + 8 * mDspPerfList

def sizeOfMapping (nents : UInt32) : UInt64 := sizeOfMappingHead + nents.toUInt64 * sizeOfSgl

def pageSize : UInt64 := 4096
def pageAlign (len : UInt64) : UInt64 := (len + (pageSize - 1)) / pageSize * pageSize

def vfastrpcMapAttrCached : UInt32 := 1
def virtioFastrpcInvokeCrc : UInt32 := 1
def virtioFastrpcCmdInvoke : UInt32 := 3
def sessionIdBit : UInt32 := (1 : UInt32) <<< 30

def vfastrpcBufAttrIon : UInt32 := 1
def vfastrpcBufAttrInternal : UInt32 := 2
def vfastrpcBufAttrKeepMap : UInt32 := 4

/-- `remote_arg_t` of a buffer. -/
structure RemoteArg where
  pv : UInt64
  len : UInt64
  deriving DecidableEq

/-- Address and length of each scatterlist entry. -/
structure SgTable where
  nents : UInt32
  sgl : Nat → UInt64 × UInt64

structure VfastrpcMmap where
  fd : Int32
  refs : Int32
  va : UInt64
  len : UInt64
  size : UInt64
  table : SgTable

structure VfastrpcBuf where
  va : UInt64
  size : UInt64
  mapAttr : UInt32
  sgt : SgTable

/-- `ctx->desc[i]`: its type, with the staging buffer where there is one. -/
inductive BufDesc where
  | normal
  | ion
  | internal (buf : VfastrpcBuf)

/-- `ctx->desc && ctx->desc[i].type == VFASTRPC_BUF_TYPE_INTERNAL`. -/
def internalBuf (desc : Option (Nat → BufDesc)) (i : Nat) : Option VfastrpcBuf :=
  match desc with
  | some desc =>
    match desc i with
    | .internal buf => some buf
    | _ => none
  | none => none

/-- The context, the file and the transport parameters that `get_args` reads.
`mmap i` is the map `vfastrpc_mmap_create` finds or makes for argument `i`,
`staging i` the buffer `vfastrpc_buf_alloc` returns for it; `keepMap` is
FASTRPC_ATTR_KEEP_MAP. -/
structure Request where
  sc : UInt32
  handle : UInt32
  seqNum : Int64
  lpra : Nat → RemoteArg
  fds : Option (Nat → Int32)
  attrs : Nat → UInt32
  crc : Bool
  tgid : UInt32
  pid : UInt32
  sessionid : Bool
  cid : Int32
  bufSize : UInt32
  keepMap : UInt32
  mmap : Nat → VfastrpcMmap
  staging : Nat → VfastrpcBuf

/-- What may fail, and what is read from outside: the results of
`vfastrpc_mmap_create`, `kcalloc`, `vfastrpc_buf_alloc`, of `virt_alloc_msg` past
its size check, of `find_vma`, of the user copies, and the values of `crc32_be`. -/
structure Outcomes where
  mmapErr : Nat → Int
  descAlloc : Bool
  bufErr : Nat → Int
  msgid : Option UInt16
  vmStart : Nat → Option UInt64
  copyErr : Nat → Int
  crc32 : Nat → UInt32

inductive Datum where
  | u16 (x : UInt16)
  | u32 (x : UInt32)
  | u64 (x : UInt64)
  | zeros (n : UInt64)
  | user (pv : UInt64) (n : UInt64)
  deriving DecidableEq

def Datum.size : Datum → Nat
  | .u16 _ => 2
  | .u32 _ => 4
  | .u64 _ => 8
  | .zeros n => n.toNat
  | .user _ n => n.toNat

structure Store where
  off : UInt64
  datum : Datum
  deriving DecidableEq

/-- The store lies entirely below `bufSize`. -/
def Store.InBuffer (bufSize : UInt32) (st : Store) : Prop :=
  st.off.toNat + st.datum.size ≤ bufSize.toNat

instance (bufSize : UInt32) (st : Store) : Decidable (st.InBuffer bufSize) :=
  inferInstanceAs (Decidable (_ ≤ _))

/-- `struct virt_msg_hdr`, which every message begins with. -/
structure Hdr where
  pid : UInt32
  tid : UInt32
  cid : Int32
  cmd : UInt32
  len : UInt32
  msgid : UInt16
  result : UInt32

def Hdr.stores (h : Hdr) : List Store :=
  [⟨0, .u32 h.pid⟩, ⟨4, .u32 h.tid⟩, ⟨8, .u32 h.cid.toUInt32⟩, ⟨12, .u32 h.cmd⟩,
    ⟨16, .u32 h.len⟩, ⟨20, .u16 h.msgid⟩, ⟨22, .u32 h.result⟩]

/-- `struct virt_fastrpc_buf`. -/
structure PraEntry where
  attrs : UInt32
  crc : UInt32
  pv : UInt64
  bufLen : UInt64
  offset : UInt64
  payloadLen : UInt64

def praOff (i : Nat) : UInt64 := sizeOfInvokeMsg + UInt64.ofNat i * sizeOfBuf

def headStores (i : Nat) (e : PraEntry) : List Store :=
  [⟨praOff i, .u32 e.attrs⟩, ⟨praOff i + 4, .u32 e.crc⟩, ⟨praOff i + 8, .u64 e.pv⟩,
    ⟨praOff i + 16, .u64 e.bufLen⟩]

def tailStores (i : Nat) (e : PraEntry) : List Store :=
  [⟨praOff i + 24, .u64 e.offset⟩, ⟨praOff i + 32, .u64 e.payloadLen⟩]

/-- `struct virt_fastrpc_mapping` without its scatter list. -/
structure MappingHead where
  fd : Int32
  refcount : Int32
  va : UInt64
  len : UInt64
  attr : UInt32
  nents : UInt32

def mappingHeadStores (off : UInt64) (m : MappingHead) : List Store :=
  [⟨off, .u32 m.fd.toUInt32⟩, ⟨off + 4, .u32 m.refcount.toUInt32⟩, ⟨off + 8, .u64 m.va⟩,
    ⟨off + 16, .u64 m.len⟩, ⟨off + 24, .u32 m.attr⟩, ⟨off + 28, .u32 m.nents⟩]

def sglStores (off : UInt64) (table : SgTable) (k : Nat) : List Store :=
  [⟨off + sizeOfMappingHead + UInt64.ofNat k * sizeOfSgl, .u64 (table.sgl k).1⟩,
    ⟨off + sizeOfMappingHead + UInt64.ofNat k * sizeOfSgl + 8, .u64 (table.sgl k).2⟩]

def mappingStores (off : UInt64) (m : MappingHead) (table : SgTable) : List Store :=
  mappingHeadStores off m ++ (List.range table.nents.toNat).flatMap (sglStores off table)

/-- Byte `k` of what is stored; `user` is the caller's memory. -/
def datumByte (user : Mem) : Datum → Nat → UInt8
  | .u16 x, k => byteOf x.toNat k
  | .u32 x, k => byteOf x.toNat k
  | .u64 x, k => byteOf x.toNat k
  | .zeros _, _ => 0
  | .user pv _, k => user (pv + UInt64.ofNat k)

def storeWrite (user : Mem) (st : Store) : Write := ⟨st.off, st.datum.size, datumByte user st.datum⟩

def writes (user : Mem) (stores : List Store) : List Write := stores.map (storeWrite user)

/-- The buffer after the stores, over its previous contents. -/
def contents (user : Mem) (stores : List Store) (prev : Mem) : Mem :=
  applyAll (writes user stores) prev

def u32At (m : Mem) (off : UInt64) : UInt32 := UInt32.ofNat (word 4 m off)
def u64At (m : Mem) (off : UInt64) : UInt64 := UInt64.ofNat (word 8 m off)

/-- `rpra[i].payload_len` as it is read again behind the record. Where the offsets have wrapped,
the record may lie over its own descriptor. -/
def loadedLen (i : Nat) (len : UInt64) (record : List Store) : UInt64 :=
  u64At (contents (fun _ => 0) (⟨praOff i + 32, .u64 len⟩ :: record) fun _ => 0) (praOff i + 32)

/-- Locals of `get_args` and the parts of the context it fills. `starts` is history:
the payload cursor at the beginning of each argument. -/
structure State where
  maps : Nat → Option VfastrpcMmap
  copylen : UInt64
  handlelen : UInt64
  outbufsOffset : UInt32
  desc : Option (Nat → BufDesc)
  size : UInt64
  msgid : Option UInt16
  pra : Nat → PraEntry
  payload : UInt64
  stores : List Store
  starts : Nat → UInt64

def State.put (s : State) (new : List Store) : State := { s with stores := s.stores ++ new }

def State.setPra (s : State) (i : Nat) (e : PraEntry) : State :=
  { s with pra := Function.update s.pra i e }

/-- All six fields of a descriptor. -/
def State.putPra (s : State) (i : Nat) (e : PraEntry) : State :=
  (s.setPra i e).put (headStores i e ++ tailStores i e)

/-- A context fresh from `context_alloc`, and the uninitialised descriptor array. -/
def State.fresh (pra : Nat → PraEntry) : State where
  maps := fun _ => none
  copylen := 0
  handlelen := 0
  outbufsOffset := 0
  desc := none
  size := 0
  msgid := none
  pra := pra
  payload := 0
  stores := []
  starts := fun _ => 0

def Request.hasFd (req : Request) (i : Nat) : Bool :=
  match req.fds with
  | some fds => fds i != -1
  | none => false

def State.addLen (s : State) (sc : UInt32) (i : Nat) (len : UInt64) : State :=
  { s with
    copylen := s.copylen + len
    outbufsOffset := if i < inbufs sc then s.outbufsOffset + len.toUInt32 else s.outbufsOffset }

/-- First loop: map ION buffers and add up the lengths. -/
def mapBuffer (req : Request) (out : Outcomes) (i : Nat) (s : State) : Flow Int State :=
  let len := (req.lpra i).len
  if len = 0 then .next s
  else if req.hasFd i then
    if out.mmapErr i ≠ 0 then .bail (out.mmapErr i) s
    else
      let map := req.mmap i
      .next ({ s with maps := Function.update s.maps i (some map) }.addLen req.sc i
        (sizeOfMapping map.table.nents))
  else .next (s.addLen req.sc i len)

/-- Second loop: map DMA handles. The references taken before an error are dropped
again there; the map table belongs to the file and is not part of this state. -/
def mapHandle (req : Request) (out : Outcomes) (i : Nat) (s : State) : Flow Int State :=
  if req.hasFd i then
    if out.mmapErr i ≠ 0 then .bail (out.mmapErr i) s
    else
      let map := req.mmap i
      .next { s with
        maps := Function.update s.maps i (some map)
        handlelen := s.handlelen + sizeOfMapping map.table.nents }
  else .next s

def vfastrpcBufAlloc (size : UInt64) (err : Int) (buf : VfastrpcBuf) : Except Int VfastrpcBuf :=
  if size = 0 then .error verifyErr else if err ≠ 0 then .error err else .ok buf

/-- Third loop: choose how each buffer travels when the contents do not fit. -/
def stageBuffer (req : Request) (out : Outcomes) (i : Nat) (s : State) : Flow Int State :=
  let len := (req.lpra i).len
  let desc := s.desc.getD fun _ => .normal
  match s.maps i with
  | some map =>
    .next ({ s with desc := some (Function.update desc i .ion) }.addLen req.sc i
      (sizeOfMapping map.table.nents))
  | none =>
    if len < pageSize then
      .next ({ s with desc := some (Function.update desc i .normal) }.addLen req.sc i len)
    else
      match vfastrpcBufAlloc (pageAlign len) (out.bufErr i) (req.staging i) with
      | .error err => .bail err s
      | .ok buf =>
        let buf := { buf with mapAttr := vfastrpcMapAttrCached }
        .next ({ s with desc := some (Function.update desc i (.internal buf)) }.addLen req.sc i
          (sizeOfMapping buf.sgt.nents))

def metalen (sc : UInt32) : UInt64 :=
  sizeOfInvokeMsg + UInt64.ofNat (total sc) * sizeOfBuf + sizeOfLists

def State.setSize (s : State) (sc : UInt32) : State :=
  { s with size := metalen sc + s.copylen + s.handlelen }

def sizeMessage (req : Request) (out : Outcomes) (s : State) : Flow Int State :=
  let s := s.setSize req.sc
  if req.bufSize.toUInt64 < s.size then
    let s := { s with copylen := 0, outbufsOffset := 0 }
    if out.descAlloc then
      (loop (stageBuffer req out) 0 (bufs req.sc)
        { s with desc := some fun _ => .normal }).andThen fun s => .next (s.setSize req.sc)
    else .bail (-ENOMEM) s
  else .next s

/-- The `int size` parameter is compared with the unsigned `buf_size`. -/
def virtAllocMsg (bufSize : UInt32) (size : Int32) (msgid : Option UInt16) : Option UInt16 :=
  if bufSize < size.toUInt32 then none else msgid

def hdr (req : Request) (size : UInt64) (msgid : UInt16) : Hdr :=
  ⟨req.tgid, if req.sessionid then req.pid ||| sessionIdBit else req.pid, req.cid,
    virtioFastrpcCmdInvoke, size.toUInt32, msgid, 0xffffffff⟩

def headerStores (req : Request) (size : UInt64) (msgid : UInt16) : List Store :=
  (hdr req size msgid).stores ++
    [⟨26, .u32 req.handle⟩,
      ⟨30, .u32 req.sc⟩,
      ⟨34, .u32 (if req.crc then virtioFastrpcInvokeCrc else 0)⟩,
      ⟨38, .u64 req.seqNum.toUInt64⟩,
      ⟨praOff (total req.sc), .zeros sizeOfLists⟩]

def allocMessage (req : Request) (out : Outcomes) (s : State) : Flow Int State :=
  match virtAllocMsg req.bufSize s.size.toUInt32.toInt32 out.msgid with
  | none => .bail (-ENOMEM) s
  | some msgid =>
    .next ({ s with
      msgid := some msgid
      payload := praOff (total req.sc) + sizeOfLists }.put (headerStores req s.size msgid))

/-- `calc_compare_crc` with no remote value: a store only when the caller wants crcs. -/
def State.putCrc (s : State) (req : Request) (out : Outcomes) (i : Nat) : State :=
  if req.crc then
    (s.setPra i { s.pra i with crc := out.crc32 i }).put [⟨praOff i + 4, .u32 (out.crc32 i)⟩]
  else s

def State.mark (s : State) (i : Nat) : State :=
  { s with starts := Function.update s.starts i s.payload }

def State.skip (s : State) (n : UInt64) : State := { s with payload := s.payload + n }

/-- `payload += rpra[i].payload_len`, read from the buffer after `record` has been stored. -/
def State.advance (s : State) (i : Nat) (record : List Store) : State :=
  s.skip (loadedLen i (s.pra i).payloadLen record)

/-- The mapping record, its crc, and the cursor past it. -/
def State.putMapping (s : State) (req : Request) (out : Outcomes) (i : Nat)
    (record : List Store) : State :=
  ((s.put record).putCrc req out i).advance i record

/-- The first four fields of an ION buffer's descriptor. -/
def ionHead (req : Request) (i : Nat) (e : PraEntry) : PraEntry :=
  { e with
    attrs := if req.attrs i &&& req.keepMap ≠ 0 then
      vfastrpcBufAttrIon ||| vfastrpcBufAttrKeepMap else vfastrpcBufAttrIon
    crc := 0
    pv := (req.lpra i).pv
    bufLen := (req.lpra i).len }

/-- The last two descriptor fields are written after the address has been checked. -/
def writeIon (req : Request) (out : Outcomes) (i : Nat) (map : VfastrpcMmap) (s : State) :
    Flow Int State :=
  let arg := req.lpra i
  let e := ionHead req i (s.pra i)
  let s := (s.setPra i e).put (headStores i e)
  match out.vmStart i with
  | none => .bail verifyErr s
  | some vmStart =>
    let offset := arg.pv - vmStart
    if offset + arg.len ≤ map.size then
      let e := { e with offset := offset, payloadLen := sizeOfMapping map.table.nents }
      .next (((s.setPra i e).put (tailStores i e)).putMapping req out i
        (mappingStores s.payload
          ⟨map.fd, map.refs, map.va, map.len, vfastrpcMapAttrCached, map.table.nents⟩ map.table))
    else .bail (-EFAULT) s

/-- A staging buffer: its record is cleared first, and an in-buffer's contents are
copied into the staging buffer, not into the message. -/
def writeInternal (req : Request) (out : Outcomes) (i : Nat) (buf : VfastrpcBuf) (s : State) :
    Flow Int State :=
  let arg := req.lpra i
  let s := s.putPra i ⟨vfastrpcBufAttrInternal, 0, arg.pv, arg.len, 0,
    sizeOfMapping buf.sgt.nents⟩
  let done := s.putMapping req out i (⟨s.payload, .zeros sizeOfMappingHead⟩ ::
    mappingStores s.payload ⟨-1, 1, buf.va, buf.size, buf.mapAttr, buf.sgt.nents⟩ buf.sgt)
  if i < inbufs req.sc ∧ arg.len ≠ 0 ∧ out.copyErr i ≠ 0 then
    .bail (out.copyErr i) { done with payload := s.payload }
  else .next done

def writeInline (req : Request) (out : Outcomes) (i : Nat) (s : State) : Flow Int State :=
  let arg := req.lpra i
  let s := s.putPra i ⟨0, 0, arg.pv, arg.len, 0, arg.len⟩
  if i < inbufs req.sc ∧ arg.len ≠ 0 then
    let s := s.put [⟨s.payload, .user arg.pv arg.len⟩]
    if out.copyErr i ≠ 0 then .bail (out.copyErr i) s
    else
      let s := s.putCrc req out i
      .next (s.skip arg.len)
  else .next (s.skip arg.len)

def writeBuffer (req : Request) (out : Outcomes) (i : Nat) (s : State) : Flow Int State :=
  let s := s.mark i
  match s.maps i with
  | some map => writeIon req out i map s
  | none =>
    match internalBuf s.desc i with
    | some buf => writeInternal req out i buf s
    | none => writeInline req out i s

def writeHandle (req : Request) (out : Outcomes) (i : Nat) (s : State) : Flow Int State :=
  let arg := req.lpra i
  let s := s.mark i
  match (if req.fds.isSome then s.maps i else none) with
  | some map =>
    .next ((s.putPra i ⟨vfastrpcBufAttrIon, 0, 0, arg.len, arg.pv,
      sizeOfMapping map.table.nents⟩).putMapping req out i
      (mappingStores s.payload
        ⟨map.fd, map.refs, map.va, arg.len, vfastrpcMapAttrCached, map.table.nents⟩ map.table))
  | none => .next s

def getArgs (req : Request) (out : Outcomes) (pra : Nat → PraEntry) : Flow Int State :=
  (((((loop (mapBuffer req out) 0 (bufs req.sc) (State.fresh pra)).andThen
    (loop (mapHandle req out) (bufs req.sc) (handles req.sc))).andThen
    (sizeMessage req out)).andThen
    (allocMessage req out)).andThen
    (loop (writeBuffer req out) 0 (bufs req.sc))).andThen
    (loop (writeHandle req out) (bufs req.sc) (handles req.sc))

/-- The fields of the response that `put_args` reads. -/
structure Response where
  result : UInt32
  pra : Nat → PraEntry
  fdlist : Nat → UInt64

/-- What `put_args` does, in order. Offsets are those read in the response. -/
inductive Effect where
  | release (i : Nat)
  | copyStaged (i : Nat) (pv : UInt64) (n : UInt64)
  | copyPayload (i : Nat) (pv : UInt64) (off : UInt64) (n : UInt64)
  | releaseFd (fd : Int32)
  | copyCrclist (off : UInt64) (n : UInt64)
  deriving DecidableEq

structure Reader where
  maps : Nat → Option VfastrpcMmap
  payload : UInt64
  effects : List Effect

def Reader.emit (r : Reader) (e : Effect) : Reader := { r with effects := r.effects ++ [e] }

def Reader.copied (r : Reader) (err : Int) (next : Reader) : Flow Int Reader :=
  if err ≠ 0 then .bail err r else .next next

/-- One out-buffer; `copyErr` are the results of the copies to the user. -/
def readBuffer (req : Request) (desc : Option (Nat → BufDesc)) (rsp : Response)
    (copyErr : Nat → Int) (i : Nat) (r : Reader) : Flow Int Reader :=
  let arg := req.lpra i
  let past (r : Reader) : Reader := { r with payload := r.payload + (rsp.pra i).payloadLen }
  match r.maps i with
  | some _ =>
    let r := r.emit (.release i)
    .next (past { r with maps := Function.update r.maps i none })
  | none =>
    match internalBuf desc i with
    | some _ =>
      let r := r.emit (.copyStaged i arg.pv arg.len)
      r.copied (copyErr i) (past r)
    | none =>
      let r := r.emit (.copyPayload i arg.pv r.payload (rsp.pra i).bufLen)
      r.copied (copyErr i) (past r)

/-- Maps that the DSP released; a lookup that finds nothing is skipped. -/
def readFdlist (rsp : Response) : Nat → Nat → Reader → Reader
  | _, 0, r => r
  | k, n + 1, r =>
    if rsp.fdlist k = 0 then r
    else readFdlist rsp (k + 1) n (r.emit (.releaseFd (rsp.fdlist k).toUInt32.toInt32))

def putArgs (req : Request) (s : State) (rsp : Response) (copyErr : Nat → Int) (crcErr : Int) :
    Flow Int Reader :=
  let lists := praOff (total req.sc)
  let r : Reader := ⟨s.maps, lists + sizeOfLists + s.outbufsOffset.toUInt64, []⟩
  if rsp.result ≠ 0 then .bail (rsp.result.toInt32.toInt) r
  else
    (loop (readBuffer req s.desc rsp copyErr) (inbufs req.sc) (outbufs req.sc) r).andThen fun r =>
      let r := readFdlist rsp 0 mFdlist.toNat r
      if req.crc then
        let r := r.emit (.copyCrclist (lists + 8 * mFdlist) (4 * mCrclist))
        r.copied crcErr r
      else .next r

end InvokeMessage
