import PlatformKernel.MessageReading

/-!
# Messages with a scatter list

`virt_fastrpc_mmap` and `virt_fastrpc_mem_map` size their message by the number of
entries of the scatter list. The number of bytes is computed in 64 bits and kept in
an `int`, which `virt_alloc_msg` compares with an unsigned limit, while the loop that
writes the entries runs to the number itself. A scatter list whose size wraps at
32 bits is accepted by what is left of it.
-/

namespace MapMessages

open ByteMemory InvokeMessage InvokeLayout MessageBytes MessageReading

def virtioFastrpcCmdMmap : UInt32 := 4
def virtioFastrpcCmdMemMap : UInt32 := 9

def sizeOfMmapMsg : UInt64 := 70
def sizeOfMemMapMsg : UInt64 := 78

/-- An entry of the kernel's list; `phys` is `page_to_phys(sg_page(sgl))`. -/
structure Scatterlist where
  dmaAddress : UInt64
  dmaLength : UInt32
  phys : UInt64
  length : UInt32

/-- What the header takes from the file and the calling thread. -/
structure Caller where
  tgid : UInt32
  pid : UInt32
  sessionid : Bool
  cid : Int32

/-- The stores of a message and the `unsigned int` length with which it is sent. -/
structure Message where
  len : UInt32
  stores : List Store

/-- `nents * sizeof(*sgbuf)`, a `size_t` kept in an `int`. -/
def sgbufSize (nents : UInt32) : Int32 := (nents.toUInt64 * sizeOfSgl).toUInt32.toInt32

/-- `sizeof(*vmsg) + sgbuf_size`: the `int` is widened for the sum, the sum is cut again. -/
def totalSize (sizeOfMsg : UInt64) (nents : UInt32) : Int32 :=
  (sizeOfMsg + (sgbufSize nents).toInt64.toUInt64).toUInt32.toInt32

def Caller.hdr (caller : Caller) (tid cmd : UInt32) (len : Int32) (msgid : UInt16) : Hdr :=
  ⟨caller.tgid, tid, caller.cid, cmd, len.toUInt32, msgid, 0xffffffff⟩

/-- `sgbuf[sgl_index]`; the index is an `int`. -/
def sgbufStores (sgbuf : UInt64) (entry : Nat → UInt64 × UInt64) (k : Nat) : List Store :=
  [⟨sgbuf + (Int32.ofNat k).toInt64.toUInt64 * sizeOfSgl, .u64 (entry k).1⟩,
    ⟨sgbuf + (Int32.ofNat k).toInt64.toUInt64 * sizeOfSgl + 8, .u64 (entry k).2⟩]

/-- The copy of the mapping and the loop over the scatter list. -/
def mmapStores (off : UInt64) (mmap : MappingHead) (entry : Nat → UInt64 × UInt64) : List Store :=
  mappingHeadStores off mmap ++
    (List.range mmap.nents.toNat).flatMap (sgbufStores (off + sizeOfMappingHead) entry)

/-- An entry that was not mapped for DMA is sent by its physical address. -/
def mmapEntry (sgl : Scatterlist) : UInt64 × UInt64 :=
  if sgl.dmaLength ≠ 0 then (sgl.dmaAddress, sgl.dmaLength.toUInt64)
  else (sgl.phys, sgl.length.toUInt64)

def memMapEntry (sgl : Scatterlist) : UInt64 × UInt64 := (sgl.dmaAddress, sgl.dmaLength.toUInt64)

/-- `virt_fastrpc_mmap` up to the send; `msgid` is what `virt_alloc_msg` finds past its size
check. -/
def virtFastrpcMmap (bufSize : UInt32) (msgid : Option UInt16) (caller : Caller) (flags : UInt32)
    (table : Nat → Scatterlist) (mmap : MappingHead) : Option Message :=
  let size := totalSize sizeOfMmapMsg mmap.nents
  let tid := if caller.sessionid then caller.pid ||| sessionIdBit else caller.pid
  match virtAllocMsg bufSize size msgid with
  | none => none
  | some msgid =>
    some ⟨size.toUInt32, (caller.hdr tid virtioFastrpcCmdMmap size msgid).stores ++
      ([⟨26, .u32 flags⟩, ⟨30, .u64 0⟩] ++ mmapStores 38 mmap fun k => mmapEntry (table k))⟩

/-- `virt_fastrpc_mem_map` up to the send. -/
def virtFastrpcMemMap (bufSize : UInt32) (msgid : Option UInt16) (caller : Caller)
    (offset : Int32) (flags : UInt32) (attrs : Int32) (table : Nat → Scatterlist)
    (vmmap : MappingHead) : Option Message :=
  let size := totalSize sizeOfMemMapMsg vmmap.nents
  match virtAllocMsg bufSize size msgid with
  | none => none
  | some msgid =>
    some ⟨size.toUInt32, (caller.hdr caller.pid virtioFastrpcCmdMemMap size msgid).stores ++
      ([⟨26, .u32 offset.toUInt32⟩, ⟨30, .u32 flags⟩, ⟨34, .u32 attrs.toUInt32⟩, ⟨38, .u64 0⟩] ++
        mmapStores 46 vmmap fun k => memMapEntry (table k))⟩

/-- The two senders with the arguments that only one of them has. -/
inductive MapCall where
  | mmap (flags : UInt32)
  | memMap (offset : Int32) (flags : UInt32) (attrs : Int32)

def MapCall.send (call : MapCall) (bufSize : UInt32) (msgid : Option UInt16) (caller : Caller)
    (table : Nat → Scatterlist) (mmap : MappingHead) : Option Message :=
  match call with
  | .mmap flags => virtFastrpcMmap bufSize msgid caller flags table mmap
  | .memMap offset flags attrs =>
    virtFastrpcMemMap bufSize msgid caller offset flags attrs table mmap

def MapCall.entry : MapCall → Scatterlist → UInt64 × UInt64
  | .mmap _ => mmapEntry
  | .memMap _ _ _ => memMapEntry

/-- Where the mapping lies in the message. -/
def MapCall.mmapOff : MapCall → UInt64
  | .mmap _ => 38
  | .memMap _ _ _ => 46

def MapCall.sizeOfMsg : MapCall → UInt64
  | .mmap _ => sizeOfMmapMsg
  | .memMap _ _ _ => sizeOfMemMapMsg

/-- The size of the message over the integers. -/
def MapCall.bytes (call : MapCall) (nents : UInt32) : Nat :=
  call.sizeOfMsg.toNat + 16 * nents.toNat

theorem toUInt32_widened (x : Int32) : x.toInt64.toUInt64.toUInt32 = x.toUInt32 := by
  apply UInt32.eq_of_toBitVec_eq
  change (BitVec.signExtend 64 x.toBitVec).setWidth 32 = x.toBitVec
  ext i hi
  simp [BitVec.getLsbD_signExtend, hi]
  omega

/-- The detour through `int` loses what is above 32 bits and nothing else. -/
theorem totalSize_toNat (sizeOfMsg : UInt64) (nents : UInt32) :
    (totalSize sizeOfMsg nents).toUInt32.toNat = (sizeOfMsg.toNat + 16 * nents.toNat) % 2 ^ 32 := by
  have hn := nents.toNat_lt
  have cut : ((sgbufSize nents).toInt64.toUInt64).toNat % 2 ^ 32 = 16 * nents.toNat % 2 ^ 32 := by
    have widened := congrArg UInt32.toNat (toUInt32_widened (sgbufSize nents))
    simp only [sgbufSize, UInt32.toUInt32_toInt32, UInt64.toNat_toUInt32, UInt64.toNat_mul,
      UInt32.toNat_toUInt64, sizeOfSgl, UInt64.reduceToNat] at widened ⊢
    omega
  simp only [totalSize, UInt32.toUInt32_toInt32, UInt64.toNat_toUInt32, UInt64.toNat_add]
  omega

theorem virtAllocMsg_some {bufSize : UInt32} {size : Int32} {msgid : Option UInt16} :
    (virtAllocMsg bufSize size msgid).isSome ↔
      msgid.isSome ∧ size.toUInt32.toNat ≤ bufSize.toNat := by
  unfold virtAllocMsg
  split_ifs with big
  · have := UInt32.lt_iff_toNat_lt.mp big
    simp only [Option.isSome_none, Bool.false_eq_true, false_iff, not_and]
    omega
  · have := UInt32.le_iff_toNat_le.mp (UInt32.not_lt.mp big)
    simp only [this, and_true]

/-- A message is obtained if what is left of its size at 32 bits fits. -/
theorem send_some (call : MapCall) {bufSize : UInt32} {msgid : Option UInt16} {caller : Caller}
    {table : Nat → Scatterlist} {mmap : MappingHead} :
    (call.send bufSize msgid caller table mmap).isSome ↔
      msgid.isSome ∧ call.bytes mmap.nents % 2 ^ 32 ≤ bufSize.toNat := by
  have size := totalSize_toNat call.sizeOfMsg mmap.nents
  have alloc : (virtAllocMsg bufSize (totalSize call.sizeOfMsg mmap.nents) msgid).isSome ↔ _ :=
    virtAllocMsg_some
  rw [size] at alloc
  rw [MapCall.bytes, ← alloc]
  cases call with
  | mmap flags =>
    simp only [MapCall.send, virtFastrpcMmap, MapCall.sizeOfMsg]
    cases virtAllocMsg bufSize (totalSize sizeOfMmapMsg mmap.nents) msgid <;> rfl
  | memMap offset flags attrs =>
    simp only [MapCall.send, virtFastrpcMemMap, MapCall.sizeOfMsg]
    cases virtAllocMsg bufSize (totalSize sizeOfMemMapMsg mmap.nents) msgid <;> rfl

theorem index_widened {k : Nat} (small : k < 2 ^ 31) :
    (Int32.ofNat k).toInt64.toUInt64 = UInt64.ofNat k := by
  have most : Int32.maxValue.toInt = 2147483647 := rfl
  rw [Int32.toInt64_ofNat' (by omega)]
  rfl

/-- Below 2 ^ 31 entries the index does not wrap. -/
theorem mmapStores_eq {mmap : MappingHead} (small : mmap.nents.toNat ≤ 2 ^ 31) (off : UInt64)
    (entry : Nat → UInt64 × UInt64) :
    mmapStores off mmap entry = mappingStores off mmap ⟨mmap.nents, entry⟩ := by
  refine congrArg (mappingHeadStores off mmap ++ ·) (List.flatMap_congr fun k hk => ?_)
  have hk : k < mmap.nents.toNat := List.mem_range.mp hk
  simp only [sgbufStores, sglStores, index_widened (k := k) (by omega)]

/-- Stores between `lo` and `hi`, in increasing order. -/
structure Ordered (lo hi : Nat) (stores : List Store) : Prop where
  sorted : stores.Pairwise Before
  within : ∀ st ∈ stores, Within lo hi st

theorem Ordered.append {lo mid hi : Nat} {first second : List Store} (h : Ordered lo mid first)
    (h' : Ordered mid hi second) (up : lo ≤ mid) (down : mid ≤ hi) :
    Ordered lo hi (first ++ second) where
  sorted := List.pairwise_append.mpr ⟨h.sorted, h'.sorted, fun st mem st' mem' =>
    Nat.le_trans (h.within st mem).2 (h'.within st' mem').1⟩
  within := by
    intro st mem
    rcases List.mem_append.mp mem with mem | mem
    · exact ⟨(h.within st mem).1, Nat.le_trans (h.within st mem).2 down⟩
    · exact ⟨Nat.le_trans up (h'.within st mem).1, (h'.within st mem).2⟩

theorem hdr_ordered (h : Hdr) : Ordered 0 26 h.stores where
  sorted := by simp [Hdr.stores, Before, Datum.size]
  within := by simp [Hdr.stores, Within, Datum.size]

theorem front_ordered {fields : List Store} {off : Nat} (ordered : Ordered 26 off fields)
    (room : 26 ≤ off) (h : Hdr) :
    Ordered 0 off (h.stores ++ fields) ∧ ⟨16, .u32 h.len⟩ ∈ h.stores ++ fields := by
  constructor
  · exact (hdr_ordered h).append ordered (Nat.zero_le 26) room
  · simp [Hdr.stores]

/-- Header and arguments come before the mapping. -/
theorem send_stores {call : MapCall} {bufSize : UInt32} {msgid : Option UInt16} {caller : Caller}
    {table : Nat → Scatterlist} {mmap : MappingHead} {msg : Message}
    (sent : call.send bufSize msgid caller table mmap = some msg) :
    msg.len = (totalSize call.sizeOfMsg mmap.nents).toUInt32 ∧
      ∃ front, Ordered 0 call.mmapOff.toNat front ∧ ⟨16, .u32 msg.len⟩ ∈ front ∧
        msg.stores = front ++ mmapStores call.mmapOff mmap fun k => call.entry (table k) := by
  cases call with
  | mmap flags =>
    simp only [MapCall.send, virtFastrpcMmap] at sent
    cases found : virtAllocMsg bufSize (totalSize sizeOfMmapMsg mmap.nents) msgid with
    | none =>
      rw [found] at sent
      cases sent
    | some id =>
      rw [found] at sent
      obtain rfl := Option.some.inj sent
      have fields : Ordered 26 38 [⟨26, .u32 flags⟩, ⟨30, .u64 0⟩] :=
        ⟨by simp [Before, Datum.size], by simp [Within, Datum.size]⟩
      obtain ⟨front, hdr⟩ := front_ordered fields (by decide) (caller.hdr _ _ _ id)
      exact ⟨rfl, _, front, hdr, (List.append_assoc _ _ _).symm⟩
  | memMap offset flags attrs =>
    simp only [MapCall.send, virtFastrpcMemMap] at sent
    cases found : virtAllocMsg bufSize (totalSize sizeOfMemMapMsg mmap.nents) msgid with
    | none =>
      rw [found] at sent
      cases sent
    | some id =>
      rw [found] at sent
      obtain rfl := Option.some.inj sent
      have fields : Ordered 26 46 [⟨26, .u32 offset.toUInt32⟩, ⟨30, .u32 flags⟩,
          ⟨34, .u32 attrs.toUInt32⟩, ⟨38, .u64 0⟩] :=
        ⟨by simp [Before, Datum.size], by simp [Within, Datum.size]⟩
      obtain ⟨front, hdr⟩ := front_ordered fields (by decide) (caller.hdr _ _ _ id)
      exact ⟨rfl, _, front, hdr, (List.append_assoc _ _ _).symm⟩

/-- The message is as long as it says and gives the scatter list back. -/
structure Whole (call : MapCall) (table : Nat → Scatterlist) (mmap : MappingHead)
    (msg : Message) : Prop where
  len : msg.len.toNat = call.bytes mmap.nents
  inside : ∀ st ∈ msg.stores, st.off.toNat + st.datum.size ≤ call.bytes mmap.nents
  hdrLen : ∀ user prev, (u32At (contents user msg.stores prev) 16).toNat = call.bytes mmap.nents
  nents : ∀ user prev,
    (readTable (contents user msg.stores prev) call.mmapOff).nents = mmap.nents
  entries : ∀ user prev k, k < mmap.nents.toNat →
    (readTable (contents user msg.stores prev) call.mmapOff).sgl k = call.entry (table k)

/-- A message is obtained exactly if it fits, and then it is whole. -/
structure Exact (call : MapCall) (bufSize : UInt32) (caller : Caller)
    (table : Nat → Scatterlist) (mmap : MappingHead) : Prop where
  obtained : ∀ msgid, (call.send bufSize msgid caller table mmap).isSome ↔
    msgid.isSome ∧ call.bytes mmap.nents ≤ bufSize.toNat
  whole : ∀ msgid msg, call.send bufSize msgid caller table mmap = some msg →
    Whole call table mmap msg

theorem mmapOff_toNat (call : MapCall) : call.mmapOff.toNat + 32 = call.sizeOfMsg.toNat := by
  cases call <;> rfl

theorem send_ordered {call : MapCall} {bufSize : UInt32} {msgid : Option UInt16} {caller : Caller}
    {table : Nat → Scatterlist} {mmap : MappingHead} {msg : Message}
    (small : mmap.nents.toNat ≤ 2 ^ 31)
    (sent : call.send bufSize msgid caller table mmap = some msg) :
    Ordered 0 (call.bytes mmap.nents) msg.stores := by
  have off := mmapOff_toNat call
  have most : call.sizeOfMsg.toNat ≤ 78 := by cases call <;> exact Nat.le_of_ble_eq_true rfl
  obtain ⟨-, front, ordered, -, stored⟩ := send_stores sent
  have room : call.mmapOff.toNat +
      mapRecord ⟨mmap.nents, fun k => call.entry (table k)⟩ < 2 ^ 64 := by
    simp only [mapRecord]
    omega
  have mapping : Ordered call.mmapOff.toNat (call.bytes mmap.nents)
      (mmapStores call.mmapOff mmap fun k => call.entry (table k)) := by
    rw [mmapStores_eq small]
    refine ⟨mapping_sorted mmap room, fun st mem => ?_⟩
    obtain ⟨above, below⟩ := mapping_within mmap room st mem
    refine ⟨above, Nat.le_trans below ?_⟩
    simp only [mapRecord, MapCall.bytes]
    omega
  rw [stored]
  refine ordered.append mapping (Nat.zero_le _) ?_
  rw [MapCall.bytes]
  omega

theorem send_whole {call : MapCall} {bufSize : UInt32} {msgid : Option UInt16} {caller : Caller}
    {table : Nat → Scatterlist} {mmap : MappingHead} {msg : Message}
    (fits : call.bytes mmap.nents < 2 ^ 32)
    (sent : call.send bufSize msgid caller table mmap = some msg) :
    Whole call table mmap msg := by
  have small : mmap.nents.toNat ≤ 2 ^ 31 := by
    rw [MapCall.bytes] at fits
    omega
  have ordered := send_ordered small sent
  obtain ⟨len, front, -, hdr, stored⟩ := send_stores sent
  have inside : ∀ st ∈ msg.stores, st.off.toNat + st.datum.size ≤ 2 ^ 64 := by
    intro st mem
    have := (ordered.within st mem).2
    omega
  have size : msg.len.toNat = call.bytes mmap.nents := by
    rw [len, totalSize_toNat, ← MapCall.bytes, Nat.mod_eq_of_lt (by omega)]
  have byte : ∀ user prev, ∀ st ∈ msg.stores, ∀ k, k < st.datum.size →
      contents user msg.stores prev (st.off + UInt64.ofNat k) = datumByte user st.datum k :=
    fun user prev st mem k hk => stored_byte ordered.sorted inside mem prev hk
  have nents : mmap.nents = (SgTable.mk mmap.nents fun k => call.entry (table k)).nents := rfl
  have table : ∀ user prev, _ := fun user prev =>
    readTable_eq nents fun st mem =>
      byte user prev st (by rw [stored, mmapStores_eq small]; exact List.mem_append_right _ mem)
  refine ⟨size, fun st mem => (ordered.within st mem).2, fun user prev => ?_,
    fun user prev => (table user prev).1, fun user prev => (table user prev).2⟩
  rw [← size]
  refine congrArg UInt32.toNat (u32At_eq fun k hk => ?_)
  exact byte user prev ⟨16, .u32 msg.len⟩
    (by rw [stored]; exact List.mem_append_left _ hdr) k hk

/-- The messages are exact unless the size wraps and what is left of it fits. -/
theorem map_message_exact_iff (call : MapCall) (bufSize : UInt32) (caller : Caller)
    (table : Nat → Scatterlist) (mmap : MappingHead) :
    Exact call bufSize caller table mmap ↔
      call.bytes mmap.nents < 2 ^ 32 ∨ bufSize.toNat < call.bytes mmap.nents % 2 ^ 32 := by
  have limit := bufSize.toNat_lt
  constructor
  · intro exact
    by_contra wraps
    rw [not_or, Nat.not_lt, Nat.not_lt] at wraps
    have accepted : (call.send bufSize (some 0) caller table mmap).isSome :=
      (send_some call).mpr ⟨rfl, wraps.2⟩
    have fits := ((exact.obtained (some 0)).mp accepted).2
    omega
  · intro condition
    have same : call.bytes mmap.nents % 2 ^ 32 ≤ bufSize.toNat ↔
        call.bytes mmap.nents ≤ bufSize.toNat := by
      rcases condition with small | refused
      · rw [Nat.mod_eq_of_lt small]
      · have := Nat.mod_le (call.bytes mmap.nents) (2 ^ 32)
        omega
    have obtained : ∀ msgid, (call.send bufSize msgid caller table mmap).isSome ↔
        msgid.isSome ∧ call.bytes mmap.nents ≤ bufSize.toNat := by
      intro msgid
      rw [send_some, same]
    refine ⟨obtained, fun msgid msg sent => send_whole ?_ sent⟩
    have fits := ((obtained msgid).mp (Option.isSome_iff_exists.mpr ⟨msg, sent⟩)).2
    omega

/-- A scatter list of 2 ^ 28 entries, whose sizes add up to 2 ^ 32. -/
def wrappedMapping : MappingHead := ⟨5, 1, 0x10000, 0x10000000000, 1, 0x10000000⟩

/-- It passes as a message without entries. -/
theorem wrapped_mapping_sent : ∃ msg, (MapCall.mmap 2).send 0x20000 (some 0) ⟨7, 7, false, 1⟩
      (fun k => ⟨UInt64.ofNat k * 0x1000, 0x1000, 0, 0x1000⟩) wrappedMapping = some msg ∧
    msg.len = 70 ∧ ¬ (MapCall.mmap 2).bytes wrappedMapping.nents ≤ (0x20000 : UInt32).toNat :=
  ⟨_, rfl, by decide, by decide⟩

end MapMessages
