import PlatformKernel.MapMessages
import PlatformKernel.PackedRecords

/-!
# The commands on the wire

Every command but INVOKE is a packed structure: the common header, the arguments of the
command and, for the two that map memory, a scatter list. A builder fills a transmit buffer
that still holds an earlier message. What the back end reads from the buffer is the command
that was built, and no byte of the message is left over from the earlier one.
-/

namespace CommandMessages

open ByteMemory PackedRecords
open InvokeMessage (Datum Hdr MappingHead sessionIdBit virtAllocMsg)
open MapMessages (Caller Scatterlist MapCall mmapEntry memMapEntry totalSize)

def virtioFastrpcCmdOpen : UInt32 := 1
def virtioFastrpcCmdClose : UInt32 := 2
def virtioFastrpcCmdMunmap : UInt32 := 5
def virtioFastrpcCmdControl : UInt32 := 6
def virtioFastrpcCmdGetDspInfo : UInt32 := 7
def virtioFastrpcCmdMunmapFd : UInt32 := 8
def virtioFastrpcCmdMemUnmap : UInt32 := 10

/-- `FASTRPC_MAX_DSP_ATTRIBUTES`. -/
def maxDspAttributes : Nat := 256

def sizeOfMsgHdr : Int32 := 26
def sizeOfOpenMsg : Int32 := 38
def sizeOfCapMsg : Int32 := 1054
def sizeOfControlMsg : Int32 := 34
def sizeOfMunmapMsg : Int32 := 42
def sizeOfMemUnmapMsg : Int32 := 46
def sizeOfMunmapFdMsg : Int32 := 54

def u16 (x : UInt16) : Field := ⟨2, x.toNat⟩
def u32 (x : UInt32) : Field := ⟨4, x.toNat⟩
def s32 (x : Int32) : Field := u32 x.toUInt32
def u64 (x : UInt64) : Field := ⟨8, x.toNat⟩

/-- The number that is stored; bytes of the caller are not part of these messages. -/
def fieldOf : Datum → Field
  | .u16 x => u16 x
  | .u32 x => u32 x
  | .u64 x => u64 x
  | .zeros n => ⟨n.toNat, 0⟩
  | .user _ n => ⟨n.toNat, 0⟩

def hdrFields (h : Hdr) : List Field := h.stores.map fun st => fieldOf st.datum

/-- The stores of a message and the length with which it is sent. -/
structure Sent where
  len : UInt32
  stores : List Write

/-- What the builders have in common: a message of the size of the structure, the header and
the arguments in the order of the structure. -/
def build (bufSize : UInt32) (slot : Option UInt16) (size : Int32) (pid tid : UInt32)
    (cid : Int32) (cmd : UInt32) (args : List Field) : Option Sent :=
  match virtAllocMsg bufSize size slot with
  | none => none
  | some msgid =>
    let hdr : Hdr := ⟨pid, tid, cid, cmd, size.toUInt32, msgid, 0xffffffff⟩
    some ⟨size.toUInt32, place 0 (hdrFields hdr ++ args)⟩

def sessionTid (caller : Caller) : UInt32 :=
  if caller.sessionid then caller.pid ||| sessionIdBit else caller.pid

section Builders

variable (bufSize : UInt32) (slot : Option UInt16) (caller : Caller)

def virtFastrpcOpen (domain pd attrs : Int32) : Option Sent :=
  build bufSize slot sizeOfOpenMsg caller.tgid (sessionTid caller) (-1) virtioFastrpcCmdOpen
    [s32 domain, s32 pd, s32 attrs]

def virtFastrpcClose : Option Sent :=
  if caller.cid < 0 then none
  else build bufSize slot sizeOfMsgHdr caller.tgid (sessionTid caller) caller.cid
    virtioFastrpcCmdClose []

def virtFastrpcMunmap (raddr size : UInt64) : Option Sent :=
  build bufSize slot sizeOfMunmapMsg caller.tgid (sessionTid caller) caller.cid
    virtioFastrpcCmdMunmap [u64 raddr, u64 size]

def virtFastrpcControl (enable latency : UInt32) : Option Sent :=
  build bufSize slot sizeOfControlMsg caller.tgid (sessionTid caller) caller.cid
    virtioFastrpcCmdControl [u32 enable, u32 latency]

/-- The capabilities are zeroed for the back end to fill in. -/
def virtFastrpcGetDspInfo (domain : Int32) : Option Sent :=
  build bufSize slot sizeOfCapMsg caller.tgid (sessionTid caller) (-1) virtioFastrpcCmdGetDspInfo
    [s32 domain, ⟨4 * maxDspAttributes, 0⟩]

def virtFastrpcMunmapFd (fd : Int32) (flags mapEntries : UInt32) (va len : UInt64) : Option Sent :=
  build bufSize slot sizeOfMunmapFdMsg caller.tgid (sessionTid caller) caller.cid
    virtioFastrpcCmdMunmapFd [s32 fd, u32 flags, u32 mapEntries, u64 va, u64 len]

/-- The session is not marked in the thread. -/
def virtFastrpcMemUnmap (fd : Int32) (size raddr : UInt64) : Option Sent :=
  build bufSize slot sizeOfMemUnmapMsg caller.tgid caller.pid caller.cid virtioFastrpcCmdMemUnmap
    [s32 fd, u64 size, u64 raddr]

end Builders

/-- A call of a builder. The two that map memory are those of `MapMessages`. -/
inductive Call where
  | openPd (domain pd attrs : Int32)
  | close
  | munmap (raddr size : UInt64)
  | control (enable latency : UInt32)
  | getDspInfo (domain : Int32)
  | munmapFd (fd : Int32) (flags mapEntries : UInt32) (va len : UInt64)
  | memUnmap (fd : Int32) (size raddr : UInt64)
  | map (call : MapCall) (table : Nat → Scatterlist) (mmap : MappingHead)

def Call.send (call : Call) (bufSize : UInt32) (slot : Option UInt16) (caller : Caller) :
    Option Sent :=
  match call with
  | .openPd domain pd attrs => virtFastrpcOpen bufSize slot caller domain pd attrs
  | .close => virtFastrpcClose bufSize slot caller
  | .munmap raddr size => virtFastrpcMunmap bufSize slot caller raddr size
  | .control enable latency => virtFastrpcControl bufSize slot caller enable latency
  | .getDspInfo domain => virtFastrpcGetDspInfo bufSize slot caller domain
  | .munmapFd fd flags mapEntries va len =>
    virtFastrpcMunmapFd bufSize slot caller fd flags mapEntries va len
  | .memUnmap fd size raddr => virtFastrpcMemUnmap bufSize slot caller fd size raddr
  | .map call table mmap => (call.send bufSize slot caller table mmap).map fun msg =>
    ⟨msg.len, InvokeMessage.writes (fun _ => 0) msg.stores⟩

/-- What a message says, the entries of a scatter list included. -/
inductive Command where
  | openPd (domain pd attrs : Int32)
  | close
  | mmap (flags : UInt32) (vdsp : UInt64) (mmap : MappingHead) (sgl : List (UInt64 × UInt64))
  | munmap (vdsp size : UInt64)
  | control (enable latency : UInt32)
  | getDspInfo (domain : Int32)
  | munmapFd (fd : Int32) (flags mapEntries : UInt32) (va len : UInt64)
  | memMap (offset : Int32) (flags : UInt32) (attrs : Int32) (raddr : UInt64) (mmap : MappingHead)
      (sgl : List (UInt64 × UInt64))
  | memUnmap (fd : Int32) (len raddr : UInt64)

def toU32 (x : Nat) : UInt32 := UInt32.ofNat x
def toS32 (x : Nat) : Int32 := (UInt32.ofNat x).toInt32
def toU64 (x : Nat) : UInt64 := UInt64.ofNat x

def toSgl : List Nat → List (UInt64 × UInt64)
  | pv :: len :: rest => (toU64 pv, toU64 len) :: toSgl rest
  | _ => []

/-- The header as the bytes of a buffer spell it. -/
def readHdr (m : Mem) : Hdr where
  pid := toU32 (word 4 m 0)
  tid := toU32 (word 4 m 4)
  cid := toS32 (word 4 m 8)
  cmd := toU32 (word 4 m 12)
  len := toU32 (word 4 m 16)
  msgid := UInt16.ofNat (word 2 m 20)
  result := toU32 (word 4 m 22)

/-- The widths of the arguments of a command; where there is a scatter list, the message says
how long it is. -/
def argWidths (m : Mem) : UInt32 → List Nat
  | 1 => [4, 4, 4]
  | 4 => [4, 8, 4, 4, 8, 8, 4, 4] ++ List.replicate (2 * word 4 m 66) 8
  | 5 => [8, 8]
  | 6 => [4, 4]
  | 7 => [4, 4 * maxDspAttributes]
  | 8 => [4, 4, 4, 8, 8]
  | 9 => [4, 4, 4, 8, 4, 4, 8, 8, 4, 4] ++ List.replicate (2 * word 4 m 74) 8
  | 10 => [4, 8, 8]
  | _ => []

def ofArgs : UInt32 → List Nat → Option Command
  | 1, [domain, pd, attrs] => some (.openPd (toS32 domain) (toS32 pd) (toS32 attrs))
  | 2, [] => some .close
  | 4, flags :: vdsp :: fd :: refcount :: va :: len :: attr :: nents :: sgl =>
    some (.mmap (toU32 flags) (toU64 vdsp)
      ⟨toS32 fd, toS32 refcount, toU64 va, toU64 len, toU32 attr, toU32 nents⟩ (toSgl sgl))
  | 5, [vdsp, size] => some (.munmap (toU64 vdsp) (toU64 size))
  | 6, [enable, latency] => some (.control (toU32 enable) (toU32 latency))
  | 7, [domain, _] => some (.getDspInfo (toS32 domain))
  | 8, [fd, flags, mapEntries, va, len] =>
    some (.munmapFd (toS32 fd) (toU32 flags) (toU32 mapEntries) (toU64 va) (toU64 len))
  | 9, offset :: flags :: attrs :: raddr :: fd :: refcount :: va :: len :: attr :: nents :: sgl =>
    some (.memMap (toS32 offset) (toU32 flags) (toS32 attrs) (toU64 raddr)
      ⟨toS32 fd, toS32 refcount, toU64 va, toU64 len, toU32 attr, toU32 nents⟩ (toSgl sgl))
  | 10, [fd, len, raddr] => some (.memUnmap (toS32 fd) (toU64 len) (toU64 raddr))
  | _, _ => none

/-- The command that the back end finds in a buffer. -/
def readCommand (m : Mem) : Option Command :=
  ofArgs (readHdr m).cmd (read m 26 (argWidths m (readHdr m).cmd))

/-- The back end finds this header and this command in the buffer, whatever was in it before;
the message settles every byte up to its length and leaves the rest of the buffer alone. -/
structure Carries (hdr : Hdr) (command : Command) (sent : Sent) : Prop where
  hdr : ∀ prev, readHdr (applyAll sent.stores prev) = hdr
  command : ∀ prev, readCommand (applyAll sent.stores prev) = some command
  settled : ∀ a : UInt64, a.toNat < sent.len.toNat → ∀ prev prev',
    applyAll sent.stores prev a = applyAll sent.stores prev' a
  outside : ∀ a : UInt64, sent.len.toNat ≤ a.toNat → ∀ prev, applyAll sent.stores prev a = prev a

@[simp] theorem toU32_toNat (x : UInt32) : toU32 x.toNat = x := UInt32.ofNat_toNat

@[simp] theorem toS32_toNat (x : Int32) : toS32 x.toUInt32.toNat = x := by simp [toS32]

@[simp] theorem toU64_toNat (x : UInt64) : toU64 x.toNat = x := UInt64.ofNat_toNat

theorem u16_fits (x : UInt16) : (u16 x).Fits := x.toNat_lt

theorem u32_fits (x : UInt32) : (u32 x).Fits := x.toNat_lt

theorem s32_fits (x : Int32) : (s32 x).Fits := u32_fits _

theorem u64_fits (x : UInt64) : (u64 x).Fits := x.toNat_lt

theorem hdr_fits (h : Hdr) : ∀ f ∈ hdrFields h, f.Fits := by
  simp only [hdrFields, Hdr.stores, List.map_cons, List.map_nil, List.forall_mem_cons,
    List.not_mem_nil, false_imp_iff, implies_true, and_true, fieldOf]
  exact ⟨u32_fits _, u32_fits _, s32_fits _, u32_fits _, u32_fits _, u16_fits _, u32_fits _⟩

theorem hdr_bytes (h : Hdr) : bytes (widths (hdrFields h)) = 26 := rfl

theorem readHdr_eq {m : Mem} {h : Hdr}
    (fields : read m 0 (widths (hdrFields h)) = (hdrFields h).map Field.value) : readHdr m = h := by
  simp only [hdrFields, Hdr.stores, fieldOf, widths, u32, u16, List.map_cons, List.map_nil,
    PackedRecords.read, List.cons.injEq, and_true] at fields
  obtain ⟨pid, tid, cid, cmd, len, msgid, result⟩ := fields
  replace tid : word 4 m 4 = h.tid.toNat := tid
  replace cid : word 4 m 8 = h.cid.toUInt32.toNat := cid
  replace cmd : word 4 m 12 = h.cmd.toNat := cmd
  replace len : word 4 m 16 = h.len.toNat := len
  replace msgid : word 2 m 20 = h.msgid.toNat := msgid
  replace result : word 4 m 22 = h.result.toNat := result
  simp [readHdr, pid, tid, cid, cmd, len, msgid, result]

/-- A header with the arguments of its command is a message that carries them. -/
theorem carries_fields {hdr : Hdr} {args : List Field} {command : Command} {len : UInt32}
    (length : len.toNat = 26 + bytes (widths args)) (small : ∀ f ∈ args, f.Fits)
    (known : ∀ m, read m 26 (widths args) = args.map Field.value →
      argWidths m hdr.cmd = widths args)
    (parsed : ofArgs hdr.cmd (args.map Field.value) = some command) :
    Carries hdr command ⟨len, place 0 (hdrFields hdr ++ args)⟩ := by
  have total : bytes (widths (hdrFields hdr ++ args)) = len.toNat := by
    rw [widths_append, bytes_append, hdr_bytes, length]
  have fits : (0 : UInt64).toNat + bytes (widths (hdrFields hdr ++ args)) < 2 ^ 64 := by
    have := len.toNat_lt
    rw [total, UInt64.toNat_zero]
    omega
  have each : ∀ f ∈ hdrFields hdr ++ args, f.Fits := by
    intro f hf
    rcases List.mem_append.mp hf with hf | hf
    · exact hdr_fits hdr f hf
    · exact small f hf
  have parts := fun prev => read_parts each fits prev
  have reach : ∀ a : UInt64,
      Covered (place 0 (hdrFields hdr ++ args)) a ↔ a.toNat < len.toNat := by
    intro a
    rw [place_covered fits, total, UInt64.toNat_zero, Nat.zero_add]
    exact and_iff_right (Nat.zero_le _)
  refine ⟨fun prev => readHdr_eq (parts prev).1, fun prev => ?_, fun a ha => ?_, fun a ha => ?_⟩
  · have values : read (applyAll (place 0 (hdrFields hdr ++ args)) prev) 26 (widths args) =
        args.map Field.value := (parts prev).2
    rw [readCommand, readHdr_eq (parts prev).1, known _ values, values]
    exact parsed
  · exact applyAll_covered ((reach a).mpr ha)
  · exact applyAll_uncovered fun covered => Nat.not_lt.mpr ha ((reach a).mp covered)

theorem virtAllocMsg_slot {bufSize : UInt32} {size : Int32} {slot : Option UInt16} {msgid : UInt16}
    (h : virtAllocMsg bufSize size slot = some msgid) :
    slot = some msgid ∧ size.toUInt32.toNat ≤ bufSize.toNat := by
  unfold virtAllocMsg at h
  split at h
  case isTrue => cases h
  case isFalse big => exact ⟨h, UInt32.le_iff_toNat_le.mp (UInt32.not_lt.mp big)⟩

/-- A message is obtained for a free slot, fits into the buffer and carries the command. -/
structure Conveys (bufSize : UInt32) (slot : Option UInt16) (hdr : UInt16 → UInt32 → Hdr)
    (command : Command) (sent : Sent) : Prop where
  fits : sent.len.toNat ≤ bufSize.toNat
  carries : ∃ msgid, slot = some msgid ∧ Carries (hdr msgid sent.len) command sent

theorem build_conveys {bufSize : UInt32} {slot : Option UInt16} {size : Int32} {pid tid : UInt32}
    {cid : Int32} {cmd : UInt32} {args : List Field} {command : Command} {sent : Sent}
    (h : build bufSize slot size pid tid cid cmd args = some sent)
    (length : size.toUInt32.toNat = 26 + bytes (widths args)) (small : ∀ f ∈ args, f.Fits)
    (known : ∀ m, read m 26 (widths args) = args.map Field.value → argWidths m cmd = widths args)
    (parsed : ofArgs cmd (args.map Field.value) = some command) :
    Conveys bufSize slot (fun msgid len => ⟨pid, tid, cid, cmd, len, msgid, 0xffffffff⟩) command
      sent := by
  unfold build at h
  split at h
  case h_1 => cases h
  case h_2 msgid found =>
    obtain rfl := Option.some.inj h
    obtain ⟨free, fits⟩ := virtAllocMsg_slot found
    exact ⟨fits, msgid, free, carries_fields length small known parsed⟩

def sglFields (sgl : List (UInt64 × UInt64)) : List Field :=
  sgl.flatMap fun e => [u64 e.1, u64 e.2]

def mappingFields (m : MappingHead) : List Field :=
  [s32 m.fd, s32 m.refcount, u64 m.va, u64 m.len, u32 m.attr, u32 m.nents]

/-- The entries that a message is given. -/
def entries (entry : Nat → UInt64 × UInt64) (nents : UInt32) : List (UInt64 × UInt64) :=
  (List.range nents.toNat).map entry

theorem sglFields_widths (sgl : List (UInt64 × UInt64)) :
    widths (sglFields sgl) = List.replicate (2 * sgl.length) 8 := by
  induction sgl with
  | nil => rfl
  | cons e sgl ih =>
    have split : sglFields (e :: sgl) = u64 e.1 :: u64 e.2 :: sglFields sgl := rfl
    rw [split, widths_cons, widths_cons, ih, List.length_cons, Nat.mul_succ, List.replicate_succ,
      List.replicate_succ]
    rfl

theorem sglFields_bytes (sgl : List (UInt64 × UInt64)) :
    bytes (widths (sglFields sgl)) = 16 * sgl.length := by
  induction sgl with
  | nil => rfl
  | cons e sgl ih =>
    have split : sglFields (e :: sgl) = u64 e.1 :: u64 e.2 :: sglFields sgl := rfl
    rw [split, widths_cons, widths_cons, bytes, bytes, ih, List.length_cons]
    simp only [u64]
    omega

theorem toSgl_values (sgl : List (UInt64 × UInt64)) :
    toSgl ((sglFields sgl).map Field.value) = sgl := by
  induction sgl with
  | nil => rfl
  | cons e sgl ih =>
    have split : sglFields (e :: sgl) = u64 e.1 :: u64 e.2 :: sglFields sgl := rfl
    rw [split, List.map_cons, List.map_cons, toSgl, ih]
    simp [u64]

theorem sglFields_fits (sgl : List (UInt64 × UInt64)) : ∀ f ∈ sglFields sgl, f.Fits := by
  intro f hf
  obtain ⟨e, -, he⟩ := List.mem_flatMap.mp hf
  rcases List.mem_cons.mp he with rfl | he
  · exact u64_fits _
  · rw [List.mem_singleton.mp he]
    exact u64_fits _

theorem sgl_stores (user : Mem) (off : UInt64) (table : InvokeMessage.SgTable) (n : Nat) :
    InvokeMessage.writes user ((List.range n).flatMap (InvokeMessage.sglStores off table)) =
      place (off + 32) (sglFields ((List.range n).map table.sgl)) := by
  induction n with
  | zero => rfl
  | succ n ih =>
    have next : off + 32 + UInt64.ofNat (16 * n) =
        off + InvokeMessage.sizeOfMappingHead + UInt64.ofNat n * InvokeMessage.sizeOfSgl := by
      rw [UInt64.ofNat_mul, UInt64.mul_comm]
      rfl
    have last : sglFields ((List.range (n + 1)).map table.sgl) =
        sglFields ((List.range n).map table.sgl) ++ sglFields [table.sgl n] := by
      simp [sglFields, List.range_succ]
    rw [last, place_append, sglFields_bytes, List.length_map, List.length_range, next, ← ih,
      List.range_succ, List.flatMap_append, MessageBytes.writes_append]
    rfl

theorem mappingHead_stores (user : Mem) (off : UInt64) (m : MappingHead) :
    InvokeMessage.writes user (InvokeMessage.mappingHeadStores off m) =
      place off (mappingFields m) := by
  have shift : ∀ i j : Nat, off + UInt64.ofNat i + UInt64.ofNat j = off + UInt64.ofNat (i + j) := by
    intro i j
    rw [UInt64.add_assoc, UInt64.ofNat_add]
  simp only [mappingFields, place, s32, u32, u64, shift]
  rfl

theorem mapping_stores {mmap : MappingHead} (small : mmap.nents.toNat ≤ 2 ^ 31) (user : Mem)
    (off : UInt64) (entry : Nat → UInt64 × UInt64) :
    InvokeMessage.writes user (MapMessages.mmapStores off mmap entry) =
      place off (mappingFields mmap ++ sglFields (entries entry mmap.nents)) := by
  rw [MapMessages.mmapStores_eq small, InvokeMessage.mappingStores, MessageBytes.writes_append,
    mappingHead_stores, sgl_stores, place_append]
  rfl

theorem entries_length (entry : Nat → UInt64 × UInt64) (nents : UInt32) :
    (entries entry nents).length = nents.toNat := by
  simp [entries]

theorem mapping_fits (m : MappingHead) : ∀ f ∈ mappingFields m, f.Fits := by
  simp only [mappingFields, List.forall_mem_cons, List.not_mem_nil, false_imp_iff, implies_true,
    and_true]
  exact ⟨s32_fits _, s32_fits _, u64_fits _, u64_fits _, u32_fits _, u32_fits _⟩

/-- The fields before a scatter list can be read on their own. -/
theorem read_front {m : Mem} {off : UInt64} {front : List Field} {sgl : List (UInt64 × UInt64)}
    (h : read m off (widths (front ++ sglFields sgl)) = (front ++ sglFields sgl).map Field.value) :
    read m off (widths front) = front.map Field.value := by
  rw [widths_append, read_append, List.map_append] at h
  refine (List.append_inj h ?_).1
  rw [read_length, widths, List.length_map, List.length_map]

def mmapFront (flags : UInt32) (mmap : MappingHead) : List Field :=
  [u32 flags, u64 0] ++ mappingFields mmap

def memMapFront (offset : Int32) (flags : UInt32) (attrs : Int32) (mmap : MappingHead) :
    List Field :=
  [s32 offset, u32 flags, s32 attrs, u64 0] ++ mappingFields mmap

theorem mmap_known {flags : UInt32} {mmap : MappingHead} {sgl : List (UInt64 × UInt64)}
    (length : sgl.length = mmap.nents.toNat) (m : Mem)
    (values : read m 26 (widths (mmapFront flags mmap ++ sglFields sgl)) =
      (mmapFront flags mmap ++ sglFields sgl).map Field.value) :
    argWidths m 4 = widths (mmapFront flags mmap ++ sglFields sgl) := by
  have front := read_front values
  simp only [mmapFront, mappingFields, List.cons_append, List.nil_append, widths, u32, s32, u64,
    List.map_cons, List.map_nil, PackedRecords.read, List.cons.injEq, and_true] at front
  obtain ⟨-, -, -, -, -, -, -, nents⟩ := front
  replace nents : word 4 m 66 = mmap.nents.toNat := nents
  rw [widths_append, sglFields_widths, length, ← nents]
  rfl

theorem memMap_known {offset : Int32} {flags : UInt32} {attrs : Int32} {mmap : MappingHead}
    {sgl : List (UInt64 × UInt64)} (length : sgl.length = mmap.nents.toNat) (m : Mem)
    (values : read m 26 (widths (memMapFront offset flags attrs mmap ++ sglFields sgl)) =
      (memMapFront offset flags attrs mmap ++ sglFields sgl).map Field.value) :
    argWidths m 9 = widths (memMapFront offset flags attrs mmap ++ sglFields sgl) := by
  have front := read_front values
  simp only [memMapFront, mappingFields, List.cons_append, List.nil_append, widths, u32, s32, u64,
    List.map_cons, List.map_nil, PackedRecords.read, List.cons.injEq, and_true] at front
  obtain ⟨-, -, -, -, -, -, -, -, -, nents⟩ := front
  replace nents : word 4 m 74 = mmap.nents.toNat := nents
  rw [widths_append, sglFields_widths, length, ← nents]
  rfl

theorem mmap_parsed (flags : UInt32) (mmap : MappingHead) (sgl : List (UInt64 × UInt64)) :
    ofArgs 4 ((mmapFront flags mmap ++ sglFields sgl).map Field.value) =
      some (.mmap flags 0 mmap sgl) := by
  simp [mmapFront, mappingFields, ofArgs, u32, s32, u64, toSgl_values, toU64]

theorem memMap_parsed (offset : Int32) (flags : UInt32) (attrs : Int32) (mmap : MappingHead)
    (sgl : List (UInt64 × UInt64)) :
    ofArgs 9 ((memMapFront offset flags attrs mmap ++ sglFields sgl).map Field.value) =
      some (.memMap offset flags attrs 0 mmap sgl) := by
  simp [memMapFront, mappingFields, ofArgs, u32, s32, u64, toSgl_values, toU64]

def Call.command : Call → Command
  | .openPd domain pd attrs => .openPd domain pd attrs
  | .close => .close
  | .munmap raddr size => .munmap raddr size
  | .control enable latency => .control enable latency
  | .getDspInfo domain => .getDspInfo domain
  | .munmapFd fd flags mapEntries va len => .munmapFd fd flags mapEntries va len
  | .memUnmap fd size raddr => .memUnmap fd size raddr
  | .map (.mmap flags) table mmap =>
    .mmap flags 0 mmap (entries (fun k => mmapEntry (table k)) mmap.nents)
  | .map (.memMap offset flags attrs) table mmap =>
    .memMap offset flags attrs 0 mmap (entries (fun k => memMapEntry (table k)) mmap.nents)

def Call.cmd : Call → UInt32
  | .openPd .. => virtioFastrpcCmdOpen
  | .close => virtioFastrpcCmdClose
  | .munmap .. => virtioFastrpcCmdMunmap
  | .control .. => virtioFastrpcCmdControl
  | .getDspInfo _ => virtioFastrpcCmdGetDspInfo
  | .munmapFd .. => virtioFastrpcCmdMunmapFd
  | .memUnmap .. => virtioFastrpcCmdMemUnmap
  | .map (.mmap _) _ _ => MapMessages.virtioFastrpcCmdMmap
  | .map (.memMap ..) _ _ => MapMessages.virtioFastrpcCmdMemMap

/-- A session is marked in the thread, but by neither of the two newer commands. -/
def Call.tid (caller : Caller) : Call → UInt32
  | .memUnmap .. => caller.pid
  | .map (.memMap ..) _ _ => caller.pid
  | _ => sessionTid caller

/-- The two commands that need no channel. -/
def Call.cid (caller : Caller) : Call → Int32
  | .openPd .. => -1
  | .getDspInfo _ => -1
  | _ => caller.cid

def Call.hdr (call : Call) (caller : Caller) (msgid : UInt16) (len : UInt32) : Hdr :=
  ⟨caller.tgid, call.tid caller, call.cid caller, call.cmd, len, msgid, 0xffffffff⟩

/-- The size of a scatter list does not wrap. -/
def Call.Whole : Call → Prop
  | .map call _ mmap => call.bytes mmap.nents < 2 ^ 32
  | _ => True

def Call.size : Call → Nat
  | .openPd .. => 38
  | .close => 26
  | .munmap .. => 42
  | .control .. => 34
  | .getDspInfo _ => 1054
  | .munmapFd .. => 54
  | .memUnmap .. => 46
  | .map call _ mmap => call.bytes mmap.nents

/-- CLOSE is for an open channel only. -/
def Call.Allowed (caller : Caller) : Call → Prop
  | .close => 0 ≤ caller.cid
  | _ => True

theorem build_some {bufSize : UInt32} {slot : Option UInt16} {size : Int32} {pid tid : UInt32}
    {cid : Int32} {cmd : UInt32} {args : List Field} :
    (build bufSize slot size pid tid cid cmd args).isSome ↔
      slot.isSome ∧ size.toUInt32.toNat ≤ bufSize.toNat := by
  rw [← MapMessages.virtAllocMsg_some, build]
  cases virtAllocMsg bufSize size slot <;> rfl

theorem send_some {call : Call} {bufSize : UInt32} {slot : Option UInt16} {caller : Caller}
    (whole : call.Whole) : (call.send bufSize slot caller).isSome ↔
      slot.isSome ∧ call.size ≤ bufSize.toNat ∧ call.Allowed caller := by
  cases call with
  | close =>
    simp only [Call.send, virtFastrpcClose, Call.Allowed]
    split
    case isTrue closed =>
      simp only [Option.isSome_none, Bool.false_eq_true, false_iff]
      rintro ⟨-, -, opened⟩
      exact absurd closed (Int32.not_lt.mpr opened)
    case isFalse opened =>
      rw [build_some, and_iff_left (Int32.not_lt.mp opened)]
      rfl
  | map call table mmap =>
    have wide : call.bytes mmap.nents % 2 ^ 32 = call.bytes mmap.nents := Nat.mod_eq_of_lt whole
    simp only [Call.send, Option.isSome_map, MapMessages.send_some, Call.Allowed, and_true, wide]
    rfl
  | openPd | munmap | control | getDspInfo | munmapFd | memUnmap =>
    exact build_some.trans (and_congr_right fun _ => (and_iff_left trivial).symm)

/-- The messages that map memory are built like the others, with the scatter list at the end. -/
theorem mmap_send {mmap : MappingHead} (small : mmap.nents.toNat ≤ 2 ^ 31) (flags : UInt32)
    (table : Nat → Scatterlist) (bufSize : UInt32) (slot : Option UInt16) (caller : Caller) :
    (Call.map (.mmap flags) table mmap).send bufSize slot caller =
      build bufSize slot (totalSize MapMessages.sizeOfMmapMsg mmap.nents) caller.tgid
        (sessionTid caller) caller.cid MapMessages.virtioFastrpcCmdMmap
        (mmapFront flags mmap ++
          sglFields (entries (fun k => mmapEntry (table k)) mmap.nents)) := by
  simp only [Call.send, MapCall.send, MapMessages.virtFastrpcMmap, build]
  cases virtAllocMsg bufSize (totalSize MapMessages.sizeOfMmapMsg mmap.nents) slot with
  | none => rfl
  | some msgid =>
    simp only [Option.map_some, MessageBytes.writes_append, mapping_stores small, mmapFront,
      List.append_assoc, place_append 0, place_append _ [_, _]]
    rfl

theorem memMap_send {mmap : MappingHead} (small : mmap.nents.toNat ≤ 2 ^ 31) (offset : Int32)
    (flags : UInt32) (attrs : Int32) (table : Nat → Scatterlist) (bufSize : UInt32)
    (slot : Option UInt16) (caller : Caller) :
    (Call.map (.memMap offset flags attrs) table mmap).send bufSize slot caller =
      build bufSize slot (totalSize MapMessages.sizeOfMemMapMsg mmap.nents) caller.tgid
        caller.pid caller.cid MapMessages.virtioFastrpcCmdMemMap
        (memMapFront offset flags attrs mmap ++
          sglFields (entries (fun k => memMapEntry (table k)) mmap.nents)) := by
  simp only [Call.send, MapCall.send, MapMessages.virtFastrpcMemMap, build]
  cases virtAllocMsg bufSize (totalSize MapMessages.sizeOfMemMapMsg mmap.nents) slot with
  | none => rfl
  | some msgid =>
    simp only [Option.map_some, MessageBytes.writes_append, mapping_stores small, memMapFront,
      List.append_assoc, place_append 0, place_append _ [_, _, _, _]]
    rfl

theorem scatter_length {sizeOfMsg : UInt64} {nents : UInt32} {front : List Field}
    {entry : Nat → UInt64 × UInt64} (whole : sizeOfMsg.toNat + 16 * nents.toNat < 2 ^ 32)
    (head : sizeOfMsg.toNat = 26 + bytes (widths front)) :
    (totalSize sizeOfMsg nents).toUInt32.toNat =
      26 + bytes (widths (front ++ sglFields (entries entry nents))) := by
  rw [MapMessages.totalSize_toNat, Nat.mod_eq_of_lt whole, widths_append, bytes_append,
    sglFields_bytes, entries_length, head, Nat.add_assoc]

theorem scatter_fits {front : List Field} {sgl : List (UInt64 × UInt64)}
    (small : ∀ f ∈ front, f.Fits) : ∀ f ∈ front ++ sglFields sgl, f.Fits := by
  intro f hf
  rcases List.mem_append.mp hf with hf | hf
  · exact small f hf
  · exact sglFields_fits sgl f hf

theorem mmapFront_fits (flags : UInt32) (mmap : MappingHead) :
    ∀ f ∈ mmapFront flags mmap, f.Fits := by
  simp only [mmapFront, List.forall_mem_append, List.forall_mem_cons, List.not_mem_nil,
    false_imp_iff, implies_true, and_true]
  exact ⟨⟨u32_fits _, u64_fits _⟩, mapping_fits mmap⟩

theorem memMapFront_fits (offset : Int32) (flags : UInt32) (attrs : Int32) (mmap : MappingHead) :
    ∀ f ∈ memMapFront offset flags attrs mmap, f.Fits := by
  simp only [memMapFront, List.forall_mem_append, List.forall_mem_cons, List.not_mem_nil,
    false_imp_iff, implies_true, and_true]
  exact ⟨⟨s32_fits _, u32_fits _, s32_fits _, u64_fits _⟩, mapping_fits mmap⟩

theorem map_conveys {call : MapCall} {table : Nat → Scatterlist} {mmap : MappingHead}
    {bufSize : UInt32} {slot : Option UInt16} {caller : Caller} {sent : Sent}
    (whole : call.bytes mmap.nents < 2 ^ 32)
    (h : (Call.map call table mmap).send bufSize slot caller = some sent) :
    Conveys bufSize slot ((Call.map call table mmap).hdr caller)
      (Call.map call table mmap).command sent := by
  have small : mmap.nents.toNat ≤ 2 ^ 31 := by
    rw [MapCall.bytes] at whole
    omega
  cases call with
  | mmap flags =>
    rw [mmap_send small] at h
    refine build_conveys h (scatter_length whole rfl) (scatter_fits (mmapFront_fits flags mmap))
      (mmap_known (entries_length _ _)) ?_
    exact mmap_parsed flags mmap _
  | memMap offset flags attrs =>
    rw [memMap_send small] at h
    refine build_conveys h (scatter_length whole rfl)
      (scatter_fits (memMapFront_fits offset flags attrs mmap))
      (memMap_known (entries_length _ _)) ?_
    exact memMap_parsed offset flags attrs mmap _

/-- A message is obtained exactly if there is a slot and it fits, and it carries the command. -/
structure Exchanged (call : Call) (bufSize : UInt32) (slot : Option UInt16) (caller : Caller) :
    Prop where
  obtained : (call.send bufSize slot caller).isSome ↔
    slot.isSome ∧ call.size ≤ bufSize.toNat ∧ call.Allowed caller
  conveyed : ∀ sent, call.send bufSize slot caller = some sent →
    Conveys bufSize slot (call.hdr caller) call.command sent

theorem commands_read_back (call : Call) (bufSize : UInt32) (slot : Option UInt16)
    (caller : Caller) (whole : call.Whole) : Exchanged call bufSize slot caller := by
  refine ⟨send_some whole, fun sent h => ?_⟩
  have zeros : (⟨4 * maxDspAttributes, 0⟩ : Field).Fits := Nat.pow_pos (by decide)
  have capSize : sizeOfCapMsg.toUInt32.toNat = 26 + bytes [4, 4 * maxDspAttributes] := by decide
  cases call with
  | openPd domain pd attrs =>
    refine build_conveys h rfl ?_ (fun _ _ => rfl) ?_
    · simp [s32_fits]
    · simp [ofArgs, s32, u32, virtioFastrpcCmdOpen, Call.cmd, Call.command]
  | close =>
    simp only [Call.send, virtFastrpcClose, Option.ite_none_left_eq_some] at h
    exact build_conveys h.2 rfl (fun f hf => by cases hf) (fun _ _ => rfl) rfl
  | munmap raddr size =>
    refine build_conveys h rfl ?_ (fun _ _ => rfl) ?_
    · simp [u64_fits]
    · simp [ofArgs, u64, virtioFastrpcCmdMunmap, Call.cmd, Call.command]
  | control enable latency =>
    refine build_conveys h rfl ?_ (fun _ _ => rfl) ?_
    · simp [u32_fits]
    · simp [ofArgs, u32, virtioFastrpcCmdControl, Call.cmd, Call.command]
  | getDspInfo domain =>
    refine build_conveys h capSize ?_ (fun _ _ => rfl) ?_
    · simp [s32_fits, zeros]
    · simp [ofArgs, s32, u32, virtioFastrpcCmdGetDspInfo, Call.cmd, Call.command]
  | munmapFd fd flags mapEntries va len =>
    refine build_conveys h rfl ?_ (fun _ _ => rfl) ?_
    · simp [s32_fits, u32_fits, u64_fits]
    · simp [ofArgs, s32, u32, u64, virtioFastrpcCmdMunmapFd, Call.cmd, Call.command]
  | memUnmap fd size raddr =>
    refine build_conveys h rfl ?_ (fun _ _ => rfl) ?_
    · simp [s32_fits, u64_fits]
    · simp [ofArgs, s32, u32, u64, virtioFastrpcCmdMemUnmap, Call.cmd, Call.command]
  | map call table mmap => exact map_conveys whole h

/-- MEM_MAP of a buffer in two pieces, from a thread in a session. -/
def twoPieces : Call :=
  .map (.memMap 0 2 0) (fun k => ⟨UInt64.ofNat k * 0x10000 + 0x80000000, 0x1000, 0, 0x1000⟩)
    ⟨9, 1, 0x7000, 0x2000, 1, 2⟩

theorem twoPieces_whole : twoPieces.Whole := by
  change MapCall.bytes _ _ < _
  decide

theorem twoPieces_read_back : twoPieces.Whole ∧
    (twoPieces.send 0x1000 (some 3) ⟨100, 101, true, 5⟩).map Sent.len = some 110 ∧
      twoPieces.command = .memMap 0 2 0 0 ⟨9, 1, 0x7000, 0x2000, 1, 2⟩
        [(0x80000000, 0x1000), (0x80010000, 0x1000)] ∧
      Exchanged twoPieces 0x1000 (some 3) ⟨100, 101, true, 5⟩ :=
  ⟨twoPieces_whole, rfl, rfl,
    commands_read_back twoPieces 0x1000 (some 3) ⟨100, 101, true, 5⟩ twoPieces_whole⟩

end CommandMessages
