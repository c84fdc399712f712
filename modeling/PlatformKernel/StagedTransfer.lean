import PlatformKernel.MessageReading
import PlatformKernel.StagingPages

/-!
# The data of an invoke, inline and staged

An in-buffer reaches the back end in the payload of the message or, if the message
would be too big, through the pages of a staging buffer; an out-buffer comes back
the same way. The call is followed byte by byte: the copies of `get_args` into the
message and the staging buffers, a back end that finds everything from the message
alone, and the copies of `put_args` into the caller's memory.
-/

namespace StagedTransfer

open ByteMemory CountedLoops InvokeMessage InvokeLayout InvokeDecoding MessageBytes MessageReading
open FileOperations (maxCacheBufSize)

/-- No argument is a handle or has an ION map. -/
structure Plain (req : Request) : Prop where
  handles : handles req.sc = 0
  unmapped : ∀ i, i < bufs req.sc → mapped req i = false

def argLen (req : Request) (i : Nat) : Nat := (req.lpra i).len.toNat

/-- The argument travels through a staging buffer. -/
def staged (req : Request) (i : Nat) : Bool := oversize req && stageable req i

/-- Where byte `k` is, in the `n` scatterlist entries from `j` on. -/
def sgAddr (sgl : Nat → UInt64 × UInt64) : Nat → Nat → Nat → Option UInt64
  | _, 0, _ => none
  | j, n + 1, k =>
    if k < (sgl j).2.toNat then some ((sgl j).1 + UInt64.ofNat k)
    else sgAddr sgl (j + 1) n (k - (sgl j).2.toNat)

def tableAddr (table : SgTable) (k : Nat) : Option UInt64 :=
  sgAddr table.sgl 0 table.nents.toNat k

/-- What `vfastrpc_buf_alloc` returns for `len` bytes: a new buffer, or one of the cache
that is large enough, with the pages that were counted for it. -/
structure Provided (len size : UInt64) (pages : Nat) : Prop where
  large : pageAlign len ≤ size
  source : size = pageAlign len ∨ size < maxCacheBufSize
  pages : pages = (StagingPages.pageCount size).toNat

theorem bufAlloc_provided {maxOrder : Nat} {s t : StagingPages.State} {len : UInt64}
    {rflags : UInt32} {remote mapped : Bool} {x : StagingPages.Answers} {b : FileOperations.BufId}
    (h : StagingPages.Backed s)
    (alloc : StagingPages.bufAlloc maxOrder s (pageAlign len) rflags remote mapped x =
      some (b, t)) :
    Provided len (t.file.bufs b).size (t.pages b) := by
  obtain ⟨⟨b', u⟩, hfile, heq⟩ := Option.map_eq_some_iff.mp alloc
  obtain ⟨rfl, rfl⟩ := Prod.mk.inj heq
  rcases FileBuffers.bufAlloc_fits hfile with ⟨hb, fits, hu⟩ | ⟨hok, hb, hu⟩
  · have next : u.nextBuf = s.file.nextBuf := by rw [hu]
    have known := h.places.bufs.known b' (FileLists.mem_allBufs.mpr (Or.inl hb))
    have bufs : u.bufs = s.file.bufs := by rw [hu]
    have same : (StagingPages.record s u
      (StagingPages.newPages maxOrder x (pageAlign len) mapped)).file.bufs b' = s.file.bufs b' := by
      rw [← bufs]
      rfl
    rw [same]
    refine ⟨fits, Or.inr (h.small b' hb), ?_⟩
    rw [StagingPages.record_same _ next]
    exact h.pages b' known
  · have next : u.nextBuf = s.file.nextBuf + 1 := by rw [hu]; rfl
    have size : (u.bufs b').size = pageAlign len := by
      rw [hu, hb]
      simp [FileOperations.bufNew]
    have same : ((StagingPages.record s u
      (StagingPages.newPages maxOrder x (pageAlign len) mapped)).file.bufs b').size =
        pageAlign len := size
    rw [same]
    refine ⟨UInt64.le_refl _, Or.inl rfl, ?_⟩
    obtain ⟨n, hn⟩ := Option.isSome_iff_exists.mp hok
    rw [StagingPages.record_new _ next, hb, Function.update_self, hn, Option.getD_some]
    exact (StagingPages.newPages_some hn).1

/-- The staging buffers of a call; `addr i k` is the page address behind byte `k` of the
kernel mapping of buffer `i`. The scatter list is made of the same pages, with at most
one entry for each, and no two buffers share one. -/
structure Staging (req : Request) (addr : Nat → Nat → UInt64) : Prop where
  provided : ∀ i, staged req i = true → ∃ pages,
    Provided (req.lpra i).len (req.staging i).size pages ∧
      (req.staging i).sgt.nents.toNat ≤ pages
  listed : ∀ i, staged req i = true → ∀ k, k < (req.staging i).size.toNat →
    tableAddr (req.staging i).sgt k = some (addr i k)
  apart : ∀ i j, staged req i = true → staged req j = true → ∀ k l,
    k < (req.staging i).size.toNat → l < (req.staging j).size.toNat →
    addr i k = addr j l → i = j ∧ k = l

/-- Byte `k` of out-buffer `i`, from the contents of the in-buffers. -/
abbrev Service := List (List UInt8) → Nat → Nat → UInt8

/-- The records follow each other as the descriptors announce them. -/
def cursor (sc : UInt32) (tx : Mem) : Nat → UInt64
  | 0 => praOff (total sc) + sizeOfLists
  | i + 1 => cursor sc tx i + (readEntry tx i).payloadLen

inductive Place where
  | payload (off : UInt64)
  | page (addr : UInt64)

/-- Where the descriptors of the message `tx` say byte `k` of argument `i` is. -/
def place (sc : UInt32) (tx : Mem) (i k : Nat) : Option Place :=
  let e := readEntry tx i
  if e.attrs &&& vfastrpcBufAttrInternal ≠ 0 then
    (tableAddr (readTable tx (cursor sc tx i)) (e.offset.toNat + k)).map Place.page
  else some (.payload (cursor sc tx i + UInt64.ofNat k))

def fetch (msg phys : Mem) : Place → UInt8
  | .payload off => msg off
  | .page addr => phys addr

def inputs (sc : UInt32) (tx phys : Mem) : List (List UInt8) :=
  (List.range (inbufs sc)).map fun i =>
    (List.range (readEntry tx i).bufLen.toNat).filterMap fun k =>
      (place sc tx i k).map (fetch tx phys)

/-- The fields of the response that `put_args` reads. -/
def decode (sc : UInt32) (rx : Mem) : Response where
  result := u32At rx 22
  pra := readEntry rx
  fdlist := fun k => u64At rx (praOff (total sc) + 8 * UInt64.ofNat k)

/-- The back end answers `tx` with `rx`: it reads the in-buffers, writes the outputs of
`F` to where the out-buffers are, and repeats the lengths. -/
structure Serves (F : Service) (sc : UInt32) (tx phys rx phys' : Mem) : Prop where
  result : (decode sc rx).result = 0
  echoes : ∀ i, i < bufs sc → (readEntry rx i).payloadLen = (readEntry tx i).payloadLen ∧
    (readEntry rx i).bufLen = (readEntry tx i).bufLen
  outputs : ∀ i, inbufs sc ≤ i → i < bufs sc → ∀ k, k < (readEntry tx i).bufLen.toNat →
    ∀ p, place sc tx i k = some p → fetch rx phys' p = F (inputs sc tx phys) i k

/-- `get_args` copies the staged in-buffers through the kernel mapping. -/
def stageIn (req : Request) (s : State) (addr : Nat → Nat → UInt64) (user : Mem) : List Write :=
  (List.range (inbufs req.sc)).flatMap fun i =>
    if (internalBuf s.desc i).isSome then
      (List.range (argLen req i)).map fun k =>
        ⟨addr i k, 1, fun _ => user ((req.lpra i).pv + UInt64.ofNat k)⟩
    else []

/-- What an effect of `put_args` writes to the caller; `crc` is the caller's crc array. -/
def effectWrites (addr : Nat → Nat → UInt64) (rx phys : Mem) (crc : UInt64) :
    Effect → List Write
  | .copyStaged i pv n => [⟨pv, n.toNat, fun k => phys (addr i k)⟩]
  | .copyPayload _ pv off n => [⟨pv, n.toNat, fun k => rx (off + UInt64.ofNat k)⟩]
  | .copyCrclist off n => [⟨crc, n.toNat, fun k => rx (off + UInt64.ofNat k)⟩]
  | .release _ => []
  | .releaseFd _ => []

/-- A successful invoke that finds the caller's memory as `user` and leaves `user'`. -/
structure Exchange (F : Service) (req : Request) (crc : UInt64) (user user' : Mem) where
  out : Outcomes
  prev : Mem
  sent : State
  addr : Nat → Nat → UInt64
  phys : Mem
  rx : Mem
  phys' : Mem
  copyErr : Nat → Int
  crcErr : Int
  reader : Reader
  staging : Staging req addr
  accepted : getArgs req out (readEntry prev) = .next sent
  served : Serves F req.sc (contents user sent.stores prev)
    (applyAll (stageIn req sent addr user) phys) rx phys'
  copied : putArgs req sent (decode req.sc rx) copyErr crcErr = .next reader
  after : user' = applyAll (reader.effects.flatMap (effectWrites addr rx phys' crc)) user

section Sizes

variable {req : Request} {addr : Nat → Nat → UInt64}

theorem plain_total (plain : Plain req) : total req.sc = bufs req.sc := by
  rw [total, plain.handles, Nat.add_zero]

theorem plain_inline (plain : Plain req) {i : Nat} (hi : i < bufs req.sc) :
    inlineLen req i = argLen req i := by
  simp [inlineLen, plain.unmapped i hi, hi, argLen]

theorem plain_carries (plain : Plain req) {i : Nat} (hi : i < bufs req.sc) :
    carriesMapping req i = staged req i := by
  simp [carriesMapping, plain.unmapped i hi, staged]

theorem carries_inline (plain : Plain req) {i : Nat} (hi : i < bufs req.sc)
    (inline : ¬ staged req i = true) : carriesMapping req i = false := by
  rw [plain_carries plain hi]
  exact Bool.eq_false_iff.mpr inline

theorem argLen_le (req : Request) {i n : Nat} (hi : i < n) :
    argLen req i ≤ span (argLen req) 0 n := by
  have upTo : span (argLen req) 0 (i + 1) ≤ span (argLen req) 0 n := span_le_of_le hi
  rw [span_succ, Nat.zero_add] at upTo
  omega

/-- A scatter list is much shorter than the buffer, or as long as one of the cache. -/
theorem staged_record {len size : UInt64} {pages nents : Nat} (provided : Provided len size pages)
    (few : nents ≤ pages) (short : len.toNat < 2 ^ 32) :
    256 * (32 + 16 * nents) ≤ 256 * 32832 + len.toNat := by
  have counted := provided.pages
  rw [StagingPages.pageCount_toNat] at counted
  rcases provided.source with rfl | cached
  · rw [StagingPages.pageAlign_toNat] at counted
    omega
  · have small := UInt64.lt_iff_toNat_lt.mp cached
    have limit : maxCacheBufSize.toNat = 8388608 := rfl
    omega

/-- The lengths of the arguments are below four gigabytes, all in all. -/
def Short (req : Request) : Prop := span (argLen req) 0 (bufs req.sc) < 2 ^ 32

instance (req : Request) : Decidable (Short req) := inferInstanceAs (Decidable (_ < _))

theorem recordLen_bound (plain : Plain req) (short : Short req) (staging : Staging req addr)
    (exceeds : oversize req = true) {i : Nat} (hi : i < bufs req.sc) :
    256 * recordLen req i ≤ 256 * 32832 + argLen req i := by
  have hlen : argLen req i < 2 ^ 32 := Nat.lt_of_le_of_lt (argLen_le req hi) short
  by_cases stage : stageable req i = true
  · obtain ⟨pages, provided, few⟩ := staging.provided i (by simp [staged, exceeds, stage])
    rw [recordLen_staged exceeds stage]
    exact staged_record provided few hlen
  · have inline := carries_inline plain hi (by simp [staged, stage])
    have page : (req.lpra i).len < pageSize := by
      simpa [stageable, hi, plain.unmapped i hi] using stage
    have page : (req.lpra i).len.toNat < 4096 := UInt64.lt_iff_toNat_lt.mp page
    rw [recordLen_inline hi inline]
    omega

/-- In either mode the whole message is below four gigabytes. -/
theorem transfer_small (plain : Plain req) (short : Short req) (staging : Staging req addr) :
    recordStart req (total req.sc) < 2 ^ 32 := by
  have htotal := total_le req.sc
  rw [plain_total plain] at htotal ⊢
  by_cases exceeds : oversize req = true
  · have upTo : ∀ n, n ≤ bufs req.sc → 256 * span (recordLen req) 0 n ≤
        256 * 32832 * n + span (argLen req) 0 n := by
      intro n
      induction n with
      | zero => simp
      | succ n ih =>
        intro hn
        have := recordLen_bound plain short staging exceeds (i := n) (by omega)
        have := ih (by omega)
        rw [span_succ, span_succ, Nat.zero_add]
        omega
    have := upTo _ (Nat.le_refl _)
    unfold Short at short
    simp only [recordStart, metaBytes, plain_total plain]
    omega
  · have lens : span (recordLen req) 0 (bufs req.sc) = span (argLen req) 0 (bufs req.sc) := by
      refine span_congr fun i _ hi => ?_
      rw [recordLen, if_neg exceeds, plain_inline plain (by omega)]
    have sized : span (inlineLen req) 0 (bufs req.sc) = span (argLen req) 0 (bufs req.sc) :=
      span_congr fun i _ hi => plain_inline plain (by omega)
    have fits := req.bufSize.toNat_lt
    unfold Short at short
    simp only [oversize, plain_total plain, sized, metaBytes, decide_eq_true_eq] at exceeds
    simp only [recordStart, metaBytes, plain_total plain, lens]
    omega

end Sizes

section Request

variable {req : Request} {addr : Nat → Nat → UInt64} {i : Nat}

theorem sgAddr_congr {sgl sgl' : Nat → UInt64 × UInt64} {j n : Nat}
    (same : ∀ l, j ≤ l → l < j + n → sgl l = sgl' l) (k : Nat) :
    sgAddr sgl j n k = sgAddr sgl' j n k := by
  induction n generalizing j k with
  | zero => rfl
  | succ n ih =>
    rw [sgAddr, sgAddr, same j (Nat.le_refl j) (by omega),
      ih fun l hl hn => same l (by omega) (by omega)]

theorem tableAddr_congr {table table' : SgTable} (nents : table.nents = table'.nents)
    (sgl : ∀ j, j < table'.nents.toNat → table.sgl j = table'.sgl j) (k : Nat) :
    tableAddr table k = tableAddr table' k := by
  rw [tableAddr, tableAddr, nents]
  exact sgAddr_congr (fun j _ hj => sgl j (by omega)) k

/-- The parts of the descriptor that the back end needs. -/
theorem readEntry_fields (user prev : Mem) (out : Outcomes) (msgid : UInt16) (plain : Plain req)
    (small : recordStart req (total req.sc) < 2 ^ 32) (hi : i < bufs req.sc) :
    (readEntry (message user req out msgid prev) i).attrs =
        (if staged req i then vfastrpcBufAttrInternal else 0) ∧
      (readEntry (message user req out msgid prev) i).offset = 0 ∧
      (readEntry (message user req out msgid prev) i).bufLen = (req.lpra i).len ∧
      (readEntry (message user req out msgid prev) i).payloadLen =
        UInt64.ofNat (recordLen req i) := by
  have htotal : i < total req.sc := lt_total hi
  have read := readEntry_message user prev out msgid (by omega) htotal (Or.inl hi)
  have fields : ∀ e : PraEntry, argEntry req out i = e →
      (readEntry (message user req out msgid prev) i).attrs = e.attrs ∧
      (readEntry (message user req out msgid prev) i).offset = e.offset ∧
      (readEntry (message user req out msgid prev) i).bufLen = e.bufLen ∧
      (readEntry (message user req out msgid prev) i).payloadLen = e.payloadLen := by
    rintro e rfl
    rw [← read]
    exact ⟨rfl, rfl, rfl, rfl⟩
  have hmapped := plain.unmapped i hi
  by_cases stage : staged req i = true
  · obtain ⟨exceeds, stageable⟩ := Bool.and_eq_true_iff.mp stage
    have entry := fields ⟨vfastrpcBufAttrInternal, 0, (req.lpra i).pv, (req.lpra i).len, 0,
      sizeOfMapping (stagingBuf req i).sgt.nents⟩ (by simp [argEntry, hmapped, exceeds, stageable])
    rw [if_pos stage, recordLen_staged exceeds stageable, ← sizeOfMapping_eq]
    exact entry
  · have inline := carries_inline plain hi stage
    have entry := fields ⟨0, 0, (req.lpra i).pv, (req.lpra i).len, 0, (req.lpra i).len⟩ (by
      unfold staged at stage
      simp [argEntry, hmapped, stage])
    rw [if_neg stage, recordLen_inline hi inline, UInt64.ofNat_toNat]
    exact entry

theorem cursor_eq (user prev : Mem) (out : Outcomes) (msgid : UInt16) (plain : Plain req)
    (small : recordStart req (total req.sc) < 2 ^ 32) (hi : i ≤ bufs req.sc) :
    cursor req.sc (message user req out msgid prev) i = UInt64.ofNat (recordStart req i) := by
  induction i with
  | zero =>
    have start : praOff (total req.sc) + sizeOfLists = metalen req.sc := rfl
    rw [cursor, start, metalen_eq]
    rfl
  | succ i ih =>
    obtain ⟨-, -, -, len⟩ := readEntry_fields user prev out msgid plain small (i := i) (by omega)
    rw [cursor, ih (by omega), len, ← UInt64.ofNat_add, recordStart_succ]

theorem staged_large (short : Short req) (staging : Staging req addr) (hi : i < bufs req.sc)
    (stage : staged req i = true) : argLen req i ≤ (req.staging i).size.toNat := by
  have hlen : argLen req i < 2 ^ 32 := Nat.lt_of_le_of_lt (argLen_le req hi) short
  obtain ⟨pages, provided, -⟩ := staging.provided i stage
  have large := UInt64.le_iff_toNat_le.mp provided.large
  rw [StagingPages.pageAlign_toNat] at large
  unfold argLen at hlen ⊢
  omega

/-- The descriptors lead to the bytes of the payload or of the staging buffer. -/
theorem place_eq (user prev : Mem) (out : Outcomes) (msgid : UInt16) (plain : Plain req)
    (short : Short req) (staging : Staging req addr) (hi : i < bufs req.sc) {k : Nat}
    (hk : k < argLen req i) :
    place req.sc (message user req out msgid prev) i k =
      some (if staged req i then .page (addr i k)
        else .payload (UInt64.ofNat (recordStart req i) + UInt64.ofNat k)) := by
  have small := transfer_small plain short staging
  have htotal : i < total req.sc := lt_total hi
  obtain ⟨attrs, offset, -, -⟩ := readEntry_fields user prev out msgid plain small hi
  have start := cursor_eq user prev out msgid plain small (Nat.le_of_lt hi)
  unfold place
  dsimp only
  rw [attrs, offset, start]
  by_cases stage : staged req i = true
  · have carries := (plain_carries plain hi).trans stage
    obtain ⟨nents, sgl⟩ := readTable_message user prev out msgid (by omega) htotal carries
    have table : argTable req i = (req.staging i).sgt := by
      simp [argTable, plain.unmapped i hi, stagingBuf]
    rw [table] at nents sgl
    have listed := staging.listed i stage k
      (Nat.lt_of_lt_of_le hk (staged_large short staging hi stage))
    have internal : vfastrpcBufAttrInternal &&& vfastrpcBufAttrInternal ≠ 0 := by decide
    rw [if_pos stage, if_pos stage, if_pos internal, tableAddr_congr nents sgl]
    simp only [UInt64.reduceToNat, Nat.zero_add, listed, Option.map_some]
  · have none : ¬ (0 &&& vfastrpcBufAttrInternal ≠ 0) := by decide
    rw [if_neg stage, if_neg stage, if_neg none]

/-- Bytes written to the pages of those arguments among `args` that are staged. -/
def scatter (req : Request) (addr : Nat → Nat → UInt64) (args : List Nat)
    (byte : Nat → Nat → UInt8) : List Write :=
  args.flatMap fun i =>
    if staged req i then (List.range (argLen req i)).map fun k => ⟨addr i k, 1, fun _ => byte i k⟩
    else []

theorem covers_one {a b : UInt64} {byte : Nat → UInt8} :
    (⟨b, 1, byte⟩ : Write).Covers a ↔ a = b := by
  simp only [Write.Covers, Nat.lt_one_iff]
  constructor
  · intro zero
    have none : a - b = 0 := UInt64.toNat_inj.mp zero
    grind
  · rintro rfl
    simp

/-- The pages of different buffers do not interfere. -/
theorem scatter_byte {args : List Nat} {byte : Nat → Nat → UInt8} (phys : Mem) (short : Short req)
    (staging : Staging req addr) (known : ∀ j ∈ args, j < bufs req.sc) (mem : i ∈ args)
    (stage : staged req i = true) {k : Nat} (hk : k < argLen req i) :
    applyAll (scatter req addr args byte) phys (addr i k) = byte i k := by
  refine applyAll_of_agree ⟨⟨addr i k, 1, fun _ => byte i k⟩, ?_, covers_one.mpr rfl⟩
    (fun w hw reached => ?_) phys
  · refine List.mem_flatMap.mpr ⟨i, mem, ?_⟩
    rw [if_pos stage]
    exact List.mem_map.mpr ⟨k, List.mem_range.mpr hk, rfl⟩
  · obtain ⟨j, hj, hw⟩ := List.mem_flatMap.mp hw
    split_ifs at hw with stage'
    · obtain ⟨l, hl, rfl⟩ := List.mem_map.mp hw
      obtain ⟨rfl, rfl⟩ := staging.apart i j stage stage' k l
        (Nat.lt_of_lt_of_le hk (staged_large short staging (known i mem) stage))
        (Nat.lt_of_lt_of_le (List.mem_range.mp hl) (staged_large short staging (known j hj) stage'))
        (covers_one.mp reached)
      rfl
    · cases hw

theorem stageIn_eq {s : State} (user : Mem) (descs : Descs req (oversize req) (bufs req.sc) s) :
    stageIn req s addr user = scatter req addr (List.range (inbufs req.sc)) fun i k =>
      user ((req.lpra i).pv + UInt64.ofNat k) := by
  refine List.flatMap_congr fun i mem => ?_
  have hi := Nat.lt_of_lt_of_le (List.mem_range.mp mem) (inbufs_le_bufs req.sc)
  have desc : internalBuf s.desc i = if staged req i then some (stagingBuf req i) else none :=
    descs i hi
  rw [desc]
  by_cases stage : staged req i = true <;> simp [stage]

/-- A staged in-buffer is in its pages. -/
theorem stageIn_byte {s : State} {user : Mem} (phys : Mem) (short : Short req)
    (staging : Staging req addr) (descs : Descs req (oversize req) (bufs req.sc) s)
    (hi : i < inbufs req.sc) (stage : staged req i = true) {k : Nat} (hk : k < argLen req i) :
    applyAll (stageIn req s addr user) phys (addr i k) =
      user ((req.lpra i).pv + UInt64.ofNat k) := by
  rw [stageIn_eq user descs]
  exact scatter_byte phys short staging
    (fun j mem => Nat.lt_of_lt_of_le (List.mem_range.mp mem) (inbufs_le_bufs _))
    (List.mem_range.mpr hi) stage hk

/-- The contents of the caller's in-buffers. -/
def callerInputs (req : Request) (user : Mem) : List (List UInt8) :=
  (List.range (inbufs req.sc)).map fun i =>
    (List.range (argLen req i)).map fun k => user ((req.lpra i).pv + UInt64.ofNat k)

/-- The back end reads what the caller passed. -/
theorem inputs_eq {s : State} (user prev phys : Mem) (out : Outcomes) (msgid : UInt16)
    (plain : Plain req) (short : Short req) (staging : Staging req addr)
    (descs : Descs req (oversize req) (bufs req.sc) s) :
    inputs req.sc (message user req out msgid prev) (applyAll (stageIn req s addr user) phys) =
      callerInputs req user := by
  have small := transfer_small plain short staging
  refine List.map_congr_left fun i mem => ?_
  have hi := List.mem_range.mp mem
  have hbuf : i < bufs req.sc := Nat.lt_of_lt_of_le hi (inbufs_le_bufs _)
  obtain ⟨-, -, bufLen, -⟩ := readEntry_fields user prev out msgid plain small hbuf
  rw [bufLen]
  refine Eq.trans (List.filterMap_congr fun k hk => ?_) (congrFun List.filterMap_eq_map _)
  have hk : k < argLen req i := List.mem_range.mp hk
  rw [place_eq user prev out msgid plain short staging hbuf hk, Option.map_some]
  refine congrArg some ?_
  by_cases stage : staged req i = true
  · rw [if_pos stage]
    exact stageIn_byte phys short staging descs hi stage hk
  · rw [if_neg stage]
    exact inline_byte user prev out msgid (by omega) hi (carries_inline plain hbuf stage) hk

end Request

section Response

variable {req : Request} {addr : Nat → Nat → UInt64} {s : State} {rsp : Response}

/-- The copy of out-buffer `i` to the caller. -/
def outEffect (req : Request) (i : Nat) : Effect :=
  if staged req i then .copyStaged i (req.lpra i).pv (req.lpra i).len
  else .copyPayload i (req.lpra i).pv (UInt64.ofNat (recordStart req i)) (req.lpra i).len

/-- `put_args` before out-buffer `i`. -/
structure Copying (req : Request) (i : Nat) (r : Reader) : Prop where
  maps : ∀ j, j < bufs req.sc → r.maps j = none
  payload : r.payload = UInt64.ofNat (recordStart req i)
  effects : r.effects = (List.range' (inbufs req.sc) (i - inbufs req.sc)).map (outEffect req)

theorem readBuffer_copying (copyErr : Nat → Int) {i : Nat} {r : Reader}
    (descs : Descs req (oversize req) (bufs req.sc) s) (hlo : inbufs req.sc ≤ i)
    (hi : i < bufs req.sc) (payloadLen : (rsp.pra i).payloadLen = UInt64.ofNat (recordLen req i))
    (bufLen : (rsp.pra i).bufLen = (req.lpra i).len) (h : Copying req i r) :
    (readBuffer req s.desc rsp copyErr i r).Holds (Copying req (i + 1)) (fun _ _ => True) := by
  have next : ∀ e, outEffect req i = e →
      Copying req (i + 1) { r.emit e with payload := r.payload + (rsp.pra i).payloadLen } := by
    rintro e rfl
    refine ⟨h.maps, ?_, ?_⟩
    · dsimp only
      rw [h.payload, payloadLen, ← UInt64.ofNat_add, recordStart_succ]
    · have more : i + 1 - inbufs req.sc = (i - inbufs req.sc) + 1 := by omega
      have last : inbufs req.sc + (i - inbufs req.sc) = i := by omega
      rw [more, List.range'_1_concat, List.map_append, last, ← h.effects]
      rfl
  have desc : internalBuf s.desc i = if staged req i then some (stagingBuf req i) else none :=
    descs i hi
  unfold readBuffer
  dsimp only
  rw [h.maps i hi, desc]
  by_cases stage : staged req i = true
  · rw [if_pos stage]
    dsimp only [Reader.copied]
    split_ifs
    · trivial
    · exact next _ (if_pos stage)
  · rw [if_neg stage]
    dsimp only [Reader.copied]
    split_ifs
    · trivial
    · refine next _ ?_
      rw [outEffect, if_neg stage, bufLen, h.payload]

/-- The fd list makes no copies. -/
theorem readFdlist_copies {β : Type} (f : Effect → List β) (none : ∀ fd, f (.releaseFd fd) = [])
    (rsp : Response) (k n : Nat) (r : Reader) :
    (readFdlist rsp k n r).effects.flatMap f = r.effects.flatMap f := by
  induction n generalizing k r with
  | zero => rfl
  | succ n ih =>
    unfold readFdlist
    split_ifs
    · rfl
    · rw [ih]
      simp [Reader.emit, none]

/-- All copies to the caller, in order. -/
theorem putArgs_copies {β : Type} (f : Effect → List β) (none : ∀ fd, f (.releaseFd fd) = [])
    {copyErr : Nat → Int} {crcErr : Int} {r : Reader} (plain : Plain req)
    (small : recordStart req (total req.sc) < 2 ^ 32) (writing : Writing req (total req.sc) s)
    (lengths : ∀ i, i < bufs req.sc → (rsp.pra i).payloadLen = UInt64.ofNat (recordLen req i) ∧
      (rsp.pra i).bufLen = (req.lpra i).len)
    (copied : putArgs req s rsp copyErr crcErr = .next r) :
    r.effects.flatMap f =
      (List.range' (inbufs req.sc) (outbufs req.sc)).flatMap (fun i => f (outEffect req i)) ++
        if req.crc then f (.copyCrclist (praOff (total req.sc) + 8 * mFdlist) (4 * mCrclist))
        else [] := by
  have hin : inbufs req.sc ≤ total req.sc := by simp only [total, bufs]; omega
  have hlt : recordStart req (inbufs req.sc) < 2 ^ 32 :=
    Nat.lt_of_le_of_lt (recordStart_mono req hin) small
  have start : Copying req (inbufs req.sc)
      ⟨s.maps, UInt64.ofNat (recordStart req (inbufs req.sc)), []⟩ := by
    refine ⟨fun j hj => ?_, rfl, by simp⟩
    simp [writing.slots j, plain.unmapped j hj]
  have rounds := loop_holds (Copying req) (n := outbufs req.sc) start fun i t hlo hi ht =>
    readBuffer_copying copyErr writing.descs hlo hi (lengths i hi).1 (lengths i hi).2 ht
  have spec : (putArgs req s rsp copyErr crcErr).Holds (fun r => r.effects.flatMap f =
      (List.range' (inbufs req.sc) (outbufs req.sc)).flatMap (fun i => f (outEffect req i)) ++
        if req.crc then f (.copyCrclist (praOff (total req.sc) + 8 * mFdlist) (4 * mCrclist))
        else []) (fun _ _ => True) := by
    unfold putArgs
    dsimp only
    rw [outbufs_cursor writing hlt]
    by_cases failed : rsp.result ≠ 0
    · rw [if_pos failed]
      trivial
    rw [if_neg failed]
    refine holds_andThen _ rounds fun t ht => ?_
    have outs : (readFdlist rsp 0 mFdlist.toNat t).effects.flatMap f =
        (List.range' (inbufs req.sc) (outbufs req.sc)).flatMap fun i => f (outEffect req i) := by
      rw [readFdlist_copies f none, ht.effects, Nat.add_sub_cancel_left]
      simp [List.flatMap_map]
    split_ifs with crc
    · unfold Reader.copied
      split_ifs
      · trivial
      · rw [holds_next, Reader.emit, List.flatMap_append, outs]
        simp
    · rw [holds_next, outs, List.append_nil]
  rw [copied] at spec
  exact spec

/-- Without faults the response is copied. -/
theorem putArgs_succeeds (req : Request) (s : State) (hresult : rsp.result = 0) :
    ∃ r, putArgs req s rsp (fun _ => 0) 0 = .next r := by
  have rounds : (loop (readBuffer req s.desc rsp fun _ => 0) (inbufs req.sc) (outbufs req.sc)
      ⟨s.maps, praOff (total req.sc) + sizeOfLists + s.outbufsOffset.toUInt64, []⟩).Holds
      (fun _ => True) (fun _ _ => False) := by
    refine loop_holds (fun _ _ => True) trivial fun i r _ _ _ => ?_
    unfold readBuffer
    dsimp only
    cases r.maps i with
    | some map => trivial
    | none => cases internalBuf s.desc i <;> exact trivial
  have spec : (putArgs req s rsp (fun _ => 0) 0).Holds (fun _ => True) (fun _ _ => False) := by
    unfold putArgs
    dsimp only
    rw [if_neg (not_not.mpr hresult)]
    refine holds_andThen _ rounds fun r _ => ?_
    split_ifs <;> exact trivial
  cases copied : putArgs req s rsp (fun _ => 0) 0 with
  | next r => exact ⟨r, rfl⟩
  | bail err r =>
    rw [copied] at spec
    exact spec.elim

end Response

section Answer

variable {req : Request} {addr : Nat → Nat → UInt64}

/-- The response as the request with the result cleared and the inline outputs written. -/
def replies (req : Request) (output : Nat → Nat → UInt8) : List Write :=
  ⟨22, 4, fun _ => 0⟩ :: (List.range' (inbufs req.sc) (outbufs req.sc)).map fun i =>
    ⟨UInt64.ofNat (recordStart req i), if staged req i then 0 else argLen req i, output i⟩

theorem replies_covers (plain : Plain req) (small : recordStart req (total req.sc) < 2 ^ 32)
    {output : Nat → Nat → UInt8} {w : Write} (mem : w ∈ replies req output) {a : UInt64}
    (reached : w.Covers a) :
    22 ≤ a.toNat ∧ a.toNat < 26 ∧ w = ⟨22, 4, fun _ => 0⟩ ∨
      ∃ i, inbufs req.sc ≤ i ∧ i < bufs req.sc ∧ InRecord req i a ∧
        w = ⟨UInt64.ofNat (recordStart req i), argLen req i, output i⟩ := by
  rcases List.mem_cons.mp mem with rfl | mem
  · have fits : (22 : UInt64).toNat + 4 ≤ 2 ^ 64 := by decide
    have place := (sub_lt_iff fits).mp reached
    exact Or.inl ⟨place.1, place.2, rfl⟩
  · obtain ⟨i, hi, rfl⟩ := List.mem_map.mp mem
    obtain ⟨hlo, hhi⟩ := List.mem_range'_1.mp hi
    have htotal : i < total req.sc := lt_total hhi
    by_cases stage : staged req i = true
    · simp only [Write.Covers, if_pos stage, Nat.not_lt_zero] at reached
    · have inline := carries_inline plain hhi stage
      simp only [Write.Covers, if_neg stage] at reached
      refine Or.inr ⟨i, hlo, hhi, (inRecord_iff (by omega) htotal).mp ?_, by rw [if_neg stage]⟩
      rw [recordLen_inline hhi inline]
      exact reached

theorem replies_result (plain : Plain req) (small : recordStart req (total req.sc) < 2 ^ 32)
    (output : Nat → Nat → UInt8) (tx : Mem) : u32At (applyAll (replies req output) tx) 22 = 0 := by
  refine u32At_eq fun k hk => ?_
  have address : ((22 : UInt64) + UInt64.ofNat k).toNat = 22 + k := by
    simp only [UInt64.toNat_add, UInt64.toNat_ofNat', UInt64.reduceToNat]
    omega
  have covers : (⟨22, 4, fun _ => 0⟩ : Write).Covers (22 + UInt64.ofNat k) := by
    rw [Write.Covers, sub_self_add _ (by omega)]
    exact hk
  have zero : (0 : UInt8) = byteOf (0 : UInt32).toNat k := by simp [byteOf]
  refine (applyAll_of_agree ⟨_, List.mem_cons_self, covers⟩ (fun w mem reached => ?_) tx).trans zero
  rcases replies_covers plain small mem reached with ⟨-, -, rfl⟩ | ⟨i, -, -, ⟨above, -⟩, -⟩
  · rfl
  · have front := metaBytes_le_recordStart req i
    simp only [metaBytes] at front
    omega

/-- The descriptors of the request are repeated. -/
theorem replies_entry (plain : Plain req) (small : recordStart req (total req.sc) < 2 ^ 32)
    (output : Nat → Nat → UInt8) (tx : Mem) {i : Nat} (hi : i < total req.sc) :
    readEntry (applyAll (replies req output) tx) i = readEntry tx i := by
  have hmax : i < 540 := Nat.lt_of_lt_of_le hi (total_le _)
  have hoff := praOff_toNat (Nat.le_of_lt hmax)
  have byte : ∀ a, InDescriptor i a → applyAll (replies req output) tx a = tx a := by
    intro a here
    refine applyAll_uncovered ?_ tx
    rintro ⟨w, mem, reached⟩
    have above := here.1
    have below := here.2
    rcases replies_covers plain small mem reached with ⟨-, low, -⟩ | ⟨j, -, -, ⟨front, -⟩, -⟩
    · omega
    · have lists := metaBytes_le_recordStart req j
      simp only [metaBytes] at lists
      omega
  have field : ∀ (d : UInt64) (n : Nat), d.toNat + n ≤ 40 →
      word n (applyAll (replies req output) tx) (praOff i + d) = word n tx (praOff i + d) := by
    intro d n inside
    refine ofBytes_congr fun k hk => byte _ ?_
    have place : (praOff i + d + UInt64.ofNat k).toNat = 46 + 40 * i + d.toNat + k := by
      rw [UInt64.toNat_add, UInt64.toNat_add, hoff, UInt64.toNat_ofNat']
      omega
    constructor <;> omega
  have attrs := field 0 4 (by decide)
  rw [UInt64.add_zero] at attrs
  simp only [readEntry, u32At, u64At, attrs, field 4 4 (by decide), field 8 8 (by decide),
    field 16 8 (by decide), field 24 8 (by decide), field 32 8 (by decide)]

theorem replies_output (plain : Plain req) (small : recordStart req (total req.sc) < 2 ^ 32)
    (output : Nat → Nat → UInt8) (tx : Mem) {i : Nat} (hlo : inbufs req.sc ≤ i)
    (hi : i < bufs req.sc) (inline : staged req i = false) {k : Nat} (hk : k < argLen req i) :
    applyAll (replies req output) tx (UInt64.ofNat (recordStart req i) + UInt64.ofNat k) =
      output i k := by
  have hlen : argLen req i < 2 ^ 64 := (req.lpra i).len.toNat_lt
  have htotal : i < total req.sc := lt_total hi
  have back := sub_self_add (UInt64.ofNat (recordStart req i)) (k := k) (by omega)
  have covers : (⟨UInt64.ofNat (recordStart req i), argLen req i, output i⟩ : Write).Covers
      (UInt64.ofNat (recordStart req i) + UInt64.ofNat k) := by
    rw [Write.Covers, back]
    exact hk
  have mem : (⟨UInt64.ofNat (recordStart req i), argLen req i, output i⟩ : Write) ∈
      replies req output := by
    have listed : i ∈ List.range' (inbufs req.sc) (outbufs req.sc) :=
      List.mem_range'_1.mpr ⟨hlo, hi⟩
    refine List.mem_cons_of_mem _ (List.mem_map.mpr ⟨i, listed, ?_⟩)
    simp [inline]
  have own : InRecord req i (UInt64.ofNat (recordStart req i) + UInt64.ofNat k) := by
    refine (inRecord_iff (by omega) htotal).mp ?_
    rw [recordLen_inline hi ((plain_carries plain hi).trans inline), back]
    exact hk
  refine applyAll_of_agree ⟨_, mem, covers⟩ (fun w hw reached => ?_) tx
  rcases replies_covers plain small hw reached with ⟨-, below, -⟩ | ⟨j, -, -, here, rfl⟩
  · have front := metaBytes_le_recordStart req i
    have above := own.1
    simp only [metaBytes] at front
    omega
  · obtain rfl : j = i := by
      rcases Nat.lt_trichotomy j i with less | same | more
      · have order := recordStart_mono req (i := j + 1) less
        have := here.2
        have := own.1
        omega
      · exact same
      · have order := recordStart_mono req (i := i + 1) more
        have := here.1
        have := own.2
        omega
    exact congrArg (output j) back

/-- Any function can be served: the hypotheses about the back end can be met. -/
theorem exchange_exists (F : Service) (crc : UInt64) (user prev phys : Mem) {out : Outcomes}
    {s : State} (plain : Plain req) (short : Short req) (staging : Staging req addr)
    (accepted : getArgs req out (readEntry prev) = .next s) :
    ∃ user', Nonempty (Exchange F req crc user user') := by
  obtain ⟨-, msgid, stores⟩ := getArgs_stores accepted
  have small := transfer_small plain short staging
  have sent : contents user s.stores prev = message user req out msgid prev := by
    rw [stores]
    rfl
  let output := F (inputs req.sc (contents user s.stores prev)
    (applyAll (stageIn req s addr user) phys))
  let rx := applyAll (replies req output) (contents user s.stores prev)
  let outs := List.range' (inbufs req.sc) (outbufs req.sc)
  have served : Serves F req.sc (contents user s.stores prev)
      (applyAll (stageIn req s addr user) phys) rx
      (applyAll (scatter req addr outs output) phys) := by
    refine ⟨replies_result plain small output _, fun i hi => ?_, fun i hlo hi k hk p found => ?_⟩
    · have echo := replies_entry plain small output (contents user s.stores prev)
        (lt_total hi)
      exact ⟨congrArg PraEntry.payloadLen echo, congrArg PraEntry.bufLen echo⟩
    · rw [sent] at hk found
      obtain ⟨-, -, bufLen, -⟩ := readEntry_fields user prev out msgid plain small hi
      rw [bufLen] at hk
      rw [place_eq user prev out msgid plain short staging hi hk] at found
      obtain rfl := Option.some.inj found
      by_cases stage : staged req i = true
      · rw [if_pos stage]
        exact scatter_byte phys short staging (fun j mem => (List.mem_range'_1.mp mem).2)
          (List.mem_range'_1.mpr ⟨hlo, hi⟩) stage hk
      · rw [if_neg stage]
        exact replies_output plain small output _ hlo hi (Bool.eq_false_iff.mpr stage) hk
  obtain ⟨r, copied⟩ := putArgs_succeeds req s served.result
  exact ⟨_, ⟨⟨out, prev, s, addr, phys, rx, _, fun _ => 0, 0, r, staging, accepted, served, copied,
    rfl⟩⟩⟩

end Answer

/-- The out-buffers filled one after the other. -/
def outputWrites (req : Request) (output : Nat → Nat → UInt8) : List Write :=
  (List.range' (inbufs req.sc) (outbufs req.sc)).map fun i =>
    ⟨(req.lpra i).pv, argLen req i, output i⟩

/-- The address is in the crc array that `put_args` fills last, if the caller wants crcs. -/
def InCrclist (req : Request) (crc a : UInt64) : Prop := req.crc = true ∧ (a - crc).toNat < 256

section Exchange

variable {F : Service} {req : Request} {crc : UInt64} {user user' : Mem}

theorem crclist_not_covered {addr : Nat → Nat → UInt64} {rx phys : Mem} {a : UInt64}
    (outside : ¬ InCrclist req crc a) (off : UInt64) :
    ¬ Covered (if req.crc then effectWrites addr rx phys crc (.copyCrclist off (4 * mCrclist))
      else []) a := by
  split_ifs with wanted
  · rintro ⟨w, mem, reached⟩
    obtain rfl := List.mem_singleton.mp mem
    exact outside ⟨wanted, reached⟩
  · exact not_covered_nil a

/-- Apart from crcs the call leaves `F` of the in-buffers in the out-buffers, in either
mode. -/
theorem exchange_stores (plain : Plain req) (short : Short req)
    (x : Exchange F req crc user user') {a : UInt64} (outside : ¬ InCrclist req crc a) :
    user' a = applyAll (outputWrites req (F (callerInputs req user))) user a := by
  obtain ⟨writing, msgid, stores⟩ := getArgs_stores x.accepted
  have small := transfer_small plain short x.staging
  have served := x.served
  have sent : contents user x.sent.stores x.prev = message user req x.out msgid x.prev := by
    rw [stores]
    rfl
  rw [sent] at served
  have fields := fun {i} (hi : i < bufs req.sc) =>
    readEntry_fields user x.prev x.out msgid plain small hi
  have lengths : ∀ i, i < bufs req.sc →
      ((decode req.sc x.rx).pra i).payloadLen = UInt64.ofNat (recordLen req i) ∧
        ((decode req.sc x.rx).pra i).bufLen = (req.lpra i).len := by
    intro i hi
    obtain ⟨-, -, bufLen, payloadLen⟩ := fields hi
    exact ⟨(served.echoes i hi).1.trans payloadLen, (served.echoes i hi).2.trans bufLen⟩
  have copies := putArgs_copies (effectWrites x.addr x.rx x.phys' crc) (fun _ => rfl) plain small
    writing lengths x.copied
  rw [x.after, copies, applyAll_append]
  refine (applyAll_uncovered (crclist_not_covered outside _) _).trans ?_
  have single : (fun i => effectWrites x.addr x.rx x.phys' crc (outEffect req i)) = fun i =>
      [⟨(req.lpra i).pv, argLen req i, fun k => fetch x.rx x.phys'
        (if staged req i then .page (x.addr i k)
          else .payload (UInt64.ofNat (recordStart req i) + UInt64.ofNat k))⟩] := by
    funext i
    unfold outEffect
    split_ifs <;> rfl
  rw [single, ← List.map_eq_flatMap, outputWrites]
  refine congrFun (applyAll_map_same ?_ user) a
  intro i mem
  refine ⟨rfl, rfl, fun k hk => ?_⟩
  obtain ⟨hlo, hhi⟩ := List.mem_range'_1.mp mem
  obtain ⟨-, -, bufLen, -⟩ := fields hhi
  rw [← inputs_eq user x.prev x.phys x.out msgid plain short x.staging writing.descs]
  exact served.outputs i hlo hhi k (by rw [bufLen]; exact hk) _
    (place_eq user x.prev x.out msgid plain short x.staging hhi hk)

/-- No byte of out-buffer `i` belongs to a later out-buffer or to the crc array. -/
def Apart (req : Request) (crc : UInt64) (i : Nat) : Prop :=
  ∀ k, k < argLen req i → ¬ InCrclist req crc ((req.lpra i).pv + UInt64.ofNat k) ∧
    ∀ j, i < j → j < bufs req.sc →
      argLen req j ≤ ((req.lpra i).pv + UInt64.ofNat k - (req.lpra j).pv).toNat

theorem outputWrites_apart (user : Mem) {i : Nat} (output : Nat → Nat → UInt8)
    (hlo : inbufs req.sc ≤ i) (hi : i < bufs req.sc) (apart : Apart req crc i) {k : Nat}
    (hk : k < argLen req i) :
    applyAll (outputWrites req output) user ((req.lpra i).pv + UInt64.ofNat k) = output i k := by
  have hlen := (req.lpra i).len.toNat_lt
  have back := sub_self_add (req.lpra i).pv (k := k) (by unfold argLen at hk; omega)
  have split : List.range' (inbufs req.sc) (outbufs req.sc) =
      List.range' (inbufs req.sc) (i - inbufs req.sc) ++
        i :: List.range' (i + 1) (bufs req.sc - (i + 1)) := by
    have parts : outbufs req.sc = (i - inbufs req.sc) + (bufs req.sc - (i + 1) + 1) := by
      unfold bufs at hi ⊢
      omega
    have here : inbufs req.sc + (i - inbufs req.sc) = i := by omega
    rw [parts, ← List.range'_append_1, here, List.range'_succ]
  have none : ¬ Covered ((List.range' (i + 1) (bufs req.sc - (i + 1))).map fun j =>
      (⟨(req.lpra j).pv, argLen req j, output j⟩ : Write))
      ((req.lpra i).pv + UInt64.ofNat k) := by
    rintro ⟨w, mem, reached⟩
    obtain ⟨j, hj, rfl⟩ := List.mem_map.mp mem
    obtain ⟨hj, hj'⟩ := List.mem_range'_1.mp hj
    exact Nat.not_lt.mpr ((apart k hk).2 j hj (by omega)) reached
  have covers : (⟨(req.lpra i).pv, argLen req i, output i⟩ : Write).Covers
      ((req.lpra i).pv + UInt64.ofNat k) := by
    rw [Write.Covers, back]
    exact hk
  rw [outputWrites, split, List.map_append, List.map_cons, applyAll_last covers none]
  exact congrArg (output i) back

/-- Inline and staged transfer agree, whatever staging buffers they use: apart from crcs the
caller's memory is as after storing the outputs of `F` in order, so that an out-buffer
that is not overwritten holds its output. -/
theorem transfers_agree {bufSize : UInt32} {staging : Nat → VfastrpcBuf} {user'' : Mem}
    (plain : Plain req) (short : Short req) (first : Exchange F req crc user user')
    (second : Exchange F { req with bufSize := bufSize, staging := staging } crc user user'') :
    (∀ a, ¬ InCrclist req crc a →
      user' a = applyAll (outputWrites req (F (callerInputs req user))) user a ∧
        user'' a = user' a) ∧
      ∀ i, inbufs req.sc ≤ i → i < bufs req.sc → Apart req crc i → ∀ k, k < argLen req i →
        user' ((req.lpra i).pv + UInt64.ofNat k) = F (callerInputs req user) i k ∧
          user'' ((req.lpra i).pv + UInt64.ofNat k) = F (callerInputs req user) i k := by
  have plain' : Plain { req with bufSize := bufSize, staging := staging } :=
    ⟨plain.handles, plain.unmapped⟩
  have short' : Short { req with bufSize := bufSize, staging := staging } := short
  have stores := fun {a} (outside : ¬ InCrclist req crc a) =>
    exchange_stores plain short first outside
  have stores' := fun {a} (outside : ¬ InCrclist req crc a) =>
    exchange_stores plain' short' second (a := a) outside
  refine ⟨fun a outside => ⟨stores outside, (stores' outside).trans (stores outside).symm⟩, ?_⟩
  intro i hlo hi apart k hk
  have output := outputWrites_apart user (F (callerInputs req user)) hlo hi apart hk
  exact ⟨(stores (apart k hk).1).trans output, (stores' (apart k hk).1).trans output⟩

end Exchange

/-- An in-buffer of more than a page and an out-buffer of three bytes. -/
def longRequest : Request :=
  { InvokeBounds.cancellingRequest with
    lpra := fun i => if i = 0 then ⟨0x20000, 5000⟩ else ⟨0x9000, 3⟩
    staging := fun _ => ⟨0, 0x2000, 0, 1, fun _ => (0x100000, 0x2000)⟩ }

def tightRequest : Request := { longRequest with bufSize := 0x1000 }

/-- The out-buffer receives the beginning of the in-buffer. -/
def firstBytes : Service := fun ins _ k => (ins.headD []).getD k 0

def onePage (_ k : Nat) : UInt64 := 0x100000 + UInt64.ofNat k

theorem longRequest_plain : Plain longRequest := ⟨by decide, by decide⟩

/-- A request that fits needs no staging buffers. -/
theorem staging_of_fits {req : Request} (fits : oversize req = false)
    (addr : Nat → Nat → UInt64) : Staging req addr := by
  have none : ∀ i, staged req i ≠ true := by
    intro i stage
    rw [staged, fits] at stage
    cases stage
  exact ⟨fun i stage => absurd stage (none i), fun i stage => absurd stage (none i),
    fun i _ stage => absurd stage (none i)⟩

theorem tightRequest_staging : Staging tightRequest onePage := by
  have first : ∀ i, staged tightRequest i = true → i = 0 := by
    intro i stage
    have stageable := (Bool.and_eq_true_iff.mp stage).2
    have hi : i < 2 := by
      simp only [InvokeLayout.stageable, Bool.and_eq_true, decide_eq_true_eq] at stageable
      exact stageable.1.1
    by_contra other
    obtain rfl : i = 1 := by omega
    exact absurd stageable (by decide)
  refine ⟨fun i stage => ?_, fun i stage k hk => ?_, fun i j stage stage' k l hk hl same => ?_⟩
  · obtain rfl := first i stage
    exact ⟨2, ⟨by decide, Or.inl (by decide), by decide⟩, by decide⟩
  · obtain rfl := first i stage
    exact if_pos hk
  · obtain rfl := first i stage
    obtain rfl := first j stage'
    have hk : k < 0x2000 := hk
    have hl : l < 0x2000 := hl
    have address := congrArg UInt64.toNat same
    simp only [onePage, UInt64.toNat_add, UInt64.toNat_ofNat', UInt64.reduceToNat] at address
    exact ⟨rfl, by omega⟩

def messageOf (req : Request) : State :=
  (getArgs req InvokeBounds.calmOutcomes (readEntry fun _ => 0)).state

/-- With a large buffer the request travels inline, with a small one the in-buffer is
staged. -/
theorem longRequest_agrees :
    oversize longRequest = false ∧ oversize tightRequest = true ∧
      ∃ user' user'' : Mem,
        Nonempty (Exchange firstBytes longRequest 0 (fun a => a.toUInt8) user') ∧
        Nonempty (Exchange firstBytes tightRequest 0 (fun a => a.toUInt8) user'') ∧
        ∀ k, k < 3 →
          user' (0x9000 + UInt64.ofNat k) =
            firstBytes (callerInputs longRequest fun a => a.toUInt8) 1 k ∧
          user'' (0x9000 + UInt64.ofNat k) =
            firstBytes (callerInputs longRequest fun a => a.toUInt8) 1 k := by
  have short : Short longRequest := by decide
  have accepted : getArgs longRequest InvokeBounds.calmOutcomes (readEntry fun _ => 0) =
    .next (messageOf longRequest) := rfl
  have accepted' : getArgs tightRequest InvokeBounds.calmOutcomes (readEntry fun _ => 0) =
    .next (messageOf tightRequest) := rfl
  have plain' : Plain tightRequest := ⟨longRequest_plain.handles, longRequest_plain.unmapped⟩
  have staging : Staging longRequest onePage := staging_of_fits (by decide) _
  obtain ⟨user', ⟨first⟩⟩ := exchange_exists firstBytes 0 (fun a => a.toUInt8) (fun _ => 0)
    (fun _ => 0) longRequest_plain short staging accepted
  obtain ⟨user'', ⟨second⟩⟩ := exchange_exists firstBytes 0 (fun a => a.toUInt8) (fun _ => 0)
    (fun _ => 0) plain' short tightRequest_staging accepted'
  refine ⟨by decide, by decide, user', user'', ⟨first⟩, ⟨second⟩, fun k hk => ?_⟩
  have apart : Apart longRequest 0 1 := by
    refine fun k _ => ⟨fun inside => absurd inside.1 (by decide), fun j hj hj' => ?_⟩
    have hj' : j < 2 := hj'
    omega
  exact (transfers_agree longRequest_plain short first second).2 1 (by decide) (by decide) apart
    k hk

/-- Two out-buffers of one byte at one address. -/
def clashingRequest : Request :=
  { longRequest with
    sc := 0x200
    lpra := fun _ => ⟨0x9000, 1⟩ }

/-- Each out-buffer receives its own number. -/
def numbers : Service := fun _ i _ => UInt8.ofNat i

/-- The second output replaces the first one. -/
theorem clashing_output_lost :
    Plain clashingRequest ∧ Short clashingRequest ∧
      ∃ user' : Mem, Nonempty (Exchange numbers clashingRequest 0 (fun _ => 0) user') ∧
        user' 0x9000 ≠ numbers (callerInputs clashingRequest fun _ => 0) 0 0 := by
  have plain : Plain clashingRequest := ⟨by decide, by decide⟩
  have short : Short clashingRequest := by decide
  have staging : Staging clashingRequest onePage := staging_of_fits (by decide) _
  have accepted : getArgs clashingRequest InvokeBounds.calmOutcomes (readEntry fun _ => 0) =
    .next (messageOf clashingRequest) := rfl
  obtain ⟨user', ⟨x⟩⟩ := exchange_exists numbers 0 (fun _ => 0) (fun _ => 0) (fun _ => 0) plain
    short staging accepted
  refine ⟨plain, short, user', ⟨x⟩, ?_⟩
  rw [exchange_stores plain short x fun inside => absurd inside.1 (by decide)]
  decide

end StagedTransfer
