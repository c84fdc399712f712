import PlatformKernel.InvokeMessage

/-!
# The layout of invoke messages

Each argument has one record in the payload area: the bytes of an unmapped
buffer, or a mapping record. The lengths of the records are determined by the
request. This module says what the passes of `get_args` compute in terms of these
lengths, without wrapping: the sizing passes yield residues of their sums, and the
writing pass places each record at the residue of the sum before it.
-/

namespace InvokeLayout

open ByteMemory CountedLoops InvokeMessage

def mapRecord (table : SgTable) : Nat := 32 + 16 * table.nents.toNat

/-- The argument gets an ION map: zero-length buffers are not mapped. -/
def mapped (req : Request) (i : Nat) : Bool :=
  req.hasFd i && (decide (bufs req.sc ≤ i) || (req.lpra i).len != 0)

def inlineLen (req : Request) (i : Nat) : Nat :=
  if mapped req i then mapRecord (req.mmap i).table
  else if i < bufs req.sc then (req.lpra i).len.toNat else 0

/-- Unmapped buffers of a page or more are staged if the message is too big. -/
def stageable (req : Request) (i : Nat) : Bool :=
  decide (i < bufs req.sc) && !mapped req i && decide (pageSize ≤ (req.lpra i).len)

def stagedLen (req : Request) (i : Nat) : Nat :=
  if stageable req i then mapRecord (req.staging i).sgt else inlineLen req i

/-- Header, descriptors and lists. -/
def metaBytes (sc : UInt32) : Nat := 530 + 40 * total sc

/-- The inline sizing exceeds the buffer, as `get_args` computes it. -/
def oversize (req : Request) : Bool :=
  decide (req.bufSize.toNat < (metaBytes req.sc + span (inlineLen req) 0 (total req.sc)) % 2 ^ 64)

def recordLen (req : Request) (i : Nat) : Nat :=
  if oversize req then stagedLen req i else inlineLen req i

/-- Argument `i` is announced by a mapping record. -/
def carriesMapping (req : Request) (i : Nat) : Bool :=
  mapped req i || (oversize req && stageable req i)

/-- Where the record of argument `i` would start if nothing wrapped. -/
def recordStart (req : Request) (i : Nat) : Nat := metaBytes req.sc + span (recordLen req) 0 i

theorem recordStart_succ (req : Request) (i : Nat) :
    recordStart req (i + 1) = recordStart req i + recordLen req i := by
  simp [recordStart, span_succ, Nat.add_assoc]

theorem recordStart_mono (req : Request) {i j : Nat} (h : i ≤ j) :
    recordStart req i ≤ recordStart req j :=
  Nat.add_le_add_left (span_le_of_le h) _

theorem mask_toNat_le (x m : UInt32) : (x &&& m).toNat ≤ m.toNat := by
  rw [UInt32.toNat_and]
  exact Nat.and_le_right

theorem total_le (sc : UInt32) : total sc ≤ 540 := by
  have hin : inbufs sc ≤ 255 := mask_toNat_le _ _
  have hout : outbufs sc ≤ 255 := mask_toNat_le _ _
  have hinh : inhandles sc ≤ 15 := mask_toNat_le _ _
  have houth : outhandles sc ≤ 15 := mask_toNat_le _ _
  simp only [total, bufs, handles]
  omega

theorem lt_total {sc : UInt32} {i : Nat} (hi : i < bufs sc) : i < total sc :=
  Nat.lt_of_lt_of_le hi (Nat.le_add_right _ _)

theorem sizeOfMapping_eq (table : SgTable) :
    sizeOfMapping table.nents = UInt64.ofNat (mapRecord table) := by
  have hn := table.nents.toNat_lt
  apply UInt64.toNat_inj.mp
  simp only [sizeOfMapping, sizeOfMappingHead, sizeOfSgl, mapRecord, UInt64.toNat_add,
    UInt64.toNat_mul, UInt32.toNat_toUInt64, UInt64.toNat_ofNat', UInt64.reduceToNat]
  omega

theorem metalen_eq (sc : UInt32) : metalen sc = UInt64.ofNat (metaBytes sc) := by
  apply UInt64.toNat_inj.mp
  simp only [metalen, metaBytes, sizeOfInvokeMsg, sizeOfBuf, sizeOfLists, mFdlist, mCrclist,
    mDspPerfList, UInt64.toNat_add, UInt64.toNat_mul, UInt64.toNat_ofNat', UInt64.reduceToNat]
  omega

theorem praOff_toNat {i : Nat} (h : i ≤ 540) : (praOff i).toNat = 46 + 40 * i := by
  simp only [praOff, sizeOfInvokeMsg, sizeOfBuf, UInt64.toNat_add, UInt64.toNat_mul,
    UInt64.toNat_ofNat', UInt64.reduceToNat]
  omega

/-- Nothing fails: every outcome that can be a success is one. -/
structure Smooth (req : Request) (out : Outcomes) : Prop where
  mmap : ∀ i, out.mmapErr i = 0
  desc : out.descAlloc = true
  buf : ∀ i, out.bufErr i = 0
  msgid : out.msgid ≠ none
  vma : ∀ i, ∃ v, out.vmStart i = some v ∧
    (req.lpra i).pv - v + (req.lpra i).len ≤ (req.mmap i).size
  copy : ∀ i, out.copyErr i = 0

theorem exists_smooth (req : Request) : ∃ out, Smooth req out := by
  let out : Outcomes :=
    { mmapErr := fun _ => 0
      descAlloc := true
      bufErr := fun _ => 0
      msgid := some 0
      vmStart := fun i => some ((req.lpra i).pv + (req.lpra i).len)
      copyErr := fun _ => 0
      crc32 := fun _ => 0 }
  refine ⟨out, fun _ => rfl, rfl, fun _ => rfl, by simp [out], fun i => ⟨_, rfl, ?_⟩,
    fun _ => rfl⟩
  have cancel : (req.lpra i).pv - ((req.lpra i).pv + (req.lpra i).len) + (req.lpra i).len = 0 := by
    grind
  rw [cancel]
  exact UInt64.le_iff_toNat_le.mpr (Nat.zero_le _)

/-- The two accumulators after the arguments below `i`. -/
structure Summed (len : Nat → Nat) (sc : UInt32) (i : Nat) (s : State) : Prop where
  copylen : s.copylen = UInt64.ofNat (span len 0 i)
  offset : s.outbufsOffset = UInt32.ofNat (span len 0 (min i (inbufs sc)))

theorem summed_addLen {len : Nat → Nat} {sc : UInt32} {i : Nat} {s : State} {n : UInt64}
    (h : Summed len sc i s) (hn : n = UInt64.ofNat (len i)) :
    Summed len sc (i + 1) (s.addLen sc i n) := by
  constructor
  · simp only [State.addLen, h.copylen, hn, span_succ, Nat.zero_add, UInt64.ofNat_add]
  · simp only [State.addLen, h.offset, hn]
    split_ifs with hin
    · rw [Nat.min_eq_left (by omega), Nat.min_eq_left (by omega), span_succ, UInt32.ofNat_add,
        Nat.zero_add, UInt64.toUInt32_ofNat']
    · rw [Nat.min_eq_right (by omega), Nat.min_eq_right (by omega)]

theorem summed_skip {len : Nat → Nat} {sc : UInt32} {i : Nat} {s : State}
    (h : Summed len sc i s) (hzero : len i = 0) : Summed len sc (i + 1) s := by
  constructor
  · rw [h.copylen, span_succ, Nat.zero_add, hzero, Nat.add_zero]
  · rw [h.offset]
    by_cases hin : i < inbufs sc
    · rw [Nat.min_eq_left (by omega), Nat.min_eq_left (by omega), span_succ, Nat.zero_add, hzero,
        Nat.add_zero]
    · rw [Nat.min_eq_right (by omega), Nat.min_eq_right (by omega)]

/-- The map slots after the arguments below `i`. -/
def Slots (req : Request) (i : Nat) (s : State) : Prop :=
  ∀ j, s.maps j = if j < i ∧ mapped req j then some (req.mmap j) else none

theorem slots_set {req : Request} {i : Nat} {s t : State} (h : Slots req i s)
    (hmapped : mapped req i = true)
    (ht : t.maps = Function.update s.maps i (some (req.mmap i))) : Slots req (i + 1) t := by
  intro j
  rw [ht]
  by_cases hj : j = i
  · subst hj
    simp [hmapped]
  · rw [Function.update_of_ne hj, h j]
    congr 1
    simp only [eq_iff_iff]
    constructor <;> rintro ⟨hlt, hm⟩ <;> exact ⟨by omega, hm⟩

theorem slots_skip {req : Request} {i : Nat} {s t : State} (h : Slots req i s)
    (hmapped : mapped req i = false) (ht : t.maps = s.maps) : Slots req (i + 1) t := by
  intro j
  rw [ht, h j]
  by_cases hj : j = i
  · subst hj
    simp [hmapped]
  · congr 1
    simp only [eq_iff_iff]
    constructor <;> rintro ⟨hlt, hm⟩ <;> exact ⟨by omega, hm⟩

/-- What the first two loops have done before argument `i`. -/
structure Measured (req : Request) (i : Nat) (s : State) : Prop where
  slots : Slots req i s
  summed : Summed (inlineLen req) req.sc (min i (bufs req.sc)) s
  handlelen : s.handlelen = UInt64.ofNat (span (inlineLen req) (bufs req.sc) (i - bufs req.sc))
  desc : s.desc = none
  stores : s.stores = []

theorem mapBuffer_measured {req : Request} (out : Outcomes) {i : Nat} {s : State}
    (hi : i < bufs req.sc) (h : Measured req i s) :
    (mapBuffer req out i s).Holds (Measured req (i + 1))
      (fun _ t => t.stores = [] ∧ ¬ Smooth req out) := by
  obtain ⟨slots, summed, handlelen, desc, stores⟩ := h
  have hlen : s.handlelen =
      UInt64.ofNat (span (inlineLen req) (bufs req.sc) (i + 1 - bufs req.sc)) := by
    rw [handlelen, Nat.sub_eq_zero_of_le (by omega), Nat.sub_eq_zero_of_le (by omega)]
  rw [Nat.min_eq_left (by omega)] at summed
  have hmin : min (i + 1) (bufs req.sc) = i + 1 := by omega
  unfold mapBuffer
  dsimp only
  split_ifs with hzero hfd herr
  · have hmapped : mapped req i = false := by simp [mapped, hzero, Nat.not_le.mpr hi]
    refine ⟨slots_skip slots hmapped rfl, ?_, hlen, desc, stores⟩
    rw [hmin]
    exact summed_skip summed (by simp [inlineLen, hmapped, hzero])
  · exact ⟨stores, fun smooth => herr (smooth.mmap i)⟩
  · have hmapped : mapped req i = true := by simp [mapped, hfd, hzero]
    refine ⟨slots_set slots hmapped rfl, ?_, hlen, desc, stores⟩
    rw [hmin]
    refine summed_addLen (s := { s with maps := _ }) ⟨summed.copylen, summed.offset⟩ ?_
    rw [inlineLen, if_pos hmapped, sizeOfMapping_eq]
  · have hmapped : mapped req i = false := by simp [mapped, hfd]
    refine ⟨slots_skip slots hmapped rfl, ?_, hlen, desc, stores⟩
    rw [hmin]
    refine summed_addLen summed ?_
    simp [inlineLen, hmapped, hi]

theorem mapHandle_measured {req : Request} (out : Outcomes) {i : Nat} {s : State}
    (hi : bufs req.sc ≤ i) (h : Measured req i s) :
    (mapHandle req out i s).Holds (Measured req (i + 1))
      (fun _ t => t.stores = [] ∧ ¬ Smooth req out) := by
  obtain ⟨slots, summed, handlelen, desc, stores⟩ := h
  rw [Nat.min_eq_right hi] at summed
  have hmin : min (i + 1) (bufs req.sc) = bufs req.sc := by omega
  have hsub : i + 1 - bufs req.sc = (i - bufs req.sc) + 1 := by omega
  have hplace : bufs req.sc + (i - bufs req.sc) = i := by omega
  unfold mapHandle
  dsimp only
  split_ifs with hfd herr
  · exact ⟨stores, fun smooth => herr (smooth.mmap i)⟩
  · have hmapped : mapped req i = true := by simp [mapped, hfd, hi]
    refine ⟨slots_set slots hmapped rfl, ?_, ?_, desc, stores⟩
    · rw [hmin]
      exact ⟨summed.copylen, summed.offset⟩
    · dsimp only
      rw [hsub, span_succ, hplace, UInt64.ofNat_add, ← handlelen, sizeOfMapping_eq, inlineLen,
        if_pos hmapped]
  · have hmapped : mapped req i = false := by simp [mapped, hfd]
    refine ⟨slots_skip slots hmapped rfl, ?_, ?_, desc, stores⟩
    · rw [hmin]
      exact summed
    · rw [handlelen, hsub, span_succ, hplace, inlineLen, hmapped]
      simp [Nat.not_lt.mpr hi]

def stagingBuf (req : Request) (i : Nat) : VfastrpcBuf :=
  { req.staging i with mapAttr := vfastrpcMapAttrCached }

def stagingHead (buf : VfastrpcBuf) : MappingHead :=
  ⟨-1, 1, buf.va, buf.size, buf.mapAttr, buf.sgt.nents⟩

def mapHead (req : Request) (i : Nat) : MappingHead :=
  let map := req.mmap i
  ⟨map.fd, map.refs, map.va, if i < bufs req.sc then map.len else (req.lpra i).len,
    vfastrpcMapAttrCached, map.table.nents⟩

def recordStores (req : Request) (i : Nat) (off : UInt64) : List Store :=
  let arg := req.lpra i
  if mapped req i then mappingStores off (mapHead req i) (req.mmap i).table
  else if oversize req && stageable req i then
    ⟨off, .zeros sizeOfMappingHead⟩ ::
      mappingStores off (stagingHead (stagingBuf req i)) (stagingBuf req i).sgt
  else if i < inbufs req.sc ∧ arg.len ≠ 0 then [⟨off, .user arg.pv arg.len⟩]
  else []

/-- How far argument `i` moves the cursor from `off`: by the length in its descriptor, as it is
there when the record has been written, or by the length of the buffer. -/
def recordStep (req : Request) (i : Nat) (off : UInt64) : UInt64 :=
  if carriesMapping req i then
    loadedLen i (UInt64.ofNat (recordLen req i)) (recordStores req i off)
  else UInt64.ofNat (recordLen req i)

/-- Where `get_args` puts the record of argument `i`. -/
def payloadAt (req : Request) : Nat → UInt64
  | 0 => UInt64.ofNat (metaBytes req.sc)
  | i + 1 => payloadAt req i + recordStep req i (payloadAt req i)

/-- The staging buffers in `ctx->desc` for the arguments below `i`. -/
def Descs (req : Request) (staged : Bool) (i : Nat) (s : State) : Prop :=
  ∀ j, j < i → internalBuf s.desc j =
    if staged && stageable req j then some (stagingBuf req j) else none

/-- What the staging loop has done before argument `i`. -/
structure Staged (req : Request) (i : Nat) (s : State) : Prop where
  slots : Slots req (total req.sc) s
  summed : Summed (stagedLen req) req.sc i s
  handlelen : s.handlelen = UInt64.ofNat (span (inlineLen req) (bufs req.sc) (handles req.sc))
  descs : Descs req true i s
  aligned : ∀ j, j < i → stageable req j → (req.lpra j).len.toNat ≤ 2 ^ 64 - 4096
  stores : s.stores = []

/-- Some buffer must be staged whose page-aligned length wraps to zero. -/
def Unstageable (req : Request) : Prop :=
  oversize req = true ∧ ∃ j, stageable req j = true ∧ 2 ^ 64 - 4096 < (req.lpra j).len.toNat

theorem pageAlign_eq_zero {len : UInt64} (hpage : pageSize ≤ len) :
    pageAlign len = 0 ↔ 2 ^ 64 - 4096 < len.toNat := by
  have hlt := len.toNat_lt
  have hge : 4096 ≤ len.toNat := UInt64.le_iff_toNat_le.mp hpage
  rw [← UInt64.toNat_inj]
  simp only [pageAlign, pageSize, UInt64.toNat_add, UInt64.toNat_sub, UInt64.toNat_mul,
    UInt64.toNat_div, UInt64.reduceToNat]
  omega

theorem internalBuf_update (desc : Option (Nat → BufDesc)) (i : Nat) (d : BufDesc) (j : Nat) :
    internalBuf (some (Function.update (desc.getD fun _ => .normal) i d)) j =
      if j = i then internalBuf (some fun _ => d) i else internalBuf desc j := by
  by_cases hj : j = i
  · subst hj
    simp [internalBuf]
  · cases desc <;> simp [internalBuf, hj]

theorem descs_set {req : Request} {i : Nat} {s t : State} {d : BufDesc}
    (h : Descs req true i s)
    (hd : internalBuf (some fun _ => d) i =
      if stageable req i then some (stagingBuf req i) else none)
    (ht : t.desc = some (Function.update (s.desc.getD fun _ => .normal) i d)) :
    Descs req true (i + 1) t := by
  intro j hj
  rw [ht, internalBuf_update]
  by_cases heq : j = i
  · rw [if_pos heq, heq, hd, Bool.true_and]
  · rw [if_neg heq]
    exact h j (by omega)

theorem slots_some {req : Request} {s : State} {i : Nat} {map : VfastrpcMmap}
    (h : Slots req (total req.sc) s) (hmap : s.maps i = some map) :
    i < total req.sc ∧ mapped req i = true ∧ map = req.mmap i := by
  rw [h i] at hmap
  split_ifs at hmap with hcond
  exact ⟨hcond.1, hcond.2, (Option.some.inj hmap).symm⟩

theorem slots_none {req : Request} {s : State} {i : Nat} (hi : i < total req.sc)
    (h : Slots req (total req.sc) s) (hmap : s.maps i = none) : mapped req i = false := by
  rw [h i] at hmap
  split_ifs at hmap with hcond
  simpa [hi] using hcond

theorem stageBuffer_staged {req : Request} (out : Outcomes) {i : Nat} {s : State}
    (hi : i < bufs req.sc) (h : Staged req i s) :
    (stageBuffer req out i s).Holds (Staged req (i + 1))
      (fun _ t => t.stores = [] ∧
        (Smooth req out → ∃ j, stageable req j = true ∧
          2 ^ 64 - 4096 < (req.lpra j).len.toNat)) := by
  obtain ⟨slots, summed, handlelen, descs, aligned, stores⟩ := h
  have htotal : i < total req.sc := lt_total hi
  have summed' : ∀ d, Summed (stagedLen req) req.sc i { s with desc := d } :=
    fun d => ⟨summed.copylen, summed.offset⟩
  have keepAligned : stageable req i = false →
      ∀ j, j < i + 1 → stageable req j → (req.lpra j).len.toNat ≤ 2 ^ 64 - 4096 := by
    intro hnot j hj hstage
    by_cases hji : j = i
    · rw [hji, hnot] at hstage
      cases hstage
    · exact aligned j (by omega) hstage
  unfold stageBuffer
  dsimp only
  split
  · rename_i map hmap
    obtain ⟨-, hmapped, rfl⟩ := slots_some slots hmap
    have hnot : stageable req i = false := by simp [stageable, hmapped]
    refine ⟨slots, summed_addLen (summed' _) ?_, handlelen, ?_, keepAligned hnot, stores⟩
    · rw [stagedLen, hnot, inlineLen, if_pos hmapped, sizeOfMapping_eq]
      rfl
    · exact descs_set descs (by rw [hnot]; rfl) rfl
  · rename_i hmap
    have hmapped := slots_none htotal slots hmap
    split_ifs with hsmall
    · have hnot : stageable req i = false := by
        simp [stageable, UInt64.not_le.mpr hsmall]
      refine ⟨slots, summed_addLen (summed' _) ?_, handlelen, ?_, keepAligned hnot, stores⟩
      · simp [stagedLen, hnot, inlineLen, hmapped, hi]
      · exact descs_set descs (by rw [hnot]; rfl) rfl
    · have hpage : pageSize ≤ (req.lpra i).len := UInt64.not_lt.mp hsmall
      have hstage : stageable req i = true := by simp [stageable, hi, hmapped, hpage]
      unfold vfastrpcBufAlloc
      split_ifs with hzero herr
      · exact ⟨stores, fun _ => ⟨i, hstage, (pageAlign_eq_zero hpage).mp hzero⟩⟩
      · exact ⟨stores, fun smooth => False.elim (herr (smooth.buf i))⟩
      · refine ⟨slots, summed_addLen (summed' _) ?_, handlelen, ?_, ?_, stores⟩
        · rw [stagedLen, if_pos hstage, sizeOfMapping_eq]
        · exact descs_set descs (by rw [hstage]; rfl) rfl
        · intro j hj hj'
          by_cases hji : j = i
          · subst hji
            exact Nat.not_lt.mp fun hbig => hzero ((pageAlign_eq_zero hpage).mpr hbig)
          · exact aligned j (by omega) hj'

/-- What is settled when the message is allocated. -/
structure Sized (req : Request) (s : State) : Prop where
  slots : Slots req (total req.sc) s
  descs : Descs req (oversize req) (bufs req.sc) s
  size : s.size = UInt64.ofNat (recordStart req (total req.sc))
  offset : s.outbufsOffset = UInt32.ofNat (span (recordLen req) 0 (inbufs req.sc))
  stageable : ¬ Unstageable req

theorem inbufs_le_bufs (sc : UInt32) : inbufs sc ≤ bufs sc := Nat.le_add_right _ _

theorem setSize_eq {sc : UInt32} {len tail : Nat → Nat} {s : State}
    (hcopy : s.copylen = UInt64.ofNat (span len 0 (bufs sc)))
    (hhandle : s.handlelen = UInt64.ofNat (span tail (bufs sc) (handles sc)))
    (htail : ∀ i, bufs sc ≤ i → i < bufs sc + handles sc → tail i = len i) :
    (s.setSize sc).size = UInt64.ofNat (metaBytes sc + span len 0 (total sc)) := by
  rw [span_congr htail] at hhandle
  simp only [State.setSize, hcopy, hhandle, metalen_eq, total, span_add, Nat.zero_add,
    ← UInt64.ofNat_add, Nat.add_assoc]

theorem stagedLen_handle {req : Request} {i : Nat} (hi : bufs req.sc ≤ i) :
    inlineLen req i = stagedLen req i := by
  simp [stagedLen, stageable, Nat.not_lt.mpr hi]

theorem oversize_iff {req : Request} {s : State}
    (hsize : s.size = UInt64.ofNat (metaBytes req.sc + span (inlineLen req) 0 (total req.sc))) :
    req.bufSize.toUInt64 < s.size ↔ oversize req = true := by
  rw [UInt64.lt_iff_toNat_lt, hsize, UInt32.toNat_toUInt64, UInt64.toNat_ofNat', oversize,
    decide_eq_true_iff]

theorem sizeMessage_sized {req : Request} {out : Outcomes} {s : State}
    (h : Measured req (total req.sc) s) :
    (sizeMessage req out s).Holds (fun t => Sized req t ∧ t.stores = [])
      (fun _ t => t.stores = [] ∧ (Smooth req out → Unstageable req)) := by
  obtain ⟨slots, summed, handlelen, desc, stores⟩ := h
  have hbufs : min (total req.sc) (bufs req.sc) = bufs req.sc := by simp only [total]; omega
  have hhandles : total req.sc - bufs req.sc = handles req.sc := by simp only [total]; omega
  have hin : min (bufs req.sc) (inbufs req.sc) = inbufs req.sc :=
    Nat.min_eq_right (inbufs_le_bufs _)
  rw [hbufs] at summed
  rw [hhandles] at handlelen
  have hsize := setSize_eq summed.copylen handlelen fun _ _ _ => rfl
  unfold sizeMessage
  dsimp only
  have hover_iff : req.bufSize.toUInt64 < (s.setSize req.sc).size ↔ oversize req = true :=
    oversize_iff hsize
  rw [if_congr hover_iff rfl rfl]
  split_ifs with hover halloc
  · refine holds_andThen (Staged req (bufs req.sc)) ?_ ?_
    · have start : Staged req 0 { s.setSize req.sc with
          copylen := 0
          outbufsOffset := 0
          desc := some fun _ => .normal } :=
        ⟨slots, ⟨rfl, by simp⟩, handlelen, fun j hj => by omega, fun j hj => by omega, stores⟩
      have rounds := loop_holds (Staged req) (n := bufs req.sc) start
        fun i t _ hhi ht => stageBuffer_staged out (by omega) ht
      rw [Nat.zero_add] at rounds
      exact holds_mono rounds (fun _ ht => ht) fun _ _ ⟨hs, hbig⟩ =>
        ⟨hs, fun smooth => ⟨hover, hbig smooth⟩⟩
    · rintro t ⟨slots, summed, handlelen, descs, aligned, stores⟩
      have hlens : recordLen req = stagedLen req := by funext i; simp [recordLen, hover]
      refine ⟨⟨slots, ?_, ?_, ?_, ?_⟩, stores⟩
      · rw [hover]; exact descs
      · rw [recordStart, hlens]
        exact setSize_eq summed.copylen handlelen fun i hi _ => stagedLen_handle hi
      · rw [hlens, ← hin]; exact summed.offset
      · rintro ⟨-, j, hstage, hbig⟩
        have hj : j < bufs req.sc := by
          simp only [InvokeLayout.stageable, Bool.and_eq_true, decide_eq_true_eq] at hstage
          exact hstage.1.1
        have := aligned j hj hstage
        omega
  · exact ⟨stores, fun smooth => False.elim (halloc smooth.desc)⟩
  · have hlens : recordLen req = inlineLen req := by funext i; simp [recordLen, hover]
    refine ⟨⟨slots, ?_, ?_, ?_, fun hun => hover hun.1⟩, stores⟩
    · intro j _
      have hnone : (s.setSize req.sc).desc = none := desc
      simp [hnone, internalBuf, hover]
    · rw [recordStart, hlens]; exact hsize
    · rw [hlens, ← hin]; exact summed.offset

/-- All four passes before the allocation of the message. -/
theorem sizing (req : Request) (out : Outcomes) (pra : Nat → PraEntry) :
    (((loop (mapBuffer req out) 0 (bufs req.sc) (State.fresh pra)).andThen
      (loop (mapHandle req out) (bufs req.sc) (handles req.sc))).andThen
      (sizeMessage req out)).Holds (fun t => Sized req t ∧ t.stores = [])
      (fun _ t => t.stores = [] ∧ (Smooth req out → Unstageable req)) := by
  have absurdSmooth : ∀ (err : Int) (t : State), t.stores = [] ∧ ¬ Smooth req out →
      t.stores = [] ∧ (Smooth req out → Unstageable req) :=
    fun _ _ ⟨hs, hnot⟩ => ⟨hs, fun smooth => False.elim (hnot smooth)⟩
  refine holds_andThen (Measured req (total req.sc))
    (holds_andThen (Measured req (bufs req.sc)) ?_ fun s hs => ?_)
    fun s hs => sizeMessage_sized hs
  · have start : Measured req 0 (State.fresh pra) :=
      ⟨fun j => by simp [State.fresh], ⟨by simp [State.fresh], by simp [State.fresh]⟩,
        by simp [State.fresh], rfl, rfl⟩
    have rounds := loop_holds (Measured req) (n := bufs req.sc) start
      fun i t _ hhi ht => mapBuffer_measured out (by omega) ht
    rw [Nat.zero_add] at rounds
    exact holds_mono rounds (fun _ ht => ht) absurdSmooth
  · have rounds := loop_holds (Measured req) (n := handles req.sc) hs
      fun i t hlo _ ht => mapHandle_measured out hlo ht
    exact holds_mono rounds (fun _ ht => ht) absurdSmooth

def AllIn (bufSize : UInt32) (stores : List Store) : Prop := ∀ st ∈ stores, st.InBuffer bufSize

@[simp] theorem allIn_nil (bufSize : UInt32) : AllIn bufSize [] := by simp [AllIn]

@[simp] theorem allIn_cons (bufSize : UInt32) (st : Store) (rest : List Store) :
    AllIn bufSize (st :: rest) ↔ st.InBuffer bufSize ∧ AllIn bufSize rest :=
  List.forall_mem_cons

@[simp] theorem allIn_append (bufSize : UInt32) (first second : List Store) :
    AllIn bufSize (first ++ second) ↔ AllIn bufSize first ∧ AllIn bufSize second :=
  List.forall_mem_append

def Within (lo hi : Nat) (st : Store) : Prop :=
  lo ≤ st.off.toNat ∧ st.off.toNat + st.datum.size ≤ hi

theorem inBuffer_of_within {lo hi : Nat} {st : Store} {bufSize : UInt32} (h : Within lo hi st)
    (hhi : hi ≤ bufSize.toNat) : st.InBuffer bufSize :=
  Nat.le_trans h.2 hhi

/-- The store is into descriptor `i`. -/
def InEntry (i : Nat) (st : Store) : Prop := Within (46 + 40 * i) (46 + 40 * (i + 1)) st

theorem putPra_entry {i : Nat} (hi : i < 540) (e : PraEntry) :
    ∀ st ∈ headStores i e ++ tailStores i e, InEntry i st := by
  have hoff := praOff_toNat (Nat.le_of_lt hi)
  intro st hst
  simp only [headStores, tailStores, List.cons_append, List.nil_append, List.mem_cons,
    List.not_mem_nil, or_false] at hst
  rcases hst with rfl | rfl | rfl | rfl | rfl | rfl <;>
    simp only [InEntry, Within, Datum.size, UInt64.toNat_add, UInt64.reduceToNat, hoff] <;> omega

theorem mapping_within {off : UInt64} {table : SgTable} (m : MappingHead)
    (hroom : off.toNat + mapRecord table < 2 ^ 64) :
    ∀ st ∈ mappingStores off m table,
      Within off.toNat (off.toNat + mapRecord table) st := by
  intro st hst
  simp only [mapRecord] at hroom ⊢
  rcases List.mem_append.mp hst with hhead | hsgl
  · simp only [mappingHeadStores, List.mem_cons, List.not_mem_nil, or_false] at hhead
    rcases hhead with rfl | rfl | rfl | rfl | rfl | rfl <;>
      simp only [Within, Datum.size, UInt64.toNat_add, UInt64.reduceToNat] <;> omega
  · obtain ⟨k, hk, hst⟩ := List.mem_flatMap.mp hsgl
    have hk := List.mem_range.mp hk
    simp only [sglStores, List.mem_cons, List.not_mem_nil, or_false] at hst
    rcases hst with rfl | rfl <;>
      simp only [Within, Datum.size, sizeOfMappingHead, sizeOfSgl, UInt64.toNat_add,
        UInt64.toNat_mul, UInt64.toNat_ofNat', UInt64.reduceToNat] <;> omega

/-- A mapping record is in the buffer when its end is: its first field keeps the
offsets of the others from wrapping. -/
theorem mapping_allIn (bufSize : UInt32) (off : UInt64) (m : MappingHead) (table : SgTable) :
    AllIn bufSize (mappingStores off m table) ↔
      off.toNat + mapRecord table ≤ bufSize.toNat := by
  have hsize := bufSize.toNat_lt
  have hnents := table.nents.toNat_lt
  constructor
  · intro h
    have hfirst : off.toNat + 4 ≤ bufSize.toNat :=
      h ⟨off, .u32 m.fd.toUInt32⟩ (by simp [mappingStores, mappingHeadStores])
    rcases Nat.eq_zero_or_pos table.nents.toNat with hzero | hpos
    · have hlast := h ⟨off + 28, .u32 m.nents⟩ (by simp [mappingStores, mappingHeadStores])
      simp only [Store.InBuffer, Datum.size, UInt64.toNat_add, UInt64.reduceToNat] at hlast
      simp only [mapRecord]
      omega
    · have hlast := h _ (List.mem_append_right _ (List.mem_flatMap.mpr
        ⟨table.nents.toNat - 1, List.mem_range.mpr (by omega), List.mem_cons_of_mem _
          (List.mem_singleton.mpr rfl)⟩))
      simp only [Store.InBuffer, Datum.size, sizeOfMappingHead, sizeOfSgl, UInt64.toNat_add,
        UInt64.toNat_mul, UInt64.toNat_ofNat', UInt64.reduceToNat] at hlast
      simp only [mapRecord]
      omega
  · intro h st hst
    exact inBuffer_of_within (mapping_within m (by omega) st hst) h

def crcStores (req : Request) (out : Outcomes) (i : Nat) : List Store :=
  if req.crc then [⟨praOff i + 4, .u32 (out.crc32 i)⟩] else []

theorem crcStores_entry {req : Request} {out : Outcomes} {i : Nat} (hi : i < 540) :
    ∀ st ∈ crcStores req out i, InEntry i st := by
  intro st hst
  have hoff := praOff_toNat (Nat.le_of_lt hi)
  unfold crcStores at hst
  split_ifs at hst
  · obtain rfl := List.mem_singleton.mp hst
    simp only [InEntry, Within, Datum.size, UInt64.toNat_add, UInt64.reduceToNat, hoff]
    omega
  · cases hst

/-- The descriptor of the argument is written. -/
def Described (req : Request) (i : Nat) : Prop := i < bufs req.sc ∨ mapped req i = true

/-- The record of argument `i` is filled in by `get_args`. -/
def Written (req : Request) (i : Nat) : Prop :=
  carriesMapping req i = true ∨ i < inbufs req.sc ∧ (req.lpra i).len ≠ 0

instance (req : Request) (i : Nat) : Decidable (Written req i) :=
  inferInstanceAs (Decidable (_ ∨ _))

instance (req : Request) (i : Nat) : Decidable (Described req i) :=
  inferInstanceAs (Decidable (_ ∨ _))

theorem written_described {req : Request} {i : Nat} (written : Written req i) :
    Described req i := by
  rcases written with carries | hin
  · simp only [carriesMapping, Bool.or_eq_true, Bool.and_eq_true] at carries
    rcases carries with hmapped | ⟨-, stage⟩
    · exact Or.inr hmapped
    · simp only [stageable, Bool.and_eq_true, decide_eq_true_eq] at stage
      exact Or.inl stage.1.1
  · exact Or.inl (Nat.lt_of_lt_of_le hin.1 (inbufs_le_bufs _))

theorem written_inline {req : Request} {i : Nat} (h : carriesMapping req i = false) :
    Written req i ↔ i < inbufs req.sc ∧ (req.lpra i).len ≠ 0 := by
  simp [Written, h]

/-- The descriptor that `get_args` writes for argument `i`, before its crc. -/
def argEntry (req : Request) (out : Outcomes) (i : Nat) : PraEntry :=
  let arg := req.lpra i
  if mapped req i then
    let payloadLen := sizeOfMapping (req.mmap i).table.nents
    if i < bufs req.sc then
      { ionHead req i ⟨0, 0, 0, 0, 0, 0⟩ with
        offset := arg.pv - (out.vmStart i).getD 0
        payloadLen := payloadLen }
    else ⟨vfastrpcBufAttrIon, 0, 0, arg.len, arg.pv, payloadLen⟩
  else if oversize req && stageable req i then
    ⟨vfastrpcBufAttrInternal, 0, arg.pv, arg.len, 0, sizeOfMapping (stagingBuf req i).sgt.nents⟩
  else ⟨0, 0, arg.pv, arg.len, 0, arg.len⟩

/-- Everything stored for argument `i` with its record at `off`. -/
def argStores (req : Request) (out : Outcomes) (i : Nat) (off : UInt64) : List Store :=
  if Described req i then
    (headStores i (argEntry req out i) ++ tailStores i (argEntry req out i)) ++
      (recordStores req i off ++ if Written req i then crcStores req out i else [])
  else []

theorem argStores_written {req : Request} {i : Nat} (written : Written req i) (out : Outcomes)
    (off : UInt64) :
    argStores req out i off =
      (headStores i (argEntry req out i) ++ tailStores i (argEntry req out i)) ++
        (recordStores req i off ++ crcStores req out i) := by
  rw [argStores, if_pos (written_described written), if_pos written]

theorem recordLen_mapped {req : Request} {i : Nat} (h : mapped req i = true) :
    recordLen req i = mapRecord (req.mmap i).table := by
  have hnot : stageable req i = false := by simp [stageable, h]
  simp [recordLen, stagedLen, inlineLen, hnot, h]

theorem recordLen_staged {req : Request} {i : Nat} (hover : oversize req = true)
    (h : stageable req i = true) : recordLen req i = mapRecord (stagingBuf req i).sgt := by
  simp [recordLen, hover, stagedLen, h, stagingBuf]

theorem recordLen_inline {req : Request} {i : Nat} (hi : i < bufs req.sc)
    (h : carriesMapping req i = false) : recordLen req i = (req.lpra i).len.toNat := by
  simp only [carriesMapping, Bool.or_eq_false_iff, Bool.and_eq_false_iff] at h
  obtain ⟨hmapped, hover | hstage⟩ := h
  · simp [recordLen, hover, inlineLen, hmapped, hi]
  · simp [recordLen, stagedLen, hstage, inlineLen, hmapped, hi]

theorem recordLen_handle {req : Request} {i : Nat} (hi : bufs req.sc ≤ i)
    (h : mapped req i = false) : recordLen req i = 0 := by
  simp [recordLen, ← stagedLen_handle hi, inlineLen, h, Nat.not_lt.mpr hi]

theorem argEntry_lens {req : Request} (out : Outcomes) {i : Nat} (described : Described req i) :
    (argEntry req out i).payloadLen = UInt64.ofNat (recordLen req i) ∧
      (argEntry req out i).bufLen = (req.lpra i).len := by
  by_cases hmapped : mapped req i = true
  · rw [recordLen_mapped hmapped, ← sizeOfMapping_eq]
    by_cases hi : i < bufs req.sc <;> simp [argEntry, hmapped, hi, ionHead]
  · have hi : i < bufs req.sc := described.resolve_right hmapped
    by_cases hstage : (oversize req && stageable req i) = true
    · obtain ⟨hover, hstage'⟩ := Bool.and_eq_true_iff.mp hstage
      rw [recordLen_staged hover hstage', ← sizeOfMapping_eq]
      simp [argEntry, hmapped, hstage]
    · have hcarries : carriesMapping req i = false := by
        simp [carriesMapping, hmapped, hstage]
      rw [recordLen_inline hi hcarries, UInt64.ofNat_toNat]
      simp [argEntry, hmapped, hstage]

/-- The record of an argument is a mapping, after zeros for a staging buffer, the bytes of an
in-buffer, or empty. -/
theorem record_cases (req : Request) (i : Nat) (off : UInt64) :
    (Written req i ∧ ∃ m table, recordLen req i = mapRecord table ∧
      (recordStores req i off = mappingStores off m table ∨ recordStores req i off =
        ⟨off, .zeros sizeOfMappingHead⟩ :: mappingStores off m table)) ∨
    (Written req i ∧ ∃ pv len, recordLen req i = UInt64.toNat len ∧
      recordStores req i off = [⟨off, .user pv len⟩]) ∨
    (¬ Written req i ∧ recordStores req i off = []) := by
  by_cases hmapped : mapped req i = true
  · refine Or.inl ⟨Or.inl (by simp [carriesMapping, hmapped]), mapHead req i, _,
      recordLen_mapped hmapped, Or.inl ?_⟩
    simp [recordStores, hmapped]
  · by_cases hstage : (oversize req && stageable req i) = true
    · obtain ⟨hover, hstage'⟩ := Bool.and_eq_true_iff.mp hstage
      refine Or.inl ⟨Or.inl (by simp [carriesMapping, hstage]), stagingHead (stagingBuf req i), _,
        recordLen_staged hover hstage', Or.inr ?_⟩
      simp [recordStores, hmapped, hstage]
    · have hcarries : carriesMapping req i = false := by
        simp [carriesMapping, hmapped, hstage]
      have written := written_inline hcarries
      by_cases hin : i < inbufs req.sc ∧ (req.lpra i).len ≠ 0
      · have hi : i < bufs req.sc := Nat.lt_of_lt_of_le hin.1 (inbufs_le_bufs _)
        refine Or.inr (Or.inl ⟨written.mpr hin, (req.lpra i).pv, _,
          recordLen_inline hi hcarries, ?_⟩)
        simp only [recordStores, hmapped, hstage, Bool.false_eq_true, if_false, if_pos hin]
      · refine Or.inr (Or.inr ⟨mt written.mp hin, ?_⟩)
        simp only [recordStores, hmapped, hstage, Bool.false_eq_true, if_false, if_neg hin]

theorem record_allIn (req : Request) (i : Nat) (bufSize : UInt32) (off : UInt64) :
    AllIn bufSize (recordStores req i off) ↔
      (Written req i → off.toNat + recordLen req i ≤ bufSize.toNat) := by
  rcases record_cases req i off with ⟨written, m, table, len, same | same⟩ |
    ⟨written, pv, n, len, same⟩ | ⟨unwritten, same⟩
  · simp only [same, len, mapping_allIn, written, true_imp_iff]
  · simp only [same, len, allIn_cons, mapping_allIn, written, true_imp_iff, and_iff_right_iff_imp]
    intro h
    simp only [mapRecord] at h
    simp only [Store.InBuffer, Datum.size, sizeOfMappingHead, UInt64.reduceToNat]
    omega
  · simp only [same, len, allIn_cons, allIn_nil, and_true, Store.InBuffer, Datum.size, written,
      true_imp_iff]
  · simp only [same, allIn_nil, unwritten, false_imp_iff]

theorem record_within {req : Request} {i : Nat} {off : UInt64}
    (room : off.toNat + recordLen req i < 2 ^ 64) :
    ∀ st ∈ recordStores req i off, Within off.toNat (off.toNat + recordLen req i) st := by
  rcases record_cases req i off with ⟨-, m, table, len, same | same⟩ | ⟨-, pv, n, len, same⟩ |
    ⟨-, same⟩ <;> rw [same]
  · rw [len] at room ⊢
    exact mapping_within m room
  · rw [len] at room ⊢
    refine List.forall_mem_cons.mpr ⟨?_, mapping_within m room⟩
    simp only [Within, Datum.size, sizeOfMappingHead, mapRecord, UInt64.reduceToNat]
    omega
  · rw [len]
    exact List.forall_mem_singleton.mpr ⟨Nat.le_refl _, Nat.le_refl _⟩
  · exact List.forall_mem_nil _

theorem mem_argStores {req : Request} {out : Outcomes} {i : Nat} {off : UInt64} {st : Store}
    (hi : i < total req.sc) (hst : st ∈ argStores req out i off) :
    InEntry i st ∨ st ∈ recordStores req i off := by
  have hmax : i < 540 := Nat.lt_of_lt_of_le hi (total_le _)
  unfold argStores at hst
  split_ifs at hst with described written
  · rcases List.mem_append.mp hst with entry | rest
    · exact Or.inl (putPra_entry hmax _ st entry)
    · exact (List.mem_append.mp rest).symm.imp_left (crcStores_entry hmax st)
  · rw [List.append_nil] at hst
    exact (List.mem_append.mp hst).imp_left (putPra_entry hmax _ st)
  · cases hst

theorem arg_allIn {req : Request} (out : Outcomes) {i : Nat} (off : UInt64) {bufSize : UInt32}
    (hi : i < total req.sc) (hfit : 46 + 40 * (i + 1) ≤ bufSize.toNat) :
    AllIn bufSize (argStores req out i off) ↔
      (Written req i → off.toNat + recordLen req i ≤ bufSize.toNat) := by
  constructor
  · intro h written
    simp only [argStores_written written, allIn_append] at h
    exact (record_allIn req i bufSize off).mp h.2.1 written
  · intro h st hst
    rcases mem_argStores hi hst with entry | record
    · exact inBuffer_of_within entry hfit
    · exact (record_allIn req i bufSize off).mpr h st record

section Loads

variable {user : Mem} {a : UInt64}

theorem covered_iff {stores : List Store} :
    Covered (writes user stores) a ↔ ∃ st ∈ stores, (a - st.off).toNat < st.datum.size := by
  simp [Covered, writes, storeWrite, Write.Covers]

theorem within_covers {lo hi : Nat} {st : Store} (within : Within lo hi st) (small : hi ≤ 2 ^ 64)
    (reached : (a - st.off).toNat < st.datum.size) : lo ≤ a.toNat ∧ a.toNat < hi := by
  obtain ⟨above, below⟩ := within
  have place := (sub_lt_iff (by omega)).mp reached
  omega

end Loads

theorem u32At_eq {m : Mem} {off : UInt64} {x : UInt32}
    (bytes : ∀ k, k < 4 → m (off + UInt64.ofNat k) = byteOf x.toNat k) : u32At m off = x := by
  rw [u32At, word_eq x.toNat_lt bytes, UInt32.ofNat_toNat]

theorem u64At_eq {m : Mem} {off : UInt64} {x : UInt64}
    (bytes : ∀ k, k < 8 → m (off + UInt64.ofNat k) = byteOf x.toNat k) : u64At m off = x := by
  rw [u64At, word_eq x.toNat_lt bytes, UInt64.ofNat_toNat]

/-- A record behind the descriptors leaves the length as it was stored. -/
theorem loadedLen_apart {i lo hi : Nat} {len : UInt64} {record : List Store} (small : i < 540)
    (apart : ∀ st ∈ record, Within lo hi st) (behind : 46 + 40 * (i + 1) ≤ lo)
    (room : hi ≤ 2 ^ 64) : loadedLen i len record = len := by
  have hoff := praOff_toNat (Nat.le_of_lt small)
  refine u64At_eq fun k hk => ?_
  have place : (praOff i + 32 + UInt64.ofNat k).toNat = 78 + 40 * i + k := by
    simp only [UInt64.toNat_add, UInt64.toNat_ofNat', UInt64.reduceToNat, hoff]
    omega
  have back := sub_self_add (praOff i + 32) (k := k) (by omega)
  have none : ¬ Covered (writes (fun _ => 0) record) (praOff i + 32 + UInt64.ofNat k) := by
    intro covered
    obtain ⟨st, mem, reached⟩ := covered_iff.mp covered
    have := within_covers (apart st mem) room reached
    omega
  have covers : (storeWrite (fun _ => 0) ⟨praOff i + 32, .u64 len⟩).Covers
      (praOff i + 32 + UInt64.ofNat k) := by
    simp only [Write.Covers, storeWrite, back, Datum.size]
    exact hk
  have last : applyAll ([] ++ storeWrite (fun _ => 0) ⟨praOff i + 32, .u64 len⟩ ::
      writes (fun _ => 0) record) (fun _ => 0) _ = _ := applyAll_last covers none _
  refine last.trans ?_
  simp only [storeWrite, back, datumByte]

theorem recordStep_eq {req : Request} {i : Nat} {off : UInt64} (hi : i < total req.sc)
    (behind : metaBytes req.sc ≤ off.toNat) (room : off.toNat + recordLen req i < 2 ^ 64) :
    recordStep req i off = UInt64.ofNat (recordLen req i) := by
  have hmax : i < 540 := Nat.lt_of_lt_of_le hi (total_le _)
  unfold recordStep
  split_ifs with carries
  · refine loadedLen_apart hmax (record_within room) ?_ (Nat.le_of_lt room)
    simp only [metaBytes] at behind
    omega
  · rfl

/-- As long as the sums do not wrap, no length is run over and the records lie one behind the
other. -/
theorem payloadAt_eq {req : Request} {i : Nat} (hi : i ≤ total req.sc)
    (small : recordStart req i < 2 ^ 64) : payloadAt req i = UInt64.ofNat (recordStart req i) := by
  induction i with
  | zero => simp [payloadAt, recordStart]
  | succ i ih =>
    rw [recordStart_succ] at small
    have before := ih (by omega) (by omega)
    have place : (UInt64.ofNat (recordStart req i)).toNat = recordStart req i := by
      rw [UInt64.toNat_ofNat', Nat.mod_eq_of_lt (by omega)]
    have behind : metaBytes req.sc ≤ recordStart req i := Nat.le_add_right _ _
    rw [payloadAt, before, recordStep_eq (by omega) (by omega) (by omega), ← UInt64.ofNat_add,
      recordStart_succ]

theorem payloadAt_toNat {req : Request} {i : Nat} (hi : i ≤ total req.sc)
    (small : recordStart req i < 2 ^ 64) : (payloadAt req i).toNat = recordStart req i := by
  rw [payloadAt_eq hi small, UInt64.toNat_ofNat', Nat.mod_eq_of_lt small]

/-- `t` differs from `s` by the stores `new`, the cursor moved by `step`, and descriptor `i`. -/
structure Wrote (i : Nat) (step : UInt64) (new : List Store) (s t : State) : Prop where
  maps : t.maps = s.maps
  desc : t.desc = s.desc
  size : t.size = s.size
  offset : t.outbufsOffset = s.outbufsOffset
  starts : t.starts = s.starts
  stores : t.stores = s.stores ++ new
  payload : t.payload = s.payload + step
  others : ∀ j, j ≠ i → t.pra j = s.pra j

/-- Descriptor `i` announces `len` payload bytes for the user's buffer length. -/
def Announces (req : Request) (i : Nat) (len : Nat) (t : State) : Prop :=
  (t.pra i).payloadLen = UInt64.ofNat len ∧ (t.pra i).bufLen = (req.lpra i).len

/-- On an error the last of the stores may be missing. -/
def Broken (req : Request) (out : Outcomes) (i : Nat) (s t : State) : Prop :=
  ¬ Smooth req out ∧ ∃ new, new <+: argStores req out i s.payload ∧ t.stores = s.stores ++ new

/-- What a writer of argument `i` leaves behind. -/
def Done (req : Request) (out : Outcomes) (i : Nat) (s t : State) : Prop :=
  Announces req i (recordLen req i) t ∧
    Wrote i (recordStep req i s.payload) (argStores req out i s.payload) s t

theorem wrote_trans {i : Nat} {m n : UInt64} {first second : List Store} {s t u : State}
    (hst : Wrote i m first s t) (htu : Wrote i n second t u) :
    Wrote i (m + n) (first ++ second) s u where
  maps := htu.maps.trans hst.maps
  desc := htu.desc.trans hst.desc
  size := htu.size.trans hst.size
  offset := htu.offset.trans hst.offset
  starts := htu.starts.trans hst.starts
  stores := by rw [htu.stores, hst.stores, List.append_assoc]
  payload := by rw [htu.payload, hst.payload, UInt64.add_assoc]
  others := fun j hj => (htu.others j hj).trans (hst.others j hj)

theorem wrote_setPra (i : Nat) (e : PraEntry) (new : List Store) (s : State) :
    Wrote i 0 new s ((s.setPra i e).put new) :=
  ⟨rfl, rfl, rfl, rfl, rfl, rfl, by simp [State.put, State.setPra],
    fun _ hj => Function.update_of_ne hj _ _⟩

theorem wrote_put (i : Nat) (new : List Store) (s : State) : Wrote i 0 new s (s.put new) :=
  ⟨rfl, rfl, rfl, rfl, rfl, rfl, by simp [State.put], fun _ _ => rfl⟩

theorem wrote_skip (i : Nat) (n : UInt64) (s : State) : Wrote i n [] s (s.skip n) :=
  ⟨rfl, rfl, rfl, rfl, rfl, by simp [State.skip], rfl, fun _ _ => rfl⟩

theorem putCrc_wrote (req : Request) (out : Outcomes) (i : Nat) (s : State) :
    Wrote i 0 (crcStores req out i) s (s.putCrc req out i) ∧
      ((s.putCrc req out i).pra i).payloadLen = (s.pra i).payloadLen ∧
      ((s.putCrc req out i).pra i).bufLen = (s.pra i).bufLen := by
  unfold State.putCrc crcStores
  split_ifs with hcrc
  · exact ⟨wrote_setPra i _ _ s, by simp [State.put, State.setPra],
      by simp [State.put, State.setPra]⟩
  · exact ⟨⟨rfl, rfl, rfl, rfl, rfl, by simp, by simp, fun _ _ => rfl⟩, rfl, rfl⟩

/-- The descriptor is written; the mapping record follows. -/
theorem putMapping_done {req : Request} {out : Outcomes} {i : Nat} {s mid : State}
    (carries : carriesMapping req i = true)
    (hmid : Wrote i 0 (headStores i (argEntry req out i) ++ tailStores i (argEntry req out i))
      s mid)
    (hentry : mid.pra i = argEntry req out i) :
    Done req out i s (mid.putMapping req out i (recordStores req i s.payload)) := by
  have written : Written req i := Or.inl carries
  obtain ⟨wroteCrc, hpay, hbuf⟩ :=
    putCrc_wrote req out i (mid.put (recordStores req i s.payload))
  have hentry' : (mid.put (recordStores req i s.payload)).pra i = argEntry req out i := hentry
  obtain ⟨payloadLen, bufLen⟩ := argEntry_lens out (written_described written)
  rw [← hentry', ← hpay] at payloadLen
  rw [← hentry', ← hbuf] at bufLen
  generalize hu : (mid.put (recordStores req i s.payload)).putCrc req out i = u at *
  have hadvance : Wrote i (recordStep req i s.payload) [] u
      (u.advance i (recordStores req i s.payload)) := by
    rw [State.advance, recordStep, if_pos carries, payloadLen]
    exact wrote_skip i _ u
  have wrote := wrote_trans (wrote_trans (wrote_trans hmid (wrote_put i _ mid)) wroteCrc) hadvance
  rw [State.putMapping, hu]
  refine ⟨⟨payloadLen, bufLen⟩, ?_⟩
  rw [argStores_written written]
  simpa using wrote

theorem putPra_done {req : Request} (out : Outcomes) {i : Nat} (s : State)
    (carries : carriesMapping req i = true) :
    Done req out i s ((s.putPra i (argEntry req out i)).putMapping req out i
      (recordStores req i s.payload)) :=
  putMapping_done carries (wrote_setPra i _ _ s) (by simp [State.putPra, State.put, State.setPra])

theorem writeIon_done {req : Request} {out : Outcomes} {i : Nat} {s : State}
    (hi : i < bufs req.sc) (hmapped : mapped req i = true) :
    (writeIon req out i (req.mmap i) s).Holds (Done req out i s)
      (fun _ t => Broken req out i s t) := by
  have carries : carriesMapping req i = true := by simp [carriesMapping, hmapped]
  have record : recordStores req i s.payload = mappingStores s.payload
      ⟨(req.mmap i).fd, (req.mmap i).refs, (req.mmap i).va, (req.mmap i).len,
        vfastrpcMapAttrCached, (req.mmap i).table.nents⟩ (req.mmap i).table := by
    simp [recordStores, hmapped, mapHead, hi]
  have head : headStores i (argEntry req out i) = headStores i (ionHead req i (s.pra i)) := by
    simp [argEntry, hmapped, hi, headStores, ionHead]
  unfold writeIon
  dsimp only
  have early : ¬ Smooth req out → Broken req out i s ((s.setPra i (ionHead req i (s.pra i))).put
      (headStores i (ionHead req i (s.pra i)))) := by
    refine fun rough => ⟨rough, _, ?_, rfl⟩
    rw [argStores_written (Or.inl carries), head, List.append_assoc]
    exact List.prefix_append _ _
  cases hvma : out.vmStart i with
  | none =>
    refine early fun smooth => ?_
    obtain ⟨v, hv, -⟩ := smooth.vma i
    rw [hvma] at hv
    cases hv
  | some v =>
    dsimp only
    split_ifs with hsize
    · have entry : { ionHead req i (s.pra i) with
          offset := (req.lpra i).pv - v
          payloadLen := sizeOfMapping (req.mmap i).table.nents } = argEntry req out i := by
        simp [argEntry, hmapped, hi, hvma, ionHead]
      have cursor : ((s.setPra i (ionHead req i (s.pra i))).put
        (headStores i (ionHead req i (s.pra i)))).payload = s.payload := rfl
      rw [holds_next, cursor, ← record, entry]
      refine putMapping_done carries ?_ (by simp [State.put, State.setPra])
      rw [head]
      exact wrote_trans (wrote_setPra i _ _ s) (wrote_setPra i _ _ _)
    · refine early fun smooth => ?_
      obtain ⟨w, hw, hle⟩ := smooth.vma i
      rw [hvma] at hw
      obtain rfl := Option.some.inj hw
      exact hsize hle

theorem writeInternal_done {req : Request} {out : Outcomes} {i : Nat} {s : State}
    (hmapped : mapped req i = false) (hstage : (oversize req && stageable req i) = true) :
    (writeInternal req out i (stagingBuf req i) s).Holds (Done req out i s)
      (fun _ t => Broken req out i s t) := by
  have carries : carriesMapping req i = true := by simp [carriesMapping, hstage]
  have record : recordStores req i s.payload = ⟨s.payload, .zeros sizeOfMappingHead⟩ ::
      mappingStores s.payload ⟨-1, 1, (stagingBuf req i).va, (stagingBuf req i).size,
        (stagingBuf req i).mapAttr, (stagingBuf req i).sgt.nents⟩ (stagingBuf req i).sgt := by
    simp [recordStores, hmapped, hstage, stagingHead]
  have entry : (⟨vfastrpcBufAttrInternal, 0, (req.lpra i).pv, (req.lpra i).len, 0,
      sizeOfMapping (stagingBuf req i).sgt.nents⟩ : PraEntry) = argEntry req out i := by
    simp [argEntry, hmapped, hstage]
  have cursor : (s.putPra i (argEntry req out i)).payload = s.payload := rfl
  have done := putPra_done out s carries
  unfold writeInternal
  dsimp only
  rw [entry, cursor, ← record]
  split_ifs with hcopy
  · have stored := done.2.stores
    exact ⟨fun smooth => hcopy.2.2 (smooth.copy i), _, List.prefix_refl _,
      by simpa only using stored⟩
  · exact done

theorem writeInline_done {req : Request} {out : Outcomes} {i : Nat} {s : State}
    (hbuf : i < bufs req.sc) (hcarries : carriesMapping req i = false) :
    (writeInline req out i s).Holds (Done req out i s) (fun _ t => Broken req out i s t) := by
  have hwritten := written_inline hcarries
  obtain ⟨hmapped, hstage⟩ := Bool.or_eq_false_iff.mp hcarries
  have entry : (⟨0, 0, (req.lpra i).pv, (req.lpra i).len, 0, (req.lpra i).len⟩ : PraEntry) =
      argEntry req out i := by
    simp [argEntry, hmapped, hstage]
  have record : recordStores req i s.payload = if i < inbufs req.sc ∧ (req.lpra i).len ≠ 0 then
      [⟨s.payload, .user (req.lpra i).pv (req.lpra i).len⟩] else [] := by
    simp only [recordStores, hmapped, hstage, Bool.false_eq_true, if_false]
  unfold writeInline
  dsimp only
  rw [entry]
  have cursor : (s.putPra i (argEntry req out i)).payload = s.payload := rfl
  have announces : Announces req i (recordLen req i) (s.putPra i (argEntry req out i)) := by
    have hpra : (s.putPra i (argEntry req out i)).pra i = argEntry req out i := by
      simp [State.putPra, State.put, State.setPra]
    rw [Announces, hpra]
    exact argEntry_lens out (Or.inl hbuf)
  have wrotePra : Wrote i 0 _ s (s.putPra i (argEntry req out i)) := wrote_setPra i _ _ s
  have wroteCursor : ∀ t : State, Wrote i (recordStep req i s.payload) [] t
      (t.skip (req.lpra i).len) := by
    have step : recordStep req i s.payload = (req.lpra i).len := by
      simp [recordStep, hcarries, recordLen_inline hbuf hcarries]
    exact fun t => step ▸ wrote_skip i _ t
  rw [cursor]
  split_ifs with hin hcopy
  · -- The copy is attempted, and may have written anything up to its end, before it fails.
    rw [if_pos hin] at record
    refine ⟨fun smooth => hcopy (smooth.copy i), _, ?_,
      (wrote_trans wrotePra (wrote_put i _ _)).stores⟩
    rw [argStores_written (hwritten.mpr hin), record, ← List.append_assoc]
    exact List.prefix_append _ _
  · rw [if_pos hin] at record
    obtain ⟨wroteCrc, hpay, hbuf⟩ := putCrc_wrote req out i
      ((s.putPra i (argEntry req out i)).put (recordStores req i s.payload))
    have wrote := wrote_trans (wrote_trans (wrote_trans wrotePra (wrote_put i _ _)) wroteCrc)
      (wroteCursor _)
    rw [← record]
    refine ⟨⟨hpay.trans announces.1, hbuf.trans announces.2⟩, ?_⟩
    rw [argStores_written (hwritten.mpr hin)]
    simpa using wrote
  · have unwritten : ¬ Written req i := mt hwritten.mp hin
    have wrote := wrote_trans wrotePra (wroteCursor _)
    refine ⟨announces, ?_⟩
    rw [if_neg hin] at record
    simpa [argStores, Described, hbuf, record, unwritten] using wrote

/-- One round of the writing pass. Handles without a map have no descriptor. -/
def Round (req : Request) (out : Outcomes) (i : Nat) (s t : State) : Prop :=
  (Described req i → Announces req i (recordLen req i) t) ∧
    Wrote i (recordStep req i s.payload) (argStores req out i s.payload) (s.mark i) t

theorem round_of_done {req : Request} {out : Outcomes} {i : Nat} {s : State} {r : Flow Int State}
    (h : r.Holds (Done req out i (s.mark i)) (fun _ t => Broken req out i (s.mark i) t)) :
    r.Holds (Round req out i s) (fun _ t => Broken req out i s t) :=
  holds_mono h (fun _ ⟨announces, wrote⟩ => ⟨fun _ => announces, wrote⟩) fun _ _ broken => broken

theorem writeBuffer_round {req : Request} (out : Outcomes) {i : Nat} {s : State}
    (hi : i < bufs req.sc) (slots : Slots req (total req.sc) s)
    (descs : Descs req (oversize req) (bufs req.sc) s) :
    (writeBuffer req out i s).Holds (Round req out i s) (fun _ t => Broken req out i s t) := by
  unfold writeBuffer
  dsimp only
  split
  · rename_i map hmap
    obtain ⟨-, hmapped, rfl⟩ := slots_some slots hmap
    exact round_of_done (writeIon_done hi hmapped)
  · rename_i hmap
    have hmapped := slots_none (lt_total hi) slots hmap
    have hdesc : internalBuf (s.mark i).desc i =
      if oversize req && stageable req i then some (stagingBuf req i) else none := descs i hi
    rw [hdesc]
    by_cases hstage : oversize req && stageable req i
    · rw [if_pos hstage]
      exact round_of_done (writeInternal_done hmapped hstage)
    · rw [if_neg hstage]
      have hcarries : carriesMapping req i = false := by
        simpa [carriesMapping, hmapped] using hstage
      exact round_of_done (writeInline_done hi hcarries)

theorem writeHandle_round {req : Request} (out : Outcomes) {i : Nat} {s : State}
    (hlo : bufs req.sc ≤ i) (hi : i < total req.sc) (slots : Slots req (total req.sc) s) :
    (writeHandle req out i s).Holds (Round req out i s) (fun _ t => Broken req out i s t) := by
  have hbuf : ¬ i < bufs req.sc := Nat.not_lt.mpr hlo
  unfold writeHandle
  dsimp only
  split
  · rename_i map hmap
    split_ifs at hmap with hfds
    obtain ⟨-, hmapped, rfl⟩ := slots_some slots hmap
    have carries : carriesMapping req i = true := by simp [carriesMapping, hmapped]
    have record : recordStores req i (s.mark i).payload = mappingStores (s.mark i).payload
        ⟨(req.mmap i).fd, (req.mmap i).refs, (req.mmap i).va, (req.lpra i).len,
          vfastrpcMapAttrCached, (req.mmap i).table.nents⟩ (req.mmap i).table := by
      simp [recordStores, hmapped, mapHead, hbuf]
    have entry : (⟨vfastrpcBufAttrIon, 0, 0, (req.lpra i).len, (req.lpra i).pv,
        sizeOfMapping (req.mmap i).table.nents⟩ : PraEntry) = argEntry req out i := by
      simp [argEntry, hmapped, hbuf]
    rw [← record, entry]
    exact round_of_done (r := .next _) (putPra_done out _ carries)
  · rename_i hmap
    have hfd : mapped req i = false := by
      split_ifs at hmap with hfds
      · exact slots_none hi slots hmap
      · have hnone : req.fds = none := by simpa using hfds
        simp [mapped, Request.hasFd, hnone]
    have hcarries : carriesMapping req i = false := by
      simp [carriesMapping, hfd, stageable, hbuf]
    have undescribed : ¬ Described req i := by simp [Described, hbuf, hfd]
    refine ⟨fun h => absurd h undescribed, ?_⟩
    rw [argStores, if_neg undescribed, recordStep, hcarries, recordLen_handle hlo hfd]
    exact ⟨rfl, rfl, rfl, rfl, rfl, by simp, by simp, fun _ _ => rfl⟩

/-- No message is obtained, whatever the outcomes: a staging buffer cannot be had, or
the size as `virt_alloc_msg` sees it exceeds the buffer. -/
def Refused (req : Request) : Prop :=
  Unstageable req ∨ req.bufSize.toNat < recordStart req (total req.sc) % 2 ^ 32

/-- The writing pass before argument `i`. -/
structure Writing (req : Request) (i : Nat) (s : State) : Prop where
  slots : Slots req (total req.sc) s
  descs : Descs req (oversize req) (bufs req.sc) s
  size : s.size = UInt64.ofNat (recordStart req (total req.sc))
  offset : s.outbufsOffset = UInt32.ofNat (span (recordLen req) 0 (inbufs req.sc))
  payload : s.payload = payloadAt req i

theorem writing_next {req : Request} {i : Nat} {s t : State} (h : Writing req i s)
    (round : Round req out i s t) : Writing req (i + 1) t := by
  obtain ⟨-, wrote⟩ := round
  refine ⟨?_, ?_, wrote.size.trans h.size, wrote.offset.trans h.offset, ?_⟩
  · intro j
    rw [wrote.maps]
    exact h.slots j
  · intro j hj
    rw [wrote.desc]
    exact h.descs j hj
  · have hmark : (s.mark i).payload = s.payload := rfl
    rw [wrote.payload, hmark, h.payload, payloadAt]

theorem header_within {req : Request} {size : UInt64} {msgid : UInt16} :
    ∀ st ∈ headerStores req size msgid, Within 0 (metaBytes req.sc) st := by
  have htotal := total_le req.sc
  have hoff := praOff_toNat htotal
  intro st hst
  simp only [headerStores, Hdr.stores, List.cons_append, List.nil_append, List.mem_cons,
    List.not_mem_nil, or_false] at hst
  rcases hst with rfl | rfl | rfl | rfl | rfl | rfl | rfl | rfl | rfl | rfl | rfl | rfl <;>
    simp only [Within, Datum.size, metaBytes, sizeOfLists, mFdlist, mCrclist, mDspPerfList, hoff,
      UInt64.reduceToNat, UInt64.reduceMul, UInt64.reduceAdd] <;> omega

theorem header_allIn (req : Request) (size : UInt64) (msgid : UInt16) :
    AllIn req.bufSize (headerStores req size msgid) ↔ metaBytes req.sc ≤ req.bufSize.toNat := by
  constructor
  · intro h
    have hlast := h ⟨praOff (total req.sc), .zeros sizeOfLists⟩ (by simp [headerStores])
    simp only [Store.InBuffer, Datum.size, sizeOfLists, mFdlist, mCrclist, mDspPerfList,
      praOff_toNat (total_le req.sc), UInt64.reduceToNat, UInt64.reduceMul,
      UInt64.reduceAdd] at hlast
    simp only [metaBytes]
    omega
  · intro h st hst
    exact inBuffer_of_within (header_within st hst) h

theorem allocMessage_writing {req : Request} (out : Outcomes) {s : State} (h : Sized req s)
    (hstores : s.stores = []) :
    (allocMessage req out s).Holds
      (fun t => ¬ Refused req ∧ Writing req 0 t ∧
        ∃ msgid, t.stores = headerStores req (UInt64.ofNat (recordStart req (total req.sc))) msgid)
      (fun _ t => t.stores = [] ∧ (Smooth req out → Refused req)) := by
  have hsize : s.size.toUInt32.toInt32.toUInt32.toNat =
      recordStart req (total req.sc) % 2 ^ 32 := by
    rw [UInt32.toUInt32_toInt32, h.size, UInt64.toUInt32_ofNat', UInt32.toNat_ofNat']
  unfold allocMessage virtAllocMsg
  by_cases hbig : req.bufSize < s.size.toUInt32.toInt32.toUInt32
  · rw [if_pos hbig]
    rw [UInt32.lt_iff_toNat_lt, hsize] at hbig
    exact ⟨hstores, fun _ => Or.inr hbig⟩
  · rw [if_neg hbig]
    rw [UInt32.lt_iff_toNat_lt, hsize] at hbig
    cases hmsg : out.msgid with
    | none => exact ⟨hstores, fun smooth => False.elim (smooth.msgid hmsg)⟩
    | some msgid =>
      refine ⟨fun refused => refused.elim h.stageable hbig, ?_, msgid, ?_⟩
      · refine ⟨h.slots, h.descs, h.size, h.offset, ?_⟩
        have hmeta : praOff (total req.sc) + sizeOfLists = metalen req.sc := rfl
        simp [State.put, hmeta, metalen_eq, payloadAt]
      · simp [State.put, hstores, h.size]

/-- The rule for `get_args`: `inv` is established with the header and kept by the
writers of the arguments. -/
theorem getArgs_rounds {req : Request} {out : Outcomes} {pra : Nat → PraEntry}
    (inv : Nat → State → Prop) (bad : Int → State → Prop)
    (early : ∀ err t, t.stores = [] → (Smooth req out → Refused req) → bad err t)
    (start : ∀ t msgid, ¬ Refused req → Writing req 0 t →
      t.stores = headerStores req (UInt64.ofNat (recordStart req (total req.sc))) msgid → inv 0 t)
    (buffer : ∀ i s, i < bufs req.sc → Writing req i s → inv i s →
      (writeBuffer req out i s).Holds (inv (i + 1)) bad)
    (handle : ∀ i s, bufs req.sc ≤ i → i < total req.sc → Writing req i s → inv i s →
      (writeHandle req out i s).Holds (inv (i + 1)) bad) :
    (getArgs req out pra).Holds
      (fun t => ¬ Refused req ∧ Writing req (total req.sc) t ∧ inv (total req.sc) t) bad := by
  let good := fun (i : Nat) (t : State) => ¬ Refused req ∧ Writing req i t ∧ inv i t
  have step : ∀ {i s} {r : Flow Int State}, good i s →
      r.Holds (Round req out i s)
        (fun _ t => Broken req out i s t) →
      r.Holds (inv (i + 1)) bad → r.Holds (good (i + 1)) bad := by
    intro i s r hs round kept
    exact holds_mono (holds_and round kept)
      (fun t ht => ⟨hs.1, writing_next hs.2.1 ht.1, ht.2⟩) fun _ _ ht => ht.2
  refine holds_andThen (good (bufs req.sc))
    (holds_andThen (good 0) (holds_andThen (fun t => Sized req t ∧ t.stores = []) ?_ ?_) ?_) ?_
  · exact holds_mono (sizing req out pra) (fun _ ht => ht) fun err t ht =>
      early err t ht.1 fun smooth => Or.inl (ht.2 smooth)
  · rintro s ⟨sized, hstores⟩
    refine holds_mono (allocMessage_writing out sized hstores) ?_ fun err t ht =>
      early err t ht.1 ht.2
    rintro t ⟨hnot, writing, msgid, hst⟩
    exact ⟨hnot, writing, start t msgid hnot writing hst⟩
  · intro s hs
    have rounds := loop_holds good (n := bufs req.sc) hs fun i t _ hhi ht =>
      step ht (writeBuffer_round out (by omega) ht.2.1.slots ht.2.1.descs)
        (buffer i t (by omega) ht.2.1 ht.2.2)
    rwa [Nat.zero_add] at rounds
  · intro s hs
    exact loop_holds good (n := handles req.sc) hs fun i t hlo hhi ht =>
      step ht (writeHandle_round out hlo hhi ht.2.1.slots) (handle i t hlo hhi ht.2.1 ht.2.2)

/-- What every round of the writing pass preserves holds of the whole message. -/
theorem getArgs_holds {req : Request} {out : Outcomes} {pra : Nat → PraEntry}
    (inv : Nat → State → Prop) (bad : State → Prop)
    (start : ∀ t msgid, Writing req 0 t →
      t.stores = headerStores req (UInt64.ofNat (recordStart req (total req.sc))) msgid → inv 0 t)
    (next : ∀ i s t, i < total req.sc → Writing req i s → inv i s → Round req out i s t →
      inv (i + 1) t)
    (broken : ∀ i s t, i < total req.sc → Writing req i s → inv i s →
      Broken req out i s t → bad t) :
    (getArgs req out pra).Holds
      (fun t => ¬ Refused req ∧ Writing req (total req.sc) t ∧ inv (total req.sc) t)
      (fun _ t => t.stores = [] ∧ (Smooth req out → Refused req) ∨
        ¬ Refused req ∧ ¬ Smooth req out ∧ bad t) := by
  have step : ∀ {i s} {r : Flow Int State}, i < total req.sc → Writing req i s →
      ¬ Refused req ∧ inv i s →
      r.Holds (Round req out i s)
        (fun _ t => Broken req out i s t) →
      r.Holds (fun t => ¬ Refused req ∧ inv (i + 1) t)
        (fun _ t => t.stores = [] ∧ (Smooth req out → Refused req) ∨
          ¬ Refused req ∧ ¬ Smooth req out ∧ bad t) := by
    rintro i s r hi writing ⟨hnot, hinv⟩ round
    exact holds_mono round (fun t ht => ⟨hnot, next i s t hi writing hinv ht⟩)
      fun _ t ht => Or.inr ⟨hnot, ht.1, broken i s t hi writing hinv ht⟩
  refine holds_mono (getArgs_rounds (fun i t => ¬ Refused req ∧ inv i t) _
    (fun _ _ hs hun => Or.inl ⟨hs, hun⟩)
    (fun t msgid hnot writing hst => ⟨hnot, start t msgid writing hst⟩) ?_ ?_)
    (fun _ ht => ⟨ht.1, ht.2.1, ht.2.2.2⟩) fun _ _ ht => ht
  · intro i s hi writing hs
    exact step (by simp only [total]; omega) writing hs
      (writeBuffer_round out hi writing.slots writing.descs)
  · intro i s hlo hi writing hs
    exact step hi writing hs (writeHandle_round out hlo hi writing.slots)

end InvokeLayout
