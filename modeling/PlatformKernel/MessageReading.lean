import PlatformKernel.MessageBytes

/-!
# Reading invoke messages back

A message whose records do not run past the end of the address space is read back
as it was written: the descriptors apart from their crc, the in-buffers that
travel in the payload, and the scatter lists.
-/

namespace MessageReading

open ByteMemory CountedLoops InvokeMessage InvokeLayout InvokeDecoding MessageBytes

def Before (st st' : Store) : Prop := st.off.toNat + st.datum.size ≤ st'.off.toNat

theorem contents_append (user : Mem) (first second : List Store) (prev : Mem) :
    contents user (first ++ second) prev = contents user second (contents user first prev) := by
  rw [contents, writes_append, applyAll_append]
  rfl

/-- No later store touches what a store has written. -/
theorem contents_of_sorted {user : Mem} {stores : List Store} (sorted : stores.Pairwise Before)
    (inside : ∀ st ∈ stores, st.off.toNat + st.datum.size ≤ 2 ^ 64) {st : Store}
    (mem : st ∈ stores) {a : UInt64} (reached : (a - st.off).toNat < st.datum.size) (prev : Mem) :
    contents user stores prev a = datumByte user st.datum (a - st.off).toNat := by
  induction stores generalizing prev with
  | nil => cases mem
  | cons first rest ih =>
    obtain ⟨before, sorted⟩ := List.pairwise_cons.mp sorted
    rcases List.mem_cons.mp mem with rfl | mem
    · have none : ¬ Covered (writes user rest) a := by
        intro covered
        obtain ⟨st', mem', reached'⟩ := covered_iff.mp covered
        have place := (sub_lt_iff (inside _ List.mem_cons_self)).mp reached
        have place' := (sub_lt_iff (inside _ (List.mem_cons_of_mem _ mem'))).mp reached'
        have order : _ ≤ _ := before st' mem'
        omega
      have covers : (storeWrite user st).Covers a := reached
      have last : applyAll ([] ++ storeWrite user st :: writes user rest) prev a = _ :=
        applyAll_last covers none prev
      exact last
    · exact ih sorted (fun st' mem' => inside st' (List.mem_cons_of_mem _ mem')) mem _

/-- Each store can be read back. -/
theorem stored_byte {user : Mem} {stores : List Store} (sorted : stores.Pairwise Before)
    (inside : ∀ st ∈ stores, st.off.toNat + st.datum.size ≤ 2 ^ 64) {st : Store}
    (mem : st ∈ stores) (prev : Mem) {k : Nat} (hk : k < st.datum.size) :
    contents user stores prev (st.off + UInt64.ofNat k) = datumByte user st.datum k := by
  have back := sub_self_add st.off (k := k) (by have := inside st mem; omega)
  refine (contents_of_sorted sorted inside mem ?_ prev).trans ?_
  · rw [back]
    exact hk
  · rw [back]

theorem entry_sorted {i : Nat} (hi : i < 540) (e : PraEntry) :
    (headStores i e ++ tailStores i e).Pairwise Before := by
  have hoff := praOff_toNat (Nat.le_of_lt hi)
  have field : ∀ d : UInt64, d.toNat ≤ 32 → (praOff i + d).toNat = 46 + 40 * i + d.toNat := by
    intro d hd
    rw [UInt64.toNat_add, hoff]
    omega
  simp only [headStores, tailStores, List.cons_append, List.nil_append, List.pairwise_cons,
    List.mem_cons, List.not_mem_nil, or_false, forall_eq_or_imp, forall_eq, Before, Datum.size,
    hoff, field 4 (by decide), field 8 (by decide), field 16 (by decide), field 24 (by decide),
    field 32 (by decide), UInt64.reduceToNat]
  simp only [false_imp_iff, implies_true, List.Pairwise.nil, and_true]
  omega

theorem sgl_place (off : UInt64) (k : Nat) (room : off.toNat + 48 + 16 * k < 2 ^ 64) :
    (off + sizeOfMappingHead + UInt64.ofNat k * sizeOfSgl).toNat = off.toNat + 32 + 16 * k ∧
      (off + sizeOfMappingHead + UInt64.ofNat k * sizeOfSgl + 8).toNat =
        off.toNat + 40 + 16 * k := by
  simp only [sizeOfMappingHead, sizeOfSgl, UInt64.toNat_add, UInt64.toNat_mul,
    UInt64.toNat_ofNat', UInt64.reduceToNat]
  omega

theorem mapping_sorted {off : UInt64} {table : SgTable} (m : MappingHead)
    (room : off.toNat + mapRecord table < 2 ^ 64) :
    (mappingStores off m table).Pairwise Before := by
  have place : ∀ k, k < table.nents.toNat → ∀ st ∈ sglStores off table k,
      off.toNat + 32 + 16 * k ≤ st.off.toNat ∧
        st.off.toNat + st.datum.size ≤ off.toNat + 48 + 16 * k := by
    intro k hk st hst
    obtain ⟨first, second⟩ := sgl_place off k (by simp only [mapRecord] at room; omega)
    simp only [sglStores, List.mem_cons, List.not_mem_nil, or_false] at hst
    rcases hst with rfl | rfl
    · simp only [Datum.size, first]
      omega
    · simp only [Datum.size, second]
      omega
  refine List.pairwise_append.mpr ⟨?_, List.pairwise_flatMap.mpr ⟨fun k hk => ?_, ?_⟩, ?_⟩
  · simp only [mapRecord] at room
    simp only [mappingHeadStores, List.pairwise_cons, List.mem_cons, List.not_mem_nil, or_false,
      forall_eq_or_imp, forall_eq, Before, Datum.size, UInt64.toNat_add, UInt64.reduceToNat]
    simp only [false_imp_iff, implies_true, List.Pairwise.nil, and_true]
    omega
  · have hk := List.mem_range.mp hk
    obtain ⟨first, second⟩ := sgl_place off k (by simp only [mapRecord] at room; omega)
    refine List.pairwise_pair.mpr ?_
    simp only [Before, Datum.size, first, second]
    omega
  · refine (List.pairwise_lt_range).imp_of_mem ?_
    intro k l hk hl hkl st hst st' hst'
    have := place k (List.mem_range.mp hk) st hst
    have := place l (List.mem_range.mp hl) st' hst'
    simp only [Before]
    omega
  · intro st hst st' hst'
    obtain ⟨k, hk, hst'⟩ := List.mem_flatMap.mp hst'
    have := place k (List.mem_range.mp hk) st' hst'
    simp only [mapRecord] at room
    simp only [mappingHeadStores, List.mem_cons, List.not_mem_nil, or_false] at hst
    rcases hst with rfl | rfl | rfl | rfl | rfl | rfl <;>
      simp only [Before, Datum.size, UInt64.toNat_add, UInt64.reduceToNat] <;> omega

def message (user : Mem) (req : Request) (out : Outcomes) (msgid : UInt16) (prev : Mem) : Mem :=
  contents user (messageStores req out msgid (total req.sc)) prev

/-- The record of argument `i` occupies the address. -/
def InRecord (req : Request) (i : Nat) (a : UInt64) : Prop :=
  recordStart req i ≤ a.toNat ∧ a.toNat < recordStart req (i + 1)

section Parts

variable {req : Request} {i : Nat} {a : UInt64}

theorem metaBytes_le_recordStart (req : Request) (i : Nat) :
    metaBytes req.sc ≤ recordStart req i :=
  Nat.le_add_right _ _

theorem start_toNat (small : recordStart req (total req.sc) < 2 ^ 64) (hi : i ≤ total req.sc) :
    (UInt64.ofNat (recordStart req i)).toNat = recordStart req i := by
  rw [UInt64.toNat_ofNat', Nat.mod_eq_of_lt]
  exact Nat.lt_of_le_of_lt (recordStart_mono req hi) small

theorem payloadAt_start (small : recordStart req (total req.sc) < 2 ^ 64) (hi : i ≤ total req.sc) :
    payloadAt req i = UInt64.ofNat (recordStart req i) :=
  payloadAt_eq hi (Nat.lt_of_le_of_lt (recordStart_mono req hi) small)

theorem inRecord_iff (small : recordStart req (total req.sc) < 2 ^ 64) (hi : i < total req.sc) :
    (a - UInt64.ofNat (recordStart req i)).toNat < recordLen req i ↔ InRecord req i a := by
  have start := start_toNat small (Nat.le_of_lt hi)
  have upTo := recordStart_mono req (i := i + 1) hi
  have next := recordStart_succ req i
  rw [sub_lt_iff (by omega), start, InRecord]
  omega

/-- No other argument reaches the descriptor and the record of argument `i`. -/
theorem other_not_covered (user : Mem) (out : Outcomes)
    (small : recordStart req (total req.sc) < 2 ^ 64) (hi : i < total req.sc)
    (here : InDescriptor i a ∨ InRecord req i a) {j : Nat} (hj : j < total req.sc) (ne : j ≠ i) :
    ¬ Covered (writes user (argStores req out j (payloadAt req j))) a := by
  rw [arg_covered out _ hj, payloadAt_start small (Nat.le_of_lt hj), inRecord_iff small hj]
  have front := metaBytes_le_recordStart req i
  have front' := metaBytes_le_recordStart req j
  simp only [metaBytes] at front front'
  rintro (⟨-, above, below⟩ | ⟨-, above, below⟩)
  · rcases here with ⟨above', below'⟩ | ⟨above', below'⟩ <;> omega
  · rcases here with ⟨above', below'⟩ | ⟨above', below'⟩
    · omega
    · rcases Nat.lt_or_gt_of_ne ne with less | more
      · have := recordStart_mono req (i := j + 1) less
        omega
      · have := recordStart_mono req (i := i + 1) more
        omega

theorem header_not_covered {user : Mem} {size : UInt64} {msgid : UInt16} (hi : i < total req.sc)
    (here : InDescriptor i a ∨ InRecord req i a) :
    ¬ Covered (writes user (headerStores req size msgid)) a := by
  rw [header_covered]
  have front := metaBytes_le_recordStart req i
  simp only [metaBytes] at front ⊢
  rcases here with ⟨above, below⟩ | ⟨above, below⟩ <;> omega

/-- What the message holds for argument `i` is what was stored for it. -/
theorem message_arg {user prev : Mem} (out : Outcomes) (msgid : UInt16)
    (small : recordStart req (total req.sc) < 2 ^ 64) (hi : i < total req.sc)
    (here : InDescriptor i a ∨ InRecord req i a) :
    message user req out msgid prev a =
      contents user (argStores req out i (UInt64.ofNat (recordStart req i))) prev a := by
  have before : ¬ Covered (writes user (messageStores req out msgid i)) a := by
    rw [messageStores, writes_append, covered_append, covered_flatMap]
    rintro (header | ⟨j, hj, reached⟩)
    · exact header_not_covered hi here header
    · exact other_not_covered user out small hi here (by omega) (by omega) reached
  have upTo : ∀ n, i < n → n ≤ total req.sc →
      contents user (messageStores req out msgid n) prev a =
        contents user (argStores req out i (UInt64.ofNat (recordStart req i))) prev a := by
    intro n
    induction n with
    | zero => exact fun none => absurd none (Nat.not_lt_zero i)
    | succ n ih =>
      intro less most
      rw [messageStores_succ, contents_append]
      rcases Nat.lt_succ_iff_lt_or_eq.mp less with less | rfl
      · have after := other_not_covered user out small hi here most (by omega)
        exact (applyAll_uncovered after _).trans (ih less (by omega))
      · rw [payloadAt_start small (Nat.le_of_lt hi)]
        exact applyAll_congr (applyAll_uncovered before _) _
  exact upTo _ hi (Nat.le_refl _)

theorem crc_not_covered (user : Mem) (out : Outcomes) (hi : i < total req.sc)
    (apart : a.toNat < 50 + 40 * i ∨ 54 + 40 * i ≤ a.toNat) :
    ¬ Covered (writes user (if Written req i then crcStores req out i else [])) a := by
  have hmax : i < 540 := Nat.lt_of_lt_of_le hi (total_le _)
  have hoff := praOff_toNat (Nat.le_of_lt hmax)
  have place : (praOff i + 4).toNat = 50 + 40 * i := by
    simp only [UInt64.toNat_add, hoff, UInt64.reduceToNat]
    omega
  intro covered
  obtain ⟨st, mem, reached⟩ := covered_iff.mp covered
  simp only [crcStores] at mem
  split_ifs at mem
  · obtain rfl := List.mem_singleton.mp mem
    have := (sub_lt_iff (by rw [place]; simp only [Datum.size]; omega)).mp reached
    simp only [place, Datum.size] at this
    omega
  · cases mem
  · cases mem

theorem entry_byte (user prev : Mem) (out : Outcomes) (msgid : UInt16)
    (small : recordStart req (total req.sc) < 2 ^ 64) (hi : i < total req.sc)
    (described : Described req i) {d : UInt64} {x : Datum}
    (mem : (⟨praOff i + d, x⟩ : Store) ∈
      headStores i (argEntry req out i) ++ tailStores i (argEntry req out i))
    (inside : d.toNat + x.size ≤ 40) (apart : d.toNat + x.size ≤ 4 ∨ 8 ≤ d.toNat) {k : Nat}
    (hk : k < x.size) :
    message user req out msgid prev (praOff i + d + UInt64.ofNat k) = datumByte user x k := by
  have hmax : i < 540 := Nat.lt_of_lt_of_le hi (total_le _)
  have hoff := praOff_toNat (Nat.le_of_lt hmax)
  have place : (praOff i + d + UInt64.ofNat k).toNat = 46 + 40 * i + d.toNat + k := by
    rw [UInt64.toNat_add, UInt64.toNat_add, hoff, UInt64.toNat_ofNat']
    omega
  have here : InDescriptor i (praOff i + d + UInt64.ofNat k) := by
    constructor <;> omega
  have record : ¬ Covered (writes user (recordStores req i (UInt64.ofNat (recordStart req i))))
      (praOff i + d + UInt64.ofNat k) := by
    rw [record_covered, inRecord_iff small hi]
    rintro ⟨-, above, -⟩
    have front := metaBytes_le_recordStart req i
    simp only [metaBytes] at front
    omega
  have crc := crc_not_covered user out hi
    (a := praOff i + d + UInt64.ofNat k) (by omega)
  rw [message_arg out msgid small hi (Or.inl here), argStores, if_pos described, contents_append,
    contents_append]
  refine (applyAll_uncovered crc _).trans ((applyAll_uncovered record _).trans ?_)
  refine stored_byte (entry_sorted hmax _) (fun st hst => ?_) mem prev hk
  have := (putPra_entry hmax _ st hst).2
  omega

theorem argEntry_crc (req : Request) (out : Outcomes) (i : Nat) : (argEntry req out i).crc = 0 := by
  unfold argEntry ionHead
  dsimp only
  split_ifs <;> rfl

/-- The descriptors are read back as they were written; crcs are added later. -/
theorem readEntry_message (user prev : Mem) (out : Outcomes) (msgid : UInt16)
    (small : recordStart req (total req.sc) < 2 ^ 64) (hi : i < total req.sc)
    (described : Described req i) :
    { readEntry (message user req out msgid prev) i with crc := 0 } = argEntry req out i := by
  have field : ∀ d x, (⟨praOff i + d, .u64 x⟩ : Store) ∈
      headStores i (argEntry req out i) ++ tailStores i (argEntry req out i) →
      d.toNat ≤ 32 → 8 ≤ d.toNat → u64At (message user req out msgid prev) (praOff i + d) = x := by
    intro d x mem most least
    exact u64At_eq fun k hk => entry_byte user prev out msgid small hi described mem
      (by simp only [Datum.size]; omega) (Or.inr least) hk
  have attrs : u32At (message user req out msgid prev) (praOff i) = (argEntry req out i).attrs := by
    have first : (⟨praOff i + 0, .u32 (argEntry req out i).attrs⟩ : Store) ∈
        headStores i (argEntry req out i) ++ tailStores i (argEntry req out i) := by
      simp [headStores]
    have read := u32At_eq fun k hk => entry_byte user prev out msgid small hi described first
      (by simp [Datum.size]) (by simp [Datum.size]) hk
    rwa [UInt64.add_zero] at read
  have pv := field 8 (argEntry req out i).pv (by simp [headStores]) (by decide) (by decide)
  have bufLen := field 16 (argEntry req out i).bufLen (by simp [headStores]) (by decide) (by decide)
  have offset := field 24 (argEntry req out i).offset (by simp [tailStores]) (by decide) (by decide)
  have payloadLen := field 32 (argEntry req out i).payloadLen (by simp [tailStores]) (by decide)
    (by decide)
  have crc := argEntry_crc req out i
  cases hentry : argEntry req out i
  rw [hentry] at attrs pv bufLen offset payloadLen crc
  simp only [readEntry, attrs, pv, bufLen, offset, payloadLen]
  exact congrArg (fun c => PraEntry.mk _ c _ _ _ _) crc.symm

/-- In the record of an argument only the stores of the record count. -/
theorem record_byte (user prev : Mem) (out : Outcomes) (msgid : UInt16)
    (small : recordStart req (total req.sc) < 2 ^ 64) (hi : i < total req.sc)
    (described : Described req i) (here : InRecord req i a) :
    ∃ prev', message user req out msgid prev a =
      contents user (recordStores req i (UInt64.ofNat (recordStart req i))) prev' a := by
  have front := metaBytes_le_recordStart req i
  have above := here.1
  have crc := crc_not_covered user out hi (a := a) (by simp only [metaBytes] at front; omega)
  rw [message_arg out msgid small hi (Or.inr here), argStores, if_pos described, contents_append,
    contents_append]
  exact ⟨_, applyAll_uncovered crc _⟩

/-- An in-buffer that travels in the payload. -/
theorem inline_byte (user prev : Mem) (out : Outcomes) (msgid : UInt16)
    (small : recordStart req (total req.sc) < 2 ^ 64) (hi : i < inbufs req.sc)
    (carries : carriesMapping req i = false) {k : Nat} (hk : k < (req.lpra i).len.toNat) :
    message user req out msgid prev (UInt64.ofNat (recordStart req i) + UInt64.ofNat k) =
      user ((req.lpra i).pv + UInt64.ofNat k) := by
  have hbuf : i < bufs req.sc := Nat.lt_of_lt_of_le hi (inbufs_le_bufs _)
  have htotal : i < total req.sc := lt_total hbuf
  have hlen := (req.lpra i).len.toNat_lt
  have nonzero : (req.lpra i).len ≠ 0 := by
    intro zero
    rw [zero] at hk
    exact Nat.not_lt_zero k hk
  have back := sub_self_add (UInt64.ofNat (recordStart req i)) (k := k) (by omega)
  have reached : (UInt64.ofNat (recordStart req i) + UInt64.ofNat k -
      UInt64.ofNat (recordStart req i)).toNat < recordLen req i := by
    rw [back, recordLen_inline hbuf carries]
    exact hk
  obtain ⟨hmapped, hstage⟩ := Bool.or_eq_false_iff.mp carries
  have stored : recordStores req i (UInt64.ofNat (recordStart req i)) =
      [⟨UInt64.ofNat (recordStart req i), .user (req.lpra i).pv (req.lpra i).len⟩] := by
    simp [recordStores, hmapped, hstage, hi, nonzero]
  obtain ⟨prev', read⟩ := record_byte user prev out msgid small htotal (Or.inl hbuf)
    ((inRecord_iff small htotal).mp reached)
  rw [read, stored]
  refine stored_byte (List.pairwise_singleton _ _) (fun st mem => ?_)
    (List.mem_singleton.mpr rfl) prev' hk
  obtain rfl := List.mem_singleton.mp mem
  have upTo := recordStart_mono req (i := i + 1) htotal
  rw [recordStart_succ, recordLen_inline hbuf carries] at upTo
  simp only [Datum.size, start_toNat small (Nat.le_of_lt htotal)]
  omega

/-- The scatter list behind the head of a mapping record. -/
def readTable (m : Mem) (off : UInt64) : SgTable where
  nents := u32At m (off + 28)
  sgl := fun k => (u64At m (off + sizeOfMappingHead + UInt64.ofNat k * sizeOfSgl),
    u64At m (off + sizeOfMappingHead + UInt64.ofNat k * sizeOfSgl + 8))

/-- A memory that holds the bytes of a mapping gives its scatter list back. -/
theorem readTable_eq {user m : Mem} {off : UInt64} {head : MappingHead} {table : SgTable}
    (nents : head.nents = table.nents)
    (byte : ∀ st ∈ mappingStores off head table, ∀ k, k < st.datum.size →
      m (st.off + UInt64.ofNat k) = datumByte user st.datum k) :
    (readTable m off).nents = table.nents ∧
      ∀ j, j < table.nents.toNat → (readTable m off).sgl j = table.sgl j := by
  constructor
  · refine u32At_eq fun k hk => ?_
    rw [← nents]
    exact byte ⟨_, .u32 head.nents⟩ (by simp [mappingStores, mappingHeadStores]) k hk
  · intro j hj
    have first := byte ⟨_, .u64 (table.sgl j).1⟩ (List.mem_append_right _
      (List.mem_flatMap.mpr ⟨j, List.mem_range.mpr hj, List.mem_cons_self⟩))
    have second := byte ⟨_, .u64 (table.sgl j).2⟩ (List.mem_append_right _
      (List.mem_flatMap.mpr ⟨j, List.mem_range.mpr hj,
        List.mem_cons_of_mem _ (List.mem_singleton.mpr rfl)⟩))
    exact Prod.ext (u64At_eq first) (u64At_eq second)

def argTable (req : Request) (i : Nat) : SgTable :=
  if mapped req i then (req.mmap i).table else (stagingBuf req i).sgt

theorem carries_described (carries : carriesMapping req i = true) : Described req i :=
  written_described (Or.inl carries)

theorem recordLen_carries (carries : carriesMapping req i = true) :
    recordLen req i = mapRecord (argTable req i) := by
  unfold argTable
  by_cases hmapped : mapped req i = true
  · rw [if_pos hmapped, recordLen_mapped hmapped]
  · have stage : (oversize req && stageable req i) = true := by
      simpa [carriesMapping, hmapped] using carries
    obtain ⟨exceeds, stage⟩ := Bool.and_eq_true_iff.mp stage
    rw [if_neg hmapped, recordLen_staged exceeds stage]

theorem recordStores_carries (carries : carriesMapping req i = true) (off : UInt64) :
    ∃ cleared m, recordStores req i off = cleared ++ mappingStores off m (argTable req i) ∧
      m.nents = (argTable req i).nents := by
  by_cases hmapped : mapped req i = true
  · exact ⟨[], mapHead req i, by simp [recordStores, argTable, hmapped],
      by simp [mapHead, argTable, hmapped]⟩
  · have stage : (oversize req && stageable req i) = true := by
      simpa [carriesMapping, hmapped] using carries
    exact ⟨[⟨off, .zeros sizeOfMappingHead⟩], stagingHead (stagingBuf req i),
      by simp [recordStores, argTable, hmapped, stage],
      by simp [stagingHead, argTable, hmapped]⟩

/-- The record of a map or a staging buffer gives its scatter list back. -/
theorem readTable_message (user prev : Mem) (out : Outcomes) (msgid : UInt16)
    (small : recordStart req (total req.sc) < 2 ^ 64) (hi : i < total req.sc)
    (carries : carriesMapping req i = true) :
    (readTable (message user req out msgid prev) (UInt64.ofNat (recordStart req i))).nents =
        (argTable req i).nents ∧
      ∀ k, k < (argTable req i).nents.toNat →
        (readTable (message user req out msgid prev) (UInt64.ofNat (recordStart req i))).sgl k =
          (argTable req i).sgl k := by
  have start := start_toNat small (Nat.le_of_lt hi)
  have upTo := recordStart_mono req (i := i + 1) hi
  rw [recordStart_succ, recordLen_carries carries] at upTo
  obtain ⟨cleared, m, stored, nents⟩ :=
    recordStores_carries carries (UInt64.ofNat (recordStart req i))
  have room : (UInt64.ofNat (recordStart req i)).toNat + mapRecord (argTable req i) < 2 ^ 64 := by
    omega
  have byte : ∀ st ∈ mappingStores (UInt64.ofNat (recordStart req i)) m (argTable req i),
      ∀ k, k < st.datum.size →
      message user req out msgid prev (st.off + UInt64.ofNat k) = datumByte user st.datum k := by
    intro st mem k hk
    have within := mapping_within m room st mem
    have place : (st.off + UInt64.ofNat k).toNat = st.off.toNat + k := by
      have := within.2
      rw [UInt64.toNat_add, UInt64.toNat_ofNat']
      omega
    have here : InRecord req i (st.off + UInt64.ofNat k) := by
      have := within.1
      have := within.2
      rw [InRecord, recordStart_succ, recordLen_carries carries]
      omega
    obtain ⟨prev', read⟩ :=
      record_byte user prev out msgid small hi (carries_described carries) here
    rw [read, stored, contents_append]
    refine stored_byte (mapping_sorted m room) (fun st' mem' => ?_) mem _ hk
    have := (mapping_within m room st' mem').2
    omega
  exact readTable_eq nents byte

end Parts

end MessageReading
