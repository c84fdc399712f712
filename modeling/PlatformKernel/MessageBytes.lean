import PlatformKernel.ByteMemory
import PlatformKernel.InvokeDecoding

/-!
# The bytes of invoke messages

The transmit buffer as memory: the stores of `get_args` applied to whatever the
buffer held before. The stores of one argument are given as one list, and with
them the bytes they reach, also where the offsets wrap.
-/

namespace MessageBytes

open ByteMemory CountedLoops InvokeMessage InvokeLayout InvokeDecoding

/-- Descriptor `i` as the bytes of a buffer spell it. -/
def readEntry (m : Mem) (i : Nat) : PraEntry where
  attrs := u32At m (praOff i)
  crc := u32At m (praOff i + 4)
  pv := u64At m (praOff i + 8)
  bufLen := u64At m (praOff i + 16)
  offset := u64At m (praOff i + 24)
  payloadLen := u64At m (praOff i + 32)

/-- The message: the header and the lists, then the arguments in order. -/
def messageStores (req : Request) (out : Outcomes) (msgid : UInt16) (n : Nat) : List Store :=
  headerStores req (UInt64.ofNat (recordStart req (total req.sc))) msgid ++
    (List.range n).flatMap fun i => argStores req out i (payloadAt req i)

theorem messageStores_succ (req : Request) (out : Outcomes) (msgid : UInt16) (n : Nat) :
    messageStores req out msgid (n + 1) =
      messageStores req out msgid n ++ argStores req out n (payloadAt req n) := by
  simp [messageStores, List.range_succ, List.flatMap_append]

theorem getArgs_stores {req : Request} {out : Outcomes} {pra : Nat → PraEntry} {s : State}
    (accepted : getArgs req out pra = .next s) :
    Writing req (total req.sc) s ∧
      ∃ msgid, s.stores = messageStores req out msgid (total req.sc) := by
  have spec : (getArgs req out pra).Holds _ _ :=
    getArgs_holds (fun i t => ∃ msgid, t.stores = messageStores req out msgid i) (fun _ => True)
      (fun t msgid _ stored => ⟨msgid, by rw [stored]; simp [messageStores]⟩)
      (fun i s t _ writing ⟨msgid, before⟩ round => by
        have stored : t.stores = s.stores ++ _ := round.2.stores
        exact ⟨msgid, by rw [stored, before, writing.payload, messageStores_succ]⟩)
      (fun _ _ _ _ _ _ _ => trivial)
  rw [accepted] at spec
  exact spec.2

section Reach

variable (user : Mem)

theorem writes_append (first second : List Store) :
    writes user (first ++ second) = writes user first ++ writes user second :=
  List.map_append

variable {user} {a : UInt64}

theorem covered_store {st : Store} {stores : List Store} :
    Covered (writes user (st :: stores)) a ↔
      (a - st.off).toNat < st.datum.size ∨ Covered (writes user stores) a :=
  covered_cons

/-- Descriptor `i` occupies the address. -/
def InDescriptor (i : Nat) (a : UInt64) : Prop :=
  46 + 40 * i ≤ a.toNat ∧ a.toNat < 46 + 40 * (i + 1)

theorem entry_covered {i : Nat} (hi : i < 540) (e : PraEntry) :
    Covered (writes user (headStores i e ++ tailStores i e)) a ↔ InDescriptor i a := by
  have hoff := praOff_toNat (Nat.le_of_lt hi)
  have whole : (a - praOff i).toNat < 40 ↔ InDescriptor i a := by
    rw [sub_lt_iff (by omega), hoff, InDescriptor]
    omega
  have crc := sub_add_lt_iff (praOff i) 4 a (n := 4) (by decide)
  have pv := sub_add_lt_iff (praOff i) 8 a (n := 8) (by decide)
  have bufLen := sub_add_lt_iff (praOff i) 16 a (n := 8) (by decide)
  have offset := sub_add_lt_iff (praOff i) 24 a (n := 8) (by decide)
  have payloadLen := sub_add_lt_iff (praOff i) 32 a (n := 8) (by decide)
  rw [← whole]
  simp only [headStores, tailStores, List.cons_append, List.nil_append, covered_store, Datum.size,
    crc, pv, bufLen, offset, payloadLen, UInt64.reduceToNat]
  simp only [writes, List.map_nil, not_covered_nil, or_false]
  omega

theorem sgl_covered {off : UInt64} {table : SgTable} {k : Nat} (hk : k < 2 ^ 32) :
    Covered (writes user (sglStores off table k)) a ↔
      32 + 16 * k ≤ (a - off).toNat ∧ (a - off).toNat < 32 + 16 * (k + 1) := by
  have place : (sizeOfMappingHead + UInt64.ofNat k * sizeOfSgl).toNat = 32 + 16 * k := by
    simp only [sizeOfMappingHead, sizeOfSgl, UInt64.toNat_add, UInt64.toNat_mul,
      UInt64.toNat_ofNat', UInt64.reduceToNat]
    omega
  have whole := sub_add_lt_iff off (sizeOfMappingHead + UInt64.ofNat k * sizeOfSgl) a (n := 16)
    (by omega)
  rw [place, ← UInt64.add_assoc] at whole
  have second := sub_add_lt_iff (off + sizeOfMappingHead + UInt64.ofNat k * sizeOfSgl) 8 a (n := 8)
    (by decide)
  simp only [sglStores, covered_store, Datum.size, second, UInt64.reduceToNat]
  simp only [writes, List.map_nil, not_covered_nil, or_false]
  omega

theorem mappingHead_covered {off : UInt64} (m : MappingHead) :
    Covered (writes user (mappingHeadStores off m)) a ↔ (a - off).toNat < 32 := by
  have refcount := sub_add_lt_iff off 4 a (n := 4) (by decide)
  have va := sub_add_lt_iff off 8 a (n := 8) (by decide)
  have len := sub_add_lt_iff off 16 a (n := 8) (by decide)
  have attr := sub_add_lt_iff off 24 a (n := 4) (by decide)
  have nents := sub_add_lt_iff off 28 a (n := 4) (by decide)
  simp only [mappingHeadStores, covered_store, Datum.size, refcount, va, len, attr, nents,
    UInt64.reduceToNat]
  simp only [writes, List.map_nil, not_covered_nil, or_false]
  omega

theorem covered_flatMap {n : Nat} {part : Nat → List Store} :
    Covered (writes user ((List.range n).flatMap part)) a ↔
      ∃ k, k < n ∧ Covered (writes user (part k)) a := by
  simp only [covered_iff, List.mem_flatMap, List.mem_range]
  constructor
  · rintro ⟨st, ⟨k, hk, hst⟩, reached⟩
    exact ⟨k, hk, st, hst, reached⟩
  · rintro ⟨k, hk, st, hst, reached⟩
    exact ⟨st, ⟨k, hk, hst⟩, reached⟩

theorem mapping_covered {off : UInt64} (m : MappingHead) (table : SgTable) :
    Covered (writes user (mappingStores off m table)) a ↔ (a - off).toNat < mapRecord table := by
  have hn := table.nents.toNat_lt
  rw [mappingStores, writes_append, covered_append, mappingHead_covered, covered_flatMap, mapRecord]
  constructor
  · rintro (head | ⟨k, hk, entry⟩)
    · omega
    · have := (sgl_covered (by omega)).mp entry
      omega
  · intro below
    by_cases head : (a - off).toNat < 32
    · exact Or.inl head
    · refine Or.inr ⟨((a - off).toNat - 32) / 16, by omega, (sgl_covered (by omega)).mpr ?_⟩
      omega

theorem record_covered {req : Request} {i : Nat} {off : UInt64} :
    Covered (writes user (recordStores req i off)) a ↔
      Written req i ∧ (a - off).toNat < recordLen req i := by
  have none : ¬ Covered (writes user []) a := not_covered_nil a
  rcases record_cases req i off with ⟨written, m, table, len, same | same⟩ |
    ⟨written, pv, n, len, same⟩ | ⟨unwritten, same⟩
  · simp only [same, len, mapping_covered, written, true_and]
  · simp only [same, len, covered_store, mapping_covered, written, true_and, Datum.size,
      sizeOfMappingHead, mapRecord, UInt64.reduceToNat]
    omega
  · simp only [same, len, covered_store, none, or_false, written, true_and, Datum.size]
  · simp only [same, none, unwritten, false_and]

/-- What is stored for argument `i` fills its descriptor and its record. -/
theorem arg_covered {req : Request} (out : Outcomes) {i : Nat} (off : UInt64)
    (hi : i < total req.sc) :
    Covered (writes user (argStores req out i off)) a ↔
      Described req i ∧ InDescriptor i a ∨
        Written req i ∧ (a - off).toNat < recordLen req i := by
  have hmax : i < 540 := Nat.lt_of_lt_of_le hi (total_le _)
  by_cases described : Described req i
  · have crc : Covered (writes user (if Written req i then crcStores req out i else [])) a →
        InDescriptor i a := by
      intro reached
      obtain ⟨st, mem, reached⟩ := covered_iff.mp reached
      split_ifs at mem
      · exact within_covers (crcStores_entry hmax st mem) (by omega) reached
      · cases mem
    simp only [argStores, described, if_true, writes_append, covered_append, record_covered,
      true_and]
    rw [← covered_append, ← writes_append, entry_covered hmax]
    constructor
    · rintro (entry | record | reached)
      · exact Or.inl entry
      · exact Or.inr record
      · exact Or.inl (crc reached)
    · rintro (entry | record)
      · exact Or.inl entry
      · exact Or.inr (Or.inl record)
  · have none : ¬ Written req i := fun written => described (written_described written)
    simp only [argStores, described, none, if_false, false_and, or_false, iff_false]
    exact not_covered_nil a

theorem header_covered (req : Request) (size : UInt64) (msgid : UInt16) :
    Covered (writes user (headerStores req size msgid)) a ↔
      a.toNat < 46 ∨ 46 + 40 * total req.sc ≤ a.toNat ∧ a.toNat < metaBytes req.sc := by
  have htotal := total_le req.sc
  have hoff := praOff_toNat htotal
  have hlists : sizeOfLists.toNat = 484 := rfl
  have lists : (a - praOff (total req.sc)).toNat < sizeOfLists.toNat ↔ _ := sub_lt_iff (by omega)
  have field : ∀ off : UInt64, ∀ n, off.toNat + n ≤ 46 →
      ((a - off).toNat < n ↔ off.toNat ≤ a.toNat ∧ a.toNat < off.toNat + n) :=
    fun off n fits => sub_lt_iff (by omega)
  simp only [headerStores, Hdr.stores, List.cons_append, List.nil_append, covered_store,
    Datum.size, hlists, metaBytes,
    field 0 4 (by decide), field 4 4 (by decide), field 8 4 (by decide), field 12 4 (by decide),
    field 16 4 (by decide), field 20 2 (by decide), field 22 4 (by decide), field 26 4 (by decide),
    field 30 4 (by decide), field 34 4 (by decide), field 38 8 (by decide), UInt64.reduceToNat]
  simp only [writes, List.map_nil, not_covered_nil, or_false]
  omega

theorem message_covered (req : Request) (out : Outcomes) (msgid : UInt16) {n : Nat}
    (hn : n ≤ total req.sc) :
    Covered (writes user (messageStores req out msgid n)) a ↔
      (a.toNat < 46 ∨ 46 + 40 * total req.sc ≤ a.toNat ∧ a.toNat < metaBytes req.sc) ∨
        ∃ i, i < n ∧ (Described req i ∧ InDescriptor i a ∨
          Written req i ∧ (a - payloadAt req i).toNat < recordLen req i) := by
  rw [messageStores, writes_append, covered_append, header_covered, covered_flatMap]
  refine or_congr_right (exists_congr fun i => and_congr_right fun hi => ?_)
  exact arg_covered out _ (by omega)

end Reach

end MessageBytes
