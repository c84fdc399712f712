import PlatformKernel.InvokeLayout

/-!
# Offsets of mapped buffers

`get_args` sends a mapped buffer as an offset into its map. It takes the offset from the
start of the vma that `find_vma` returns for the address of the map, which need not hold
the buffer, and checks it in 64-bit arithmetic, which can wrap. The theorem says for which
buffers, maps and layouts the descriptor that is sent nevertheless lies in the map.
-/

namespace BufferOffsets

open CountedLoops InvokeMessage InvokeLayout

structure Vma where
  start : UInt64
  stop : UInt64
  nonempty : start < stop

/-- The vmas of a process, by address. -/
structure Layout where
  vmas : List Vma
  sorted : vmas.Pairwise fun v w => v.stop ≤ w.start

/-- `find_vma`: the first vma that ends above `addr`. -/
def Layout.findVma (layout : Layout) (addr : UInt64) : Option Vma :=
  layout.vmas.find? fun v => decide (addr < v.stop)

def Vma.Contains (v : Vma) (addr : UInt64) : Prop := v.start ≤ addr ∧ addr < v.stop

/-- Two vmas of a process that start at the same address are the same. -/
theorem eq_of_start_eq {layout : Layout} {v w : Vma} (hv : v ∈ layout.vmas)
    (hw : w ∈ layout.vmas) (start : v.start = w.start) : v = w := by
  have apart : (layout.vmas.map Vma.start).Nodup := by
    refine List.pairwise_map.mpr (layout.sorted.imp fun {a b} hle heq => ?_)
    have hlt := UInt64.lt_of_lt_of_le a.nonempty hle
    rw [heq] at hlt
    exact UInt64.lt_irrefl b.start hlt
  exact List.inj_on_of_nodup_map apart hv hw start

/-- What `get_args` checked and stored for argument `i`. -/
def Checked (req : Request) (out : Outcomes) (i : Nat) (s : State) : Prop :=
  ∃ start, out.vmStart i = some start ∧
    (req.lpra i).pv - start + (req.lpra i).len ≤ (req.mmap i).size ∧
    (s.pra i).offset = (req.lpra i).pv - start ∧ (s.pra i).bufLen = (req.lpra i).len

section checked

variable {req : Request} {out : Outcomes} {i : Nat}

theorem checked_of_pra {s t : State} (h : Checked req out i s) (same : t.pra i = s.pra i) :
    Checked req out i t := by
  unfold Checked at h ⊢
  rwa [same]

theorem putMapping_pra (s : State) (record : List Store) :
    ((s.putMapping req out i record).pra i).offset = (s.pra i).offset ∧
      ((s.putMapping req out i record).pra i).bufLen = (s.pra i).bufLen := by
  unfold State.putMapping State.advance State.skip State.putCrc
  split_ifs <;> simp [State.put, State.setPra]

theorem writeIon_checked (s : State) :
    (writeIon req out i (req.mmap i) s).Holds (Checked req out i) (fun _ _ => True) := by
  unfold writeIon
  dsimp only
  split
  · exact trivial
  · rename_i start hstart
    split_ifs with hsize
    · refine ⟨start, hstart, hsize, ?_, ?_⟩
      · rw [(putMapping_pra _ _).1]
        simp [State.put, State.setPra]
      · rw [(putMapping_pra _ _).2]
        simp [State.put, State.setPra, ionHead]
    · exact trivial

theorem writeBuffer_checked {s : State} (hi : i < bufs req.sc) (hmapped : mapped req i = true)
    (slots : Slots req (total req.sc) s) :
    (writeBuffer req out i s).Holds (Checked req out i) (fun _ _ => True) := by
  have htotal : i < total req.sc := lt_total hi
  have hmap : (s.mark i).maps i = some (req.mmap i) := by
    change s.maps i = _
    rw [slots i, if_pos ⟨htotal, hmapped⟩]
  unfold writeBuffer
  dsimp only
  rw [hmap]
  exact writeIon_checked _

/-- A round of the writing pass for argument `j`; only the one for `i` touches the
descriptor of `i`. -/
theorem round_checked {j : Nat} {s : State} {r : Flow Int State}
    (before : i < j → Checked req out i s)
    (round : r.Holds (Round req out j s)
      (fun _ t => Broken req out j s t))
    (own : j = i → r.Holds (Checked req out i) (fun _ _ => True)) :
    r.Holds (fun t => i < j + 1 → Checked req out i t) (fun _ _ => True) := by
  by_cases hji : j = i
  · exact holds_mono (own hji) (fun t ht _ => ht) fun _ _ _ => trivial
  · refine holds_mono round (fun t ht hlt => ?_) fun _ _ _ => trivial
    exact checked_of_pra (before (by omega)) (ht.2.others i fun hij => hji hij.symm)

/-- When `get_args` succeeds every mapped buffer was checked, and its descriptor is sent. -/
theorem getArgs_checked (pra : Nat → PraEntry) (hi : i < bufs req.sc)
    (hmapped : mapped req i = true) :
    (getArgs req out pra).Holds (Checked req out i) (fun _ _ => True) := by
  refine holds_mono (getArgs_rounds (fun j t => i < j → Checked req out i t) (fun _ _ => True)
    (fun _ _ _ _ => trivial) (fun _ _ _ _ _ hlt => absurd hlt (Nat.not_lt_zero i)) ?_ ?_)
    (fun t ht => ht.2.2 (lt_total hi)) fun _ _ _ => trivial
  · intro j s hj writing before
    exact round_checked before (writeBuffer_round out hj writing.slots writing.descs)
      fun hji => hji ▸ writeBuffer_checked (hji ▸ hi) (hji ▸ hmapped) writing.slots
  · intro j s hlo hj writing before
    exact round_checked before (writeHandle_round out hlo hj writing.slots) fun hji => by omega

end checked

/-- As unbounded integers: the offset is the distance of the buffer from the start of its
vma, and the buffer ends inside the map. -/
def Inside (layout : Layout) (pv size : UInt64) (e : PraEntry) : Prop :=
  ∃ v ∈ layout.vmas, v.Contains pv ∧ e.offset.toNat = pv.toNat - v.start.toNat ∧
    e.offset.toNat + e.bufLen.toNat ≤ size.toNat

/-- Whenever `get_args` accepts a buffer at `pv` of `len` bytes with a map at `va` of `size`
bytes, in any message and with any other outcomes, it sends a descriptor inside the map. -/
def SentInside (layout : Layout) (va size pv len : UInt64) : Prop :=
  ∀ req out pra t i, i < bufs req.sc → mapped req i = true → req.lpra i = ⟨pv, len⟩ →
    (req.mmap i).va = va → (req.mmap i).size = size →
    out.vmStart i = (layout.findVma va).map Vma.start →
    getArgs req out pra = .next t → Inside layout pv size (t.pra i)

/-- The vma that is found for the map, if any, holds the address of the buffer, and the
end of the buffer does not wrap. -/
def Reaches (layout : Layout) (va pv len : UInt64) : Prop :=
  ∀ v, layout.findVma va = some v →
    v.Contains pv ∧ pv.toNat - v.start.toNat + len.toNat < 2 ^ 64

/-- The end that is computed, modulo `2 ^ 64`, is above the size of the map. -/
def Rejected (layout : Layout) (va size pv len : UInt64) : Prop :=
  ∃ v, layout.findVma va = some v ∧
    size.toNat < (pv.toNat + (2 ^ 64 - v.start.toNat) + len.toNat) % 2 ^ 64

theorem end_toNat (pv start len : UInt64) :
    (pv - start + len).toNat = (pv.toNat + (2 ^ 64 - start.toNat) + len.toNat) % 2 ^ 64 := by
  rw [UInt64.toNat_add, UInt64.toNat_sub]
  omega

theorem inside_iff {layout : Layout} {v : Vma} {pv len size : UInt64} {e : PraEntry}
    (hv : v ∈ layout.vmas) (accepted : pv - v.start + len ≤ size)
    (offset : e.offset = pv - v.start) (bufLen : e.bufLen = len) :
    Inside layout pv size e ↔
      v.Contains pv ∧ pv.toNat - v.start.toNat + len.toNat < 2 ^ 64 := by
  have hpv := pv.toNat_lt
  have hstart := v.start.toNat_lt
  have hsize := size.toNat_lt
  have hoffset : e.offset.toNat = (2 ^ 64 - v.start.toNat + pv.toNat) % 2 ^ 64 := by
    rw [offset, UInt64.toNat_sub]
  constructor
  · rintro ⟨w, hw, contains, distance, fits⟩
    have hle := UInt64.le_iff_toNat_le.mp contains.1
    have same : v.start = w.start := UInt64.toNat_inj.mp (by omega)
    obtain rfl := eq_of_start_eq hv hw same
    rw [distance, bufLen] at fits
    exact ⟨contains, by omega⟩
  · rintro ⟨contains, hend⟩
    have hle := UInt64.le_iff_toNat_le.mp contains.1
    have hfits := UInt64.le_iff_toNat_le.mp accepted
    rw [end_toNat] at hfits
    refine ⟨v, hv, contains, by omega, ?_⟩
    rw [bufLen]
    omega

theorem findVma_mem {layout : Layout} {addr : UInt64} {v : Vma}
    (h : layout.findVma addr = some v) : v ∈ layout.vmas :=
  List.mem_of_find?_eq_some h

theorem sentInside_of_reaches {layout : Layout} {va pv len : UInt64} (size : UInt64)
    (reaches : Reaches layout va pv len) : SentInside layout va size pv len := by
  intro req out pra t i hi hmapped harg hva hsize hvma hget
  have checked : (getArgs req out pra).Holds (Checked req out i) (fun _ _ => True) :=
    getArgs_checked pra hi hmapped
  rw [hget] at checked
  obtain ⟨start, hstart, accepted, offset, bufLen⟩ := checked
  rw [hvma] at hstart
  obtain ⟨v, hv, rfl⟩ := Option.map_eq_some_iff.mp hstart
  rw [harg] at accepted offset bufLen
  rw [hsize] at accepted
  exact (inside_iff (findVma_mem hv) accepted offset bufLen).mpr (reaches v hv)

/-- One mapped in-buffer. -/
def oneBuffer (va size pv len : UInt64) : Request where
  sc := 0x10000
  handle := 0
  seqNum := 0
  lpra := fun _ => ⟨pv, len⟩
  fds := some fun _ => 5
  attrs := fun _ => 0
  crc := false
  tgid := 100
  pid := 100
  sessionid := false
  cid := 0
  bufSize := 0x20000
  keepMap := 8
  mmap := fun _ => ⟨5, 1, va, len, size, 1, fun _ => (0x80000000, size)⟩
  staging := fun _ => ⟨0, 0, 0, 0, fun _ => (0, 0)⟩

/-- Nothing fails, and `find_vma` finds `vma`. -/
def foundAt (vma : Option Vma) : Outcomes where
  mmapErr := fun _ => 0
  descAlloc := true
  bufErr := fun _ => 0
  msgid := some 0
  vmStart := fun _ => vma.map Vma.start
  copyErr := fun _ => 0
  crc32 := fun _ => 0

section oneBuffer

variable {va size pv len : UInt64}

theorem oneBuffer_mapped (nonzero : len ≠ 0) (i : Nat) :
    mapped (oneBuffer va size pv len) i = true := by
  simp [mapped, Request.hasFd, oneBuffer, nonzero]

theorem oneBuffer_not_refused (nonzero : len ≠ 0) : ¬ Refused (oneBuffer va size pv len) := by
  have htotal : total (oneBuffer va size pv len).sc = 1 := by
    change total 0x10000 = 1
    decide
  have hstart : recordStart (oneBuffer va size pv len) 1 = 618 := by
    rw [recordStart_succ, recordLen_mapped (oneBuffer_mapped nonzero 0), recordStart, metaBytes,
      htotal]
    rfl
  rintro (⟨-, i, hstageable, -⟩ | hbig)
  · simp [stageable, oneBuffer_mapped nonzero] at hstageable
  · rw [htotal, hstart] at hbig
    exact absurd hbig (by change ¬ (0x20000 : UInt32).toNat < 618 % 2 ^ 32; decide)

/-- `get_args` sends the message if the check passes. -/
theorem oneBuffer_sent {v : Vma} (va : UInt64) (nonzero : len ≠ 0)
    (accepted : pv - v.start + len ≤ size) :
    ∃ t, getArgs (oneBuffer va size pv len) (foundAt (some v)) (fun _ => ⟨0, 0, 0, 0, 0, 0⟩) =
      .next t := by
  have smooth : Smooth (oneBuffer va size pv len) (foundAt (some v)) :=
    ⟨fun _ => rfl, rfl, fun _ => rfl, fun h => Option.some_ne_none _ h,
      fun _ => ⟨v.start, rfl, accepted⟩, fun _ => rfl⟩
  have sent : (getArgs (oneBuffer va size pv len) (foundAt (some v))
      (fun _ => ⟨0, 0, 0, 0, 0, 0⟩)).Holds _ _ :=
    getArgs_holds (fun _ _ => True) (fun _ => True) (fun _ _ _ _ => trivial)
      (fun _ _ _ _ _ _ _ => trivial) (fun _ _ _ _ _ _ _ => trivial)
  cases hget : getArgs (oneBuffer va size pv len) (foundAt (some v))
    (fun _ => ⟨0, 0, 0, 0, 0, 0⟩) with
  | next t => exact ⟨t, rfl⟩
  | bail err t =>
    rw [hget] at sent
    rcases sent with ⟨-, refused⟩ | ⟨-, rough, -⟩
    · exact absurd (refused smooth) (oneBuffer_not_refused nonzero)
    · exact absurd smooth rough

/-- A descriptor that is sent inside its map was found in the right vma. -/
theorem reaches_of_sentInside {layout : Layout} {v : Vma} (nonzero : len ≠ 0)
    (hv : layout.findVma va = some v) (accepted : pv - v.start + len ≤ size)
    (inside : SentInside layout va size pv len) :
    v.Contains pv ∧ pv.toNat - v.start.toNat + len.toNat < 2 ^ 64 := by
  obtain ⟨t, hget⟩ := oneBuffer_sent va nonzero accepted
  have hi : 0 < bufs (oneBuffer va size pv len).sc := by
    change 0 < bufs 0x10000
    decide
  have hmapped : mapped (oneBuffer va size pv len) 0 = true := oneBuffer_mapped nonzero 0
  have checked : (getArgs (oneBuffer va size pv len) (foundAt (some v)) _).Holds
      (Checked (oneBuffer va size pv len) (foundAt (some v)) 0) (fun _ _ => True) :=
    getArgs_checked (fun _ => ⟨0, 0, 0, 0, 0, 0⟩) hi hmapped
  rw [hget] at checked
  obtain ⟨start, hstart, -, offset, bufLen⟩ := checked
  obtain rfl := Option.some.inj hstart
  have sent := inside _ (foundAt (some v)) _ t 0 hi hmapped rfl rfl rfl
    (by rw [hv]; rfl) hget
  exact (inside_iff (findVma_mem hv) accepted offset bufLen).mp sent

end oneBuffer

theorem sentInside_of_rejected {layout : Layout} {va size pv len : UInt64}
    (rejected : Rejected layout va size pv len) : SentInside layout va size pv len := by
  intro req out pra t i hi hmapped harg hva hsize hvma hget
  have checked : (getArgs req out pra).Holds (Checked req out i) (fun _ _ => True) :=
    getArgs_checked pra hi hmapped
  rw [hget] at checked
  obtain ⟨start, hstart, accepted, -⟩ := checked
  obtain ⟨v, hv, hbig⟩ := rejected
  rw [hvma, hv] at hstart
  obtain rfl := Option.some.inj hstart
  rw [harg, hsize, UInt64.le_iff_toNat_le] at accepted
  exact absurd hbig (Nat.not_lt.mpr (end_toNat pv v.start len ▸ accepted))

/-- One vma of sixteen pages. -/
def oneVma : Layout := ⟨[⟨0x20000, 0x30000, by decide⟩], by simp⟩

end BufferOffsets
