import PlatformKernel.InvokeLayout

/-!
# Stores of `get_args` and the transmit buffer

The size of a message is checked once, after sums that wrap at 64 bits and a
truncation to 32 bits, and the arguments are then written one by one. Here the
requests whose stores all lie in the buffer are characterised, over every outcome
of the calls that may fail. Requests below four gigabytes are all among them; a
pair of user lengths that cancel modulo the word size is not.
-/

namespace InvokeBounds

open CountedLoops InvokeMessage InvokeLayout

/-- The in-buffers fit without wrapping, and the mapping record of each later argument
ends in the buffer. Unmapped out-buffers only move the cursor. -/
def Room (req : Request) : Prop :=
  recordStart req (inbufs req.sc) ≤ req.bufSize.toNat ∧
    ∀ i, inbufs req.sc ≤ i → i < total req.sc → carriesMapping req i = true →
      (payloadAt req i).toNat + recordLen req i ≤ req.bufSize.toNat

/-- The condition on the request: refused by the size check, or enough room. -/
def Fits (req : Request) : Prop := Refused req ∨ Room req

/-- The records written before argument `i` end in the buffer. -/
def EndsIn (req : Request) (i : Nat) : Prop :=
  metaBytes req.sc ≤ req.bufSize.toNat ∧ ∀ j, j < i → Written req j →
    (payloadAt req j).toNat + recordLen req j ≤ req.bufSize.toNat

theorem endsIn_succ (req : Request) (i : Nat) :
    EndsIn req (i + 1) ↔ EndsIn req i ∧ (Written req i →
      (payloadAt req i).toNat + recordLen req i ≤ req.bufSize.toNat) := by
  constructor
  · rintro ⟨hmeta, h⟩
    exact ⟨⟨hmeta, fun j hj => h j (by omega)⟩, h i (by omega)⟩
  · rintro ⟨⟨hmeta, h⟩, hi⟩
    refine ⟨hmeta, fun j hj hw => ?_⟩
    by_cases hji : j = i
    · exact hji ▸ hi (hji ▸ hw)
    · exact h j (by omega) hw

theorem endsIn_mono {req : Request} {i j : Nat} (hij : i ≤ j) (h : EndsIn req j) :
    EndsIn req i :=
  ⟨h.1, fun k hk => h.2 k (by omega)⟩

/-- An in-buffer that is not written is empty. -/
theorem recordLen_of_not_written {req : Request} {i : Nat} (hi : i < inbufs req.sc)
    (h : ¬ Written req i) : recordLen req i = 0 := by
  have hcarries : carriesMapping req i = false := by
    cases hc : carriesMapping req i with
    | false => rfl
    | true => exact False.elim (h (Or.inl hc))
  have hbufs : i < bufs req.sc := Nat.lt_of_lt_of_le hi (inbufs_le_bufs _)
  have hzero : (req.lpra i).len = 0 := by
    by_contra hne
    exact h (Or.inr ⟨hi, hne⟩)
  rw [recordLen_inline hbufs hcarries, hzero]
  rfl

theorem inbufs_fit {req : Request} (h : EndsIn req (total req.sc)) :
    ∀ i, i ≤ inbufs req.sc → recordStart req i ≤ req.bufSize.toNat := by
  have hsize := req.bufSize.toNat_lt
  have hle : inbufs req.sc ≤ total req.sc := by simp only [total, bufs]; omega
  intro i
  induction i with
  | zero => exact fun _ => h.1
  | succ i ih =>
    intro hi
    have before := ih (by omega)
    rw [recordStart_succ]
    by_cases hw : Written req i
    · have hend := h.2 i (by omega) hw
      rwa [payloadAt_toNat (by omega) (by omega)] at hend
    · rw [recordLen_of_not_written (by omega) hw]
      exact before

theorem endsIn_iff_room (req : Request) : EndsIn req (total req.sc) ↔ Room req := by
  constructor
  · intro h
    exact ⟨inbufs_fit h _ (Nat.le_refl _), fun i _ hi hc => h.2 i hi (Or.inl hc)⟩
  · rintro ⟨hin, hrest⟩
    have hmeta : metaBytes req.sc ≤ recordStart req (inbufs req.sc) := Nat.le_add_right _ _
    refine ⟨by omega, fun j hj hw => ?_⟩
    by_cases hjin : j < inbufs req.sc
    · have hend := recordStart_mono req (Nat.succ_le_of_lt hjin)
      rw [recordStart_succ] at hend
      have := req.bufSize.toNat_lt
      rw [payloadAt_toNat (by omega) (by omega)]
      omega
    · rcases hw with hc | ⟨hlt, -⟩
      · exact hrest j (by omega) hj hc
      · exact False.elim (hjin hlt)

theorem entry_fits {req : Request} {i : Nat} (hi : i < total req.sc)
    (hmeta : metaBytes req.sc ≤ req.bufSize.toNat) :
    46 + 40 * (i + 1) ≤ req.bufSize.toNat := by
  simp only [metaBytes] at hmeta
  omega

/-- One round keeps the stores in the buffer exactly when its record ends there. -/
theorem round_allIn {req : Request} {out : Outcomes} {i : Nat} {s t : State}
    (hi : i < total req.sc) (writing : Writing req i s)
    (h : AllIn req.bufSize s.stores ↔ EndsIn req i) (round : Round req out i s t) :
    AllIn req.bufSize t.stores ↔ EndsIn req (i + 1) := by
  have hstores : t.stores = s.stores ++ _ := round.2.stores
  rw [hstores, allIn_append, h, endsIn_succ]
  refine and_congr_right fun ends => ?_
  rw [arg_allIn out _ hi (entry_fits hi ends.1), writing.payload]

theorem broken_allIn {req : Request} {out : Outcomes} {i : Nat} {s t : State}
    (hi : i < total req.sc) (writing : Writing req i s)
    (h : AllIn req.bufSize s.stores ↔ EndsIn req i)
    (broken : Broken req out i s t) :
    EndsIn req (total req.sc) → AllIn req.bufSize t.stores := by
  intro ends
  obtain ⟨-, new, part, hstores⟩ := broken
  have whole := (arg_allIn out (payloadAt req i) hi (entry_fits hi ends.1)).mpr (ends.2 i hi)
  rw [writing.payload] at part
  rw [hstores, allIn_append]
  exact ⟨h.mpr (endsIn_mono (by omega) ends), fun st hst => whole st (part.subset hst)⟩

theorem getArgs_stores (req : Request) (out : Outcomes) (pra : Nat → PraEntry) :
    (getArgs req out pra).Holds
      (fun t => ¬ Refused req ∧ Writing req (total req.sc) t ∧
        (AllIn req.bufSize t.stores ↔ EndsIn req (total req.sc)))
      (fun _ t => t.stores = [] ∧ (Smooth req out → Refused req) ∨
        ¬ Refused req ∧ ¬ Smooth req out ∧
          (EndsIn req (total req.sc) → AllIn req.bufSize t.stores)) := by
  refine getArgs_holds (fun i t => AllIn req.bufSize t.stores ↔ EndsIn req i)
    (fun t => EndsIn req (total req.sc) → AllIn req.bufSize t.stores) ?_ ?_ ?_
  · intro t msgid _ hstores
    rw [hstores, header_allIn]
    exact ⟨fun h => ⟨h, fun j hj => by omega⟩, fun h => h.1⟩
  · exact fun i s t hi writing h round => round_allIn hi writing h round
  · exact fun i s t hi writing h broken => broken_allIn hi writing h broken

/-- The requests for which every store of `get_args` lies below `buf_size`, whatever
the outcomes of the calls it makes. -/
theorem stores_in_buffer_iff (req : Request) :
    (∀ out pra, ∀ st ∈ (getArgs req out pra).state.stores, st.InBuffer req.bufSize) ↔
      Fits req := by
  constructor
  · intro h
    obtain ⟨out, smooth⟩ := exists_smooth req
    have spec := getArgs_stores req out fun _ => ⟨0, 0, 0, 0, 0, 0⟩
    have allIn := h out fun _ => ⟨0, 0, 0, 0, 0, 0⟩
    cases hr : getArgs req out (fun _ => ⟨0, 0, 0, 0, 0, 0⟩) with
    | next t =>
      rw [hr] at spec allIn
      exact Or.inr ((endsIn_iff_room req).mp (spec.2.2.mp allIn))
    | bail err t =>
      rw [hr] at spec
      rcases spec with ⟨-, refused⟩ | ⟨-, rough, -⟩
      · exact Or.inl (refused smooth)
      · exact False.elim (rough smooth)
  · intro fits out pra
    have ends : ¬ Refused req → EndsIn req (total req.sc) := fun hnot =>
      (endsIn_iff_room req).mpr (fits.resolve_left hnot)
    refine holds_state (Q := fun t => AllIn req.bufSize t.stores)
      (holds_mono (getArgs_stores req out pra) ?_ ?_)
    · exact fun t ⟨hnot, _, hiff⟩ => hiff.mpr (ends hnot)
    · rintro err t (⟨hstores, -⟩ | ⟨hnot, -, h⟩)
      · rw [hstores]
        exact allIn_nil _
      · exact h (ends hnot)

/-- Two buffers whose lengths cancel modulo `2 ^ 64`: the first is copied in full. -/
def cancellingRequest : Request where
  sc := 0x10100
  handle := 0
  seqNum := 0
  lpra := fun i => if i = 0 then ⟨0x10000, 200000⟩ else ⟨0x90000, 0 - 200000⟩
  fds := none
  attrs := fun _ => 0
  crc := false
  tgid := 100
  pid := 100
  sessionid := false
  cid := 0
  bufSize := 0x20000
  keepMap := 8
  mmap := fun _ => ⟨-1, 0, 0, 0, 0, 0, fun _ => (0, 0)⟩
  staging := fun _ => ⟨0, 0, 0, 0, fun _ => (0, 0)⟩

def calmOutcomes : Outcomes where
  mmapErr := fun _ => 0
  descAlloc := true
  bufErr := fun _ => 0
  msgid := some 0
  vmStart := fun _ => some 0
  copyErr := fun _ => 0
  crc32 := fun _ => 0

theorem cancelling_lengths_overrun :
    (getArgs cancellingRequest calmOutcomes fun _ => ⟨0, 0, 0, 0, 0, 0⟩).state.msgid = some 0 ∧
    ∃ st ∈ (getArgs cancellingRequest calmOutcomes fun _ => ⟨0, 0, 0, 0, 0, 0⟩).state.stores,
      ¬ st.InBuffer cancellingRequest.bufSize :=
  ⟨by decide, ⟨610, .user 0x10000 200000⟩, by decide, by decide⟩

/-- Without wrap or truncation the one check is enough. -/
theorem fits_of_lt {req : Request} (hlt : recordStart req (total req.sc) < 2 ^ 32) :
    Fits req := by
  by_cases hbig : req.bufSize.toNat < recordStart req (total req.sc)
  · exact Or.inl (Or.inr (by rwa [Nat.mod_eq_of_lt hlt]))
  · have hend : ∀ i, i ≤ total req.sc → recordStart req i ≤ req.bufSize.toNat := fun i hi =>
      Nat.le_trans (recordStart_mono req hi) (Nat.not_lt.mp hbig)
    refine Or.inr ⟨hend _ (by simp only [total, bufs]; omega), fun i _ hi _ => ?_⟩
    have hnext := hend (i + 1) hi
    rw [recordStart_succ] at hnext
    have := req.bufSize.toNat_lt
    rw [payloadAt_toNat (by omega) (by omega)]
    omega

end InvokeBounds
