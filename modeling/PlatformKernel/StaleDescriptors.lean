import PlatformKernel.MessageBytes

/-!
# What is left of earlier messages in a transmit buffer

Transmit buffers are recycled between processes without being cleared. What
`get_args` stores does not depend on what a buffer held before, so a byte of the
message sent is free of earlier messages exactly if some store reaches it. The
descriptors of handles without a map are the ones that no store is meant for.
-/

namespace StaleDescriptors

open ByteMemory CountedLoops InvokeMessage InvokeLayout InvokeDecoding MessageBytes ReturnCodes

/-- The state without the descriptor array, the only thing read from the buffer. -/
def forget (s : State) : State := { s with pra := fun _ => ⟨0, 0, 0, 0, 0, 0⟩ }

theorem eq_of_forget {s s' : State} (same : forget s = forget s') :
    s' = { s with pra := s'.pra } := by
  cases s
  cases s'
  simp only [forget, State.mk.injEq, true_and] at same
  obtain ⟨rfl, rfl, rfl, rfl, rfl, rfl, rfl, rfl, rfl, rfl⟩ := same
  rfl

/-- The step behaves alike whatever the descriptor array holds. -/
def Blind (body : State → Flow Int State) : Prop :=
  ∀ s s', forget s = forget s' → (body s).map forget = (body s').map forget

theorem blind_of_pra {body : State → Flow Int State}
    (alike : ∀ s pra, (body s).map forget = (body { s with pra := pra }).map forget) :
    Blind body := by
  intro s s' same
  rw [eq_of_forget same]
  exact alike s s'.pra

theorem mapBuffer_blind (req : Request) (out : Outcomes) (i : Nat) :
    Blind (mapBuffer req out i) := by
  refine blind_of_pra fun s pra => ?_
  unfold mapBuffer
  dsimp only
  split_ifs <;> rfl

theorem mapHandle_blind (req : Request) (out : Outcomes) (i : Nat) :
    Blind (mapHandle req out i) := by
  refine blind_of_pra fun s pra => ?_
  unfold mapHandle
  dsimp only
  split_ifs <;> rfl

theorem stageBuffer_blind (req : Request) (out : Outcomes) (i : Nat) :
    Blind (stageBuffer req out i) := by
  refine blind_of_pra fun s pra => ?_
  unfold stageBuffer
  dsimp only
  cases s.maps i with
  | some map => rfl
  | none =>
    dsimp only
    split_ifs
    · rfl
    · cases vfastrpcBufAlloc (pageAlign (req.lpra i).len) (out.bufErr i) (req.staging i) <;> rfl

theorem sizeMessage_blind (req : Request) (out : Outcomes) : Blind (sizeMessage req out) := by
  refine blind_of_pra fun s pra => ?_
  have size : (({ s with pra := pra } : State).setSize req.sc).size = (s.setSize req.sc).size := rfl
  unfold sizeMessage
  dsimp only
  rw [size]
  split_ifs
  · refine andThen_blind ?_ (blind_of_pra fun _ _ => rfl)
    exact loop_blind (stageBuffer_blind req out) 0 (bufs req.sc) _ _ rfl
  · rfl
  · rfl

theorem allocMessage_blind (req : Request) (out : Outcomes) : Blind (allocMessage req out) := by
  refine blind_of_pra fun s pra => ?_
  unfold allocMessage
  dsimp only
  cases virtAllocMsg req.bufSize s.size.toUInt32.toInt32 out.msgid <;> rfl

/-- What is read back behind the mapping record depends on the length stored before it. -/
theorem putMapping_forget {req : Request} {out : Outcomes} {i : Nat} {record : List Store}
    {s s' : State} (same : forget s = forget s')
    (len : (s.pra i).payloadLen = (s'.pra i).payloadLen) :
    forget (s.putMapping req out i record) = forget (s'.putMapping req out i record) := by
  rw [eq_of_forget same]
  unfold State.putMapping State.putCrc
  split_ifs <;>
    simp [forget, State.advance, State.skip, State.put, State.setPra, len]

theorem writeIon_blind (req : Request) (out : Outcomes) (i : Nat) (map : VfastrpcMmap) :
    Blind (writeIon req out i map) := by
  refine blind_of_pra fun s pra => ?_
  unfold writeIon
  cases out.vmStart i with
  | none => rfl
  | some v =>
    dsimp only
    split_ifs
    · refine congrArg Flow.next (putMapping_forget rfl ?_)
      simp [State.put, State.setPra]
    · rfl

theorem writeInternal_blind (req : Request) (out : Outcomes) (i : Nat) (buf : VfastrpcBuf) :
    Blind (writeInternal req out i buf) := by
  refine blind_of_pra fun s pra => ?_
  have done : ∀ e record, forget ((s.putPra i e).putMapping req out i record) =
      forget ((({ s with pra := pra } : State).putPra i e).putMapping req out i record) := by
    intro e record
    refine putMapping_forget rfl ?_
    simp [State.putPra, State.put, State.setPra]
  unfold writeInternal
  dsimp only
  split_ifs
  · exact congrArg (fun t : State => Flow.bail (out.copyErr i) { t with payload := s.payload })
      (done _ _)
  · exact congrArg Flow.next (done _ _)

theorem writeInline_blind (req : Request) (out : Outcomes) (i : Nat) :
    Blind (writeInline req out i) := by
  refine blind_of_pra fun s pra => ?_
  unfold writeInline State.putCrc
  dsimp only
  split_ifs <;> rfl

theorem writeBuffer_blind (req : Request) (out : Outcomes) (i : Nat) :
    Blind (writeBuffer req out i) := by
  refine blind_of_pra fun s pra => ?_
  have marked : forget (s.mark i) = forget (({ s with pra := pra } : State).mark i) := rfl
  unfold writeBuffer
  have maps : (({ s with pra := pra } : State).mark i).maps = (s.mark i).maps := rfl
  have desc : (({ s with pra := pra } : State).mark i).desc = (s.mark i).desc := rfl
  dsimp only
  rw [maps, desc]
  cases (s.mark i).maps i with
  | some map => exact writeIon_blind req out i map _ _ marked
  | none =>
    cases internalBuf (s.mark i).desc i with
    | some buf => exact writeInternal_blind req out i buf _ _ marked
    | none => exact writeInline_blind req out i _ _ marked

theorem writeHandle_blind (req : Request) (out : Outcomes) (i : Nat) :
    Blind (writeHandle req out i) := by
  refine blind_of_pra fun s pra => ?_
  have maps : (({ s with pra := pra } : State).mark i).maps = (s.mark i).maps := rfl
  unfold writeHandle
  dsimp only
  rw [maps]
  cases (if req.fds.isSome then (s.mark i).maps i else none) with
  | none => rfl
  | some map =>
    refine congrArg Flow.next (putMapping_forget rfl ?_)
    simp [State.putPra, State.put, State.setPra]

theorem getArgs_blind (req : Request) (out : Outcomes) (pra pra' : Nat → PraEntry) :
    (getArgs req out pra).map forget = (getArgs req out pra').map forget :=
  andThen_blind (andThen_blind (andThen_blind (andThen_blind (andThen_blind
    (loop_blind (mapBuffer_blind req out) 0 (bufs req.sc) _ _ rfl)
    (loop_blind (mapHandle_blind req out) (bufs req.sc) (handles req.sc)))
    (sizeMessage_blind req out))
    (allocMessage_blind req out))
    (loop_blind (writeBuffer_blind req out) 0 (bufs req.sc)))
    (loop_blind (writeHandle_blind req out) (bufs req.sc) (handles req.sc))

/-- The transmit buffer after `get_args`, over what it held before. -/
def sent (user : Mem) (req : Request) (out : Outcomes) (prev : Mem) : Mem :=
  contents user (getArgs req out (readEntry prev)).state.stores prev

/-- The crc of argument `i`, if one is taken, is taken over its record: the length in the
descriptor, or that of the buffer, is passed as an `int`. -/
def HashesRecord (req : Request) (i : Nat) : Prop :=
  req.crc = true → i < total req.sc → Written req i →
    intOfU32 (recordStep req i (payloadAt req i)).toUInt32 = recordLen req i

/-- The calls made for one request end alike over two buffers. A crc that is taken over other
bytes than those of the record may depend on what a buffer held before. -/
structure Alike (req : Request) (out out' : Outcomes) : Prop where
  calls : out' = { out with crc32 := out'.crc32 }
  crcs : ∀ i, HashesRecord req i → out'.crc32 i = out.crc32 i

theorem Alike.eq {req : Request} {out out' : Outcomes} (alike : Alike req out out')
    (hashed : ∀ i, HashesRecord req i) : out' = out := by
  have crcs : out'.crc32 = out.crc32 := funext fun i => alike.crcs i (hashed i)
  rw [alike.calls, crcs]

/-- Header, descriptors and lists are the same whatever the buffer held before. -/
def Untainted (req : Request) (out : Outcomes) : Prop :=
  ∀ (user prev prev' : Mem) (out' : Outcomes), Alike req out out' →
    ∀ a : UInt64, a.toNat < metaBytes req.sc →
      sent user req out prev a = sent user req out' prev' a

/-- Below two gigabytes every crc is taken over its record. -/
theorem hashes_of_lt {req : Request} (small : recordStart req (total req.sc) < 2 ^ 31) (i : Nat) :
    HashesRecord req i := by
  intro _ hi _
  have upTo := recordStart_mono req (Nat.succ_le_of_lt hi)
  rw [recordStart_succ] at upTo
  have place := payloadAt_toNat (Nat.le_of_lt hi) (by omega)
  have behind : metaBytes req.sc ≤ recordStart req i := Nat.le_add_right _ _
  rw [recordStep_eq hi (by omega) (by omega), UInt64.toUInt32_ofNat']
  have len : (UInt32.ofNat (recordLen req i)).toNat = recordLen req i := by
    rw [UInt32.toNat_ofNat', Nat.mod_eq_of_lt (by omega)]
  rw [intOfU32, if_pos (by omega), len]

/-- The records of the arguments, where the cursor places them, run over descriptor `i`. -/
def Overrun (req : Request) (i : Nat) : Prop :=
  ∀ a : UInt64, InDescriptor i a → ∃ j, j < total req.sc ∧ Written req j ∧
    (a - payloadAt req j).toNat < recordLen req j

/-- Records behind the lists reach no descriptor: only a message of 2^64 bytes and
more is overrun. -/
theorem overrun_wraps {req : Request} {i : Nat} (hi : i < total req.sc) (overrun : Overrun req i) :
    2 ^ 64 < recordStart req (total req.sc) := by
  have hmax : i < 540 := Nat.lt_of_lt_of_le hi (total_le _)
  have hoff := praOff_toNat (Nat.le_of_lt hmax)
  obtain ⟨j, hj, -, reached⟩ := overrun (praOff i) ⟨by omega, by omega⟩
  by_contra small
  have upTo := recordStart_mono req (Nat.succ_le_of_lt hj)
  have front : metaBytes req.sc ≤ recordStart req j := Nat.le_add_right _ _
  rw [recordStart_succ] at upTo
  have start := payloadAt_toNat (Nat.le_of_lt hj) (by omega)
  have place := (sub_lt_iff (by omega)).mp reached
  simp only [metaBytes] at front
  omega

theorem sent_eq {req : Request} {out : Outcomes} {pra : Nat → PraEntry} {s : State}
    (accepted : getArgs req out pra = .next s) (user prev : Mem) :
    sent user req out prev = contents user s.stores prev := by
  have same := getArgs_blind req out (readEntry prev) pra
  rw [accepted] at same
  have stores : (getArgs req out (readEntry prev)).state.stores = s.stores := by
    cases hrun : getArgs req out (readEntry prev) with
    | next t =>
      rw [hrun] at same
      have forgotten : forget t = forget s := Flow.next.inj same
      have stored := congrArg State.stores forgotten
      exact stored
    | bail err t =>
      rw [hrun] at same
      cases same
  rw [sent, stores]

theorem untainted_iff_covered {req : Request} {out : Outcomes} {pra : Nat → PraEntry} {s : State}
    (accepted : getArgs req out pra = .next s) (hashed : ∀ i, HashesRecord req i) :
    Untainted req out ↔ ∀ (user : Mem) (a : UInt64), a.toNat < metaBytes req.sc →
      Covered (writes user s.stores) a := by
  constructor
  · intro h user a small
    refine settled_iff_covered.mp fun m m' => ?_
    have same := h user m m' out ⟨rfl, fun _ _ => rfl⟩ a small
    rwa [sent_eq accepted, sent_eq accepted] at same
  · intro h user prev prev' out' alike a small
    rw [alike.eq hashed, sent_eq accepted, sent_eq accepted]
    exact settled_iff_covered.mpr (h user a small) prev prev'

/-- One in-handle, and no file descriptors. -/
def bareHandle : Request := { mixedRequest with sc := 0x10, fds := none }

end StaleDescriptors
