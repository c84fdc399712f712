import PlatformKernel.InvokeBounds

/-!
# What `put_args` reads and writes

`put_args` with a record of its accesses: the ranges it reads of the receive buffer, and how
many bytes it writes to each out-buffer of the caller. Lengths and cursor come from the
response and are not checked. The theorem says for which responses every read lies in the
buffer and no out-buffer is overrun.
-/

namespace ResponseReads

open CountedLoops InvokeMessage InvokeLayout
open InvokeBounds (calmOutcomes)

/-- Offsets are those in the receive buffer. -/
inductive Access where
  | read (off : UInt64) (n : UInt64)
  | write (i : Nat) (n : UInt64)
  deriving DecidableEq

/-- Inside a receive buffer of `bufSize` bytes, or inside the buffer of the caller. A read of
no bytes touches nothing, wherever it starts. -/
def Access.Allowed (req : Request) : Access → Prop
  | .read off n => n ≠ 0 → off.toNat + n.toNat ≤ req.bufSize.toNat
  | .write i n => n ≤ (req.lpra i).len

@[simp] theorem allowed_read (req : Request) (off n : UInt64) :
    (Access.read off n).Allowed req ↔ (n ≠ 0 → off.toNat + n.toNat ≤ req.bufSize.toNat) :=
  Iff.rfl

@[simp] theorem allowed_write (req : Request) (i : Nat) (n : UInt64) :
    (Access.write i n).Allowed req ↔ n ≤ (req.lpra i).len := Iff.rfl

instance (req : Request) : DecidablePred (Access.Allowed req)
  | .read _ _ => inferInstanceAs (Decidable (_ → _))
  | .write _ _ => inferInstanceAs (Decidable (_ ≤ _))

/-- `(int)len`, passed on as a `size_t`. -/
def crcLen (len : UInt64) : UInt64 := len.toUInt32.toInt32.toInt64.toUInt64

/-- Accesses for out-buffer `i` up to the end of its copy. -/
def bufferAccesses (req : Request) (map : Option VfastrpcMmap) (desc : Option (Nat → BufDesc))
    (rsp : Response) (payload : UInt64) (i : Nat) : List Access :=
  match map with
  | some _ => []
  | none =>
    match internalBuf desc i with
    | some _ => [.write i (req.lpra i).len]
    | none =>
      let n := (rsp.pra i).bufLen
      .read (praOff i + 16) 8 ::
        (if req.crc then [.read payload (crcLen n), .read (praOff i + 4) 4] else []) ++
        [.read payload n, .write i n]

/-- The fd list is read up to its first zero. -/
def fdlistAccesses (rsp : Response) (lists : UInt64) : Nat → Nat → List Access
  | _, 0 => []
  | k, n + 1 =>
    .read (lists + 8 * UInt64.ofNat k) 8 ::
      if rsp.fdlist k = 0 then [] else fdlistAccesses rsp lists (k + 1) n

structure Tracer where
  reader : Reader
  trace : List Access

/-- One out-buffer. `rpra[i].payload_len` is read if its copy went through. -/
def readBuffer (req : Request) (desc : Option (Nat → BufDesc)) (rsp : Response)
    (copyErr : Nat → Int) (i : Nat) (t : Tracer) : Flow Int Tracer :=
  let trace := t.trace ++ bufferAccesses req (t.reader.maps i) desc rsp t.reader.payload i
  match InvokeMessage.readBuffer req desc rsp copyErr i t.reader with
  | .next r => .next ⟨r, trace ++ [.read (praOff i + 32) 8]⟩
  | .bail err r => .bail err ⟨r, trace⟩

/-- The lists after the descriptors; the caller gets the crc list if it asked for it. -/
def readLists (req : Request) (rsp : Response) (crcErr : Int) (t : Tracer) : Flow Int Tracer :=
  let lists := praOff (total req.sc)
  let r := readFdlist rsp 0 mFdlist.toNat t.reader
  let trace := t.trace ++ fdlistAccesses rsp lists 0 mFdlist.toNat
  if req.crc then
    let r := r.emit (.copyCrclist (lists + 8 * mFdlist) (4 * mCrclist))
    let t : Tracer := ⟨r, trace ++ [.read (lists + 8 * mFdlist) (4 * mCrclist)]⟩
    if crcErr ≠ 0 then .bail crcErr t else .next t
  else .next ⟨r, trace⟩

/-- `put_args`; `hdr.result` is at offset 22. -/
def putArgs (req : Request) (s : State) (rsp : Response) (copyErr : Nat → Int) (crcErr : Int) :
    Flow Int Tracer :=
  let t : Tracer :=
    ⟨⟨s.maps, praOff (total req.sc) + sizeOfLists + s.outbufsOffset.toUInt64, []⟩, [.read 22 4]⟩
  if rsp.result ≠ 0 then .bail (rsp.result.toInt32.toInt) t
  else
    (loop (readBuffer req s.desc rsp copyErr) (inbufs req.sc) (outbufs req.sc) t).andThen
      (readLists req rsp crcErr)

/-- Without the record this is the reading pass of the message format. -/
theorem putArgs_reader (req : Request) (s : State) (rsp : Response) (copyErr : Nat → Int)
    (crcErr : Int) : (putArgs req s rsp copyErr crcErr).map Tracer.reader =
      InvokeMessage.putArgs req s rsp copyErr crcErr := by
  have rounds : ∀ i t, (readBuffer req s.desc rsp copyErr i t).map Tracer.reader =
      InvokeMessage.readBuffer req s.desc rsp copyErr i t.reader := by
    intro i t
    unfold readBuffer
    dsimp only
    split <;> (rename_i h; rw [h]; rfl)
  unfold putArgs InvokeMessage.putArgs
  dsimp only
  by_cases hresult : rsp.result ≠ 0
  · rw [if_pos hresult, if_pos hresult]
    rfl
  · rw [if_neg hresult, if_neg hresult, map_andThen, loop_map rounds]
    intro t
    unfold readLists Reader.copied
    split_ifs <;> rfl

/-- Where the payload of out-buffer `i` is looked for. -/
def cursor (req : Request) (s : State) (rsp : Response) (i : Nat) : UInt64 :=
  praOff (total req.sc) + sizeOfLists + s.outbufsOffset.toUInt64 +
    UInt64.ofNat (span (fun j => (rsp.pra j).payloadLen.toNat) (inbufs req.sc)
      (i - inbufs req.sc))

def accesses (req : Request) (s : State) (rsp : Response) (i : Nat) : List Access :=
  bufferAccesses req (s.maps i) s.desc rsp (cursor req s rsp i) i ++ [.read (praOff i + 32) 8]

/-- The header, or an out-buffer below `i`. -/
def Begun (req : Request) (s : State) (rsp : Response) (i : Nat) (a : Access) : Prop :=
  a = .read 22 4 ∨ ∃ j, inbufs req.sc ≤ j ∧ j < i ∧ a ∈ accesses req s rsp j

/-- The loop before out-buffer `i`. -/
structure Walked (req : Request) (s : State) (rsp : Response) (i : Nat) (t : Tracer) : Prop where
  payload : t.reader.payload = cursor req s rsp i
  maps : ∀ j, i ≤ j → t.reader.maps j = s.maps j
  trace : ∀ a, a ∈ t.trace ↔ Begun req s rsp i a

section walk

variable {req : Request} {s : State} {rsp : Response}

theorem cursor_succ {i : Nat} (hlo : inbufs req.sc ≤ i) :
    cursor req s rsp (i + 1) = cursor req s rsp i + (rsp.pra i).payloadLen := by
  unfold cursor
  rw [Nat.succ_sub hlo, span_succ, UInt64.ofNat_add, ← UInt64.add_assoc,
    Nat.add_sub_cancel' hlo, UInt64.ofNat_toNat]

theorem begun_succ {i : Nat} {a : Access} (hlo : inbufs req.sc ≤ i) :
    Begun req s rsp (i + 1) a ↔ Begun req s rsp i a ∨ a ∈ accesses req s rsp i := by
  constructor
  · rintro (rfl | ⟨j, hj, hlt, ha⟩)
    · exact Or.inl (Or.inl rfl)
    · rcases Nat.lt_succ_iff_lt_or_eq.mp hlt with hlt | rfl
      · exact Or.inl (Or.inr ⟨j, hj, hlt, ha⟩)
      · exact Or.inr ha
  · rintro ((rfl | ⟨j, hj, hlt, ha⟩) | ha)
    · exact Or.inl rfl
    · exact Or.inr ⟨j, hj, Nat.lt_succ_of_lt hlt, ha⟩
    · exact Or.inr ⟨i, hlo, Nat.lt_succ_self i, ha⟩

/-- A round moves the cursor and only lets the map of its own buffer go. -/
theorem reader_round (req : Request) (desc : Option (Nat → BufDesc)) (rsp : Response)
    (copyErr : Nat → Int) (i : Nat) (r : Reader) :
    (InvokeMessage.readBuffer req desc rsp copyErr i r).Holds
      (fun r' => r'.payload = r.payload + (rsp.pra i).payloadLen ∧
        ∀ j, j ≠ i → r'.maps j = r.maps j)
      (fun _ _ => copyErr i ≠ 0) := by
  unfold InvokeMessage.readBuffer
  dsimp only [Reader.copied]
  split
  · exact ⟨rfl, fun j hj => Function.update_of_ne hj _ _⟩
  · split
    · split_ifs with herr
      · exact herr
      · exact ⟨rfl, fun _ _ => rfl⟩
    · split_ifs with herr
      · exact herr
      · exact ⟨rfl, fun _ _ => rfl⟩

theorem readBuffer_walked (copyErr : Nat → Int) {i : Nat} {t : Tracer} (hlo : inbufs req.sc ≤ i)
    (h : Walked req s rsp i t) :
    (readBuffer req s.desc rsp copyErr i t).Holds (Walked req s rsp (i + 1))
      (fun _ u => copyErr i ≠ 0 ∧ ∀ a ∈ u.trace, Begun req s rsp (i + 1) a) := by
  have round := reader_round req s.desc rsp copyErr i t.reader
  have hmap := h.maps i (Nat.le_refl i)
  unfold readBuffer
  rw [hmap, h.payload]
  dsimp only
  cases hread : InvokeMessage.readBuffer req s.desc rsp copyErr i t.reader with
  | next r =>
    rw [hread] at round
    refine ⟨?_, fun j hj => ?_, fun a => ?_⟩
    · rw [round.1, h.payload, cursor_succ hlo]
    · rw [round.2 j (by omega), h.maps j (by omega)]
    · rw [begun_succ hlo, ← h.trace a, List.append_assoc, List.mem_append]
      rfl
  | bail err r =>
    rw [hread] at round
    refine ⟨round, fun a ha => (begun_succ hlo).mpr ?_⟩
    rcases List.mem_append.mp ha with ha | ha
    · exact Or.inl ((h.trace a).mp ha)
    · exact Or.inr (List.mem_append_left _ ha)

theorem begun_mono {i k : Nat} {a : Access} (hik : i ≤ k) (h : Begun req s rsp i a) :
    Begun req s rsp k a := by
  rcases h with rfl | ⟨j, hj, hlt, ha⟩
  · exact Or.inl rfl
  · exact Or.inr ⟨j, hj, Nat.lt_of_lt_of_le hlt hik, ha⟩

theorem loop_walked (copyErr : Nat → Int) {t : Tracer}
    (start : Walked req s rsp (inbufs req.sc) t) :
    (loop (readBuffer req s.desc rsp copyErr) (inbufs req.sc) (outbufs req.sc) t).Holds
      (Walked req s rsp (bufs req.sc))
      (fun _ u => (∃ i, copyErr i ≠ 0) ∧ ∀ a ∈ u.trace, Begun req s rsp (bufs req.sc) a) := by
  refine loop_holds (Walked req s rsp) start fun i u hlo hi hu => ?_
  refine holds_mono (readBuffer_walked copyErr hlo hu) (fun _ h => h) ?_
  rintro err v ⟨herr, htrace⟩
  exact ⟨⟨i, herr⟩, fun a ha => begun_mono hi (htrace a ha)⟩

/-- What a call accesses that succeeds in the back end and whose copies go through. -/
def Performed (req : Request) (s : State) (rsp : Response) (a : Access) : Prop :=
  Begun req s rsp (bufs req.sc) a ∨
    a ∈ fdlistAccesses rsp (praOff (total req.sc)) 0 mFdlist.toNat ∨
    req.crc = true ∧ a = .read (praOff (total req.sc) + 8 * mFdlist) (4 * mCrclist)

theorem readLists_trace (crcErr : Int) (t : Tracer) (a : Access) :
    a ∈ (readLists req rsp crcErr t).state.trace ↔ a ∈ t.trace ∨
      a ∈ fdlistAccesses rsp (praOff (total req.sc)) 0 mFdlist.toNat ∨
      req.crc = true ∧ a = .read (praOff (total req.sc) + 8 * mFdlist) (4 * mCrclist) := by
  unfold readLists
  split_ifs with hcrc herr <;> simp [Flow.state, hcrc]

/-- No other access is made, and none is left out unless a copy fails. -/
theorem putArgs_performed (copyErr : Nat → Int) (crcErr : Int) (hresult : rsp.result = 0) :
    (∀ a ∈ (putArgs req s rsp copyErr crcErr).state.trace, Performed req s rsp a) ∧
      ((∀ i, copyErr i = 0) → ∀ a, Performed req s rsp a →
        a ∈ (putArgs req s rsp copyErr crcErr).state.trace) := by
  have start : Walked req s rsp (inbufs req.sc)
      ⟨⟨s.maps, praOff (total req.sc) + sizeOfLists + s.outbufsOffset.toUInt64, []⟩,
        [.read 22 4]⟩ := by
    refine ⟨?_, fun _ _ => rfl, fun a => ?_⟩
    · simp [cursor, span]
    · constructor
      · exact fun ha => Or.inl (List.mem_singleton.mp ha)
      · rintro (rfl | ⟨j, hj, hlt, -⟩)
        · exact List.mem_singleton_self _
        · omega
  have walked := loop_walked copyErr start
  unfold putArgs
  dsimp only
  rw [if_neg (not_not.mpr hresult)]
  cases hloop : loop (readBuffer req s.desc rsp copyErr) (inbufs req.sc) (outbufs req.sc)
    ⟨⟨s.maps, praOff (total req.sc) + sizeOfLists + s.outbufsOffset.toUInt64, []⟩,
      [.read 22 4]⟩ with
  | bail err u =>
    rw [hloop] at walked
    obtain ⟨⟨i, herr⟩, htrace⟩ := walked
    exact ⟨fun a ha => Or.inl (htrace a ha), fun hcopy => absurd (hcopy i) herr⟩
  | next u =>
    rw [hloop] at walked
    have same : ∀ a, a ∈ (readLists req rsp crcErr u).state.trace ↔ Performed req s rsp a := by
      intro a
      rw [readLists_trace, walked.trace a]
      rfl
    exact ⟨fun a ha => (same a).mp ha, fun _ a ha => (same a).mpr ha⟩

end walk

/-- The buffer travels in the payload of the message. -/
def Inline (s : State) (i : Nat) : Prop := s.maps i = none ∧ internalBuf s.desc i = none

/-- The announced bytes of out-buffer `i`, if any, are in the receive buffer and fit in the
buffer of the caller; with crcs also the bytes that `(int)buf_len` announces. -/
structure PayloadFits (req : Request) (s : State) (rsp : Response) (i : Nat) : Prop where
  user : (rsp.pra i).bufLen ≤ (req.lpra i).len
  copy : (rsp.pra i).bufLen ≠ 0 →
    (cursor req s rsp i).toNat + (rsp.pra i).bufLen.toNat ≤ req.bufSize.toNat
  crc : req.crc = true → crcLen (rsp.pra i).bufLen ≠ 0 →
    (cursor req s rsp i).toNat + (crcLen (rsp.pra i).bufLen).toNat ≤ req.bufSize.toNat

/-- The fd list, up to its first zero, and the crc list, if wanted, are in the buffer. -/
structure ListsFit (req : Request) (rsp : Response) : Prop where
  fds : ∀ k, k < 16 → (∀ j, j < k → rsp.fdlist j ≠ 0) →
    46 + 40 * total req.sc + 8 * (k + 1) ≤ req.bufSize.toNat
  crcs : req.crc = true → 46 + 40 * total req.sc + 384 ≤ req.bufSize.toNat

def Readable (req : Request) (s : State) (rsp : Response) : Prop :=
  26 ≤ req.bufSize.toNat ∧ (rsp.result = 0 → ListsFit req rsp ∧
    ∀ i, inbufs req.sc ≤ i → i < bufs req.sc → Inline s i → PayloadFits req s rsp i)

section allowed

variable {req : Request} {s : State} {rsp : Response}

theorem field_toNat {i : Nat} (hi : i ≤ 540) {d : UInt64} (hd : d.toNat < 2 ^ 32) :
    (praOff i + d).toNat = 46 + 40 * i + d.toNat := by
  rw [UInt64.toNat_add, praOff_toNat hi]
  omega

theorem allowed_field {i : Nat} (hi : i ≤ 540) {d n : UInt64} (hd : d.toNat < 2 ^ 32)
    (hn : n ≠ 0) : (Access.read (praOff i + d) n).Allowed req ↔
      46 + 40 * i + d.toNat + n.toNat ≤ req.bufSize.toNat := by
  simp [field_toNat hi hd, hn]

theorem accesses_allowed {i : Nat} (hi : i < 540) :
    (∀ a ∈ accesses req s rsp i, a.Allowed req) ↔
      46 + 40 * (i + 1) ≤ req.bufSize.toNat ∧ (Inline s i → PayloadFits req s rsp i) := by
  have field : ∀ d n : UInt64, d.toNat < 2 ^ 32 → n ≠ 0 →
      ((Access.read (praOff i + d) n).Allowed req ↔ _) :=
    fun d n => allowed_field (Nat.le_of_lt hi)
  have hcrc := field 4 4 (by decide) (by decide)
  have hbuf := field 16 8 (by decide) (by decide)
  have hpay := field 32 8 (by decide) (by decide)
  have h4 : (4 : UInt64).toNat = 4 := rfl
  have h8 : (8 : UInt64).toNat = 8 := rfl
  have h16 : (16 : UInt64).toNat = 16 := rfl
  have h32 : (32 : UInt64).toNat = 32 := rfl
  unfold accesses bufferAccesses Inline
  cases hmap : s.maps i with
  | some map =>
    simp only [List.nil_append, List.forall_mem_singleton, hpay, h32, h8]
    exact ⟨fun h => ⟨by omega, fun hinline => by cases hinline.1⟩, fun h => by omega⟩
  | none =>
    cases hdesc : internalBuf s.desc i with
    | some buf =>
      simp only [List.forall_mem_append, List.forall_mem_singleton, allowed_write, hpay, h32, h8]
      exact ⟨fun h => ⟨by omega, fun hinline => by cases hinline.2⟩,
        fun h => ⟨UInt64.le_refl _, by omega⟩⟩
    | none =>
      have hcrcs : (∀ a ∈ (if req.crc then [Access.read (cursor req s rsp i)
            (crcLen (rsp.pra i).bufLen), .read (praOff i + 4) 4] else []), a.Allowed req) ↔
          (req.crc = true → (crcLen (rsp.pra i).bufLen ≠ 0 →
            (cursor req s rsp i).toNat + (crcLen (rsp.pra i).bufLen).toNat ≤
              req.bufSize.toNat) ∧ 46 + 40 * i + 4 + 4 ≤ req.bufSize.toNat) := by
        split_ifs with h
        · simp only [List.forall_mem_cons, hcrc, allowed_read, h4, h, true_imp_iff]
          simp
        · simp [h]
      simp only [List.forall_mem_append, List.forall_mem_cons, hcrcs, hpay, hbuf, allowed_read,
        allowed_write, h32, h16, h8]
      constructor
      · rintro ⟨⟨⟨-, crc⟩, copy, user, -⟩, hend, -⟩
        exact ⟨by omega, fun _ => ⟨user, copy, fun h => (crc h).1⟩⟩
      · rintro ⟨hend, fits⟩
        obtain ⟨user, copy, crc⟩ := fits ⟨trivial, trivial⟩
        exact ⟨⟨⟨by omega, fun h => ⟨crc h, by omega⟩⟩, copy, user, fun a ha => by cases ha⟩,
          by omega, fun a ha => by cases ha⟩

theorem fdlist_allowed {lists : UInt64} (k n : Nat) :
    (∀ a ∈ fdlistAccesses rsp lists k n, a.Allowed req) ↔
      ∀ m, k ≤ m → m < k + n → (∀ j, k ≤ j → j < m → rsp.fdlist j ≠ 0) →
        (Access.read (lists + 8 * UInt64.ofNat m) 8).Allowed req := by
  induction n generalizing k with
  | zero => exact ⟨fun _ m hk hm => by omega, fun _ a ha => by cases ha⟩
  | succ n ih =>
    unfold fdlistAccesses
    constructor
    · intro h m hk hm hnonzero
      rcases Nat.eq_or_lt_of_le hk with rfl | hlt
      · exact h _ List.mem_cons_self
      · rw [if_neg (hnonzero k (Nat.le_refl k) hlt)] at h
        exact (ih (k + 1)).mp (fun a ha => h a (List.mem_cons_of_mem _ ha)) m hlt (by omega)
          fun j hj => hnonzero j (by omega)
    · intro h a ha
      rcases List.mem_cons.mp ha with rfl | ha
      · exact h k (Nat.le_refl k) (by omega) fun j hj hlt => by omega
      split_ifs at ha with hzero
      · cases ha
      · refine (ih (k + 1)).mpr (fun m hk hm hnonzero => h m (by omega) (by omega) ?_) a ha
        intro j hj hlt
        rcases Nat.eq_or_lt_of_le hj with rfl | hj
        · exact hzero
        · exact hnonzero j hj hlt

theorem fdlist_fits {k : Nat} (hk : k < 16) :
    (Access.read (praOff (total req.sc) + 8 * UInt64.ofNat k) 8).Allowed req ↔
      46 + 40 * total req.sc + 8 * (k + 1) ≤ req.bufSize.toNat := by
  have hoff : (8 * UInt64.ofNat k).toNat = 8 * k := by
    have h8 : (8 : UInt64).toNat = 8 := rfl
    rw [UInt64.toNat_mul, UInt64.toNat_ofNat', h8]
    omega
  have h8 : (8 : UInt64).toNat = 8 := rfl
  rw [allowed_field (total_le req.sc) (by omega) (by decide), hoff, h8]
  omega

theorem crclist_fits :
    (Access.read (praOff (total req.sc) + 8 * mFdlist) (4 * mCrclist)).Allowed req ↔
      46 + 40 * total req.sc + 384 ≤ req.bufSize.toNat := by
  have hoff : (8 * mFdlist).toNat = 128 := by decide
  have hlen : (4 * mCrclist).toNat = 256 := by decide
  rw [allowed_field (total_le req.sc) (by omega) (by decide), hoff, hlen]

/-- All the accesses of a call that succeeds in the back end. -/
theorem performed_allowed : (∀ a, Performed req s rsp a → a.Allowed req) ↔
    26 ≤ req.bufSize.toNat ∧ ListsFit req rsp ∧
      ∀ i, inbufs req.sc ≤ i → i < bufs req.sc → Inline s i → PayloadFits req s rsp i := by
  have hmax : ∀ {i}, i < bufs req.sc → i < 540 ∧ i < total req.sc := fun {i} hi => by
    have := total_le req.sc
    simp only [total] at this ⊢
    omega
  have hfdlist : mFdlist.toNat = 16 := rfl
  constructor
  · intro h
    have hheader := h (.read 22 4) (Or.inl (Or.inl rfl))
    refine ⟨hheader (by decide), ⟨fun k hk hnonzero => ?_, fun hcrc => ?_⟩, fun i hlo hi => ?_⟩
    · have hfds := (fdlist_allowed 0 mFdlist.toNat).mp fun a ha => h a (Or.inr (Or.inl ha))
      exact (fdlist_fits hk).mp (hfds k (Nat.zero_le k) (by omega) fun j _ hj => hnonzero j hj)
    · exact crclist_fits.mp (h _ (Or.inr (Or.inr ⟨hcrc, rfl⟩)))
    · exact ((accesses_allowed (hmax hi).1).mp fun a ha =>
        h a (Or.inl (Or.inr ⟨i, hlo, hi, ha⟩))).2
  · rintro ⟨hheader, lists, payloads⟩ a ((rfl | ⟨i, hlo, hi, ha⟩) | ha | ⟨hcrc, rfl⟩)
    · exact fun _ => hheader
    · have hfirst := lists.fds 0 (by decide) fun j hj => by omega
      have := (hmax hi).2
      exact (accesses_allowed (hmax hi).1).mpr ⟨by omega, payloads i hlo hi⟩ a ha
    · refine (fdlist_allowed 0 mFdlist.toNat).mpr (fun m _ hm hnonzero => ?_) a ha
      have hm : m < 16 := by omega
      exact (fdlist_fits hm).mpr (lists.fds m hm fun j hj => hnonzero j (Nat.zero_le j) hj)
    · exact crclist_fits.mpr (lists.crcs hcrc)

end allowed

/-- Whatever the copies to the caller do, `put_args` reads inside the receive buffer and
writes no more than the caller has room for, exactly if the response is readable. -/
theorem accesses_allowed_iff (req : Request) (s : State) (rsp : Response) :
    (∀ copyErr crcErr, ∀ a ∈ (putArgs req s rsp copyErr crcErr).state.trace, a.Allowed req) ↔
      Readable req s rsp := by
  by_cases hresult : rsp.result = 0
  · have every : (∀ copyErr crcErr, ∀ a ∈ (putArgs req s rsp copyErr crcErr).state.trace,
        a.Allowed req) ↔ ∀ a, Performed req s rsp a → a.Allowed req := by
      constructor
      · exact fun h a ha => h (fun _ => 0) 0 a
          ((putArgs_performed (fun _ => 0) 0 hresult).2 (fun _ => rfl) a ha)
      · exact fun h copyErr crcErr a ha => h a ((putArgs_performed copyErr crcErr hresult).1 a ha)
    rw [every, performed_allowed]
    exact ⟨fun ⟨hheader, rest⟩ => ⟨hheader, fun _ => rest⟩,
      fun ⟨hheader, rest⟩ => ⟨hheader, rest hresult⟩⟩
  · have htrace : ∀ copyErr crcErr,
        (putArgs req s rsp copyErr crcErr).state.trace = [.read 22 4] := fun copyErr crcErr => by
      unfold putArgs
      rw [if_pos hresult]
      rfl
    constructor
    · intro h
      have hmem : Access.read 22 4 ∈ (putArgs req s rsp (fun _ => 0) 0).state.trace := by
        rw [htrace]
        exact List.mem_singleton_self _
      exact ⟨h _ _ _ hmem (by decide), fun hzero => absurd hzero hresult⟩
    · intro readable copyErr crcErr a ha
      rw [htrace] at ha
      obtain rfl := List.mem_singleton.mp ha
      exact fun _ => readable.1

/-- One out-buffer of four bytes. -/
def smallRequest : Request where
  sc := 0x100
  handle := 0
  seqNum := 0
  lpra := fun _ => ⟨0x10000, 4⟩
  fds := none
  attrs := fun _ => 0
  crc := false
  tgid := 100
  pid := 100
  sessionid := false
  cid := 0
  bufSize := 0x20000
  keepMap := 8
  mmap := fun _ => ⟨-1, 0, 0, 0, 0, 0, fun _ => (0, 0)⟩
  staging := fun _ => ⟨0, 0, 0, 0, fun _ => (0, 0)⟩

/-- A megabyte is announced for it. -/
def overlongResponse : Response := ⟨0, fun _ => ⟨0, 0, 0x10000, 0x100000, 0, 4⟩, fun _ => 0⟩

theorem overlong_response_copied : ∃ s,
    getArgs smallRequest calmOutcomes (fun _ => ⟨0, 0, 0, 0, 0, 0⟩) = .next s ∧
    ∃ off, .read off 0x100000 ∈
        (putArgs smallRequest s overlongResponse (fun _ => 0) 0).state.trace ∧
      ¬ (Access.read off 0x100000).Allowed smallRequest ∧
      .write 0 0x100000 ∈ (putArgs smallRequest s overlongResponse (fun _ => 0) 0).state.trace ∧
      ¬ (Access.write 0 0x100000).Allowed smallRequest :=
  ⟨_, rfl, 570, by decide, by decide, by decide, by decide⟩

end ResponseReads
