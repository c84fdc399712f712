import PlatformKernel.InvokeBounds

/-!
# Agreement of `get_args` and `put_args` on the layout

The lengths of the records are derived four times: by the two sizing passes, the
writing pass and the reading pass. Below two gigabytes no sum wraps, the records
tile the payload area up to the announced length, and `put_args`, which starts
from its own 32-bit accumulator, finds each out-buffer at the start of its record.
-/

namespace InvokeDecoding

open CountedLoops InvokeMessage InvokeLayout InvokeBounds

/-- Length of an argument together with its mapping records. -/
def argBytes (req : Request) (i : Nat) : Nat :=
  inlineLen req i +
    if oversize req && stageable req i then mapRecord (req.staging i).sgt else 0

theorem recordLen_le_argBytes (req : Request) (i : Nat) : recordLen req i ≤ argBytes req i := by
  simp only [recordLen, stagedLen, argBytes, Bool.and_eq_true]
  split_ifs with hover hstage hboth hboth
  · omega
  · exact False.elim (hboth ⟨hover, hstage⟩)
  · exact False.elim (hstage hboth.2)
  · omega
  · exact False.elim (hover (by assumption : _ ∧ _).1)
  · omega

section Encoding

variable {req : Request}

theorem recordStart_lt (hsmall : span (argBytes req) 0 (total req.sc) < 2 ^ 31) {i : Nat}
    (hi : i ≤ total req.sc) : recordStart req i < 2 ^ 32 := by
  have htotal := total_le req.sc
  have hlen : span (recordLen req) 0 i ≤ span (argBytes req) 0 (total req.sc) :=
    Nat.le_trans (span_mono fun j _ _ => recordLen_le_argBytes req j) (span_le_of_le hi)
  simp only [recordStart, metaBytes]
  omega

/-- The message after the arguments below `i`. -/
structure Tiled (req : Request) (i : Nat) (s : State) : Prop where
  starts : ∀ j, j < i → s.starts j = UInt64.ofNat (recordStart req j)
  announced : ∀ j, j < i → Described req j → Announces req j (recordLen req j) s
  hdrLen : (⟨16, .u32 (UInt64.ofNat (recordStart req (total req.sc))).toUInt32⟩ : Store) ∈ s.stores
  stores : ∀ st ∈ s.stores, Within 0 (metaBytes req.sc) st ∨
    ∃ j, j < i ∧ Within (recordStart req j) (recordStart req (j + 1)) st

theorem tiled_next (hsmall : span (argBytes req) 0 (total req.sc) < 2 ^ 31) {out : Outcomes}
    {i : Nat} {s t : State} (hi : i < total req.sc) (writing : Writing req i s) (h : Tiled req i s)
    (round : Round req out i s t) : Tiled req (i + 1) t := by
  obtain ⟨announces, wrote⟩ := round
  have hstores : t.stores = s.stores ++ _ := wrote.stores
  have hlt := recordStart_lt hsmall (Nat.le_of_lt hi)
  have hnext := recordStart_lt hsmall (Nat.succ_le_of_lt hi)
  have hpayload : s.payload = UInt64.ofNat (recordStart req i) := by
    rw [writing.payload, payloadAt_eq (by omega) (by omega)]
  have hcursor : s.payload.toNat = recordStart req i := by
    rw [hpayload, UInt64.toNat_ofNat', Nat.mod_eq_of_lt (by omega)]
  constructor
  · intro j hj
    rw [wrote.starts]
    by_cases hji : j = i
    · subst hji
      simp [State.mark, hpayload]
    · simpa [State.mark, hji] using h.starts j (by omega)
  · intro j hj hdesc
    by_cases hji : j = i
    · subst hji
      exact announces hdesc
    · have same : t.pra j = s.pra j := wrote.others j hji
      rw [Announces, same]
      exact h.announced j (by omega) hdesc
  · rw [hstores]
    exact List.mem_append_left _ h.hdrLen
  · intro st hst
    rw [hstores] at hst
    rcases List.mem_append.mp hst with hold | hnew
    · rcases h.stores st hold with hmeta | ⟨j, hj, hin⟩
      · exact Or.inl hmeta
      · exact Or.inr ⟨j, by omega, hin⟩
    · rw [recordStart_succ] at hnext
      rcases mem_argStores hi hnew with hentry | hrecord
      · have hend : 46 + 40 * (i + 1) ≤ metaBytes req.sc := by simp only [metaBytes]; omega
        exact Or.inl ⟨Nat.zero_le _, Nat.le_trans hentry.2 hend⟩
      · have hin := record_within (by omega) st hrecord
        rw [hcursor, ← recordStart_succ] at hin
        exact Or.inr ⟨i, by omega, hin⟩

theorem getArgs_tiled (out : Outcomes) (pra : Nat → PraEntry) {s : State}
    (hsmall : span (argBytes req) 0 (total req.sc) < 2 ^ 31)
    (haccept : getArgs req out pra = .next s) :
    Writing req (total req.sc) s ∧ Tiled req (total req.sc) s := by
  have spec : (getArgs req out pra).Holds
      (fun t => ¬ Refused req ∧ Writing req (total req.sc) t ∧ Tiled req (total req.sc) t) _ :=
    getArgs_holds (Tiled req) (fun _ => True)
      (fun t msgid _ hstores => by
        refine ⟨fun j hj => by omega, fun j hj => by omega, ?_, fun st hst => ?_⟩
        · simp [hstores, headerStores, Hdr.stores, hdr]
        · exact Or.inl (header_within st (hstores ▸ hst)))
      (fun i s t hi writing h round => tiled_next hsmall hi writing h round)
      (fun _ _ _ _ _ _ _ => trivial)
  rw [haccept] at spec
  exact spec.2

end Encoding

/-- The response repeats the lengths of the request's descriptors. -/
def Echoes (req : Request) (s : State) (rsp : Response) : Prop :=
  ∀ i, i < bufs req.sc → (rsp.pra i).payloadLen = (s.pra i).payloadLen ∧
    (rsp.pra i).bufLen = (s.pra i).bufLen

/-- A copy from the payload takes out-buffer `i` from the start of its record. -/
def ReadsRecord (req : Request) : Effect → Prop
  | .copyPayload i pv off n => inbufs req.sc ≤ i ∧ i < bufs req.sc ∧ pv = (req.lpra i).pv ∧
      off = UInt64.ofNat (recordStart req i) ∧ n = (req.lpra i).len
  | _ => True

/-- The out-buffer that travels in the payload itself is copied to the user. -/
def CopiedOut (req : Request) (i : Nat) (effects : List Effect) : Prop :=
  carriesMapping req i = false →
    .copyPayload i (req.lpra i).pv (UInt64.ofNat (recordStart req i)) (req.lpra i).len ∈ effects

structure Reading (req : Request) (i : Nat) (r : Reader) : Prop where
  maps : ∀ j, i ≤ j → j < bufs req.sc →
    r.maps j = if mapped req j then some (req.mmap j) else none
  payload : r.payload = UInt64.ofNat (recordStart req i)
  reads : ∀ e ∈ r.effects, ReadsRecord req e
  copied : ∀ j, inbufs req.sc ≤ j → j < i → CopiedOut req j r.effects

section Decoding

variable {req : Request} {s : State} {rsp : Response}

theorem reading_next {i : Nat} {r t : Reader} {e : Effect} (h : Reading req i r)
    (hlen : (rsp.pra i).payloadLen = UInt64.ofNat (recordLen req i))
    (hmaps : ∀ j, i < j → t.maps j = r.maps j)
    (hpayload : t.payload = r.payload + (rsp.pra i).payloadLen)
    (heffects : t.effects = r.effects ++ [e]) (hreads : ReadsRecord req e)
    (hcopied : CopiedOut req i t.effects) : Reading req (i + 1) t := by
  constructor
  · intro j hij hj
    rw [hmaps j hij]
    exact h.maps j (by omega) hj
  · rw [hpayload, h.payload, hlen, ← UInt64.ofNat_add, recordStart_succ]
  · intro e' he'
    rw [heffects] at he'
    rcases List.mem_append.mp he' with hold | hnew
    · exact h.reads e' hold
    · exact List.mem_singleton.mp hnew ▸ hreads
  · intro j hlo hj
    by_cases hji : j = i
    · exact hji ▸ hcopied
    · intro hcarries
      rw [heffects]
      exact List.mem_append_left _ (h.copied j hlo (by omega) hcarries)

theorem readBuffer_reading (copyErr : Nat → Int) {i : Nat} {r : Reader} (hlo : inbufs req.sc ≤ i)
    (hi : i < bufs req.sc) (writing : Writing req (total req.sc) s)
    (tiled : Tiled req (total req.sc) s) (echoes : Echoes req s rsp) (h : Reading req i r) :
    (readBuffer req s.desc rsp copyErr i r).Holds (Reading req (i + 1))
      (fun _ t => (∃ j, copyErr j ≠ 0) ∧ ∀ e ∈ t.effects, ReadsRecord req e) := by
  have htotal : i < total req.sc := lt_total hi
  have announces := tiled.announced i htotal (Or.inl hi)
  have hlen := (echoes i hi).1.trans announces.1
  have hbuf := (echoes i hi).2.trans announces.2
  have hmap := h.maps i (Nat.le_refl i) hi
  have hdesc := writing.descs i hi
  have mappingSkipped : carriesMapping req i = true → ∀ effects, CopiedOut req i effects :=
    fun hcarries effects hnot => by rw [hcarries] at hnot; cases hnot
  have failed : ∀ e, ReadsRecord req e → ∀ e' ∈ (r.emit e).effects, ReadsRecord req e' := by
    intro e he e' he'
    rcases List.mem_append.mp he' with hold | hnew
    · exact h.reads e' hold
    · exact List.mem_singleton.mp hnew ▸ he
  unfold readBuffer
  dsimp only
  by_cases hmapped : mapped req i = true
  · rw [hmap, if_pos hmapped]
    refine reading_next h hlen (fun j hj => ?_) rfl rfl trivial
      (mappingSkipped (by simp [carriesMapping, hmapped]) _)
    exact Function.update_of_ne (by omega) _ _
  · rw [hmap, if_neg hmapped, hdesc]
    by_cases hstage : oversize req && stageable req i
    · rw [if_pos hstage]
      dsimp only [Reader.copied]
      split_ifs with herr
      · exact ⟨⟨i, herr⟩, failed _ trivial⟩
      · exact reading_next h hlen (fun _ _ => rfl) rfl rfl trivial
          (mappingSkipped (by simp [carriesMapping, hstage]) _)
    · rw [if_neg hstage]
      have reads : ReadsRecord req
          (.copyPayload i (req.lpra i).pv r.payload (rsp.pra i).bufLen) :=
        ⟨hlo, hi, rfl, h.payload, hbuf⟩
      dsimp only [Reader.copied]
      split_ifs with herr
      · exact ⟨⟨i, herr⟩, failed _ reads⟩
      · refine reading_next h hlen (fun _ _ => rfl) rfl rfl reads fun _ => ?_
        rw [← h.payload, ← hbuf]
        exact List.mem_append_right _ (List.mem_singleton.mpr rfl)

/-- The fd list adds effects that are no copies from the payload. -/
theorem readFdlist_effects (req : Request) (rsp : Response) (k n : Nat) (r : Reader) :
    ∃ more, (readFdlist rsp k n r).effects = r.effects ++ more ∧ ∀ e ∈ more, ReadsRecord req e := by
  induction n generalizing k r with
  | zero => exact ⟨[], by simp [readFdlist], fun e he => by cases he⟩
  | succ n ih =>
    unfold readFdlist
    split_ifs with hzero
    · exact ⟨[], by simp, fun e he => by cases he⟩
    · obtain ⟨more, heq, hreads⟩ := ih (k + 1) (r.emit (.releaseFd (rsp.fdlist k).toUInt32.toInt32))
      refine ⟨.releaseFd (rsp.fdlist k).toUInt32.toInt32 :: more, ?_, ?_⟩
      · rw [heq]
        simp [Reader.emit]
      · intro e he
        rcases List.mem_cons.mp he with rfl | he
        · trivial
        · exact hreads e he

/-- Every copy from the payload is at the start of a record, and none is missing
unless a copy to the user failed. -/
def ReadsAll (req : Request) (copyErr : Nat → Int) (r : Reader) : Prop :=
  (∀ e ∈ r.effects, ReadsRecord req e) ∧
    ((∀ i, copyErr i = 0) → ∀ i, inbufs req.sc ≤ i → i < bufs req.sc → CopiedOut req i r.effects)

theorem readsAll_append {copyErr : Nat → Int} {r t : Reader} {more : List Effect}
    (h : ReadsAll req copyErr r) (heffects : t.effects = r.effects ++ more)
    (hmore : ∀ e ∈ more, ReadsRecord req e) :
    ReadsAll req copyErr t := by
  constructor
  · intro e he
    rw [heffects] at he
    exact (List.mem_append.mp he).elim (h.1 e) (hmore e)
  · intro hcopy i hlo hi hcarries
    rw [heffects]
    exact List.mem_append_left _ (h.2 hcopy i hlo hi hcarries)

/-- `put_args` starts from the 32-bit accumulator, at the record of the first out-buffer. -/
theorem outbufs_cursor (writing : Writing req (total req.sc) s)
    (hlt : recordStart req (inbufs req.sc) < 2 ^ 32) :
    praOff (total req.sc) + sizeOfLists + s.outbufsOffset.toUInt64 =
      UInt64.ofNat (recordStart req (inbufs req.sc)) := by
  have hspan : span (recordLen req) 0 (inbufs req.sc) < 2 ^ 32 :=
    Nat.lt_of_le_of_lt (Nat.le_add_left _ _) hlt
  have hoffset : s.outbufsOffset.toUInt64 =
      UInt64.ofNat (span (recordLen req) 0 (inbufs req.sc)) := by
    apply UInt64.toNat_inj.mp
    rw [writing.offset, UInt32.toNat_toUInt64, UInt32.toNat_ofNat', UInt64.toNat_ofNat']
    omega
  have hmeta : praOff (total req.sc) + sizeOfLists = metalen req.sc := rfl
  rw [hmeta, hoffset, metalen_eq, ← UInt64.ofNat_add]
  rfl

/-- `put_args` on a successful response that echoes the lengths. -/
theorem putArgs_reads (copyErr : Nat → Int) (crcErr : Int) (writing : Writing req (total req.sc) s)
    (tiled : Tiled req (total req.sc) s) (hlt : recordStart req (inbufs req.sc) < 2 ^ 32)
    (echoes : Echoes req s rsp) (hresult : rsp.result = 0) :
    ReadsAll req copyErr (putArgs req s rsp copyErr crcErr).state := by
  have hbufs : inbufs req.sc + outbufs req.sc = bufs req.sc := rfl
  unfold putArgs
  dsimp only
  rw [if_neg (not_not.mpr hresult), outbufs_cursor writing hlt]
  refine holds_state (holds_andThen (ReadsAll req copyErr) ?_ ?_)
  · have start : Reading req (inbufs req.sc)
        ⟨s.maps, UInt64.ofNat (recordStart req (inbufs req.sc)), []⟩ := by
      refine ⟨fun j _ hj => ?_, rfl, fun e he => ?_, fun j _ _ => by omega⟩
      swap
      · cases he
      have htotal : j < total req.sc := lt_total hj
      simp [writing.slots j, htotal]
    have rounds := loop_holds (Reading req) (n := outbufs req.sc) start fun i r hlo hi hr =>
      readBuffer_reading copyErr hlo hi writing tiled echoes hr
    refine holds_mono rounds (fun r hr => ⟨hr.reads, fun _ i hlo hi => hr.copied i hlo hi⟩) ?_
    rintro err r ⟨⟨j, hj⟩, hreads⟩
    exact ⟨hreads, fun hcopy => False.elim (hj (hcopy j))⟩
  · intro r hr
    obtain ⟨more, heq, hmore⟩ := readFdlist_effects req rsp 0 mFdlist.toNat r
    have hfds := readsAll_append hr heq hmore
    have hcrc : ∀ off n, ReadsAll req copyErr
        ((readFdlist rsp 0 mFdlist.toNat r).emit (.copyCrclist off n)) := fun off n =>
      readsAll_append hfds rfl fun e he => by
        obtain rfl := List.mem_singleton.mp he
        trivial
    unfold Reader.copied
    split_ifs
    · exact hcrc _ _
    · exact hcrc _ _
    · exact hfds

end Decoding

/-- What both sides agree on: the records tile the message from the metadata to the
announced length, and every out-buffer is read where its record starts. -/
structure Agreement (req : Request) (s : State) : Prop where
  consecutive : ∀ i, i < total req.sc →
    (s.starts i).toNat = metaBytes req.sc + span (recordLen req) 0 i
  disjoint : ∀ i j, i < j → j < total req.sc →
    (s.starts i).toNat + recordLen req i ≤ (s.starts j).toNat
  announced : ∀ i, i < total req.sc → Described req i →
    (s.pra i).payloadLen.toNat = recordLen req i ∧ (s.pra i).bufLen = (req.lpra i).len
  undescribed : ∀ i, i < total req.sc → ¬ Described req i → recordLen req i = 0
  confined : ∀ st ∈ s.stores, Within 0 (metaBytes req.sc) st ∨
    ∃ i, i < total req.sc ∧ Within (s.starts i).toNat ((s.starts i).toNat + recordLen req i) st
  hdrLen : ∃ n : UInt32, (⟨16, .u32 n⟩ : Store) ∈ s.stores ∧
    n.toNat = metaBytes req.sc + span (recordLen req) 0 (total req.sc)
  reads : ∀ rsp copyErr crcErr, Echoes req s rsp → rsp.result = 0 →
    ReadsAll req copyErr (putArgs req s rsp copyErr crcErr).state

theorem layout_agreement (req : Request) (out : Outcomes) (pra : Nat → PraEntry) (s : State)
    (hsmall : span (argBytes req) 0 (total req.sc) < 2 ^ 31)
    (haccept : getArgs req out pra = .next s) : Agreement req s := by
  obtain ⟨writing, tiled⟩ := getArgs_tiled out pra hsmall haccept
  have hlt := fun {i} (hi : i ≤ total req.sc) => recordStart_lt hsmall hi
  have hstart : ∀ i, i < total req.sc → (s.starts i).toNat = recordStart req i := by
    intro i hi
    have := hlt (Nat.le_of_lt hi)
    rw [tiled.starts i hi, UInt64.toNat_ofNat', Nat.mod_eq_of_lt (by omega)]
  constructor
  · exact hstart
  · intro i j hij hj
    rw [hstart i (by omega), hstart j hj, ← recordStart_succ]
    exact recordStart_mono req hij
  · intro i hi hdesc
    obtain ⟨hpay, hbuf⟩ := tiled.announced i hi hdesc
    have hnext := hlt (Nat.succ_le_of_lt hi)
    rw [recordStart_succ] at hnext
    exact ⟨by rw [hpay, UInt64.toNat_ofNat', Nat.mod_eq_of_lt (by omega)], hbuf⟩
  · intro i _ hnot
    have hmapped : mapped req i = false := by
      cases hm : mapped req i with
      | false => rfl
      | true => exact False.elim (hnot (Or.inr hm))
    exact recordLen_handle (Nat.not_lt.mp fun h => hnot (Or.inl h)) hmapped
  · intro st hst
    rcases tiled.stores st hst with hmeta | ⟨i, hi, hin⟩
    · exact Or.inl hmeta
    · rw [recordStart_succ, ← hstart i hi] at hin
      exact Or.inr ⟨i, hi, hin⟩
  · refine ⟨_, tiled.hdrLen, ?_⟩
    have := hlt (Nat.le_refl (total req.sc))
    rw [UInt64.toUInt32_ofNat', UInt32.toNat_ofNat', Nat.mod_eq_of_lt this]
    rfl
  · intro rsp copyErr crcErr echoes hresult
    exact putArgs_reads copyErr crcErr writing tiled
      (hlt (by simp only [total, bufs]; omega)) echoes hresult

/-- An in-buffer of five bytes, an out-buffer that has to be staged, a mapped
out-buffer and a DMA handle. -/
def mixedRequest : Request where
  sc := 0x10210
  handle := 4
  seqNum := 1
  lpra := fun i => if i = 0 then ⟨0x8000, 5⟩ else if i = 1 then ⟨0x9000, 5000⟩ else ⟨0x1000, 100⟩
  fds := some fun i => if i < 2 then -1 else 7
  attrs := fun _ => 0
  crc := true
  tgid := 100
  pid := 100
  sessionid := false
  cid := 0
  bufSize := 0x1000
  keepMap := 8
  mmap := fun _ => ⟨7, 1, 0x1000, 0x1000, 0x10000, 1, fun _ => (0x100000, 0x10000)⟩
  staging := fun _ => ⟨0, 0x2000, 0, 2, fun k => (UInt64.ofNat k * 0x1000, 0x1000)⟩

def mixedMessage : State :=
  (getArgs mixedRequest calmOutcomes fun _ => ⟨0, 0, 0, 0, 0, 0⟩).state

theorem mixedRequest_agrees : Agreement mixedRequest mixedMessage :=
  layout_agreement mixedRequest calmOutcomes (fun _ => ⟨0, 0, 0, 0, 0, 0⟩) mixedMessage
    (by decide) rfl

end InvokeDecoding
