import PlatformKernel.TransmitOwnership

/-!
# Transmit buffers come back through the queue only

`virt_free_msg` frees the message and forgets its transmit buffer: a buffer is
reusable once the device has used it, and never if it was not sent. So the buffers
are all accounted for as long as every message that got one is also sent.
-/

namespace TransmitBuffers

open GuardedRuns MessageTransport TransmitOwnership

def HeldUnsent (s : State) (b : TxId) : Prop := ∃ uid, Holds s uid b

/-- Not handed out yet, in the send queue, or held by a message that is still to be sent. -/
def TxAccounted (s : State) (b : TxId) : Prop :=
  s.lastSbuf ≤ b ∨ b ∈ s.svqQueued.map Prod.fst ∨ b ∈ s.svqUsed ∨ HeldUnsent s b

/-- A message has its buffer from `built` on, and is sent before it ends. -/
structure SentFirst (m : Msg) : Prop where
  claimed : m.stage = .claimed → m.txbuf = none ∧ m.sent = false
  outstanding : m.stage.outstanding = true → m.sent = true
  ending : m.stage.ending = true → m.sent = true ∨ m.txbuf = none

structure TxKept (s : State) : Prop where
  known : ∀ uid m, s.msgs uid = some m → uid < s.nextUid
  sentFirst : ∀ uid m, s.msgs uid = some m → SentFirst m
  cover : ∀ b, b < s.numBufs → TxAccounted s b

/-- Neither the building nor the sending of a message fails. -/
def NoFailure (_ : State) (a : Action) : Prop :=
  a.fails = false

theorem probed_txKept (numBufs : Nat) : TxKept (State.probed numBufs) where
  known := fun uid m hm => by cases hm
  sentFirst := fun uid m hm => by cases hm
  cover := fun b _ => Or.inl (Nat.zero_le b)

theorem heldUnsent_self {s : State} {uid : Uid} {k : Msg} {b : TxId} (htx : k.txbuf = some b)
    (hsent : k.sent = false) : HeldUnsent (s.setMsg uid (some k)) b :=
  ⟨uid, holds_setMsg.mpr (Or.inl ⟨rfl, htx, hsent⟩)⟩

theorem heldUnsent_setMsg {s : State} {uid : Uid} {m k : Msg} (hm : s.msgs uid = some m)
    (htx : k.txbuf = m.txbuf) (hsent : k.sent = m.sent) {b : TxId} (h : HeldUnsent s b) :
    HeldUnsent (s.setMsg uid (some k)) b := by
  obtain ⟨v, holds⟩ := h
  by_cases hv : v = uid
  · subst hv
    obtain ⟨n, hn, hb, hunsent⟩ := holds
    rw [hm] at hn
    obtain rfl := Option.some.inj hn
    exact heldUnsent_self (htx.trans hb) (hsent.trans hunsent)
  · exact ⟨v, holds_setMsg.mpr (Or.inr ⟨hv, holds⟩)⟩

/-- The message with no buffer to account for may change in any way. -/
theorem heldUnsent_other {s t : State} {uid : Uid} {m : Msg} {b : TxId}
    (hm : s.msgs uid = some m) (hfree : m.sent = true ∨ m.txbuf = none)
    (hmsgs : ∀ v, v ≠ uid → t.msgs v = s.msgs v) (h : HeldUnsent s b) : HeldUnsent t b := by
  obtain ⟨v, n, hn, hb, hunsent⟩ := h
  have hv : v ≠ uid := by
    rintro rfl
    rw [hm] at hn
    obtain rfl := Option.some.inj hn
    rcases hfree with hsent | hnone
    · rw [hsent] at hunsent
      cases hunsent
    · rw [hnone] at hb
      cases hb
  exact ⟨v, n, (hmsgs v hv).trans hn, hb, hunsent⟩

theorem TxAccounted.mono {s t : State} {b : TxId} (h : TxAccounted s b)
    (hheld : HeldUnsent s b → HeldUnsent t b) (hlast : t.lastSbuf = s.lastSbuf)
    (hqueued : t.svqQueued = s.svqQueued) (hused : t.svqUsed = s.svqUsed) :
    TxAccounted t b := by
  unfold TxAccounted at h ⊢
  rw [hlast, hqueued, hused]
  exact h.imp_right (Or.imp_right (Or.imp_right hheld))

theorem txKept_setMsg {s : State} {uid : Uid} {m k : Msg} (h : TxKept s)
    (hm : s.msgs uid = some m) (htx : k.txbuf = m.txbuf) (hsent : k.sent = m.sent)
    (hk : SentFirst k) : TxKept (s.setMsg uid (some k)) where
  known := setMsg_forall (h.known uid m hm) h.known
  sentFirst := setMsg_forall hk h.sentFirst
  cover := fun b hb => (h.cover b hb).mono (heldUnsent_setMsg hm htx hsent) rfl rfl rfl

theorem txKept_mapMsg {s : State} (h : TxKept s) (uid : Uid) (f : Msg → Msg)
    (htx : ∀ m, (f m).txbuf = m.txbuf) (hsent : ∀ m, (f m).sent = m.sent)
    (hstage : ∀ m, (f m).stage = m.stage) : TxKept (s.setMsg uid ((s.msgs uid).map f)) := by
  refine mapMsg_elim (P := TxKept) h fun m hm => ?_
  have first := h.sentFirst uid m hm
  refine txKept_setMsg h hm (htx m) (hsent m) ⟨?_, ?_, ?_⟩
  · rw [hstage, htx, hsent]
    exact first.claimed
  · rw [hstage, hsent]
    exact first.outstanding
  · rw [hstage, htx, hsent]
    exact first.ending

theorem txKept_takeTx {s s' : State} {uid : Uid} {m : Msg} {b : TxId} (h : TxKept s)
    (hm : s.msgs uid = some m) (hstage : m.stage = .claimed)
    (taken : getATxBuf s = (some b, s')) :
    TxKept (s'.setMsg uid (some { m with txbuf := some b, stage := .built })) := by
  obtain ⟨hnone, hunsent⟩ := (h.sentFirst uid m hm).claimed hstage
  have hbuilt : SentFirst { m with txbuf := some b, stage := .built } :=
    ⟨(fun hc => by cases hc), (fun ho => by cases ho), fun he => by cases he⟩
  have hheld : ∀ (t : State) (c : TxId), (∀ v, v ≠ uid → t.msgs v = s.msgs v) →
      HeldUnsent s c → HeldUnsent t c := fun _ _ => heldUnsent_other hm (Or.inr hnone)
  rcases getATxBuf_cases taken with ⟨rfl, rfl⟩ | ⟨rest, hused, rfl⟩
  · refine ⟨setMsg_forall (h.known uid m hm) h.known, setMsg_forall hbuilt h.sentFirst,
      fun c hc => ?_⟩
    by_cases hbc : c = s.lastSbuf
    · exact Or.inr (Or.inr (Or.inr (heldUnsent_self (congrArg some hbc.symm) hunsent)))
    rcases h.cover c hc with hlast | hqueued | hin | hc'
    · exact Or.inl (Nat.lt_of_le_of_ne hlast (Ne.symm hbc))
    · exact Or.inr (Or.inl hqueued)
    · exact Or.inr (Or.inr (Or.inl hin))
    · exact Or.inr (Or.inr (Or.inr (hheld _ c (fun v hv => by rw [msgs_setMsg, if_neg hv]) hc')))
  · refine ⟨setMsg_forall (h.known uid m hm) h.known, setMsg_forall hbuilt h.sentFirst,
      fun c hc => ?_⟩
    rcases h.cover c hc with hlast | hqueued | hin | hc'
    · exact Or.inl hlast
    · exact Or.inr (Or.inl hqueued)
    · rw [hused] at hin
      rcases List.mem_cons.mp hin with rfl | hrest
      · exact Or.inr (Or.inr (Or.inr (heldUnsent_self rfl hunsent)))
      · exact Or.inr (Or.inr (Or.inl hrest))
    · exact Or.inr (Or.inr (Or.inr (hheld _ c (fun v hv => by rw [msgs_setMsg, if_neg hv]) hc')))

theorem txKept_send {s : State} {uid : Uid} {m : Msg} {b : TxId} {q : Req} (h : TxKept s)
    (hm : s.msgs uid = some m) (htx : m.txbuf = some b) :
    TxKept { s.setMsg uid (some { m with sent := true, stage := m.kind.sentStage }) with
      svqQueued := s.svqQueued ++ [(b, q)] } where
  known := setMsg_forall (h.known uid m hm) h.known
  sentFirst := setMsg_forall
    ⟨fun hc => False.elim ((outstanding_late (sentStage_outstanding m.kind)).2.1 hc),
      fun _ => rfl, fun _ => Or.inl rfl⟩ h.sentFirst
  cover := fun c hc => by
    rcases h.cover c hc with hlast | hqueued | hused | ⟨v, n, hn, hb, hunsent⟩
    · exact Or.inl hlast
    · exact Or.inr (Or.inl (by simpa using Or.inl (by simpa using hqueued)))
    · exact Or.inr (Or.inr (Or.inl hused))
    · by_cases hv : v = uid
      · subst hv
        rw [hm] at hn
        obtain rfl := Option.some.inj hn
        obtain rfl := Option.some.inj (htx.symm.trans hb)
        exact Or.inr (Or.inl (by simp))
      · refine Or.inr (Or.inr (Or.inr ⟨v, n, ?_, hb, hunsent⟩))
        exact (msgs_setMsg.trans (if_neg hv)).trans hn

theorem txKept_consume {s : State} {tx : TxId} {q : Req} (h : TxKept s) :
    TxKept { s with
      svqQueued := s.svqQueued.erase (tx, q)
      svqUsed := s.svqUsed ++ [tx]
      backend := s.backend ++ [q] } where
  known := h.known
  sentFirst := h.sentFirst
  cover := fun c hc => by
    rcases h.cover c hc with hlast | hqueued | hused | hheld
    · exact Or.inl hlast
    · obtain ⟨p, hp, rfl⟩ := List.mem_map.mp hqueued
      by_cases hpq : p = (tx, q)
      · subst hpq
        exact Or.inr (Or.inr (Or.inl (by simp)))
      · exact Or.inr (Or.inl (List.mem_map_of_mem ((List.mem_erase_of_ne hpq).mpr hp)))
    · exact Or.inr (Or.inr (Or.inl (List.mem_append_left _ hused)))
    · exact Or.inr (Or.inr (Or.inr hheld))

theorem txKept_free {s : State} {uid : Uid} {m : Msg} (h : TxKept s) (hm : s.msgs uid = some m)
    (hstage : m.stage = .freeing) : TxKept (virtFreeMsg s uid m) := by
  have hsent := (h.sentFirst uid m hm).ending (by rw [hstage]; rfl)
  refine ⟨fun v n hn => h.known v n (virtFreeMsg_live hn).2,
    fun v n hn => h.sentFirst v n (virtFreeMsg_live hn).2, fun b hb => ?_⟩
  refine (h.cover b hb).mono (heldUnsent_other hm hsent fun v hv => ?_) rfl rfl rfl
  simp [virtFreeMsg, hv]

theorem txKept_claim {s : State} {k : Msg} {table : Nat → Option Uid} (h : TxKept s)
    (hk : SentFirst k) :
    TxKept { s with
      table := table
      msgs := Function.update s.msgs s.nextUid (some k)
      nextUid := s.nextUid + 1 } where
  known := setMsg_forall (s := s) (Nat.lt_succ_self _)
    fun v m hm => Nat.lt_succ_of_lt (h.known v m hm)
  sentFirst := setMsg_forall (s := s) hk h.sentFirst
  cover := fun b hb => by
    refine (h.cover b hb).mono (fun hheld => ?_) rfl rfl rfl
    obtain ⟨v, n, hn, rest⟩ := hheld
    have hv : v ≠ s.nextUid := Nat.ne_of_lt (h.known v n hn)
    exact ⟨v, n, by simpa [hv] using hn, rest⟩

/-- Without failures a message is given up after it was sent, or without a buffer. -/
theorem givenUp_sent {a : Action} {m : Msg} (hm : SentFirst m) (ok : a.fails = false)
    (h : GivenUp a m) : m.sent = true ∨ m.txbuf = none := by
  rcases h with hclaimed | ⟨-, hfails⟩ | ⟨hout, -⟩ | hreleasing
  · exact Or.inr (hm.claimed hclaimed).1
  · rw [ok] at hfails
    cases hfails
  · exact Or.inl (hm.outstanding hout)
  · exact hm.ending (by rw [hreleasing]; rfl)

theorem restaged_sentFirst {a : Action} {m k : Msg} (hm : SentFirst m) (ok : a.fails = false)
    (h : Restaged a m k) : SentFirst k where
  claimed := fun hc => False.elim (h.late.1 hc)
  outstanding := fun ho => by
    rw [h.sent]
    exact hm.outstanding (h.outstanding ho)
  ending := fun he => by
    rw [h.sent, h.txbuf]
    exact givenUp_sent hm ok (h.givenUp he)

theorem ownerMoves_txKept {s t : State} {uid : Uid} {m : Msg} {a : Action} (h : TxKept s)
    (ok : a.fails = false) (hm : s.msgs uid = some m) (moves : OwnerMoves s uid m a t) :
    TxKept t := by
  have first := h.sentFirst uid m hm
  cases moves with
  | takeTx stage taken => exact txKept_takeTx h hm stage taken
  | restage restaged =>
    exact txKept_setMsg h hm restaged.txbuf restaged.sent (restaged_sentFirst first ok restaged)
  | send stage txbuf => exact txKept_send h hm txbuf
  | giveBack stage rxbuf action =>
    have ended : TxKept (s.setMsg uid (some { m with stage := .freeing })) :=
      txKept_setMsg h hm rfl rfl ⟨(fun hc => by cases hc), (fun ho => by cases ho),
        fun _ => first.ending (by rw [stage]; rfl)⟩
    exact ⟨ended.known, ended.sentFirst, ended.cover⟩
  | free stage => exact txKept_free h hm stage

theorem recvMoves_txKept {s t : State} (h : TxKept s) (moves : RecvMoves s t) : TxKept t := by
  cases moves with
  | get idle used => exact ⟨h.known, h.sentFirst, h.cover⟩
  | found got lookup => exact ⟨h.known, h.sentFirst, h.cover⟩
  | rejected got lookup => exact ⟨h.known, h.sentFirst, h.cover⟩
  | attach found =>
    rename_i r uid
    have stored := txKept_mapMsg h uid (fun m => { m with rxbuf := some r.rx })
      (fun _ => rfl) (fun _ => rfl) (fun _ => rfl)
    exact ⟨stored.known, stored.sentFirst, stored.cover⟩
  | complete attached =>
    rename_i uid
    have completed := txKept_mapMsg h uid (fun m => { m with completed := true })
      (fun _ => rfl) (fun _ => rfl) (fun _ => rfl)
    exact ⟨completed.known, completed.sentFirst, completed.cover⟩

theorem step_txKept {s t : State} {a : Action} (h : TxKept s) (ok : NoFailure s a)
    (hstep : step s a = some t) : TxKept t := by
  cases step_moves hstep with
  | files files => exact ⟨h.known, h.sentFirst, h.cover⟩
  | claim slot =>
    exact txKept_claim h ⟨fun _ => ⟨rfl, rfl⟩, (fun ho => by cases ho), fun he => by cases he⟩
  | consume queued => exact txKept_consume h
  | reply taken avail => exact ⟨h.known, h.sentFirst, h.cover⟩
  | owner owned live moves => exact ownerMoves_txKept h ok live moves
  | recv moves => exact recvMoves_txKept h moves

/-- In every run without a failure between `virt_alloc_msg` and the queue, each transmit
buffer is unused, in the queue, or held by a message that is still to be sent. -/
theorem transmit_buffers_kept (numBufs : Nat) (as : List Action) (s : State)
    (along : Along step NoFailure (State.probed numBufs) as)
    (run : exec step (State.probed numBufs) as = some s) :
    ∀ b, b < s.numBufs →
      s.lastSbuf ≤ b ∨ b ∈ s.svqQueued.map Prod.fst ∨ b ∈ s.svqUsed ∨
        ∃ uid m, s.msgs uid = some m ∧ m.txbuf = some b ∧ m.sent = false := by
  have inv : TxKept s := exec_invariant_along NoFailure
    (fun _ _ _ h ok hs => step_txKept h ok hs) (probed_txKept numBufs) along run
  exact inv.cover

/-- One buffer is used twice, the other is held by a message. -/
def recycledRun : List Action :=
  [.openFile 0, .claim 0 .command, .getTx 0, .send 0, .consume 0 ⟨0, 0⟩, .reply ⟨0, 0⟩ 0 48,
    .recvGet, .recvLookup, .recvAttach, .recvComplete, .finish 0, .giveBack 0 true, .free 0,
    .claim 0 .invoke, .getTx 1, .claim 0 .asyncInvoke, .getTx 2, .send 2]

theorem recycledRun_keeps_buffers : ∃ s, exec step (State.probed 2) recycledRun = some s ∧
    s.numBufs = 2 ∧ s.lastSbuf = 2 ∧
    ∀ b, b < s.numBufs →
      s.lastSbuf ≤ b ∨ b ∈ s.svqQueued.map Prod.fst ∨ b ∈ s.svqUsed ∨
        ∃ uid m, s.msgs uid = some m ∧ m.txbuf = some b ∧ m.sent = false := by
  have along : Along step NoFailure (State.probed 2) recycledRun := by
    refine along_of_forall (fun a ha s => ?_) _
    have none_fails : ∀ a ∈ recycledRun, a.fails = false := by decide
    exact none_fails a ha
  exact ⟨_, rfl, rfl, rfl, transmit_buffers_kept 2 _ _ along rfl⟩

/-- A message that could not be sent is freed, and its buffer is gone. -/
theorem unsent_buffer_lost : ∃ s, exec step (State.probed 1)
      [.openFile 0, .claim 0 .command, .getTx 0, .sendFail 0, .free 0] = some s ∧
    0 < s.numBufs ∧ ¬ s.lastSbuf ≤ 0 ∧ 0 ∉ s.svqQueued.map Prod.fst ∧ 0 ∉ s.svqUsed ∧
    ¬ ∃ uid m, s.msgs uid = some m ∧ m.txbuf = some 0 ∧ m.sent = false := by
  refine ⟨_, rfl, by decide, by decide, by decide, by decide, ?_⟩
  rintro ⟨uid, m, hm, -⟩
  cases uid with
  | zero => cases hm
  | succ v => cases hm

end TransmitBuffers
