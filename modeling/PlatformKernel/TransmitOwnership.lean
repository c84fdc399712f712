import PlatformKernel.MessageTransport

/-!
# Transmit buffers have one owner

A transmit buffer comes from the one-time walk over `sbufs` or from the used ring, and is
lost when its message fails. Whatever fails, a buffer is at one place at a time: not handed
out, with one message that is not sent yet, queued, or used.
-/

namespace TransmitOwnership

open GuardedRuns MessageTransport

/-- The buffers that the send queue has, queued and used. -/
def inQueue (s : State) : List TxId :=
  s.svqQueued.map Prod.fst ++ s.svqUsed

/-- Message `uid` may still write buffer `b`. -/
def Holds (s : State) (uid : Uid) (b : TxId) : Prop :=
  ∃ m, s.msgs uid = some m ∧ m.txbuf = some b ∧ m.sent = false

structure Owned (s : State) : Prop where
  known : ∀ uid m, s.msgs uid = some m → uid < s.nextUid
  early : ∀ uid m, s.msgs uid = some m → m.stage = .claimed ∨ m.stage = .built → m.sent = false
  once : (inQueue s).Nodup
  handed : ∀ b ∈ inQueue s, b < s.lastSbuf
  held : ∀ uid b, Holds s uid b → b < s.lastSbuf ∧ b ∉ inQueue s
  single : ∀ u v b, Holds s u b → Holds s v b → u = v

theorem probed_owned (numBufs : Nat) : Owned (State.probed numBufs) where
  known := fun uid m h => by cases h
  early := fun uid m h => by cases h
  once := List.nodup_nil
  handed := fun b h => by cases h
  held := fun uid b ⟨m, h, _⟩ => by cases h
  single := fun u v b ⟨m, h, _⟩ => by cases h

section steps

variable {s t : State} {uid : Uid} {m k : Msg} {b : TxId} {a : Action}

/-- Messages hold no more than before, and the queue is the same. -/
theorem owned_of_holds (h : Owned s) (known : ∀ uid m, t.msgs uid = some m → uid < t.nextUid)
    (early : ∀ uid m, t.msgs uid = some m → m.stage = .claimed ∨ m.stage = .built →
      m.sent = false)
    (holds : ∀ uid b, Holds t uid b → Holds s uid b) (perm : (inQueue t).Perm (inQueue s))
    (last : t.lastSbuf = s.lastSbuf) : Owned t where
  known := known
  early := early
  once := perm.nodup_iff.mpr h.once
  handed := fun b hb => last.symm ▸ h.handed b (perm.mem_iff.mp hb)
  held := fun uid b hb => by
    obtain ⟨hlt, hout⟩ := h.held uid b (holds uid b hb)
    exact ⟨last.symm ▸ hlt, fun hin => hout (perm.mem_iff.mp hin)⟩
  single := fun u v b hu hv => h.single u v b (holds u b hu) (holds v b hv)

theorem holds_setMsg {v : Uid} : Holds (s.setMsg uid (some k)) v b ↔
    v = uid ∧ k.txbuf = some b ∧ k.sent = false ∨ v ≠ uid ∧ Holds s v b := by
  unfold Holds
  rw [msgs_setMsg]
  split_ifs with hv
  · simp [hv]
  · simp [hv]

/-- The message keeps its buffer and its place before or after the send. -/
theorem owned_setMsg (h : Owned s) (hm : s.msgs uid = some m) (htx : k.txbuf = m.txbuf)
    (hsent : k.sent = m.sent) (early : k.stage = .claimed ∨ k.stage = .built → k.sent = false) :
    Owned (s.setMsg uid (some k)) := by
  refine owned_of_holds h (setMsg_forall (h.known uid m hm) h.known)
    (setMsg_forall early h.early) (fun v b hv => ?_) (List.Perm.refl _) rfl
  rcases holds_setMsg.mp hv with ⟨rfl, hb, hs⟩ | ⟨_, hold⟩
  · exact ⟨m, hm, htx.symm.trans hb, hsent.symm.trans hs⟩
  · exact hold

theorem owned_mapMsg (h : Owned s) (uid : Uid) (f : Msg → Msg)
    (htx : ∀ m, (f m).txbuf = m.txbuf) (hsent : ∀ m, (f m).sent = m.sent)
    (hstage : ∀ m, (f m).stage = m.stage) : Owned (s.setMsg uid ((s.msgs uid).map f)) := by
  refine mapMsg_elim (P := Owned) h fun m hm => owned_setMsg h hm (htx m) (hsent m) ?_
  rw [hstage, hsent]
  exact h.early uid m hm

/-- What `get_a_tx_buf` hands out nobody else has. -/
theorem getATxBuf_unowned {s' : State} (h : Owned s) (taken : getATxBuf s = (some b, s')) :
    b ∉ s.svqQueued.map Prod.fst ∧ ∀ v, ¬ Holds s v b := by
  rcases getATxBuf_cases taken with ⟨rfl, -⟩ | ⟨rest, hused, -⟩
  · refine ⟨fun hq => ?_, fun v hv => Nat.lt_irrefl _ (h.held v _ hv).1⟩
    exact Nat.lt_irrefl _ (h.handed _ (List.mem_append_left _ hq))
  · have used : b ∈ s.svqUsed := by rw [hused]; exact List.mem_cons_self
    refine ⟨fun hq => ?_, fun v hv => (h.held v b hv).2 (List.mem_append_right _ used)⟩
    exact (List.nodup_append.mp h.once).2.2 b hq b used rfl

/-- The buffer has left its place, and the queue gained nothing. -/
theorem getATxBuf_place {s' : State} (h : Owned s) (taken : getATxBuf s = (some b, s')) :
    (inQueue s').Nodup ∧ (∀ c ∈ inQueue s', c ∈ inQueue s) ∧ b < s'.lastSbuf ∧ b ∉ inQueue s' ∧
      s.lastSbuf ≤ s'.lastSbuf := by
  rcases getATxBuf_cases taken with ⟨rfl, rfl⟩ | ⟨rest, hused, rfl⟩
  · exact ⟨h.once, fun _ hc => hc, Nat.lt_succ_self _, fun hin => Nat.lt_irrefl _ (h.handed _ hin),
      Nat.le_succ _⟩
  · have perm : (inQueue s).Perm (b :: (s.svqQueued.map Prod.fst ++ rest)) := by
      rw [inQueue, hused]
      exact List.perm_middle
    obtain ⟨hout, honce⟩ := List.nodup_cons.mp (perm.nodup_iff.mp h.once)
    exact ⟨honce, fun c hc => perm.mem_iff.mpr (List.mem_cons_of_mem b hc),
      h.handed b (perm.mem_iff.mpr List.mem_cons_self), hout, Nat.le_refl _⟩

theorem owned_takeTx {s' : State} (h : Owned s) (hm : s.msgs uid = some m)
    (stage : m.stage = .claimed) (taken : getATxBuf s = (some b, s')) :
    Owned (s'.setMsg uid (some { m with txbuf := some b, stage := .built })) := by
  obtain ⟨unqueued, unheld⟩ := getATxBuf_unowned h taken
  have unsent := h.early uid m hm (Or.inl stage)
  have same : s'.msgs = s.msgs ∧ s'.nextUid = s.nextUid := by
    obtain ⟨last, used, rfl⟩ := getATxBuf_some taken
    exact ⟨rfl, rfl⟩
  have holds : ∀ v c, Holds (s'.setMsg uid (some { m with txbuf := some b, stage := .built })) v c →
      v = uid ∧ c = b ∨ Holds s v c := fun v c hv => by
    rcases holds_setMsg.mp hv with ⟨rfl, hc, -⟩ | ⟨-, n, hn, hrest⟩
    · exact Or.inl ⟨rfl, (Option.some.inj hc).symm⟩
    · exact Or.inr ⟨n, same.1 ▸ hn, hrest⟩
  obtain ⟨once, back, blt, bout, grown⟩ := getATxBuf_place h taken
  refine ⟨setMsg_forall (P := fun v _ => v < s'.nextUid) (same.2 ▸ h.known uid m hm)
    (by rw [same.1, same.2]; exact h.known), setMsg_forall (fun _ => unsent)
    (by rw [same.1]; exact h.early), once,
    fun c hc => Nat.lt_of_lt_of_le (h.handed c (back c hc)) grown, fun v c hv => ?_,
    fun u v c hu hv => ?_⟩
  · rcases holds v c hv with ⟨-, rfl⟩ | hold
    · exact ⟨blt, bout⟩
    · obtain ⟨hlt, hout⟩ := h.held v c hold
      exact ⟨Nat.lt_of_lt_of_le hlt grown, fun hin => hout (back c hin)⟩
  · rcases holds u c hu with ⟨rfl, rfl⟩ | hu'
    · rcases holds v c hv with ⟨rfl, -⟩ | hv'
      · rfl
      · exact False.elim (unheld v hv')
    · rcases holds v c hv with ⟨-, rfl⟩ | hv'
      · exact False.elim (unheld u hu')
      · exact h.single u v c hu' hv'

/-- The buffer goes from the message to the queue. -/
theorem owned_send {q : Req} (h : Owned s) (hm : s.msgs uid = some m) (stage : m.stage = .built)
    (htx : m.txbuf = some b) :
    Owned { s.setMsg uid (some { m with sent := true, stage := m.kind.sentStage }) with
      svqQueued := s.svqQueued ++ [(b, q)] } := by
  have own : Holds s uid b := ⟨m, hm, htx, h.early uid m hm (Or.inr stage)⟩
  obtain ⟨hlt, hout⟩ := h.held uid b own
  have perm : ((s.svqQueued ++ [(b, q)]).map Prod.fst ++ s.svqUsed).Perm (b :: inQueue s) := by
    rw [List.map_append, List.append_assoc]
    exact List.perm_middle
  have holds : ∀ v c, Holds (s.setMsg uid (some { m with
      sent := true, stage := m.kind.sentStage })) v c → v ≠ uid ∧ Holds s v c := fun v c hv => by
    rcases holds_setMsg.mp hv with ⟨-, -, hsent⟩ | hold
    · cases hsent
    · exact hold
  refine ⟨setMsg_forall (h.known uid m hm) h.known, setMsg_forall (fun hearly => ?_) h.early,
    perm.nodup_iff.mpr (List.nodup_cons.mpr ⟨hout, h.once⟩), fun c hc => ?_, fun v c hv => ?_,
    fun u v c hu hv => h.single u v c (holds u c hu).2 (holds v c hv).2⟩
  · obtain ⟨-, hclaimed, hbuilt⟩ := outstanding_late (sentStage_outstanding m.kind)
    exact False.elim (hearly.elim hclaimed hbuilt)
  · rcases List.mem_cons.mp (perm.mem_iff.mp hc) with rfl | hold
    · exact hlt
    · exact h.handed c hold
  · obtain ⟨hne, hold⟩ := holds v c hv
    obtain ⟨clt, cout⟩ := h.held v c hold
    refine ⟨clt, fun hin => ?_⟩
    rcases List.mem_cons.mp (perm.mem_iff.mp hin) with rfl | hin
    · exact hne (h.single v uid c hold own)
    · exact cout hin

theorem owned_consume {tx : TxId} {q : Req} (h : Owned s) (queued : (tx, q) ∈ s.svqQueued) :
    Owned { s with
      svqQueued := s.svqQueued.erase (tx, q)
      svqUsed := s.svqUsed ++ [tx]
      backend := s.backend ++ [q] } := by
  refine owned_of_holds h h.known h.early (fun _ _ hb => hb) ?_ rfl
  have front : (s.svqQueued.map Prod.fst).Perm
      (tx :: (s.svqQueued.erase (tx, q)).map Prod.fst) :=
    (List.perm_cons_erase queued).map Prod.fst
  have back : ((s.svqQueued.erase (tx, q)).map Prod.fst ++ (s.svqUsed ++ [tx])).Perm
      (tx :: ((s.svqQueued.erase (tx, q)).map Prod.fst ++ s.svqUsed)) := by
    rw [← List.append_assoc]
    exact List.perm_append_singleton _ _
  exact back.trans (front.symm.append_right s.svqUsed)

theorem owned_claim {k : Msg} {table : Nat → Option Uid} (h : Owned s) (htx : k.txbuf = none)
    (hsent : k.sent = false) :
    Owned { s with
      table := table
      msgs := Function.update s.msgs s.nextUid (some k)
      nextUid := s.nextUid + 1 } := by
  refine owned_of_holds h (setMsg_forall (s := s) (Nat.lt_succ_self _)
    fun v m hm => Nat.lt_succ_of_lt (h.known v m hm)) (setMsg_forall (s := s) (fun _ => hsent)
    h.early) (fun v b hv => ?_) (List.Perm.refl _) rfl
  rcases (holds_setMsg (s := s)).mp hv with ⟨-, hb, -⟩ | ⟨-, hold⟩
  · rw [htx] at hb
    cases hb
  · exact hold

theorem owned_free (h : Owned s) : Owned (virtFreeMsg s uid m) :=
  owned_of_holds h (fun v n hn => h.known v n (virtFreeMsg_live hn).2)
    (fun v n hn => h.early v n (virtFreeMsg_live hn).2)
    (fun _ _ ⟨n, hn, hrest⟩ => ⟨n, (virtFreeMsg_live hn).2, hrest⟩) (List.Perm.refl _) rfl

theorem ownerMoves_owned (h : Owned s) (hm : s.msgs uid = some m)
    (moves : OwnerMoves s uid m a t) : Owned t := by
  cases moves with
  | takeTx stage taken => exact owned_takeTx h hm stage taken
  | restage restaged =>
    exact owned_setMsg h hm restaged.txbuf restaged.sent fun hearly =>
      False.elim (hearly.elim restaged.late.1 restaged.late.2)
  | send stage txbuf => exact owned_send h hm stage txbuf
  | giveBack stage rxbuf action =>
    have ended := owned_setMsg (k := { m with stage := .freeing }) h hm rfl rfl
      fun hearly => by rcases hearly with he | he <;> cases he
    exact ⟨ended.known, ended.early, ended.once, ended.handed, ended.held, ended.single⟩
  | free stage => exact owned_free h

theorem recvMoves_owned (h : Owned s) (moves : RecvMoves s t) : Owned t := by
  cases moves with
  | get idle used => exact ⟨h.known, h.early, h.once, h.handed, h.held, h.single⟩
  | found got lookup => exact ⟨h.known, h.early, h.once, h.handed, h.held, h.single⟩
  | rejected got lookup => exact ⟨h.known, h.early, h.once, h.handed, h.held, h.single⟩
  | attach found =>
    rename_i r v
    have stored := owned_mapMsg h v (fun m => { m with rxbuf := some r.rx })
      (fun _ => rfl) (fun _ => rfl) fun _ => rfl
    exact ⟨stored.known, stored.early, stored.once, stored.handed, stored.held, stored.single⟩
  | complete attached =>
    rename_i v
    have completed := owned_mapMsg h v (fun m => { m with completed := true })
      (fun _ => rfl) (fun _ => rfl) fun _ => rfl
    exact ⟨completed.known, completed.early, completed.once, completed.handed, completed.held,
      completed.single⟩

theorem step_owned (h : Owned s) (hstep : step s a = some t) : Owned t := by
  cases step_moves hstep with
  | files files => exact ⟨h.known, h.early, h.once, h.handed, h.held, h.single⟩
  | claim slot => exact owned_claim h rfl rfl
  | consume queued => exact owned_consume h queued
  | reply taken avail => exact ⟨h.known, h.early, h.once, h.handed, h.held, h.single⟩
  | owner owned live moves => exact ownerMoves_owned h live moves
  | recv moves => exact recvMoves_owned h moves

end steps

/-- In every state that any interleaving of senders leads to, no two unsent messages hold
one buffer, `get_a_tx_buf` hands out no buffer that is queued or held, and a buffer that is
queued is queued once and no message still to be sent holds it. -/
theorem transmit_buffers_exclusive (numBufs : Nat) (as : List Action) (s : State)
    (run : exec step (State.probed numBufs) as = some s) :
    (∀ u v b, Holds s u b → Holds s v b → u = v) ∧
    (∀ b t, getATxBuf s = (some b, t) →
      b ∉ s.svqQueued.map Prod.fst ∧ ∀ u, ¬ Holds s u b) ∧
    (s.svqQueued.map Prod.fst).Nodup ∧
    ∀ u b, Holds s u b → b ∉ s.svqQueued.map Prod.fst := by
  have h : Owned s :=
    exec_invariant (fun _ _ _ h hs => step_owned h hs) (probed_owned numBufs) run
  exact ⟨h.single, fun b t taken => getATxBuf_unowned h taken, (List.nodup_append.mp h.once).1,
    fun u b hu hq => (h.held u b hu).2 (List.mem_append_left _ hq)⟩

/-- Two messages hold a buffer each, one fails and keeps it, and the other buffer is sent,
used and taken again. -/
def takenAgain : List Action :=
  [.openFile 0, .openFile 1, .claim 0 .invoke, .claim 1 .command, .getTx 1, .getTx 0, .sendFail 1,
    .send 0, .consume 1 ⟨0, 0⟩, .claim 1 .asyncInvoke, .getTx 2]

theorem takenAgain_exclusive : ∃ s, exec step (State.probed 2) takenAgain = some s ∧
    (Holds s 1 0 ∧ Holds s 2 1) ∧ (∀ u v b, Holds s u b → Holds s v b → u = v) ∧
    (∀ b t, getATxBuf s = (some b, t) →
      b ∉ s.svqQueued.map Prod.fst ∧ ∀ u, ¬ Holds s u b) ∧
    (s.svqQueued.map Prod.fst).Nodup ∧
    ∀ u b, Holds s u b → b ∉ s.svqQueued.map Prod.fst :=
  ⟨_, rfl, ⟨⟨_, rfl, rfl, rfl⟩, ⟨_, rfl, rfl, rfl⟩⟩, transmit_buffers_exclusive 2 takenAgain _ rfl⟩

end TransmitOwnership
