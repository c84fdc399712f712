import PlatformKernel.MessageDelivery

/-!
# Receive buffers are in one place

A receive buffer goes from the queue through the interrupt to a message and back.
`recv_done` drops the buffer of a response it cannot place, and a message that is
freed takes its buffer along, so buffers survive exactly as long as responses find
their message waiting for them and `virtqueue_add_inbuf` takes them back. A buffer that is
not taken back is lost, but no two places ever have the same one.
-/

namespace ReceiveBuffers

open GuardedRuns MessageTransport MessageDelivery

def recvBufs : Recv → List RxId
  | .got r => [r.rx]
  | .found r _ => [r.rx]
  | _ => []

/-- Buffers in the receive queue, available or used, or held by the interrupt. -/
def rxQueue (s : State) : List RxId :=
  s.rvqAvail ++ s.rvqUsed.map Rsp.rx ++ recvBufs s.recv

/-- The message has the buffer and has not handed it back. -/
def Holds (s : State) (uid : Uid) (b : RxId) : Prop :=
  ∃ m, s.msgs uid = some m ∧ m.rxbuf = some b ∧ m.stage ≠ .freeing

/-- `whole` tells that the queue has taken back every buffer. -/
structure Kept (whole : Prop) (s : State) : Prop where
  nodup : (rxQueue s).Nodup
  apart : ∀ uid b, Holds s uid b → b ∉ rxQueue s
  single : ∀ uid v b, Holds s uid b → Holds s v b → uid = v
  cover : whole → ∀ b, b < s.numBufs → b ∈ rxQueue s ∨ ∃ uid, Holds s uid b

/-- Files are only drained of answered messages, and the queue takes back each buffer. -/
def HandedBack (s : State) (a : Action) : Prop :=
  Answered s a ∧ ∀ uid added, a = .giveBack uid added → added = true

section steps

variable {whole : Prop}

theorem probed_kept (numBufs : Nat) : Kept whole (State.probed numBufs) where
  nodup := by simpa [rxQueue, State.probed, recvBufs] using List.nodup_range
  apart := fun uid b h => by
    obtain ⟨m, hm, -⟩ := h
    cases hm
  single := fun uid v b h => by
    obtain ⟨m, hm, -⟩ := h
    cases hm
  cover := fun _ b hb => Or.inl (by simpa [rxQueue, State.probed, recvBufs] using hb)

theorem kept_same {s t : State} (h : Kept whole s) (perm : (rxQueue t).Perm (rxQueue s))
    (holds : ∀ uid b, Holds t uid b ↔ Holds s uid b) (hbufs : t.numBufs = s.numBufs) :
    Kept whole t where
  nodup := perm.nodup_iff.mpr h.nodup
  apart := fun uid b hb => by
    rw [perm.mem_iff]
    exact h.apart uid b ((holds uid b).mp hb)
  single := fun uid v b hu hv => h.single uid v b ((holds uid b).mp hu) ((holds v b).mp hv)
  cover := fun hwhole b hb => by
    rcases h.cover hwhole b (hbufs ▸ hb) with hq | ⟨uid, hu⟩
    · exact Or.inl (perm.mem_iff.mpr hq)
    · exact Or.inr ⟨uid, (holds uid b).mpr hu⟩

theorem holds_setMsg {s : State} {uid v : Uid} {k : Msg} {b : RxId} :
    Holds (s.setMsg uid (some k)) v b ↔
      if v = uid then k.rxbuf = some b ∧ k.stage ≠ .freeing else Holds s v b := by
  unfold Holds
  rw [msgs_setMsg]
  split_ifs with hv
  · constructor
    · rintro ⟨m, hm, rest⟩
      exact Option.some.inj hm ▸ rest
    · exact fun h => ⟨k, rfl, h⟩
  · exact Iff.rfl

/-- The owner's stages before the hand-back leave the buffers alone. -/
theorem holds_same {s : State} {uid : Uid} {m k : Msg} (hm : s.msgs uid = some m)
    (hrx : k.rxbuf = m.rxbuf) (hlive : m.stage ≠ .freeing)
    (hfreeing : k.stage = .freeing → m.rxbuf = none) (v : Uid) (b : RxId) :
    Holds (s.setMsg uid (some k)) v b ↔ Holds s v b := by
  rw [holds_setMsg]
  split_ifs with hv
  · subst hv
    constructor
    · rintro ⟨hb, -⟩
      exact ⟨m, hm, hrx ▸ hb, hlive⟩
    · rintro ⟨n, hn, hb, -⟩
      rw [hm] at hn
      obtain rfl := Option.some.inj hn
      refine ⟨hrx.trans hb, fun hk => ?_⟩
      rw [hfreeing hk] at hb
      cases hb
  · exact Iff.rfl

/-- A message without a response gets buffer `x`. -/
theorem holds_attached {s : State} {uid : Uid} {m : Msg} {x : RxId} (hm : s.msgs uid = some m)
    (hnone : m.rxbuf = none) (hlive : m.stage ≠ .freeing) (v : Uid) (b : RxId) :
    Holds (s.setMsg uid (some { m with rxbuf := some x })) v b ↔
      Holds s v b ∨ v = uid ∧ b = x := by
  rw [holds_setMsg]
  split_ifs with hv
  · subst hv
    constructor
    · rintro ⟨hb, -⟩
      exact Or.inr ⟨rfl, (Option.some.inj hb).symm⟩
    · rintro (⟨n, hn, hb, -⟩ | ⟨-, rfl⟩)
      · rw [hm] at hn
        obtain rfl := Option.some.inj hn
        rw [hnone] at hb
        cases hb
      · exact ⟨rfl, hlive⟩
  · exact ⟨Or.inl, fun hor => hor.resolve_right fun hand => hv hand.1⟩

theorem kept_reply {s : State} {q : Req} {rx : RxId} {len : Nat} (h : Kept whole s)
    (hrx : rx ∈ s.rvqAvail) :
    Kept whole { s with
      backend := s.backend.erase q
      rvqAvail := s.rvqAvail.erase rx
      rvqUsed := s.rvqUsed ++ [⟨rx, q, len, len⟩] } := by
  refine kept_same h ?_ (fun _ _ => Iff.rfl) rfl
  have moved : (s.rvqAvail.erase rx ++ (s.rvqUsed.map Rsp.rx ++ [rx])).Perm
      (s.rvqAvail ++ s.rvqUsed.map Rsp.rx) := move_perm hrx
  have whole := moved.append_right (recvBufs s.recv)
  simpa only [rxQueue, List.map_append, List.map_cons, List.map_nil] using whole

theorem kept_recvGet {s : State} {r : Rsp} {rest : List Rsp} (h : Kept whole s)
    (hidle : s.recv = .idle) (hused : s.rvqUsed = r :: rest) :
    Kept whole { s with recv := .got r, rvqUsed := rest } := by
  refine kept_same h ?_ (fun _ _ => Iff.rfl) rfl
  simp only [rxQueue, recvBufs, hidle, hused, List.map_cons, List.append_nil]
  have front : (rest.map Rsp.rx ++ [r.rx]).Perm (r.rx :: rest.map Rsp.rx) :=
    List.perm_append_singleton _ _
  rw [List.append_assoc]
  exact front.append_left _

/-- The buffer passes from the interrupt to the message that waits for it. -/
theorem kept_recvAttach {s : State} {r : Rsp} {uid : Uid} (hrouted : Routed s)
    (h : Kept whole s) (hfound : s.recv = .found r uid) :
    Kept whole { s.setMsg uid ((s.msgs uid).map fun m => { m with rxbuf := some r.rx }) with
      recv := .attached uid
      deliveries := (r.req.origin, uid) :: s.deliveries } := by
  obtain rfl := hrouted.found r uid hfound
  obtain ⟨m, hm, hid, hsent, hnone⟩ := hrouted.awaits r.req (by simp [inFlight, recvReqs, hfound])
  have hstage : m.stage ≠ .freeing := fun hf =>
    (hrouted.settled _ m hm).answered (Or.inr ⟨by rw [hf]; rfl, hsent⟩) hnone
  rw [hm, Option.map_some]
  have hqueue : rxQueue s = s.rvqAvail ++ s.rvqUsed.map Rsp.rx ++ [r.rx] := by
    simp [rxQueue, recvBufs, hfound]
  have hnodup := h.nodup
  rw [hqueue, List.nodup_append] at hnodup
  have holds := holds_attached (x := r.rx) hm hnone hstage
  have hin : r.rx ∈ rxQueue s := by simp [hqueue]
  constructor
  · simpa [rxQueue, recvBufs, State.setMsg] using hnodup.1
  · intro v b hb hmem
    have hold : b ∈ s.rvqAvail ++ s.rvqUsed.map Rsp.rx := by
      simpa [rxQueue, recvBufs, State.setMsg] using hmem
    rcases (holds v b).mp hb with hb | ⟨-, rfl⟩
    · exact h.apart v b hb (by rw [hqueue]; exact List.mem_append_left _ hold)
    · exact hnodup.2.2 _ hold _ (List.mem_singleton.mpr rfl) rfl
  · intro u v b hu hv
    rcases (holds u b).mp hu with hu | ⟨rfl, rfl⟩
    · rcases (holds v b).mp hv with hv | ⟨rfl, rfl⟩
      · exact h.single u v b hu hv
      · exact False.elim (h.apart u _ hu hin)
    · rcases (holds v r.rx).mp hv with hv | ⟨rfl, -⟩
      · exact False.elim (h.apart v _ hv hin)
      · rfl
  · intro hwhole b hb
    rcases h.cover hwhole b hb with hmem | ⟨u, hu⟩
    · rw [hqueue] at hmem
      rcases List.mem_append.mp hmem with hold | hlast
      · exact Or.inl (by simpa [rxQueue, recvBufs, State.setMsg] using hold)
      · exact Or.inr ⟨r.req.origin, (holds _ b).mpr (Or.inr ⟨rfl, List.mem_singleton.mp hlast⟩)⟩
    · exact Or.inr ⟨u, (holds u b).mpr (Or.inl hu)⟩

theorem kept_giveBack {s : State} {uid : Uid} {m : Msg} {b : RxId} {added : Bool}
    (h : Kept whole s) (hm : s.msgs uid = some m) (hstage : m.stage = .releasing)
    (hb : m.rxbuf = some b) (back : whole → added = true) :
    Kept whole (vfastrpcRxbufSend (s.setMsg uid (some { m with stage := .freeing })) b added) := by
  have held : Holds s uid b := ⟨m, hm, hb, by simp [hstage]⟩
  have holds : ∀ v c, Holds (s.setMsg uid (some { m with stage := .freeing })) v c ↔
      Holds s v c ∧ v ≠ uid := by
    intro v c
    rw [holds_setMsg]
    split_ifs with hv
    · simp [hv]
    · exact ⟨fun hc => ⟨hc, hv⟩, fun hc => hc.1⟩
  cases added with
  | false =>
    -- the buffer is gone
    exact ⟨h.nodup, fun v c hc => h.apart v c ((holds v c).mp hc).1,
      fun u v c hu hv => h.single u v c ((holds u c).mp hu).1 ((holds v c).mp hv).1,
      fun hwhole => by cases back hwhole⟩
  | true =>
  have hqueue : (rxQueue (vfastrpcRxbufSend
      (s.setMsg uid (some { m with stage := .freeing })) b true)).Perm (b :: rxQueue s) := by
    have front : (s.rvqAvail ++ [b]).Perm (b :: s.rvqAvail) := List.perm_append_singleton _ _
    exact (front.append_right (s.rvqUsed.map Rsp.rx)).append_right (recvBufs s.recv)
  constructor
  · rw [hqueue.nodup_iff, List.nodup_cons]
    exact ⟨h.apart uid b held, h.nodup⟩
  · intro v c hc hmem
    obtain ⟨hold, hv⟩ := (holds v c).mp hc
    rcases List.mem_cons.mp (hqueue.mem_iff.mp hmem) with rfl | hmem
    · exact hv (h.single v uid c hold held)
    · exact h.apart v c hold hmem
  · exact fun u v c hu hv => h.single u v c ((holds u c).mp hu).1 ((holds v c).mp hv).1
  · intro hwhole c hc
    rcases h.cover hwhole c hc with hmem | ⟨v, hv⟩
    · exact Or.inl (hqueue.mem_iff.mpr (List.mem_cons_of_mem _ hmem))
    · by_cases heq : v = uid
      · subst heq
        obtain ⟨n, hn, hnb, -⟩ := hv
        rw [hm] at hn
        obtain rfl := Option.some.inj hn
        rw [hb] at hnb
        obtain rfl := Option.some.inj hnb
        exact Or.inl (hqueue.mem_iff.mpr List.mem_cons_self)
      · exact Or.inr ⟨v, (holds v c).mpr ⟨hv, heq⟩⟩

theorem kept_free {s : State} {uid : Uid} {m : Msg} (h : Kept whole s)
    (hm : s.msgs uid = some m) (hstage : m.stage = .freeing) :
    Kept whole (virtFreeMsg s uid m) := by
  refine kept_same h (List.Perm.refl _) (fun v b => ?_) rfl
  by_cases hv : v = uid
  · subst hv
    constructor
    · rintro ⟨n, hn, -⟩
      simp [virtFreeMsg] at hn
    · rintro ⟨n, hn, -, hlive⟩
      rw [hm] at hn
      obtain rfl := Option.some.inj hn
      exact False.elim (hlive hstage)
  · simp [Holds, virtFreeMsg, hv]

theorem kept_claim {s : State} {f : FileId} {kind : Kind} {i : Nat} (hrouted : Routed s)
    (h : Kept whole s) :
    Kept whole { s with
      table := Function.update s.table i (some s.nextUid)
      msgs := Function.update s.msgs s.nextUid
        (some ⟨f, kind, i, none, none, false, false, .claimed⟩)
      nextUid := s.nextUid + 1 } := by
  refine kept_same h (List.Perm.refl _) (fun v b => ?_) rfl
  by_cases hv : v = s.nextUid
  · subst hv
    constructor
    · rintro ⟨n, hn, hb, -⟩
      simp only [Function.update_self] at hn
      obtain rfl := Option.some.inj hn
      cases hb
    · rintro ⟨n, hn, -⟩
      exact False.elim (Nat.lt_irrefl _ (hrouted.known _ n hn))
  · simp [Holds, hv]

theorem ownerMoves_kept {s t : State} {uid : Uid} {m : Msg} {a : Action} (hrouted : Routed s)
    (h : Kept whole s) (hm : s.msgs uid = some m)
    (back : whole → ∀ v added, a = .giveBack v added → added = true)
    (moves : OwnerMoves s uid m a t) : Kept whole t := by
  have unanswered : m.stage = .claimed ∨ m.stage = .built → m.rxbuf = none := fun early =>
    ((hrouted.settled uid m hm).early early).2
  cases moves with
  | takeTx stage taken =>
    obtain ⟨last, used, rfl⟩ := getATxBuf_some taken
    refine kept_same h (List.Perm.refl _) (holds_same hm rfl (by simp [stage]) ?_) rfl
    exact fun hf => by cases hf
  | restage restaged =>
    refine kept_same h (List.Perm.refl _) (holds_same hm restaged.rxbuf restaged.live ?_) rfl
    exact fun hf => (restaged.freeing hf).elim id unanswered
  | send stage txbuf =>
    refine kept_same h (List.Perm.refl _) (holds_same hm rfl (by simp [stage]) ?_) rfl
    exact fun _ => unanswered (Or.inr stage)
  | giveBack stage rxbuf action =>
    obtain ⟨v, hv⟩ := action
    exact kept_giveBack h hm stage rxbuf fun hwhole => back hwhole v _ hv
  | free stage => exact kept_free h hm stage

theorem recvMoves_kept {s t : State} (hrouted : Routed s) (h : Kept whole s)
    (moves : RecvMoves s t) : Kept whole t := by
  cases moves with
  | get idle used => exact kept_recvGet h idle used
  | found got lookup =>
    refine kept_same h ?_ (fun _ _ => Iff.rfl) rfl
    simp only [rxQueue, recvBufs, got]
    exact List.Perm.refl _
  | rejected got lookup =>
    rw [recvSingle_found hrouted got] at lookup
    cases lookup
  | attach found => exact kept_recvAttach hrouted h found
  | complete attached =>
    rename_i uid
    have hqueue : rxQueue { s with recv := .idle } = rxQueue s := by
      simp [rxQueue, recvBufs, attached]
    have idle : Kept whole { s with recv := .idle } :=
      kept_same h (by rw [hqueue]) (fun _ _ => Iff.rfl) rfl
    refine kept_same idle (List.Perm.refl _) (fun v b => ?_) rfl
    by_cases hv : v = uid
    · subst hv
      cases hm : s.msgs v <;> simp [Holds, State.setMsg, hm]
    · simp [Holds, State.setMsg, hv]

theorem step_kept {s t : State} {a : Action} (hrouted : Routed s) (h : Kept whole s)
    (back : whole → ∀ uid added, a = .giveBack uid added → added = true)
    (hstep : step s a = some t) : Kept whole t := by
  cases step_moves hstep with
  | files files => exact ⟨h.nodup, h.apart, h.single, h.cover⟩
  | claim slot => exact kept_claim hrouted h
  | consume queued => exact ⟨h.nodup, h.apart, h.single, h.cover⟩
  | reply taken avail => exact kept_reply h avail
  | owner owned live moves => exact ownerMoves_kept hrouted h live back moves
  | recv moves => exact recvMoves_kept hrouted h moves

structure Conserved (whole : Prop) (s : State) : Prop where
  routed : Routed s
  kept : Kept whole s

theorem step_conserved {s t : State} {a : Action} (h : Conserved whole s) (answered : Answered s a)
    (back : whole → ∀ uid added, a = .giveBack uid added → added = true)
    (hstep : step s a = some t) : Conserved whole t where
  routed := step_routed h.routed answered hstep
  kept := step_kept h.routed h.kept back hstep

end steps

/-- In every run in which files are only drained of answered messages and the queue takes
back what it is given, each receive buffer is in the queue, with the interrupt, or held by
exactly one message, and no response is rejected. -/
theorem receive_buffers_kept (numBufs : Nat) (as : List Action) (s : State)
    (along : Along step HandedBack (State.probed numBufs) as)
    (run : exec step (State.probed numBufs) as = some s) :
    (∀ b, b < s.numBufs → b ∈ s.rvqAvail ∨ b ∈ s.rvqUsed.map Rsp.rx ∨ b ∈ recvBufs s.recv ∨
      ∃! uid, Holds s uid b) ∧
    ∀ r, s.recv = .got r → recvSingle s r = some r.req.origin := by
  have inv : Conserved True s := exec_invariant_along HandedBack
    (fun _ _ _ hi ok hs => step_conserved hi ok.1 (fun _ => ok.2) hs)
    ⟨probed_routed numBufs, probed_kept numBufs⟩ along run
  refine ⟨fun b hb => ?_, fun r hr => recvSingle_found inv.routed hr⟩
  rcases inv.kept.cover trivial b hb with hmem | ⟨uid, hu⟩
  · rcases List.mem_append.mp hmem with hmem | hrecv
    · rcases List.mem_append.mp hmem with havail | hused
      · exact Or.inl havail
      · exact Or.inr (Or.inl hused)
    · exact Or.inr (Or.inr (Or.inl hrecv))
  · exact Or.inr (Or.inr (Or.inr ⟨uid, hu, fun v hv => inv.kept.single v uid b hv hu⟩))

theorem answeredRun_handedBack : Along step HandedBack (State.probed 2)
    (answeredRun ++ [.closeTake 0, .giveBack 0 true]) := by
  refine along_append (along_of_forall (fun a ha s => ?_) _) rfl (along_cons ⟨?_, ?_⟩ rfl ?_)
  · simp only [answeredRun, List.mem_cons, List.not_mem_nil, or_false] at ha
    rcases ha with rfl | rfl | rfl | rfl | rfl | rfl | rfl | rfl | rfl | rfl | rfl | rfl | rfl <;>
      exact ⟨trivial, fun _ _ hc => by cases hc⟩
  · intro m hm
    obtain rfl := Option.some.inj hm
    simp
  · exact fun _ _ hc => by cases hc
  · refine along_cons ⟨trivial, fun v added hc => ?_⟩ rfl trivial
    cases hc
    rfl

theorem answeredRun_keeps_buffers : ∃ s,
    exec step (State.probed 2) (answeredRun ++ [.closeTake 0, .giveBack 0 true]) = some s ∧
    s.numBufs = 2 ∧
    (∀ b, b < s.numBufs → b ∈ s.rvqAvail ∨ b ∈ s.rvqUsed.map Rsp.rx ∨ b ∈ recvBufs s.recv ∨
      ∃! uid, Holds s uid b) ∧
    ∀ r, s.recv = .got r → recvSingle s r = some r.req.origin :=
  ⟨_, rfl, rfl, receive_buffers_kept 2 _ _ answeredRun_handedBack rfl⟩

/-- The response to a freed message is rejected, and its buffer is gone. -/
theorem rejected_buffer_lost : ∃ s, exec step (State.probed 1)
      (abandonedRun ++ [.reply ⟨0, 0⟩ 0 610, .recvGet, .recvLookup]) = some s ∧
    0 < s.numBufs ∧ 0 ∉ s.rvqAvail ∧ 0 ∉ s.rvqUsed.map Rsp.rx ∧ 0 ∉ recvBufs s.recv ∧
    ∀ uid, ¬ Holds s uid 0 := by
  refine ⟨_, rfl, by decide, by decide, by decide, by decide, ?_⟩
  rintro uid ⟨m, hm, -⟩
  cases uid with
  | zero => cases hm
  | succ v => cases hm

end ReceiveBuffers
