import PlatformKernel.ReceiveBuffers
import PlatformKernel.TransmitOwnership

/-!
# What the buffers hold

The bytes of a message are in a transmit buffer that goes from message to message, those of
its response in a receive buffer that does the same, and nothing but the order of the steps
keeps one call from the data of another. Here the buffers have contents, of any type: the
owner stores into its transmit buffer until it sends it, the back end reads the buffer when
it takes the request and fills a receive buffer when it answers. In every interleaving the
back end finds what was sent, and a caller finds what was answered to it.
-/

namespace MessageContents

open GuardedRuns
open MessageTransport (Uid TxId RxId Req Rsp Msg Recv OwnerMoves RecvMoves)
open MessageDelivery (Routed inFlight recvReqs)
open ReceiveBuffers (Holds Conserved rxQueue)
open TransmitOwnership (Owned)

/-- What goes from one side to the other: the bytes of a buffer, and those of the staging
pages that it describes. -/
structure Letter (B P : Type) where
  bytes : B
  pages : P

variable {B P : Type}

/-- `pages` is the memory of the staging buffers of the message's call, which no other call
has. The last three fields are history: what was handed to the queue, what the back end
found, and what it answered to what. -/
structure State (B P : Type) where
  transport : MessageTransport.State
  tx : TxId → B
  rx : RxId → B
  pages : Uid → P
  sent : Uid → Option (Letter B P)
  taken : Uid → Option (Letter B P)
  exchanged : Uid → Option (Letter B P × Letter B P)

def State.probed (numBufs : Nat) (tx : TxId → B) (rx : RxId → B) (pages : Uid → P) :
    State B P where
  transport := .probed numBufs
  tx := tx
  rx := rx
  pages := pages
  sent := fun _ => none
  taken := fun _ => none
  exchanged := fun _ => none

inductive Action (B P : Type) where
  | write (uid : Uid) (bytes : B → B) (pages : P → P)
  | send (uid : Uid)
  | consume (tx : TxId) (q : Req)
  | reply (q : Req) (rx : RxId) (len : Nat) (answer : Letter B P)
  | other (a : MessageTransport.Action)

/-- The steps with which contents change hands. -/
def carries : MessageTransport.Action → Bool
  | .send _ => true
  | .consume _ _ => true
  | .reply _ _ _ => true
  | _ => false

def Action.transport : Action B P → Option MessageTransport.Action
  | .write _ _ _ => none
  | .send uid => some (.send uid)
  | .consume tx q => some (.consume tx q)
  | .reply q rx len _ => some (.reply q rx len)
  | .other a => some a

/-- The transmit buffer of a message that is being built. -/
def building (s : MessageTransport.State) (uid : Uid) : Option TxId :=
  (s.msgs uid).bind fun m => if m.stage = .built then m.txbuf else none

def step (s : State B P) : Action B P → Option (State B P)
  | .write uid bytes pages =>
    (building s.transport uid).map fun b =>
      { s with
        tx := Function.update s.tx b (bytes (s.tx b))
        pages := Function.update s.pages uid (pages (s.pages uid)) }
  | .send uid =>
    (building s.transport uid).bind fun b =>
      (MessageTransport.step s.transport (.send uid)).map fun t =>
        { s with
          transport := t
          sent := Function.update s.sent uid (some ⟨s.tx b, s.pages uid⟩) }
  | .consume tx q =>
    (MessageTransport.step s.transport (.consume tx q)).map fun t =>
      { s with
        transport := t
        taken := Function.update s.taken q.origin (some ⟨s.tx tx, s.pages q.origin⟩) }
  | .reply q rx len answer =>
    (MessageTransport.step s.transport (.reply q rx len)).bind fun t =>
      (s.taken q.origin).map fun request =>
        { s with
          transport := t
          rx := Function.update s.rx rx answer.bytes
          pages := Function.update s.pages q.origin answer.pages
          exchanged := Function.update s.exchanged q.origin (some (request, answer)) }
  | .other a =>
    if carries a then none
    else (MessageTransport.step s.transport a).map fun t => { s with transport := t }

/-- Contents do not influence what the transport does. -/
theorem step_transport {s t : State B P} {a : Action B P} (h : step s a = some t) :
    (∃ a', a.transport = some a' ∧ MessageTransport.step s.transport a' = some t.transport) ∨
      a.transport = none ∧ t.transport = s.transport := by
  cases a with
  | write uid bytes pages =>
    obtain ⟨b, -, rfl⟩ := Option.map_eq_some_iff.mp h
    exact Or.inr ⟨rfl, rfl⟩
  | send uid =>
    obtain ⟨b, -, moved⟩ := Option.bind_eq_some_iff.mp h
    obtain ⟨u, hu, rfl⟩ := Option.map_eq_some_iff.mp moved
    exact Or.inl ⟨_, rfl, hu⟩
  | consume tx q =>
    obtain ⟨u, hu, rfl⟩ := Option.map_eq_some_iff.mp h
    exact Or.inl ⟨_, rfl, hu⟩
  | reply q rx len answer =>
    obtain ⟨u, hu, found⟩ := Option.bind_eq_some_iff.mp h
    obtain ⟨request, -, rfl⟩ := Option.map_eq_some_iff.mp found
    exact Or.inl ⟨_, rfl, hu⟩
  | other a =>
    obtain ⟨-, moved⟩ := Option.ite_none_left_eq_some.mp h
    obtain ⟨u, hu, rfl⟩ := Option.map_eq_some_iff.mp moved
    exact Or.inl ⟨_, rfl, hu⟩

def recvRsps : Recv → List Rsp
  | .got r => [r]
  | .found r _ => [r]
  | _ => []

/-- Responses on their way from the back end to a message. -/
def responses (s : MessageTransport.State) : List Rsp := s.rvqUsed ++ recvRsps s.recv

section Transport

variable {s t : MessageTransport.State} {a : MessageTransport.Action} {uid v : Uid} {m : Msg}
  {b : RxId}

/-- Nothing is sent, taken or answered; a message may get a response that was on its way. -/
structure Calm (s t : MessageTransport.State) : Prop where
  queued : t.svqQueued = s.svqQueued
  backend : t.backend = s.backend
  responses : ∀ r ∈ responses t, r ∈ responses s
  held : ∀ uid b, Holds t uid b → Holds s uid b ∨ ∃ r, s.recv = .found r uid ∧ r.rx = b

theorem calm_of_same (queued : t.svqQueued = s.svqQueued) (backend : t.backend = s.backend)
    (used : t.rvqUsed = s.rvqUsed) (recv : t.recv = s.recv)
    (held : ∀ uid b, Holds t uid b → Holds s uid b) : Calm s t := by
  refine ⟨queued, backend, fun r hr => ?_, fun uid b h => Or.inl (held uid b h)⟩
  rw [responses, used, recv] at hr
  exact hr

/-- Only `send` appends to the send queue. -/
theorem ownerStep_queued (h : MessageTransport.ownerStep s uid m a = some t)
    (calm : carries a = false) : t.svqQueued = s.svqQueued := by
  cases a with
  | send w => cases calm
  | getTx w =>
    replace h := (Option.ite_none_right_eq_some.mp h).2
    split at h
    · rename_i b s' taken
      obtain ⟨last, used, rfl⟩ := MessageTransport.getATxBuf_some taken
      obtain rfl := Option.some.inj h
      rfl
    · rename_i s' taken
      obtain rfl := MessageTransport.getATxBuf_none taken
      obtain rfl := Option.some.inj h
      rfl
  | giveBack w added =>
    obtain ⟨-, h⟩ := Option.ite_none_right_eq_some.mp h
    split at h
    · obtain rfl := Option.some.inj h
      rfl
    · obtain rfl := Option.some.inj h
      rfl
  | buildFail w | sendFail w | finish w | interrupt w saved | resume w | takeAsync w
  | closeTake w | free w =>
    obtain ⟨-, h⟩ := Option.ite_none_right_eq_some.mp h
    obtain rfl := Option.some.inj h
    rfl
  | _ => cases h

theorem ownerMoves_backend (moves : OwnerMoves s uid m a t) :
    t.backend = s.backend ∧ t.rvqUsed = s.rvqUsed ∧ t.recv = s.recv := by
  cases moves with
  | takeTx stage taken =>
    obtain ⟨last, used, rfl⟩ := MessageTransport.getATxBuf_some taken
    exact ⟨rfl, rfl, rfl⟩
  | restage restaged => exact ⟨rfl, rfl, rfl⟩
  | send stage txbuf => exact ⟨rfl, rfl, rfl⟩
  | giveBack stage rxbuf action => exact ⟨rfl, rfl, rfl⟩
  | free stage => exact ⟨rfl, rfl, rfl⟩

/-- An owner that goes on holds no response that it did not hold. -/
theorem holds_of_setMsg {k : Msg} (live : s.msgs uid = some m) (rxbuf : k.rxbuf = m.rxbuf)
    (before : k.stage ≠ .freeing → m.stage ≠ .freeing)
    (h : Holds (s.setMsg uid (some k)) v b) : Holds s v b := by
  rw [ReceiveBuffers.holds_setMsg] at h
  split at h
  · rename_i same
    subst same
    exact ⟨m, live, rxbuf ▸ h.1, before h.2⟩
  · exact h

theorem ownerMoves_held (live : s.msgs uid = some m) (moves : OwnerMoves s uid m a t)
    (h : Holds t v b) : Holds s v b := by
  cases moves with
  | takeTx stage taken =>
    obtain ⟨last, used, rfl⟩ := MessageTransport.getATxBuf_some taken
    exact holds_of_setMsg (k := { m with txbuf := _, stage := .built }) live rfl
      (fun _ => by rw [stage]; decide) h
  | restage restaged => exact holds_of_setMsg live restaged.rxbuf (fun _ => restaged.live) h
  | send stage txbuf =>
    exact holds_of_setMsg (k := { m with sent := true, stage := m.kind.sentStage }) live rfl
      (fun _ => by rw [stage]; decide) h
  | giveBack stage rxbuf action =>
    exact holds_of_setMsg (k := { m with stage := .freeing }) live rfl
      (fun _ => by rw [stage]; decide) h
  | free stage =>
    obtain ⟨n, hn, rest⟩ := h
    exact ⟨n, (MessageTransport.virtFreeMsg_live hn).2, rest⟩

/-- The interrupt writes to one message, and the others hold what they held. -/
theorem holds_of_map {f : Msg → Msg} (h : Holds (s.setMsg uid ((s.msgs uid).map f)) v b) :
    (v = uid ∧ ∃ m, s.msgs uid = some m ∧ (f m).rxbuf = some b ∧ (f m).stage ≠ .freeing) ∨
      Holds s v b := by
  obtain ⟨n, hn, rxbuf, stage⟩ := h
  rw [MessageTransport.msgs_setMsg] at hn
  split at hn
  · rename_i same
    obtain ⟨m, live, rfl⟩ := Option.map_eq_some_iff.mp hn
    exact Or.inl ⟨same, m, live, rxbuf, stage⟩
  · exact Or.inr ⟨n, hn, rxbuf, stage⟩

theorem recvMoves_calm (moves : RecvMoves s t) : Calm s t := by
  cases moves with
  | get idle used =>
    refine ⟨rfl, rfl, fun r hr => ?_, fun _ _ h => Or.inl h⟩
    simp only [responses, recvRsps, used, idle, List.mem_append, List.mem_cons] at hr ⊢
    tauto
  | found got lookup =>
    refine ⟨rfl, rfl, fun r hr => ?_, fun _ _ h => Or.inl h⟩
    simpa only [responses, recvRsps, got] using hr
  | rejected got lookup =>
    refine ⟨rfl, rfl, fun r hr => ?_, fun _ _ h => Or.inl h⟩
    exact List.mem_append_left _ (by simpa [responses, recvRsps] using hr)
  | @attach r uid found =>
    refine ⟨rfl, rfl, fun r hr => ?_, fun v b h => ?_⟩
    · simp only [responses, recvRsps, List.append_nil] at hr
      exact List.mem_append_left _ hr
    · rcases holds_of_map h with ⟨rfl, m, -, rxbuf, -⟩ | before
      · exact Or.inr ⟨r, found, Option.some.inj rxbuf⟩
      · exact Or.inl before
  | @complete uid attached =>
    refine ⟨rfl, rfl, fun r hr => ?_, fun v b h => Or.inl ?_⟩
    · simp only [responses, recvRsps, List.append_nil] at hr
      exact List.mem_append_left _ hr
    · rcases holds_of_map h with ⟨rfl, before⟩ | before
      · exact before
      · exact before

theorem step_calm (h : MessageTransport.step s a = some t) (calm : carries a = false) :
    Calm s t := by
  have owner : ∀ uid, (s.msgs uid).bind (fun m => MessageTransport.ownerStep s uid m a) = some t →
      Calm s t := by
    intro uid bound
    obtain ⟨m, live, own⟩ := Option.bind_eq_some_iff.mp bound
    have moves := MessageTransport.ownerStep_moves own
    obtain ⟨backend, used, recv⟩ := ownerMoves_backend moves
    exact calm_of_same (ownerStep_queued own calm) backend used recv
      fun _ _ => ownerMoves_held live moves
  cases a with
  | send w | consume w q | reply q w len => cases calm
  | openFile f | closeBegin f | drainBegin f =>
    obtain ⟨-, h⟩ := Option.ite_none_right_eq_some.mp h
    obtain rfl := Option.some.inj h
    exact calm_of_same rfl rfl rfl rfl fun _ _ held => held
  | claim f kind =>
    obtain ⟨-, h⟩ := Option.ite_none_right_eq_some.mp h
    obtain ⟨i, -, rfl⟩ := Option.map_eq_some_iff.mp h
    refine calm_of_same rfl rfl rfl rfl fun v b held => ?_
    obtain ⟨n, hn, rxbuf, stage⟩ := held
    simp only [Function.update_apply] at hn
    split at hn
    · obtain rfl := Option.some.inj hn
      cases rxbuf
    · exact ⟨n, hn, rxbuf, stage⟩
  | recvGet => exact recvMoves_calm (MessageTransport.recvStep_moves (a := .recvGet) h)
  | recvLookup => exact recvMoves_calm (MessageTransport.recvStep_moves (a := .recvLookup) h)
  | recvAttach => exact recvMoves_calm (MessageTransport.recvStep_moves (a := .recvAttach) h)
  | recvComplete => exact recvMoves_calm (MessageTransport.recvStep_moves (a := .recvComplete) h)
  | _ => exact owner _ h

end Transport

/-- The back end has found what the owner sent. -/
def State.Found (s : State B P) (uid : Uid) : Prop :=
  ∃ request, s.sent uid = some request ∧ s.taken uid = some request

/-- Receive buffer `b`, with the pages of message `uid`, holds what the back end answered to
what the owner of `uid` sent. -/
def State.Returned (s : State B P) (uid : Uid) (b : RxId) : Prop :=
  ∃ request, s.sent uid = some request ∧
    s.exchanged uid = some (request, ⟨s.rx b, s.pages uid⟩)

structure Intact (s : State B P) : Prop where
  queued : ∀ b q, (b, q) ∈ s.transport.svqQueued →
    s.sent q.origin = some ⟨s.tx b, s.pages q.origin⟩
  taken : ∀ q ∈ s.transport.backend, s.Found q.origin
  answered : ∀ r ∈ responses s.transport, s.Returned r.req.origin r.rx
  held : ∀ uid b, Holds s.transport uid b → s.Returned uid b

/-- Buffers and messages are where they should be, and so are the contents. -/
structure Inv (s : State B P) : Prop where
  conserved : Conserved False s.transport
  owned : Owned s.transport
  intact : Intact s

theorem probed_inv (numBufs : Nat) (tx : TxId → B) (rx : RxId → B) (pages : Uid → P) :
    Inv (State.probed numBufs tx rx pages) where
  conserved := ⟨MessageDelivery.probed_routed numBufs, ReceiveBuffers.probed_kept numBufs⟩
  owned := TransmitOwnership.probed_owned numBufs
  intact := by
    refine ⟨fun b q h => ?_, fun q h => ?_, fun r h => ?_, fun uid b h => ?_⟩
    · cases h
    · cases h
    · cases h
    · obtain ⟨m, hm, -⟩ := h
      cases hm

section Flight

variable {s : MessageTransport.State} {q : Req} {b : TxId} {r : Rsp} {uid : Uid} {m : Msg}

theorem queued_inFlight (h : (b, q) ∈ s.svqQueued) : q ∈ inFlight s := by
  have listed : q ∈ s.svqQueued.map Prod.snd := List.mem_map.mpr ⟨_, h, rfl⟩
  simp [inFlight, listed]

theorem backend_inFlight (h : q ∈ s.backend) : q ∈ inFlight s := by
  simp [inFlight, h]

theorem inFlight_eq (s : MessageTransport.State) :
    inFlight s = s.svqQueued.map Prod.snd ++ s.backend ++ (responses s).map Rsp.req := by
  have reqs : (recvRsps s.recv).map Rsp.req = recvReqs s.recv := by
    cases s.recv <;> rfl
  rw [responses, List.map_append, reqs, ← List.append_assoc]
  rfl

theorem responses_inFlight (h : r ∈ responses s) : r.req ∈ inFlight s := by
  rw [inFlight_eq]
  exact List.mem_append_right _ (List.mem_map.mpr ⟨r, h, rfl⟩)

/-- A request of a message without a response is not that of a message still being built. -/
theorem origin_ne_building (routed : Routed s) (live : s.msgs uid = some m)
    (stage : m.stage = .built) (h : q ∈ inFlight s) : q.origin ≠ uid := by
  rintro rfl
  obtain ⟨n, hn, -, sent, -⟩ := routed.awaits q h
  obtain rfl := Option.some.inj (live.symm.trans hn)
  rw [((routed.settled _ _ live).early (Or.inr stage)).1] at sent
  cases sent

theorem holder_ne_building (routed : Routed s) (live : s.msgs uid = some m)
    (stage : m.stage = .built) {v : Uid} {x : RxId} (h : Holds s v x) : v ≠ uid := by
  rintro rfl
  obtain ⟨n, hn, rxbuf, -⟩ := h
  obtain rfl := Option.some.inj (live.symm.trans hn)
  rw [((routed.settled _ _ live).early (Or.inr stage)).2] at rxbuf
  cases rxbuf

theorem holder_ne_origin (routed : Routed s) (h : q ∈ inFlight s) {v : Uid} {x : RxId}
    (held : Holds s v x) : v ≠ q.origin := by
  rintro rfl
  obtain ⟨n, hn, -, -, none⟩ := routed.awaits q h
  obtain ⟨m, hm, rxbuf, -⟩ := held
  obtain rfl := Option.some.inj (hn.symm.trans hm)
  rw [none] at rxbuf
  cases rxbuf

/-- The request that the back end works on is nowhere else. -/
theorem backend_once (routed : Routed s) (h : q ∈ s.backend) :
    (∀ b q', (b, q') ∈ s.svqQueued → q'.origin ≠ q.origin) ∧
      ∀ r ∈ responses s, r.req.origin ≠ q.origin := by
  have once := routed.once
  rw [inFlight_eq, List.map_append, List.map_append] at once
  obtain ⟨front, -, second⟩ := List.nodup_append.mp once
  obtain ⟨-, -, first⟩ := List.nodup_append.mp front
  have here : q.origin ∈ s.backend.map Req.origin := List.mem_map.mpr ⟨q, h, rfl⟩
  constructor
  · intro b q' queued
    exact first _ (List.mem_map.mpr ⟨q', List.mem_map.mpr ⟨_, queued, rfl⟩, rfl⟩) _ here
  · intro r hr
    exact (second _ (List.mem_append_right _ here) _
      (List.mem_map.mpr ⟨r.req, List.mem_map.mpr ⟨r, hr, rfl⟩, rfl⟩)).symm

/-- A receive buffer that the back end may fill holds no response. -/
theorem available_unused (kept : ReceiveBuffers.Kept False s) {x : RxId} (avail : x ∈ s.rvqAvail) :
    (∀ r ∈ responses s, r.rx ≠ x) ∧ ∀ v y, Holds s v y → y ≠ x := by
  have bufs : (recvRsps s.recv).map Rsp.rx = ReceiveBuffers.recvBufs s.recv := by
    cases s.recv <;> rfl
  have queue : rxQueue s = s.rvqAvail ++ (responses s).map Rsp.rx := by
    rw [responses, List.map_append, bufs, ← List.append_assoc]
    rfl
  constructor
  · intro r hr
    have nodup := kept.nodup
    rw [queue] at nodup
    exact ((List.nodup_append.mp nodup).2.2 _ avail _ (List.mem_map.mpr ⟨r, hr, rfl⟩)).symm
  · rintro v y held rfl
    refine kept.apart v y held ?_
    rw [queue]
    exact List.mem_append_left _ avail

theorem building_iff {x : TxId} : building s uid = some x ↔
    ∃ m, s.msgs uid = some m ∧ m.stage = .built ∧ m.txbuf = some x := by
  simp only [building, Option.bind_eq_some_iff, Option.ite_none_right_eq_some]

/-- The buffer of a message that is being built is not in the send queue. -/
theorem building_unqueued (owned : Owned s) {x : TxId} (h : building s uid = some x) :
    ∀ q, (x, q) ∉ s.svqQueued := by
  obtain ⟨m, live, stage, txbuf⟩ := building_iff.mp h
  have holds : TransmitOwnership.Holds s uid x :=
    ⟨m, live, txbuf, owned.early uid m live (Or.inr stage)⟩
  intro q queued
  exact (owned.held uid x holds).2 (List.mem_append_left _ (List.mem_map.mpr ⟨_, queued, rfl⟩))

end Flight

section Steps

variable {s t : State B P} {uid : Uid} {q : Req}

/-- Changes elsewhere leave a returned message alone. -/
theorem State.Returned.mono {b : RxId} (h : s.Returned uid b) (sent : t.sent uid = s.sent uid)
    (exchanged : t.exchanged uid = s.exchanged uid) (rx : t.rx b = s.rx b)
    (pages : t.pages uid = s.pages uid) : t.Returned uid b := by
  obtain ⟨request, asked, answered⟩ := h
  exact ⟨request, sent.trans asked, by rw [exchanged, answered, rx, pages]⟩

theorem write_intact (h : Inv s) {x : TxId} (built : building s.transport uid = some x)
    (bytes : B) (pages : P) :
    Intact { s with
      tx := Function.update s.tx x bytes
      pages := Function.update s.pages uid pages } := by
  obtain ⟨m, live, stage, -⟩ := building_iff.mp built
  have routed := h.conserved.routed
  have origin : ∀ q ∈ inFlight s.transport, q.origin ≠ uid := fun q =>
    origin_ne_building routed live stage
  have kept : ∀ v, v ≠ uid → Function.update s.pages uid pages v = s.pages v := fun v ne =>
    Function.update_of_ne ne _ _
  refine ⟨fun b q queued => ?_, h.intact.taken, fun r hr => ?_, fun v b held => ?_⟩
  · have other : b ≠ x := by
      rintro rfl
      exact building_unqueued h.owned built q queued
    change s.sent q.origin =
      some ⟨Function.update s.tx x bytes b, Function.update s.pages uid pages q.origin⟩
    rw [Function.update_of_ne other, kept _ (origin q (queued_inFlight queued))]
    exact h.intact.queued b q queued
  · exact (h.intact.answered r hr).mono rfl rfl rfl (kept _ (origin _ (responses_inFlight hr)))
  · exact (h.intact.held v b held).mono rfl rfl rfl
      (kept _ (holder_ne_building routed live stage held))

theorem send_intact (h : Inv s) {x : TxId} {u : MessageTransport.State}
    (built : building s.transport uid = some x)
    (hstep : MessageTransport.step s.transport (.send uid) = some u) :
    Intact { s with
      transport := u
      sent := Function.update s.sent uid (some ⟨s.tx x, s.pages uid⟩) } := by
  obtain ⟨m, live, stage, txbuf⟩ := building_iff.mp built
  have routed := h.conserved.routed
  have origin : ∀ q ∈ inFlight s.transport, q.origin ≠ uid := fun q =>
    origin_ne_building routed live stage
  have kept : ∀ v, v ≠ uid →
      Function.update s.sent uid (some ⟨s.tx x, s.pages uid⟩) v = s.sent v := fun v ne =>
    Function.update_of_ne ne _ _
  have moved : u = { s.transport.setMsg uid (some { m with
        sent := true
        stage := m.kind.sentStage }) with
      svqQueued := s.transport.svqQueued ++ [(x, ⟨uid, m.msgid⟩)] } := by
    obtain ⟨n, hn, own⟩ := Option.bind_eq_some_iff.mp hstep
    obtain rfl := Option.some.inj (live.symm.trans hn)
    simpa only [MessageTransport.ownerStep, stage, txbuf, if_true, Option.some.injEq, eq_comm]
      using own
  subst moved
  refine ⟨fun b q queued => ?_, fun q hq => ?_, fun r hr => ?_, fun v b held => ?_⟩
  · rcases List.mem_append.mp queued with old | new
    · exact (kept _ (origin q (queued_inFlight old))).trans (h.intact.queued b q old)
    · obtain ⟨rfl, rfl⟩ := Prod.mk.inj (List.mem_singleton.mp new)
      exact Function.update_self _ _ _
  · obtain ⟨request, asked, found⟩ := h.intact.taken q hq
    exact ⟨request, (kept _ (origin q (backend_inFlight hq))).trans asked, found⟩
  · exact (h.intact.answered r hr).mono (kept _ (origin _ (responses_inFlight hr))) rfl rfl rfl
  · have before : Holds s.transport v b :=
      holds_of_setMsg (k := { m with sent := true, stage := m.kind.sentStage }) live rfl
        (fun _ => by rw [stage]; decide) held
    exact (h.intact.held v b before).mono (kept _ (holder_ne_building routed live stage before))
      rfl rfl rfl

theorem consume_intact (h : Inv s) {x : TxId} {u : MessageTransport.State}
    (hstep : MessageTransport.step s.transport (.consume x q) = some u) :
    Intact { s with
      transport := u
      taken := Function.update s.taken q.origin (some ⟨s.tx x, s.pages q.origin⟩) } := by
  obtain ⟨queued, moved⟩ := Option.ite_none_right_eq_some.mp hstep
  obtain rfl := Option.some.inj moved
  have sent := h.intact.queued x q queued
  refine ⟨fun b q' old => h.intact.queued b q' (List.mem_of_mem_erase old), fun q' hq' => ?_,
    h.intact.answered, h.intact.held⟩
  by_cases same : q'.origin = q.origin
  · exact ⟨_, same ▸ sent, by rw [same]; exact Function.update_self _ _ _⟩
  · rcases List.mem_append.mp hq' with old | new
    · obtain ⟨request, asked, found⟩ := h.intact.taken q' old
      exact ⟨request, asked, (Function.update_of_ne same _ _).trans found⟩
    · exact absurd (congrArg Req.origin (List.mem_singleton.mp new)) same

theorem reply_intact (h : Inv s) {x : RxId} {len : Nat} {request answer : Letter B P}
    {u : MessageTransport.State}
    (hstep : MessageTransport.step s.transport (.reply q x len) = some u)
    (found : s.taken q.origin = some request) :
    Intact { s with
      transport := u
      rx := Function.update s.rx x answer.bytes
      pages := Function.update s.pages q.origin answer.pages
      exchanged := Function.update s.exchanged q.origin (some (request, answer)) } := by
  obtain ⟨⟨hq, avail⟩, moved⟩ := Option.ite_none_right_eq_some.mp hstep
  obtain rfl := Option.some.inj moved
  obtain ⟨notQueued, notAnswered⟩ := backend_once h.conserved.routed hq
  obtain ⟨unused, unheld⟩ := available_unused h.conserved.kept avail
  refine ⟨fun b q' queued => ?_, fun q' hq' => h.intact.taken q' (List.mem_of_mem_erase hq'),
    fun r hr => ?_, fun v b held => ?_⟩
  · change s.sent q'.origin = some ⟨s.tx b, Function.update s.pages _ _ _⟩
    rw [Function.update_of_ne (notQueued b q' queued)]
    exact h.intact.queued b q' queued
  · have cases : r = ⟨x, q, len, len⟩ ∨ r ∈ responses s.transport := by
      simp only [responses, List.mem_append, List.mem_singleton] at hr ⊢
      tauto
    rcases cases with rfl | old
    · obtain ⟨first, asked, taken⟩ := h.intact.taken q hq
      obtain rfl := Option.some.inj (found.symm.trans taken)
      exact ⟨request, asked, by simp⟩
    · have other := notAnswered r old
      exact (h.intact.answered r old).mono rfl (Function.update_of_ne other _ _)
        (Function.update_of_ne (unused r old) _ _) (Function.update_of_ne other _ _)
  · have other := holder_ne_origin h.conserved.routed (backend_inFlight hq) held
    exact (h.intact.held v b held).mono rfl (Function.update_of_ne other _ _)
      (Function.update_of_ne (unheld v b held) _ _) (Function.update_of_ne other _ _)

theorem calm_intact (h : Inv s) {u : MessageTransport.State} (calm : Calm s.transport u) :
    Intact { s with transport := u } := by
  refine ⟨fun b q queued => ?_, fun q hq => ?_, fun r hr => ?_, fun v b held => ?_⟩
  · rw [calm.queued] at queued
    exact h.intact.queued b q queued
  · rw [calm.backend] at hq
    exact h.intact.taken q hq
  · exact h.intact.answered r (calm.responses r hr)
  · rcases calm.held v b held with before | ⟨r, found, rfl⟩
    · exact h.intact.held v b before
    · -- the interrupt attaches a response to the message that asked
      have mine := h.conserved.routed.found r v found
      have listed : r ∈ responses s.transport := by
        simp [responses, recvRsps, found]
      exact mine ▸ h.intact.answered r listed

theorem step_intact {a : Action B P} (h : Inv s) (hstep : step s a = some t) : Intact t := by
  cases a with
  | write uid bytes pages =>
    obtain ⟨x, built, rfl⟩ := Option.map_eq_some_iff.mp hstep
    exact write_intact h built _ _
  | send uid =>
    obtain ⟨x, built, moved⟩ := Option.bind_eq_some_iff.mp hstep
    obtain ⟨u, hu, rfl⟩ := Option.map_eq_some_iff.mp moved
    exact send_intact h built hu
  | consume x q =>
    obtain ⟨u, hu, rfl⟩ := Option.map_eq_some_iff.mp hstep
    exact consume_intact h hu
  | reply q x len answer =>
    obtain ⟨u, hu, moved⟩ := Option.bind_eq_some_iff.mp hstep
    obtain ⟨request, found, rfl⟩ := Option.map_eq_some_iff.mp moved
    exact reply_intact h hu found
  | other a =>
    obtain ⟨calm, moved⟩ := Option.ite_none_left_eq_some.mp hstep
    obtain ⟨u, hu, rfl⟩ := Option.map_eq_some_iff.mp moved
    exact calm_intact h (step_calm hu (Bool.eq_false_iff.mpr calm))

/-- Files are only drained of answered messages. -/
def InOrder (s : State B P) (a : Action B P) : Prop :=
  ∀ a', a.transport = some a' → MessageDelivery.Answered s.transport a'

theorem step_inv {a : Action B P} (h : Inv s) (ok : InOrder s a) (hstep : step s a = some t) :
    Inv t := by
  have intact := step_intact h hstep
  rcases step_transport hstep with ⟨a', moved, hmove⟩ | ⟨-, same⟩
  · exact ⟨ReceiveBuffers.step_conserved h.conserved (ok a' moved) (fun none => none.elim) hmove,
      TransmitOwnership.step_owned h.owned hmove, intact⟩
  · exact ⟨same ▸ h.conserved, same ▸ h.owned, intact⟩

theorem run_inv {numBufs : Nat} {tx : TxId → B} {rx : RxId → B} {pages : Uid → P}
    {as : List (Action B P)} (along : Along step InOrder (State.probed numBufs tx rx pages) as)
    (run : exec step (State.probed numBufs tx rx pages) as = some s) : Inv s :=
  exec_invariant_along InOrder (fun _ _ _ h ok hs => step_inv h ok hs)
    (probed_inv numBufs tx rx pages) along run

end Steps

/-- In every interleaving of callers, back end and interrupt, whatever the recycled buffers
held: a request that the back end works on reads as its owner sent it, and a message that is
completed has a receive buffer that holds, until it is handed back, what the back end answered
to just that request. -/
theorem contents_arrive (numBufs : Nat) (tx : TxId → B) (rx : RxId → B) (pages : Uid → P)
    (as : List (Action B P)) (s : State B P)
    (along : Along step InOrder (State.probed numBufs tx rx pages) as)
    (run : exec step (State.probed numBufs tx rx pages) as = some s) :
    (∀ q ∈ s.transport.backend, s.Found q.origin) ∧
      ∀ uid m, s.transport.msgs uid = some m → m.completed = true → m.stage ≠ .freeing →
        ∃ b, m.rxbuf = some b ∧ s.Returned uid b := by
  have inv := run_inv along run
  refine ⟨inv.intact.taken, fun uid m live completed stage => ?_⟩
  have response := (inv.conserved.routed.settled uid m live).answered (Or.inl completed)
  obtain ⟨b, rxbuf⟩ := Option.ne_none_iff_exists'.mp response
  exact ⟨b, rxbuf, inv.intact.held uid b ⟨m, live, rxbuf, stage⟩⟩

/-- Two messages are built at the same time, sent in one order, taken in the other, and
answered in the first again. -/
def crossed : List (Action Nat Nat) :=
  [.other (.openFile 0), .other (.claim 0 .invoke), .other (.claim 0 .command),
    .other (.getTx 0), .other (.getTx 1), .write 1 (fun _ => 8) id, .write 0 (fun _ => 7) (· + 5),
    .send 1, .send 0, .consume 0 ⟨0, 0⟩, .consume 1 ⟨1, 1⟩, .reply ⟨1, 1⟩ 1 26 ⟨80, 0⟩,
    .reply ⟨0, 0⟩ 0 610 ⟨70, 50⟩, .other .recvGet, .other .recvLookup, .other .recvAttach,
    .other .recvComplete, .other .recvGet, .other .recvLookup, .other .recvAttach,
    .other .recvComplete]

def blank : State Nat Nat := State.probed 2 (fun _ => 1) (fun _ => 2) (fun _ => 3)

theorem crossed_inOrder : Along step InOrder blank crossed := by
  refine along_of_forall (fun a ha s => ?_) _
  simp only [crossed, List.mem_cons, List.not_mem_nil, or_false] at ha
  intro a' moved
  rcases ha with rfl | rfl | rfl | rfl | rfl | rfl | rfl | rfl | rfl | rfl | rfl | rfl | rfl | rfl |
    rfl | rfl | rfl | rfl | rfl | rfl | rfl <;> cases moved <;> exact trivial

/-- The responses of the two messages, as their owners see them. -/
def readBack (s : State Nat Nat) : List (Option RxId × Nat × Nat) :=
  [0, 1].map fun uid =>
    ((s.transport.msgs uid).bind Msg.rxbuf, s.rx ((s.transport.msgs uid).bind Msg.rxbuf |>.getD 2),
      s.pages uid)

theorem crossed_arrives : ∃ s, exec step blank crossed = some s ∧
    readBack s = [(some 0, 70, 50), (some 1, 80, 0)] ∧
      (∀ q ∈ s.transport.backend, s.Found q.origin) ∧
      ∀ uid m, s.transport.msgs uid = some m → m.completed = true → m.stage ≠ .freeing →
        ∃ b, m.rxbuf = some b ∧ s.Returned uid b := by
  have seen : (exec step blank crossed).map readBack =
      some [(some 0, 70, 50), (some 1, 80, 0)] := by decide
  obtain ⟨s, run, back⟩ := Option.map_eq_some_iff.mp seen
  exact ⟨s, run, back,
    contents_arrive 2 (fun _ => 1) (fun _ => 2) (fun _ => 3) crossed s crossed_inOrder run⟩

end MessageContents
