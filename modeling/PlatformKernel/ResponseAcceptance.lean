import PlatformKernel.MessageTable
import PlatformKernel.ReturnCodes
import PlatformKernel.TransportFrames

/-!
# Which responses `recv_single` accepts

The transport with a back end that may hand over any buffer: any `msgid`, any length in
the header and any length reported by the queue. `recv_single` compares the two lengths
and looks the message up; it does not check the index, nor whether the message was sent
or already has its response. The theorem says for which buffers and tables that is enough.
-/

namespace ResponseAcceptance

open GuardedRuns MessageTable TransportFrames ReturnCodes
open MessageTransport (Uid RxId Rsp Msg OwnerMoves RecvMoves fastrpcMsgMax setMsg_forall
  step_moves)

/-- How often each message was completed, and the contexts of asynchronous jobs that were
put on the queue of their file, in order. -/
structure Signals where
  completions : Uid → Nat
  asyncQueue : List Uid

/-- `vfastrpc_queue_completed_async_job` for a job, `complete` for the other messages. -/
def Signals.signal (g : Signals) (uid : Uid) (m : Msg) : Signals :=
  if m.kind = .asyncInvoke then { g with asyncQueue := g.asyncQueue ++ [uid] }
  else { g with completions := Function.update g.completions uid (g.completions uid + 1) }

def Signals.Reached (g : Signals) (uid : Uid) : Prop :=
  g.completions uid ≠ 0 ∨ uid ∈ g.asyncQueue

structure State where
  net : MessageTransport.State
  signals : Signals

def State.probed (numBufs : Nat) : State where
  net := MessageTransport.State.probed numBufs
  signals := ⟨fun _ => 0, []⟩

inductive Action where
  | net (a : MessageTransport.Action)
  | inject (rx : RxId) (msgid : UInt16) (hdrLen len : UInt32)

/-- The lookup would read past the end of the table; what follows is not defined. -/
def astray (s : State) : MessageTransport.Action → Bool
  | .recvLookup =>
    match s.net.recv with
    | .got r => r.len == r.hdrLen && decide (fastrpcMsgMax ≤ r.req.msgid)
    | _ => false
  | _ => false

def signalsAfter (s : State) : MessageTransport.Action → Signals
  | .recvComplete =>
    match s.net.recv with
    | .attached uid => (s.net.msgs uid).elim s.signals (s.signals.signal uid)
    | _ => s.signals
  | _ => s.signals

/-- A buffer from outside answers no request. -/
def inject (net : MessageTransport.State) (rx : RxId) (msgid : UInt16) (hdrLen len : UInt32) :
    MessageTransport.State :=
  { net with
    rvqAvail := net.rvqAvail.erase rx
    rvqUsed := net.rvqUsed ++ [⟨rx, ⟨net.nextUid, msgid.toNat⟩, hdrLen.toNat, len.toNat⟩] }

def step (s : State) : Action → Option State
  | .net a =>
    if astray s a then none
    else (MessageTransport.step s.net a).map fun net => ⟨net, signalsAfter s a⟩
  | .inject rx msgid hdrLen len =>
    if rx ∈ s.net.rvqAvail then some { s with net := inject s.net rx msgid hdrLen len } else none

/-- The fields of `struct virt_msg_hdr` that `recv_single` uses. -/
structure Header where
  len : UInt32
  msgid : UInt16

/-- What a call does: the entry of the table it reads, what it returns, and the state it
leaves. -/
structure Call where
  index : Option Nat
  ret : Int
  state : State

/-- Set `rxbuf`, and queue the context or complete the message. -/
def deliver (s : State) (rx : RxId) (uid : Uid) : State where
  net := s.net.setMsg uid ((s.net.msgs uid).map fun m =>
    { m with rxbuf := some rx, completed := true })
  signals := (s.net.msgs uid).elim s.signals (s.signals.signal uid)

/-- `recv_single`; `beyond` is what lies behind the table in memory. -/
def recvSingle (s : State) (beyond : Nat → Option Uid) (rx : RxId) (hdr : Header)
    (len : UInt32) : Call :=
  if len ≠ hdr.len then ⟨none, -EINVAL, s⟩
  else
    let i := hdr.msgid.toNat
    match if i < fastrpcMsgMax then s.net.table i else beyond i with
    | none => ⟨some i, -EINVAL, s⟩
    | some uid => ⟨some i, 0, deliver s rx uid⟩

/-- The first response to a message that was sent, and nothing else, is recorded. -/
structure Accepts (s : State) (rx : RxId) (uid : Uid) (m : Msg) (t : State) : Prop where
  live : s.net.msgs uid = some m
  sent : m.sent = true
  unanswered : m.rxbuf = none
  first : m.completed = false ∧ s.signals.completions uid = 0 ∧ uid ∉ s.signals.asyncQueue
  result : t = ⟨s.net.setMsg uid (some { m with rxbuf := some rx, completed := true }),
    s.signals.signal uid m⟩

/-- The table is read inside its bounds; the buffer is rejected and nothing changes, or it
is accepted as the first response to one message. -/
structure Handled (s : State) (rx : RxId) (c : Call) : Prop where
  bounded : ∀ i ∈ c.index, i < fastrpcMsgMax
  outcome : c.ret ≠ 0 ∧ c.state = s ∨ c.ret = 0 ∧ ∃ uid m, Accepts s rx uid m c.state

/-- Who has been signalled has a response, also while the handler is between the two. -/
structure Signalled (s : State) : Prop where
  tabled : Tabled s.net
  known : ∀ uid, s.signals.Reached uid → uid < s.net.nextUid
  answered : ∀ uid m, s.net.msgs uid = some m → s.signals.Reached uid ∨ m.completed = true →
    m.rxbuf ≠ none
  handling : ∀ uid, inHandler s.net.recv = some uid → uid < s.net.nextUid
  attached : ∀ uid m, s.net.recv = .attached uid → s.net.msgs uid = some m → m.rxbuf ≠ none

theorem probed_signalled (numBufs : Nat) : Signalled (State.probed numBufs) where
  tabled := probed_tabled numBufs
  known := fun _ h => h.elim (fun hne => absurd rfl hne) fun hmem => by cases hmem
  answered := fun _ _ h => by cases h
  handling := fun _ h => by cases h
  attached := fun _ _ h => by cases h

/-- The messages of `t` were there in `s`; none lost its response and none was completed. -/
def Kept (s t : MessageTransport.State) : Prop :=
  ∀ uid n, t.msgs uid = some n → ∃ m, s.msgs uid = some m ∧
    (m.rxbuf ≠ none → n.rxbuf ≠ none) ∧ (n.completed = true → m.completed = true)

section steps

variable {s t : MessageTransport.State} {uid : Uid} {m k : Msg} {a : MessageTransport.Action}

theorem kept_same (msgs : t.msgs = s.msgs) : Kept s t :=
  fun _ n hn => ⟨n, msgs ▸ hn, id, id⟩

theorem kept_setMsg (hm : s.msgs uid = some m) (rxbuf : m.rxbuf ≠ none → k.rxbuf ≠ none)
    (completed : k.completed = true → m.completed = true) : Kept s (s.setMsg uid (some k)) :=
  setMsg_forall ⟨m, hm, rxbuf, completed⟩ fun _ n hn => ⟨n, hn, id, id⟩

theorem kept_free (s : MessageTransport.State) (uid : Uid) (m : Msg) :
    Kept s (MessageTransport.virtFreeMsg s uid m) :=
  fun _ n hn => ⟨n, (MessageTransport.virtFreeMsg_live hn).2, id, id⟩

theorem ownerMoves_kept (hm : s.msgs uid = some m) (moves : OwnerMoves s uid m a t) :
    Kept s t := by
  cases moves with
  | takeTx stage taken =>
    obtain ⟨last, used, rfl⟩ := MessageTransport.getATxBuf_some taken
    exact kept_setMsg (s := s) hm id id
  | restage restaged =>
    exact kept_setMsg hm (fun hne => restaged.rxbuf ▸ hne) restaged.completed
  | send stage txbuf =>
    exact kept_setMsg (k := { m with sent := true, stage := m.kind.sentStage }) hm id id
  | giveBack stage rxbuf action =>
    exact kept_setMsg (k := { m with stage := .freeing }) hm id id
  | free stage => exact kept_free s uid m

theorem kept_mapMsg (s : MessageTransport.State) (uid : Uid) {f : Msg → Msg}
    (rxbuf : ∀ m, m.rxbuf ≠ none → (f m).rxbuf ≠ none)
    (completed : ∀ m, (f m).completed = m.completed) :
    Kept s (s.setMsg uid ((s.msgs uid).map f)) :=
  MessageTransport.mapMsg_elim (P := Kept s) (kept_same rfl) fun m hm =>
    kept_setMsg hm (rxbuf m) fun h => (completed m).symm.trans h

theorem mapMsg_self {f : Msg → Msg} {n : Msg}
    (hn : (s.setMsg uid ((s.msgs uid).map f)).msgs uid = some n) :
    ∃ m, s.msgs uid = some m ∧ f m = n := by
  rw [MessageTransport.msgs_setMsg, if_pos rfl] at hn
  exact Option.map_eq_some_iff.mp hn

end steps

section runs

variable {s t : State} {net : MessageTransport.State} {uid : Uid} {m : Msg}

theorem signalled_kept (h : Signalled s) (tabled : Tabled net) (next : s.net.nextUid ≤ net.nextUid)
    (kept : Kept s.net net)
    (handling : ∀ uid, inHandler net.recv = some uid → uid < net.nextUid)
    (attached : ∀ uid n, net.recv = .attached uid → net.msgs uid = some n → n.rxbuf ≠ none) :
    Signalled ⟨net, s.signals⟩ where
  tabled := tabled
  known := fun uid hne => Nat.lt_of_lt_of_le (h.known uid hne) next
  answered := fun uid n hn hor => by
    obtain ⟨m, hm, rxbuf, completed⟩ := kept uid n hn
    exact rxbuf (h.answered uid m hm (hor.imp id completed))
  handling := handling
  attached := attached

/-- Steps outside the handler. -/
theorem signalled_aside (h : Signalled s) (tabled : Tabled net)
    (next : s.net.nextUid ≤ net.nextUid) (kept : Kept s.net net) (recv : net.recv = s.net.recv) :
    Signalled ⟨net, s.signals⟩ := by
  refine signalled_kept h tabled next kept (fun uid hin => ?_) fun uid n hat hn => ?_
  · exact Nat.lt_of_lt_of_le (h.handling uid (recv ▸ hin)) next
  · obtain ⟨m, hm, rxbuf, -⟩ := kept uid n hn
    exact rxbuf (h.attached uid m (recv.symm.trans hat) hm)

theorem signalled_claim {f : MessageTransport.FileId} {kind : MessageTransport.Kind} {i : Nat}
    (h : Signalled s) (slot : MessageTransport.freeSlot s.net.table = some i) :
    Signalled ⟨{ s.net with
      table := Function.update s.net.table i (some s.net.nextUid)
      msgs := Function.update s.net.msgs s.net.nextUid
        (some ⟨f, kind, i, none, none, false, false, .claimed⟩)
      nextUid := s.net.nextUid + 1 }, s.signals⟩ where
  tabled := tabled_claim h.tabled slot
  known := fun uid hne => Nat.lt_succ_of_lt (h.known uid hne)
  answered := by
    refine setMsg_forall (s := s.net) (fun hor => ?_) h.answered
    rcases hor with signalled | completed
    · exact absurd (h.known _ signalled) (Nat.lt_irrefl _)
    · cases completed
  handling := fun uid hin => Nat.lt_succ_of_lt (h.handling uid hin)
  attached := fun uid n hat hn => by
    have hne : uid ≠ s.net.nextUid := by
      refine Nat.ne_of_lt (h.handling uid ?_)
      rw [show s.net.recv = .attached uid from hat]
      rfl
    exact h.attached uid n hat ((Function.update_of_ne hne _ _).symm.trans hn)

/-- The lookup finds a live message, so its number is known. -/
theorem lookup_known {r : Rsp} (h : Tabled net)
    (lookup : MessageTransport.recvSingle net r = some uid) : uid < net.nextUid := by
  unfold MessageTransport.recvSingle at lookup
  split_ifs at lookup
  obtain ⟨m, hm, -⟩ := h.live _ uid lookup
  exact h.known uid m hm

theorem recvMoves_signalled (h : Signalled s) (moves : RecvMoves s.net net) :
    Signalled ⟨net, s.signals⟩ := by
  have tabled := recvMoves_tabled h.tabled moves
  cases moves with
  | get idle used =>
    exact signalled_kept h tabled (Nat.le_refl _) (kept_same rfl) (fun _ hin => by cases hin)
      fun _ _ hat => by cases hat
  | found got lookup =>
    have known := lookup_known h.tabled lookup
    refine signalled_kept h tabled (Nat.le_refl _) (kept_same rfl) (fun v hin => ?_)
      fun _ _ hat => by cases hat
    exact Option.some.inj hin ▸ known
  | rejected got lookup =>
    exact signalled_kept h tabled (Nat.le_refl _) (kept_same rfl) (fun _ hin => by cases hin)
      fun _ _ hat => by cases hat
  | attach found =>
    rename_i r v
    refine signalled_kept h tabled (Nat.le_refl _)
      (kept_mapMsg s.net v (f := fun m => { m with rxbuf := some r.rx }) (fun _ _ => by simp)
        fun _ => rfl) (fun w hin => ?_) fun w n hat hn => ?_
    · exact h.handling w (by rw [found]; exact hin)
    · obtain rfl : v = w := by cases hat; rfl
      obtain ⟨m, -, rfl⟩ := mapMsg_self (f := fun m => { m with rxbuf := some r.rx }) hn
      simp
  | complete attached =>
    rename_i v
    refine ⟨tabled, h.known, fun w n hn hor => ?_, (fun _ hin => by cases hin),
      fun _ _ hat => by cases hat⟩
    by_cases hw : w = v
    · subst hw
      obtain ⟨m, hm, rfl⟩ := mapMsg_self (f := fun m => { m with completed := true }) hn
      exact h.attached w m attached hm
    · exact h.answered w n ((Function.update_of_ne hw _ _).symm.trans hn) hor

theorem net_signalled {a : MessageTransport.Action} (h : Signalled s)
    (hstep : MessageTransport.step s.net a = some net) : Signalled ⟨net, s.signals⟩ := by
  have tabled := step_tabled h.tabled hstep
  have next := step_next hstep
  cases step_moves hstep with
  | files files => exact signalled_aside h tabled next (kept_same rfl) rfl
  | claim slot => exact signalled_claim h slot
  | consume queued => exact signalled_aside h tabled next (kept_same rfl) rfl
  | reply taken avail => exact signalled_aside h tabled next (kept_same rfl) rfl
  | owner owned live moves =>
    exact signalled_aside h tabled next (ownerMoves_kept live moves) (ownerMoves_frame moves).1
  | recv moves => exact recvMoves_signalled h moves

theorem reached_signal {g : Signals} {v : Uid} {n : Msg} (h : (g.signal uid n).Reached v) :
    v = uid ∨ g.Reached v := by
  by_cases hv : v = uid
  · exact Or.inl hv
  refine Or.inr ?_
  unfold Signals.signal at h
  split_ifs at h
  · refine h.imp_right fun hmem => ?_
    exact (List.mem_append.mp hmem).resolve_right fun hlast => hv (List.mem_singleton.mp hlast)
  · refine h.imp_left fun hne hzero => hne ?_
    exact (Function.update_of_ne hv _ _).trans hzero

theorem signal_signalled {n : Msg} (h : Signalled s) (hm : s.net.msgs uid = some m)
    (answered : m.rxbuf ≠ none) : Signalled { s with signals := s.signals.signal uid n } where
  tabled := h.tabled
  known := fun v hv => by
    rcases reached_signal hv with rfl | hold
    · exact h.tabled.known v m hm
    · exact h.known v hold
  answered := fun v k hk hor => by
    by_cases hv : v = uid
    · subst hv
      exact Option.some.inj (hm.symm.trans hk) ▸ answered
    · exact h.answered v k hk (hor.imp_left fun hr => (reached_signal hr).resolve_left hv)
  handling := h.handling
  attached := h.attached

theorem signalsAfter_cases (s : State) (a : MessageTransport.Action) :
    signalsAfter s a = s.signals ∨ ∃ uid m, a = .recvComplete ∧ s.net.recv = .attached uid ∧
      s.net.msgs uid = some m ∧ signalsAfter s a = s.signals.signal uid m := by
  cases a with
  | recvComplete =>
    simp only [signalsAfter]
    split
    · rename_i uid hat
      cases hm : s.net.msgs uid with
      | none => exact Or.inl rfl
      | some m => exact Or.inr ⟨uid, m, trivial, hat, hm, rfl⟩
    · exact Or.inl rfl
  | _ => exact Or.inl rfl

theorem complete_msgs (hat : s.net.recv = .attached uid) (hm : s.net.msgs uid = some m)
    (hstep : MessageTransport.step s.net .recvComplete = some net) :
    net.msgs uid = some { m with completed := true } := by
  change MessageTransport.recvStep s.net .recvComplete = some net at hstep
  simp only [MessageTransport.recvStep, hat] at hstep
  obtain rfl := Option.some.inj hstep
  rw [hm]
  exact Function.update_self _ _ _

theorem step_signalled {a : Action} (h : Signalled s) (hstep : step s a = some t) :
    Signalled t := by
  cases a with
  | net a =>
    simp only [step] at hstep
    split_ifs at hstep
    obtain ⟨net, hnet, rfl⟩ := Option.map_eq_some_iff.mp hstep
    have moved := net_signalled h hnet
    rcases signalsAfter_cases s a with same | ⟨uid, m, rfl, hat, hm, signalled⟩
    · exact same.symm ▸ moved
    · rw [signalled]
      exact signal_signalled moved (complete_msgs hat hm hnet) (h.attached uid m hat hm)
  | inject rx msgid hdrLen len =>
    simp only [step] at hstep
    split_ifs at hstep
    obtain rfl := Option.some.inj hstep
    exact signalled_aside h (tabled_same h.tabled rfl rfl rfl) (Nat.le_refl _) (kept_same rfl) rfl

end runs

def handlerSteps (c : Call) : List Action :=
  if c.ret = 0 then [.net .recvLookup, .net .recvAttach, .net .recvComplete]
  else [.net .recvLookup]

/-- The deliveries that are recorded for a buffer. -/
def handed (table : Nat → Option Uid) (origin : Uid) (hdr : Header) (len : UInt32) :
    List (Uid × Uid) :=
  if len = hdr.len then (table hdr.msgid.toNat).toList.map (Prod.mk origin) else []

section handler

variable {s : State} {r : Rsp} {uid : Uid}

theorem step_lookup (got : s.net.recv = .got r)
    (inside : r.len = r.hdrLen → r.req.msgid < fastrpcMsgMax) :
    step s (.net .recvLookup) = some ⟨{ s.net with
      recv := (MessageTransport.recvSingle s.net r).elim .idle (.found r) }, s.signals⟩ := by
  have tame : astray s .recvLookup = false := by
    simp only [astray, got, Bool.and_eq_false_imp, beq_iff_eq, decide_eq_false_iff_not]
    exact fun heq => Nat.not_le_of_lt (inside heq)
  have lookup : MessageTransport.step s.net .recvLookup = some { s.net with
      recv := (MessageTransport.recvSingle s.net r).elim .idle (.found r) } := by
    change MessageTransport.recvStep s.net .recvLookup = _
    simp only [MessageTransport.recvStep, got]
    cases MessageTransport.recvSingle s.net r <;> rfl
  rw [step, tame, lookup]
  rfl

theorem step_attach (found : s.net.recv = .found r uid) :
    step s (.net .recvAttach) = some ⟨{
      s.net.setMsg uid ((s.net.msgs uid).map fun m => { m with rxbuf := some r.rx }) with
      recv := .attached uid
      deliveries := (r.req.origin, uid) :: s.net.deliveries }, s.signals⟩ := by
  have attach : MessageTransport.step s.net .recvAttach =
      MessageTransport.recvStep s.net .recvAttach := rfl
  simp only [step, astray, attach, MessageTransport.recvStep, found, signalsAfter,
    Bool.false_eq_true, if_false, Option.map_some]

theorem step_complete (attached : s.net.recv = .attached uid) :
    step s (.net .recvComplete) = some ⟨{
      s.net.setMsg uid ((s.net.msgs uid).map fun m => { m with completed := true }) with
      recv := .idle }, (s.net.msgs uid).elim s.signals (s.signals.signal uid)⟩ := by
  have complete : MessageTransport.step s.net .recvComplete =
      MessageTransport.recvStep s.net .recvComplete := rfl
  simp only [step, astray, complete, MessageTransport.recvStep, attached, signalsAfter,
    Bool.false_eq_true, if_false, Option.map_some]

/-- `recvSingle` is what the steps of the interrupt add up to when nothing runs between. -/
theorem recvSingle_steps {rx : RxId} {origin : Uid} {hdr : Header} {len : UInt32}
    (beyond : Nat → Option Uid)
    (got : s.net.recv = .got ⟨rx, ⟨origin, hdr.msgid.toNat⟩, hdr.len.toNat, len.toNat⟩)
    (inside : len = hdr.len → hdr.msgid.toNat < fastrpcMsgMax) :
    let c := recvSingle s beyond rx hdr len
    exec step s (handlerSteps c) = some ⟨{ c.state.net with
      recv := .idle
      deliveries := handed s.net.table origin hdr len ++ s.net.deliveries }, c.state.signals⟩ := by
  have lookup := step_lookup got fun heq => inside (UInt32.toNat_inj.mp heq)
  by_cases hlen : len = hdr.len
  · subst hlen
    simp only [MessageTransport.recvSingle, ne_eq, not_true_eq_false, if_false] at lookup
    simp only [recvSingle, handed, ne_eq, not_true_eq_false, if_false, if_pos (inside rfl), if_true]
    cases hslot : s.net.table hdr.msgid.toNat with
    | none =>
      rw [hslot] at lookup
      exact congrArg (Option.bind · some) lookup
    | some uid =>
      rw [hslot] at lookup
      change (step s (.net .recvLookup)).bind (fun t => (step t (.net .recvAttach)).bind
        fun u => (step u (.net .recvComplete)).bind some) = _
      rw [lookup, Option.bind_some, step_attach rfl, Option.bind_some, step_complete rfl]
      cases hm : s.net.msgs uid <;>
        simp [deliver, hm, MessageTransport.State.setMsg, Signals.signal]
  · have unequal : len.toNat ≠ hdr.len.toNat := fun heq => hlen (UInt32.toNat_inj.mp heq)
    simp only [MessageTransport.recvSingle, if_pos unequal] at lookup
    simp only [recvSingle, handed, ne_eq, hlen, not_false_eq_true, if_true, if_false]
    exact congrArg (Option.bind · some) lookup

end handler

/-- The buffer is refused for its length, or its index is in the table and the message
found there was sent and has no response. -/
def Answerable (s : State) (hdr : Header) (len : UInt32) : Prop :=
  len ≠ hdr.len ∨ hdr.msgid.toNat < fastrpcMsgMax ∧
    ∀ uid m, s.net.table hdr.msgid.toNat = some uid → s.net.msgs uid = some m →
      m.sent = true ∧ m.rxbuf = none

section results

variable {s : State} {rx : RxId} {hdr : Header} {len : UInt32} {uid : Uid} {m : Msg}

theorem deliver_live (hm : s.net.msgs uid = some m) : deliver s rx uid =
    ⟨s.net.setMsg uid (some { m with rxbuf := some rx, completed := true }),
      s.signals.signal uid m⟩ := by
  simp [deliver, hm]

/-- The history tells which message was signalled. -/
theorem signal_injective {g : Signals} {v : Uid} {n : Msg}
    (h : g.signal uid m = g.signal v n) : uid = v := by
  have queue := congrArg Signals.asyncQueue h
  have completions := congrFun (congrArg Signals.completions h) uid
  unfold Signals.signal at queue completions
  split_ifs at queue completions
  · simpa using queue
  · simp at queue
  · simp at queue
  · by_contra hne
    simp [Function.update_of_ne hne] at completions

theorem handled_deliver (uid : Uid) {i : Option Nat} (h : Handled s rx ⟨i, 0, deliver s rx uid⟩)
    (hm : s.net.msgs uid = some m) : m.sent = true ∧ m.rxbuf = none := by
  rcases h.outcome with ⟨hret, -⟩ | ⟨-, v, n, accepts⟩
  · exact absurd rfl hret
  · have signals := congrArg State.signals ((deliver_live hm).symm.trans accepts.result)
    obtain rfl := signal_injective signals
    obtain rfl := Option.some.inj (hm.symm.trans accepts.live)
    exact ⟨accepts.sent, accepts.unanswered⟩

/-- A message without a response has not been signalled. -/
theorem Signalled.first (h : Signalled s) (hm : s.net.msgs uid = some m) (hrx : m.rxbuf = none) :
    m.completed = false ∧ s.signals.completions uid = 0 ∧ uid ∉ s.signals.asyncQueue := by
  refine ⟨?_, ?_, fun hmem => ?_⟩
  · by_contra hcompleted
    exact h.answered uid m hm (Or.inr (by simpa using hcompleted)) hrx
  · by_contra hsignals
    exact h.answered uid m hm (Or.inl (Or.inl hsignals)) hrx
  · exact h.answered uid m hm (Or.inl (Or.inr hmem)) hrx

theorem handled_reject {i : Option Nat} (bounded : ∀ j ∈ i, j < fastrpcMsgMax) :
    Handled s rx ⟨i, -EINVAL, s⟩ :=
  ⟨bounded, Or.inl ⟨show -EINVAL ≠ 0 by decide, rfl⟩⟩

theorem handled_iff (h : Signalled s) :
    (∀ beyond, Handled s rx (recvSingle s beyond rx hdr len)) ↔ Answerable s hdr len := by
  constructor
  · intro handled
    by_cases hlen : len = hdr.len
    · refine Or.inr ?_
      have call := handled fun _ => none
      simp only [recvSingle, hlen, ne_eq, not_true_eq_false, if_false] at call
      have bounded : hdr.msgid.toNat < fastrpcMsgMax := by
        split at call <;> exact call.bounded _ rfl
      refine ⟨bounded, fun uid m hslot hm => ?_⟩
      rw [if_pos bounded, hslot] at call
      exact handled_deliver uid call hm
    · exact Or.inl hlen
  · intro answerable beyond
    by_cases hlen : len = hdr.len
    · obtain ⟨bounded, fresh⟩ := answerable.resolve_left (not_not_intro hlen)
      have inside : ∀ j ∈ some hdr.msgid.toNat, j < fastrpcMsgMax :=
        fun j hj => Option.some.inj hj ▸ bounded
      simp only [recvSingle, hlen, ne_eq, not_true_eq_false, if_false, if_pos bounded]
      cases hslot : s.net.table hdr.msgid.toNat with
      | none => exact handled_reject inside
      | some uid =>
        obtain ⟨m, hm, -⟩ := h.tabled.live _ uid hslot
        obtain ⟨sent, hrx⟩ := fresh uid m hslot hm
        exact ⟨inside, Or.inr ⟨rfl, uid, m, hm, sent, hrx, h.first hm hrx, deliver_live hm⟩⟩
    · rw [recvSingle, if_pos hlen]
      exact handled_reject fun _ hj => by cases hj

end results

/-- In every state that the driver can reach, whatever lies behind the table. -/
theorem responses_handled_iff (numBufs : Nat) (as : List Action) (s : State)
    (run : exec step (State.probed numBufs) as = some s) (rx : RxId) (hdr : Header)
    (len : UInt32) :
    (∀ beyond, Handled s rx (recvSingle s beyond rx hdr len)) ↔ Answerable s hdr len :=
  handled_iff (exec_invariant (fun _ _ _ h hstep => step_signalled h hstep)
    (probed_signalled numBufs) run)

/-- A message is sent and waits for its response. -/
def sentCall : List Action :=
  [.net (.openFile 0), .net (.claim 0 .invoke), .net (.getTx 0), .net (.send 0)]

theorem sentCall_answered : ∃ s, exec step (State.probed 2) sentCall = some s ∧
    (∀ beyond, Handled s 0 (recvSingle s beyond 0 ⟨32, 0⟩ 32)) ∧
    (recvSingle s (fun _ => none) 0 ⟨32, 0⟩ 32).state.signals.completions 0 = 1 := by
  refine ⟨_, rfl, (responses_handled_iff 2 sentCall _ rfl 0 ⟨32, 0⟩ 32).mpr
    (Or.inr ⟨by decide, fun uid m hslot hm => ?_⟩), by decide⟩
  obtain rfl := Option.some.inj hslot
  obtain rfl := Option.some.inj hm
  exact ⟨rfl, rfl⟩

/-- The message has its slot, and no transmit buffer yet. -/
def unsentCall : List Action :=
  [.net (.openFile 0), .net (.claim 0 .invoke)]

/-- An asynchronous job is answered, and the back end returns a second buffer for it. -/
def answeredTwice : List Action :=
  [.net (.openFile 0), .net (.claim 0 .asyncInvoke), .net (.getTx 0), .net (.send 0),
    .net (.consume 0 ⟨0, 0⟩), .net (.reply ⟨0, 0⟩ 0 32), .net .recvGet, .net .recvLookup,
    .net .recvAttach, .net .recvComplete, .inject 1 0 32 32]

/-- Buffers that `recv_single` takes and should not: one with an index past the table, one
for a message that was not sent, and the second for an answered job, which is queued twice. -/
theorem stray_responses_taken :
    (∃ s, exec step (State.probed 2) [] = some s ∧
      let c := recvSingle s (fun _ => none) 0 ⟨32, 256⟩ 32
      c.index = some 256 ∧ ¬Handled s 0 c) ∧
    (∃ s, exec step (State.probed 2) unsentCall = some s ∧
      let c := recvSingle s (fun _ => none) 0 ⟨32, 0⟩ 32
      ((c.state.net.msgs 0).map fun m => (m.sent, m.completed)) = some (false, true) ∧
        c.state.signals.completions 0 = 1 ∧ ¬Handled s 0 c) ∧
    ∃ s, exec step (State.probed 2) answeredTwice = some s ∧
      let c := recvSingle s (fun _ => none) 1 ⟨32, 0⟩ 32
      c.state.signals.asyncQueue = [0, 0] ∧ ¬Handled s 1 c := by
  refine ⟨⟨_, rfl, rfl, fun h => ?_⟩, ⟨_, rfl, by decide, by decide, fun h => ?_⟩,
    _, rfl, by decide, fun h => ?_⟩
  · exact absurd (h.bounded 256 rfl) (by decide)
  · exact absurd (handled_deliver 0 h rfl).1 (by decide)
  · exact absurd (handled_deliver 0 h rfl).2 (by decide)

end ResponseAcceptance
