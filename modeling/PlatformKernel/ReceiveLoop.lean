import PlatformKernel.ResponseAcceptance

/-!
# The loop of the receive interrupt

`recv_done` takes used buffers from the receive queue and hands them to `recv_single`
until the queue is empty or a buffer is rejected. A rejected buffer ends the loop, and
the buffers behind it stay in the queue.
-/

namespace ReceiveLoop

open GuardedRuns ResponseAcceptance ReturnCodes
open MessageTransport (Uid RxId Rsp Recv Msg fastrpcMsgMax)

/-- A used buffer and the length `virtqueue_get_buf` reports for it. -/
structure Received where
  rx : RxId
  hdr : Header
  len : UInt32

/-- The state in which `recv_done` returns, and what it leaves in the queue. -/
structure Run where
  state : State
  left : List Received

/-- `recv_done`, with the used buffers of the queue in their order. -/
def recvDone (beyond : Nat → Option Uid) : List Received → State → Run
  | [], s => ⟨s, []⟩
  | b :: rest, s =>
    let c := recvSingle s beyond b.rx b.hdr b.len
    if c.ret ≠ 0 then ⟨c.state, rest⟩ else recvDone beyond rest c.state

/-- The entry `recv_single` reads. -/
def lookup (table beyond : Nat → Option Uid) (msgid : UInt16) : Option Uid :=
  if msgid.toNat < fastrpcMsgMax then table msgid.toNat else beyond msgid.toNat

/-- The lengths agree and the header names a message. -/
def valid (table beyond : Nat → Option Uid) (b : Received) : Bool :=
  b.len == b.hdr.len && (lookup table beyond b.hdr.msgid).isSome

section calls

variable {s : State} {beyond : Nat → Option Uid} {b : Received}

theorem recvSingle_valid (h : valid s.net.table beyond b = true) :
    ∃ uid, lookup s.net.table beyond b.hdr.msgid = some uid ∧
      recvSingle s beyond b.rx b.hdr b.len = ⟨some b.hdr.msgid.toNat, 0, deliver s b.rx uid⟩ := by
  simp only [valid, Bool.and_eq_true, beq_iff_eq] at h
  obtain ⟨hlen, hsome⟩ := h
  obtain ⟨uid, huid⟩ := Option.isSome_iff_exists.mp hsome
  refine ⟨uid, huid, ?_⟩
  unfold lookup at huid
  simp only [recvSingle, hlen, ne_eq, not_true_eq_false, if_false, huid]

theorem recvSingle_rejected (h : valid s.net.table beyond b = false) :
    (recvSingle s beyond b.rx b.hdr b.len).ret ≠ 0 ∧
      (recvSingle s beyond b.rx b.hdr b.len).state = s := by
  have error : -EINVAL ≠ 0 := by decide
  by_cases hlen : b.len = b.hdr.len
  · have hnone : lookup s.net.table beyond b.hdr.msgid = none := by
      simpa [valid, hlen] using h
    unfold lookup at hnone
    simp only [recvSingle, hlen, ne_eq, not_true_eq_false, if_false, hnone]
    exact ⟨error, trivial⟩
  · rw [recvSingle, if_pos hlen]
    exact ⟨error, rfl⟩

/-- A message keeps its response through later deliveries. -/
theorem deliver_completed (rx : RxId) (uid : Uid) {v : Uid} {m : Msg}
    (hm : s.net.msgs v = some m) :
    ∃ n, (deliver s rx uid).net.msgs v = some n ∧
      (v = uid ∨ m.completed = true → n.completed = true) := by
  have msgs : (deliver s rx uid).net.msgs v = if v = uid then
      (s.net.msgs uid).map fun m => { m with rxbuf := some rx, completed := true }
      else s.net.msgs v := MessageTransport.msgs_setMsg
  by_cases hv : v = uid
  · subst hv
    rw [if_pos rfl, hm] at msgs
    exact ⟨_, msgs, fun _ => rfl⟩
  · rw [if_neg hv, hm] at msgs
    exact ⟨m, msgs, fun h => h.resolve_left hv⟩

end calls

section loop

variable {s : State} {beyond : Nat → Option Uid} {b : Received} {rest q : List Received}

theorem recvDone_valid (rest : List Received) (h : valid s.net.table beyond b = true) :
    ∃ uid, lookup s.net.table beyond b.hdr.msgid = some uid ∧
      recvDone beyond (b :: rest) s = recvDone beyond rest (deliver s b.rx uid) := by
  obtain ⟨uid, huid, call⟩ := recvSingle_valid h
  refine ⟨uid, huid, ?_⟩
  simp only [recvDone, call, ne_eq, not_true_eq_false, if_false]

theorem recvDone_rejected (h : valid s.net.table beyond b = false) :
    recvDone beyond (b :: rest) s = ⟨s, rest⟩ := by
  obtain ⟨hret, hstate⟩ := recvSingle_rejected h
  simp only [recvDone, hret, hstate, ne_eq, not_false_eq_true, if_true]

/-- An empty queue at the end means that nothing but the last buffer was rejected. -/
theorem valid_of_taken (taken : (recvDone beyond q s).left = []) :
    ∀ b ∈ q.dropLast, valid s.net.table beyond b = true := by
  induction q generalizing s with
  | nil => exact fun b hb => by cases hb
  | cons first rest ih =>
    by_cases hfirst : valid s.net.table beyond first = true
    · obtain ⟨uid, -, run⟩ := recvDone_valid rest hfirst
      rw [run] at taken
      cases rest with
      | nil => exact fun b hb => by cases hb
      | cons second rest =>
        intro b hb
        rcases List.mem_cons.mp hb with rfl | hrest
        · exact hfirst
        · exact ih taken b hrest
    · rw [recvDone_rejected (Bool.eq_false_iff.mpr hfirst)] at taken
      obtain rfl : rest = [] := taken
      exact fun b hb => by cases hb

theorem recvDone_all_but_last (h : ∀ b ∈ q.dropLast, valid s.net.table beyond b = true) :
    recvDone beyond q s =
      ⟨(recvDone beyond (q.filter (valid s.net.table beyond)) s).state, []⟩ := by
  induction q generalizing s with
  | nil => rfl
  | cons first rest ih =>
    by_cases hfirst : valid s.net.table beyond first = true
    · obtain ⟨uid, huid, run⟩ := recvDone_valid rest hfirst
      obtain ⟨v, hv, filtered⟩ :=
        recvDone_valid (rest.filter (valid s.net.table beyond)) hfirst
      obtain rfl := Option.some.inj (huid.symm.trans hv)
      rw [run, List.filter_cons_of_pos hfirst, filtered]
      refine ih (s := deliver s first.rx uid) fun b hb => h b ?_
      cases rest with
      | nil => cases hb
      | cons second rest => exact List.mem_cons_of_mem _ hb
    · obtain rfl : rest = [] := by
        cases rest with
        | nil => rfl
        | cons second rest => exact absurd (h first List.mem_cons_self) hfirst
      rw [recvDone_rejected (Bool.eq_false_iff.mpr hfirst), List.filter_cons_of_neg hfirst]
      rfl

/-- What is completed stays so for the rest of the loop. -/
theorem recvDone_completed {v : Uid} {m : Msg} (hm : s.net.msgs v = some m)
    (completed : m.completed = true) :
    ∃ n, (recvDone beyond q s).state.net.msgs v = some n ∧ n.completed = true := by
  induction q generalizing s m with
  | nil => exact ⟨m, hm, completed⟩
  | cons first rest ih =>
    by_cases hfirst : valid s.net.table beyond first = true
    · obtain ⟨uid, -, run⟩ := recvDone_valid rest hfirst
      obtain ⟨n, hn, still⟩ := deliver_completed first.rx uid hm
      rw [run]
      exact ih hn (still (Or.inr completed))
    · rw [recvDone_rejected (Bool.eq_false_iff.mpr hfirst)]
      exact ⟨m, hm, completed⟩

/-- A queue without rejected buffers is delivered in full. -/
theorem recvDone_delivers (h : ∀ b ∈ q, valid s.net.table beyond b = true) {v : Uid} {m : Msg}
    (hb : b ∈ q) (hv : lookup s.net.table beyond b.hdr.msgid = some v)
    (hm : s.net.msgs v = some m) :
    ∃ n, (recvDone beyond q s).state.net.msgs v = some n ∧ n.completed = true := by
  induction q generalizing s m with
  | nil => cases hb
  | cons first rest ih =>
    obtain ⟨uid, huid, run⟩ := recvDone_valid rest (h first List.mem_cons_self)
    obtain ⟨n, hn, still⟩ := deliver_completed first.rx uid hm
    rw [run]
    rcases List.mem_cons.mp hb with rfl | hrest
    · obtain rfl := Option.some.inj (hv.symm.trans huid)
      exact recvDone_completed hn (still (Or.inl rfl))
    · exact ih (s := deliver s first.rx uid) (fun c hc => h c (List.mem_cons_of_mem _ hc)) hrest
        hv hn

end loop

/-- The buffer as it stands in the queue of the transport. -/
def Received.rsp (b : Received) (origin : Uid) : Rsp :=
  ⟨b.rx, ⟨origin, b.hdr.msgid.toNat⟩, b.hdr.len.toNat, b.len.toNat⟩

/-- The same state with another queue, stage of the handler and history. -/
def queued (s : State) (recv : Recv) (used : List Rsp) (deliveries : List (Uid × Uid)) : State where
  net := { s.net with recv := recv, rvqUsed := used, deliveries := deliveries }
  signals := s.signals

section steps

variable {s : State} {beyond : Nat → Option Uid}

theorem recvSingle_queued (recv : Recv) (used : List Rsp) (deliveries : List (Uid × Uid))
    (b : Received) :
    recvSingle (queued s recv used deliveries) beyond b.rx b.hdr b.len =
      { recvSingle s beyond b.rx b.hdr b.len with
        state := queued (recvSingle s beyond b.rx b.hdr b.len).state recv used deliveries } := by
  simp only [recvSingle]
  split
  · rfl
  · have table : (queued s recv used deliveries).net.table = s.net.table := rfl
    rw [table]
    cases (if b.hdr.msgid.toNat < fastrpcMsgMax then s.net.table b.hdr.msgid.toNat
      else beyond b.hdr.msgid.toNat) <;> rfl

theorem step_recvGet (b : Received) (origin : Uid) (used : List Rsp)
    (deliveries : List (Uid × Uid)) :
    step (queued s .idle (b.rsp origin :: used) deliveries) (.net .recvGet) =
      some (queued s (.got (b.rsp origin)) used deliveries) := rfl

/-- One turn of the loop: the buffer is taken off the queue and handed to `recv_single`. -/
def turnSteps (c : Call) : List Action := .net .recvGet :: handlerSteps c

theorem turn_steps (beyond : Nat → Option Uid) (b : Received) (origin : Uid) (used : List Rsp)
    (deliveries : List (Uid × Uid))
    (inside : b.len = b.hdr.len → b.hdr.msgid.toNat < fastrpcMsgMax) :
    let c := recvSingle s beyond b.rx b.hdr b.len
    exec step (queued s .idle (b.rsp origin :: used) deliveries) (turnSteps c) =
      some (queued c.state .idle used (handed s.net.table origin b.hdr b.len ++ deliveries)) := by
  have handled := recvSingle_steps
    (s := queued s (.got (b.rsp origin)) used deliveries) beyond rfl inside
  rw [recvSingle_queued] at handled
  simp only [turnSteps, exec, step_recvGet]
  exact handled

/-- The steps of the interrupt, from the first buffer to the last that is taken. -/
def loopSteps (beyond : Nat → Option Uid) : List Received → State → List Action
  | [], _ => []
  | b :: rest, s =>
    let c := recvSingle s beyond b.rx b.hdr b.len
    turnSteps c ++ if c.ret ≠ 0 then [] else loopSteps beyond rest c.state

/-- The deliveries of the loop, the last one first. -/
def loopHanded (beyond : Nat → Option Uid) : List (Received × Uid) → State → List (Uid × Uid)
  | [], _ => []
  | p :: rest, s =>
    let c := recvSingle s beyond p.1.rx p.1.hdr p.1.len
    (if c.ret ≠ 0 then [] else loopHanded beyond rest c.state) ++
      handed s.net.table p.2 p.1.hdr p.1.len

def ofInterrupt : Action → Bool
  | .net .recvGet => true
  | .net .recvLookup => true
  | .net .recvAttach => true
  | .net .recvComplete => true
  | _ => false

theorem turnSteps_ofInterrupt (c : Call) : ∀ a ∈ turnSteps c, ofInterrupt a = true := by
  unfold turnSteps handlerSteps
  split_ifs <;> simp [ofInterrupt]

theorem loopSteps_ofInterrupt (q : List Received) :
    ∀ a ∈ loopSteps beyond q s, ofInterrupt a = true := by
  induction q generalizing s with
  | nil => exact fun a ha => by cases ha
  | cons b rest ih =>
    intro a ha
    rcases List.mem_append.mp ha with first | later
    · exact turnSteps_ofInterrupt _ a first
    · split_ifs at later
      · cases later
      · exact ih a later

theorem recvDone_steps (q : List (Received × Uid)) (deliveries : List (Uid × Uid))
    (inside : ∀ p ∈ q, p.1.len = p.1.hdr.len → p.1.hdr.msgid.toNat < fastrpcMsgMax) :
    ∃ left, left <:+ q ∧ (recvDone beyond (q.map Prod.fst) s).left = left.map Prod.fst ∧
      exec step (queued s .idle (q.map fun p => p.1.rsp p.2) deliveries)
          (loopSteps beyond (q.map Prod.fst) s) =
        some (queued (recvDone beyond (q.map Prod.fst) s).state .idle
          (left.map fun p => p.1.rsp p.2) (loopHanded beyond q s ++ deliveries)) := by
  induction q generalizing s deliveries with
  | nil => exact ⟨[], List.suffix_refl _, rfl, rfl⟩
  | cons p rest ih =>
    have turn := turn_steps (s := s) beyond p.1 p.2 (rest.map fun p => p.1.rsp p.2) deliveries
      (inside p List.mem_cons_self)
    by_cases hret : (recvSingle s beyond p.1.rx p.1.hdr p.1.len).ret = 0
    · obtain ⟨left, suffix, hleft, run⟩ := ih (handed s.net.table p.2 p.1.hdr p.1.len ++ deliveries)
        fun r hr => inside r (List.mem_cons_of_mem _ hr)
      simp only [List.map_cons, recvDone, loopSteps, loopHanded, hret, ne_eq, not_true_eq_false,
        if_false]
      refine ⟨left, suffix.trans (List.suffix_cons _ _), hleft, ?_⟩
      rw [List.append_assoc]
      exact exec_append turn run
    · simp only [List.map_cons, recvDone, loopSteps, loopHanded, hret, ne_eq, not_false_eq_true,
        if_true, List.append_nil, List.nil_append]
      exact ⟨rest, List.suffix_cons _ _, rfl, turn⟩

end steps

/-- From every state in which the interrupt finds used buffers, the loop is a run of its steps:
it ends in the state and with the queue that `recv_done` leaves. -/
theorem interrupt_performs_loop (s : State) (beyond : Nat → Option Uid)
    (q : List (Received × Uid)) (idle : s.net.recv = .idle)
    (used : s.net.rvqUsed = q.map fun p => p.1.rsp p.2)
    (inside : ∀ p ∈ q, p.1.len = p.1.hdr.len → p.1.hdr.msgid.toNat < fastrpcMsgMax) :
    (∀ a ∈ loopSteps beyond (q.map Prod.fst) s, ofInterrupt a = true) ∧
    ∃ left, left <:+ q ∧ (recvDone beyond (q.map Prod.fst) s).left = left.map Prod.fst ∧
      exec step s (loopSteps beyond (q.map Prod.fst) s) =
        some (queued (recvDone beyond (q.map Prod.fst) s).state .idle
          (left.map fun p => p.1.rsp p.2) (loopHanded beyond q s ++ s.net.deliveries)) := by
  have found : queued s .idle (q.map fun p => p.1.rsp p.2) s.net.deliveries = s := by
    rw [← used, ← idle]
    rfl
  refine ⟨loopSteps_ofInterrupt _, ?_⟩
  have steps : ∃ left, left <:+ q ∧
      (recvDone beyond (q.map Prod.fst) s).left = left.map Prod.fst ∧ _ :=
    recvDone_steps q s.net.deliveries inside
  rwa [found] at steps

/-- The messages that are signalled between two states. -/
def completedBy (s t : State) : Set Uid :=
  { uid | s.signals.completions uid + s.signals.asyncQueue.count uid <
    t.signals.completions uid + t.signals.asyncQueue.count uid }

/-- The run empties the queue, completes the message of every valid buffer, and completes
the same messages as without the rejected buffers. -/
structure Serves (s : State) (beyond : Nat → Option Uid) (q : List Received) : Prop where
  taken : (recvDone beyond q s).left = []
  delivered : ∀ b ∈ q, valid s.net.table beyond b = true →
    ∀ uid m, lookup s.net.table beyond b.hdr.msgid = some uid → s.net.msgs uid = some m →
      ∃ n, (recvDone beyond q s).state.net.msgs uid = some n ∧ n.completed = true
  completed : completedBy s (recvDone beyond q s).state =
    completedBy s (recvDone beyond (q.filter (valid s.net.table beyond)) s).state

/-- The loop serves the queue if, and only if, no buffer but the last has a length that
differs from its header or an index without a message. -/
theorem recvDone_serves_iff (s : State) (beyond : Nat → Option Uid) (q : List Received) :
    Serves s beyond q ↔ ∀ b ∈ q.dropLast,
      b.len = b.hdr.len ∧ lookup s.net.table beyond b.hdr.msgid ≠ none := by
  have unfolded : ∀ b : Received, valid s.net.table beyond b = true ↔
      b.len = b.hdr.len ∧ lookup s.net.table beyond b.hdr.msgid ≠ none := by
    intro b
    simp [valid, Option.isSome_iff_ne_none]
  simp only [← unfolded]
  constructor
  · intro serves
    exact valid_of_taken serves.taken
  · intro h
    have run := recvDone_all_but_last h
    refine ⟨congrArg Run.left run, fun b hb hvalid uid m huid hm => ?_, by rw [run]⟩
    rw [run]
    exact recvDone_delivers (fun c hc => (List.mem_filter.mp hc).2)
      (List.mem_filter.mpr ⟨hb, hvalid⟩) huid hm

/-- A late buffer for a slot that is free again stands before the answer to message 0. -/
def lateBeforeAnswer : List Action :=
  [.net (.openFile 0), .net (.claim 0 .invoke), .net (.getTx 0), .net (.send 0),
    .net (.consume 0 ⟨0, 0⟩), .inject 0 7 32 32, .net (.reply ⟨0, 0⟩ 1 32)]

/-- The interrupt takes the late buffer and leaves the answer where it is; without the late
buffer message 0 would have been completed. -/
theorem answer_held_back : ∃ s, exec step (State.probed 2) lateBeforeAnswer = some s ∧
    s.net.recv = .idle ∧
    let late : Received := ⟨0, ⟨32, 7⟩, 32⟩
    let answer : Received := ⟨1, ⟨32, 0⟩, 32⟩
    s.net.rvqUsed = [late.rsp 1, answer.rsp 0] ∧
      (recvDone (fun _ => none) [late, answer] s).left.map Received.rx = [1] ∧
      ((recvDone (fun _ => none) [late, answer] s).state.net.msgs 0).map Msg.completed =
        some false ∧
      (recvDone (fun _ => none) [answer] s).state.signals.completions 0 = 1 ∧
      ¬Serves s (fun _ => none) [late, answer] :=
  ⟨_, rfl, rfl, rfl, rfl, rfl, rfl, fun h => absurd h.taken (List.cons_ne_nil _ _)⟩

/-- The interrupt in the same state. -/
theorem lateBeforeAnswer_performed : ∃ s, exec step (State.probed 2) lateBeforeAnswer = some s ∧
    let q : List (Received × Uid) := [(⟨0, ⟨32, 7⟩, 32⟩, 1), (⟨1, ⟨32, 0⟩, 32⟩, 0)]
    let as := loopSteps (fun _ => none) (q.map Prod.fst) s
    (∀ a ∈ as, ofInterrupt a = true) ∧
    ∃ left, left <:+ q ∧
      (recvDone (fun _ => none) (q.map Prod.fst) s).left = left.map Prod.fst ∧
      exec step s as = some (queued (recvDone (fun _ => none) (q.map Prod.fst) s).state .idle
        (left.map fun p => p.1.rsp p.2) (loopHanded (fun _ => none) q s ++ s.net.deliveries)) :=
  ⟨_, rfl, interrupt_performs_loop _ _ _ rfl rfl (by decide)⟩

end ReceiveLoop
