import Mathlib.Data.List.Perm.Basic
import Mathlib.Data.List.Nodup
import PlatformKernel.GuardedRuns

/-!
# Messages, buffers and the two virtqueues

Any number of client calls, the receive interrupt and the back end share one
message table and two queues of buffers. A step is one access to this shared
state, so every interleaving of the callers is a run. Messages are identified by
their allocation, table slots by `msgid`. The back end answers each request it
took exactly once, with its `msgid` and a correct length.
-/

namespace MessageTransport

open GuardedRuns

abbrev Uid := Nat
abbrev FileId := Nat
abbrev TxId := Nat
abbrev RxId := Nat

def fastrpcMsgMax : Nat := 256

/-- How a message is waited for. Commands are all the messages whose sender waits
without being interruptible: open, close, map, unmap, control and capability queries. -/
inductive Kind where
  | invoke
  | asyncInvoke
  | munmapFd
  | command
  deriving DecidableEq

def Kind.hasContext : Kind → Bool
  | .invoke => true
  | .asyncInvoke => true
  | _ => false

/-- Where the owner of a message is. `claimed` has a table slot only; `built` has its
transmit buffer; `saved` is on an interrupted list; `queued` is an asynchronous job that
nobody waits for; `lost` could not be saved. `releasing` is about to hand back the
response, `freeing` to free the message. -/
inductive Stage where
  | claimed
  | built
  | waiting
  | saved
  | queued
  | lost
  | releasing
  | freeing
  deriving DecidableEq

/-- A thread is inside an ioctl that uses the message. -/
def Stage.active : Stage → Bool
  | .saved => false
  | .queued => false
  | .lost => false
  | _ => true

def Stage.ending : Stage → Bool
  | .releasing => true
  | .freeing => true
  | _ => false

/-- The request has been handed to the queue and nobody has taken the message back. -/
def Stage.outstanding : Stage → Bool
  | .waiting => true
  | .saved => true
  | .queued => true
  | .lost => true
  | _ => false

/-- After a successful send; nobody waits for an asynchronous job. -/
def Kind.sentStage : Kind → Stage
  | .asyncInvoke => .queued
  | _ => .waiting

/-- After a failed send: `context_free`, or `virt_free_msg` with no response. -/
def Kind.unsentStage : Kind → Stage
  | .invoke => .releasing
  | .asyncInvoke => .releasing
  | _ => .freeing

/-- `context_save_interrupted` cannot fail, `save_interrupted_cmds` can. -/
def Kind.interruptedStage (saved : Bool) : Kind → Stage
  | .invoke => .saved
  | _ => if saved then .saved else .lost

/-- `completed` is `msg->work`, or the presence of the context in `async_queue`. -/
structure Msg where
  file : FileId
  kind : Kind
  msgid : Nat
  txbuf : Option TxId
  rxbuf : Option RxId
  sent : Bool
  completed : Bool
  stage : Stage
  deriving DecidableEq

/-- A request in flight; `origin` is history, the message it was sent for. -/
structure Req where
  origin : Uid
  msgid : Nat
  deriving DecidableEq

/-- A response in a receive buffer: the request it answers, its `hdr.len`, and the
length the device reports. -/
structure Rsp where
  rx : RxId
  req : Req
  hdrLen : Nat
  len : Nat
  deriving DecidableEq

/-- The receive interrupt: holding a buffer, past the table lookup, past the store of
`rxbuf`. -/
inductive Recv where
  | idle
  | got (r : Rsp)
  | found (r : Rsp) (uid : Uid)
  | attached (uid : Uid)

inductive FileStatus where
  | absent
  | opened
  | closing
  | draining
  deriving DecidableEq

structure State where
  numBufs : Nat
  files : FileId → FileStatus
  table : Nat → Option Uid
  msgs : Uid → Option Msg
  nextUid : Uid
  lastSbuf : Nat
  svqQueued : List (TxId × Req)
  svqUsed : List TxId
  backend : List Req
  rvqAvail : List RxId
  rvqUsed : List Rsp
  recv : Recv
  deliveries : List (Uid × Uid)

def State.probed (numBufs : Nat) : State where
  numBufs := numBufs
  files := fun _ => .absent
  table := fun _ => none
  msgs := fun _ => none
  nextUid := 0
  lastSbuf := 0
  svqQueued := []
  svqUsed := []
  backend := []
  rvqAvail := List.range numBufs
  rvqUsed := []
  recv := .idle
  deliveries := []

def State.setMsg (s : State) (uid : Uid) (m : Option Msg) : State :=
  { s with msgs := Function.update s.msgs uid m }

theorem msgs_setMsg {s : State} {uid v : Uid} {k : Option Msg} :
    (s.setMsg uid k).msgs v = if v = uid then k else s.msgs v := by
  simp only [State.setMsg, Function.update_apply]

/-- Every live message after an update of one message. -/
theorem setMsg_forall {s : State} {uid : Uid} {k : Msg} {P : Uid → Msg → Prop}
    (hk : P uid k) (h : ∀ v m, s.msgs v = some m → P v m) :
    ∀ v m, (s.setMsg uid (some k)).msgs v = some m → P v m := by
  intro v m hm
  rw [msgs_setMsg] at hm
  split_ifs at hm with hv
  · subst hv
    exact Option.some.inj hm ▸ hk
  · exact h v m hm

/-- The interrupt updates a message that may be gone already. -/
theorem mapMsg_elim {s : State} {uid : Uid} {f : Msg → Msg} {P : State → Prop} (gone : P s)
    (live : ∀ m, s.msgs uid = some m → P (s.setMsg uid (some (f m)))) :
    P (s.setMsg uid ((s.msgs uid).map f)) := by
  cases hm : s.msgs uid with
  | none =>
    have same : s.setMsg uid none = s := by
      rw [State.setMsg, ← hm, Function.update_eq_self]
    exact same.symm ▸ gone
  | some m => exact live m hm

/-- `virt_alloc_msg`: the lowest free slot. -/
def freeSlot {A : Type} (table : Nat → Option A) : Option Nat :=
  (List.range fastrpcMsgMax).find? fun i => (table i).isNone

theorem freeSlot_none {A : Type} {table : Nat → Option A} {i : Nat} (h : freeSlot table = some i) :
    table i = none := by
  have := List.find?_some h
  simpa using this

/-- `get_a_tx_buf`: the next unused buffer, or a used one from the queue. -/
def getATxBuf (s : State) : Option TxId × State :=
  if s.lastSbuf < s.numBufs then (some s.lastSbuf, { s with lastSbuf := s.lastSbuf + 1 })
  else
    match s.svqUsed with
    | b :: rest => (some b, { s with svqUsed := rest })
    | [] => (none, s)

/-- `vfastrpc_rxbuf_send`: a buffer that cannot be added is dropped. -/
def vfastrpcRxbufSend (s : State) (b : RxId) (added : Bool) : State :=
  { s with rvqAvail := if added then s.rvqAvail ++ [b] else s.rvqAvail }

/-- `virt_free_msg`. -/
def virtFreeMsg (s : State) (uid : Uid) (m : Msg) : State :=
  { s with
    table := if s.table m.msgid = some uid then Function.update s.table m.msgid none else s.table
    msgs := Function.update s.msgs uid none }

theorem virtFreeMsg_live {s : State} {uid v : Uid} {m n : Msg}
    (hn : (virtFreeMsg s uid m).msgs v = some n) : v ≠ uid ∧ s.msgs v = some n := by
  simp only [virtFreeMsg, Function.update_apply] at hn
  split_ifs at hn with hv
  exact ⟨hv, hn⟩

/-- `recv_single` up to its table lookup. -/
def recvSingle (s : State) (r : Rsp) : Option Uid :=
  if r.len ≠ r.hdrLen then none else s.table r.req.msgid

/-- No ioctl is running on the file; `release` is only called then. -/
def State.quiet (s : State) (f : FileId) : Bool :=
  (List.range s.nextUid).all fun uid =>
    match s.msgs uid with
    | some m => m.file != f || !m.stage.active
    | none => true

theorem sentStage_outstanding (k : Kind) : k.sentStage.outstanding = true := by
  cases k <;> rfl

theorem unsentStage_ending (k : Kind) : k.unsentStage.ending = true := by
  cases k <;> rfl

theorem interruptedStage_outstanding (k : Kind) (saved : Bool) :
    (k.interruptedStage saved).outstanding = true := by
  cases k <;> cases saved <;> rfl

/-- The three phases of a message do not overlap. -/
theorem outstanding_late {st : Stage} (h : st.outstanding = true) :
    st.ending = false ∧ st ≠ .claimed ∧ st ≠ .built := by
  cases st <;> simp_all [Stage.outstanding, Stage.ending]

theorem ending_late {st : Stage} (h : st.ending = true) : st ≠ .claimed ∧ st ≠ .built := by
  cases st <;> simp_all [Stage.ending]

inductive Action where
  | openFile (f : FileId)
  | claim (f : FileId) (kind : Kind)
  | getTx (uid : Uid)
  | buildFail (uid : Uid)
  | send (uid : Uid)
  | sendFail (uid : Uid)
  | consume (tx : TxId) (q : Req)
  | reply (q : Req) (rx : RxId) (len : Nat)
  | recvGet
  | recvLookup
  | recvAttach
  | recvComplete
  | finish (uid : Uid)
  | interrupt (uid : Uid) (saved : Bool)
  | resume (uid : Uid)
  | takeAsync (uid : Uid)
  | closeBegin (f : FileId)
  | drainBegin (f : FileId)
  | closeTake (uid : Uid)
  | giveBack (uid : Uid) (added : Bool)
  | free (uid : Uid)

/-- Steps of the thread that owns message `uid`. -/
def ownerStep (s : State) (uid : Uid) (m : Msg) : Action → Option State
  | .getTx _ =>
    if m.stage = .claimed then
      match getATxBuf s with
      | (some b, s) => some (s.setMsg uid (some { m with txbuf := some b, stage := .built }))
      | (none, s) => some (s.setMsg uid (some { m with stage := .freeing }))
    else none
  -- `get_args` fails after `virt_alloc_msg`: `context_free`
  | .buildFail _ =>
    if m.stage = .built ∧ m.kind.hasContext then
      some (s.setMsg uid (some { m with stage := .releasing }))
    else none
  | .send _ =>
    if m.stage = .built then
      match m.txbuf with
      | some b =>
        some { s.setMsg uid (some { m with
            sent := true
            stage := m.kind.sentStage }) with
          svqQueued := s.svqQueued ++ [(b, ⟨uid, m.msgid⟩)] }
      | none => none
    else none
  | .sendFail _ =>
    if m.stage = .built then
      some (s.setMsg uid (some { m with stage := m.kind.unsentStage }))
    else none
  | .finish _ =>
    if m.stage = .waiting ∧ m.completed then
      some (s.setMsg uid (some { m with stage := .releasing }))
    else none
  | .interrupt _ saved =>
    if m.stage = .waiting ∧ m.completed = false ∧ (m.kind = .invoke ∨ m.kind = .munmapFd) then
      some (s.setMsg uid (some { m with stage := m.kind.interruptedStage saved }))
    else none
  | .resume _ =>
    if m.stage = .saved ∧ s.files m.file = .opened then
      some (s.setMsg uid (some { m with stage := .waiting }))
    else none
  | .takeAsync _ =>
    if m.stage = .queued ∧ m.completed ∧ s.files m.file = .opened then
      some (s.setMsg uid (some { m with stage := .releasing, completed := false }))
    else none
  | .closeTake _ =>
    if (m.stage = .saved ∨ m.stage = .queued) ∧ s.files m.file = .draining then
      some (s.setMsg uid (some { m with stage := .releasing }))
    else none
  | .giveBack _ added =>
    if m.stage = .releasing then
      match m.rxbuf with
      | some b =>
        some (vfastrpcRxbufSend (s.setMsg uid (some { m with stage := .freeing })) b added)
      | none => some (s.setMsg uid (some { m with stage := .freeing }))
    else none
  | .free _ => if m.stage = .freeing then some (virtFreeMsg s uid m) else none
  | _ => none

/-- The receive interrupt. A rejected buffer is not given back to the queue. -/
def recvStep (s : State) : Action → Option State
  | .recvGet =>
    match s.recv, s.rvqUsed with
    | .idle, r :: rest => some { s with recv := .got r, rvqUsed := rest }
    | _, _ => none
  | .recvLookup =>
    match s.recv with
    | .got r =>
      match recvSingle s r with
      | some uid => some { s with recv := .found r uid }
      | none => some { s with recv := .idle }
    | _ => none
  | .recvAttach =>
    match s.recv with
    | .found r uid =>
      some { s.setMsg uid ((s.msgs uid).map fun m => { m with rxbuf := some r.rx }) with
        recv := .attached uid
        deliveries := (r.req.origin, uid) :: s.deliveries }
    | _ => none
  | .recvComplete =>
    match s.recv with
    | .attached uid =>
      some { s.setMsg uid ((s.msgs uid).map fun m => { m with completed := true }) with
        recv := .idle }
    | _ => none
  | _ => none

def Action.owned : Action → Option Uid
  | .getTx uid => some uid
  | .buildFail uid => some uid
  | .send uid => some uid
  | .sendFail uid => some uid
  | .finish uid => some uid
  | .interrupt uid _ => some uid
  | .resume uid => some uid
  | .takeAsync uid => some uid
  | .closeTake uid => some uid
  | .giveBack uid _ => some uid
  | .free uid => some uid
  | _ => none

def claimMsg (s : State) (f : FileId) (kind : Kind) : Option State :=
  (freeSlot s.table).map fun i =>
    { s with
      table := Function.update s.table i (some s.nextUid)
      msgs := Function.update s.msgs s.nextUid
        (some ⟨f, kind, i, none, none, false, false, .claimed⟩)
      nextUid := s.nextUid + 1 }

def step (s : State) (a : Action) : Option State :=
  match a with
  | .openFile f =>
    if s.files f = .absent then some { s with files := Function.update s.files f .opened } else none
  -- a file that is closing only sends its own close command
  | .claim f kind =>
    if s.files f = .opened ∨ s.files f = .closing ∧ kind = .command then claimMsg s f kind
    else none
  | .consume tx q =>
    if (tx, q) ∈ s.svqQueued then
      some { s with
        svqQueued := s.svqQueued.erase (tx, q)
        svqUsed := s.svqUsed ++ [tx]
        backend := s.backend ++ [q] }
    else none
  | .reply q rx len =>
    if q ∈ s.backend ∧ rx ∈ s.rvqAvail then
      some { s with
        backend := s.backend.erase q
        rvqAvail := s.rvqAvail.erase rx
        rvqUsed := s.rvqUsed ++ [⟨rx, q, len, len⟩] }
    else none
  | .closeBegin f =>
    if s.files f = .opened ∧ s.quiet f then
      some { s with files := Function.update s.files f .closing }
    else none
  | .drainBegin f =>
    if s.files f = .closing ∧ s.quiet f then
      some { s with files := Function.update s.files f .draining }
    else none
  | a =>
    match a.owned with
    | some uid => (s.msgs uid).bind fun m => ownerStep s uid m a
    | none => recvStep s a

/-- The failures after which `virt_free_msg` meets an unsent transmit buffer. -/
def Action.fails : Action → Bool
  | .buildFail _ => true
  | .sendFail _ => true
  | _ => false

/-- Why a message is given up: it got no transmit buffer, could not be built or sent, was
answered, or its file is being closed. -/
def GivenUp (a : Action) (m : Msg) : Prop :=
  m.stage = .claimed ∨ m.stage = .built ∧ a.fails = true ∨
    m.stage.outstanding = true ∧ (m.completed = true ∨ ∃ v, a = .closeTake v) ∨
    m.stage = .releasing

/-- The owner goes on to another stage; the buffers stay where they are. -/
structure Restaged (a : Action) (m k : Msg) : Prop where
  msgid : k.msgid = m.msgid
  txbuf : k.txbuf = m.txbuf
  rxbuf : k.rxbuf = m.rxbuf
  sent : k.sent = m.sent
  completed : k.completed = true → m.completed = true
  late : k.stage ≠ .claimed ∧ k.stage ≠ .built
  outstanding : k.stage.outstanding = true → m.stage.outstanding = true
  givenUp : k.stage.ending = true → GivenUp a m
  live : m.stage ≠ .freeing
  freeing : k.stage = .freeing → m.rxbuf = none ∨ m.stage = .claimed ∨ m.stage = .built

/-- What the owner of message `uid` may do. -/
inductive OwnerMoves (s : State) (uid : Uid) (m : Msg) (a : Action) : State → Prop where
  | takeTx {b : TxId} {s' : State} (stage : m.stage = .claimed)
      (taken : getATxBuf s = (some b, s')) :
      OwnerMoves s uid m a (s'.setMsg uid (some { m with txbuf := some b, stage := .built }))
  | restage {k : Msg} (restaged : Restaged a m k) :
      OwnerMoves s uid m a (s.setMsg uid (some k))
  | send {b : TxId} (stage : m.stage = .built) (txbuf : m.txbuf = some b) :
      OwnerMoves s uid m a
        { s.setMsg uid (some { m with sent := true, stage := m.kind.sentStage }) with
          svqQueued := s.svqQueued ++ [(b, ⟨uid, m.msgid⟩)] }
  | giveBack {b : RxId} {added : Bool} (stage : m.stage = .releasing) (rxbuf : m.rxbuf = some b)
      (action : ∃ v, a = .giveBack v added) :
      OwnerMoves s uid m a
        (vfastrpcRxbufSend (s.setMsg uid (some { m with stage := .freeing })) b added)
  | free (stage : m.stage = .freeing) : OwnerMoves s uid m a (virtFreeMsg s uid m)

theorem getATxBuf_none {s s' : State} (h : getATxBuf s = (none, s')) : s' = s := by
  unfold getATxBuf at h
  split_ifs at h
  · cases h
  · split at h
    · cases h
    · exact (Prod.mk.inj h).2.symm

theorem getATxBuf_cases {s s' : State} {b : TxId} (h : getATxBuf s = (some b, s')) :
    b = s.lastSbuf ∧ s' = { s with lastSbuf := s.lastSbuf + 1 } ∨
      ∃ rest, s.svqUsed = b :: rest ∧ s' = { s with svqUsed := rest } := by
  unfold getATxBuf at h
  split_ifs at h
  · obtain ⟨hb, rfl⟩ := Prod.mk.inj h
    exact Or.inl ⟨(Option.some.inj hb).symm, rfl⟩
  · split at h
    · rename_i hused
      obtain ⟨hb, rfl⟩ := Prod.mk.inj h
      exact Or.inr ⟨_, Option.some.inj hb ▸ hused, rfl⟩
    · cases h

theorem getATxBuf_some {s s' : State} {b : TxId} (h : getATxBuf s = (some b, s')) :
    ∃ last used, s' = { s with lastSbuf := last, svqUsed := used } := by
  rcases getATxBuf_cases h with ⟨-, rfl⟩ | ⟨rest, -, rfl⟩
  · exact ⟨_, _, rfl⟩
  · exact ⟨_, _, rfl⟩

theorem ownerStep_moves {s t : State} {uid : Uid} {m : Msg} {a : Action}
    (h : ownerStep s uid m a = some t) : OwnerMoves s uid m a t := by
  cases a with
  | getTx v =>
    simp only [ownerStep] at h
    split_ifs at h with hstage
    split at h
    · rename_i b s' hget
      obtain rfl := Option.some.inj h
      exact .takeTx hstage hget
    · rename_i s' hget
      obtain rfl := Option.some.inj h
      obtain rfl := getATxBuf_none hget
      exact .restage ⟨rfl, rfl, rfl, rfl, id, by simp, (fun ho => by cases ho),
        fun _ => Or.inl hstage, by simp [hstage], fun _ => Or.inr (Or.inl hstage)⟩
  | buildFail v =>
    simp only [ownerStep] at h
    split_ifs at h with hcond
    obtain rfl := Option.some.inj h
    exact .restage ⟨rfl, rfl, rfl, rfl, id, by simp, (fun ho => by cases ho),
      fun _ => Or.inr (Or.inl ⟨hcond.1, rfl⟩), by simp [hcond.1], fun hf => by cases hf⟩
  | send v =>
    simp only [ownerStep] at h
    split_ifs at h with hstage
    split at h
    · rename_i b hb
      obtain rfl := Option.some.inj h
      exact .send hstage hb
    · cases h
  | sendFail v =>
    simp only [ownerStep] at h
    split_ifs at h with hstage
    obtain rfl := Option.some.inj h
    have hending := unsentStage_ending m.kind
    refine .restage ⟨rfl, rfl, rfl, rfl, id, ending_late hending, fun ho => ?_,
      fun _ => Or.inr (Or.inl ⟨hstage, rfl⟩), by simp [hstage], fun _ => Or.inr (Or.inr hstage)⟩
    rw [(outstanding_late ho).1] at hending
    cases hending
  | finish v =>
    simp only [ownerStep] at h
    split_ifs at h with hcond
    obtain rfl := Option.some.inj h
    exact .restage ⟨rfl, rfl, rfl, rfl, id, by simp, (fun ho => by cases ho),
      fun _ => Or.inr (Or.inr (Or.inl ⟨by simp [hcond.1, Stage.outstanding], Or.inl hcond.2⟩)),
      by simp [hcond.1], fun hf => by cases hf⟩
  | interrupt v saved =>
    simp only [ownerStep] at h
    split_ifs at h with hcond
    obtain rfl := Option.some.inj h
    obtain ⟨hnot, hlate⟩ := outstanding_late (interruptedStage_outstanding m.kind saved)
    refine .restage ⟨rfl, rfl, rfl, rfl, id, hlate, fun _ => by simp [hcond.1, Stage.outstanding],
      fun he => ?_, by simp [hcond.1], fun hf => ?_⟩
    · rw [hnot] at he
      cases he
    · dsimp only at hf
      rw [hf] at hnot
      cases hnot
  | resume v =>
    simp only [ownerStep] at h
    split_ifs at h with hcond
    obtain rfl := Option.some.inj h
    exact .restage ⟨rfl, rfl, rfl, rfl, id, by simp, fun _ => by simp [hcond.1, Stage.outstanding],
      (fun he => by cases he), by simp [hcond.1], fun hf => by cases hf⟩
  | takeAsync v =>
    simp only [ownerStep] at h
    split_ifs at h with hcond
    obtain rfl := Option.some.inj h
    exact .restage ⟨rfl, rfl, rfl, rfl, (fun hc => by cases hc), by simp, (fun ho => by cases ho),
      fun _ => Or.inr (Or.inr (Or.inl ⟨by simp [hcond.1, Stage.outstanding], Or.inl hcond.2.1⟩)),
      by simp [hcond.1], fun hf => by cases hf⟩
  | closeTake v =>
    simp only [ownerStep] at h
    split_ifs at h with hcond
    obtain rfl := Option.some.inj h
    have hout : m.stage.outstanding = true := by
      rcases hcond.1 with hs | hs <;> simp [hs, Stage.outstanding]
    exact .restage ⟨rfl, rfl, rfl, rfl, id, by simp, (fun ho => by cases ho),
      fun _ => Or.inr (Or.inr (Or.inl ⟨hout, Or.inr ⟨v, rfl⟩⟩)),
      (fun hf => by rw [hf] at hout; cases hout), fun hf => by cases hf⟩
  | giveBack v added =>
    simp only [ownerStep] at h
    split_ifs at h with hstage
    split at h
    · rename_i b hb
      obtain rfl := Option.some.inj h
      exact .giveBack hstage hb ⟨v, rfl⟩
    · rename_i hb
      obtain rfl := Option.some.inj h
      exact .restage ⟨rfl, rfl, rfl, rfl, id, by simp, (fun ho => by cases ho),
        fun _ => Or.inr (Or.inr (Or.inr hstage)), by simp [hstage], fun _ => Or.inl hb⟩
  | free v =>
    simp only [ownerStep] at h
    split_ifs at h with hstage
    obtain rfl := Option.some.inj h
    exact .free hstage
  | _ => cases h

/-- What the receive interrupt may do. -/
inductive RecvMoves (s : State) : State → Prop where
  | get {r : Rsp} {rest : List Rsp} (idle : s.recv = .idle) (used : s.rvqUsed = r :: rest) :
      RecvMoves s { s with recv := .got r, rvqUsed := rest }
  | found {r : Rsp} {uid : Uid} (got : s.recv = .got r) (lookup : recvSingle s r = some uid) :
      RecvMoves s { s with recv := .found r uid }
  | rejected {r : Rsp} (got : s.recv = .got r) (lookup : recvSingle s r = none) :
      RecvMoves s { s with recv := .idle }
  | attach {r : Rsp} {uid : Uid} (found : s.recv = .found r uid) :
      RecvMoves s { s.setMsg uid ((s.msgs uid).map fun m => { m with rxbuf := some r.rx }) with
        recv := .attached uid
        deliveries := (r.req.origin, uid) :: s.deliveries }
  | complete {uid : Uid} (attached : s.recv = .attached uid) :
      RecvMoves s { s.setMsg uid ((s.msgs uid).map fun m => { m with completed := true }) with
        recv := .idle }

theorem recvStep_moves {s t : State} {a : Action} (h : recvStep s a = some t) :
    RecvMoves s t := by
  cases a with
  | recvGet =>
    simp only [recvStep] at h
    split at h
    · rename_i hidle hused
      obtain rfl := Option.some.inj h
      exact .get hidle hused
    · cases h
  | recvLookup =>
    simp only [recvStep] at h
    split at h
    · rename_i r hgot
      split at h
      · rename_i hlookup
        obtain rfl := Option.some.inj h
        exact .found hgot hlookup
      · rename_i hlookup
        obtain rfl := Option.some.inj h
        exact .rejected hgot hlookup
    · cases h
  | recvAttach =>
    simp only [recvStep] at h
    split at h
    · rename_i hfound
      obtain rfl := Option.some.inj h
      exact .attach hfound
    · cases h
  | recvComplete =>
    simp only [recvStep] at h
    split at h
    · rename_i hattached
      obtain rfl := Option.some.inj h
      exact .complete hattached
    · cases h
  | _ => cases h

/-- Everything a step can do. -/
inductive Moves (s : State) (a : Action) : State → Prop where
  | files (files : FileId → FileStatus) : Moves s a { s with files := files }
  | claim {f : FileId} {kind : Kind} {i : Nat} (slot : freeSlot s.table = some i) :
      Moves s a { s with
        table := Function.update s.table i (some s.nextUid)
        msgs := Function.update s.msgs s.nextUid
          (some ⟨f, kind, i, none, none, false, false, .claimed⟩)
        nextUid := s.nextUid + 1 }
  | consume {tx : TxId} {q : Req} (queued : (tx, q) ∈ s.svqQueued) :
      Moves s a { s with
        svqQueued := s.svqQueued.erase (tx, q)
        svqUsed := s.svqUsed ++ [tx]
        backend := s.backend ++ [q] }
  | reply {q : Req} {rx : RxId} {len : Nat} (taken : q ∈ s.backend) (avail : rx ∈ s.rvqAvail) :
      Moves s a { s with
        backend := s.backend.erase q
        rvqAvail := s.rvqAvail.erase rx
        rvqUsed := s.rvqUsed ++ [⟨rx, q, len, len⟩] }
  | owner {uid : Uid} {m : Msg} {t : State} (owned : a.owned = some uid)
      (live : s.msgs uid = some m) (moves : OwnerMoves s uid m a t) : Moves s a t
  | recv {t : State} (moves : RecvMoves s t) : Moves s a t

theorem step_moves {s t : State} {a : Action} (h : step s a = some t) : Moves s a t := by
  have owner : ∀ uid, a.owned = some uid →
      ((s.msgs uid).bind fun m => ownerStep s uid m a) = some t → Moves s a t := by
    intro uid howned hbind
    obtain ⟨m, hm, hs⟩ := Option.bind_eq_some_iff.mp hbind
    exact .owner howned hm (ownerStep_moves hs)
  cases a with
  | openFile f =>
    simp only [step] at h
    split_ifs at h
    obtain rfl := Option.some.inj h
    exact .files _
  | claim f kind =>
    simp only [step] at h
    split_ifs at h
    obtain ⟨i, hi, rfl⟩ := Option.map_eq_some_iff.mp h
    exact .claim hi
  | consume tx q =>
    simp only [step] at h
    split_ifs at h with hq
    obtain rfl := Option.some.inj h
    exact .consume hq
  | reply q rx len =>
    simp only [step] at h
    split_ifs at h with hq
    obtain rfl := Option.some.inj h
    exact .reply hq.1 hq.2
  | closeBegin f =>
    simp only [step] at h
    split_ifs at h
    obtain rfl := Option.some.inj h
    exact .files _
  | drainBegin f =>
    simp only [step] at h
    split_ifs at h
    obtain rfl := Option.some.inj h
    exact .files _
  | recvGet => exact .recv (recvStep_moves (a := .recvGet) h)
  | recvLookup => exact .recv (recvStep_moves (a := .recvLookup) h)
  | recvAttach => exact .recv (recvStep_moves (a := .recvAttach) h)
  | recvComplete => exact .recv (recvStep_moves (a := .recvComplete) h)
  | _ => exact owner _ rfl h

end MessageTransport
