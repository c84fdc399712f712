import Mathlib.Data.List.Nodup
import Mathlib.Logic.Function.Basic
import PlatformKernel.GuardedRuns

/-!
# Contexts after their hand-off

A context is built by the thread that submits it, found again by the receive interrupt
and, if it is asynchronous, freed by whoever reads the response. The submitter goes on
with tracing and its counters after the send, the interrupt with tracing after the
signal. Here every access to a context, its perf record and its message is a step of its
own, and an access to a released object is recorded.
-/

namespace ContextAccesses

open GuardedRuns

abbrev CtxId := Nat

/-- `fl->profile`, and whether the trace events are enabled. -/
structure Config where
  profile : Bool
  tracing : Bool

inductive Obj where
  | ctx (c : CtxId)
  | perf (c : CtxId)
  | msg (c : CtxId)
  deriving DecidableEq

/-- The way out of a context: to `context_free`, past the counters, past `virt_free_msg`,
freed. -/
inductive Tail where
  | ending
  | closing
  | freeing
  | freed
  deriving DecidableEq

/-- Where `vfastrpc_internal_invoke` is with a context. `sent` is past the queue,
`traced` past `virt_fastrpc_invoke`, `leaving` at `invoke_end` with an asynchronous job,
`stopping` was interrupted, `left` has no thread any more. -/
inductive Submit where
  | building
  | built
  | sent (ok : Bool)
  | traced (ok : Bool)
  | leaving
  | linked
  | waiting
  | stopping
  | saved
  | woken
  | tail (t : Tail)
  | left
  deriving DecidableEq

/-- Where `vfastrpc_wait_on_async_queue` is with a context. -/
inductive Reader where
  | idle
  | taken
  | tail (t : Tail)
  deriving DecidableEq

/-- Where `recv_single` is: past the table lookup, the store of `rxbuf`, the test of
`isasyncjob`, the signal, and the second test of `msg->ctx`. -/
inductive Recv where
  | idle
  | found (c : CtxId)
  | attached (c : CtxId)
  | tested (c : CtxId)
  | signalled (c : CtxId)
  | checked (c : CtxId)
  deriving DecidableEq

def Recv.on : Recv → Option CtxId
  | .idle => none
  | .found c => some c
  | .attached c => some c
  | .tested c => some c
  | .signalled c => some c
  | .checked c => some c

/-- The context that is still to be signalled. -/
def Recv.owes : Recv → Option CtxId
  | .found c => some c
  | .attached c => some c
  | .tested c => some c
  | _ => none

inductive Party where
  | submitter
  | reader
  deriving DecidableEq

/-- `sent` and `answered` are history; `stale` lists the accesses to released objects. -/
structure State where
  isAsync : CtxId → Bool
  handle : CtxId → Nat
  hasMsg : CtxId → Bool
  submit : CtxId → Submit
  reader : CtxId → Reader
  sent : CtxId → Bool
  answered : CtxId → Bool
  completed : CtxId → Bool
  queue : List CtxId
  recv : Recv
  next : CtxId
  freed : List Obj
  stale : List Obj

def State.opened : State where
  isAsync := fun _ => false
  handle := fun _ => 0
  hasMsg := fun _ => false
  submit := fun _ => .left
  reader := fun _ => .idle
  sent := fun _ => false
  answered := fun _ => false
  completed := fun _ => false
  queue := []
  recv := .idle
  next := 0
  freed := []
  stale := []

def fastrpcStaticHandleListener : Nat := 3

inductive Action where
  | alloc (isAsync : Bool) (handle : Nat)
  | getArgs (c : CtxId) (msg ok : Bool)
  | send (c : CtxId) (ok : Bool)
  | traceSent (c : CtxId)
  | link (c : CtxId)
  | leave (c : CtxId)
  | enterWait (c : CtxId)
  | wake (c : CtxId)
  | interrupt (c : CtxId)
  | save (c : CtxId)
  | resume (c : CtxId)
  | putArgs (c : CtxId)
  | recvLookup (c : CtxId)
  | recvAttach
  | recvTest
  | recvSignal
  | recvCheck
  | recvTrace
  | take
  | readerPut (c : CtxId)
  | finish (who : Party) (c : CtxId)
  | freeMsg (who : Party) (c : CtxId)
  | freeCtx (who : Party) (c : CtxId)

def State.setSubmit (s : State) (c : CtxId) (p : Submit) : State :=
  { s with submit := Function.update s.submit c p }

def State.setReader (s : State) (c : CtxId) (p : Reader) : State :=
  { s with reader := Function.update s.reader c p }

/-- The party on its way out of a context. -/
def State.tailOf (s : State) (who : Party) (c : CtxId) : Option Tail :=
  match who with
  | .submitter => match s.submit c with
    | .tail t => some t
    | _ => none
  | .reader => match s.reader c with
    | .tail t => some t
    | _ => none

/-- The submitter returns when the context is freed. -/
def State.setTail (s : State) (who : Party) (c : CtxId) (t : Tail) : State :=
  match who with
  | .submitter => s.setSubmit c (if t = .freed then .left else .tail t)
  | .reader => s.setReader c (.tail t)

def perfOf (cfg : Config) (c : CtxId) : List Obj := if cfg.profile then [.perf c] else []

def msgOf (s : State) (c : CtxId) : List Obj := if s.hasMsg c then [.msg c] else []

/-- Steps of `vfastrpc_internal_invoke`. After a restart there is no thread-local perf
counter; the accesses through it are listed all the same. -/
def submitStep (s : State) : Action → Option State
  | .alloc isAsync handle =>
    some { s.setSubmit s.next .building with
      isAsync := Function.update s.isAsync s.next isAsync
      handle := Function.update s.handle s.next handle
      next := s.next + 1 }
  | .getArgs c msg ok =>
    if s.submit c = .building ∧ (ok → msg) then
      some { s.setSubmit c (if ok then .built else .tail .ending) with
        hasMsg := Function.update s.hasMsg c msg }
    else none
  | .send c ok =>
    if s.submit c = .built then
      some { s.setSubmit c (.sent ok) with
        sent := if ok then Function.update s.sent c true else s.sent }
    else none
  | .traceSent c =>
    match s.submit c with
    | .sent ok => some (s.setSubmit c (.traced ok))
    | _ => none
  | .link c =>
    match s.submit c with
    | .traced ok => some (s.setSubmit c
        (if ok then if s.isAsync c then .leaving else .linked else .tail .ending))
    | _ => none
  | .leave c => if s.submit c = .leaving then some (s.setSubmit c .left) else none
  | .enterWait c => if s.submit c = .linked then some (s.setSubmit c .waiting) else none
  | .wake c =>
    if s.submit c = .waiting ∧ s.completed c then some (s.setSubmit c .woken) else none
  | .interrupt c =>
    if s.submit c = .waiting ∧ s.completed c = false then some (s.setSubmit c .stopping) else none
  | .save c => if s.submit c = .stopping then some (s.setSubmit c .saved) else none
  | .resume c => if s.submit c = .saved then some (s.setSubmit c .linked) else none
  | .putArgs c => if s.submit c = .woken then some (s.setSubmit c (.tail .ending)) else none
  | _ => none

/-- Steps of `recv_single`. Any message that is in the table can be looked up. -/
def recvStep (s : State) : Action → Option State
  | .recvLookup c =>
    if s.recv = .idle ∧ s.hasMsg c ∧ .msg c ∉ s.freed then
      some { s with recv := .found c, answered := Function.update s.answered c true }
    else none
  | .recvAttach =>
    match s.recv with
    | .found c => some { s with recv := .attached c }
    | _ => none
  | .recvTest =>
    match s.recv with
    | .attached c => some { s with recv := .tested c }
    | _ => none
  | .recvSignal =>
    match s.recv with
    | .tested c =>
      if s.isAsync c then some { s with recv := .signalled c, queue := s.queue ++ [c] }
      else some { s with recv := .signalled c, completed := Function.update s.completed c true }
    | _ => none
  | .recvCheck =>
    match s.recv with
    | .signalled c => some { s with recv := .checked c }
    | _ => none
  | .recvTrace =>
    match s.recv with
    | .checked _ => some { s with recv := .idle }
    | _ => none
  | _ => none

/-- Steps of `vfastrpc_wait_on_async_queue`, and of `context_free` for both callers. -/
def freeStep (cfg : Config) (s : State) : Action → Option State
  | .take =>
    match s.queue with
    | c :: rest => some { s.setReader c .taken with queue := rest }
    | [] => none
  | .readerPut c =>
    if s.reader c = .taken then some (s.setReader c (.tail .ending)) else none
  | .finish who c =>
    if s.tailOf who c = some .ending then some (s.setTail who c .closing) else none
  | .freeMsg who c =>
    if s.tailOf who c = some .closing then
      some { s.setTail who c .freeing with freed := msgOf s c ++ s.freed }
    else none
  | .freeCtx who c =>
    if s.tailOf who c = some .freeing then
      some { s.setTail who c .freed with freed := perfOf cfg c ++ .ctx c :: s.freed }
    else none
  | _ => none

def advance (cfg : Config) (s : State) (a : Action) : Option State :=
  match submitStep s a with
  | some t => some t
  | none =>
    match recvStep s a with
    | some t => some t
    | none => freeStep cfg s a

/-- What a step reads or writes. -/
def touches (cfg : Config) (s : State) : Action → List Obj
  | .alloc _ _ => []
  | .getArgs c msg _ => .ctx c :: (if msg then [.msg c] else []) ++ perfOf cfg c
  | .send c _ => [.ctx c, .msg c]
  | .traceSent c => if cfg.tracing then [.ctx c] else []
  | .link c => perfOf cfg c
  -- `vfastrpc_update_invoke_count`
  | .leave c => if s.handle c = fastrpcStaticHandleListener then [] else perfOf cfg c
  | .enterWait c => [.ctx c, .msg c]
  | .wake c => [.msg c]
  | .interrupt c => [.msg c]
  | .save c => [.ctx c]
  | .resume c => [.ctx c]
  | .putArgs c => .ctx c :: .msg c :: perfOf cfg c
  | .recvLookup _ => []
  | .recvAttach => s.recv.on.toList.map .msg
  | .recvTest => s.recv.on.toList.flatMap fun c => [.msg c, .ctx c]
  | .recvSignal => s.recv.on.toList.flatMap fun c =>
      .msg c :: if s.isAsync c then [.ctx c] else []
  | .recvCheck => s.recv.on.toList.map .msg
  | .recvTrace => s.recv.on.toList.flatMap fun c =>
      .msg c :: if cfg.tracing then [.ctx c] else []
  | .take => s.queue.head?.toList.map .ctx
  | .readerPut c => .ctx c :: .msg c :: perfOf cfg c
  | .finish _ c => .ctx c :: perfOf cfg c
  | .freeMsg _ c => .ctx c :: msgOf s c
  | .freeCtx _ c => .ctx c :: perfOf cfg c

def step (cfg : Config) (s : State) (a : Action) : Option State :=
  (advance cfg s a).map fun t =>
    { t with stale := (touches cfg s a).filter (· ∈ s.freed) ++ s.stale }

/-- The submitter is through with the message. -/
def Submit.past : Submit → Bool
  | .tail .freeing => true
  | .left => true
  | _ => false

def Reader.past : Reader → Bool
  | .idle => true
  | .tail .freeing => true
  | .tail .freed => true
  | _ => false

/-- The submitter of an asynchronous job after the send. -/
def Submit.handed : Submit → Bool
  | .sent ok => ok
  | .traced ok => ok
  | .leaving => true
  | .left => true
  | _ => false

def Live (freed : List Obj) (c : CtxId) : Prop :=
  .ctx c ∉ freed ∧ .perf c ∉ freed ∧ .msg c ∉ freed

/-- Neither the interrupt nor the queue leads to the context. -/
structure Unreached (recv : Recv) (queue : List CtxId) (c : CtxId) : Prop where
  recv : recv.on ≠ some c
  queue : c ∉ queue

structure Sound (s : State) : Prop where
  fresh : ∀ c, s.next ≤ c → s.submit c = .left ∧ s.reader c = .idle ∧ s.hasMsg c = false ∧
    s.sent c = false ∧ Live s.freed c
  handed : ∀ c, s.isAsync c = true → s.sent c = true → (s.submit c).handed = true
  queued : ∀ c, c ∈ s.queue ∨ s.reader c ≠ .idle →
    s.isAsync c = true ∧ s.sent c = true ∧ s.answered c = true
  once : s.queue.Nodup ∧ ∀ c ∈ s.queue, s.reader c = .idle
  owes : ∀ c, s.recv.owes = some c → c ∉ s.queue ∧ s.reader c = .idle
  on : ∀ c, s.recv.on = some c → s.sent c = true ∧ s.answered c = true
  message : ∀ c, .msg c ∈ s.freed → Unreached s.recv s.queue c ∧ (s.submit c).past = true ∧
    (s.reader c).past = true
  record : ∀ c, .ctx c ∈ s.freed ∨ .perf c ∈ s.freed →
    Unreached s.recv s.queue c ∧ s.submit c = .left ∧
    (s.reader c = .idle ∨ s.reader c = .tail .freed) ∧ (s.hasMsg c = true → .msg c ∈ s.freed)
  submitFrees : ∀ c, s.submit c = .tail .freeing → Unreached s.recv s.queue c ∧ s.reader c = .idle ∧
    (s.hasMsg c = true → .msg c ∈ s.freed)
  readerFrees : ∀ c, s.reader c = .tail .freeing → Unreached s.recv s.queue c ∧ s.submit c = .left ∧
    (s.hasMsg c = true → .msg c ∈ s.freed)

/-- A response answers a request that was sent and not answered before, and a context is
freed when its submitter has returned and the interrupt is through with it. -/
def Ordered (s : State) : Action → Prop
  | .recvLookup c => s.sent c = true ∧ s.answered c = false
  | .freeMsg .submitter c => s.recv.on ≠ some c
  | .freeMsg .reader c => s.recv.on ≠ some c ∧ s.submit c = .left
  | _ => True

theorem opened_sound : Sound State.opened where
  fresh := fun c _ => ⟨rfl, rfl, rfl, rfl, by simp [Live, State.opened]⟩
  handed := fun c h => by cases h
  queued := fun c h => by simp [State.opened] at h
  once := ⟨List.nodup_nil, fun c hc => by cases hc⟩
  owes := fun c h => by cases h
  on := fun c h => by cases h
  message := fun c h => by cases h
  record := fun c h => by simp [State.opened] at h
  submitFrees := fun c h => by cases h
  readerFrees := fun c h => by cases h

section live

variable {s : State} {c : CtxId}

theorem live_of_submit (h : Sound s) (hp : (s.submit c).past = false) : Live s.freed c := by
  have busy : s.submit c ≠ .left := fun he => by rw [he] at hp; cases hp
  refine ⟨fun hc => busy (h.record c (Or.inl hc)).2.1, fun hc => busy (h.record c (Or.inr hc)).2.1,
    fun hc => ?_⟩
  rw [(h.message c hc).2.1] at hp
  cases hp

theorem live_of_reached (h : Sound s) (reached : s.recv.on = some c ∨ c ∈ s.queue) :
    Live s.freed c := by
  have no : ¬ Unreached s.recv s.queue c := fun hu => reached.elim hu.recv hu.queue
  exact ⟨fun hc => no (h.record c (Or.inl hc)).1, fun hc => no (h.record c (Or.inr hc)).1,
    fun hc => no (h.message c hc).1⟩

theorem live_of_reader (h : Sound s) (hp : (s.reader c).past = false) : Live s.freed c := by
  have busy : ¬ (s.reader c = .idle ∨ s.reader c = .tail .freed) := by
    rintro (he | he) <;> rw [he] at hp <;> cases hp
  refine ⟨fun hc => busy (h.record c (Or.inl hc)).2.2.1,
    fun hc => busy (h.record c (Or.inr hc)).2.2.1, fun hc => ?_⟩
  rw [(h.message c hc).2.2] at hp
  cases hp

end live

section steps

variable {cfg : Config} {s t : State} {c : CtxId} {a : Action}

theorem submit_setSubmit (s : State) (c v : CtxId) (q : Submit) :
    (s.setSubmit c q).submit v = if v = c then q else s.submit v := by
  simp only [State.setSubmit, Function.update_apply]

theorem reader_setReader (s : State) (c v : CtxId) (q : Reader) :
    (s.setReader c q).reader v = if v = c then q else s.reader v := by
  simp only [State.setReader, Function.update_apply]

theorem submit_known (h : Sound s) (hp : (s.submit c).past = false) : c < s.next := by
  by_contra hge
  rw [(h.fresh c (Nat.not_lt.mp hge)).1] at hp
  cases hp

theorem unknown_ne {v : CtxId} (h : Sound s) (hp : (s.submit c).past = false)
    (hv : s.next ≤ v) : v ≠ c := by
  rintro rfl
  exact Nat.not_lt.mpr hv (submit_known h hp)

/-- The submitter goes on, short of freeing the message. -/
theorem sound_submit {q : Submit} (h : Sound s) (hp : (s.submit c).past = false)
    (hq : q ≠ .tail .freeing)
    (handed : s.isAsync c = true → s.sent c = true → q.handed = true) :
    Sound (s.setSubmit c q) where
  fresh := fun v hv => by
    rw [submit_setSubmit, if_neg (unknown_ne h hp hv)]
    exact h.fresh v hv
  handed := fun v hasync hsent => by
    rw [submit_setSubmit]
    split_ifs with hvc
    · subst hvc
      exact handed hasync hsent
    · exact h.handed v hasync hsent
  queued := h.queued
  once := h.once
  owes := h.owes
  on := h.on
  message := fun v hv => by
    have hne : v ≠ c := fun he => (live_of_submit h hp).2.2 (he ▸ hv)
    rw [submit_setSubmit, if_neg hne]
    exact h.message v hv
  record := fun v hv => by
    have hne : v ≠ c := by
      rintro rfl
      exact hv.elim (live_of_submit h hp).1 (live_of_submit h hp).2.1
    rw [submit_setSubmit, if_neg hne]
    exact h.record v hv
  submitFrees := fun v hv => by
    rw [submit_setSubmit] at hv
    split_ifs at hv
    · exact False.elim (hq hv)
    · exact h.submitFrees v hv
  readerFrees := fun v hv => by
    obtain ⟨unreached, hleft, hrest⟩ := h.readerFrees v hv
    have hne : v ≠ c := by
      rintro rfl
      rw [hleft] at hp
      cases hp
    rw [submit_setSubmit, if_neg hne]
    exact ⟨unreached, hleft, hrest⟩

/-- The same before the context is handed over. -/
theorem sound_unhanded {q : Submit} (h : Sound s) (hp : (s.submit c).past = false)
    (own : (s.submit c).handed = false) (hq : q ≠ .tail .freeing) : Sound (s.setSubmit c q) := by
  refine sound_submit h hp hq fun hasync hsent => ?_
  rw [h.handed c hasync hsent] at own
  cases own

/-- `get_args` allocates the message of a context that nobody else knows. -/
theorem sound_hasMsg (h : Sound s) (hp : (s.submit c).past = false) (msg : Bool) :
    Sound { s with hasMsg := Function.update s.hasMsg c msg } := by
  have live := live_of_submit h hp
  have other : ∀ v, v ≠ c → Function.update s.hasMsg c msg v = s.hasMsg v := fun v hv =>
    Function.update_of_ne hv _ _
  refine ⟨fun v hv => ?_, h.handed, h.queued, h.once, h.owes, h.on, h.message, fun v hv => ?_,
    fun v hv => ?_, fun v hv => ?_⟩
  · obtain ⟨hleft, hidle, hmsg, hrest⟩ := h.fresh v hv
    exact ⟨hleft, hidle, (other v (unknown_ne h hp hv)).trans hmsg, hrest⟩
  · have hne : v ≠ c := by
      rintro rfl
      exact hv.elim live.1 live.2.1
    obtain ⟨unreached, hleft, hdone, hmsg⟩ := h.record v hv
    exact ⟨unreached, hleft, hdone, fun hm => hmsg ((other v hne).symm.trans hm)⟩
  · have hne : v ≠ c := by
      rintro rfl
      rw [show s.submit v = .tail .freeing from hv] at hp
      cases hp
    obtain ⟨unreached, hidle, hmsg⟩ := h.submitFrees v hv
    exact ⟨unreached, hidle, fun hm => hmsg ((other v hne).symm.trans hm)⟩
  · obtain ⟨unreached, hleft, hmsg⟩ := h.readerFrees v hv
    have hne : v ≠ c := by
      rintro rfl
      rw [hleft] at hp
      cases hp
    exact ⟨unreached, hleft, fun hm => hmsg ((other v hne).symm.trans hm)⟩

/-- The message is in the queue. -/
theorem sound_sent (h : Sound s) (hp : (s.submit c).past = false)
    (handed : (s.submit c).handed = true) :
    Sound { s with sent := Function.update s.sent c true } := by
  have kept : ∀ v, s.sent v = true → Function.update s.sent c true v = true := fun v hv => by
    rw [Function.update_apply]
    split_ifs
    · rfl
    · exact hv
  refine ⟨fun v hv => ?_, fun v hasync hsent => ?_, fun v hv => ?_, h.once, h.owes, fun v hv => ?_,
    h.message, h.record, h.submitFrees, h.readerFrees⟩
  · obtain ⟨hleft, hidle, hmsg, hsent, hlive⟩ := h.fresh v hv
    have hne := unknown_ne h hp hv
    exact ⟨hleft, hidle, hmsg, (Function.update_of_ne hne _ _).trans hsent, hlive⟩
  · by_cases hvc : v = c
    · subst hvc
      exact handed
    · exact h.handed v hasync ((Function.update_of_ne hvc _ _).symm.trans hsent)
  · obtain ⟨hasync, hsent, hanswered⟩ := h.queued v hv
    exact ⟨hasync, kept v hsent, hanswered⟩
  · obtain ⟨hsent, hanswered⟩ := h.on v hv
    exact ⟨kept v hsent, hanswered⟩

theorem sound_alloc (h : Sound s) (isAsync : Bool) (handle : Nat) :
    Sound { s.setSubmit s.next .building with
      isAsync := Function.update s.isAsync s.next isAsync
      handle := Function.update s.handle s.next handle
      next := s.next + 1 } := by
  obtain ⟨hleft, hidle, _, hsent, hlive⟩ := h.fresh s.next (Nat.le_refl _)
  have hasync : ∀ v, v ≠ s.next → Function.update s.isAsync s.next isAsync v = s.isAsync v :=
    fun v hv => Function.update_of_ne hv _ _
  refine ⟨fun v hv => ?_, fun v hv hs => ?_, fun v hv => ?_, h.once, h.owes, h.on, fun v hv => ?_,
    fun v hv => ?_, fun v hv => ?_, fun v hv => ?_⟩
  · have hlt : s.next < v := hv
    rw [submit_setSubmit, if_neg (Nat.ne_of_gt hlt)]
    exact h.fresh v (Nat.le_of_lt hlt)
  · have hne : v ≠ s.next := fun he => by
      subst he
      cases hsent.symm.trans hs
    rw [submit_setSubmit, if_neg hne]
    exact h.handed v ((hasync v hne).symm.trans hv) hs
  · obtain ⟨hv, hs, ha⟩ := h.queued v hv
    have hne : v ≠ s.next := fun he => by
      rw [he, hsent] at hs
      cases hs
    exact ⟨(hasync v hne).trans hv, hs, ha⟩
  · have hne : v ≠ s.next := fun he => hlive.2.2 (he ▸ hv)
    rw [submit_setSubmit, if_neg hne]
    exact h.message v hv
  · have hne : v ≠ s.next := by
      rintro rfl
      exact hv.elim hlive.1 hlive.2.1
    rw [submit_setSubmit, if_neg hne]
    exact h.record v hv
  · rw [submit_setSubmit] at hv
    split_ifs at hv
    exact h.submitFrees v hv
  · have hne : v ≠ s.next := by
      rintro rfl
      rw [show s.reader s.next = .tail .freeing from hv] at hidle
      cases hidle
    rw [submit_setSubmit, if_neg hne]
    exact h.readerFrees v hv

/-- The interrupt goes on with the same message, or is done with it. -/
theorem sound_recv {r : Recv} (h : Sound s) (completed : CtxId → Bool)
    (on : ∀ c, r.on = some c → s.recv.on = some c)
    (owes : ∀ c, r.owes = some c → s.recv.owes = some c) :
    Sound { s with recv := r, completed := completed } := by
  have kept : ∀ c, Unreached s.recv s.queue c → Unreached r s.queue c := fun c hc =>
    ⟨fun hr => hc.recv (on c hr), hc.queue⟩
  refine ⟨h.fresh, h.handed, h.queued, h.once, fun c hc => h.owes c (owes c hc),
    fun c hc => h.on c (on c hc), fun c hc => ?_, fun c hc => ?_, fun c hc => ?_, fun c hc => ?_⟩
  · exact (h.message c hc).imp_left (kept c)
  · exact (h.record c hc).imp_left (kept c)
  · exact (h.submitFrees c hc).imp_left (kept c)
  · exact (h.readerFrees c hc).imp_left (kept c)

theorem sound_lookup (h : Sound s) (hsent : s.sent c = true) (hanswered : s.answered c = false)
    (hmsg : s.hasMsg c = true) (hlive : .msg c ∉ s.freed) :
    Sound { s with recv := .found c, answered := Function.update s.answered c true } := by
  have unqueued : ¬ (c ∈ s.queue ∨ s.reader c ≠ .idle) := fun hc => by
    rw [(h.queued c hc).2.2] at hanswered
    cases hanswered
  have kept : ∀ v, s.answered v = true → Function.update s.answered c true v = true :=
    fun v hv => by
      rw [Function.update_apply]
      split_ifs
      · rfl
      · exact hv
  -- A context whose message is gone, or about to be, is another one.
  have other : ∀ v, (s.hasMsg v = true → .msg v ∈ s.freed) → Unreached s.recv s.queue v →
      Unreached (.found c) s.queue v := fun v hv hu =>
    ⟨fun he => hlive (Option.some.inj he ▸ hv (Option.some.inj he ▸ hmsg)), hu.queue⟩
  refine ⟨h.fresh, h.handed, fun v hv => ?_, h.once, fun v hv => ?_, fun v hv => ?_, fun v hv => ?_,
    fun v hv => ?_, fun v hv => ?_, fun v hv => ?_⟩
  · exact (h.queued v hv).imp_right fun hq => hq.imp_right (kept v)
  · obtain rfl : c = v := Option.some.inj hv
    exact ⟨fun hq => unqueued (Or.inl hq), not_not.mp fun hr => unqueued (Or.inr hr)⟩
  · obtain rfl : c = v := Option.some.inj hv
    exact ⟨hsent, Function.update_self _ _ _⟩
  · exact (h.message v hv).imp_left (other v fun _ => hv)
  · obtain ⟨hu, hrest⟩ := h.record v hv
    exact ⟨other v hrest.2.2 hu, hrest⟩
  · obtain ⟨hu, hrest⟩ := h.submitFrees v hv
    exact ⟨other v hrest.2 hu, hrest⟩
  · obtain ⟨hu, hrest⟩ := h.readerFrees v hv
    exact ⟨other v hrest.2 hu, hrest⟩

/-- `vfastrpc_queue_completed_async_job`. -/
theorem sound_enqueue (h : Sound s) (hr : s.recv = .tested c) (hasync : s.isAsync c = true) :
    Sound { s with recv := .signalled c, queue := s.queue ++ [c] } := by
  have hon : s.recv.on = some c := by rw [hr]; rfl
  obtain ⟨unqueued, hidle⟩ := h.owes c (by rw [hr]; rfl)
  have kept : ∀ v, Unreached s.recv s.queue v → Unreached (.signalled c) (s.queue ++ [c]) v := by
    intro v hv
    have hne : v ≠ c := fun he => hv.recv (he ▸ hon)
    refine ⟨fun he => hne (Option.some.inj he).symm, fun hm => ?_⟩
    rcases List.mem_append.mp hm with hm | hm
    · exact hv.queue hm
    · exact hne (List.mem_singleton.mp hm)
  refine ⟨h.fresh, h.handed, fun v hv => ?_, ⟨?_, fun v hv => ?_⟩, fun v hv => ?_, fun v hv => ?_,
    fun v hv => ?_, fun v hv => ?_, fun v hv => ?_, fun v hv => ?_⟩
  · rcases hv with hv | hv
    · rcases List.mem_append.mp hv with hv | hv
      · exact h.queued v (Or.inl hv)
      · obtain rfl := List.mem_singleton.mp hv
        exact ⟨hasync, h.on v hon⟩
    · exact h.queued v (Or.inr hv)
  · exact List.nodup_append.mpr ⟨h.once.1, List.nodup_singleton c, fun v hv w hw he =>
      unqueued (List.mem_singleton.mp hw ▸ he ▸ hv)⟩
  · rcases List.mem_append.mp hv with hv | hv
    · exact h.once.2 v hv
    · exact List.mem_singleton.mp hv ▸ hidle
  · cases hv
  · exact h.on v (hon.trans hv)
  · exact (h.message v hv).imp_left (kept v)
  · exact (h.record v hv).imp_left (kept v)
  · exact (h.submitFrees v hv).imp_left (kept v)
  · exact (h.readerFrees v hv).imp_left (kept v)

theorem sound_take {rest : List CtxId} (h : Sound s) (hq : s.queue = c :: rest) :
    Sound { s.setReader c .taken with queue := rest } := by
  have first : c ∈ s.queue := by rw [hq]; exact List.mem_cons_self
  have later : ∀ v ∈ rest, v ∈ s.queue := fun v hv => by
    rw [hq]
    exact List.mem_cons_of_mem c hv
  obtain ⟨hnew, hrest⟩ := List.nodup_cons.mp (hq ▸ h.once.1)
  have kept : ∀ v, Unreached s.recv s.queue v → v ≠ c ∧ Unreached s.recv rest v := fun v hv =>
    ⟨fun he => hv.queue (he ▸ first), hv.recv, fun hm => hv.queue (later v hm)⟩
  refine ⟨fun v hv => ?_, h.handed, fun v hv => ?_, ⟨hrest, fun v hv => ?_⟩, fun v hv => ?_, h.on,
    fun v hv => ?_, fun v hv => ?_, fun v hv => ?_, fun v hv => ?_⟩
  · obtain ⟨hleft, hidle, hmsg, hsent, hlive⟩ := h.fresh v hv
    have hne : v ≠ c := fun he => by
      rw [he, (h.queued c (Or.inl first)).2.1] at hsent
      cases hsent
    exact ⟨hleft, (reader_setReader s c v _).trans ((if_neg hne).trans hidle), hmsg, hsent, hlive⟩
  · rcases hv with hv | hv
    · exact h.queued v (Or.inl (later v hv))
    · rw [reader_setReader] at hv
      split_ifs at hv with hvc
      · exact h.queued v (Or.inl (hvc ▸ first))
      · exact h.queued v (Or.inr hv)
  · have hne : v ≠ c := fun he => hnew (he ▸ hv)
    rw [reader_setReader, if_neg hne]
    exact h.once.2 v (later v hv)
  · obtain ⟨unqueued, hidle⟩ := h.owes v hv
    have hne : v ≠ c := fun he => unqueued (he ▸ first)
    rw [reader_setReader, if_neg hne]
    exact ⟨fun hm => unqueued (later v hm), hidle⟩
  · obtain ⟨hu, hp⟩ := h.message v hv
    rw [reader_setReader, if_neg (kept v hu).1]
    exact ⟨(kept v hu).2, hp⟩
  · obtain ⟨hu, hp⟩ := h.record v hv
    rw [reader_setReader, if_neg (kept v hu).1]
    exact ⟨(kept v hu).2, hp⟩
  · obtain ⟨hu, hp⟩ := h.submitFrees v hv
    rw [reader_setReader, if_neg (kept v hu).1]
    exact ⟨(kept v hu).2, hp⟩
  · rw [reader_setReader] at hv
    split_ifs at hv
    exact (h.readerFrees v hv).imp_left fun hu => (kept v hu).2

/-- The reader goes on, short of freeing the message. -/
theorem sound_reader {q : Reader} (h : Sound s) (hp : (s.reader c).past = false)
    (hq : q ≠ .tail .freeing) : Sound (s.setReader c q) := by
  have busy : s.reader c ≠ .idle := fun he => by rw [he] at hp; cases hp
  have live := live_of_reader h hp
  have other : ∀ v, s.reader v = .idle → v ≠ c := fun v hv he => busy (he ▸ hv)
  refine ⟨fun v hv => ?_, h.handed, fun v hv => ?_, ⟨h.once.1, fun v hv => ?_⟩, fun v hv => ?_,
    h.on, fun v hv => ?_, fun v hv => ?_, fun v hv => ?_, fun v hv => ?_⟩
  · rw [reader_setReader, if_neg (other v (h.fresh v hv).2.1)]
    exact h.fresh v hv
  · rw [reader_setReader] at hv
    split_ifs at hv with hvc
    · exact h.queued v (Or.inr (hvc ▸ busy))
    · exact h.queued v hv
  · rw [reader_setReader, if_neg (other v (h.once.2 v hv))]
    exact h.once.2 v hv
  · rw [reader_setReader, if_neg (other v (h.owes v hv).2)]
    exact h.owes v hv
  · have hne : v ≠ c := fun he => live.2.2 (he ▸ hv)
    rw [reader_setReader, if_neg hne]
    exact h.message v hv
  · have hne : v ≠ c := by
      rintro rfl
      exact hv.elim live.1 live.2.1
    rw [reader_setReader, if_neg hne]
    exact h.record v hv
  · obtain ⟨hu, hidle, hmsg⟩ := h.submitFrees v hv
    rw [reader_setReader, if_neg (other v hidle)]
    exact ⟨hu, hidle, hmsg⟩
  · rw [reader_setReader] at hv
    split_ifs at hv
    · exact False.elim (hq hv)
    · exact h.readerFrees v hv

/-- What `context_free` leaves behind when it is at `c`: `p` and `q` are where the two
parties are, `new` is what was released. -/
structure Freeing (s : State) (c : CtxId) (p : Submit) (q : Reader) (new : List Obj) : Prop where
  known : c < s.next
  unreached : Unreached s.recv s.queue c
  handed : s.isAsync c = true → s.sent c = true → p.handed = true
  reader : q ≠ .idle → s.reader c ≠ .idle
  past : p.past = true ∧ q.past = true
  own : ∀ v, .msg v ∈ new ∨ .ctx v ∈ new ∨ .perf v ∈ new → v = c
  message : s.hasMsg c = true → .msg c ∈ new ++ s.freed
  record : .ctx c ∈ new ++ s.freed ∨ .perf c ∈ new ++ s.freed →
    p = .left ∧ (q = .idle ∨ q = .tail .freed)
  submitFrees : p = .tail .freeing → q = .idle
  readerFrees : q = .tail .freeing → p = .left

theorem sound_free {p : Submit} {q : Reader} {new : List Obj} (h : Sound s)
    (hf : Freeing s c p q new) :
    Sound { s with
      submit := Function.update s.submit c p
      reader := Function.update s.reader c q
      freed := new ++ s.freed } := by
  have old : ∀ v, v ≠ c → (.msg v ∈ new ++ s.freed → .msg v ∈ s.freed) ∧
      (.ctx v ∈ new ++ s.freed → .ctx v ∈ s.freed) ∧
      (.perf v ∈ new ++ s.freed → .perf v ∈ s.freed) := fun v hv =>
    ⟨fun hm => (List.mem_append.mp hm).resolve_left fun hn => hv (hf.own v (Or.inl hn)),
      fun hm => (List.mem_append.mp hm).resolve_left fun hn => hv (hf.own v (Or.inr (Or.inl hn))),
      fun hm => (List.mem_append.mp hm).resolve_left fun hn => hv (hf.own v (Or.inr (Or.inr hn)))⟩
  have atC : Function.update s.submit c p c = p ∧ Function.update s.reader c q c = q :=
    ⟨Function.update_self _ _ _, Function.update_self _ _ _⟩
  have away : ∀ v, v ≠ c → Function.update s.submit c p v = s.submit v ∧
      Function.update s.reader c q v = s.reader v := fun v hv =>
    ⟨Function.update_of_ne hv _ _, Function.update_of_ne hv _ _⟩
  have more : ∀ v, (s.hasMsg v = true → .msg v ∈ s.freed) →
      (s.hasMsg v = true → .msg v ∈ new ++ s.freed) := fun v hv hm =>
    List.mem_append_right new (hv hm)
  refine ⟨fun v hv => ?_, fun v ha hs => ?_, fun v hv => ?_, ⟨h.once.1, fun v hv => ?_⟩,
    fun v hv => ?_, h.on, fun v hv => ?_, fun v hv => ?_, fun v hv => ?_, fun v hv => ?_⟩
  · have hne : v ≠ c := fun he => Nat.not_lt.mpr hv (he ▸ hf.known)
    obtain ⟨hleft, hidle, hmsg, hsent, hc, hp, hm⟩ := h.fresh v hv
    obtain ⟨om, oc, op⟩ := old v hne
    exact ⟨(away v hne).1.trans hleft, (away v hne).2.trans hidle, hmsg, hsent,
      fun hn => hc (oc hn), fun hn => hp (op hn), fun hn => hm (om hn)⟩
  · by_cases hvc : v = c
    · subst hvc
      exact (congrArg Submit.handed atC.1).trans (hf.handed ha hs)
    · exact (congrArg Submit.handed (away v hvc).1).trans (h.handed v ha hs)
  · by_cases hvc : v = c
    · subst hvc
      exact h.queued v (hv.imp_right fun hr => hf.reader (atC.2 ▸ hr))
    · exact h.queued v (hv.imp_right fun hr => (away v hvc).2 ▸ hr)
  · have hne : v ≠ c := fun he => hf.unreached.queue (he ▸ hv)
    exact (away v hne).2.trans (h.once.2 v hv)
  · have hne : v ≠ c := by
      rintro rfl
      have hon : s.recv.on = some v := by
        change s.recv.owes = some v at hv
        cases hr : s.recv <;> simp_all [Recv.on, Recv.owes]
      exact hf.unreached.recv hon
    exact (h.owes v hv).imp_right (away v hne).2.trans
  · by_cases hvc : v = c
    · subst hvc
      exact ⟨hf.unreached, (congrArg Submit.past atC.1).trans hf.past.1,
        (congrArg Reader.past atC.2).trans hf.past.2⟩
    · obtain ⟨hu, hp, hr⟩ := h.message v ((old v hvc).1 hv)
      exact ⟨hu, (congrArg Submit.past (away v hvc).1).trans hp,
        (congrArg Reader.past (away v hvc).2).trans hr⟩
  · by_cases hvc : v = c
    · subst hvc
      obtain ⟨hp, hq⟩ := hf.record hv
      exact ⟨hf.unreached, atC.1.trans hp, hq.imp atC.2.trans atC.2.trans, hf.message⟩
    · obtain ⟨hu, hp, hq, hm⟩ := h.record v (hv.imp (old v hvc).2.1 (old v hvc).2.2)
      have same := (away v hvc).2
      exact ⟨hu, (away v hvc).1.trans hp, hq.imp same.trans same.trans, more v hm⟩
  · by_cases hvc : v = c
    · subst hvc
      exact ⟨hf.unreached, atC.2.trans (hf.submitFrees (atC.1.symm.trans hv)), hf.message⟩
    · obtain ⟨hu, hq, hm⟩ := h.submitFrees v ((away v hvc).1.symm.trans hv)
      exact ⟨hu, (away v hvc).2.trans hq, more v hm⟩
  · by_cases hvc : v = c
    · subst hvc
      exact ⟨hf.unreached, atC.1.trans (hf.readerFrees (atC.2.symm.trans hv)), hf.message⟩
    · obtain ⟨hu, hp, hm⟩ := h.readerFrees v ((away v hvc).2.symm.trans hv)
      exact ⟨hu, (away v hvc).1.trans hp, more v hm⟩

theorem unhanded (h : Sound s) (hp : (s.submit c).handed = false) :
    c ∉ s.queue ∧ s.reader c = .idle := by
  have no : ¬ (c ∈ s.queue ∨ s.reader c ≠ .idle) := fun hc => by
    obtain ⟨hasync, hsent, _⟩ := h.queued c hc
    rw [h.handed c hasync hsent] at hp
    cases hp
  exact ⟨fun hq => no (Or.inl hq), not_not.mp fun hr => no (Or.inr hr)⟩

theorem reader_known (h : Sound s) (hr : s.reader c ≠ .idle) : c < s.next := by
  by_contra hge
  exact hr (h.fresh c (Nat.not_lt.mp hge)).2.1

theorem msgOf_own (v : CtxId) (hv : .msg v ∈ msgOf s c ∨ .ctx v ∈ msgOf s c ∨ .perf v ∈ msgOf s c) :
    v = c := by
  unfold msgOf at hv
  split_ifs at hv <;> simp_all

theorem msgOf_record {freed : List Obj} (live : Live freed c)
    (hm : .ctx c ∈ msgOf s c ++ freed ∨ .perf c ∈ msgOf s c ++ freed) : False := by
  have no : .ctx c ∉ msgOf s c ∧ .perf c ∉ msgOf s c := by
    unfold msgOf
    split_ifs <;> simp
  rcases hm with hm | hm
  · exact (List.mem_append.mp hm).elim no.1 live.1
  · exact (List.mem_append.mp hm).elim no.2 live.2.1

theorem msgOf_message {freed : List Obj} (hm : s.hasMsg c = true) :
    .msg c ∈ msgOf s c ++ freed := by
  simp [msgOf, hm]

theorem perfOf_own (v : CtxId) (hv : .msg v ∈ perfOf cfg c ++ [.ctx c] ∨
    .ctx v ∈ perfOf cfg c ++ [.ctx c] ∨ .perf v ∈ perfOf cfg c ++ [.ctx c]) : v = c := by
  unfold perfOf at hv
  split_ifs at hv <;> simp_all

theorem submitter_freesMsg (h : Sound s) (hp : s.submit c = .tail .closing)
    (hr : s.recv.on ≠ some c) : Freeing s c (.tail .freeing) (s.reader c) (msgOf s c) := by
  have busy : (s.submit c).past = false := by rw [hp]; rfl
  have alone : (s.submit c).handed = false := by rw [hp]; rfl
  obtain ⟨hq, hidle⟩ := unhanded h alone
  refine ⟨submit_known h busy, ⟨hr, hq⟩, fun ha hs => ?_, fun hne => hne, ⟨rfl, ?_⟩, msgOf_own,
    msgOf_message, fun hm => False.elim (msgOf_record (live_of_submit h busy) hm), fun _ => hidle,
    fun he => ?_⟩
  · rw [h.handed c ha hs] at alone
    cases alone
  · rw [hidle]
    rfl
  · rw [hidle] at he
    cases he

theorem reader_freesMsg (h : Sound s) (hq : s.reader c = .tail .closing)
    (hr : s.recv.on ≠ some c) (hp : s.submit c = .left) :
    Freeing s c (s.submit c) (.tail .freeing) (msgOf s c) := by
  have busy : (s.reader c).past = false := by rw [hq]; rfl
  have taken : s.reader c ≠ .idle := fun he => by rw [he] at hq; cases hq
  refine ⟨reader_known h taken, ⟨hr, fun hm => taken (h.once.2 c hm)⟩, h.handed c, fun _ => taken,
    ⟨by rw [hp]; rfl, rfl⟩, msgOf_own, msgOf_message,
    fun hm => False.elim (msgOf_record (live_of_reader h busy) hm), fun he => ?_, fun _ => hp⟩
  rw [hp] at he
  cases he

theorem submitter_freesCtx (cfg : Config) (h : Sound s) (hp : s.submit c = .tail .freeing) :
    Freeing s c .left (s.reader c) (perfOf cfg c ++ [.ctx c]) := by
  obtain ⟨unreached, hidle, hmsg⟩ := h.submitFrees c hp
  have known : c < s.next := by
    by_contra hge
    cases hp.symm.trans (h.fresh c (Nat.not_lt.mp hge)).1
  refine ⟨known, unreached, fun _ _ => rfl, fun hne => hne, ⟨rfl, by rw [hidle]; rfl⟩, perfOf_own,
    fun hm => List.mem_append_right _ (hmsg hm), fun _ => ⟨rfl, Or.inl hidle⟩, fun he => ?_,
    fun _ => rfl⟩
  cases he

theorem reader_freesCtx (cfg : Config) (h : Sound s) (hq : s.reader c = .tail .freeing) :
    Freeing s c (s.submit c) (.tail .freed) (perfOf cfg c ++ [.ctx c]) := by
  obtain ⟨unreached, hleft, hmsg⟩ := h.readerFrees c hq
  have taken : s.reader c ≠ .idle := fun he => by rw [he] at hq; cases hq
  refine ⟨reader_known h taken, unreached, h.handed c, fun _ => taken, ⟨by rw [hleft]; rfl, rfl⟩,
    perfOf_own, fun hm => List.mem_append_right _ (hmsg hm), fun _ => ⟨hleft, Or.inr rfl⟩,
    fun he => ?_, fun he => ?_⟩
  · rw [hleft] at he
    cases he
  · cases he

theorem tailOf_submitter {x : Tail} (hx : s.tailOf .submitter c = some x) :
    s.submit c = .tail x := by
  unfold State.tailOf at hx
  dsimp only at hx
  split at hx <;> simp_all

theorem tailOf_reader {x : Tail} (hx : s.tailOf .reader c = some x) : s.reader c = .tail x := by
  unfold State.tailOf at hx
  dsimp only at hx
  split at hx <;> simp_all

theorem sound_finish (who : Party) (h : Sound s) (hx : s.tailOf who c = some .ending) :
    Sound (s.setTail who c .closing) := by
  cases who with
  | submitter =>
    have hp := tailOf_submitter hx
    exact sound_unhanded h (by rw [hp]; rfl) (by rw [hp]; rfl) fun he => by cases he
  | reader =>
    exact sound_reader h (by rw [tailOf_reader hx]; rfl) fun he => by cases he

theorem sound_freeMsg (who : Party) (h : Sound s) (hx : s.tailOf who c = some .closing)
    (ok : Ordered s (.freeMsg who c)) :
    Sound { s.setTail who c .freeing with freed := msgOf s c ++ s.freed } := by
  cases who with
  | submitter =>
    have hs := sound_free h (submitter_freesMsg h (tailOf_submitter hx) ok)
    rw [Function.update_eq_self] at hs
    exact hs
  | reader =>
    have hs := sound_free h (reader_freesMsg h (tailOf_reader hx) ok.1 ok.2)
    rw [Function.update_eq_self] at hs
    exact hs

theorem sound_freeCtx (who : Party) (h : Sound s) (hx : s.tailOf who c = some .freeing) :
    Sound { s.setTail who c .freed with freed := perfOf cfg c ++ .ctx c :: s.freed } := by
  cases who with
  | submitter =>
    have hs := sound_free h (submitter_freesCtx cfg h (tailOf_submitter hx))
    rw [Function.update_eq_self, List.append_assoc] at hs
    exact hs
  | reader =>
    have hs := sound_free h (reader_freesCtx cfg h (tailOf_reader hx))
    rw [Function.update_eq_self, List.append_assoc] at hs
    exact hs

theorem submitStep_sound (h : Sound s) (hs : submitStep s a = some t) : Sound t := by
  cases a with
  | alloc isAsync handle =>
    cases hs
    exact sound_alloc h isAsync handle
  | getArgs v msg ok =>
    simp only [submitStep, Option.ite_none_right_eq_some, Option.some.injEq] at hs
    obtain ⟨⟨hp, _⟩, rfl⟩ := hs
    have h' := sound_hasMsg (c := v) h (by rw [hp]; rfl) msg
    refine sound_unhanded h' (by rw [hp]; rfl) (by rw [hp]; rfl) fun he => ?_
    split_ifs at he
    cases he
  | send v ok =>
    simp only [submitStep, Option.ite_none_right_eq_some, Option.some.injEq] at hs
    obtain ⟨hp, rfl⟩ := hs
    have h' := sound_unhanded (q := .sent ok) (c := v) h (by rw [hp]; rfl) (by rw [hp]; rfl)
      fun he => by cases he
    have hsub : (s.setSubmit v (.sent ok)).submit v = .sent ok := by
      rw [submit_setSubmit, if_pos rfl]
    cases ok with
    | false => exact h'
    | true => exact sound_sent h' (by rw [hsub]; rfl) (by rw [hsub]; rfl)
  | traceSent v =>
    simp only [submitStep] at hs
    split at hs <;> cases hs
    rename_i ok hp
    refine sound_submit h (by rw [hp]; rfl) (fun he => by cases he) fun ha hs => ?_
    have hh := h.handed v ha hs
    rw [hp] at hh
    exact hh
  | link v =>
    simp only [submitStep] at hs
    split at hs <;> cases hs
    rename_i ok hp
    refine sound_submit h (by rw [hp]; rfl) (fun he => ?_) fun ha hs => ?_
    · split_ifs at he
      cases he
    · have hh := h.handed v ha hs
      rw [hp] at hh
      obtain rfl : ok = true := hh
      rw [if_pos rfl, if_pos ha]
      rfl
  | leave v =>
    simp only [submitStep, Option.ite_none_right_eq_some, Option.some.injEq] at hs
    obtain ⟨hp, rfl⟩ := hs
    exact sound_submit h (by rw [hp]; rfl) (fun he => by cases he) fun _ _ => rfl
  | enterWait v =>
    simp only [submitStep, Option.ite_none_right_eq_some, Option.some.injEq] at hs
    obtain ⟨hp, rfl⟩ := hs
    exact sound_unhanded h (by rw [hp]; rfl) (by rw [hp]; rfl) fun he => by cases he
  | wake v =>
    simp only [submitStep, Option.ite_none_right_eq_some, Option.some.injEq] at hs
    obtain ⟨⟨hp, _⟩, rfl⟩ := hs
    exact sound_unhanded h (by rw [hp]; rfl) (by rw [hp]; rfl) fun he => by cases he
  | interrupt v =>
    simp only [submitStep, Option.ite_none_right_eq_some, Option.some.injEq] at hs
    obtain ⟨⟨hp, _⟩, rfl⟩ := hs
    exact sound_unhanded h (by rw [hp]; rfl) (by rw [hp]; rfl) fun he => by cases he
  | save v =>
    simp only [submitStep, Option.ite_none_right_eq_some, Option.some.injEq] at hs
    obtain ⟨hp, rfl⟩ := hs
    exact sound_unhanded h (by rw [hp]; rfl) (by rw [hp]; rfl) fun he => by cases he
  | resume v =>
    simp only [submitStep, Option.ite_none_right_eq_some, Option.some.injEq] at hs
    obtain ⟨hp, rfl⟩ := hs
    exact sound_unhanded h (by rw [hp]; rfl) (by rw [hp]; rfl) fun he => by cases he
  | putArgs v =>
    simp only [submitStep, Option.ite_none_right_eq_some, Option.some.injEq] at hs
    obtain ⟨hp, rfl⟩ := hs
    exact sound_unhanded h (by rw [hp]; rfl) (by rw [hp]; rfl) fun he => by cases he
  | _ => cases hs

theorem recvStep_sound (h : Sound s) (ok : Ordered s a) (hs : recvStep s a = some t) : Sound t := by
  cases a with
  | recvLookup v =>
    simp only [recvStep, Option.ite_none_right_eq_some, Option.some.injEq] at hs
    obtain ⟨⟨_, hmsg, hlive⟩, rfl⟩ := hs
    exact sound_lookup h ok.1 ok.2 hmsg hlive
  | recvAttach =>
    simp only [recvStep] at hs
    split at hs <;> cases hs
    rename_i v hr
    exact sound_recv h s.completed (fun c hc => by rw [hr]; exact hc) fun c hc => by
      rw [hr]; exact hc
  | recvTest =>
    simp only [recvStep] at hs
    split at hs <;> cases hs
    rename_i v hr
    exact sound_recv h s.completed (fun c hc => by rw [hr]; exact hc) fun c hc => by
      rw [hr]; exact hc
  | recvSignal =>
    simp only [recvStep] at hs
    split at hs
    · rename_i v hr
      split_ifs at hs with hasync <;> cases hs
      · exact sound_enqueue h hr hasync
      · exact sound_recv h _ (fun c hc => by rw [hr]; exact hc) fun c hc => by cases hc
    · cases hs
  | recvCheck =>
    simp only [recvStep] at hs
    split at hs <;> cases hs
    rename_i v hr
    exact sound_recv h s.completed (fun c hc => by rw [hr]; exact hc) fun c hc => by cases hc
  | recvTrace =>
    simp only [recvStep] at hs
    split at hs <;> cases hs
    exact sound_recv h s.completed (fun c hc => by cases hc) fun c hc => by cases hc
  | _ => cases hs

theorem freeStep_sound (h : Sound s) (ok : Ordered s a) (hs : freeStep cfg s a = some t) :
    Sound t := by
  cases a with
  | take =>
    simp only [freeStep] at hs
    split at hs <;> cases hs
    rename_i v rest hq
    exact sound_take h hq
  | readerPut v =>
    simp only [freeStep, Option.ite_none_right_eq_some, Option.some.injEq] at hs
    obtain ⟨hp, rfl⟩ := hs
    exact sound_reader h (by rw [hp]; rfl) fun he => by cases he
  | finish who v =>
    simp only [freeStep, Option.ite_none_right_eq_some, Option.some.injEq] at hs
    obtain ⟨hx, rfl⟩ := hs
    exact sound_finish who h hx
  | freeMsg who v =>
    simp only [freeStep, Option.ite_none_right_eq_some, Option.some.injEq] at hs
    obtain ⟨hx, rfl⟩ := hs
    exact sound_freeMsg who h hx ok
  | freeCtx who v =>
    simp only [freeStep, Option.ite_none_right_eq_some, Option.some.injEq] at hs
    obtain ⟨hx, rfl⟩ := hs
    exact sound_freeCtx who h hx
  | _ => cases hs

theorem advance_sound (h : Sound s) (ok : Ordered s a) (hs : advance cfg s a = some t) :
    Sound t := by
  unfold advance at hs
  split at hs
  · rename_i u hu
    cases hs
    exact submitStep_sound h hu
  · split at hs
    · rename_i u hu
      cases hs
      exact recvStep_sound h ok hu
    · exact freeStep_sound h ok hs

def objects (c : CtxId) : List Obj := [.ctx c, .perf c, .msg c]

theorem Live.not_mem {freed : List Obj} {o : Obj} (live : Live freed c) (ho : o ∈ objects c) :
    o ∉ freed := by
  simp only [objects, List.mem_cons, List.not_mem_nil, or_false] at ho
  rcases ho with rfl | rfl | rfl
  · exact live.1
  · exact live.2.1
  · exact live.2.2

theorem mem_perfOf {o : Obj} : o ∈ perfOf cfg c ↔ cfg.profile = true ∧ o = .perf c := by
  unfold perfOf
  split_ifs with hp <;> simp [hp]

theorem mem_msgOf {o : Obj} : o ∈ msgOf s c ↔ s.hasMsg c = true ∧ o = .msg c := by
  unfold msgOf
  split_ifs with hm <;> simp [hm]

/-- The context of a step of the submitter. -/
def submits : Action → Option CtxId
  | .getArgs c _ _ => some c
  | .send c _ => some c
  | .traceSent c => some c
  | .link c => some c
  | .leave c => some c
  | .enterWait c => some c
  | .wake c => some c
  | .interrupt c => some c
  | .save c => some c
  | .resume c => some c
  | .putArgs c => some c
  | _ => none

theorem submitStep_busy (hs : submitStep s a = some t) (ha : submits a = some c) :
    (s.submit c).past = false := by
  cases a <;> cases ha <;> simp only [submitStep] at hs <;> split at hs <;>
    simp_all [Submit.past]

theorem submits_objects (ha : submits a = some c) : ∀ o ∈ touches cfg s a, o ∈ objects c := by
  intro o ho
  cases a <;> cases ha <;> simp only [touches] at ho <;> (try split_ifs at ho) <;>
    simp [mem_perfOf] at ho <;> simp [objects] <;> tauto

theorem submitStep_live (h : Sound s) (hs : submitStep s a = some t) :
    ∀ o ∈ touches cfg s a, o ∉ s.freed := by
  intro o ho
  cases ha : submits a with
  | some v => exact (live_of_submit h (submitStep_busy hs ha)).not_mem (submits_objects ha o ho)
  | none =>
    cases a with
    | alloc => cases ho
    | _ => first | cases hs | cases ha

theorem recvStep_live (h : Sound s) (hs : recvStep s a = some t) :
    ∀ o ∈ touches cfg s a, o ∉ s.freed := by
  have working : ∀ o ∈ touches cfg s a, ∃ v, s.recv.on = some v ∧ o ∈ objects v := by
    intro o ho
    cases hon : s.recv.on with
    | none => cases a <;> simp_all [touches, recvStep]
    | some v =>
      refine ⟨v, rfl, ?_⟩
      cases a <;> simp only [recvStep, reduceCtorEq] at hs <;> simp only [touches] at ho <;>
        simp [hon] at ho <;> simp [objects] <;> tauto
  intro o ho
  obtain ⟨v, hv, hmem⟩ := working o ho
  exact (live_of_reached h (Or.inl hv)).not_mem hmem

theorem live_of_tail {who : Party} {x : Tail} (h : Sound s) (hx : s.tailOf who c = some x)
    (hlate : x = .ending ∨ x = .closing) : Live s.freed c := by
  cases who with
  | submitter =>
    refine live_of_submit h ?_
    rw [tailOf_submitter hx]
    rcases hlate with rfl | rfl <;> rfl
  | reader =>
    refine live_of_reader h ?_
    rw [tailOf_reader hx]
    rcases hlate with rfl | rfl <;> rfl

theorem record_of_freeing {who : Party} (h : Sound s) (hx : s.tailOf who c = some .freeing) :
    ¬ (.ctx c ∈ s.freed ∨ .perf c ∈ s.freed) := by
  intro hc
  obtain ⟨_, hleft, hdone, _⟩ := h.record c hc
  cases who with
  | submitter =>
    cases hleft.symm.trans (tailOf_submitter hx)
  | reader =>
    rcases hdone with hq | hq <;> cases hq.symm.trans (tailOf_reader hx)

theorem freeStep_live (h : Sound s) (hs : freeStep cfg s a = some t) :
    ∀ o ∈ touches cfg s a, o ∉ s.freed := by
  intro o ho
  cases a with
  | take =>
    simp only [freeStep] at hs
    split at hs <;> cases hs
    rename_i v rest hq
    refine (live_of_reached (c := v) h (Or.inr ?_)).not_mem ?_
    · rw [hq]
      exact List.mem_cons_self
    · simp_all [touches, objects]
  | readerPut v =>
    simp only [freeStep, Option.ite_none_right_eq_some] at hs
    refine (live_of_reader (c := v) h (by rw [hs.1]; rfl)).not_mem ?_
    simp only [touches, List.mem_cons, mem_perfOf] at ho
    simp only [objects, List.mem_cons, List.not_mem_nil, or_false]
    tauto
  | finish who v =>
    simp only [freeStep, Option.ite_none_right_eq_some] at hs
    refine (live_of_tail h hs.1 (Or.inl rfl)).not_mem ?_
    simp only [touches, List.mem_cons, mem_perfOf] at ho
    simp only [objects, List.mem_cons, List.not_mem_nil, or_false]
    tauto
  | freeMsg who v =>
    simp only [freeStep, Option.ite_none_right_eq_some] at hs
    refine (live_of_tail h hs.1 (Or.inr rfl)).not_mem ?_
    simp only [touches, List.mem_cons, mem_msgOf] at ho
    simp only [objects, List.mem_cons, List.not_mem_nil, or_false]
    tauto
  | freeCtx who v =>
    simp only [freeStep, Option.ite_none_right_eq_some] at hs
    have live := record_of_freeing h hs.1
    simp only [touches, List.mem_cons, mem_perfOf] at ho
    rcases ho with rfl | ⟨_, rfl⟩
    · exact fun hc => live (Or.inl hc)
    · exact fun hc => live (Or.inr hc)
  | _ => cases hs

theorem touches_live (h : Sound s) (hs : advance cfg s a = some t) :
    ∀ o ∈ touches cfg s a, o ∉ s.freed := by
  unfold advance at hs
  split at hs
  · rename_i u hu
    exact submitStep_live h hu
  · split at hs
    · rename_i u hu
      exact recvStep_live h hu
    · exact freeStep_live h hs

theorem sound_stale (h : Sound s) (stale : List Obj) : Sound { s with stale := stale } :=
  ⟨h.fresh, h.handed, h.queued, h.once, h.owes, h.on, h.message, h.record, h.submitFrees,
    h.readerFrees⟩

theorem step_sound (h : Sound s ∧ s.stale = []) (ok : Ordered s a)
    (hs : step cfg s a = some t) : Sound t ∧ t.stale = [] := by
  obtain ⟨u, hu, rfl⟩ := Option.map_eq_some_iff.mp hs
  refine ⟨sound_stale (advance_sound h.1 ok hu) _, ?_⟩
  have none : (touches cfg s a).filter (· ∈ s.freed) = [] :=
    List.filter_eq_nil_iff.mpr fun o ho => by simpa using touches_live h.1 hu o ho
  change List.filter _ _ ++ s.stale = []
  rw [none, h.2]
  rfl

end steps

/-- Along every run in which a response answers a request that was sent and not answered
before, and a message is released when the interrupt is through with it and the submitter
of an asynchronous job has returned, nothing that was released is accessed. -/
theorem released_objects_untouched (cfg : Config) {t : State} {actions : List Action}
    (ordered : Along (step cfg) Ordered State.opened actions)
    (run : exec (step cfg) State.opened actions = some t) : t.stale = [] :=
  (exec_invariant_along Ordered (fun _ _ _ => step_sound) ⟨opened_sound, rfl⟩ ordered run).2

/-- One synchronous and one asynchronous call, each answered once. -/
def twoCalls : List Action :=
  [.alloc false 16, .getArgs 0 true true, .send 0 true, .alloc true 16, .getArgs 1 true true,
    .recvLookup 0, .traceSent 0, .recvAttach, .link 0, .recvTest, .enterWait 0, .send 1 true,
    .interrupt 0, .save 0, .recvSignal, .traceSent 1, .recvCheck, .resume 0, .recvTrace,
    .recvLookup 1, .recvAttach, .recvTest, .recvSignal, .take, .enterWait 0, .wake 0, .link 1,
    .recvCheck, .readerPut 1, .leave 1, .recvTrace, .putArgs 0, .finish .reader 1,
    .finish .submitter 0, .freeMsg .reader 1, .freeMsg .submitter 0, .freeCtx .submitter 0,
    .freeCtx .reader 1]

instance decidableOrdered (s : State) : (a : Action) → Decidable (Ordered s a)
  | .recvLookup c => inferInstanceAs (Decidable (s.sent c = true ∧ s.answered c = false))
  | .freeMsg .submitter c => inferInstanceAs (Decidable (s.recv.on ≠ some c))
  | .freeMsg .reader c =>
    inferInstanceAs (Decidable (s.recv.on ≠ some c ∧ s.submit c = .left))
  | .alloc .. | .getArgs .. | .send .. | .traceSent _ | .link _ | .leave _ | .enterWait _
  | .wake _ | .interrupt _ | .save _ | .resume _ | .putArgs _ | .recvAttach | .recvTest
  | .recvSignal | .recvCheck | .recvTrace | .take | .readerPut _ | .finish .. | .freeCtx .. =>
    isTrue trivial

theorem twoCalls_untouched :
    Along (step ⟨true, true⟩) Ordered State.opened twoCalls ∧
      ∃ t, exec (step ⟨true, true⟩) State.opened twoCalls = some t ∧ t.stale = [] :=
  have ordered : Along (step ⟨true, true⟩) Ordered State.opened twoCalls := by decide +kernel
  ⟨ordered, _, rfl, released_objects_untouched ⟨true, true⟩ ordered rfl⟩

/-- The caller is woken, frees its message and the interrupt then tests `msg->ctx`. -/
def wokenEarly : List Action :=
  [.alloc false 16, .getArgs 0 true true, .send 0 true, .traceSent 0, .link 0, .enterWait 0,
    .recvLookup 0, .recvAttach, .recvTest, .recvSignal, .wake 0, .putArgs 0, .finish .submitter 0,
    .freeMsg .submitter 0, .recvCheck]

/-- A reader frees an asynchronous job whose submitter has not returned from the send. -/
def readEarly : List Action :=
  [.alloc true 16, .getArgs 0 true true, .send 0 true, .recvLookup 0, .recvAttach, .recvTest,
    .recvSignal, .recvCheck, .recvTrace, .take, .readerPut 0, .finish .reader 0,
    .freeMsg .reader 0, .freeCtx .reader 0, .traceSent 0, .link 0]

/-- Whatever the settings, `recv_single` tests a message that its owner has freed, and with
profiling the submitter counts the time of a job in a record that a reader has freed. -/
theorem released_objects_touched :
    (∀ cfg, ∃ t, exec (step cfg) State.opened wokenEarly = some t ∧ .msg 0 ∈ t.stale) ∧
      ∀ tracing, ∃ t, exec (step ⟨true, tracing⟩) State.opened readEarly = some t ∧
        .perf 0 ∈ t.stale := by
  constructor
  · rintro ⟨profile, tracing⟩
    cases profile <;> cases tracing <;> exact ⟨_, rfl, by decide +kernel⟩
  · intro tracing
    cases tracing <;> exact ⟨_, rfl, by decide +kernel⟩

end ContextAccesses
