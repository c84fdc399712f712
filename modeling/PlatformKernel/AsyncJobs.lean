import PlatformKernel.MessageDelivery
import PlatformKernel.TransportFrames

/-!
# Asynchronous jobs and their readers

`recv_single` puts the context of an asynchronous job on the queue of its file and counts
it; any number of readers wait for the count to be nonzero, take the first job and free
it. Messages, queues and the back end are those of the transport; a file that is being
closed is not considered.
-/

namespace AsyncJobs

open GuardedRuns MessageTransport MessageDelivery TransportFrames

abbrev ReaderId := Nat

/-- Where a call of `vfastrpc_wait_on_async_queue` is. -/
inductive Reader where
  | outside
  | waiting (f : FileId)
  | woken (f : FileId)
  | holding (f : FileId) (uid : Uid)
  | freeing (f : FileId) (uid : Uid)
  deriving DecidableEq

def Reader.job : Reader → Option Uid
  | .holding _ uid => some uid
  | .freeing _ uid => some uid
  | _ => none

def Reader.file : Reader → Option FileId
  | .outside => none
  | .waiting f => some f
  | .woken f => some f
  | .holding f _ => some f
  | .freeing f _ => some f

/-- `accepted`, `taken` and `freed` are history: the jobs whose response was accepted, in
order, the jobs taken and by whom, and the contexts that were freed. -/
structure State where
  net : MessageTransport.State
  queue : FileId → List Uid
  jobCount : FileId → Int
  readers : ReaderId → Reader
  accepted : FileId → List Uid
  taken : FileId → List (Uid × ReaderId)
  freed : List Uid

def State.probed (numBufs : Nat) : State where
  net := MessageTransport.State.probed numBufs
  queue := fun _ => []
  jobCount := fun _ => 0
  readers := fun _ => .outside
  accepted := fun _ => []
  taken := fun _ => []
  freed := []

inductive Action where
  | net (a : MessageTransport.Action)
  | enter (r : ReaderId) (f : FileId)
  | wake (r : ReaderId)
  | interrupt (r : ReaderId)
  | take (r : ReaderId)
  | giveBack (r : ReaderId) (added : Bool)
  | free (r : ReaderId)

def State.setReader (s : State) (r : ReaderId) (p : Reader) : State :=
  { s with readers := Function.update s.readers r p }

/-- No file is closed, and a job that was taken is left to its reader. -/
def permitted (s : State) (a : MessageTransport.Action) : Bool :=
  match a with
  | .takeAsync _ => false
  | .closeBegin _ => false
  | .drainBegin _ => false
  | .closeTake _ => false
  | a =>
    match a.owned.bind s.net.msgs with
    | some m => (s.taken m.file).all fun p => some p.1 != a.owned
    | none => true

/-- `recv_single` accepts the response to an asynchronous job. -/
def accept (s : State) (uid : Uid) (m : Msg) : State :=
  if m.kind = .asyncInvoke then
    { s with accepted := Function.update s.accepted m.file (s.accepted m.file ++ [uid]) }
  else s

/-- `vfastrpc_queue_completed_async_job`, if the message has an asynchronous context. -/
def vfastrpcQueueCompletedAsyncJob (s : State) (uid : Uid) (m : Msg) : State :=
  if m.kind = .asyncInvoke then
    { s with
      queue := Function.update s.queue m.file (s.queue m.file ++ [uid])
      jobCount := Function.update s.jobCount m.file (s.jobCount m.file + 1) }
  else s

/-- What a step of the transport means for the queues. -/
def observe (s : State) (a : MessageTransport.Action) (net : MessageTransport.State) : State :=
  match a with
  | .recvLookup =>
    match net.recv with
    | .found _ uid =>
      match net.msgs uid with
      | some m => accept { s with net := net } uid m
      | none => { s with net := net }
    | _ => { s with net := net }
  | .recvComplete =>
    match s.net.recv with
    | .attached uid =>
      match s.net.msgs uid with
      | some m => vfastrpcQueueCompletedAsyncJob { s with net := net } uid m
      | none => { s with net := net }
    | _ => { s with net := net }
  | .free uid => { s with net := net, freed := uid :: s.freed }
  | _ => { s with net := net }

/-- `vfastrpc_wait_on_async_queue`. The wait ends with a signal only if the count is zero;
a reader that finds the queue empty waits again. -/
def readerStep (s : State) : Action → Option State
  | .net _ => none
  | .enter r f =>
    if s.readers r = .outside ∧ s.net.files f = .opened then some (s.setReader r (.waiting f))
    else none
  | .wake r =>
    match s.readers r with
    | .waiting f => if s.jobCount f ≠ 0 then some (s.setReader r (.woken f)) else none
    | _ => none
  | .interrupt r =>
    match s.readers r with
    | .waiting f => if s.jobCount f = 0 then some (s.setReader r .outside) else none
    | _ => none
  | .take r =>
    match s.readers r with
    | .woken f =>
      match s.queue f with
      | uid :: rest =>
        (MessageTransport.step s.net (.takeAsync uid)).map fun net =>
          { s.setReader r (.holding f uid) with
            net := net
            queue := Function.update s.queue f rest
            jobCount := Function.update s.jobCount f (s.jobCount f - 1)
            taken := Function.update s.taken f (s.taken f ++ [(uid, r)]) }
      | [] => some (s.setReader r (.waiting f))
    | _ => none
  -- `context_free`
  | .giveBack r added =>
    match s.readers r with
    | .holding f uid =>
      (MessageTransport.step s.net (.giveBack uid added)).map fun net =>
        { s.setReader r (.freeing f uid) with net := net }
    | _ => none
  | .free r =>
    match s.readers r with
    | .freeing _ uid =>
      (MessageTransport.step s.net (.free uid)).map fun net =>
        { s.setReader r .outside with net := net, freed := uid :: s.freed }
    | _ => none

def step (s : State) (a : Action) : Option State :=
  match a with
  | .net a =>
    if permitted s a then (MessageTransport.step s.net a).map (observe s a) else none
  | a => readerStep s a

/-- The message is an asynchronous job of the file, at this place. -/
def Job (net : MessageTransport.State) (f : FileId) (uid : Uid) (stage : Stage)
    (completed : Bool) : Prop :=
  ∃ m, net.msgs uid = some m ∧ m.kind = .asyncInvoke ∧ m.file = f ∧ m.stage = stage ∧
    m.completed = completed

def isJob (net : MessageTransport.State) (f : FileId) (uid : Uid) : Bool :=
  match net.msgs uid with
  | some m => decide (m.kind = .asyncInvoke ∧ m.file = f)
  | none => false

/-- The job of the file that `recv_single` has accepted and not queued yet. -/
def handling (net : MessageTransport.State) (f : FileId) : List Uid :=
  (inHandler net.recv).toList.filter (isJob net f)

def Handled (net : MessageTransport.State) : Prop :=
  ∀ uid m, inHandler net.recv = some uid → net.msgs uid = some m → m.kind = .asyncInvoke →
    m.stage = .queued ∧ m.completed = false

structure Kept (s : State) : Prop where
  routed : Routed s.net
  unwaited : ∀ uid m, s.net.msgs uid = some m → Unwaited m
  handled : Handled s.net
  counted : ∀ f, s.jobCount f = (s.queue f).length
  order : ∀ f, s.accepted f = (s.taken f).map Prod.fst ++ s.queue f ++ handling s.net f
  once : ∀ f, (s.accepted f).Nodup
  queued : ∀ f, ∀ uid ∈ s.queue f, Job s.net f uid .queued true
  opened : ∀ r f, (s.readers r).file = some f → s.net.files f = .opened
  holding : ∀ r f uid, s.readers r = .holding f uid →
    (uid, r) ∈ s.taken f ∧ Job s.net f uid .releasing false
  freeing : ∀ r f uid, s.readers r = .freeing f uid →
    (uid, r) ∈ s.taken f ∧ Job s.net f uid .freeing false
  ended : ∀ f uid r, (uid, r) ∈ s.taken f → (s.readers r).job = some uid ∨ uid ∈ s.freed
  gone : s.freed.Nodup ∧ ∀ uid ∈ s.freed, uid < s.net.nextUid ∧ s.net.msgs uid = none

theorem probed_kept (numBufs : Nat) : Kept (State.probed numBufs) where
  routed := probed_routed numBufs
  unwaited := fun uid m h => by cases h
  handled := fun uid m h => by cases h
  counted := fun f => rfl
  order := fun f => rfl
  once := fun f => List.nodup_nil
  queued := fun f uid h => by cases h
  opened := fun r f h => by cases h
  holding := fun r f uid h => by cases h
  freeing := fun r f uid h => by cases h
  ended := fun f uid r h => by cases h
  gone := ⟨List.nodup_nil, fun uid h => by cases h⟩

section steps

variable {s : State} {net : MessageTransport.State} {a : MessageTransport.Action} {uid : Uid}
variable {f : FileId} {r : ReaderId}

theorem handler_known (h : Routed net) (hin : inHandler net.recv = some uid) :
    uid < net.nextUid := by
  cases hr : net.recv with
  | idle => rw [hr] at hin; cases hin
  | got q => rw [hr] at hin; cases hin
  | found q v =>
    rw [hr] at hin
    obtain rfl : v = uid := Option.some.inj hin
    obtain ⟨m, hm, -⟩ := h.awaits q.req (by simp [inFlight, recvReqs, hr])
    rw [h.found q v hr]
    exact h.known _ m hm
  | attached v =>
    rw [hr] at hin
    obtain rfl : v = uid := Option.some.inj hin
    exact (h.attached v hr).1

/-- Files stay open and no message is given up unanswered. -/
structure Plain (a : MessageTransport.Action) : Prop where
  close : ∀ f, a ≠ .closeBegin f
  drain : ∀ f, a ≠ .drainBegin f
  abandon : ∀ uid, a ≠ .closeTake uid

/-- What a step of the transport leaves as it was. -/
structure NetStep (s : State) (a : MessageTransport.Action) (net : MessageTransport.State) :
    Prop where
  routed : Routed net
  unwaited : ∀ uid m, net.msgs uid = some m → Unwaited m
  opened : ∀ f, s.net.files f = .opened → net.files f = .opened
  gone : ∀ uid ∈ s.freed, uid < net.nextUid ∧ net.msgs uid = none
  jobs : ∀ f uid stage completed, Job s.net f uid stage completed → a.owned ≠ some uid →
    inHandler s.net.recv ≠ some uid → Job net f uid stage completed

theorem netStep (h : Kept s) (plain : Plain a) (hstep : MessageTransport.step s.net a = some net) :
    NetStep s a net where
  routed := by
    refine step_routed h.routed ?_ hstep
    cases a with
    | closeTake v => exact False.elim (plain.abandon v rfl)
    | _ => trivial
  unwaited := fun v n hn => by
    cases hv : s.net.msgs v with
    | none =>
      intro _
      rw [step_new hstep hv hn]
      decide
    | some m =>
      exact (step_alike hstep (h.routed.known v m hv) hv hn).unwaited (h.unwaited v m hv)
  opened := fun f hf => step_opened hstep plain.close plain.drain hf
  gone := fun v hv => by
    obtain ⟨known, gone⟩ := h.gone.2 v hv
    exact ⟨Nat.lt_of_lt_of_le known (step_next hstep), step_gone hstep known gone⟩
  jobs := fun f v st c ⟨m, hm, hrest⟩ other hin =>
    ⟨m, (step_msgs hstep (h.routed.known v m hm) other hin).trans hm, hrest⟩

/-- The job in the handler is not taken before it is completed. -/
theorem handled_unowned {m : Msg} (h : Kept s) (plain : Plain a)
    (hstep : MessageTransport.step s.net a = some net) (hin : inHandler s.net.recv = some uid)
    (hm : s.net.msgs uid = some m) (hkind : m.kind = .asyncInvoke) : a.owned ≠ some uid := by
  obtain ⟨stage, hcompleted⟩ := h.handled uid m hin hm hkind
  refine queued_unowned hstep hm stage ?_ (plain.abandon uid)
  rintro rfl
  obtain ⟨k, hk, hown⟩ := step_owner hstep rfl
  obtain rfl := Option.some.inj (hm.symm.trans hk)
  obtain ⟨⟨-, hc, -⟩, -⟩ := Option.ite_none_right_eq_some.mp hown
  rw [hcompleted] at hc
  cases hc

/-- Between the lookup and the completion the job in the handler stays where it is. -/
theorem handling_same (h : Kept s) (plain : Plain a)
    (hstep : MessageTransport.step s.net a = some net) (hlookup : a ≠ .recvLookup)
    (hcomplete : a ≠ .recvComplete) :
    (∀ f, handling net f = handling s.net f) ∧ Handled net := by
  have same := step_handler hstep hlookup hcomplete
  cases hin : inHandler s.net.recv with
  | none =>
    rw [hin] at same
    refine ⟨fun f => by rw [handling, handling, same, hin]; rfl, fun v m hv => ?_⟩
    rw [same] at hv
    cases hv
  | some v =>
    rw [hin] at same
    have known := handler_known h.routed hin
    suffices alike : (∀ f, isJob net f v = isJob s.net f v) ∧
        ∀ n, net.msgs v = some n → n.kind = .asyncInvoke →
          n.stage = .queued ∧ n.completed = false by
      refine ⟨fun f => ?_, fun w n hw hn hkind => ?_⟩
      · simp only [handling, same, hin, Option.toList_some, List.filter_cons, List.filter_nil,
          alike.1 f]
      · obtain rfl := Option.some.inj (same.symm.trans hw)
        exact alike.2 n hn hkind
    cases hm : s.net.msgs v with
    | none =>
      have gone := step_gone hstep known hm
      exact ⟨fun f => by rw [isJob, isJob, hm, gone], fun n hn => by rw [gone] at hn; cases hn⟩
    | some m =>
      by_cases hkind : m.kind = .asyncInvoke
      · have other := handled_unowned h plain hstep hin hm hkind
        obtain ⟨rx, hn⟩ := step_handled hstep hin known hm other hcomplete
        refine ⟨fun f => by rw [isJob, isJob, hm, hn], fun n hn' _ => ?_⟩
        obtain rfl := Option.some.inj (hn.symm.trans hn')
        exact h.handled v m hin hm hkind
      · have plainKind : ∀ n, net.msgs v = some n → n.kind ≠ .asyncInvoke := fun n hn he =>
          hkind ((step_alike hstep known hm hn).kind.symm.trans he)
        refine ⟨fun f => ?_, fun n hn he => False.elim (plainKind n hn he)⟩
        cases hn : net.msgs v with
        | none => simp [isJob, hm, hn, hkind]
        | some n => simp [isJob, hm, hn, hkind, plainKind n hn]

/-- A job that is queued or taken is not in the handler. -/
theorem job_still {stage : Stage} {completed : Bool} (h : Kept s) (moved : NetStep s a net)
    (job : Job s.net f uid stage completed) (away : stage ≠ .queued ∨ completed = true)
    (other : a.owned ≠ some uid) : Job net f uid stage completed := by
  refine moved.jobs f uid stage completed job other fun hin => ?_
  obtain ⟨m, hm, hkind, -, hstage, hc⟩ := job
  obtain ⟨hq, hn⟩ := h.handled uid m hin hm hkind
  rcases away with hne | rfl
  · exact hne (hstage.symm.trans hq)
  · cases hc.symm.trans hn

/-- What a reader at place `p` relies on. -/
structure Placed (net : MessageTransport.State) (taken : FileId → List (Uid × ReaderId))
    (r : ReaderId) (p : Reader) : Prop where
  opened : ∀ f, p.file = some f → net.files f = .opened
  holding : ∀ f uid, p = .holding f uid → (uid, r) ∈ taken f ∧ Job net f uid .releasing false
  freeing : ∀ f uid, p = .freeing f uid → (uid, r) ∈ taken f ∧ Job net f uid .freeing false

theorem placed_idle {p : Reader} {taken : FileId → List (Uid × ReaderId)} (none : p.job = none)
    (opened : ∀ f, p.file = some f → net.files f = .opened) : Placed net taken r p where
  opened := opened
  holding := fun f uid hp => by rw [hp] at none; cases none
  freeing := fun f uid hp => by rw [hp] at none; cases none

theorem placed_still {taken : FileId → List (Uid × ReaderId)} (h : Kept s)
    (moved : NetStep s a net) (grown : ∀ f p, p ∈ s.taken f → p ∈ taken f)
    (unowned : ∀ uid, (s.readers r).job = some uid → a.owned ≠ some uid) :
    Placed net taken r (s.readers r) where
  opened := fun f hf => moved.opened f (h.opened r f hf)
  holding := fun f uid hr => (h.holding r f uid hr).imp (grown f _) fun job =>
    job_still h moved job (Or.inl (by decide)) (unowned uid (by rw [hr]; rfl))
  freeing := fun f uid hr => (h.freeing r f uid hr).imp (grown f _) fun job =>
    job_still h moved job (Or.inl (by decide)) (unowned uid (by rw [hr]; rfl))

theorem placed_setReader {p : Reader} {taken : FileId → List (Uid × ReaderId)}
    (own : Placed net taken r p) (others : ∀ v, v ≠ r → Placed net taken v (s.readers v))
    (v : ReaderId) : Placed net taken v ((s.setReader r p).readers v) := by
  change Placed net taken v (Function.update s.readers r p v)
  rw [Function.update_apply]
  split_ifs with hv
  · exact hv ▸ own
  · exact others v hv

/-- A reader keeps its job until the context is freed. -/
theorem ended_setReader {p : Reader} {freed : List Uid} (h : Kept s)
    (grown : ∀ v ∈ s.freed, v ∈ freed)
    (own : ∀ u, (s.readers r).job = some u → p.job = some u ∨ u ∈ freed) (v : ReaderId)
    (hv : (uid, v) ∈ s.taken f) :
    ((s.setReader r p).readers v).job = some uid ∨ uid ∈ freed := by
  change (Function.update s.readers r p v).job = some uid ∨ uid ∈ freed
  rw [Function.update_apply]
  rcases h.ended f uid v hv with hjob | hfreed
  · split_ifs with hvr
    · exact own uid (hvr ▸ hjob)
    · exact Or.inl hjob
  · exact Or.inr (grown uid hfreed)

/-- Only the transport moves, and it leaves the queued and the taken jobs alone. -/
theorem kept_net (h : Kept s) (moved : NetStep s a net)
    (handling_eq : ∀ f, handling net f = handling s.net f) (handled : Handled net)
    (unowned : ∀ uid, ((∃ f, uid ∈ s.queue f) ∨ ∃ r, (s.readers r).job = some uid) →
      a.owned ≠ some uid) : Kept { s with net := net } := by
  have placed : ∀ r, Placed net s.taken r (s.readers r) := fun r =>
    placed_still h moved (fun _ _ => id) fun uid hr => unowned uid (Or.inr ⟨r, hr⟩)
  refine ⟨moved.routed, moved.unwaited, handled, h.counted, fun f => ?_, h.once,
    fun f uid hq => ?_, fun r => (placed r).opened, fun r => (placed r).holding,
    fun r => (placed r).freeing, h.ended, h.gone.1, moved.gone⟩
  · rw [handling_eq f]
    exact h.order f
  · exact job_still h moved (h.queued f uid hq) (Or.inr rfl) (unowned uid (Or.inl ⟨f, hq⟩))

/-- A context is freed that is not on any list. -/
theorem kept_freed (h : Kept s) (known : uid < s.net.nextUid) (gone : s.net.msgs uid = none)
    (live : uid ∉ s.freed) : Kept { s with freed := uid :: s.freed } where
  routed := h.routed
  unwaited := h.unwaited
  handled := h.handled
  counted := h.counted
  order := h.order
  once := h.once
  queued := h.queued
  opened := h.opened
  holding := h.holding
  freeing := h.freeing
  ended := fun f v r hv => (h.ended f v r hv).imp_right (List.mem_cons_of_mem uid)
  gone := by
    refine ⟨List.nodup_cons.mpr ⟨live, h.gone.1⟩, fun v hv => ?_⟩
    rcases List.mem_cons.mp hv with rfl | hold
    · exact ⟨known, gone⟩
    · exact h.gone.2 v hold

/-- A reader comes, wakes, leaves or waits again. -/
theorem kept_reader {p : Reader} (h : Kept s) (free : (s.readers r).job = none)
    (none : p.job = none) (opened : ∀ f, p.file = some f → s.net.files f = .opened) :
    Kept (s.setReader r p) := by
  have placed := placed_setReader (s := s) (r := r) (placed_idle none opened) fun v _ =>
    ⟨h.opened v, h.holding v, h.freeing v⟩
  refine { h with
    opened := fun v => (placed v).opened
    holding := fun v => (placed v).holding
    freeing := fun v => (placed v).freeing
    ended := fun f u v => ended_setReader h (fun _ => id) (fun u hjob => ?_) v }
  rw [free] at hjob
  cases hjob

/-- The response is accepted for a job that is waiting for it. -/
theorem awaited_job {m : Msg} (h : Kept s) (hm : s.net.msgs uid = some m) (hsent : m.sent = true)
    (hrx : m.rxbuf = none) (hkind : m.kind = .asyncInvoke) :
    m.stage = .queued ∧ m.completed = false := by
  have settled := h.routed.settled uid m hm
  obtain ⟨hwaiting, hsaved, hlost⟩ := h.unwaited uid m hm hkind
  have early : ¬ (m.stage = .claimed ∨ m.stage = .built) := fun he => by
    rw [(settled.early he).1] at hsent
    cases hsent
  have ending : m.stage.ending ≠ true := fun he => settled.answered (Or.inr ⟨he, hsent⟩) hrx
  refine ⟨?_, ?_⟩
  · cases hst : m.stage <;> simp_all [Stage.ending]
  · cases hc : m.completed with
    | false => rfl
    | true => exact False.elim (settled.answered (Or.inl hc) hrx)

/-- No response was accepted for it before. -/
theorem awaited_fresh {m : Msg} (h : Kept s) (hm : s.net.msgs uid = some m) (hsent : m.sent = true)
    (hrx : m.rxbuf = none) (hidle : ∀ f, handling s.net f = []) : uid ∉ s.accepted f := by
  have settled := h.routed.settled uid m hm
  intro hacc
  rw [h.order f, hidle f, List.append_nil] at hacc
  rcases List.mem_append.mp hacc with htaken | hqueue
  · obtain ⟨⟨v, r⟩, hp, rfl⟩ := List.mem_map.mp htaken
    have ended : ∀ st, m.stage = st → st.ending = true → False := fun st hst he =>
      settled.answered (Or.inr ⟨hst ▸ he, hsent⟩) hrx
    have live : v ∉ s.freed := fun hv => by
      rw [(h.gone.2 v hv).2] at hm
      cases hm
    have hjob := (h.ended f v r hp).resolve_right live
    cases hr : s.readers r with
    | holding g u =>
      rw [hr] at hjob
      obtain rfl := Option.some.inj hjob
      obtain ⟨k, hk, -, -, hst, -⟩ := (h.holding r g u hr).2
      obtain rfl := Option.some.inj (hm.symm.trans hk)
      exact ended _ hst rfl
    | freeing g u =>
      rw [hr] at hjob
      obtain rfl := Option.some.inj hjob
      obtain ⟨k, hk, -, -, hst, -⟩ := (h.freeing r g u hr).2
      obtain rfl := Option.some.inj (hm.symm.trans hk)
      exact ended _ hst rfl
    | _ =>
      rw [hr] at hjob
      cases hjob
  · obtain ⟨k, hk, -, -, -, hc⟩ := h.queued f uid hqueue
    obtain rfl := Option.some.inj (hm.symm.trans hk)
    exact settled.answered (Or.inl hc) hrx

theorem kept_lookup (h : Kept s) (hstep : MessageTransport.step s.net .recvLookup = some net) :
    Kept (observe s .recvLookup net) := by
  have plain : Plain .recvLookup := ⟨by simp, by simp, by simp⟩
  have moved := netStep h plain hstep
  simp only [MessageTransport.step, MessageTransport.Action.owned, recvStep] at hstep
  split at hstep
  · rename_i q hgot
    rw [recvSingle_found h.routed hgot] at hstep
    obtain rfl := Option.some.inj hstep
    obtain ⟨m, hm, -, hsent, hrx⟩ :=
      h.routed.awaits q.req (by simp [inFlight, recvReqs, hgot])
    have idle : ∀ g, handling s.net g = [] := fun g => by simp [handling, inHandler, hgot]
    have handled : Handled { s.net with recv := .found q q.req.origin } :=
      fun v n hv hn hkind => by
        obtain rfl := Option.some.inj hv
        obtain rfl := Option.some.inj (hm.symm.trans hn)
        exact awaited_job h hm hsent hrx hkind
    have now : ∀ g, handling { s.net with recv := .found q q.req.origin } g =
        if m.kind = .asyncInvoke ∧ m.file = g then [q.req.origin] else [] := fun g => by
      by_cases hg : m.kind = .asyncInvoke ∧ m.file = g <;>
        simp [handling, inHandler, isJob, hm, hg]
    have kept : ∀ accepted : FileId → List Uid,
        (∀ g, accepted g = s.accepted g ++
          if m.kind = .asyncInvoke ∧ m.file = g then [q.req.origin] else []) →
        Kept { s with
          net := { s.net with recv := .found q q.req.origin }
          accepted := accepted } := by
      intro accepted hacc
      refine { h with routed := moved.routed, handled := handled, order := fun g => ?_,
                      once := fun g => ?_ }
      · change accepted g = (s.taken g).map Prod.fst ++ s.queue g ++ handling _ g
        rw [hacc g, now g, h.order g, idle g, List.append_nil]
      · change (accepted g).Nodup
        rw [hacc g]
        split_ifs
        · exact List.nodup_append.mpr ⟨h.once g, List.nodup_singleton _, fun v hv w hw he =>
            awaited_fresh h hm hsent hrx idle (List.mem_singleton.mp hw ▸ he ▸ hv)⟩
        · rw [List.append_nil]
          exact h.once g
    simp only [observe, hm, accept]
    split_ifs with hkind
    · refine kept _ fun g => ?_
      by_cases hg : g = m.file
      · subst hg
        simp [hkind]
      · simp [hg, Ne.symm hg]
    · exact kept s.accepted fun g => by simp [hkind]
  · cases hstep

/-- The completed job goes to the end of its queue. -/
theorem kept_enqueue {m : Msg} (h : Kept s) (moved : NetStep s .recvComplete net)
    (idle : inHandler net.recv = none) (hin : inHandler s.net.recv = some uid)
    (hm : s.net.msgs uid = some m) (hkind : m.kind = .asyncInvoke)
    (hn : net.msgs uid = some { m with completed := true }) :
    Kept { s with
      net := net
      queue := Function.update s.queue m.file (s.queue m.file ++ [uid])
      jobCount := Function.update s.jobCount m.file (s.jobCount m.file + 1) } := by
  have other : ∀ v, MessageTransport.Action.recvComplete.owned ≠ some v := fun v he => by cases he
  have before : ∀ g, handling s.net g = if m.file = g then [uid] else [] := fun g => by
    by_cases hg : m.file = g <;> simp [handling, hin, isJob, hm, hkind, hg]
  have after : ∀ g, handling net g = [] := fun g => by simp [handling, idle]
  have queue : ∀ g, Function.update s.queue m.file (s.queue m.file ++ [uid]) g =
      s.queue g ++ if m.file = g then [uid] else [] := fun g => by
    by_cases hg : g = m.file
    · subst hg
      simp
    · simp [hg, Ne.symm hg]
  refine ⟨moved.routed, moved.unwaited, fun v n hv => ?_, fun g => ?_, fun g => ?_, h.once,
    fun g v hv => ?_, fun r g hf => moved.opened g (h.opened r g hf), fun r g v hr => ?_,
    fun r g v hr => ?_, h.ended, ⟨h.gone.1, moved.gone⟩⟩
  · rw [idle] at hv
    cases hv
  · change Function.update s.jobCount m.file (s.jobCount m.file + 1) g =
      ((Function.update s.queue m.file (s.queue m.file ++ [uid]) g).length : Int)
    rw [queue g, List.length_append, Function.update_apply]
    by_cases hg : g = m.file
    · subst hg
      simp [h.counted]
    · simp [hg, Ne.symm hg, h.counted]
  · change s.accepted g = (s.taken g).map Prod.fst ++
      Function.update s.queue m.file (s.queue m.file ++ [uid]) g ++ handling net g
    rw [queue g, after g, h.order g, before g, List.append_nil, List.append_assoc]
  · change v ∈ Function.update s.queue m.file (s.queue m.file ++ [uid]) g at hv
    rw [queue g] at hv
    rcases List.mem_append.mp hv with hold | hnew
    · exact job_still h moved (h.queued g v hold) (Or.inr rfl) (other v)
    · split_ifs at hnew with hg
      · obtain rfl := List.mem_singleton.mp hnew
        exact ⟨_, hn, hkind, hg, (h.handled v m hin hm hkind).1, rfl⟩
      · cases hnew
  · exact (h.holding r g v hr).imp_right fun job =>
      job_still h moved job (Or.inl (by decide)) (other v)
  · exact (h.freeing r g v hr).imp_right fun job =>
      job_still h moved job (Or.inl (by decide)) (other v)

theorem kept_complete (h : Kept s) (hstep : MessageTransport.step s.net .recvComplete = some net) :
    Kept (observe s .recvComplete net) := by
  have plain : Plain .recvComplete := ⟨by simp, by simp, by simp⟩
  have moved := netStep h plain hstep
  have other : ∀ v, MessageTransport.Action.recvComplete.owned ≠ some v := fun v he => by cases he
  simp only [MessageTransport.step, MessageTransport.Action.owned, recvStep] at hstep
  split at hstep
  · rename_i v hattached
    obtain rfl := Option.some.inj hstep
    have hin : inHandler s.net.recv = some v := by rw [hattached]; rfl
    -- A message that is not an asynchronous job is no concern of the queues.
    have aside : (∀ g, isJob s.net g v = false) → Kept { s with net := _ } := fun no =>
      kept_net h moved (fun g => by simp [handling, inHandler, hattached, no g])
        (fun w n hw => by cases hw) fun w _ => other w
    simp only [observe, hattached]
    cases hm : s.net.msgs v with
    | none =>
      simp only [hm] at aside ⊢
      exact aside fun g => by simp [isJob, hm]
    | some m =>
      simp only [hm, vfastrpcQueueCompletedAsyncJob] at aside moved ⊢
      split_ifs with hkind
      · exact kept_enqueue h moved rfl hin hm hkind (Function.update_self _ _ _)
      · exact aside fun g => by simp [isJob, hm, hkind]
  · cases hstep

theorem job_file {g : FileId} {st st' : Stage} {c c' : Bool} (h : Job net f uid st c)
    (h' : Job net g uid st' c') : f = g ∧ st = st' := by
  obtain ⟨m, hm, -, hf, hst, -⟩ := h
  obtain ⟨n, hn, -, hg, hst', -⟩ := h'
  obtain rfl := Option.some.inj (hm.symm.trans hn)
  exact ⟨hf.symm.trans hg, hst.symm.trans hst'⟩

/-- The reader that works on a job took it from the queue of the job's file. -/
theorem held_job (h : Kept s) (hr : (s.readers r).job = some uid) :
    ∃ f st, (s.readers r).file = some f ∧ (uid, r) ∈ s.taken f ∧ Job s.net f uid st false ∧
      st ≠ .queued := by
  cases hp : s.readers r with
  | holding g v =>
    rw [hp] at hr
    obtain rfl := Option.some.inj hr
    obtain ⟨taken, job⟩ := h.holding r g v hp
    exact ⟨g, .releasing, rfl, taken, job, by decide⟩
  | freeing g v =>
    rw [hp] at hr
    obtain rfl := Option.some.inj hr
    obtain ⟨taken, job⟩ := h.freeing r g v hp
    exact ⟨g, .freeing, rfl, taken, job, by decide⟩
  | _ =>
    rw [hp] at hr
    cases hr

theorem taken_once (h : Kept s) : ((s.taken f).map Prod.fst).Nodup := by
  have once := h.once f
  rw [h.order f, List.append_assoc] at once
  exact (List.nodup_append.mp once).1

theorem taken_by {r' : ReaderId} (h : Kept s) (hr : (uid, r) ∈ s.taken f)
    (hr' : (uid, r') ∈ s.taken f) : r = r' :=
  (Prod.mk.inj (List.inj_on_of_nodup_map (taken_once h) hr hr' rfl)).2

/-- No two readers work on one job. -/
theorem holder_unique {r' : ReaderId} (h : Kept s) (hr : (s.readers r).job = some uid)
    (hr' : (s.readers r').job = some uid) : r = r' := by
  obtain ⟨f, st, -, taken, job, -⟩ := held_job h hr
  obtain ⟨g, st', -, taken', job', -⟩ := held_job h hr'
  obtain rfl := (job_file job job').1
  exact taken_by h taken taken'

/-- A job on the queue is with no reader. -/
theorem queued_unheld (h : Kept s) (hq : uid ∈ s.queue f) : (s.readers r).job ≠ some uid := by
  intro hr
  obtain ⟨g, st, -, -, job, hne⟩ := held_job h hr
  exact hne (job_file job (h.queued f uid hq)).2

/-- The first job is on no queue once it is taken. -/
theorem mem_dequeued {v : Uid} {g : FileId} {rest : List Uid} (h : Kept s)
    (hq : s.queue f = uid :: rest) (hv : v ∈ Function.update s.queue f rest g) :
    v ≠ uid ∧ v ∈ s.queue g := by
  rw [Function.update_apply] at hv
  split_ifs at hv with hg
  · subst hg
    have once := h.once g
    rw [h.order g, hq] at once
    have queue := (List.nodup_append.mp (List.nodup_append.mp once).1).2.1
    refine ⟨?_, by rw [hq]; exact List.mem_cons_of_mem _ hv⟩
    rintro rfl
    exact (List.nodup_cons.mp queue).1 hv
  · refine ⟨?_, hv⟩
    rintro rfl
    have first : v ∈ s.queue f := by rw [hq]; exact List.mem_cons_self
    exact hg (job_file (h.queued g v hv) (h.queued f v first)).1

theorem dequeued_counted {rest : List Uid} (h : Kept s) (hq : s.queue f = uid :: rest)
    (g : FileId) : Function.update s.jobCount f (s.jobCount f - 1) g =
      ((Function.update s.queue f rest g).length : Int) := by
  by_cases hg : g = f
  · subst hg
    rw [Function.update_self, Function.update_self, h.counted, hq]
    simp
  · rw [Function.update_of_ne hg, Function.update_of_ne hg]
    exact h.counted g

theorem dequeued_order {rest : List Uid} (h : Kept s) (hq : s.queue f = uid :: rest)
    (g : FileId) : s.accepted g =
      (Function.update s.taken f (s.taken f ++ [(uid, r)]) g).map Prod.fst ++
        Function.update s.queue f rest g ++ handling s.net g := by
  rw [h.order g]
  by_cases hg : g = f
  · subst hg
    rw [Function.update_self, Function.update_self, hq]
    simp
  · rw [Function.update_of_ne hg, Function.update_of_ne hg]

theorem mem_taken_iff {v : Uid} {r' : ReaderId} {g : FileId} :
    (v, r') ∈ Function.update s.taken f (s.taken f ++ [(uid, r)]) g ↔
      (v, r') ∈ s.taken g ∨ g = f ∧ v = uid ∧ r' = r := by
  by_cases hg : g = f
  · subst hg
    simp
  · simp [hg]

theorem takeAsync_job (job : Job s.net f uid .queued true)
    (hstep : MessageTransport.step s.net (.takeAsync uid) = some net) :
    Job net f uid .releasing false := by
  obtain ⟨m, hm, hkind, hfile, -, -⟩ := job
  obtain ⟨k, hk, hown⟩ := step_owner hstep rfl
  obtain rfl := Option.some.inj (hm.symm.trans hk)
  obtain ⟨-, hset⟩ := Option.ite_none_right_eq_some.mp hown
  obtain rfl := Option.some.inj hset
  exact ⟨_, Function.update_self _ _ _, hkind, hfile, rfl, rfl⟩

theorem kept_take {rest : List Uid} (h : Kept s) (hr : s.readers r = .woken f)
    (hq : s.queue f = uid :: rest)
    (hstep : MessageTransport.step s.net (.takeAsync uid) = some net) :
    Kept { s.setReader r (.holding f uid) with
      net := net
      queue := Function.update s.queue f rest
      jobCount := Function.update s.jobCount f (s.jobCount f - 1)
      taken := Function.update s.taken f (s.taken f ++ [(uid, r)]) } := by
  have plain : Plain (.takeAsync uid) := ⟨by simp, by simp, by simp⟩
  have moved := netStep h plain hstep
  obtain ⟨same, handled⟩ := handling_same h plain hstep (by simp) (by simp)
  have first : uid ∈ s.queue f := by rw [hq]; exact List.mem_cons_self
  have other : ∀ v, v ≠ uid → (MessageTransport.Action.takeAsync uid).owned ≠ some v :=
    fun v hv he => hv (Option.some.inj he).symm
  have grown : ∀ g p, p ∈ s.taken g → p ∈ Function.update s.taken f (s.taken f ++ [(uid, r)]) g :=
    fun g p hp => mem_taken_iff.mpr (Or.inl hp)
  have own : Placed net (Function.update s.taken f (s.taken f ++ [(uid, r)])) r
      (.holding f uid) := by
    refine ⟨fun g hg => ?_, fun g u hp => ?_, fun g u hp => by cases hp⟩
    · obtain rfl := Option.some.inj hg
      exact moved.opened f (h.opened r f (by rw [hr]; rfl))
    · obtain ⟨rfl, rfl⟩ := Reader.holding.inj hp
      exact ⟨mem_taken_iff.mpr (Or.inr ⟨rfl, rfl, rfl⟩), takeAsync_job (h.queued f uid first) hstep⟩
  have placed := placed_setReader own fun v _ => placed_still h moved grown fun u hu => other u
    fun he => queued_unheld h first (he ▸ hu)
  refine ⟨moved.routed, moved.unwaited, handled, dequeued_counted h hq, fun g => ?_, h.once,
    fun g v hv => ?_, fun v => (placed v).opened, fun v => (placed v).holding,
    fun v => (placed v).freeing, fun g u v hv => ?_, h.gone.1, moved.gone⟩
  · rw [same g]
    exact dequeued_order h hq g
  · obtain ⟨hne, hold⟩ := mem_dequeued h hq hv
    exact job_still h moved (h.queued g v hold) (Or.inr rfl) (other v hne)
  · rcases mem_taken_iff.mp hv with hold | ⟨rfl, rfl, rfl⟩
    · refine ended_setReader h (fun _ => id) (fun w hw => ?_) v hold
      rw [hr] at hw
      cases hw
    · refine Or.inl ?_
      change (Function.update s.readers v (Reader.holding g u) v).job = some u
      rw [Function.update_self]
      rfl

/-- A reader goes on with `context_free`: to the release of the message, or out. -/
theorem kept_contextFree {p : Reader} {freed : List Uid} (h : Kept s) (plain : Plain a)
    (hstep : MessageTransport.step s.net a = some net) (owned : a.owned = some uid)
    (hr : (s.readers r).job = some uid) (own : Placed net s.taken r p)
    (grown : ∀ v ∈ s.freed, v ∈ freed) (ended : p.job = some uid ∨ uid ∈ freed)
    (gone : freed.Nodup ∧ ∀ v ∈ freed, v < net.nextUid ∧ net.msgs v = none) :
    Kept { s.setReader r p with net := net, freed := freed } := by
  have moved := netStep h plain hstep
  obtain ⟨same, handled⟩ := handling_same h plain hstep (fun he => by rw [he] at owned; cases owned)
    fun he => by rw [he] at owned; cases owned
  have other : ∀ v, v ≠ uid → a.owned ≠ some v := fun v hv he =>
    hv (Option.some.inj (owned.symm.trans he)).symm
  have placed := placed_setReader own fun v hv => placed_still h moved (fun _ _ => id)
    fun u hu => other u fun he => hv (holder_unique h (he ▸ hu) hr)
  refine ⟨moved.routed, moved.unwaited, handled, h.counted, fun g => ?_, h.once, fun g v hv => ?_,
    fun v => (placed v).opened, fun v => (placed v).holding, fun v => (placed v).freeing,
    fun g u v => ended_setReader h grown (fun w hw => ?_) v, gone⟩
  · rw [same g]
    exact h.order g
  · refine job_still h moved (h.queued g v hv) (Or.inr rfl) (other v fun he => ?_)
    exact queued_unheld h (he ▸ hv) hr
  · obtain rfl := Option.some.inj (hr.symm.trans hw)
    exact ended

theorem kept_giveBack {added : Bool} (h : Kept s) (hr : s.readers r = .holding f uid)
    (hstep : MessageTransport.step s.net (.giveBack uid added) = some net) :
    Kept { s.setReader r (.freeing f uid) with net := net } := by
  have plain : Plain (.giveBack uid added) := ⟨by simp, by simp, by simp⟩
  have moved := netStep h plain hstep
  obtain ⟨taken, m, hm, hkind, hfile, -, hc⟩ := h.holding r f uid hr
  have job : Job net f uid .freeing false := by
    obtain ⟨k, hk, hown⟩ := step_owner hstep rfl
    obtain rfl := Option.some.inj (hm.symm.trans hk)
    obtain ⟨-, hset⟩ := Option.ite_none_right_eq_some.mp hown
    split at hset <;> obtain rfl := Option.some.inj hset
    · exact ⟨_, Function.update_self _ _ _, hkind, hfile, rfl, hc⟩
    · exact ⟨_, Function.update_self _ _ _, hkind, hfile, rfl, hc⟩
  refine kept_contextFree h plain hstep rfl (by rw [hr]; rfl)
    ⟨fun g hg => ?_, (fun g u hp => by cases hp), fun g u hp => ?_⟩ (fun _ => id) (Or.inl rfl)
    ⟨h.gone.1, moved.gone⟩
  · obtain rfl := Option.some.inj hg
    exact moved.opened f (h.opened r f (by rw [hr]; rfl))
  · obtain ⟨rfl, rfl⟩ := Reader.freeing.inj hp
    exact ⟨taken, job⟩

theorem kept_free (h : Kept s) (hr : s.readers r = .freeing f uid)
    (hstep : MessageTransport.step s.net (.free uid) = some net) :
    Kept { s.setReader r .outside with net := net, freed := uid :: s.freed } := by
  have plain : Plain (.free uid) := ⟨by simp, by simp, by simp⟩
  obtain ⟨-, m, hm, -⟩ := h.freeing r f uid hr
  have known := Nat.lt_of_lt_of_le (h.routed.known uid m hm) (step_next hstep)
  have live : uid ∉ s.freed := fun hv => by
    rw [(h.gone.2 uid hv).2] at hm
    cases hm
  refine kept_contextFree h plain hstep rfl (by rw [hr]; rfl)
    (placed_idle rfl fun g hg => by cases hg) (fun v => List.mem_cons_of_mem uid)
    (Or.inr List.mem_cons_self) ⟨List.nodup_cons.mpr ⟨live, h.gone.1⟩, fun v hv => ?_⟩
  rcases List.mem_cons.mp hv with rfl | hold
  · exact ⟨known, free_gone hstep⟩
  · exact (netStep h plain hstep).gone v hold

/-- A job that was taken is left to its reader. -/
theorem permitted_untaken {m : Msg} (ok : permitted s a = true) (owned : a.owned = some uid)
    (hm : s.net.msgs uid = some m) : ∀ p ∈ s.taken m.file, p.1 ≠ uid := by
  have untaken : (s.taken m.file).all (fun p => some p.1 != some uid) = true := by
    cases a <;> cases owned <;> simp only [permitted, MessageTransport.Action.owned,
      Option.bind_some, hm, reduceCtorEq] at ok <;> exact ok
  intro p hp he
  have hne := List.all_eq_true.mp untaken p hp
  rw [he] at hne
  simp at hne

theorem permitted_plain (ok : permitted s a = true) : Plain a ∧ ∀ v, a ≠ .takeAsync v := by
  refine ⟨⟨?_, ?_, ?_⟩, ?_⟩ <;> rintro v rfl <;> cases ok

theorem tracked_unowned (h : Kept s) (ok : permitted s a = true)
    (hstep : MessageTransport.step s.net a = some net)
    (tracked : (∃ f, uid ∈ s.queue f) ∨ ∃ r, (s.readers r).job = some uid) :
    a.owned ≠ some uid := by
  obtain ⟨plain, untaken⟩ := permitted_plain ok
  rcases tracked with ⟨f, hq⟩ | ⟨r, hr⟩
  · obtain ⟨m, hm, -, -, stage, -⟩ := h.queued f uid hq
    exact queued_unowned hstep hm stage (untaken uid) (plain.abandon uid)
  · obtain ⟨f, st, -, taken, ⟨m, hm, -, hfile, -⟩, -⟩ := held_job h hr
    intro owned
    exact permitted_untaken ok owned hm (uid, r) (hfile ▸ taken) rfl

theorem kept_permitted (h : Kept s) (ok : permitted s a = true)
    (hstep : MessageTransport.step s.net a = some net) : Kept (observe s a net) := by
  obtain ⟨plain, -⟩ := permitted_plain ok
  have aside : a ≠ .recvLookup → a ≠ .recvComplete → Kept { s with net := net } := by
    intro hlookup hcomplete
    obtain ⟨same, handled⟩ := handling_same h plain hstep hlookup hcomplete
    exact kept_net h (netStep h plain hstep) same handled fun v tracked =>
      tracked_unowned h ok hstep tracked
  cases a with
  | recvLookup => exact kept_lookup h hstep
  | recvComplete => exact kept_complete h hstep
  | free v =>
    obtain ⟨m, hm, -⟩ := step_owner hstep rfl
    have known := Nat.lt_of_lt_of_le (h.routed.known v m hm) (step_next hstep)
    refine kept_freed (aside (by simp) (by simp)) known (free_gone hstep) fun hv => ?_
    rw [(h.gone.2 v hv).2] at hm
    cases hm
  | _ => exact aside (by simp) (by simp)

theorem readerStep_kept {b : Action} {t : State} (h : Kept s) (hstep : readerStep s b = some t) :
    Kept t := by
  cases b with
  | net a => cases hstep
  | enter r f =>
    obtain ⟨⟨hr, hf⟩, hset⟩ := Option.ite_none_right_eq_some.mp hstep
    obtain rfl := Option.some.inj hset
    exact kept_reader h (by rw [hr]; rfl) rfl fun g hg => Option.some.inj hg ▸ hf
  | wake r =>
    simp only [readerStep] at hstep
    split at hstep
    · rename_i f hr
      obtain ⟨-, hset⟩ := Option.ite_none_right_eq_some.mp hstep
      obtain rfl := Option.some.inj hset
      exact kept_reader h (by rw [hr]; rfl) rfl fun g hg => h.opened r g (by rw [hr]; exact hg)
    · cases hstep
  | interrupt r =>
    simp only [readerStep] at hstep
    split at hstep
    · rename_i f hr
      obtain ⟨-, hset⟩ := Option.ite_none_right_eq_some.mp hstep
      obtain rfl := Option.some.inj hset
      exact kept_reader h (by rw [hr]; rfl) rfl fun g hg => by cases hg
    · cases hstep
  | take r =>
    simp only [readerStep] at hstep
    split at hstep
    · rename_i f hr
      split at hstep
      · rename_i uid rest hq
        obtain ⟨net, hnet, rfl⟩ := Option.map_eq_some_iff.mp hstep
        exact kept_take h hr hq hnet
      · obtain rfl := Option.some.inj hstep
        exact kept_reader h (by rw [hr]; rfl) rfl fun g hg => h.opened r g (by rw [hr]; exact hg)
    · cases hstep
  | giveBack r added =>
    simp only [readerStep] at hstep
    split at hstep
    · rename_i f uid hr
      obtain ⟨net, hnet, rfl⟩ := Option.map_eq_some_iff.mp hstep
      exact kept_giveBack h hr hnet
    · cases hstep
  | free r =>
    simp only [readerStep] at hstep
    split at hstep
    · rename_i f uid hr
      obtain ⟨net, hnet, rfl⟩ := Option.map_eq_some_iff.mp hstep
      exact kept_free h hr hnet
    · cases hstep

theorem step_kept {b : Action} {t : State} (h : Kept s) (hstep : step s b = some t) : Kept t := by
  cases b with
  | net a =>
    obtain ⟨ok, hmap⟩ := Option.ite_none_right_eq_some.mp hstep
    obtain ⟨net, hnet, rfl⟩ := Option.map_eq_some_iff.mp hmap
    exact kept_permitted h ok hnet
  | enter r f => exact readerStep_kept (b := .enter r f) h hstep
  | wake r => exact readerStep_kept (b := .wake r) h hstep
  | interrupt r => exact readerStep_kept (b := .interrupt r) h hstep
  | take r => exact readerStep_kept (b := .take r) h hstep
  | giveBack r added => exact readerStep_kept (b := .giveBack r added) h hstep
  | free r => exact readerStep_kept (b := .free r) h hstep

/-- A reader that was woken gets on: with the first job, or back to waiting. -/
theorem take_enabled (h : Kept s) (hr : s.readers r = .woken f) :
    ∃ t, step s (.take r) = some t := by
  cases hq : s.queue f with
  | nil => exact ⟨s.setReader r (.waiting f), by simp only [step, readerStep, hr, hq]⟩
  | cons uid rest =>
    obtain ⟨m, hm, -, hfile, hst, hc⟩ := h.queued f uid (by rw [hq]; exact List.mem_cons_self)
    have opened : s.net.files m.file = .opened := hfile ▸ h.opened r f (by rw [hr]; rfl)
    have hnet : MessageTransport.step s.net (.takeAsync uid) =
        some (s.net.setMsg uid (some { m with stage := .releasing, completed := false })) := by
      simp only [MessageTransport.step, MessageTransport.Action.owned, hm, Option.bind_some,
        ownerStep]
      exact if_pos ⟨hst, hc, opened⟩
    exact ⟨_, by simp only [step, readerStep, hr, hq, hnet, Option.map_some]; rfl⟩

end steps

/-- The asynchronous jobs of a file in one state: the count is the length of the queue; the
jobs taken are the first of those accepted, in order, and the others are queued or in
the hands of `recv_single`; a job is taken once; its context is freed once, by the
reader that took it and not before that reader is through with it. -/
structure JobsKept (s : State) (f : FileId) : Prop where
  counted : s.jobCount f = (s.queue f).length
  order : s.accepted f = (s.taken f).map Prod.fst ++ s.queue f ++ handling s.net f
  once : (s.accepted f).Nodup
  oneReader : ∀ uid r r', (uid, r) ∈ s.taken f → (uid, r') ∈ s.taken f → r = r'
  freed : ∀ uid r, (uid, r) ∈ s.taken f →
    s.freed.count uid = if (s.readers r).job = some uid then 0 else 1
  unfreed : ∀ uid ∈ s.queue f ++ handling s.net f, s.freed.count uid = 0
  progress : ∀ r, s.readers r = .woken f → ∃ t, step s (.take r) = some t

/-- In every run of submissions, replies and readers before a file is closed. -/
theorem async_jobs_kept (numBufs : Nat) (as : List Action) (s : State)
    (run : exec step (State.probed numBufs) as = some s) (f : FileId) : JobsKept s f := by
  have h : Kept s := exec_invariant (fun _ _ _ h hs => step_kept h hs) (probed_kept numBufs) run
  have live : ∀ uid m, s.net.msgs uid = some m → uid ∉ s.freed := fun uid m hm hv => by
    rw [(h.gone.2 uid hv).2] at hm
    cases hm
  refine ⟨h.counted f, h.order f, h.once f, fun uid r r' => taken_by h, fun uid r hr => ?_,
    fun uid hu => ?_, fun r => take_enabled h⟩
  · split_ifs with hjob
    · obtain ⟨g, st, -, -, ⟨m, hm, -⟩, -⟩ := held_job h hjob
      exact List.count_eq_zero.mpr (live uid m hm)
    · have freed := (h.ended f uid r hr).resolve_left hjob
      exact List.count_eq_one_of_mem h.gone.1 freed
  · refine List.count_eq_zero.mpr ?_
    rcases List.mem_append.mp hu with hq | hh
    · obtain ⟨m, hm, -⟩ := h.queued f uid hq
      exact live uid m hm
    · have hjob := (List.mem_filter.mp hh).2
      cases hm : s.net.msgs uid with
      | none => simp [isJob, hm] at hjob
      | some m => exact live uid m hm

/-- Two jobs of one file are answered in the other order; of three readers the first is
interrupted, the second takes both jobs and the third finds the queue empty. -/
def twoJobs : List Action :=
  [.net (.openFile 0), .net (.claim 0 .asyncInvoke), .net (.getTx 0), .net (.send 0), .enter 7 0,
    .net (.claim 0 .asyncInvoke), .interrupt 7, .net (.getTx 1), .net (.send 1), .enter 8 0,
    .enter 9 0, .net (.consume 0 ⟨0, 0⟩), .net (.consume 1 ⟨1, 1⟩), .net (.reply ⟨1, 1⟩ 0 96),
    .net (.reply ⟨0, 0⟩ 1 96), .net .recvGet, .net .recvLookup, .net .recvAttach,
    .net .recvComplete, .wake 8, .wake 9, .take 8, .net .recvGet, .take 9, .net .recvLookup,
    .giveBack 8 true, .net .recvAttach, .net .recvComplete, .free 8, .enter 8 0, .wake 8, .take 8,
    .giveBack 8 true]

theorem twoJobs_kept : ∃ s, exec step (State.probed 2) twoJobs = some s ∧
    (s.accepted 0 = [1, 0] ∧ s.taken 0 = [(1, 8), (0, 8)] ∧ s.freed = [1]) ∧ JobsKept s 0 :=
  ⟨_, rfl, by decide, async_jobs_kept 2 twoJobs _ rfl 0⟩

end AsyncJobs
