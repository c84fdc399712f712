import PlatformKernel.MessageDelivery
import PlatformKernel.TransportFrames

/-!
# A message that is waited for is answered

As long as files are only drained of answered messages, the request of every message that
somebody waits for is in flight, or the interrupt is about to complete it. The back end and
the interrupt can then always bring its answer home, whatever the callers do meanwhile,
provided the back end finds a receive buffer.
-/

namespace ReplyProgress

open GuardedRuns MessageTransport MessageDelivery TransportFrames

variable {s t : State} {uid : Uid} {m n : Msg} {a : Action}

/-- The request has been sent, the caller has not been told, and nobody gave it up. -/
structure Due (m : Msg) : Prop where
  outstanding : m.stage.outstanding = true
  open_ : m.completed = false

def OnItsWay (s : State) (uid : Uid) : Prop :=
  s.recv = .attached uid ∨ ∃ q ∈ inFlight s, q.origin = uid

/-- Nothing that is waited for is forgotten. -/
def Tracked (s : State) : Prop :=
  ∀ uid m, s.msgs uid = some m → Due m → OnItsWay s uid

theorem probed_tracked (numBufs : Nat) : Tracked (State.probed numBufs) := by
  intro uid m live
  cases live

theorem due_of_setMsg {k : Msg} (hn : (s.setMsg uid (some k)).msgs uid = some n)
    (h : Due k → Due m) (due : Due n) : Due m := by
  rw [msgs_setMsg, if_pos rfl] at hn
  obtain rfl := Option.some.inj hn
  exact h due

/-- A step of its owner leaves a message due only if it was, or sends it. -/
theorem ownerStep_due (hown : ownerStep s uid m a = some t) (hn : t.msgs uid = some n)
    (due : Due n) : Due m ∨ ∃ q ∈ inFlight t, q.origin = uid := by
  have ended : ∀ k : Msg, k.stage.outstanding = false → ¬ Due k := by
    intro k hk hdue
    rw [hdue.outstanding] at hk
    cases hk
  cases a <;> simp only [ownerStep, reduceCtorEq, Option.ite_none_right_eq_some] at hown
  case getTx =>
    obtain ⟨-, hown⟩ := hown
    split at hown <;> obtain rfl := Option.some.inj hown
    · exact .inl (due_of_setMsg hn (fun h => absurd h (ended _ rfl)) due)
    · exact .inl (due_of_setMsg hn (fun h => absurd h (ended _ rfl)) due)
  case send =>
    obtain ⟨-, hown⟩ := hown
    split at hown
    · obtain rfl := Option.some.inj hown
      exact .inr ⟨⟨uid, m.msgid⟩, by simp [inFlight], rfl⟩
    · cases hown
  case sendFail =>
    obtain ⟨-, hown⟩ := hown
    obtain rfl := Option.some.inj hown
    refine .inl (due_of_setMsg hn (fun h => absurd h (ended _ ?_)) due)
    cases m.kind <;> rfl
  case interrupt =>
    obtain ⟨⟨waiting, uncompleted, -⟩, hown⟩ := hown
    exact .inl ⟨by rw [waiting]; rfl, uncompleted⟩
  case resume =>
    obtain ⟨⟨saved, -⟩, hown⟩ := hown
    obtain rfl := Option.some.inj hown
    exact .inl (due_of_setMsg hn (fun h => ⟨by rw [saved]; rfl, h.open_⟩) due)
  case giveBack =>
    obtain ⟨-, hown⟩ := hown
    split at hown <;> obtain rfl := Option.some.inj hown
    · exact .inl (due_of_setMsg (s := s) hn (fun h => absurd h (ended _ rfl)) due)
    · exact .inl (due_of_setMsg hn (fun h => absurd h (ended _ rfl)) due)
  case free =>
    obtain ⟨-, hown⟩ := hown
    obtain rfl := Option.some.inj hown
    simp [virtFreeMsg] at hn
  all_goals
    obtain ⟨-, hown⟩ := hown
    obtain rfl := Option.some.inj hown
    exact .inl (due_of_setMsg hn (fun h => absurd h (ended _ rfl)) due)

/-- Its owner takes no request out of flight. -/
theorem ownerMoves_flight {v : Uid} (moves : OwnerMoves s v m a t) :
    t.recv = s.recv ∧ ∀ q ∈ inFlight s, q ∈ inFlight t := by
  cases moves with
  | takeTx stage taken =>
    obtain ⟨last, used, rfl⟩ := getATxBuf_some taken
    exact ⟨rfl, fun q hq => hq⟩
  | restage restaged => exact ⟨rfl, fun q hq => hq⟩
  | send stage txbuf =>
    refine ⟨rfl, fun q hq => ?_⟩
    simp only [inFlight, State.setMsg, List.map_append, List.mem_append] at hq ⊢
    tauto
  | giveBack stage rxbuf action => exact ⟨rfl, fun q hq => hq⟩
  | free stage => exact ⟨rfl, fun q hq => hq⟩

theorem onItsWay_of (recv : t.recv = s.recv) (flight : ∀ q ∈ inFlight s, q ∈ inFlight t)
    (h : OnItsWay s uid) : OnItsWay t uid := by
  rcases h with attached | ⟨q, hq, origin⟩
  · exact .inl (recv.trans attached)
  · exact .inr ⟨q, flight q hq, origin⟩

theorem owner_tracked {v : Uid} (h : Tracked s) (hown : ownerStep s v m a = some t)
    (live : s.msgs v = some m) : Tracked t := by
  obtain ⟨recv, flight⟩ := ownerMoves_flight (ownerStep_moves hown)
  intro uid n hn due
  by_cases same : uid = v
  · subst same
    rcases ownerStep_due hown hn due with before | sent
    · exact onItsWay_of recv flight (h uid m live before)
    · exact .inr sent
  · rw [ownerMoves_other (ownerStep_moves hown) same] at hn
    exact onItsWay_of recv flight (h uid n hn due)

theorem recvMoves_tracked (routed : Routed s) (h : Tracked s) (moves : RecvMoves s t) :
    Tracked t := by
  cases moves with
  | get idle used =>
    intro uid m hm due
    rcases h uid m hm due with attached | ⟨q, hq, origin⟩
    · rw [idle] at attached
      cases attached
    · refine .inr ⟨q, ?_, origin⟩
      simp only [inFlight, recvReqs, idle, used, List.map_cons, List.mem_append, List.mem_cons,
        List.not_mem_nil, or_false] at hq ⊢
      tauto
  | found got lookup =>
    intro uid m hm due
    rcases h uid m hm due with attached | ⟨q, hq, origin⟩
    · rw [got] at attached
      cases attached
    · exact .inr ⟨q, by simpa only [inFlight, recvReqs, got] using hq, origin⟩
  | rejected got lookup =>
    rw [recvSingle_found routed got] at lookup
    cases lookup
  | @attach r v found =>
    obtain rfl := routed.found r v found
    intro uid m hm due
    by_cases same : uid = r.req.origin
    · exact .inl (congrArg _ same.symm)
    · have old : s.msgs uid = some m := by
        rw [msgs_setMsg, if_neg same] at hm
        exact hm
      rcases h uid m old due with attached | ⟨q, hq, origin⟩
      · rw [found] at attached
        cases attached
      · refine .inr ⟨q, ?_, origin⟩
        have other : q ≠ r.req := by
          rintro rfl
          exact same origin.symm
        simpa [inFlight, recvReqs, found, other, State.setMsg] using hq
  | @complete v attached =>
    intro uid m hm due
    by_cases same : uid = v
    · subst same
      rw [msgs_setMsg, if_pos rfl] at hm
      obtain ⟨k, -, rfl⟩ := Option.map_eq_some_iff.mp hm
      cases due.open_
    · rw [msgs_setMsg, if_neg same] at hm
      rcases h uid m hm due with here | ⟨q, hq, origin⟩
      · rw [attached] at here
        exact absurd (Recv.attached.inj here).symm same
      · exact .inr ⟨q, by simpa [inFlight, recvReqs, attached, State.setMsg] using hq, origin⟩

theorem step_tracked (routed : Routed s) (h : Tracked s) (hstep : step s a = some t) :
    Tracked t := by
  cases step_moves hstep with
  | files files => exact h
  | claim slot =>
    refine setMsg_forall (s := s) (fun due => ?_) h
    cases due.outstanding
  | @consume tx q queued =>
    refine fun uid n hn due => onItsWay_of (s := s) rfl (fun r hr => ?_) (h uid n hn due)
    have moved := ((List.perm_cons_erase queued).map Prod.snd).mem_iff (a := r)
    simp only [inFlight, List.mem_append, moved, List.map_cons, List.mem_cons, List.not_mem_nil,
      or_false] at hr ⊢
    tauto
  | @reply q rx len taken avail =>
    refine fun uid n hn due => onItsWay_of (s := s) rfl (fun r hr => ?_) (h uid n hn due)
    have moved := (List.perm_cons_erase taken).mem_iff (a := r)
    simp only [inFlight, List.mem_append, moved, List.map_append, List.map_cons, List.map_nil,
      List.mem_cons, List.not_mem_nil, or_false] at hr ⊢
    tauto
  | owner owned live moves =>
    obtain ⟨k, hk, hown⟩ := step_owner hstep owned
    exact owner_tracked h hown hk
  | recv moves => exact recvMoves_tracked routed h moves

theorem run_tracked {numBufs : Nat} {as : List Action}
    (along : Along step Answered (State.probed numBufs) as)
    (run : exec step (State.probed numBufs) as = some s) : Routed s ∧ Tracked s := by
  have preserved : ∀ s a t, (Routed s ∧ Tracked s) → Answered s a → step s a = some t →
      Routed t ∧ Tracked t := by
    rintro s a t ⟨routed, tracked⟩ ok hstep
    exact ⟨step_routed routed ok hstep, step_tracked routed tracked hstep⟩
  exact exec_invariant_along Answered preserved
    ⟨probed_routed numBufs, probed_tracked numBufs⟩ along run

/-- The steps of the back end and of the receive interrupt. -/
def byDevice : Action → Bool
  | .consume .. => true
  | .reply .. => true
  | .recvGet => true
  | .recvLookup => true
  | .recvAttach => true
  | .recvComplete => true
  | _ => false

/-- The caller has been told and finds its answer. -/
def Told (t : State) (uid : Uid) (m : Msg) : Prop :=
  ∃ k, t.msgs uid = some k ∧ k.completed = true ∧ k.rxbuf ≠ none ∧ k.stage = m.stage

/-- Steps of the device and the interrupt alone lead to a state in which `P` holds. -/
def Leads (s : State) (P : State → Prop) : Prop :=
  ∃ bs t, (∀ b ∈ bs, byDevice b = true) ∧ exec step s bs = some t ∧ P t

theorem leads_refl {P : State → Prop} (h : P s) : Leads s P :=
  ⟨[], s, by simp, rfl, h⟩

theorem leads_step {P : State → Prop} (own : byDevice a = true) (hstep : step s a = some t)
    (next : Leads t P) : Leads s P := by
  obtain ⟨bs, u, device, run, h⟩ := next
  refine ⟨a :: bs, u, ?_, Option.bind_eq_some_iff.mpr ⟨t, hstep, run⟩, h⟩
  intro b hb
  rcases List.mem_cons.mp hb with rfl | hb
  · exact own
  · exact device b hb

theorem byDevice_routed (routed : Routed s) (own : byDevice a = true) (hstep : step s a = some t) :
    Routed t := by
  refine step_routed routed ?_ hstep
  cases a <;> trivial

theorem leads_trans {P Q : State → Prop} (routed : Routed s) (first : Leads s P)
    (next : ∀ t, Routed t → P t → Leads t Q) : Leads s Q := by
  obtain ⟨bs, t, device, run, h⟩ := first
  induction bs generalizing s with
  | nil =>
    obtain rfl := Option.some.inj run
    exact next s routed h
  | cons b bs ih =>
    obtain ⟨u, hstep, rest⟩ := exec_cons_eq_some run
    have own := device b List.mem_cons_self
    exact leads_step own hstep (ih (byDevice_routed routed own hstep)
      (fun c hc => device c (List.mem_cons_of_mem _ hc)) rest)

/-- What becomes of message `uid` when the interrupt is done with what it had: it is told, or
the interrupt had nothing for it. -/
structure Finished (s : State) (uid : Uid) (m : Msg) (t : State) : Prop where
  idle : t.recv = .idle
  used : t.rvqUsed = s.rvqUsed
  told : Told t uid m ∨ t.msgs uid = some m ∧ s.recv ≠ .attached uid ∧
    ∀ q ∈ recvReqs s.recv, q.origin ≠ uid

theorem attached_finishes {v : Uid} (routed : Routed s) (attached : s.recv = .attached v)
    (live : s.msgs uid = some m) : Leads s (Finished s uid m) := by
  have hstep : step s .recvComplete = some
      { s.setMsg v ((s.msgs v).map fun m => { m with completed := true }) with recv := .idle } := by
    simp only [step, Action.owned, recvStep, attached]
  refine leads_step rfl hstep (leads_refl ⟨rfl, rfl, ?_⟩)
  by_cases same : uid = v
  · subst same
    have answer := (routed.attached uid attached).2 m live
    refine .inl ⟨{ m with completed := true }, ?_, rfl, answer, rfl⟩
    rw [msgs_setMsg, if_pos rfl, live, Option.map_some]
  · refine .inr ⟨by rw [msgs_setMsg, if_neg same, live], ?_, by simp [recvReqs, attached]⟩
    rw [attached]
    exact fun h => same (Recv.attached.inj h).symm

theorem found_finishes {r : Rsp} {v : Uid} (routed : Routed s) (found : s.recv = .found r v)
    (live : s.msgs uid = some m) : Leads s (Finished s uid m) := by
  obtain rfl := routed.found r v found
  have hstep : step s .recvAttach = some
      { s.setMsg r.req.origin
          ((s.msgs r.req.origin).map fun m => { m with rxbuf := some r.rx }) with
        recv := .attached r.req.origin
        deliveries := (r.req.origin, r.req.origin) :: s.deliveries } := by
    simp only [step, Action.owned, recvStep, found]
  have next := byDevice_routed routed rfl hstep
  by_cases same : uid = r.req.origin
  · have live' : (s.setMsg r.req.origin ((s.msgs r.req.origin).map
        fun m => { m with rxbuf := some r.rx })).msgs uid = some { m with rxbuf := some r.rx } := by
      rw [msgs_setMsg, if_pos same, ← same, live, Option.map_some]
    refine leads_step rfl hstep (leads_trans next (attached_finishes next rfl live') ?_)
    rintro t - ⟨idle, used, told | ⟨-, other, -⟩⟩
    · exact leads_refl ⟨idle, used, .inl told⟩
    · exact absurd (congrArg _ same.symm) other
  · have live' : (s.setMsg r.req.origin ((s.msgs r.req.origin).map
        fun m => { m with rxbuf := some r.rx })).msgs uid = some m := by
      rw [msgs_setMsg, if_neg same, live]
    refine leads_step rfl hstep (leads_trans next (attached_finishes next rfl live') ?_)
    rintro t - ⟨idle, used, told | ⟨live, -, -⟩⟩
    · exact leads_refl ⟨idle, used, .inl told⟩
    · refine leads_refl ⟨idle, used, .inr ⟨live, by rw [found]; simp, ?_⟩⟩
      simpa [recvReqs, found] using Ne.symm same

theorem interrupt_finishes (routed : Routed s) (live : s.msgs uid = some m) :
    Leads s (Finished s uid m) := by
  cases busy : s.recv with
  | idle => exact leads_refl ⟨busy, rfl, .inr ⟨live, by rw [busy]; simp, by simp [recvReqs, busy]⟩⟩
  | attached v => exact attached_finishes routed busy live
  | found r v => exact found_finishes routed busy live
  | got r =>
    have hstep : step s .recvLookup = some { s with recv := .found r r.req.origin } := by
      simp only [step, Action.owned, recvStep, busy, recvSingle_found routed busy]
    have next := byDevice_routed routed rfl hstep
    refine leads_step rfl hstep (leads_trans next (found_finishes next rfl live) ?_)
    rintro t - ⟨idle, used, told | ⟨live, -, other⟩⟩
    · exact leads_refl ⟨idle, used, .inl told⟩
    · refine leads_refl ⟨idle, used, .inr ⟨live, by rw [busy]; simp, ?_⟩⟩
      simpa only [recvReqs, busy] using other

/-- The interrupt works through the used buffers in order. -/
theorem used_told {used : List Rsp} (routed : Routed s) (idle : s.recv = .idle)
    (queue : s.rvqUsed = used) (live : s.msgs uid = some m)
    (answer : ∃ r ∈ used, r.req.origin = uid) : Leads s fun t => Told t uid m := by
  induction used generalizing s with
  | nil =>
    obtain ⟨r, hr, -⟩ := answer
    cases hr
  | cons r rest ih =>
    have hstep : step s .recvGet = some { s with recv := .got r, rvqUsed := rest } := by
      simp only [step, Action.owned, recvStep, idle, queue]
    have next := byDevice_routed routed rfl hstep
    refine leads_step rfl hstep (leads_trans next (interrupt_finishes next live) ?_)
    rintro t hrouted ⟨idle, used, told | ⟨live, -, other⟩⟩
    · exact leads_refl told
    · refine ih hrouted idle used live ?_
      obtain ⟨p, hp, origin⟩ := answer
      rcases List.mem_cons.mp hp with rfl | hp
      · exact absurd origin (other p.req (by simp [recvReqs]))
      · exact ⟨p, hp, origin⟩

theorem answered_told (routed : Routed s) (live : s.msgs uid = some m)
    (answer : (∃ r ∈ s.rvqUsed, r.req.origin = uid) ∨ s.recv = .attached uid ∨
      ∃ q ∈ recvReqs s.recv, q.origin = uid) : Leads s fun t => Told t uid m := by
  refine leads_trans routed (interrupt_finishes routed live) ?_
  rintro t hrouted ⟨idle, used, told | ⟨live, notAttached, other⟩⟩
  · exact leads_refl told
  · rcases answer with answer | attached | ⟨q, hq, origin⟩
    · exact used_told hrouted idle used live answer
    · exact absurd attached notAttached
    · exact absurd origin (other q hq)

theorem backend_told {q : Req} (routed : Routed s) (live : s.msgs q.origin = some m)
    (avail : s.rvqAvail ≠ []) (taken : q ∈ s.backend) :
    Leads s fun t => Told t q.origin m := by
  obtain ⟨rx, hrx⟩ := List.exists_mem_of_ne_nil _ avail
  have hstep : step s (.reply q rx 0) = some { s with
      backend := s.backend.erase q
      rvqAvail := s.rvqAvail.erase rx
      rvqUsed := s.rvqUsed ++ [⟨rx, q, 0, 0⟩] } := by
    simp only [step, taken, hrx, and_self, if_true]
  refine leads_step rfl hstep (answered_told (byDevice_routed routed rfl hstep) live (.inl ?_))
  exact ⟨⟨rx, q, 0, 0⟩, by simp, rfl⟩

theorem queued_told {tx : TxId} {q : Req} (routed : Routed s) (live : s.msgs q.origin = some m)
    (avail : s.rvqAvail ≠ []) (queued : (tx, q) ∈ s.svqQueued) :
    Leads s fun t => Told t q.origin m := by
  have hstep : step s (.consume tx q) = some { s with
      svqQueued := s.svqQueued.erase (tx, q)
      svqUsed := s.svqUsed ++ [tx]
      backend := s.backend ++ [q] } := by
    simp only [step, queued, if_true]
  exact leads_step rfl hstep
    (backend_told (byDevice_routed routed rfl hstep) live avail (by simp))

/-- The back end still has to answer. -/
def Unanswered (s : State) (uid : Uid) : Prop :=
  ∃ q ∈ s.svqQueued.map Prod.snd ++ s.backend, q.origin = uid

/-- In every run in which files are only drained of answered messages, each message that is
waited for and not completed is on its way; when a receive buffer is there for its answer,
the back end and the interrupt alone can bring it to its caller. -/
theorem waited_for_is_answerable (numBufs : Nat) (as : List Action) (s : State)
    (uid : Uid) (m : Msg) (along : Along step Answered (State.probed numBufs) as)
    (run : exec step (State.probed numBufs) as = some s) (live : s.msgs uid = some m)
    (due : Due m) :
    OnItsWay s uid ∧
      ((Unanswered s uid → s.rvqAvail ≠ []) → Leads s fun t => Told t uid m) := by
  obtain ⟨routed, tracked⟩ := run_tracked along run
  have onItsWay := tracked uid m live due
  refine ⟨onItsWay, fun avail => ?_⟩
  rcases onItsWay with attached | ⟨q, hq, rfl⟩
  · exact answered_told routed live (.inr (.inl attached))
  simp only [inFlight, List.mem_append, List.mem_map] at hq
  rcases hq with ((⟨⟨tx, _⟩, queued, rfl⟩ | taken) | ⟨r, used, rfl⟩) | held
  · have waits := List.mem_append_left s.backend (List.mem_map_of_mem (f := Prod.snd) queued)
    exact queued_told routed live (avail ⟨_, waits, rfl⟩) queued
  · exact backend_told routed live (avail ⟨q, by simp [taken], rfl⟩) taken
  · exact answered_told routed live (.inl ⟨r, used, rfl⟩)
  · exact answered_told routed live (.inr (.inr ⟨q, held, rfl⟩))

/-- Two messages are under way; the answer to the second arrives first. -/
def overtaken : List Action :=
  [.openFile 0, .claim 0 .invoke, .getTx 0, .send 0, .claim 0 .munmapFd, .getTx 1, .send 1,
    .consume 0 ⟨0, 0⟩, .consume 1 ⟨1, 1⟩, .reply ⟨1, 1⟩ 0 80, .interrupt 0 true]

theorem overtaken_answerable : ∃ s m, exec step (State.probed 2) overtaken = some s ∧
    s.msgs 0 = some m ∧ Due m ∧ Unanswered s 0 ∧ Leads s fun t => Told t 0 m := by
  have along : Along step Answered (State.probed 2) overtaken := by
    refine along_of_forall (fun a ha s => ?_) _
    simp only [overtaken, List.mem_cons, List.not_mem_nil, or_false] at ha
    rcases ha with rfl | rfl | rfl | rfl | rfl | rfl | rfl | rfl | rfl | rfl | rfl <;> trivial
  refine ⟨_, _, rfl, rfl, ⟨rfl, rfl⟩, ⟨⟨0, 0⟩, by decide, rfl⟩, ?_⟩
  exact (waited_for_is_answerable 2 overtaken _ 0 _ along rfl rfl ⟨rfl, rfl⟩).2
    fun _ => by decide

end ReplyProgress
