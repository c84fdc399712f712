import PlatformKernel.MessageTransport

/-!
# What a step of the transport leaves alone

A message changes only by the steps of its owner and by the interrupt that works on it;
its kind and its file never change.
-/

namespace TransportFrames

open MessageTransport

/-- The message that `recv_single` is working on. -/
def inHandler : Recv → Option Uid
  | .found _ uid => some uid
  | .attached uid => some uid
  | _ => none

/-- Steps of the receive interrupt. -/
def receives : Action → Bool
  | .recvGet => true
  | .recvLookup => true
  | .recvAttach => true
  | .recvComplete => true
  | _ => false

variable {s t : State} {a : Action} {uid : Uid} {m n : Msg}

theorem msgs_update_ne {v : Uid} {k : Option Msg} (hne : uid ≠ v) :
    (s.setMsg v k).msgs uid = s.msgs uid := by
  rw [msgs_setMsg, if_neg hne]

theorem mapMsg_none (gone : s.msgs uid = none) (f : Msg → Msg) (v : Uid) :
    (s.setMsg v ((s.msgs v).map f)).msgs uid = none := by
  rw [msgs_setMsg]
  split_ifs with hv
  · rw [← hv, gone]
    rfl
  · exact gone

/-- A step of another owner leaves the message alone. -/
theorem ownerMoves_other {v : Uid} (moves : OwnerMoves s v m a t) (hne : uid ≠ v) :
    t.msgs uid = s.msgs uid := by
  cases moves with
  | takeTx stage taken =>
    obtain ⟨last, used, rfl⟩ := getATxBuf_some taken
    exact msgs_update_ne hne
  | restage restaged => exact msgs_update_ne hne
  | send stage txbuf => exact msgs_update_ne hne
  | giveBack stage rxbuf action => exact msgs_update_ne hne
  | free stage => exact msgs_update_ne (s := s) hne

theorem ownerMoves_frame {v : Uid} (moves : OwnerMoves s v m a t) :
    t.recv = s.recv ∧ t.nextUid = s.nextUid ∧ t.files = s.files := by
  cases moves with
  | takeTx stage taken =>
    obtain ⟨last, used, rfl⟩ := getATxBuf_some taken
    exact ⟨rfl, rfl, rfl⟩
  | restage restaged => exact ⟨rfl, rfl, rfl⟩
  | send stage txbuf => exact ⟨rfl, rfl, rfl⟩
  | giveBack stage rxbuf action => exact ⟨rfl, rfl, rfl⟩
  | free stage => exact ⟨rfl, rfl, rfl⟩

theorem step_msgs (hstep : step s a = some t) (known : uid < s.nextUid)
    (other : a.owned ≠ some uid) (hrecv : inHandler s.recv ≠ some uid) :
    t.msgs uid = s.msgs uid := by
  cases step_moves hstep with
  | files files => rfl
  | claim slot => exact Function.update_of_ne (Nat.ne_of_lt known) _ _
  | consume queued => rfl
  | reply taken avail => rfl
  | owner owned live moves =>
    refine ownerMoves_other moves ?_
    rintro rfl
    exact other owned
  | recv moves =>
    cases moves with
    | get idle used => rfl
    | found got lookup => rfl
    | rejected got lookup => rfl
    | attach found =>
      refine msgs_update_ne ?_
      rintro rfl
      exact hrecv (by rw [found]; rfl)
    | complete attached =>
      refine msgs_update_ne ?_
      rintro rfl
      exact hrecv (by rw [attached]; rfl)

theorem step_next (hstep : step s a = some t) : s.nextUid ≤ t.nextUid := by
  cases step_moves hstep with
  | files files => exact Nat.le_refl _
  | claim slot => exact Nat.le_succ _
  | consume queued => exact Nat.le_refl _
  | reply taken avail => exact Nat.le_refl _
  | owner owned live moves => exact Nat.le_of_eq (ownerMoves_frame moves).2.1.symm
  | recv moves => cases moves <;> exact Nat.le_refl _

/-- A freed message does not come back. -/
theorem step_gone (hstep : step s a = some t) (known : uid < s.nextUid)
    (gone : s.msgs uid = none) : t.msgs uid = none := by
  cases step_moves hstep with
  | files files => exact gone
  | claim slot => exact (Function.update_of_ne (Nat.ne_of_lt known) _ _).trans gone
  | consume queued => exact gone
  | reply taken avail => exact gone
  | owner owned live moves =>
    refine (ownerMoves_other moves ?_).trans gone
    rintro rfl
    rw [gone] at live
    cases live
  | recv moves =>
    cases moves with
    | get idle used => exact gone
    | found got lookup => exact gone
    | rejected got lookup => exact gone
    | attach found => exact mapMsg_none gone _ _
    | complete attached => exact mapMsg_none gone _ _

theorem step_owner (hstep : step s a = some t) (owned : a.owned = some uid) :
    ∃ m, s.msgs uid = some m ∧ ownerStep s uid m a = some t := by
  cases a <;> simp only [Action.owned, Option.some.injEq, reduceCtorEq] at owned <;>
    subst owned <;> exact Option.bind_eq_some_iff.mp hstep

/-- A new message has its slot only. -/
theorem step_new (hstep : step s a = some t) (hs : s.msgs uid = none) (ht : t.msgs uid = some n) :
    n.stage = .claimed := by
  have other : t.msgs uid ≠ none := fun he => by
    rw [he] at ht
    cases ht
  by_cases known : uid < s.nextUid
  · exact False.elim (other (step_gone hstep known hs))
  cases step_moves hstep with
  | files files => exact False.elim (other hs)
  | claim slot =>
    change Function.update s.msgs s.nextUid _ uid = some n at ht
    rw [Function.update_apply] at ht
    split_ifs at ht
    · exact Option.some.inj ht ▸ rfl
    · rw [hs] at ht
      cases ht
  | consume queued => exact False.elim (other hs)
  | reply taken avail => exact False.elim (other hs)
  | owner owned live moves =>
    refine False.elim (other ((ownerMoves_other moves ?_).trans hs))
    rintro rfl
    rw [hs] at live
    cases live
  | recv moves =>
    cases moves with
    | get idle used => exact False.elim (other hs)
    | found got lookup => exact False.elim (other hs)
    | rejected got lookup => exact False.elim (other hs)
    | attach found => exact False.elim (other (mapMsg_none hs _ _))
    | complete attached => exact False.elim (other (mapMsg_none hs _ _))

theorem free_gone (hstep : step s (.free uid) = some t) : t.msgs uid = none := by
  obtain ⟨m, -, hown⟩ := step_owner hstep rfl
  obtain ⟨-, hfree⟩ := Option.ite_none_right_eq_some.mp hown
  obtain rfl := Option.some.inj hfree
  exact Function.update_self _ _ _

/-- Nobody but a reader, or the close of the file, takes a job that was sent. -/
theorem queued_unowned (hstep : step s a = some t) (hm : s.msgs uid = some m)
    (stage : m.stage = .queued) (htake : a ≠ .takeAsync uid) (hclose : a ≠ .closeTake uid) :
    a.owned ≠ some uid := by
  intro owned
  obtain ⟨k, hk, hown⟩ := step_owner hstep owned
  obtain rfl := Option.some.inj (hm.symm.trans hk)
  cases a with
  | takeAsync v => exact htake (congrArg Action.takeAsync (Option.some.inj owned))
  | closeTake v => exact hclose (congrArg Action.closeTake (Option.some.inj owned))
  | _ => simp_all [ownerStep]

/-- Nobody waits for an asynchronous job. -/
def Unwaited (m : Msg) : Prop :=
  m.kind = .asyncInvoke → m.stage ≠ .waiting ∧ m.stage ≠ .saved ∧ m.stage ≠ .lost

/-- The kind and the file of a message are fixed. -/
structure Alike (m n : Msg) : Prop where
  kind : n.kind = m.kind
  file : n.file = m.file
  unwaited : Unwaited m → Unwaited n

theorem Alike.refl (m : Msg) : Alike m m := ⟨rfl, rfl, id⟩

theorem alike_of_setMsg {k : Msg} (hn : (s.setMsg uid (some k)).msgs uid = some n)
    (alike : Alike m k) : Alike m n := by
  rw [msgs_setMsg, if_pos rfl] at hn
  exact Option.some.inj hn ▸ alike

theorem ownerStep_alike (hown : ownerStep s uid m a = some t) (hn : t.msgs uid = some n) :
    Alike m n := by
  have ended : ∀ st : Stage, st.ending = true ∨ st = .built →
      st ≠ .waiting ∧ st ≠ .saved ∧ st ≠ .lost := by
    rintro st (hst | rfl)
    · cases st <;> simp_all [Stage.ending]
    · decide
  cases a <;> simp only [ownerStep, reduceCtorEq, Option.ite_none_right_eq_some] at hown
  case getTx =>
    obtain ⟨-, hown⟩ := hown
    split at hown <;> obtain rfl := Option.some.inj hown
    · exact alike_of_setMsg hn ⟨rfl, rfl, fun _ _ => ended _ (Or.inr rfl)⟩
    · exact alike_of_setMsg hn ⟨rfl, rfl, fun _ _ => ended _ (Or.inl rfl)⟩
  case send =>
    obtain ⟨-, hown⟩ := hown
    split at hown
    · obtain rfl := Option.some.inj hown
      exact alike_of_setMsg hn ⟨rfl, rfl, fun _ hk => by simp_all [Kind.sentStage]⟩
    · cases hown
  case sendFail =>
    obtain ⟨-, hown⟩ := hown
    obtain rfl := Option.some.inj hown
    exact alike_of_setMsg hn ⟨rfl, rfl, fun _ _ => ended _ (Or.inl (unsentStage_ending _))⟩
  case interrupt =>
    obtain ⟨⟨hw, -, -⟩, hown⟩ := hown
    obtain rfl := Option.some.inj hown
    exact alike_of_setMsg hn ⟨rfl, rfl, fun hm hk => False.elim ((hm hk).1 hw)⟩
  case resume =>
    obtain ⟨⟨hs, -⟩, hown⟩ := hown
    obtain rfl := Option.some.inj hown
    exact alike_of_setMsg hn ⟨rfl, rfl, fun hm hk => False.elim ((hm hk).2.1 hs)⟩
  case giveBack =>
    obtain ⟨-, hown⟩ := hown
    split at hown <;> obtain rfl := Option.some.inj hown
    · exact alike_of_setMsg (s := s) hn ⟨rfl, rfl, fun _ _ => ended _ (Or.inl rfl)⟩
    · exact alike_of_setMsg hn ⟨rfl, rfl, fun _ _ => ended _ (Or.inl rfl)⟩
  case free =>
    obtain ⟨-, hown⟩ := hown
    obtain rfl := Option.some.inj hown
    simp [virtFreeMsg] at hn
  all_goals
    obtain ⟨-, hown⟩ := hown
    obtain rfl := Option.some.inj hown
    exact alike_of_setMsg hn ⟨rfl, rfl, fun _ _ => ended _ (Or.inl rfl)⟩

/-- A live message stays of its kind. -/
theorem step_alike (hstep : step s a = some t) (known : uid < s.nextUid)
    (hm : s.msgs uid = some m) (hn : t.msgs uid = some n) : Alike m n := by
  by_cases owned : a.owned = some uid
  · obtain ⟨k, hk, hown⟩ := step_owner hstep owned
    obtain rfl := Option.some.inj (hm.symm.trans hk)
    exact ownerStep_alike hown hn
  have unchanged : t.msgs uid = s.msgs uid → Alike m n := fun same => by
    obtain rfl := Option.some.inj (hm.symm.trans (same.symm.trans hn))
    exact Alike.refl m
  have mapped : ∀ (f : Msg → Msg) (v : Uid),
      (s.setMsg v ((s.msgs v).map f)).msgs uid = some n → (∀ k, Alike k (f k)) → Alike m n := by
    intro f v hn hf
    rw [msgs_setMsg] at hn
    split_ifs at hn with hv
    · rw [← hv, hm] at hn
      exact Option.some.inj hn ▸ hf m
    · obtain rfl := Option.some.inj (hm.symm.trans hn)
      exact Alike.refl m
  cases step_moves hstep with
  | files files => exact unchanged rfl
  | claim slot => exact unchanged (Function.update_of_ne (Nat.ne_of_lt known) _ _)
  | consume queued => exact unchanged rfl
  | reply taken avail => exact unchanged rfl
  | owner owned' live moves =>
    refine unchanged (ownerMoves_other moves ?_)
    rintro rfl
    exact owned owned'
  | recv moves =>
    cases moves with
    | get idle used => exact unchanged rfl
    | found got lookup => exact unchanged rfl
    | rejected got lookup => exact unchanged rfl
    | attach found => exact mapped _ _ hn fun _ => ⟨rfl, rfl, id⟩
    | complete attached => exact mapped _ _ hn fun _ => ⟨rfl, rfl, id⟩

/-- Steps of the callers, the back end and the files. -/
theorem step_aside (hstep : step s a = some t) (aside : receives a = false) :
    t.recv = s.recv ∧
      ∀ uid, uid < s.nextUid → a.owned ≠ some uid → t.msgs uid = s.msgs uid := by
  have owner : ∀ v, a.owned = some v → t.recv = s.recv ∧
      ∀ uid, uid < s.nextUid → a.owned ≠ some uid → t.msgs uid = s.msgs uid := fun v owned => by
    obtain ⟨m, -, hown⟩ := step_owner hstep owned
    refine ⟨(ownerMoves_frame (ownerStep_moves hown)).1, fun uid _ other => ?_⟩
    refine ownerMoves_other (ownerStep_moves hown) ?_
    rintro rfl
    exact other owned
  cases a with
  | recvGet | recvLookup | recvAttach | recvComplete => cases aside
  | claim f kind =>
    simp only [step] at hstep
    split_ifs at hstep
    obtain ⟨i, -, rfl⟩ := Option.map_eq_some_iff.mp hstep
    exact ⟨rfl, fun uid known _ => Function.update_of_ne (Nat.ne_of_lt known) _ _⟩
  | openFile | consume | reply | closeBegin | drainBegin =>
    simp only [step] at hstep
    split_ifs at hstep
    obtain rfl := Option.some.inj hstep
    exact ⟨rfl, fun _ _ _ => rfl⟩
  | _ => exact owner _ rfl

theorem step_handler (hstep : step s a = some t) (hlookup : a ≠ .recvLookup)
    (hcomplete : a ≠ .recvComplete) : inHandler t.recv = inHandler s.recv := by
  cases a with
  | recvLookup => exact False.elim (hlookup rfl)
  | recvComplete => exact False.elim (hcomplete rfl)
  | recvGet =>
    simp only [step, Action.owned, recvStep] at hstep
    split at hstep <;> cases hstep
    rename_i hidle _
    rw [hidle]
    rfl
  | recvAttach =>
    simp only [step, Action.owned, recvStep] at hstep
    split at hstep <;> cases hstep
    rename_i hfound
    rw [hfound]
    rfl
  | _ => rw [(step_aside hstep rfl).1]

/-- The message that the interrupt is working on gets its response at most. -/
theorem step_handled (hstep : step s a = some t) (hin : inHandler s.recv = some uid)
    (known : uid < s.nextUid) (hm : s.msgs uid = some m) (other : a.owned ≠ some uid)
    (hcomplete : a ≠ .recvComplete) : ∃ rx, t.msgs uid = some { m with rxbuf := rx } := by
  cases a with
  | recvComplete => exact False.elim (hcomplete rfl)
  | recvGet =>
    simp only [step, Action.owned, recvStep] at hstep
    split at hstep <;> cases hstep
    exact ⟨m.rxbuf, hm⟩
  | recvLookup =>
    simp only [step, Action.owned, recvStep] at hstep
    split at hstep
    · rename_i hgot
      rw [hgot] at hin
      cases hin
    · cases hstep
  | recvAttach =>
    simp only [step, Action.owned, recvStep] at hstep
    split at hstep <;> cases hstep
    rename_i r v hfound
    rw [hfound] at hin
    obtain rfl := Option.some.inj hin
    refine ⟨some r.rx, ?_⟩
    rw [hm]
    exact Function.update_self _ _ _
  | _ => exact ⟨m.rxbuf, ((step_aside hstep rfl).2 uid known other).trans hm⟩

theorem step_opened {f : FileId} (hstep : step s a = some t)
    (hclose : ∀ f, a ≠ .closeBegin f) (hdrain : ∀ f, a ≠ .drainBegin f)
    (opened : s.files f = .opened) : t.files f = .opened := by
  have owner : ∀ uid, a.owned = some uid → t.files f = .opened := fun uid owned => by
    obtain ⟨m, -, hown⟩ := step_owner hstep owned
    rw [(ownerMoves_frame (ownerStep_moves hown)).2.2]
    exact opened
  cases a with
  | closeBegin f => exact False.elim (hclose f rfl)
  | drainBegin f => exact False.elim (hdrain f rfl)
  | openFile g =>
    simp only [step] at hstep
    split_ifs at hstep
    obtain rfl := Option.some.inj hstep
    change Function.update s.files g .opened f = .opened
    rw [Function.update_apply]
    split_ifs
    · rfl
    · exact opened
  | claim g kind =>
    simp only [step] at hstep
    split_ifs at hstep
    obtain ⟨i, -, rfl⟩ := Option.map_eq_some_iff.mp hstep
    exact opened
  | consume | reply =>
    simp only [step] at hstep
    split_ifs at hstep
    obtain rfl := Option.some.inj hstep
    exact opened
  | recvGet => cases recvStep_moves (a := .recvGet) hstep <;> exact opened
  | recvLookup => cases recvStep_moves (a := .recvLookup) hstep <;> exact opened
  | recvAttach => cases recvStep_moves (a := .recvAttach) hstep <;> exact opened
  | recvComplete => cases recvStep_moves (a := .recvComplete) hstep <;> exact opened
  | _ => exact owner _ rfl

end TransportFrames
