import PlatformKernel.ChannelBinding

/-!
# Sessions of one process

SETMODE(SESSION) marks a file as the second session of its process: bit 30 is set in the
process id the file sends, and in the thread id of every message. The process id is
stored in the file, where GETINFO writes it again without the bit; the thread id is
marked by each builder on its own, and two builders forget it.
-/

namespace SessionHeaders

open GuardedRuns FileCommands ChannelBinding
open ProcessAccess (headerIds zeroMemory)
open ControlPlane hiding Action step

def HasBit (id : UInt32) : Prop := id &&& sessionBit ≠ 0

instance (id : UInt32) : Decidable (HasBit id) := inferInstanceAs (Decidable (_ ≠ _))

/-- The back end can tell the session from the other messages of the process. -/
def Marked (h : Hdr) : Prop := HasBit h.pid ∧ HasBit h.tid

instance (h : Hdr) : Decidable (Marked h) := inferInstanceAs (Decidable (_ ∧ _))

theorem hasBit_or (id : UInt32) : HasBit (id ||| sessionBit) := by
  have absorb : (id ||| sessionBit) &&& sessionBit = sessionBit := by
    apply UInt32.toBitVec_inj.mp
    apply BitVec.eq_of_getElem_eq
    intro i hi
    simp +contextual
  unfold HasBit
  rw [absorb]
  decide

theorem sessionHdr_marked {x : File} (cid : Int) (cmd : Cmd) (cur : Process)
    (session : x.sessionid = true) (bit : HasBit x.tgid) : Marked (sessionHdr cid cmd x cur) := by
  refine ⟨bit, ?_⟩
  simp only [sessionHdr, session, if_true]
  exact hasBit_or cur.pid

theorem hdr_marked {x : File} {cmd : Cmd} (cur : Process) (session : x.sessionid = true)
    (bit : HasBit x.tgid) (hmap : cmd ≠ .cmdMemMap) (hunmap : cmd ≠ .cmdMemUnmap) :
    Marked (cmd.hdr x cur) := by
  cases cmd with
  | cmdMemMap => exact False.elim (hmap rfl)
  | cmdMemUnmap => exact False.elim (hunmap rfl)
  | _ => exact sessionHdr_marked _ _ cur session bit

/-- A file in a session sends the marked process id, and every file for which
SETMODE(SESSION) succeeded is in one. -/
structure InSession (s : State) : Prop where
  bit : ∀ f x, s.drv.files f = some x → x.sessionid = true → HasBit x.tgid
  entered : ∀ f x, s.drv.files f = some x → ∀ caller opener,
    Event.session f caller opener ∈ s.drv.log → x.sessionid = true
  logged : ∀ f caller opener, Event.session f caller opener ∈ s.drv.log → f < s.drv.nextFile
  known : ∀ f x, s.drv.files f = some x → f < s.drv.nextFile

/-- A file in a session is not asked for GETINFO and sends no MEM_MAP and no MEM_UNMAP. -/
def KeepsSession (feat : Features) (s : State) : Action → Prop
  | .control f _ (.getInfo (some _) _) => ∀ x, s.drv.files f = some x → x.sessionid = false
  | .command f _ cmd out => ∀ x, s.drv.files f = some x → x.sessionid = true →
      accepts feat s.drv.numChannels x cmd = true → out = .sent →
      cmd ≠ .cmdMemMap ∧ cmd ≠ .cmdMemUnmap
  | _ => True

section runs

variable {ids : SharedIds} {feat : Features} {s t : State} {a : Action}

/-- The log only grows, and a session is logged when SETMODE succeeds. -/
theorem ioctl_log (ids : SharedIds) (s : Driver) (f : FileId) (cur : Process) (x : File)
    {c : Ioctl} (kind : isInit c = false) :
    s.log ⊆ (vfastrpcIoctl ids s f cur x c).log ∧ ∀ g caller opener,
      Event.session g caller opener ∈ (vfastrpcIoctl ids s f cur x c).log →
      Event.session g caller opener ∈ s.log ∨
        g = f ∧ c = .setmode .session ∧ (vfastrpcSetmodeIoctl .session x).2 = 0 := by
  cases c with
  | setmode m =>
    refine ⟨List.subset_append_left _ _, fun g caller opener h => ?_⟩
    rcases List.mem_append.mp h with hold | hnew
    · exact Or.inl hold
    · split_ifs at hnew with hmode
      · obtain ⟨rfl, hret⟩ := hmode
        have heq := List.mem_singleton.mp hnew
        injection heq with hg
        exact Or.inr ⟨hg, rfl, hret⟩
      · cases hnew
  | getInfo info out =>
    cases info with
    | none => exact ⟨fun _ h => h, fun _ _ _ h => Or.inl h⟩
    | some info =>
      refine ⟨List.subset_append_left _ _, fun g caller opener h => ?_⟩
      rcases List.mem_append.mp h with hold | hnew
      · exact Or.inl hold
      · cases List.mem_singleton.mp hnew
  | init uproc out => cases kind
  | getDspInfo cap out =>
    cases cap with
    | none => exact ⟨fun _ h => h, fun _ _ _ h => Or.inl h⟩
    | some cap => exact ⟨fun _ h => h, fun _ _ _ h => Or.inl h⟩
  | other => exact ⟨fun _ h => h, fun _ _ _ h => Or.inl h⟩

/-- Without GETINFO in a session, an ioctl leaves the session as it is or enters it. -/
theorem turned_session {s : State} {f : FileId} {cur : Process} {x y : File} {c : Ioctl}
    (hx : s.drv.files f = some x) (turned : Turned s.drv cur x c y)
    (ok : KeepsSession feat s (.control f cur c)) (bit : x.sessionid = true → HasBit x.tgid) :
    (x.sessionid = true → y.sessionid = true) ∧ (y.sessionid = true → HasBit y.tgid) := by
  cases turned with
  | setmode m =>
    rcases setmode_cases m x with ⟨same, -⟩ | ⟨-, session⟩
    · rw [same.sessionid, same.tgid]
      exact ⟨id, bit⟩
    · rw [session]
      exact ⟨fun _ => rfl, fun _ => hasBit_or x.tgid⟩
  | getInfo info out =>
    have outside : x.sessionid = false := ok x hx
    obtain ⟨-, -, hsession, -⟩ :=
      getInfo_sender s.drv.numChannels s.drv.channel s.drv.debugfsRoot cur out info x
    rw [hsession, outside]
    exact ⟨id, fun h => by cases h⟩
  | same mode => exact ⟨id, bit⟩

theorem turned_enters {s : Driver} {cur : Process} {x y : File}
    (turned : Turned s cur x (.setmode .session) y)
    (ret : (vfastrpcSetmodeIoctl .session x).2 = 0) : y.sessionid = true := by
  cases turned with
  | setmode m =>
    rcases setmode_cases .session x with ⟨-, hfail⟩ | ⟨-, session⟩
    · exact False.elim (hfail rfl ret)
    · rw [session]
  | same mode => exact False.elim (mode .session rfl)

/-- A file changes without leaving or entering a session. -/
theorem inSession_turned (h : InSession s) {f : FileId} {x y : File}
    (hx : s.drv.files f = some x) (hsession : y.sessionid = x.sessionid)
    (htgid : y.tgid = x.tgid) : InSession { s with drv := s.drv.setFile f y [] } where
  bit := by
    refine files_forall ?_ h.bit
    rw [hsession, htgid]
    exact h.bit f x hx
  entered := by
    refine files_forall (fun caller opener hlog => ?_) fun g z hg caller opener hlog => ?_
    · rw [hsession]
      exact h.entered f x hx caller opener (by simpa [Driver.setFile] using hlog)
    · exact h.entered g z hg caller opener (by simpa [Driver.setFile] using hlog)
  logged := fun g caller opener hlog =>
    h.logged g caller opener (by simpa [Driver.setFile] using hlog)
  known := files_forall (h.known f x hx) h.known

theorem step_inSession (h : InSession s) (ok : KeepsSession feat s a)
    (hstep : step ids feat s a = some t) : InSession t := by
  cases a with
  | openFile minor cur =>
    obtain rfl := Option.some.inj hstep
    refine ⟨files_forall (fun hy => by cases hy) h.bit,
      files_forall (fun caller opener hlog => ?_) h.entered,
      fun g caller opener hlog => Nat.lt_succ_of_lt (h.logged g caller opener hlog),
      files_forall (Nat.lt_succ_self _) fun g z hg => Nat.lt_succ_of_lt (h.known g z hg)⟩
    exact False.elim (Nat.lt_irrefl _ (h.logged _ caller opener hlog))
  | control f cur c =>
    simp only [step] at hstep
    split at hstep
    · cases hstep
    rename_i kind
    have kind : isInit c = false := by simpa using kind
    obtain ⟨x, hx, rfl⟩ := Option.map_eq_some_iff.mp hstep
    obtain ⟨y, drives, turned⟩ := ioctl_drives ids cur hx kind
    obtain ⟨-, hlog⟩ := ioctl_log ids s.drv f cur x kind
    obtain ⟨stays, bit⟩ := turned_session hx turned ok (h.bit f x hx)
    refine ⟨?_, ?_, fun g caller opener he => ?_, ?_⟩
    · rw [drives.files]
      exact files_forall bit h.bit
    · intro g z hg caller opener he
      dsimp only at hg he
      rw [drives.files, Function.update_apply] at hg
      rcases hlog g caller opener he with hold | ⟨rfl, rfl, hret⟩
      · split_ifs at hg with hgf
        · subst hgf
          obtain rfl := Option.some.inj hg
          exact stays (h.entered g x hx caller opener hold)
        · exact h.entered g z hg caller opener hold
      · rw [if_pos rfl] at hg
        obtain rfl := Option.some.inj hg
        exact turned_enters turned hret
    · rw [drives.nextFile]
      rcases hlog g caller opener he with hold | ⟨rfl, -, -⟩
      · exact h.logged g caller opener hold
      · exact h.known g x hx
    · rw [drives.files, drives.nextFile]
      exact files_forall (h.known f x hx) h.known
  | initBegin f cur uproc out =>
    obtain ⟨x, hx, rfl⟩ := Option.map_eq_some_iff.mp hstep
    have same := initBegin_sender s.drv.channel uproc x
    have base := inSession_turned h hx same.sessionid same.tgid
    dsimp only
    split <;> exact ⟨base.bit, base.entered, base.logged, base.known⟩
  | initEnd f own result cid =>
    simp only [step] at hstep
    split at hstep
    · obtain ⟨x, hx, rfl⟩ := Option.map_eq_some_iff.mp hstep
      have same : (initEnd result cid x).1.sessionid = x.sessionid ∧
          (initEnd result cid x).1.tgid = x.tgid := by
        rcases initEnd_cases result cid x with ⟨-, same⟩ | ⟨-, opened⟩
        · rw [same]
          exact ⟨rfl, rfl⟩
        · rw [opened]
          exact ⟨rfl, rfl⟩
      have base := inSession_turned h hx same.1 same.2
      exact ⟨base.bit, base.entered, base.logged, base.known⟩
    · cases hstep
  | strayAnswer f result cid =>
    simp only [step] at hstep
    split at hstep
    · obtain rfl := Option.some.inj hstep
      exact ⟨h.bit, h.entered, h.logged, h.known⟩
    · cases hstep
  | command f cur cmd out =>
    obtain ⟨x, hx, rfl⟩ := Option.map_eq_some_iff.mp hstep
    unfold State.post
    split_ifs <;> exact ⟨h.bit, h.entered, h.logged, h.known⟩
  | invoke2 f cur req out =>
    obtain ⟨x, hx, rfl⟩ := Option.map_eq_some_iff.mp hstep
    unfold State.post
    dsimp only
    split_ifs <;> exact ⟨h.bit, h.entered, h.logged, h.known⟩
  | release f cur out =>
    simp only [step] at hstep
    split at hstep
    · cases hstep
    · obtain ⟨x, hx, rfl⟩ := Option.map_eq_some_iff.mp hstep
      exact ⟨files_released h.bit, files_released h.entered, h.logged, files_released h.known⟩

/-- The messages of a step: each is from an open file, and marked if that file is in a
session. -/
theorem step_sent (h : InSession s) (ok : KeepsSession feat s a)
    (hstep : step ids feat s a = some t) :
    s.drv.log ⊆ t.drv.log ∧ ∃ new, t.sent = s.sent ++ new ∧ ∀ m ∈ new,
      ∃ x, s.drv.files m.file = some x ∧ (x.sessionid = true → Marked m.hdr) := by
  have silent : ∀ u : State, u.sent = s.sent → ∃ new, u.sent = s.sent ++ new ∧ ∀ m ∈ new,
      ∃ x, s.drv.files m.file = some x ∧ (x.sessionid = true → Marked m.hdr) :=
    fun u hu => ⟨[], by rw [hu, List.append_nil], fun m hm => by cases hm⟩
  have posted : ∀ u f x out hdr, u.sent = s.sent → s.drv.files f = some x →
      (out = .sent → x.sessionid = true → Marked hdr) →
      ∃ new, (State.post u f out hdr).sent = s.sent ++ new ∧ ∀ m ∈ new,
        ∃ x, s.drv.files m.file = some x ∧ (x.sessionid = true → Marked m.hdr) := by
    intro u f x out hdr hu hx hmarked
    unfold State.post
    split_ifs with hout
    · refine ⟨[⟨f, hdr⟩], by rw [hu], fun m hm => ?_⟩
      obtain rfl := List.mem_singleton.mp hm
      exact ⟨x, hx, hmarked hout⟩
    · exact silent u hu
  cases a with
  | openFile minor cur =>
    obtain rfl := Option.some.inj hstep
    exact ⟨List.Subset.refl _, silent _ rfl⟩
  | control f cur c =>
    simp only [step] at hstep
    split at hstep
    · cases hstep
    rename_i kind
    obtain ⟨x, hx, rfl⟩ := Option.map_eq_some_iff.mp hstep
    refine ⟨(ioctl_log ids s.drv f cur x (by simpa using kind)).1, _, rfl, fun m hm => ?_⟩
    obtain ⟨hdr, hhdr, rfl⟩ := List.mem_map.mp hm
    obtain rfl := ioctlSent_cmd hhdr
    exact ⟨x, hx, fun session => sessionHdr_marked _ _ cur session (h.bit f x hx session)⟩
  | initBegin f cur uproc out =>
    obtain ⟨x, hx, rfl⟩ := Option.map_eq_some_iff.mp hstep
    have same := initBegin_sender s.drv.channel uproc x
    dsimp only
    split
    · refine ⟨List.subset_append_left _ _, _, rfl, fun m hm => ?_⟩
      obtain rfl := List.mem_singleton.mp hm
      refine ⟨x, hx, fun session => sessionHdr_marked _ _ cur (same.sessionid.trans session) ?_⟩
      rw [same.tgid]
      exact h.bit f x hx session
    · exact ⟨List.subset_append_left _ _, silent _ rfl⟩
  | initEnd f own result cid =>
    simp only [step] at hstep
    split at hstep
    · obtain ⟨x, hx, rfl⟩ := Option.map_eq_some_iff.mp hstep
      exact ⟨List.subset_append_left _ _, silent _ rfl⟩
    · cases hstep
  | strayAnswer f result cid =>
    simp only [step] at hstep
    split at hstep
    · obtain rfl := Option.some.inj hstep
      exact ⟨List.Subset.refl _, silent _ rfl⟩
    · cases hstep
  | command f cur cmd out =>
    obtain ⟨x, hx, rfl⟩ := Option.map_eq_some_iff.mp hstep
    split
    · rename_i hacc
      refine ⟨?_, posted s f x out _ rfl hx fun hout session => ?_⟩
      · unfold State.post
        split_ifs <;> exact List.Subset.refl _
      · obtain ⟨hmap, hunmap⟩ := ok x hx session hacc hout
        exact hdr_marked cur session (h.bit f x hx session) hmap hunmap
    · exact ⟨List.Subset.refl _, silent s rfl⟩
  | invoke2 f cur req out =>
    obtain ⟨x, hx, rfl⟩ := Option.map_eq_some_iff.mp hstep
    dsimp only
    split
    · refine ⟨?_, posted _ f x out _ rfl hx fun _ session => ?_⟩
      · unfold State.post
        split_ifs <;> exact List.Subset.refl _
      · exact sessionHdr_marked _ _ cur session (h.bit f x hx session)
    · exact ⟨List.Subset.refl _, silent _ rfl⟩
  | release f cur out =>
    simp only [step] at hstep
    split at hstep
    · cases hstep
    · obtain ⟨x, hx, rfl⟩ := Option.map_eq_some_iff.mp hstep
      refine ⟨List.Subset.refl _, _, rfl, fun m hm => ?_⟩
      unfold closeSent at hm
      split_ifs at hm
      · obtain rfl := List.mem_singleton.mp hm
        exact ⟨x, hx, fun session => sessionHdr_marked _ _ cur session (h.bit f x hx session)⟩
      · cases hm

/-- A state reached after the session of `f` began, and what `f` sent since. -/
structure Since (s : State) (f : FileId) (t : State) : Prop where
  inSession : InSession t
  begun : ∃ caller opener, Event.session f caller opener ∈ t.drv.log
  sent : ∃ new, t.sent = s.sent ++ new ∧ ∀ m ∈ new, m.file = f → Marked m.hdr

theorem step_since {u : State} {f : FileId} (h : Since u f s) (ok : KeepsSession feat s a)
    (hstep : step ids feat s a = some t) : Since u f t := by
  obtain ⟨inSession, ⟨caller, opener, hlog⟩, old, hold, hmarked⟩ := h
  obtain ⟨grows, new, hnew, hfiles⟩ := step_sent inSession ok hstep
  refine ⟨step_inSession inSession ok hstep, ⟨caller, opener, grows hlog⟩, old ++ new, ?_, ?_⟩
  · rw [hnew, hold, List.append_assoc]
  · intro m hm hfile
    rcases List.mem_append.mp hm with hm | hm
    · exact hmarked m hm hfile
    · obtain ⟨x, hx, marked⟩ := hfiles m hm
      rw [hfile] at hx
      exact marked (inSession.entered f x hx caller opener hlog)

end runs

/-- A bound file enters a session. -/
def sessionRun : List Action :=
  [.openFile .dev ⟨100, 100⟩, .control 0 ⟨100, 100⟩ (.getInfo (some 3) ⟨true, true⟩),
    .control 0 ⟨100, 100⟩ (.setmode .session)]

/-- INIT, INVOKE, and the end of the session. -/
def sessionUse : List Action :=
  [.initBegin 0 ⟨101, 100⟩ unsignedInit .sent, .initEnd 0 true 0 7,
    .command 0 ⟨101, 100⟩ .cmdInvoke .sent, .release 0 ⟨101, 100⟩ .sent]

theorem sessionRun_keeps : Along (step headerIds allFeatures) (KeepsSession allFeatures)
    (.probed headerIds 4 false zeroMemory) sessionRun := by
  refine along_cons trivial rfl (along_cons (fun x hx => ?_) rfl (along_cons trivial rfl trivial))
  obtain rfl := Option.some.inj hx
  rfl

end SessionHeaders
