import PlatformKernel.FileContexts
import PlatformKernel.FileRelease

/-!
# Contexts on their lists

A context is put on `clst.pending` by `context_alloc`, moves to `clst.interrupted` when
its thread is interrupted and back when the call is restarted, and is freed by its
thread, by the reader of its response or by the release of the file. That a thread has one
saved context at most follows from what its next call does: it resumes that context or
is refused. So each thread is tracked with the context it is working on.
-/

namespace ContextLists

open GuardedRuns DrainLoops FileMaps FileOperations FileLists FileContexts FileRelease

/-- `busy` is the call of `vfastrpc_internal_invoke` a thread is in. -/
structure State where
  file : File
  busy : Tid → Option CtxId
  closed : Bool

def State.opened : State := ⟨File.opened, fun _ => none, false⟩

/-- `vfastrpc_context_list_dtor`. -/
def vfastrpcContextListDtor (s : File) : Option File :=
  (drain nextInterrupted (s.interrupted.length + 1) s).bind fun s =>
    drain nextPending (s.pending.length + 1) s

inductive Action where
  | file (a : FileOperations.Action)
  | close

/-- The call a thread is in after a step: it is in with a new or a resumed context, and out
after the send of an asynchronous job, a signal, or `context_free`. -/
def busyAfter (s : State) : FileOperations.Action → Tid → Option CtxId
  | .invoke pid sc _ =>
    match savedOf s.file pid with
    | some c => if (s.file.ctxs c).sc = sc then Function.update s.busy pid (some c) else s.busy
    | none => Function.update s.busy pid (some s.file.nextCtx)
  | .send c ok =>
    if ok ∧ (s.file.ctxs c).isAsync then Function.update s.busy (s.file.ctxs c).pid none
    else s.busy
  | .interrupt c => Function.update s.busy (s.file.ctxs c).pid none
  | .contextFree c =>
    if s.busy (s.file.ctxs c).pid = some c then Function.update s.busy (s.file.ctxs c).pid none
    else s.busy
  | _ => s.busy

/-- A thread makes one call at a time. -/
def free (s : State) : FileOperations.Action → Bool
  | .invoke pid _ _ => (s.busy pid).isNone
  | _ => true

/-- The file is released when no call is running: what is pending are asynchronous jobs
that nobody waits for. -/
def step (k : Uapi) (s : State) : Action → Option State
  | .file a =>
    if s.closed = false ∧ free s a then
      (FileOperations.step k s.file a).map fun t => ⟨t, busyAfter s a, false⟩
    else none
  | .close =>
    if s.closed = false ∧ s.file.pending.all fun c => (s.file.ctxs c).stage = .queued then
      (vfastrpcContextListDtor s.file).map fun t => ⟨t, fun _ => none, true⟩
    else none

structure Threads (s : File) (busy : Tid → Option CtxId) : Prop where
  sync : ∀ c ∈ s.pending ++ s.interrupted, (s.ctxs c).stage = .waiting → (s.ctxs c).isAsync = false
  saved : ∀ c ∈ s.interrupted, (s.ctxs c).stage = .waiting
  single : ∀ c ∈ s.interrupted, ∀ d ∈ s.interrupted, (s.ctxs c).pid = (s.ctxs d).pid → c = d
  inside : ∀ pid c, busy pid = some c → c ∈ s.pending ∧ (s.ctxs c).pid = pid
  active : ∀ c ∈ s.pending, (s.ctxs c).stage = .building ∨ (s.ctxs c).stage = .waiting →
    busy (s.ctxs c).pid = some c
  apart : ∀ pid c, busy pid = some c → ∀ d ∈ s.interrupted, (s.ctxs d).pid ≠ pid

structure Kept (s : State) : Prop where
  places : PlacesOk s.file
  covers : ∀ c < s.file.nextCtx, c ∈ allCtxs s.file
  threads : Threads s.file s.busy
  emptied : s.closed = true → s.file.pending = [] ∧ s.file.interrupted = []

theorem opened_kept : Kept State.opened where
  places := opened_listsOk.places
  covers := fun c hc => False.elim (Nat.not_lt_zero c hc)
  threads := ⟨(fun c hc => by cases hc), (fun c hc => by cases hc), (fun c hc => by cases hc),
    (fun pid c hc => by cases hc), (fun c hc => by cases hc), (fun pid c hc => by cases hc)⟩
  emptied := fun h => by cases h

section steps

variable {s t u : File} {busy : Tid → Option CtxId}

theorem threads_same (h : Threads u busy) (same : SameContexts u t) : Threads t busy := by
  obtain ⟨sync, saved, single, inside, active, apart⟩ := h
  constructor
  · rw [same.pending, same.interrupted, same.ctxs]; exact sync
  · rw [same.interrupted, same.ctxs]; exact saved
  · rw [same.interrupted, same.ctxs]; exact single
  · rw [same.pending, same.ctxs]; exact inside
  · rw [same.pending, same.ctxs]; exact active
  · rw [same.interrupted, same.ctxs]; exact apart

theorem covers_same (h : ∀ c < u.nextCtx, c ∈ allCtxs u) (same : SameContexts u t) :
    ∀ c < t.nextCtx, c ∈ allCtxs t := by
  unfold allCtxs at h ⊢
  rw [same.next, same.pending, same.interrupted, same.freed]
  exact h

/-- The saved context of a thread is on the list, and it is of this thread. -/
theorem savedOf_some {pid : Tid} {c : CtxId} (h : savedOf s pid = some c) :
    c ∈ s.interrupted ∧ (s.ctxs c).pid = pid := by
  refine ⟨List.mem_of_find?_eq_some h, ?_⟩
  have found := List.find?_some h
  simpa using found

theorem savedOf_none {pid : Tid} (h : savedOf s pid = none) :
    ∀ d ∈ s.interrupted, (s.ctxs d).pid ≠ pid := fun d hd => by
  have other := List.find?_eq_none.mp h d hd
  simpa using other

theorem ctxs_setCtx (s : File) (c v : CtxId) (ctx : InvokeCtx) :
    (s.setCtx c ctx).ctxs v = if v = c then ctx else s.ctxs v := by
  simp only [File.setCtx, Function.update_apply]

/-- The threads that are busy stay so when an idle one gets a context. -/
theorem active_update {pid : Tid} {c d : CtxId} (h : Threads s busy) (idle : busy pid = none)
    (hd : d ∈ s.pending) (ha : (s.ctxs d).stage = .building ∨ (s.ctxs d).stage = .waiting) :
    Function.update busy pid (some c) (s.ctxs d).pid = some d := by
  have hb := h.active d hd ha
  rw [Function.update_of_ne, hb]
  rintro hp
  rw [hp, idle] at hb
  cases hb

/-- `context_alloc` for a thread without a saved context. -/
theorem threads_begins {pid : Tid} {ctx : InvokeCtx} (h : Threads s busy)
    (known : ∀ c ∈ s.pending ++ s.interrupted, c < s.nextCtx) (idle : busy pid = none)
    (fresh : savedOf s pid = none) (hpid : ctx.pid = pid) (building : ctx.stage = .building) :
    Threads { s.setCtx s.nextCtx ctx with
        pending := s.nextCtx :: s.pending
        nextCtx := s.nextCtx + 1 } (Function.update busy pid (some s.nextCtx)) := by
  have old : ∀ c ∈ s.pending ++ s.interrupted, (s.setCtx s.nextCtx ctx).ctxs c = s.ctxs c :=
    fun c hc => by rw [ctxs_setCtx, if_neg (Nat.ne_of_lt (known c hc))]
  have new : (s.setCtx s.nextCtx ctx).ctxs s.nextCtx = ctx := by rw [ctxs_setCtx, if_pos rfl]
  have saved : ∀ c ∈ s.interrupted, (s.setCtx s.nextCtx ctx).ctxs c = s.ctxs c :=
    fun c hc => old c (List.mem_append_right _ hc)
  have listed : ∀ c ∈ s.pending, (s.setCtx s.nextCtx ctx).ctxs c = s.ctxs c :=
    fun c hc => old c (List.mem_append_left _ hc)
  constructor
  · intro c hc hw
    rcases List.mem_cons.mp hc with rfl | hc
    · rw [new, building] at hw
      cases hw
    · rw [old c hc] at hw ⊢
      exact h.sync c hc hw
  · intro c hc
    rw [saved c hc]
    exact h.saved c hc
  · intro c hc d hd hp
    rw [saved c hc, saved d hd] at hp
    exact h.single c hc d hd hp
  · intro q c hq
    rw [Function.update_apply] at hq
    split_ifs at hq with hqp
    · obtain rfl := Option.some.inj hq
      exact ⟨List.mem_cons_self, by rw [new, hqp, hpid]⟩
    · obtain ⟨hc, hp⟩ := h.inside q c hq
      exact ⟨List.mem_cons_of_mem _ hc, by rw [listed c hc]; exact hp⟩
  · intro c hc ha
    rcases List.mem_cons.mp hc with rfl | hc
    · rw [new, hpid, Function.update_self]
    · rw [listed c hc] at ha ⊢
      exact active_update h idle hc ha
  · intro q c hq d hd
    rw [saved d hd]
    rw [Function.update_apply] at hq
    split_ifs at hq with hqp
    · exact hqp ▸ savedOf_none fresh d hd
    · exact h.apart q c hq d hd

/-- `context_restore_interrupted`. -/
theorem threads_resumes {pid : Tid} {c : CtxId} (h : Threads s busy)
    (nodup : (s.pending ++ s.interrupted).Nodup) (idle : busy pid = none)
    (hsaved : savedOf s pid = some c) :
    Threads { s.setCtx c { s.ctxs c with stage := .waiting } with
        interrupted := s.interrupted.erase c
        pending := c :: s.pending } (Function.update busy pid (some c)) := by
  obtain ⟨hc, hpid⟩ := savedOf_some hsaved
  have stage : (s.ctxs c).stage = .waiting := h.saved c hc
  -- The context was waiting when it was saved.
  have same : s.setCtx c { s.ctxs c with stage := .waiting } = s := by
    rw [← stage]
    exact congrArg (fun ctxs => { s with ctxs := ctxs }) (Function.update_eq_self c s.ctxs)
  rw [same]
  have inodup := (List.nodup_append.mp nodup).2.1
  have erased : ∀ d, d ∈ s.interrupted.erase c ↔ d ≠ c ∧ d ∈ s.interrupted := fun d =>
    inodup.mem_erase_iff
  constructor
  · intro d hd hw
    refine h.sync d ?_ hw
    rcases List.mem_append.mp hd with hd | hd
    · rcases List.mem_cons.mp hd with rfl | hd
      · exact List.mem_append_right _ hc
      · exact List.mem_append_left _ hd
    · exact List.mem_append_right _ ((erased d).mp hd).2
  · exact fun d hd => h.saved d ((erased d).mp hd).2
  · exact fun d hd e he => h.single d ((erased d).mp hd).2 e ((erased e).mp he).2
  · intro q d hq
    rw [Function.update_apply] at hq
    split_ifs at hq with hqp
    · obtain rfl := Option.some.inj hq
      exact ⟨List.mem_cons_self, hqp ▸ hpid⟩
    · obtain ⟨hd, hp⟩ := h.inside q d hq
      exact ⟨List.mem_cons_of_mem _ hd, hp⟩
  · intro d hd ha
    rcases List.mem_cons.mp hd with rfl | hd
    · change Function.update busy pid (some d) (s.ctxs d).pid = some d
      rw [hpid, Function.update_self]
    · exact active_update (s := s) h idle hd ha
  · intro q d hq e he
    obtain ⟨hne, hold⟩ := (erased e).mp he
    rw [Function.update_apply] at hq
    split_ifs at hq with hqp
    · exact fun hp => hne (h.single e hold c hc (hp.trans (hqp.trans hpid.symm)))
    · exact h.apart q d hq e hold

/-- `context_save_interrupted`. -/
theorem threads_interrupts {c : CtxId} (h : Threads s busy)
    (nodup : (s.pending ++ s.interrupted).Nodup) (hc : c ∈ s.pending)
    (waiting : (s.ctxs c).stage = .waiting) :
    Threads { s with pending := s.pending.erase c, interrupted := c :: s.interrupted }
      (Function.update busy (s.ctxs c).pid none) := by
  have hbusy := h.active c hc (Or.inr waiting)
  have erased : ∀ d, d ∈ s.pending.erase c ↔ d ≠ c ∧ d ∈ s.pending := fun d =>
    (List.nodup_append.mp nodup).1.mem_erase_iff
  constructor
  · intro d hd hw
    refine h.sync d ?_ hw
    rcases List.mem_append.mp hd with hd | hd
    · exact List.mem_append_left _ ((erased d).mp hd).2
    · rcases List.mem_cons.mp hd with rfl | hd
      · exact List.mem_append_left _ hc
      · exact List.mem_append_right _ hd
  · intro d hd
    rcases List.mem_cons.mp hd with rfl | hd
    · exact waiting
    · exact h.saved d hd
  · intro d hd e he hp
    rcases List.mem_cons.mp hd with rfl | hd'
    · rcases List.mem_cons.mp he with rfl | he'
      · rfl
      · exact False.elim (h.apart _ d hbusy e he' hp.symm)
    · rcases List.mem_cons.mp he with rfl | he'
      · exact False.elim (h.apart _ e hbusy d hd' hp)
      · exact h.single d hd' e he' hp
  · intro q d hq
    rw [Function.update_apply] at hq
    split_ifs at hq with hqp
    obtain ⟨hd, hp⟩ := h.inside q d hq
    refine ⟨(erased d).mpr ⟨?_, hd⟩, hp⟩
    rintro rfl
    exact hqp hp.symm
  · intro d hd ha
    obtain ⟨hne, hold⟩ := (erased d).mp hd
    have hb := h.active d hold ha
    change Function.update busy (s.ctxs c).pid none (s.ctxs d).pid = some d
    rw [Function.update_of_ne, hb]
    intro hp
    rw [hp] at hb
    exact hne (Option.some.inj (hb.symm.trans hbusy))
  · intro q d hq e he
    rw [Function.update_apply] at hq
    split_ifs at hq with hqp
    rcases List.mem_cons.mp he with rfl | he
    · exact fun hp => hqp hp.symm
    · exact h.apart q d hq e he

/-- A step of a context's own: a thread that is out has no context that is being built or
waited for. -/
theorem threads_edits {c : CtxId} {ctx : InvokeCtx} {busy' : Tid → Option CtxId}
    (h : Threads s busy) (nodup : (s.pending ++ s.interrupted).Nodup) (hc : c ∈ s.pending)
    (hpid : ctx.pid = (s.ctxs c).pid)
    (hsync : ctx.stage = .waiting → ctx.isAsync = false)
    (hbusy : ∀ pid d, busy' pid = some d → busy pid = some d)
    (hother : ∀ pid d, d ≠ c → busy pid = some d → busy' pid = some d)
    (hactive : ctx.stage = .building ∨ ctx.stage = .waiting →
      busy' (s.ctxs c).pid = some c) :
    Threads (s.setCtx c ctx) busy' := by
  have hapart : c ∉ s.interrupted := fun hi =>
    (List.nodup_append.mp nodup).2.2 c hc c hi rfl
  have other : ∀ d, d ≠ c → (s.setCtx c ctx).ctxs d = s.ctxs d := fun d hd => by
    rw [ctxs_setCtx, if_neg hd]
  have saved : ∀ d ∈ s.interrupted, (s.setCtx c ctx).ctxs d = s.ctxs d := fun d hd => by
    refine other d ?_
    rintro rfl
    exact hapart hd
  have self : (s.setCtx c ctx).ctxs c = ctx := by rw [ctxs_setCtx, if_pos rfl]
  have pid : ∀ d, ((s.setCtx c ctx).ctxs d).pid = (s.ctxs d).pid := fun d => by
    rw [ctxs_setCtx]
    split_ifs with hd
    · rw [hpid, hd]
    · rfl
  constructor
  · intro d hd hw
    by_cases hdc : d = c
    · subst hdc
      rw [self] at hw ⊢
      exact hsync hw
    · rw [other d hdc] at hw ⊢
      exact h.sync d hd hw
  · intro d hd
    rw [saved d hd]
    exact h.saved d hd
  · intro d hd e he hp
    rw [pid, pid] at hp
    exact h.single d hd e he hp
  · intro q d hq
    rw [pid]
    exact h.inside q d (hbusy q d hq)
  · intro d hd ha
    rw [pid]
    by_cases hdc : d = c
    · subst hdc
      rw [self] at ha
      exact hactive ha
    · rw [other d hdc] at ha
      exact hother _ d hdc (h.active d hd ha)
  · intro q d hq e he
    rw [pid]
    exact h.apart q d (hbusy q d hq) e he

/-- `context_free`. -/
theorem threads_frees {c : CtxId} {busy' : Tid → Option CtxId} {freed : List CtxId}
    (h : Threads s busy) (nodup : (s.pending ++ s.interrupted).Nodup)
    (hbusy : ∀ pid d, busy' pid = some d ↔ d ≠ c ∧ busy pid = some d) :
    Threads { s with
      pending := s.pending.erase c
      interrupted := s.interrupted.erase c
      freedCtxs := freed } busy' := by
  have erased : ∀ d, d ∈ s.pending.erase c ↔ d ≠ c ∧ d ∈ s.pending := fun d =>
    (List.nodup_append.mp nodup).1.mem_erase_iff
  have saved : ∀ d ∈ s.interrupted.erase c, d ∈ s.interrupted := fun _ => List.mem_of_mem_erase
  constructor
  · intro d hd hw
    refine h.sync d ?_ hw
    rcases List.mem_append.mp hd with hd | hd
    · exact List.mem_append_left _ ((erased d).mp hd).2
    · exact List.mem_append_right _ (saved d hd)
  · exact fun d hd => h.saved d (saved d hd)
  · exact fun d hd e he => h.single d (saved d hd) e (saved e he)
  · intro q d hq
    obtain ⟨hne, hold⟩ := (hbusy q d).mp hq
    obtain ⟨hd, hp⟩ := h.inside q d hold
    exact ⟨(erased d).mpr ⟨hne, hd⟩, hp⟩
  · intro d hd ha
    obtain ⟨hne, hold⟩ := (erased d).mp hd
    exact (hbusy _ d).mpr ⟨hne, h.active d hold ha⟩
  · intro q d hq e he
    exact h.apart q d ((hbusy q d).mp hq).2 e (saved e he)

theorem stageMoves_active {ctx : InvokeCtx} {a : FileOperations.Action} {stage : Stage}
    (moves : StageMoves ctx a stage) (active : stage = .building ∨ stage = .waiting) :
    ctx.stage = .building ∨ ctx.stage = .waiting := by
  cases moves with
  | same stays => exact active
  | sends building action => exact Or.inl building
  | fails building unsent => simp at active
  | wakes waiting action => simp at active
  | taken queued action => simp at active

theorem stageMoves_sync {ctx : InvokeCtx} {a : FileOperations.Action} {stage : Stage}
    (moves : StageMoves ctx a stage) (sync : ctx.stage = .waiting → ctx.isAsync = false)
    (waiting : stage = .waiting) : ctx.isAsync = false := by
  cases moves with
  | same stays => exact sync waiting
  | sends building action =>
    cases hasync : ctx.isAsync with
    | false => rfl
    | true => simp [hasync] at waiting
  | fails building unsent => cases waiting
  | wakes w action => cases waiting
  | taken queued action => cases waiting

/-- After the send of an asynchronous job its thread is out. -/
theorem sends_queued {ctx : InvokeCtx} {c : CtxId} {stage : Stage} (hasync : ctx.isAsync = true)
    (moves : StageMoves ctx (.send c true) stage) :
    ctx.stage = .building ∧ stage = .queued := by
  cases moves with
  | same stays => cases stays
  | sends building action => exact ⟨building, if_pos hasync⟩
  | fails building unsent => exact False.elim (unsent c rfl)
  | wakes waiting action => cases action
  | taken queued action => cases action

theorem edits_threads {s : State} {a : FileOperations.Action} {c : CtxId} {ctx : InvokeCtx}
    (h : Threads s.file s.busy) (nodup : (s.file.pending ++ s.file.interrupted).Nodup)
    (own : a.ctx = some c) (listed : unlists a = false) (pending : c ∈ s.file.pending)
    (edit : Edit a (s.file.ctxs c) ctx) : Threads (s.file.setCtx c ctx) (busyAfter s a) := by
  have sync : ctx.stage = .waiting → ctx.isAsync = false := fun hw => by
    rw [edit.isAsync]
    exact stageMoves_sync edit.stage (h.sync c (List.mem_append_left _ pending)) hw
  have plain : Threads (s.file.setCtx c ctx) s.busy :=
    threads_edits h nodup pending edit.pid sync (fun _ _ hb => hb) (fun _ _ _ hb => hb)
      fun ha => h.active c pending (stageMoves_active edit.stage ha)
  cases a with
  | send v ok =>
    obtain rfl := Option.some.inj own
    simp only [busyAfter]
    split_ifs with hout
    · obtain ⟨rfl, hasync⟩ := hout
      obtain ⟨building, queued⟩ := sends_queued hasync edit.stage
      have hbusy := h.active v pending (Or.inl building)
      refine threads_edits h nodup pending edit.pid sync (fun q d hq => ?_) (fun q d hd hq => ?_)
        fun ha => ?_
      · rw [Function.update_apply] at hq
        split_ifs at hq
        exact hq
      · rw [Function.update_of_ne]
        · exact hq
        · rintro rfl
          exact hd (Option.some.inj (hq.symm.trans hbusy))
      · rw [queued] at ha
        simp at ha
    · exact plain
  | interrupt v => cases listed
  | contextFree v => cases listed
  | _ => first | exact plain | cases own

theorem frees_busy {s : State} {c : CtxId} (h : Threads s.file s.busy) (pid : Tid) (d : CtxId) :
    busyAfter s (.contextFree c) pid = some d ↔ d ≠ c ∧ s.busy pid = some d := by
  simp only [busyAfter]
  constructor
  · intro hq
    split_ifs at hq with hb
    · rw [Function.update_apply] at hq
      split_ifs at hq with hp
      refine ⟨?_, hq⟩
      rintro rfl
      exact hp (h.inside pid d hq).2.symm
    · refine ⟨?_, hq⟩
      rintro rfl
      exact hb ((h.inside pid d hq).2 ▸ hq)
  · rintro ⟨hne, hq⟩
    split_ifs with hb
    · rw [Function.update_of_ne]
      · exact hq
      · rintro rfl
        exact hne (Option.some.inj (hq.symm.trans hb))
    · exact hq

theorem mem_or_erase (c : CtxId) {d : CtxId} {l : List CtxId} (hd : d ∈ l) :
    d = c ∨ d ∈ l.erase c := by
  by_cases hdc : d = c
  · exact Or.inl hdc
  · exact Or.inr ((List.mem_erase_of_ne hdc).mpr hd)

theorem mem_allCtxs {c : CtxId} :
    c ∈ allCtxs s ↔ c ∈ s.pending ∨ c ∈ s.interrupted ∨ c ∈ s.freedCtxs := by
  simp [allCtxs]

/-- A context that leaves a list is on another one or freed. -/
theorem contextMoves_covers {a : FileOperations.Action} (covers : ∀ c < s.nextCtx, c ∈ allCtxs s)
    (moves : ContextMoves s a u) : ∀ c < u.nextCtx, c ∈ allCtxs u := by
  cases moves with
  | aside other => exact covers
  | refused saved differs => exact covers
  | edits own unlisted pending edit => exact covers
  | begins fresh =>
    intro c hc
    by_cases hnew : c = s.nextCtx
    · rw [hnew]
      exact List.mem_cons_self
    · exact List.mem_cons_of_mem _ (covers c (Nat.lt_of_le_of_ne (Nat.le_of_lt_succ hc) hnew))
  | resumes saved same =>
    rename_i pid sc isAsync c
    intro d hd
    refine mem_allCtxs.mpr ?_
    rcases mem_allCtxs.mp (covers d hd) with hp | hi | hf
    · exact Or.inl (List.mem_cons_of_mem _ hp)
    · rcases mem_or_erase c hi with rfl | hi
      · exact Or.inl List.mem_cons_self
      · exact Or.inr (Or.inl hi)
    · exact Or.inr (Or.inr hf)
  | interrupts pending waiting =>
    rename_i c
    intro d hd
    refine mem_allCtxs.mpr ?_
    rcases mem_allCtxs.mp (covers d hd) with hp | hi | hf
    · rcases mem_or_erase c hp with rfl | hp
      · exact Or.inr (Or.inl List.mem_cons_self)
      · exact Or.inl hp
    · exact Or.inr (Or.inl (List.mem_cons_of_mem _ hi))
    · exact Or.inr (Or.inr hf)
  | frees pending ending =>
    rename_i c
    intro d hd
    refine mem_allCtxs.mpr ?_
    rcases mem_allCtxs.mp (covers d hd) with hp | hi | hf
    · rcases mem_or_erase c hp with rfl | hp
      · exact Or.inr (Or.inr List.mem_cons_self)
      · exact Or.inl hp
    · rcases mem_or_erase c hi with rfl | hi
      · exact Or.inr (Or.inr List.mem_cons_self)
      · exact Or.inr (Or.inl hi)
    · exact Or.inr (Or.inr (List.mem_cons_of_mem _ hf))

theorem contextMoves_threads {s : State} {a : FileOperations.Action} (h : Kept s)
    (ok : free s a = true) (moves : ContextMoves s.file a u) : Threads u (busyAfter s a) := by
  have nodup := (List.nodup_append.mp h.places.ctxs.nodup).1
  have listed : ∀ c ∈ s.file.pending ++ s.file.interrupted, c < s.file.nextCtx := fun c hc =>
    h.places.ctxs.known c (List.mem_append_left _ hc)
  cases moves with
  | aside other =>
    have same : busyAfter s a = s.busy := by cases a <;> first | rfl | cases other
    exact same ▸ h.threads
  | refused saved differs =>
    rename_i pid sc isAsync c
    have same : busyAfter s (.invoke pid sc isAsync) = s.busy := by
      simp only [busyAfter, saved, if_neg differs]
    exact same ▸ h.threads
  | begins fresh =>
    have idle := Option.isNone_iff_eq_none.mp ok
    simp only [busyAfter, fresh]
    exact threads_begins h.threads listed idle fresh rfl rfl
  | resumes saved same =>
    have idle := Option.isNone_iff_eq_none.mp ok
    simp only [busyAfter, saved, if_pos same]
    exact threads_resumes h.threads nodup idle saved
  | edits own unlisted pending edit =>
    exact edits_threads h.threads nodup own unlisted pending edit
  | interrupts pending waiting => exact threads_interrupts h.threads nodup pending waiting
  | frees pending ending => exact threads_frees h.threads nodup (frees_busy h.threads)

theorem file_kept {k : Uapi} {s : State} {a : FileOperations.Action} (h : Kept s)
    (ok : free s a = true) (hstep : FileOperations.step k s.file a = some t) :
    Kept ⟨t, busyAfter s a, false⟩ := by
  obtain ⟨u, moves, same⟩ := step_contexts hstep
  exact ⟨step_placesOk h.places hstep, covers_same (contextMoves_covers h.covers moves) same,
    threads_same (contextMoves_threads h ok moves) same, fun hc => by cases hc⟩

/-- What the loops over the lists keep. -/
structure Drained (s t : File) : Prop where
  places : PlacesOk t
  ctxs : (allCtxs t).Perm (allCtxs s)
  next : t.nextCtx = s.nextCtx

theorem contextDrop_drained {c : CtxId} {p i : List CtxId} (h : Drained s t)
    (perm : (t.pending ++ t.interrupted).Perm (c :: (p ++ i))) :
    Drained s (contextDrop { t with pending := p, interrupted := i } c) ∧
      (contextDrop { t with pending := p, interrupted := i } c).pending = p ∧
      (contextDrop { t with pending := p, interrupted := i } c).interrupted = i := by
  obtain ⟨places, ctxs, -⟩ := contextDrop_places h.places perm
  refine ⟨⟨places, ctxs.trans h.ctxs, ?_⟩, ?_, ?_⟩ <;>
    obtain ⟨_, _, _, _, _, _, hdrop⟩ :=
      FileMoves.contextDrop_frame { t with pending := p, interrupted := i } c <;>
    rw [hdrop]
  exact h.next

theorem nextInterrupted_drained (h : Drained s t) (next : nextInterrupted t = some u) :
    Drained s u ∧ u.interrupted.length < t.interrupted.length := by
  obtain ⟨c, p, i, perm, shorter, rfl⟩ := nextInterrupted_drops h.places next
  obtain ⟨drained, -, hi⟩ := contextDrop_drained h perm
  exact ⟨drained, by rwa [hi]⟩

theorem nextPending_drained (h : Drained s t) (empty : t.interrupted = [])
    (next : nextPending t = some u) :
    (Drained s u ∧ u.interrupted = []) ∧ u.pending.length < t.pending.length := by
  obtain ⟨c, p, perm, shorter, rfl⟩ := nextPending_drops h.places empty next
  obtain ⟨drained, hp, hi⟩ := contextDrop_drained h perm
  exact ⟨⟨drained, hi⟩, by rwa [hp]⟩

theorem nextInterrupted_none (done : nextInterrupted s = none) : s.interrupted = [] := by
  unfold nextInterrupted at done
  split at done
  · assumption
  · cases done

theorem nextPending_none (done : nextPending s = none) : s.pending = [] := by
  unfold nextPending at done
  split at done
  · assumption
  · cases done

/-- `vfastrpc_context_list_dtor` ends, and every context that was on a list is freed. -/
theorem dtor_drains (h : PlacesOk s) :
    ∃ t, vfastrpcContextListDtor s = some t ∧ Drained s t ∧ t.interrupted = [] ∧
      t.pending = [] := by
  obtain ⟨t, ends, drained, done⟩ := drain_ends (Drained s)
    (fun t => t.interrupted.length) (fun _ _ => nextInterrupted_drained)
    ⟨h, List.Perm.refl _, rfl⟩
  have round : ∀ u v, Drained s u ∧ u.interrupted = [] → nextPending u = some v →
      (Drained s v ∧ v.interrupted = []) ∧ v.pending.length < u.pending.length :=
    fun _ _ hu => nextPending_drained hu.1 hu.2
  obtain ⟨u, ends', inv, done'⟩ := drain_ends (fun u => Drained s u ∧ u.interrupted = [])
    (fun u => u.pending.length) round ⟨drained, nextInterrupted_none done⟩
  refine ⟨u, ?_, inv.1, inv.2, nextPending_none done'⟩
  rw [vfastrpcContextListDtor, ends _ (Nat.lt_succ_self _), Option.bind_some,
    ends' _ (Nat.lt_succ_self _)]

theorem close_kept {s : State} (h : Kept s) (hdtor : vfastrpcContextListDtor s.file = some t) :
    Kept ⟨t, fun _ => none, true⟩ := by
  obtain ⟨u, hu, drained, hi, hp⟩ := dtor_drains h.places
  obtain rfl := Option.some.inj (hu.symm.trans hdtor)
  refine ⟨drained.places, fun c hc => drained.ctxs.mem_iff.mpr (h.covers c (drained.next ▸ hc)),
    ?_, fun _ => ⟨hp, hi⟩⟩
  have none : ∀ c, c ∉ u.pending ++ u.interrupted := fun c hc => by
    rw [hp, hi] at hc
    cases hc
  have unsaved : ∀ c, c ∉ u.interrupted := fun c hc => none c (List.mem_append_right _ hc)
  exact ⟨fun c hc => False.elim (none c hc), fun c hc => False.elim (unsaved c hc),
    fun c hc => False.elim (unsaved c hc), (fun pid c hc => by cases hc),
    fun c hc => False.elim (none c (List.mem_append_left _ hc)), fun pid c hc => by cases hc⟩

theorem step_kept {k : Uapi} {s t : State} {a : Action} (h : Kept s)
    (hstep : step k s a = some t) : Kept t := by
  cases a with
  | file a =>
    obtain ⟨⟨-, ok⟩, hmap⟩ := Option.ite_none_right_eq_some.mp hstep
    obtain ⟨u, hfile, rfl⟩ := Option.map_eq_some_iff.mp hmap
    exact file_kept h ok hfile
  | close =>
    obtain ⟨-, hmap⟩ := Option.ite_none_right_eq_some.mp hstep
    obtain ⟨u, hdtor, rfl⟩ := Option.map_eq_some_iff.mp hmap
    exact close_kept h hdtor

end steps

/-- The contexts of a file in one state. Every context that was allocated is on one list
once, or was freed once; after the release of the file it was freed. -/
structure ContextsKept (k : Uapi) (s : State) : Prop where
  one : ∀ c < s.file.nextCtx, s.file.pending.count c + s.file.interrupted.count c +
    s.file.freedCtxs.count c = 1
  synchronous : ∀ c ∈ s.file.interrupted, (s.file.ctxs c).isAsync = false
  onePerPid : ∀ c ∈ s.file.interrupted, ∀ d ∈ s.file.interrupted,
    (s.file.ctxs c).pid = (s.file.ctxs d).pid → c = d
  firstMatch : ∀ pid c, savedOf s.file pid = some c →
    ∀ d ∈ s.file.interrupted, (s.file.ctxs d).pid = pid → d = c
  released : s.closed = true → ∀ c < s.file.nextCtx, s.file.freedCtxs.count c = 1
  ends : s.closed = false → (∀ c ∈ s.file.pending, (s.file.ctxs c).stage = .queued) →
    ∃ t, step k s .close = some t

/-- In every run of calls by any threads, with signals, completions and restarts. -/
theorem contexts_kept (k : Uapi) (as : List Action) (s : State)
    (run : exec (step k) State.opened as = some s) : ContextsKept k s := by
  have h : Kept s := exec_invariant (fun _ _ _ h hs => step_kept h hs) opened_kept run
  have one : ∀ c < s.file.nextCtx, s.file.pending.count c + s.file.interrupted.count c +
      s.file.freedCtxs.count c = 1 := fun c hc => by
    have once := List.count_eq_one_of_mem h.places.ctxs.nodup (h.covers c hc)
    rwa [allCtxs, List.count_append, List.count_append] at once
  refine ⟨one, fun c hc => ?_, h.threads.single, fun pid c saved d hd hp => ?_,
    fun closed c hc => ?_, fun closed queued => ?_⟩
  · exact h.threads.sync c (List.mem_append_right _ hc) (h.threads.saved c hc)
  · obtain ⟨hc, hpid⟩ := savedOf_some saved
    exact h.threads.single d hd c hc (hp.trans hpid.symm)
  · obtain ⟨hp, hi⟩ := h.emptied closed
    simpa [hp, hi] using one c hc
  · obtain ⟨t, hdtor, -⟩ := dtor_drains h.places
    have quiet : s.file.pending.all (fun c => decide ((s.file.ctxs c).stage = .queued)) = true :=
      List.all_eq_true.mpr fun c hc => decide_eq_true (queued c hc)
    exact ⟨_, by rw [step, if_pos ⟨closed, quiet⟩, hdtor, Option.map_some]⟩

open MapReferences (uapi)

/-- Thread 7 is interrupted, restarts its call and ends it, and is interrupted in the next;
thread 8 sends an asynchronous job that is still out when the file is released. -/
def restartedCalls : List Action :=
  [.file (.invoke 7 0 false), .file (.allocMsg 0 true), .file (.send 0 true),
    .file (.invoke 8 0 true), .file (.interrupt 0), .file (.allocMsg 1 true),
    .file (.invoke 7 0 false), .file (.send 1 true), .file (.wake 0), .file (.contextFree 0),
    .file (.invoke 7 0 false), .file (.allocMsg 2 true), .file (.send 2 true),
    .file (.interrupt 2)]

theorem restartedCalls_kept :
    (∃ s, exec (step uapi) State.opened restartedCalls = some s ∧
      (s.file.pending = [1] ∧ s.file.interrupted = [2] ∧ s.file.freedCtxs = [0]) ∧
      ContextsKept uapi s) ∧
    ∃ s, exec (step uapi) State.opened (restartedCalls ++ [.close]) = some s ∧
      s.closed = true ∧ ContextsKept uapi s :=
  ⟨⟨_, rfl, by decide, contexts_kept uapi restartedCalls _ rfl⟩,
    ⟨_, rfl, rfl, contexts_kept uapi (restartedCalls ++ [.close]) _ rfl⟩⟩

end ContextLists
