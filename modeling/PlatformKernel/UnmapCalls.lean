import PlatformKernel.ControlPlane
import PlatformKernel.MapReferences
import PlatformKernel.MapLists

/-!
# Unmapping and the back end

The three calls that unmap, together with their messages. MUNMAP and MEM_UNMAP take one
unused map off the list and then ask the back end. MUNMAP_FD lets go of every `KEEP_MAP`
map of a descriptor, used or not, and then tells the back end; its wait can be
interrupted, and then the message is parked for the next MUNMAP_FD of the same thread.
What a call found at its start, what was sent and what was returned is history.
-/

namespace UnmapCalls

open GuardedRuns FileMaps FileMoves MapLists ReturnCodes
open FileOperations hiding Action step

def keeps (k : Uapi) (fd : Int) (map : VfastrpcMmap) : Bool :=
  map.fd == fd && map.keep k

/-- The `KEEP_MAP` maps of a descriptor. -/
def keptMaps (k : Uapi) (s : Maps) (fd : Int) : List MapId :=
  s.linked.filter fun id => keeps k fd (s.mem id)

/-- What `vfastrpc_mmap_remove_fd` reports as abnormal. -/
abbrev InUse (map : VfastrpcMmap) : Prop := 1 < map.refs ∨ map.ctxRefs ≠ 0

inductive UnmapCmd where
  | munmap
  | memUnmap
  | munmapFd
  deriving DecidableEq

/-- A call that holds `internal_map_mutex`. `err` is the result of
`vfastrpc_mmap_remove_fd`, `start` the `KEEP_MAP` maps of every descriptor when the call,
or the interrupted call it resumes, started, and `chosen` the maps the message is for, as
they were under `map_mutex`. -/
structure Call where
  cmd : UnmapCmd
  fd : Int
  err : Int
  start : Int → List MapId
  chosen : List VfastrpcMmap
  msg : Option MsgId
  sent : Bool

/-- A finished MUNMAP_FD. -/
structure Return where
  call : Call
  ret : Int

/-- `fdOf` is `vmsg->fd` of a message, `start` what the call that sent it had found, and
`unmaps` lists, for every unmap message sent, the maps it was for. -/
structure State where
  file : File
  call : Option Call
  fdOf : MsgId → Int
  start : MsgId → Int → List MapId
  sent : List MsgId
  answer : MsgId → Option UInt32
  unmaps : List (List VfastrpcMmap)
  returned : List Return

def State.opened : State where
  file := File.opened
  call := none
  fdOf := fun _ => 0
  start := fun _ _ => []
  sent := []
  answer := fun _ => none
  unmaps := []
  returned := []

inductive Action where
  | file (a : FileOperations.Action)
  | munmap (vaddrout size : UInt64)
  | memUnmap (fd : Int) (vaddr length : UInt64)
  | finish (ok : Bool) (raddr : UInt64)
  | munmapFd (tid : Tid) (fd : Int)
  | alloc (tx : Bool)
  | send (err : Int)
  | answer (m : MsgId) (result : UInt32)
  | wake
  | interrupt (saved : Bool)

/-- The steps of a file that are not steps of these calls. -/
def passes : FileOperations.Action → Bool
  | .munmap _ _ => false
  | .memUnmap _ _ _ => false
  | .munmapFd _ _ => false
  | .finishOp _ _ => false
  | .notifyAlloc _ => false
  | .notifyDone _ _ => false
  | _ => true

/-- MUNMAP or MEM_UNMAP took a map off the list. -/
def removing (k : Uapi) (s : State) (t : File) (cmd : UnmapCmd) (fd : Int) : Option Call :=
  (takenBy t.op).map fun id =>
    ⟨cmd, fd, 0, keptMaps k s.file.maps, [s.file.maps.mem id], none, false⟩

/-- `vfastrpc_internal_munmap_fd` returns. -/
def State.returns (s : State) (t : File) (c : Call) (err1 : Int) : State :=
  { s with
    file := t
    call := none
    returned := ⟨c, if err1 ≠ 0 then err1 else c.err⟩ :: s.returned }

/-- `vfastrpc_internal_munmap_fd` up to its message. -/
def beginFd (k : Uapi) (s : State) (t : File) (tid : Tid) (fd : Int) : State :=
  match s.file.cmds.find? fun cmd => cmd.tid == tid with
  | some cmd =>
    { s with
      file := t
      call := some ⟨.munmapFd, fd, 0, s.start cmd.msg, [], some cmd.msg, true⟩ }
  | none =>
    let r := mmapRemoveFd k s.file.maps fd
    let start := keptMaps k s.file.maps
    let call : Call := ⟨.munmapFd, fd, r.1, start, (start fd).map s.file.maps.mem, none, false⟩
    if r.2.1 = 0 then s.returns t call 0 else { s with file := t, call := some call }

/-- `vfastrpc_txbuf_send` for each of the calls. What is left of a MUNMAP or MEM_UNMAP that
could not send is in `finish`. -/
def sendUnmap (k : Uapi) (s : State) (c : Call) (err : Int) : Option State :=
  match c.cmd, c.msg with
  | .munmap, _ =>
    if err = 0 then
      some { s with call := some { c with sent := true }, unmaps := c.chosen :: s.unmaps }
    else none
  | .memUnmap, _ =>
    if err = 0 ∧ c.chosen.all (unmappable k) then
      some { s with call := some { c with sent := true }, unmaps := c.chosen :: s.unmaps }
    else none
  | .munmapFd, some m =>
    if err = 0 then
      some { s with
        call := some { c with sent := true }
        sent := m :: s.sent
        unmaps := c.chosen :: s.unmaps }
    else if err < 0 then
      (FileOperations.step k s.file (.notifyDone false false)).map fun t => s.returns t c err
    else none
  | .munmapFd, none => none

/-- The message of a MUNMAP_FD that waits. -/
def waitingFor (c : Call) : Option MsgId :=
  if c.cmd = .munmapFd ∧ c.sent then c.msg else none

def step (k : Uapi) (s : State) : Action → Option State
  | .file a =>
    if passes a then (FileOperations.step k s.file a).map fun t => { s with file := t } else none
  | .munmap vaddrout size =>
    (FileOperations.step k s.file (.munmap vaddrout size)).map fun t =>
      { s with file := t, call := removing k s t .munmap (-1) }
  | .memUnmap fd vaddr length =>
    (FileOperations.step k s.file (.memUnmap fd vaddr length)).map fun t =>
      { s with file := t, call := removing k s t .memUnmap fd }
  | .finish ok raddr =>
    (FileOperations.step k s.file (.finishOp ok raddr)).map fun t =>
      { s with file := t, call := none }
  | .munmapFd tid fd =>
    if s.file.dspProcInit then
      (FileOperations.step k s.file (.munmapFd tid fd)).map fun t => beginFd k s t tid fd
    else
      some { s with
        returned := ⟨⟨.munmapFd, fd, 0, fun _ => [], [], none, false⟩, -EBADR⟩ :: s.returned }
  | .alloc tx =>
    s.call.bind fun c =>
      if c.cmd = .munmapFd then
        (FileOperations.step k s.file (.notifyAlloc tx)).map fun t =>
          match t.op with
          | some (.notified _ m) =>
            { s with
              file := t
              call := some { c with msg := some m }
              fdOf := Function.update s.fdOf m c.fd
              start := Function.update s.start m c.start }
          | _ => s.returns t c (-ENOMEM)
      else none
  | .send err => s.call.bind fun c => if c.sent then none else sendUnmap k s c err
  | .answer m result =>
    if m ∈ s.sent ∧ s.answer m = none then
      some { s with answer := Function.update s.answer m (some result) }
    else none
  | .wake =>
    s.call.bind fun c => (waitingFor c).bind fun m => (s.answer m).bind fun result =>
      (FileOperations.step k s.file (.notifyDone false false)).map fun t =>
        s.returns t c (intOfU32 result)
  -- the wait returns an error only if there is no answer yet, and what `munmap_fd` then
  -- returns is the result of `save_interrupted_cmds`
  | .interrupt saved =>
    s.call.bind fun c => (waitingFor c).bind fun m =>
      if s.answer m = none then
        (FileOperations.step k s.file (.notifyDone true saved)).map fun t =>
          s.returns t c (if saved then 0 else verifyErr)
      else none

/-- No message was, or is about to be, sent for a map with a positive `ctx_refs`. -/
structure Unused (s : State) : Prop where
  call : ∀ c, s.call = some c → ∀ map ∈ c.chosen, ¬ 0 < map.ctxRefs
  unmaps : ∀ maps ∈ s.unmaps, ∀ map ∈ maps, ¬ 0 < map.ctxRefs

/-- MUNMAP_FD is not called for a descriptor with a `KEEP_MAP` map that an invoke uses. -/
def IdleFd (k : Uapi) (s : State) : Action → Prop
  | .munmapFd tid fd => (s.file.cmds.find? fun cmd => cmd.tid == tid) = none →
      ∀ id ∈ keptMaps k s.file.maps fd, ¬ 0 < (s.file.maps.mem id).ctxRefs
  | _ => True

instance (k : Uapi) (s : State) (a : Action) : Decidable (IdleFd k s a) := by
  unfold IdleFd
  split <;> infer_instance

section runs

variable {k : Uapi} {s t : State} {a : Action}

theorem unused_returns (h : Unused s) (file : File) (c : Call) (err1 : Int) :
    Unused (s.returns file c err1) :=
  ⟨fun _ hc => (by cases hc), h.unmaps⟩

theorem unused_sent (h : Unused s) {c : Call} (hc : s.call = some c) (sent : List MsgId) :
    Unused { s with
      call := some { c with sent := true }
      sent := sent
      unmaps := c.chosen :: s.unmaps } where
  call := fun _ hd map hmap => by
    obtain rfl := Option.some.inj hd
    exact h.call c hc map hmap
  unmaps := fun maps hmaps => by
    rcases List.mem_cons.mp hmaps with rfl | hold
    · exact h.call c hc
    · exact h.unmaps maps hold

/-- `vfastrpc_mmap_remove` leaves alone what an invoke uses. -/
theorem munmap_taken {file file' : File} {vaddrout size : UInt64} {id : MapId}
    (hstep : FileOperations.step k file (.munmap vaddrout size) = some file')
    (taken : takenBy file'.op = some id) : (file.maps.mem id).ctxRefs = 0 := by
  simp only [FileOperations.step, Action.ctx, Action.isMapCall, mapCall, if_true] at hstep
  split_ifs at hstep with hidle
  obtain rfl := Option.some.inj hstep
  unfold internalMunmap at taken
  split at taken
  · cases taken
  split at taken
  · rename_i removed
    obtain rfl := Option.some.inj taken
    exact (mmapRemove_ok removed).2.1
  · rw [hidle.1] at taken
    cases taken

theorem memUnmap_taken {file file' : File} {fd : Int} {vaddr length : UInt64} {id : MapId}
    (hstep : FileOperations.step k file (.memUnmap fd vaddr length) = some file')
    (taken : takenBy file'.op = some id) : (file.maps.mem id).ctxRefs = 0 := by
  simp only [FileOperations.step, Action.ctx, Action.isMapCall, mapCall, if_true] at hstep
  split_ifs at hstep with hidle
  obtain rfl := Option.some.inj hstep
  unfold internalMemUnmap at taken
  split at taken
  · rename_i removed
    obtain rfl := Option.some.inj taken
    exact (mmapRemove_ok removed).2.1
  · rw [hidle.1] at taken
    cases taken

theorem unused_removing (h : Unused s) {file : File} {cmd : UnmapCmd} {fd : Int}
    (idle : ∀ id, takenBy file.op = some id → (s.file.maps.mem id).ctxRefs = 0) :
    Unused { s with file := file, call := removing k s file cmd fd } where
  call := fun c hc map hmap => by
    obtain ⟨id, hid, rfl⟩ := Option.map_eq_some_iff.mp hc
    rw [List.mem_singleton.mp hmap, idle id hid]
    exact Int.lt_irrefl 0
  unmaps := h.unmaps

theorem unused_beginFd (h : Unused s) {tid : Tid} {fd : Int} (file : File)
    (ok : IdleFd k s (.munmapFd tid fd)) : Unused (beginFd k s file tid fd) := by
  unfold beginFd
  split
  · refine ⟨fun c hc map hmap => ?_, h.unmaps⟩
    obtain rfl := Option.some.inj hc
    cases hmap
  · rename_i hnone
    dsimp only
    split
    · exact unused_returns h _ _ _
    · refine ⟨fun c hc map hmap => ?_, h.unmaps⟩
      obtain rfl := Option.some.inj hc
      obtain ⟨id, hid, rfl⟩ := List.mem_map.mp hmap
      exact ok hnone id hid

theorem unused_sendUnmap (h : Unused s) {c : Call} (hc : s.call = some c) {err : Int}
    (hsend : sendUnmap k s c err = some t) : Unused t := by
  unfold sendUnmap at hsend
  split at hsend
  · split_ifs at hsend
    obtain rfl := Option.some.inj hsend
    exact unused_sent h hc s.sent
  · split_ifs at hsend
    obtain rfl := Option.some.inj hsend
    exact unused_sent h hc s.sent
  · split_ifs at hsend
    · obtain rfl := Option.some.inj hsend
      exact unused_sent h hc _
    · obtain ⟨file, -, rfl⟩ := Option.map_eq_some_iff.mp hsend
      exact unused_returns h _ _ _
  · cases hsend

theorem step_unused (h : Unused s) (ok : IdleFd k s a) (hstep : step k s a = some t) :
    Unused t := by
  cases a with
  | file b =>
    simp only [step] at hstep
    split_ifs at hstep
    obtain ⟨file, -, rfl⟩ := Option.map_eq_some_iff.mp hstep
    exact ⟨h.call, h.unmaps⟩
  | munmap vaddrout size =>
    obtain ⟨file, hfile, rfl⟩ := Option.map_eq_some_iff.mp hstep
    exact unused_removing h fun id hid => munmap_taken hfile hid
  | memUnmap fd vaddr length =>
    obtain ⟨file, hfile, rfl⟩ := Option.map_eq_some_iff.mp hstep
    exact unused_removing h fun id hid => memUnmap_taken hfile hid
  | finish result raddr =>
    obtain ⟨file, -, rfl⟩ := Option.map_eq_some_iff.mp hstep
    exact ⟨fun _ hc => (by cases hc), h.unmaps⟩
  | munmapFd tid fd =>
    simp only [step] at hstep
    split_ifs at hstep
    · obtain ⟨file, -, rfl⟩ := Option.map_eq_some_iff.mp hstep
      exact unused_beginFd h file ok
    · obtain rfl := Option.some.inj hstep
      exact ⟨h.call, h.unmaps⟩
  | alloc tx =>
    obtain ⟨c, hc, hstep⟩ := Option.bind_eq_some_iff.mp hstep
    split_ifs at hstep
    obtain ⟨file, -, rfl⟩ := Option.map_eq_some_iff.mp hstep
    split
    · refine ⟨fun d hd map hmap => ?_, h.unmaps⟩
      obtain rfl := Option.some.inj hd
      exact h.call c hc map hmap
    · exact unused_returns h _ _ _
  | send err =>
    obtain ⟨c, hc, hstep⟩ := Option.bind_eq_some_iff.mp hstep
    split_ifs at hstep
    exact unused_sendUnmap h hc hstep
  | answer m result =>
    simp only [step] at hstep
    split_ifs at hstep
    obtain rfl := Option.some.inj hstep
    exact ⟨h.call, h.unmaps⟩
  | wake =>
    obtain ⟨c, -, hstep⟩ := Option.bind_eq_some_iff.mp hstep
    obtain ⟨m, -, hstep⟩ := Option.bind_eq_some_iff.mp hstep
    obtain ⟨result, -, hstep⟩ := Option.bind_eq_some_iff.mp hstep
    obtain ⟨file, -, rfl⟩ := Option.map_eq_some_iff.mp hstep
    exact unused_returns h _ _ _
  | interrupt saved =>
    obtain ⟨c, -, hstep⟩ := Option.bind_eq_some_iff.mp hstep
    obtain ⟨m, -, hstep⟩ := Option.bind_eq_some_iff.mp hstep
    split_ifs at hstep
    · obtain ⟨file, -, rfl⟩ := Option.map_eq_some_iff.mp hstep
      exact unused_returns h _ _ _
    · obtain ⟨file, -, rfl⟩ := Option.map_eq_some_iff.mp hstep
      exact unused_returns h _ _ _

end runs

/-- In every run in which MUNMAP_FD is only called for descriptors no invoke uses, no unmap
message is sent for a map with a positive `ctx_refs`. -/
theorem unmap_messages_unused (k : Uapi) (as : List Action) (s : State)
    (along : Along (step k) (IdleFd k) State.opened as)
    (run : exec (step k) State.opened as = some s) :
    ∀ maps ∈ s.unmaps, ∀ map ∈ maps, ¬ 0 < map.ctxRefs := by
  have start : Unused State.opened :=
    ⟨fun _ hc => (by cases hc), fun _ hmaps => by cases hmaps⟩
  exact (exec_invariant_along (IdleFd k) (fun _ _ _ h ok hs => step_unused h ok hs)
    start along run).unmaps

open MapReferences (uapi keptInvoke)

/-- An invoke with a `KEEP_MAP` buffer, from its start to its end. -/
def endedInvoke : List Action :=
  keptInvoke.map Action.file ++ [.file (.wake 0), .file (.contextFree 0)]

/-- MUNMAP_FD for the descriptor of the buffer. -/
def unmapFive : List Action :=
  [.munmapFd 9 5, .alloc true, .send 0, .answer 1 0, .wake]

theorem endedInvoke_unused : ∃ s, exec (step uapi) State.opened (endedInvoke ++ unmapFive) =
      some s ∧ s.unmaps.length = 1 ∧ ∀ maps ∈ s.unmaps, ∀ map ∈ maps, ¬ 0 < map.ctxRefs :=
  ⟨_, rfl, rfl, unmap_messages_unused uapi (endedInvoke ++ unmapFive) _ (by decide +kernel) rfl⟩

/-- MUNMAP_FD during the invoke: the message goes out for a map with `ctx_refs` 1. -/
theorem used_map_unmapped : ∃ s, exec (step uapi) State.opened
      (keptInvoke.map Action.file ++ [.munmapFd 9 5, .alloc true, .send 0]) = some s ∧
    ∃ maps ∈ s.unmaps, ∃ map ∈ maps, 0 < map.ctxRefs :=
  ⟨_, rfl, _, List.mem_singleton.mpr rfl, _, List.mem_singleton.mpr rfl, by decide⟩

section removal

variable {k : Uapi} {s : Maps} {fd : Int}

theorem keeps_iff {map : VfastrpcMmap} :
    keeps k fd map = true ↔ map.fd = fd ∧ map.keep k = true := by
  simp [keeps]

/-- Letting go of a map does not change which descriptor it is for. -/
theorem mmapFree_keeps (s : Maps) (id v : MapId) (fd : Int) :
    keeps k fd ((mmapFree s (some id) false).mem v) = keeps k fd (s.mem v) := by
  by_cases hv : v = id
  · subst hv
    have outcome := mmapFree_freeing s v false
    generalize mmapFree s (some v) false = r at outcome ⊢
    cases outcome with
    | refused why => rfl
    | dropped refs ctx kept left =>
      rw [set_mem_self]
      rfl
    | freed plain refs ctx last =>
      rw [show Maps.mem _ v = (s.mem v).withRefs 0 0 from set_mem_self s v _]
      rfl
  · rw [mmapFree_mem_ne s false hv]

theorem removeFdLoop_entries (fd : Int) (ids : List MapId) (s : Maps) (err : Int)
    (entries : Nat) : (removeFdLoop k fd ids err entries s).2.1 =
      entries + (ids.filter fun id => keeps k fd (s.mem id)).length := by
  induction ids generalizing s err entries with
  | nil => rfl
  | cons id rest ih =>
    unfold removeFdLoop
    dsimp only
    by_cases hkeeps : keeps k fd (s.mem id) = true
    · rw [if_pos (keeps_iff.mp hkeeps), ih, List.filter_cons, if_pos hkeeps, List.length_cons]
      simp only [mmapFree_keeps]
      omega
    · rw [if_neg fun h => hkeeps (keeps_iff.mpr h), ih, List.filter_cons, if_neg hkeeps]

/-- The maps in the list ahead are as they were at the start, which is `mem`. -/
theorem removeFdLoop_err (mem : MapId → VfastrpcMmap) (ids : List MapId) (hids : ids.Nodup)
    (same : ∀ id ∈ ids, s.mem id = mem id) (err : Int) (entries : Nat) :
    (removeFdLoop k fd ids err entries s).1 = 0 ↔
      err = 0 ∧ ∀ id ∈ ids, keeps k fd (mem id) = true → ¬ InUse (mem id) := by
  induction ids generalizing s err entries with
  | nil => simp [removeFdLoop]
  | cons id rest ih =>
    obtain ⟨hnot, hrest⟩ := List.nodup_cons.mp hids
    have hid : s.mem id = mem id := same id List.mem_cons_self
    unfold removeFdLoop
    dsimp only
    rw [hid]
    by_cases hkeeps : keeps k fd (mem id) = true
    · rw [if_pos (keeps_iff.mp hkeeps)]
      have ahead : ∀ v ∈ rest, (mmapFree s (some id) false).mem v = mem v := fun v hv => by
        have hne : v ≠ id := fun he => hnot (he ▸ hv)
        rw [mmapFree_mem_ne s false hne]
        exact same v (List.mem_cons_of_mem _ hv)
      rw [ih hrest ahead (if InUse (mem id) then -ETOOMANYREFS else err) (entries + 1),
        List.forall_mem_cons]
      split_ifs with huse
      · simp [ETOOMANYREFS, hkeeps, huse]
      · simp [hkeeps, huse]
    · rw [if_neg fun h => hkeeps (keeps_iff.mpr h),
        ih hrest (fun v hv => same v (List.mem_cons_of_mem _ hv)) err entries,
        List.forall_mem_cons]
      simp [hkeeps]

/-- A map whose last reference goes is off the list. -/
theorem mmapFree_unlinks (h : Listed s) {id : MapId} (plain : heapFlags (s.mem id).flags = false)
    (refs : (s.mem id).refs = 1) (ctx : (s.mem id).ctxRefs = 0) :
    id ∉ (mmapFree s (some id) false).linked := by
  have outcome := mmapFree_freeing s id false
  generalize mmapFree s (some id) false = r at outcome ⊢
  cases outcome with
  | refused why =>
    rw [plain, refs, ctx] at why
    simp at why
  | dropped _ _ _ left => exact False.elim (left.elim (fun h => h refs) fun h => h ctx)
  | freed => exact h.nodup.not_mem_erase

theorem removeFdLoop_unlinks (mem : MapId → VfastrpcMmap) (ids : List MapId) (hids : ids.Nodup)
    (h : Listed s) (linked : ∀ id ∈ ids, id < s.next ∧ heapFlags (mem id).flags = false)
    (same : ∀ id ∈ ids, s.mem id = mem id) (err : Int) (entries : Nat) :
    ∀ id ∈ ids, keeps k fd (mem id) = true → (mem id).refs = 1 → (mem id).ctxRefs = 0 →
      id ∉ (removeFdLoop k fd ids err entries s).2.2.linked := by
  induction ids generalizing s err entries with
  | nil => exact fun id hid => by cases hid
  | cons v rest ih =>
    obtain ⟨hnot, hrest⟩ := List.nodup_cons.mp hids
    have hv : s.mem v = mem v := same v List.mem_cons_self
    have freed := kept_free h v false
    have ahead : ∀ id ∈ rest, (mmapFree s (some v) false).mem id = mem id := fun id hid => by
      have hne : id ≠ v := fun he => hnot (he ▸ hid)
      rw [mmapFree_mem_ne s false hne]
      exact same id (List.mem_cons_of_mem _ hid)
    intro id hid hkeeps hrefs hctx
    unfold removeFdLoop
    dsimp only
    rw [hv]
    rcases List.mem_cons.mp hid with rfl | hid
    · rw [if_pos (keeps_iff.mp hkeeps)]
      obtain ⟨known, plain⟩ := linked id List.mem_cons_self
      have unlinked := mmapFree_unlinks h (hv ▸ plain) (hv ▸ hrefs) (hv ▸ hctx)
      exact (renews_unlinked (kept_removeFdLoop freed.listed fd rest _ _).renews
        (Nat.lt_of_lt_of_le known freed.renews.next) unlinked).2
    · split
      · refine ih hrest freed.listed (fun u hu => ?_) ahead _ _ id hid hkeeps hrefs hctx
        obtain ⟨known, plain⟩ := linked u (List.mem_cons_of_mem _ hu)
        exact ⟨Nat.lt_of_lt_of_le known freed.renews.next, plain⟩
      · exact ih hrest h (fun u hu => linked u (List.mem_cons_of_mem _ hu))
          (fun u hu => same u (List.mem_cons_of_mem _ hu)) _ _ id hid hkeeps hrefs hctx

theorem mem_keptMaps {id : MapId} :
    id ∈ keptMaps k s fd ↔ id ∈ s.linked ∧ keeps k fd (s.mem id) = true := by
  unfold keptMaps
  rw [List.mem_filter]

theorem removeFd_entries : (mmapRemoveFd k s fd).2.1 = 0 ↔ keptMaps k s fd = [] := by
  rw [mmapRemoveFd, removeFdLoop_entries, Nat.zero_add, List.length_eq_zero_iff]
  rfl

theorem removeFd_err (h : Listed s) :
    (mmapRemoveFd k s fd).1 = 0 ↔ ∀ id ∈ keptMaps k s fd, ¬ InUse (s.mem id) := by
  rw [mmapRemoveFd, removeFdLoop_err s.mem s.linked h.nodup fun _ _ => rfl]
  constructor
  · rintro ⟨-, hall⟩ id hid
    obtain ⟨hlinked, hkeeps⟩ := mem_keptMaps.mp hid
    exact hall id hlinked hkeeps
  · exact fun hall => ⟨rfl, fun id hid hkeeps => hall id (mem_keptMaps.mpr ⟨hid, hkeeps⟩)⟩

theorem removeFd_unlinks (h : Listed s) {id : MapId} (hid : id ∈ keptMaps k s fd)
    (counted : 1 ≤ (s.mem id).refs) (unused : ¬ InUse (s.mem id)) :
    id ∉ (mmapRemoveFd k s fd).2.2.linked := by
  obtain ⟨hlinked, hkeeps⟩ := mem_keptMaps.mp hid
  obtain ⟨hrefs, hctx⟩ := not_or.mp unused
  exact removeFdLoop_unlinks s.mem s.linked h.nodup h (fun v hv => ⟨h.known v hv, h.plain v hv⟩)
    (fun _ _ => rfl) 0 0 id hlinked hkeeps (by omega) (not_not.mp hctx)

end removal

/-- The back end acknowledged a message with the descriptor of the call, if there was a
`KEEP_MAP` map of it, and all of them are off the list. -/
def Unmapped (s : State) (c : Call) : Prop :=
  (c.start c.fd = [] ∨ c.msg.map s.fdOf = some c.fd ∧ c.msg.bind s.answer = some 0) ∧
    ∀ id ∈ c.start c.fd, id ∉ s.file.maps.linked

instance (s : State) (c : Call) : Decidable (Unmapped s c) :=
  inferInstanceAs (Decidable (_ ∧ _))

/-- A MUNMAP_FD that starts afresh finds only counted maps. One that finds a parked message
is for the descriptor the message carries, and the maps found when it was sent are gone. A
wait is interrupted, with its message parked, only if some map was still in use when the
call chose its maps. -/
def Resumable (k : Uapi) (s : State) : Action → Prop
  | .munmapFd tid fd =>
      ((s.file.cmds.find? fun cmd => cmd.tid == tid) = none →
        ∀ id ∈ keptMaps k s.file.maps fd, 1 ≤ (s.file.maps.mem id).refs) ∧
      ∀ cmd ∈ s.file.cmds.find? fun cmd => cmd.tid == tid,
        s.fdOf cmd.msg = fd ∧ ∀ id ∈ s.start cmd.msg fd, id ∉ s.file.maps.linked
  | .interrupt true => ∀ c ∈ s.call, ∃ map ∈ c.chosen, InUse map
  | _ => True

instance (k : Uapi) (s : State) (a : Action) : Decidable (Resumable k s a) := by
  unfold Resumable
  split <;> infer_instance

/-- Messages of commands were allocated. -/
structure MsgsKnown (s : File) : Prop where
  cmds : ∀ cmd ∈ s.cmds, cmd.msg < s.nextMsg
  op : ∀ tid m, s.op = some (.notified tid m) → m < s.nextMsg

theorem step_msgsKnown {k : Uapi} {s t : File} {a : FileOperations.Action} (h : MsgsKnown s)
    (hstep : FileOperations.step k s a = some t) : MsgsKnown t ∧ s.nextMsg ≤ t.nextMsg := by
  have idle : ∀ op : Option Op, (∀ tid m, op ≠ some (.notified tid m)) →
      ∀ tid m, op = some (.notified tid m) → m < s.nextMsg :=
    fun op hop tid m e => False.elim (hop tid m e)
  cases step_moves hstep with
  | staged pending alloc =>
    rcases bufAlloc_some alloc with ⟨-, -, rfl⟩ | ⟨-, rfl⟩
    · exact ⟨⟨h.cmds, h.op⟩, Nat.le_refl _⟩
    · exact ⟨⟨h.cmds, h.op⟩, Nat.le_refl _⟩
  | messaged pending bare alloc | commands alloc =>
    obtain ⟨i, -, -, rfl⟩ := virtAllocMsg_some alloc
    exact ⟨⟨fun cmd hcmd => Nat.lt_succ_of_lt (h.cmds cmd hcmd),
      fun tid m hop => Nat.lt_succ_of_lt (h.op tid m hop)⟩, Nat.le_succ _⟩
  | frees pending =>
    rename_i c
    obtain ⟨_, _, _, _, _, _, hfree⟩ := contextDrop_frame { s with
      pending := s.pending.erase c, interrupted := s.interrupted.erase c } c
    rw [contextFree, hfree]
    exact ⟨⟨h.cmds, h.op⟩, Nat.le_refl _⟩
  | call _ moves =>
    refine ⟨⟨h.cmds, idle _ fun tid m e => ?_⟩, Nat.le_refl _⟩
    subst e
    cases moves
  | removesFd _ action fresh next =>
    refine ⟨⟨h.cmds, idle _ fun tid m e => ?_⟩, Nat.le_refl _⟩
    rcases next with rfl | rfl <;> cases e
  | takesCmd _ saved =>
    refine ⟨⟨fun cmd hcmd => h.cmds cmd (List.mem_of_mem_erase hcmd), fun tid m e => ?_⟩,
      Nat.le_refl _⟩
    injection e with e
    injection e with _ e
    exact e ▸ h.cmds _ saved
  | allocsPages _ alloc =>
    rcases bufAlloc_some alloc with ⟨-, -, rfl⟩ | ⟨-, rfl⟩
    · exact ⟨⟨h.cmds, idle _ fun tid m e => by cases e⟩, Nat.le_refl _⟩
    · exact ⟨⟨h.cmds, idle _ fun tid m e => by cases e⟩, Nat.le_refl _⟩
  | freesPages op =>
    obtain ⟨_, _, _, _, _, hfree⟩ := bufFree_frame s _ false
    rw [hfree]
    exact ⟨⟨h.cmds, idle _ fun tid m e => by cases e⟩, Nat.le_refl _⟩
  | notifies op alloc =>
    obtain ⟨i, -, rfl, rfl⟩ := virtAllocMsg_some alloc
    refine ⟨⟨fun cmd hcmd => Nat.lt_succ_of_lt (h.cmds cmd hcmd), fun tid m e => ?_⟩,
      Nat.le_succ _⟩
    injection e with e
    injection e with _ e
    exact e ▸ Nat.lt_succ_self _
  | saves op =>
    rename_i tid m
    refine ⟨⟨fun cmd hcmd => ?_, idle _ fun tid m e => by cases e⟩, Nat.le_refl _⟩
    rcases List.mem_cons.mp hcmd with rfl | hold
    · exact h.op tid m op
    · exact h.cmds cmd hold
  | answers op =>
    obtain ⟨_, hfree⟩ := virtFreeMsg_frame s _
    rw [hfree]
    exact ⟨⟨h.cmds, idle _ fun tid m e => by cases e⟩, Nat.le_refl _⟩
  | replies waiting =>
    obtain ⟨_, hfree⟩ := virtFreeMsg_frame s _
    rw [hfree]
    exact ⟨⟨h.cmds, h.op⟩, Nat.le_refl _⟩
  | findsPages | finish | mapsPages | gives | loses =>
    exact ⟨⟨h.cmds, idle _ fun tid m e => by cases e⟩, Nat.le_refl _⟩
  | same | init | begins | resumes | ctx | maps | interrupts | foreign =>
    exact ⟨⟨h.cmds, h.op⟩, Nat.le_refl _⟩

/-- A MUNMAP_FD under way. -/
structure CallOk (s : State) (c : Call) : Prop where
  gone : (∀ map ∈ c.chosen, ¬ InUse map) → ∀ id ∈ c.start c.fd, Gone s.file id
  err : (∃ map ∈ c.chosen, InUse map) → c.err ≠ 0
  msg : ∀ m, c.msg = some m → m < s.file.nextMsg ∧ s.fdOf m = c.fd

/-- A MUNMAP_FD that returned 0. -/
structure Settled (s : State) (c : Call) : Prop where
  acked : c.start c.fd = [] ∨
    ∃ m, c.msg = some m ∧ m < s.file.nextMsg ∧ s.fdOf m = c.fd ∧ s.answer m = some 0
  gone : ∀ id ∈ c.start c.fd, Gone s.file id

structure FdsOk (s : State) : Prop where
  listed : FileListed s.file
  msgs : MsgsKnown s.file
  known : ∀ m fd, ∀ id ∈ s.start m fd, id < s.file.maps.next
  call : ∀ c, s.call = some c → c.cmd = .munmapFd →
    CallOk s c ∧ ∀ fd, ∀ id ∈ c.start fd, id < s.file.maps.next
  returned : ∀ r ∈ s.returned, r.ret = 0 → Settled s r.call

section runs

variable {k : Uapi} {s t : State} {a : Action}

theorem callOk_mono {c : Call} (h : CallOk s c) (gone : ∀ id, Gone s.file id → Gone t.file id)
    (next : s.file.nextMsg ≤ t.file.nextMsg) (fdOf : ∀ m < s.file.nextMsg, t.fdOf m = s.fdOf m) :
    CallOk t c where
  gone := fun unused id hid => gone id (h.gone unused id hid)
  err := h.err
  msg := fun m hm => by
    obtain ⟨hlt, hfd⟩ := h.msg m hm
    exact ⟨Nat.lt_of_lt_of_le hlt next, (fdOf m hlt).trans hfd⟩

theorem settled_mono {c : Call} (h : Settled s c) (gone : ∀ id, Gone s.file id → Gone t.file id)
    (next : s.file.nextMsg ≤ t.file.nextMsg) (fdOf : ∀ m < s.file.nextMsg, t.fdOf m = s.fdOf m)
    (answer : ∀ m, s.answer m = some 0 → t.answer m = some 0) : Settled t c where
  acked := by
    rcases h.acked with hnone | ⟨m, hm, hlt, hfd, hanswer⟩
    · exact Or.inl hnone
    · exact Or.inr ⟨m, hm, Nat.lt_of_lt_of_le hlt next, (fdOf m hlt).trans hfd, answer m hanswer⟩
  gone := fun id hid => gone id (h.gone id hid)

/-- A step of the file. -/
theorem fdsOk_file (h : FdsOk s) {b : FileOperations.Action} {file : File}
    (hstep : FileOperations.step k s.file b = some file) : FdsOk { s with file := file } := by
  have onward := step_onward h.listed hstep
  obtain ⟨msgs, next⟩ := step_msgsKnown h.msgs hstep
  refine ⟨onward.listed, msgs, fun m fd id hid => ?_, fun c hc hcmd => ?_, fun r hr hret => ?_⟩
  · exact Nat.lt_of_lt_of_le (h.known m fd id hid) onward.next
  · obtain ⟨ok, known⟩ := h.call c hc hcmd
    exact ⟨callOk_mono ok onward.gone next fun _ _ => rfl, fun fd id hid =>
      Nat.lt_of_lt_of_le (known fd id hid) onward.next⟩
  · exact settled_mono (h.returned r hr hret) onward.gone next (fun _ _ => rfl) fun _ ha => ha

theorem fdsOk_call (h : FdsOk s) {call : Option Call} {sent : List MsgId}
    {unmaps : List (List VfastrpcMmap)}
    (ok : ∀ c, call = some c → c.cmd = .munmapFd →
      CallOk s c ∧ ∀ fd, ∀ id ∈ c.start fd, id < s.file.maps.next) :
    FdsOk { s with call := call, sent := sent, unmaps := unmaps } where
  listed := h.listed
  msgs := h.msgs
  known := h.known
  call := fun c hc hcmd => by
    obtain ⟨callOk, known⟩ := ok c hc hcmd
    exact ⟨⟨callOk.gone, callOk.err, callOk.msg⟩, known⟩
  returned := fun r hr hret => by
    have settled := h.returned r hr hret
    exact ⟨settled.acked, settled.gone⟩

/-- The call returns. -/
theorem fdsOk_returns (h : FdsOk s) {c : Call} {err1 : Int}
    (settled : err1 = 0 → c.err = 0 → Settled s c) : FdsOk (s.returns s.file c err1) where
  listed := h.listed
  msgs := h.msgs
  known := h.known
  call := fun _ hc => by cases hc
  returned := fun r hr hret => by
    rcases List.mem_cons.mp hr with rfl | hold
    · dsimp only at hret
      split_ifs at hret with herr
      · exact False.elim (herr hret)
      · obtain ⟨acked, gone⟩ := settled (not_not.mp herr) hret
        exact ⟨acked, gone⟩
    · obtain ⟨acked, gone⟩ := h.returned r hold hret
      exact ⟨acked, gone⟩

theorem waitingFor_some {c : Call} {m : MsgId} (h : waitingFor c = some m) :
    c.cmd = .munmapFd ∧ c.msg = some m := by
  unfold waitingFor at h
  split_ifs at h with hcond
  exact ⟨hcond.1, h⟩

/-- The step of the file under a MUNMAP_FD. -/
theorem munmapFd_file {file file' : File} {tid : Tid} {fd : Int}
    (hstep : FileOperations.step k file (.munmapFd tid fd) = some file') : file.op = none ∧
      ((file.cmds.find? fun cmd => cmd.tid == tid) = none →
        file'.maps = (mmapRemoveFd k file.maps fd).2.2 ∧ takenBy file'.op = none) ∧
      ∀ cmd, (file.cmds.find? fun cmd => cmd.tid == tid) = some cmd →
        file'.maps = file.maps ∧ takenBy file'.op = none := by
  simp only [FileOperations.step, Action.ctx, Action.isMapCall, mapCall, if_true] at hstep
  split_ifs at hstep with hready
  obtain ⟨idle, -⟩ := hready
  obtain rfl := Option.some.inj hstep
  refine ⟨idle, fun hnone => ?_, fun cmd hsome => ?_⟩
  · rw [internalMunmapFd, hnone]
    dsimp only
    split_ifs
    · exact ⟨rfl, by rw [idle]; rfl⟩
    · exact ⟨rfl, rfl⟩
  · rw [internalMunmapFd, hsome]
    exact ⟨rfl, rfl⟩

theorem fdsOk_beginFd (h : FdsOk s) {tid : Tid} {fd : Int} {file : File}
    (ok : Resumable k s (.munmapFd tid fd))
    (hstep : FileOperations.step k s.file (.munmapFd tid fd) = some file) :
    FdsOk (beginFd k s file tid fd) := by
  have base := fdsOk_file h hstep
  have onward := step_onward h.listed hstep
  obtain ⟨idle, fresh, parked⟩ := munmapFd_file hstep
  unfold beginFd
  split
  · rename_i cmd hsome
    obtain ⟨hfd, hgone⟩ := ok.2 cmd hsome
    obtain ⟨hmaps, hop⟩ := parked cmd hsome
    refine fdsOk_call base fun c hc _ => ?_
    obtain rfl := Option.some.inj hc
    refine ⟨⟨fun _ id hid => ⟨base.known _ _ id hid, ?_, ?_⟩, ?_, fun m hm => ?_⟩,
      base.known cmd.msg⟩
    · rw [hmaps]
      exact hgone id hid
    · rw [hop]
      exact fun e => by cases e
    · rintro ⟨map, hmap, -⟩
      cases hmap
    · obtain rfl := Option.some.inj hm
      exact ⟨Nat.lt_of_lt_of_le (h.msgs.cmds cmd (List.mem_of_find?_eq_some hsome))
        (step_msgsKnown h.msgs hstep).2, hfd⟩
  · rename_i hnone
    obtain ⟨hmaps, hop⟩ := fresh hnone
    have known : ∀ fd, ∀ id ∈ keptMaps k s.file.maps fd, id < file.maps.next := fun fd id hid =>
      Nat.lt_of_lt_of_le (h.listed.maps.known id (mem_keptMaps.mp hid).1) onward.next
    dsimp only
    split
    · rename_i hentries
      have hnil := removeFd_entries.mp hentries
      refine fdsOk_returns base fun _ _ => ⟨Or.inl hnil, fun id hid => ?_⟩
      change id ∈ keptMaps k s.file.maps fd at hid
      rw [hnil] at hid
      cases hid
    · refine fdsOk_call base fun c hc _ => ?_
      obtain rfl := Option.some.inj hc
      refine ⟨⟨fun unused id hid => ⟨known fd id hid, ?_, ?_⟩, ?_, fun m hm => by cases hm⟩, known⟩
      · rw [hmaps]
        exact removeFd_unlinks h.listed.maps hid (ok.1 hnone id hid)
          (unused _ (List.mem_map_of_mem hid))
      · rw [hop]
        exact fun e => by cases e
      · rintro ⟨map, hmap, use⟩ herr
        obtain ⟨id, hid, rfl⟩ := List.mem_map.mp hmap
        exact (removeFd_err h.listed.maps).mp herr id hid use

theorem notifyAlloc_msg {file file' : File} {tx : Bool} {tid : Tid} {m : MsgId}
    (hstep : FileOperations.step k file (.notifyAlloc tx) = some file')
    (hop : file'.op = some (.notified tid m)) :
    m = file.nextMsg ∧ file'.nextMsg = file.nextMsg + 1 := by
  change notifyAlloc file tx = some file' at hstep
  unfold notifyAlloc at hstep
  split at hstep
  · split at hstep
    · rename_i hsome
      obtain rfl := Option.some.inj hstep
      obtain ⟨i, -, rfl, rfl⟩ := virtAllocMsg_some hsome
      injection hop with hop
      injection hop with _ hop
      exact ⟨hop.symm, rfl⟩
    · obtain rfl := Option.some.inj hstep
      cases hop
  · cases hstep

/-- The call has its message. -/
theorem fdsOk_alloc (h : FdsOk s) {c : Call} (hc : s.call = some c) (hcmd : c.cmd = .munmapFd)
    {tx : Bool} {file : File} {tid : Tid} {m : MsgId}
    (hstep : FileOperations.step k s.file (.notifyAlloc tx) = some file)
    (hop : file.op = some (.notified tid m)) :
    FdsOk { s with
      file := file
      call := some { c with msg := some m }
      fdOf := Function.update s.fdOf m c.fd
      start := Function.update s.start m c.start } := by
  have base := fdsOk_file h hstep
  have onward := step_onward h.listed hstep
  obtain ⟨rfl, hnext⟩ := notifyAlloc_msg hstep hop
  obtain ⟨callOk, known⟩ := base.call c hc hcmd
  have older : ∀ m < s.file.nextMsg,
      Function.update s.fdOf s.file.nextMsg c.fd m = s.fdOf m := fun m hm =>
    Function.update_of_ne (Nat.ne_of_lt hm) _ _
  refine ⟨base.listed, base.msgs, fun m fd id hid => ?_, fun d hd _ => ?_, fun r hr hret => ?_⟩
  · dsimp only at hid
    rw [Function.update_apply] at hid
    split_ifs at hid
    · exact known fd id hid
    · exact base.known m fd id hid
  · obtain rfl := Option.some.inj hd
    refine ⟨⟨callOk.gone, callOk.err, fun m hm => ?_⟩, known⟩
    obtain rfl := Option.some.inj hm
    exact ⟨hnext ▸ Nat.lt_succ_self _, Function.update_self ..⟩
  · exact settled_mono (h.returned r hr hret) onward.gone (hnext ▸ Nat.le_succ _) older
      fun _ ha => ha

theorem fdsOk_send {c : Call} {err : Int} (h : FdsOk s) (hc : s.call = some c)
    (hstep : sendUnmap k s c err = some t) : FdsOk t := by
  have sent : ∀ sent unmaps, FdsOk { s with
      call := some { c with sent := true }, sent := sent, unmaps := unmaps } := by
    refine fun sent unmaps => fdsOk_call h fun d hd hcmd => ?_
    obtain rfl := Option.some.inj hd
    obtain ⟨callOk, known⟩ := h.call c hc hcmd
    exact ⟨⟨callOk.gone, callOk.err, callOk.msg⟩, known⟩
  unfold sendUnmap at hstep
  split at hstep
  · split_ifs at hstep
    obtain rfl := Option.some.inj hstep
    exact sent s.sent _
  · split_ifs at hstep
    obtain rfl := Option.some.inj hstep
    exact sent s.sent _
  · split_ifs at hstep
    · obtain rfl := Option.some.inj hstep
      exact sent _ _
    · rename_i hne _
      obtain ⟨file, hfile, rfl⟩ := Option.map_eq_some_iff.mp hstep
      exact fdsOk_returns (fdsOk_file h hfile) fun herr => False.elim (hne herr)
  · cases hstep

/-- An answer leaves the answers that were used alone. -/
theorem fdsOk_answer {m : MsgId} {result : UInt32} (h : FdsOk s) (pending : s.answer m = none) :
    FdsOk { s with answer := Function.update s.answer m (some result) } := by
  refine ⟨h.listed, h.msgs, h.known, fun c hc hcmd => ?_, fun r hr hret => ?_⟩
  · obtain ⟨callOk, known⟩ := h.call c hc hcmd
    exact ⟨⟨callOk.gone, callOk.err, callOk.msg⟩, known⟩
  · refine settled_mono (h.returned r hr hret) (fun _ hg => hg) (Nat.le_refl _)
      (fun _ _ => rfl) fun m' ha => ?_
    have hne : m' ≠ m := by
      rintro rfl
      rw [pending] at ha
      cases ha
    exact (Function.update_of_ne hne _ _).trans ha

theorem fdsOk_wake {c : Call} {m : MsgId} {result : UInt32} {file : File} (h : FdsOk s)
    (hc : s.call = some c) (hm : waitingFor c = some m) (hresult : s.answer m = some result)
    (hfile : FileOperations.step k s.file (.notifyDone false false) = some file) :
    FdsOk (s.returns file c (intOfU32 result)) := by
  have base := fdsOk_file h hfile
  obtain ⟨hcmd, hmsg⟩ := waitingFor_some hm
  obtain ⟨callOk, -⟩ := base.call c hc hcmd
  refine fdsOk_returns base fun hzero herr => ⟨Or.inr ⟨m, hmsg, ?_, ?_, ?_⟩, ?_⟩
  · exact (callOk.msg m hmsg).1
  · exact (callOk.msg m hmsg).2
  · rw [← intOfU32_eq_zero.mp hzero]
    exact hresult
  · exact callOk.gone fun map hmap use => callOk.err ⟨map, hmap, use⟩ herr

theorem step_fdsOk (h : FdsOk s) (ok : Resumable k s a) (hstep : step k s a = some t) :
    FdsOk t := by
  cases a with
  | file b =>
    simp only [step] at hstep
    split_ifs at hstep
    obtain ⟨file, hfile, rfl⟩ := Option.map_eq_some_iff.mp hstep
    exact fdsOk_file h hfile
  | munmap vaddrout size =>
    obtain ⟨file, hfile, rfl⟩ := Option.map_eq_some_iff.mp hstep
    refine fdsOk_call (fdsOk_file h hfile) fun c hc hcmd => ?_
    obtain ⟨id, -, rfl⟩ := Option.map_eq_some_iff.mp hc
    cases hcmd
  | memUnmap fd vaddr length =>
    obtain ⟨file, hfile, rfl⟩ := Option.map_eq_some_iff.mp hstep
    refine fdsOk_call (fdsOk_file h hfile) fun c hc hcmd => ?_
    obtain ⟨id, -, rfl⟩ := Option.map_eq_some_iff.mp hc
    cases hcmd
  | finish result raddr =>
    obtain ⟨file, hfile, rfl⟩ := Option.map_eq_some_iff.mp hstep
    exact fdsOk_call (fdsOk_file h hfile) fun c hc => by cases hc
  | munmapFd tid fd =>
    simp only [step] at hstep
    split_ifs at hstep
    · obtain ⟨file, hfile, rfl⟩ := Option.map_eq_some_iff.mp hstep
      exact fdsOk_beginFd h ok hfile
    · obtain rfl := Option.some.inj hstep
      refine ⟨h.listed, h.msgs, h.known, fun c hc hcmd => ?_, fun r hr hret => ?_⟩
      · obtain ⟨callOk, known⟩ := h.call c hc hcmd
        exact ⟨⟨callOk.gone, callOk.err, callOk.msg⟩, known⟩
      · rcases List.mem_cons.mp hr with rfl | hold
        · cases hret
        · obtain ⟨acked, gone⟩ := h.returned r hold hret
          exact ⟨acked, gone⟩
  | alloc tx =>
    obtain ⟨c, hc, hstep⟩ := Option.bind_eq_some_iff.mp hstep
    split_ifs at hstep with hcmd
    obtain ⟨file, hfile, rfl⟩ := Option.map_eq_some_iff.mp hstep
    split
    · rename_i hop
      exact fdsOk_alloc h hc hcmd hfile hop
    · exact fdsOk_returns (fdsOk_file h hfile) fun herr => by cases herr
  | send err =>
    obtain ⟨c, hc, hstep⟩ := Option.bind_eq_some_iff.mp hstep
    split_ifs at hstep
    exact fdsOk_send h hc hstep
  | answer m result =>
    simp only [step] at hstep
    split_ifs at hstep with hcond
    obtain rfl := Option.some.inj hstep
    exact fdsOk_answer h hcond.2
  | wake =>
    obtain ⟨c, hc, hstep⟩ := Option.bind_eq_some_iff.mp hstep
    obtain ⟨m, hm, hstep⟩ := Option.bind_eq_some_iff.mp hstep
    obtain ⟨result, hresult, hstep⟩ := Option.bind_eq_some_iff.mp hstep
    obtain ⟨file, hfile, rfl⟩ := Option.map_eq_some_iff.mp hstep
    exact fdsOk_wake h hc hm hresult hfile
  | interrupt saved =>
    obtain ⟨c, hc, hstep⟩ := Option.bind_eq_some_iff.mp hstep
    obtain ⟨m, hm, hstep⟩ := Option.bind_eq_some_iff.mp hstep
    obtain ⟨hcmd, -⟩ := waitingFor_some hm
    split at hstep
    · obtain ⟨file, hfile, rfl⟩ := Option.map_eq_some_iff.mp hstep
      have base := fdsOk_file h hfile
      refine fdsOk_returns base fun hzero herr => ?_
      cases saved with
      | false => cases hzero
      | true => exact False.elim ((base.call c hc hcmd).1.err (ok c hc) herr)
    · cases hstep

end runs

/-- In every run whose interruptions and resumptions meet the condition, a MUNMAP_FD that
returned 0 was acknowledged for its own descriptor, and the maps it found are gone. -/
theorem munmap_fd_acknowledged (k : Uapi) (as : List Action) (s : State)
    (along : Along (step k) (Resumable k) State.opened as)
    (run : exec (step k) State.opened as = some s) :
    ∀ r ∈ s.returned, r.ret = 0 → Unmapped s r.call := by
  have start : FdsOk State.opened :=
    ⟨opened_listed, ⟨fun _ h => (by cases h), fun _ _ h => by cases h⟩,
      fun _ _ _ h => (by cases h), fun _ h => (by cases h), fun _ h => by cases h⟩
  have final := exec_invariant_along (Resumable k) (fun _ _ _ h ok hs => step_fdsOk h ok hs)
    start along run
  intro r hr hret
  obtain ⟨acked, gone⟩ := final.returned r hr hret
  refine ⟨acked.imp_right ?_, fun id hid => (gone id hid).unlinked⟩
  rintro ⟨m, hmsg, -, hfd, hanswer⟩
  rw [hmsg]
  exact ⟨congrArg some hfd, hanswer⟩

/-- MUNMAP_FD during the invoke is interrupted; the thread calls again after the invoke. -/
def resumedRun : List Action :=
  keptInvoke.map Action.file ++ [.munmapFd 9 5, .alloc true, .send 0, .interrupt true,
    .file (.wake 0), .file (.contextFree 0), .munmapFd 9 5, .answer 1 0, .wake]

theorem resumedRun_acknowledged : ∃ s, exec (step uapi) State.opened resumedRun = some s ∧
    s.returned.map Return.ret = [0, -ETOOMANYREFS] ∧
    ∀ r ∈ s.returned, r.ret = 0 → Unmapped s r.call :=
  ⟨_, rfl, by decide +kernel,
    munmap_fd_acknowledged uapi resumedRun _ (by decide +kernel) rfl⟩

/-- An interrupted MUNMAP_FD returns 0 without an answer. -/
theorem interrupted_munmap_fd_returns_zero : ∃ s, exec (step uapi) State.opened
      (endedInvoke ++ [.munmapFd 9 5, .alloc true, .send 0, .interrupt true]) = some s ∧
    ∃ r ∈ s.returned, r.ret = 0 ∧ ¬ Unmapped s r.call :=
  ⟨_, rfl, by decide +kernel⟩

end UnmapCalls
