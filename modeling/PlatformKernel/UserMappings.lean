import PlatformKernel.ContextShares
import PlatformKernel.CommandReturns

/-!
# The mappings of the user

MMAP and MEM_MAP give the user an address on the DSP, and MUNMAP and MEM_UNMAP take it
back. The driver does not remember the calls. It looks for a map with this address, this
length and no reference but the one of the call, and both the address and the references
are shared by all requests that were served by the same map. Here the mappings the user
has are history beside the file. A mapping is over when an unmap call of its map, or of its
pages, succeeds, or when MUNMAP_FD lets go of its map.
-/

namespace UserMappings

open GuardedRuns FileMaps FileMoves MapLists FileLists ContextShares
open FileOperations hiding step
open UnmapCalls (keeps)
open CommandReturns (Exchange vfastrpcInternalMunmap vfastrpcInternalMemUnmap)

inductive MapCmd where
  | mmap
  | memMap
  deriving DecidableEq

/-- The map that serves a mapping, or the pages of ADSP_MMAP_ADD_PAGES. -/
inductive Place where
  | map (id : MapId)
  | pages (b : BufId)
  deriving DecidableEq

structure Request where
  fd : Int
  va : UInt64
  size : UInt64

structure Mapping where
  cmd : MapCmd
  req : Request
  addr : UInt64
  place : Place

/-- `asked` is the request of the map call in progress. -/
structure State where
  file : File
  asked : Request
  mapped : List Mapping

def State.opened : State := ⟨File.opened, ⟨0, 0, 0⟩, []⟩

def asks (last : Request) : Action → Request
  | .mmap ud _ _ => ⟨ud.fd, ud.vaddrin, ud.size⟩
  | .memMap req _ => ⟨req.fd, req.va, req.len⟩
  | _ => last

/-- The mapping a call returns when the back end answered. -/
def returned (s : State) (ok : Bool) (raddr : UInt64) : List Mapping :=
  match s.file.op with
  | some (.mmap id) => if ok then [⟨.mmap, s.asked, raddr, .map id⟩] else []
  | some (.memMap id) =>
    if (s.file.maps.mem id).raddr = 0 ∧ ok then [⟨.memMap, s.asked, raddr, .map id⟩] else []
  | some (.mmapPages b) => if ok then [⟨.mmap, s.asked, raddr, .pages b⟩] else []
  | _ => []

def added (s : State) : Action → List Mapping
  | .finishOp ok raddr => returned s ok raddr
  | _ => []

/-- The place that a successful unmap call frees. -/
def unmapped (k : Uapi) (s : File) (ok : Bool) : Option Place :=
  match s.op with
  | some (.munmap id) => if ok then some (.map id) else none
  | some (.memUnmap id) => if unmappable k (s.maps.mem id) ∧ ok then some (.map id) else none
  | some (.munmapPages b) => if ok then some (.pages b) else none
  | _ => none

/-- MUNMAP_FD lets go of the map, unless it resumes an interrupted call. -/
def letsGo (k : Uapi) (s : File) (tid : Tid) (fd : Int) : Place → Bool
  | .map id => (s.cmds.find? fun cmd => cmd.tid == tid).isNone && keeps k fd (s.maps.mem id)
  | .pages _ => false

def ends (k : Uapi) (s : File) (place : Place) : Action → Bool
  | .finishOp ok _ => unmapped k s ok == some place
  | .munmapFd tid fd => letsGo k s tid fd place
  | _ => false

def step (k : Uapi) (s : State) (a : Action) : Option State :=
  (FileOperations.step k s.file a).map fun t =>
    { file := t
      asked := asks s.asked a
      mapped := added s a ++ s.mapped.filter fun m => !ends k s.file m.place a }

/-- The call that undoes a mapping returns 0 if the back end accepts it. -/
def Undone (k : Uapi) (s : File) (m : Mapping) : Prop :=
  match m.cmd with
  | .mmap => (vfastrpcInternalMunmap k s m.addr m.req.size (.reply 0 true)).ret = 0
  | .memMap => (vfastrpcInternalMemUnmap k s m.req.fd m.addr m.req.size (.reply 0 true)).ret = 0

instance (k : Uapi) (s : File) (m : Mapping) : Decidable (Undone k s m) := by
  unfold Undone
  split <;> infer_instance

/-- No invoke and no other map call is in progress. -/
def Idle (s : File) : Prop := s.pending = [] ∧ s.interrupted = [] ∧ s.op = none

instance (s : File) : Decidable (Idle s) := inferInstanceAs (Decidable (_ ∧ _ ∧ _))

def keepRefs (k : Uapi) (map : VfastrpcMmap) : Int := if map.keep k then 1 else 0

/-- The references are one for each buffer of an invoke in flight, one for `KEEP_MAP` unless
it was given up, and one more. -/
structure OwnRefs (k : Uapi) (s : File) (id : MapId) : Prop where
  ctx : (s.maps.mem id).ctxRefs = held s id
  handles : HandlesFree s id
  low : (held s id : Int) + 1 ≤ (s.maps.mem id).refs
  high : (s.maps.mem id).refs ≤ held s id + 1 + keepRefs k (s.maps.mem id)

instance (k : Uapi) (s : File) (id : MapId) : Decidable (OwnRefs k s id) :=
  decidable_of_iff ((s.maps.mem id).ctxRefs = held s id ∧ HandlesFree s id ∧
      (held s id : Int) + 1 ≤ (s.maps.mem id).refs ∧
      (s.maps.mem id).refs ≤ held s id + 1 + keepRefs k (s.maps.mem id))
    ⟨fun ⟨ctx, handles, low, high⟩ => ⟨ctx, handles, low, high⟩,
      fun h => ⟨h.ctx, h.handles, h.low, h.high⟩⟩

/-- An address that no other map on the list has. -/
def NewAddress (s : File) (id : MapId) (raddr : UInt64) : Prop :=
  raddr ≠ 0 ∧ ∀ v ∈ s.maps.linked, v ≠ id → (s.maps.mem v).raddr ≠ raddr

instance (s : File) (id : MapId) (raddr : UInt64) : Decidable (NewAddress s id raddr) :=
  inferInstanceAs (Decidable (_ ∧ _))

/-- The map of a call that succeeds serves only this call: it has the length that was asked
for, no other mapping and no other reference. -/
structure Alone (k : Uapi) (s : State) (id : MapId) : Prop where
  first : ∀ m ∈ s.mapped, m.place ≠ .map id
  len : (s.file.maps.mem id).len = s.asked.size
  refs : OwnRefs k s.file id

instance (k : Uapi) (s : State) (id : MapId) : Decidable (Alone k s id) :=
  decidable_of_iff ((∀ m ∈ s.mapped, m.place ≠ .map id) ∧
      (s.file.maps.mem id).len = s.asked.size ∧ OwnRefs k s.file id)
    ⟨fun ⟨first, len, refs⟩ => ⟨first, len, refs⟩, fun h => ⟨h.first, h.len, h.refs⟩⟩

/-- What the answer of the back end may do. The address of a mapping made with MEM_MAP is
not given out again, because MEM_UNMAP refuses maps with other flags than its own. -/
def FinishAlone (k : Uapi) (s : State) (ok : Bool) (raddr : UInt64) : Prop :=
  match s.file.op with
  | some (.mmap id) => ok = true →
      Alone k s id ∧ ∀ m ∈ s.mapped, m.cmd = .memMap → m.addr ≠ raddr
  | some (.memMap id) => ok = true → (s.file.maps.mem id).raddr = 0 →
      Alone k s id ∧ NewAddress s.file id raddr ∧ unmappable k (s.file.maps.mem id) = true
  | some (.mmapPages _) => ok = true → raddr ≠ 0
  | some (.munmap id) => ok = false → ∀ m ∈ s.mapped, m.place = .map id →
      (s.file.maps.mem id).refs ≠ 0
  | _ => True

instance (k : Uapi) (s : State) (ok : Bool) (raddr : UInt64) :
    Decidable (FinishAlone k s ok raddr) := by
  unfold FinishAlone
  split <;> infer_instance

def Mapping.id (m : Mapping) : Option MapId :=
  match m.place with
  | .map id => some id
  | .pages _ => none

/-- Map calls that succeed get a map of their own, DMA handles and the list of the back end
do not name the map of a mapping, and MUNMAP does not fail on a map that has given up its
`KEEP_MAP` reference. -/
def Separate (k : Uapi) (s : State) : Action → Prop
  | .finishOp ok raddr => FinishAlone k s ok raddr
  | .mapHandles c handles =>
      ∀ m ∈ s.mapped, ∀ id ∈ m.id, Unreached s.file id (.mapHandles c handles)
  | .putFdlist c fdlist =>
      ∀ m ∈ s.mapped, ∀ id ∈ m.id, Unreached s.file id (.putFdlist c fdlist)
  | _ => True

instance (k : Uapi) (s : State) (a : Action) : Decidable (Separate k s a) := by
  unfold Separate
  split <;> infer_instance

/-- Maps that exist keep their address on the DSP and new ones have none. -/
structure Addressed (s t : Maps) : Prop where
  next : s.next ≤ t.next
  old : ∀ v < s.next, (t.mem v).raddr = (s.mem v).raddr
  new : ∀ v < t.next, s.next ≤ v → (t.mem v).raddr = 0

section addressed

variable {k : Uapi} {s t u : Maps} {id : MapId}

theorem addressed_of_same (next : t.next = s.next)
    (same : ∀ v, (t.mem v).raddr = (s.mem v).raddr) :
    Addressed s t :=
  ⟨Nat.le_of_eq next.symm, fun v _ => same v,
    fun _ hlt hle => False.elim (Nat.not_lt.mpr hle (next ▸ hlt))⟩

theorem Addressed.refl (s : Maps) : Addressed s s := addressed_of_same rfl fun _ => rfl

theorem Addressed.trans (h : Addressed s t) (h' : Addressed t u) : Addressed s u where
  next := Nat.le_trans h.next h'.next
  old := fun v hv => (h'.old v (Nat.lt_of_lt_of_le hv h.next)).trans (h.old v hv)
  new := fun v hlt hle => by
    by_cases hv : v < t.next
    · rw [h'.old v hv]
      exact h.new v hv hle
    · exact h'.new v hlt (Nat.le_of_not_lt hv)

theorem set_raddr {map : VfastrpcMmap} (same : map.raddr = (s.mem id).raddr) (v : MapId) :
    ((s.set id map).mem v).raddr = (s.mem v).raddr := by
  by_cases hv : v = id
  · subst hv
    rw [set_mem_self]
    exact same
  · rw [set_mem_ne s map hv]

theorem addressed_free (id : MapId) (force : Bool) : Addressed s (mmapFree s (some id) force) := by
  have outcome := mmapFree_freeing s id force
  generalize mmapFree s (some id) force = r at outcome ⊢
  cases outcome with
  | refused why => exact Addressed.refl s
  | dropped refs ctx kept left => exact addressed_of_same rfl (set_raddr rfl)
  | freed plain refs ctx last => exact addressed_of_same rfl (set_raddr rfl)

theorem addressed_release (slot : Option MapId) : Addressed s (ctxRelease s slot) := by
  cases slot with
  | none => exact Addressed.refl s
  | some id =>
    have outcome := ctxRelease_releasing s id
    generalize ctxRelease s (some id) = r at outcome ⊢
    cases outcome with
    | refused why => exact addressed_of_same rfl (set_raddr rfl)
    | dropped refs ctx left => exact addressed_of_same rfl (set_raddr rfl)
    | freed plain refs ctx => exact addressed_of_same rfl (set_raddr rfl)

theorem addressed_alloc {map : VfastrpcMmap} (none : map.raddr = 0) :
    Addressed s { s.set s.next map with next := s.next + 1 } where
  next := Nat.le_succ _
  old := fun v hv => congrArg VfastrpcMmap.raddr (set_mem_ne s map (Nat.ne_of_lt hv))
  new := fun v hlt hle => by
    have hv : v = s.next := Nat.le_antisymm (Nat.le_of_lt_succ hlt) hle
    subst hv
    exact (congrArg VfastrpcMmap.raddr (set_mem_self s s.next map)).trans none

theorem addressed_create (req : MapRequest) (dma : DmaOutcome) :
    Addressed s (mmapCreate k s req dma).2 := by
  unfold mmapCreate
  split
  · rename_i id t hfind
    rcases (mmapFind_ok hfind).2 with ⟨hfalse, -⟩ | ⟨-, -, rfl⟩
    · cases hfalse
    · exact addressed_of_same rfl (set_raddr rfl)
  · dsimp only
    generalize hmap : (if VfastrpcMmap.keep k ⟨req.fd, req.mflags, 0, 0, 0, 1, req.attr, 0⟩ ∧
        heapFlags req.mflags = false then _ else _) = map
    have none : map.raddr = 0 := by
      rw [← hmap]
      split_ifs <;> rfl
    have alloc := addressed_alloc (s := s) none
    split
    · exact Addressed.refl s
    split
    · exact alloc.trans (addressed_free s.next false)
    split
    · refine alloc.trans (addressed_of_same (mmapAdd_mem _ _).2 fun v => ?_)
      rw [(mmapAdd_mem _ _).1]
      refine set_raddr ?_ v
      exact (congrArg VfastrpcMmap.raddr (set_mem_self s s.next map)).symm
    · exact alloc.trans (addressed_free s.next false)

theorem addressed_ctxMoves (moves : CtxMoves k s t) : Addressed s t := by
  induction moves with
  | refl => exact Addressed.refl s
  | release _ slot ih => exact ih.trans (addressed_release slot)
  | take _ req dma ih =>
    rename_i t _
    refine ih.trans ?_
    have create := addressed_create (k := k) (s := t) req dma
    unfold ctxMap
    generalize mmapCreate k t req dma = r at create ⊢
    obtain ⟨result, u⟩ := r
    cases result with
    | error err => exact create
    | ok id => exact create.trans (addressed_of_same rfl (set_raddr rfl))

theorem addressed_removeFdLoop (fd : Int) (ids : List MapId) (err : Int) (entries : Nat) :
    Addressed s (removeFdLoop k fd ids err entries s).2.2 := by
  induction ids generalizing s err entries with
  | nil => exact Addressed.refl s
  | cons id rest ih =>
    unfold removeFdLoop
    dsimp only
    split
    · exact (addressed_free id false).trans (ih _ _)
    · exact ih _ _

theorem addressed_remove {fd : Int} {va len : UInt64} (h : mmapRemove k s fd va len = .ok (id, t)) :
    Addressed s t := by
  obtain ⟨-, -, refs, rfl, -⟩ := mmapRemove_ok h
  exact addressed_of_same rfl (set_raddr rfl)

/-- Addresses change only when the back end answers. -/
theorem step_addressed {s t : File} {a : Action} (waits : ∀ ok raddr, a ≠ .finishOp ok raddr)
    (h : FileOperations.step k s a = some t) : Addressed s.maps t.maps := by
  have moves := step_mapMoves h
  generalize t.op = op at moves
  generalize t.maps = maps at moves ⊢
  cases moves with
  | ctx moves => exact addressed_ctxMoves moves
  | call idle moves =>
    cases moves with
    | mmap created | memMap created | failed created =>
      have hmaps : (mmapCreate k s.maps _ _).2 = maps := congrArg Prod.snd created
      rw [← hmaps]
      exact addressed_create _ _
    | munmap removed | memUnmap removed => exact addressed_remove removed
  | other free => exact Addressed.refl _
  | removesFd idle action fresh free => exact addressed_removeFdLoop _ _ _ _
  | finish action moves => exact False.elim (waits _ _ action)

end addressed

/-- The map of an MMAP or MEM_MAP that waits for the back end. -/
def holding : Option Op → Option MapId
  | some (.mmap id) => some id
  | some (.memMap id) => some id
  | _ => none

/-- There is no call, or it is MUNMAP_FD after it let go of its maps. -/
def notifying : Option Op → Bool
  | none => true
  | some (.notify _) => true
  | some (.notified _ _) => true
  | _ => false

/-- Nothing happens to a call that has a map or pages. -/
def Aside (op op' : Option Op) : Prop := op' = op ∨ notifying op = true ∧ notifying op' = true

theorem notifying_none {op : Option Op} (h : notifying op = true) :
    takenBy op = none ∧ holding op = none := by
  match op, h with
  | none, _ => exact ⟨rfl, rfl⟩
  | some (.notify _), _ => exact ⟨rfl, rfl⟩
  | some (.notified _ _), _ => exact ⟨rfl, rfl⟩

theorem Aside.same {op op' : Option Op} (h : Aside op op') :
    takenBy op' = takenBy op ∧ holding op' = holding op := by
  rcases h with rfl | ⟨hop, hop'⟩
  · exact ⟨rfl, rfl⟩
  · rw [(notifying_none hop).1, (notifying_none hop).2, (notifying_none hop').1,
      (notifying_none hop').2]
    exact ⟨rfl, rfl⟩

theorem Aside.eq {op op' : Option Op} (h : Aside op op') (busy : notifying op = false) :
    op' = op :=
  h.resolve_right fun hn => by
    rw [busy] at hn
    cases hn.1

/-- How a map call begins. -/
inductive Begun (k : Uapi) (s : File) : Action → File → Prop where
  | refused {a : Action} : Begun k s a s
  | failed {a : Action} {req : MapRequest} {dma : DmaOutcome} {err : Int} {maps : Maps}
      (created : mmapCreate k s.maps req dma = (.error err, maps)) :
      Begun k s a { s with maps := maps }
  | mmap {ud : MmapArgs} {dma : DmaOutcome} {pages : Bool} {id : MapId} {maps : Maps}
      (created : mmapCreate k s.maps ⟨ud.fd, 0, ud.vaddrin, ud.size, ud.flags⟩ dma =
        (.ok id, maps)) :
      Begun k s (.mmap ud dma pages) { s with maps := maps, op := some (.mmap id) }
  | memMap {req : MapRequest} {dma : DmaOutcome} {id : MapId} {maps : Maps}
      (created : mmapCreate k s.maps req dma = (.ok id, maps)) :
      Begun k s (.memMap req dma) { s with maps := maps, op := some (.memMap id) }
  | pages {ud : MmapArgs} {dma : DmaOutcome} {pages : Bool} (flags : ud.flags = adspMmapAddPages) :
      Begun k s (.mmap ud dma pages) { (bufNew s ud.size ud.flags true).2 with
        op := some (.mmapPages s.nextBuf) }
  | unmaps {a : Action} {fd : Int} {va len : UInt64} {id : MapId} {maps : Maps} {op : Option Op}
      (removed : mmapRemove k s.maps fd va len = .ok (id, maps))
      (next : op = some (.munmap id) ∨ op = some (.memUnmap id)) :
      Begun k s a { s with maps := maps, op := op }
  | findsPages {a : Action} (b : BufId) : Begun k s a { s with op := some (.munmapPages b) }
  | resumed {a : Action} (tid : Tid) (cmd : Cmd) : Begun k s a { s with
      cmds := s.cmds.erase cmd
      freedCmds := cmd.id :: s.freedCmds
      op := some (.notified tid cmd.msg) }
  | removesFd {tid : Tid} {fd : Int} {op : Option Op}
      (fresh : (s.cmds.find? fun cmd => cmd.tid == tid) = none)
      (next : op = s.op ∨ op = some (.notify tid)) :
      Begun k s (.munmapFd tid fd) { s with maps := (mmapRemoveFd k s.maps fd).2.2, op := op }

section calls

variable {k : Uapi} {s t : File} {a : Action}

theorem ctxStep_op {c : CtxId} (h : ctxStep k s c a = some t) : t.op = s.op := by
  cases a with
  | mapBuffer _ i req dma =>
    simp only [ctxStep] at h
    split_ifs at h
    obtain rfl := Option.some.inj h
    unfold FileOperations.mapBuffer
    split <;> rfl
  | mapHandles _ handles =>
    simp only [ctxStep] at h
    split_ifs at h
    obtain rfl := Option.some.inj h
    unfold FileOperations.mapHandles
    dsimp only
    split <;> rfl
  | stageBuffer _ size ok =>
    simp only [ctxStep] at h
    split_ifs at h
    obtain rfl := Option.some.inj h
    unfold FileOperations.stageBuffer
    split
    · rename_i halloc
      rcases bufAlloc_some halloc with ⟨-, -, rfl⟩ | ⟨-, rfl⟩
      · rfl
      · rfl
    · rfl
  | allocMsg _ tx =>
    simp only [ctxStep] at h
    split_ifs at h
    obtain rfl := Option.some.inj h
    unfold allocCtxMsg
    split
    · rename_i halloc
      obtain ⟨i, -, -, rfl⟩ := virtAllocMsg_some halloc
      rfl
    · rfl
  | send _ ok =>
    simp only [ctxStep] at h
    split at h
    · obtain rfl := Option.some.inj h
      rfl
    · cases h
  | contextFree c' =>
    simp only [ctxStep] at h
    split_ifs at h
    obtain rfl := Option.some.inj h
    obtain ⟨_, _, _, _, _, _, hfree⟩ := contextDrop_frame { s with
      pending := s.pending.erase c, interrupted := s.interrupted.erase c } c
    rw [FileOperations.contextFree, hfree]
  | interrupt _ | wake _ | takeAsync _ | putBuffer _ _ | putFdlist _ _ =>
    simp only [ctxStep] at h
    split_ifs at h
    obtain rfl := Option.some.inj h
    rfl
  | _ => cases h

/-- A step that is neither a map call nor the answer to one. -/
def Action.isQuiet : Action → Bool
  | .finishOp _ _ => false
  | a => !a.isMapCall

theorem quiet_not_call (quiet : Action.isQuiet a = true) : a.isMapCall = false := by
  cases a <;> first | rfl | cases quiet

theorem otherStep_quiet (quiet : Action.isQuiet a = true) (h : otherStep k s a = some t) :
    Aside s.op t.op ∧ (t.maps = s.maps ∧ t.ctxs = s.ctxs ∧ live t = live s ∨
      ∃ pid sc isAsync, t = internalInvoke s pid sc isAsync) := by
  cases a with
  | init cid =>
    simp only [otherStep] at h
    split_ifs at h
    obtain rfl := Option.some.inj h
    exact ⟨Or.inl rfl, Or.inl ⟨rfl, rfl, rfl⟩⟩
  | invoke pid sc isAsync =>
    obtain rfl := Option.some.inj h
    refine ⟨Or.inl ?_, Or.inr ⟨pid, sc, isAsync, rfl⟩⟩
    unfold internalInvoke
    split
    · split <;> rfl
    · rfl
  | finishOp ok raddr => cases quiet
  | notifyAlloc tx =>
    simp only [otherStep, FileOperations.notifyAlloc] at h
    split at h
    · rename_i tid hop
      rw [hop]
      split at h
      · rename_i halloc
        obtain ⟨i, -, -, rfl⟩ := virtAllocMsg_some halloc
        obtain rfl := Option.some.inj h
        exact ⟨Or.inr ⟨rfl, rfl⟩, Or.inl ⟨rfl, rfl, rfl⟩⟩
      · obtain rfl := Option.some.inj h
        exact ⟨Or.inr ⟨rfl, rfl⟩, Or.inl ⟨rfl, rfl, rfl⟩⟩
    · cases h
  | notifyDone interrupted saved =>
    simp only [otherStep, FileOperations.notifyDone] at h
    split at h
    · rename_i tid m hop
      rw [hop]
      split_ifs at h
      · obtain rfl := Option.some.inj h
        exact ⟨Or.inr ⟨rfl, rfl⟩, Or.inl ⟨rfl, rfl, rfl⟩⟩
      · obtain rfl := Option.some.inj h
        exact ⟨Or.inr ⟨rfl, rfl⟩, Or.inl ⟨rfl, rfl, rfl⟩⟩
      · obtain rfl := Option.some.inj h
        obtain ⟨_, hfree⟩ := virtFreeMsg_frame s m
        rw [hfree]
        exact ⟨Or.inr ⟨rfl, rfl⟩, Or.inl ⟨rfl, rfl, rfl⟩⟩
    · cases h
  | cmdBegin tx =>
    obtain ⟨⟨m, u⟩, halloc, rfl⟩ := Option.map_eq_some_iff.mp h
    obtain ⟨i, -, -, rfl⟩ := virtAllocMsg_some halloc
    exact ⟨Or.inl rfl, Or.inl ⟨rfl, rfl, rfl⟩⟩
  | cmdEnd m =>
    simp only [otherStep] at h
    split_ifs at h
    obtain rfl := Option.some.inj h
    obtain ⟨_, hfree⟩ := virtFreeMsg_frame s m
    rw [hfree]
    exact ⟨Or.inl rfl, Or.inl ⟨rfl, rfl, rfl⟩⟩
  | foreignClaim i | foreignFree i =>
    simp only [otherStep] at h
    split_ifs at h
    obtain rfl := Option.some.inj h
    exact ⟨Or.inl rfl, Or.inl ⟨rfl, rfl, rfl⟩⟩
  | _ => cases h

/-- The three kinds of steps. -/
theorem step_kinds (h : FileOperations.step k s a = some t) :
    (∃ c ∈ s.pending, a.ctx = some c ∧ ctxStep k s c a = some t) ∨
    (a.isMapCall = true ∧ s.op = none ∧ s.dspProcInit = true ∧ mapCall k s a = some t) ∨
    (a.isMapCall = false ∧ otherStep k s a = some t) := by
  unfold FileOperations.step at h
  split at h
  · rename_i c hctx
    split_ifs at h with hc
    exact Or.inl ⟨c, hc, hctx, h⟩
  · split_ifs at h with hcall hidle
    · exact Or.inr (Or.inl ⟨hcall, hidle.1, hidle.2, h⟩)
    · exact Or.inr (Or.inr ⟨by simpa using hcall, h⟩)

theorem quiet_aside (quiet : Action.isQuiet a = true)
    (hstep : FileOperations.step k s a = some t) : Aside s.op t.op := by
  rcases step_kinds hstep with ⟨c, -, -, hstep⟩ | ⟨hcall, -⟩ | ⟨-, hstep⟩
  · exact Or.inl (ctxStep_op hstep)
  · rw [quiet_not_call quiet] at hcall
    cases hcall
  · exact (otherStep_quiet quiet hstep).1

theorem quiet_moved {id : MapId} (h : Pinned s id) (places : PlacesOk s)
    (unreached : Unreached s id a) (quiet : Action.isQuiet a = true)
    (hstep : FileOperations.step k s a = some t) : ∃ d, Moved s t id d := by
  rcases step_kinds hstep with ⟨c, hc, hctx, hstep⟩ | ⟨hcall, -⟩ | ⟨-, hstep⟩
  · have hnodup := (List.nodup_append.mp places.ctxs.nodup).1
    exact ctxStep_moved h hnodup hc unreached hctx hstep
  · rw [quiet_not_call quiet] at hcall
    cases hcall
  · refine ⟨0, ?_⟩
    rcases (otherStep_quiet quiet hstep).2 with ⟨hmaps, hctxs, hlists⟩ | ⟨pid, sc, isAsync, rfl⟩
    · refine moved_quiet h (hmaps ▸ Shifted.refl _ id) (hlists ▸ List.Perm.refl _) fun _ _ => ?_
      rw [hctxs]
      exact ⟨rfl, rfl⟩
    · exact internalInvoke_moved h places pid sc isAsync

theorem mapCall_begun (h : mapCall k s a = some t) : Begun k s a t := by
  cases a with
  | mmap ud dma pages =>
    obtain rfl := Option.some.inj h
    unfold internalMmap
    split
    · rename_i hflags
      split
      · exact .refused
      split
      · rename_i halloc
        rcases bufAlloc_some halloc with ⟨hfalse, -⟩ | ⟨rfl, rfl⟩
        · cases hfalse
        · exact .pages hflags
      · exact .refused
    · split
      · rename_i hcreate
        exact .mmap hcreate
      · rename_i hcreate
        exact .failed hcreate
  | memMap req dma =>
    obtain rfl := Option.some.inj h
    unfold internalMemMap
    split
    · rename_i hcreate
      exact .memMap hcreate
    · rename_i hcreate
      exact .failed hcreate
  | munmap vaddrout size =>
    obtain rfl := Option.some.inj h
    unfold internalMunmap
    split
    · exact .findsPages _
    split
    · rename_i hremove
      exact .unmaps hremove (Or.inl rfl)
    · exact .refused
  | memUnmap fd vaddr length =>
    obtain rfl := Option.some.inj h
    unfold internalMemUnmap
    split
    · rename_i hremove
      exact .unmaps hremove (Or.inr rfl)
    · exact .refused
  | munmapFd tid fd =>
    obtain rfl := Option.some.inj h
    unfold internalMunmapFd
    split
    · exact .resumed tid _
    · rename_i fresh
      dsimp only
      split_ifs
      · exact .removesFd fresh (Or.inl rfl)
      · exact .removesFd fresh (Or.inr rfl)
  | _ => cases h

end calls

end UserMappings
