import PlatformKernel.GuardedRuns
import PlatformKernel.MapReferences
import PlatformKernel.MapTallies

/-!
# What a map holds

`vfastrpc_mmap_create` and `vfastrpc_mmap_free` with the pointers of the map: the dma-buf,
its attachment and the table of the mapping. What a map has acquired and not released is
counted. Without the pointers these are the functions of `FileMaps`.
-/

namespace MapResources

open CountedLoops FileMaps FileOperations FileMoves GuardedRuns MapLists MapTallies ReturnCodes
open InvokeMessage (bufs)
open MapReferences (uapi)

/-- A pointer as `IS_ERR_OR_NULL` sees it. -/
inductive Ptr where
  | null
  | err
  | valid
  deriving DecidableEq

def isErrOrNull (p : Ptr) : Bool := p != .valid

/-- The members `buf`, `attach` and `table` of `struct vfastrpc_mmap`. -/
inductive Part where
  | buf
  | attach
  | table
  deriving DecidableEq

/-- `structs` and `held` count what was acquired and not released: the structure, and what
stands behind each pointer. -/
structure State where
  maps : Maps
  ptrs : MapId → Part → Ptr
  structs : MapId → Int
  held : MapId → Part → Int

/-- What a pointer stands for. -/
def owned (p : Ptr) : Int := if isErrOrNull p then 0 else 1

def State.setPtr (s : State) (id : MapId) (part : Part) (p : Ptr) : State :=
  { s with ptrs := Function.update s.ptrs id (Function.update (s.ptrs id) part p) }

def State.count (s : State) (id : MapId) (part : Part) (n : Int) : State :=
  { s with
    held := Function.update s.held id (Function.update (s.held id) part (s.held id part + n)) }

/-- `map->buf = dma_buf_get(fd)` and the like. -/
def State.assign (s : State) (id : MapId) (part : Part) (p : Ptr) : State :=
  (s.setPtr id part p).count id part (owned p)

/-- Release what a pointer stands for, if it is one, and set it to `NULL`. -/
def State.clear (s : State) (id : MapId) (part : Part) : State :=
  if isErrOrNull (s.ptrs id part) then s
  else (s.count id part (-1)).setPtr id part .null

/-- The end of `vfastrpc_mmap_free`, behind `hlist_del_init`. -/
def releaseMap (s : State) (id : MapId) : State :=
  let s := s.clear id .table
  let s := s.clear id .attach
  let s := s.clear id .buf
  { s with structs := Function.update s.structs id (s.structs id - 1) }

/-- `vfastrpc_mmap_free`. -/
def mmapFree (s : State) (id : Option MapId) (forceFree : Bool) : State :=
  match id with
  | none => s
  | some id =>
    let map := s.maps.mem id
    if heapFlags map.flags then s
    else if map.refs ≤ 0 ∨ map.ctxRefs < 0 then s
    else
      let map := { map with refs := map.refs - 1 }
      let map := if (map.refs ≠ 0 ∨ map.ctxRefs ≠ 0) ∧ forceFree then
        { map with refs := 0, ctxRefs := 0 } else map
      if map.refs = 0 ∧ map.ctxRefs = 0 then
        releaseMap { s with maps := { s.maps.set id map with
          linked := s.maps.linked.erase id, freed := id :: s.maps.freed } } id
      else { s with maps := s.maps.set id map }

/-- What `kzalloc`, `dma_buf_get`, `dma_buf_attach` and `dma_buf_map_attachment` return. -/
structure DmaResult where
  alloc : Bool
  get : Ptr
  attach : Ptr
  table : Ptr

def DmaResult.outcome (d : DmaResult) : DmaOutcome :=
  ⟨d.alloc, !isErrOrNull d.get, !isErrOrNull d.attach, !isErrOrNull d.table⟩

/-- `kzalloc`: the pointers are `NULL`. -/
def kzalloc (s : State) (map : VfastrpcMmap) : State :=
  let id := s.maps.next
  { s with
    maps := { s.maps.set id map with next := id + 1 }
    ptrs := Function.update s.ptrs id fun _ => .null
    structs := Function.update s.structs id (s.structs id + 1) }

/-- `vfastrpc_mmap_create`. -/
def mmapCreate (k : Uapi) (s : State) (req : MapRequest) (d : DmaResult) :
    Except Int MapId × State :=
  match mmapFind s.maps req.fd req.va req.len req.mflags true with
  | .ok (id, maps) => (.ok id, { s with maps := maps })
  | .error _ =>
    if d.alloc = false then (.error verifyErr, s)
    else
      let id := s.maps.next
      let map := initialMap k req
      let s := kzalloc s map
      if heapFlags req.mflags then (.error (-EINVAL), mmapFree s (some id) false)
      else
        let s := s.assign id .buf d.get
        if isErrOrNull d.get then (.error verifyErr, mmapFree s (some id) false)
        else
          let s := s.assign id .attach d.attach
          if isErrOrNull d.attach then (.error verifyErr, mmapFree s (some id) false)
          else
            let s := s.assign id .table d.table
            if isErrOrNull d.table then (.error verifyErr, mmapFree s (some id) false)
            else
              let map := { map with va := req.va, len := req.len }
              (.ok id, { s with maps := mmapAdd (s.maps.set id map) id })

/-- Let a function of the other members change the maps. -/
def State.onMaps (s : State) (f : Maps → Maps) : State := { s with maps := f s.maps }

/-- A context takes a map. -/
def ctxMap (k : Uapi) (s : State) (req : MapRequest) (d : DmaResult) : Except Int MapId × State :=
  match mmapCreate k s req d with
  | (.ok id, s) => (.ok id, s.onMaps fun m =>
      m.set id { m.mem id with ctxRefs := (m.mem id).ctxRefs + 1 })
  | (.error err, s) => (.error err, s)

/-- A context lets a map go. -/
def ctxRelease (s : State) (id : Option MapId) : State :=
  match id with
  | none => s
  | some id =>
    let map := s.maps.mem id
    let map := if map.ctxRefs ≠ 0 then { map with ctxRefs := map.ctxRefs - 1 } else map
    mmapFree (s.onMaps fun m => m.set id map) (some id) false

def releaseSlots (slots : Nat → Option MapId) (lo n : Nat) (s : State) : State :=
  (List.range' lo n).foldl (fun s i => ctxRelease s (slots i)) s

def pointer (ok : Bool) : Ptr := if ok then .valid else .err

/-- Pointers that fail where `dma` says so. -/
def result (dma : DmaOutcome) : DmaResult :=
  ⟨dma.alloc, pointer dma.get, pointer dma.attach, pointer dma.table⟩

/-- One handle of the second loop of `get_args`. -/
def mapHandle (k : Uapi) (sc : UInt32) (handles : Nat → Handle) (i : Nat)
    (st : State × (Nat → Option MapId)) : Flow Int (State × (Nat → Option MapId)) :=
  if (handles i).fd = -1 then .next st
  else
    let flags := if (handles i).attr &&& k.attrNomap ≠ 0 then k.dmahandleNomap else 0
    let attr := (handles i).attr &&& ~~~k.attrKeepMap
    match ctxMap k st.1 ⟨(handles i).fd, attr, 0, 0, flags⟩ (result (handles i).dma) with
    | (.ok id, s) => .next (s, Function.update st.2 i (some id))
    | (.error err, s) => .bail err (releaseSlots st.2 (bufs sc) (i - bufs sc) s, st.2)

/-- `put_args` releases the handles the back end lists. -/
def putFdlist : List UInt64 → State → State
  | [], s => s
  | fd :: rest, s =>
    if fd = 0 then s
    else
      match mmapFind s.maps fd.toUInt32.toInt32.toInt 0 0 0 false with
      | .ok (id, _) => putFdlist rest (ctxRelease s (some id))
      | .error _ => putFdlist rest s

/-- The loop of `vfastrpc_mmap_remove_fd`. -/
def removeFdLoop (k : Uapi) (fd : Int) : List MapId → State → State
  | [], s => s
  | id :: rest, s =>
    if (s.maps.mem id).fd = fd ∧ (s.maps.mem id).keep k then
      removeFdLoop k fd rest (mmapFree s (some id) false)
    else removeFdLoop k fd rest s

/-- The map calls after the back end answered; only `vfastrpc_mmap_free` looks at the
pointers. -/
def finishOp (k : Uapi) (f : File) (s : State) (ok : Bool) (raddr : UInt64) : State :=
  match f.op with
  | some (.mmap id) => if ok then s.onMaps fun m => m.set id { m.mem id with raddr := raddr }
    else mmapFree s (some id) false
  | some (.memMap id) =>
    if (s.maps.mem id).raddr = 0 ∧ ok then
      s.onMaps fun m => m.set id { m.mem id with raddr := raddr }
    else mmapFree s (some id) false
  | some (.munmap id) =>
    if ok then mmapFree s (some id) false else s.onMaps fun m => mmapAdd m id
  | some (.memUnmap id) =>
    if unmappable k (s.maps.mem id) ∧ ok then mmapFree s (some id) false
    else s.onMaps fun m => mmapAdd (if (m.mem id).keep k then
      m.set id { m.mem id with refs := (m.mem id).refs + 1 } else m) id
  | _ => s

/-- The maps and what they hold after a step of the file. -/
def stateAfter (k : Uapi) (f : File) (s : State) : Action → State
  | .mapBuffer _ _ req dma => (ctxMap k s { req with mflags := 0 } (result dma)).2
  | .mapHandles c handles =>
    (loop (mapHandle k (f.ctxs c).sc handles) (bufs (f.ctxs c).sc)
      (InvokeMessage.handles (f.ctxs c).sc) (s, (f.ctxs c).maps)).state.1
  | .putBuffer c i => ctxRelease s ((f.ctxs c).maps i)
  | .putFdlist _ fdlist => putFdlist (fdlist.take InvokeMessage.mFdlist.toNat) s
  | .contextFree c => releaseSlots (f.ctxs c).maps 0 (bufs (f.ctxs c).sc) s
  | .mmap ud dma _ =>
    if ud.flags = adspMmapAddPages then s
    else (mmapCreate k s ⟨ud.fd, 0, ud.vaddrin, ud.size, ud.flags⟩ (result dma)).2
  | .memMap req dma => (mmapCreate k s req (result dma)).2
  | .munmap vaddrout size => s.onMaps fun _ => (internalMunmap k f vaddrout size).maps
  | .memUnmap fd vaddr length => s.onMaps fun _ => (internalMemUnmap k f fd vaddr length).maps
  | .munmapFd tid fd =>
    if (f.cmds.find? fun cmd => cmd.tid == tid).isSome then s
    else removeFdLoop k fd s.maps.linked s
  | .finishOp ok raddr => finishOp k f s ok raddr
  | _ => s

structure HeldFile where
  file : File
  state : State

def HeldFile.opened : HeldFile where
  file := File.opened
  state := ⟨.empty, fun _ _ => .null, fun _ => 0, fun _ _ => 0⟩

def step (k : Uapi) (s : HeldFile) (a : Action) : Option HeldFile :=
  (FileOperations.step k s.file a).map fun f => ⟨f, stateAfter k s.file s.state a⟩

section erasure

variable (s : State) (id : MapId) (part : Part)

@[simp] theorem assign_maps (p : Ptr) : (s.assign id part p).maps = s.maps := rfl

@[simp] theorem clear_maps : (s.clear id part).maps = s.maps := by
  unfold State.clear
  split_ifs <;> rfl

@[simp] theorem releaseMap_maps : (releaseMap s id).maps = s.maps := by
  simp [releaseMap]

theorem mmapFree_maps (slot : Option MapId) (force : Bool) :
    (mmapFree s slot force).maps = FileMaps.mmapFree s.maps slot force := by
  cases slot with
  | none => rfl
  | some id =>
    simp only [mmapFree, FileMaps.mmapFree, apply_ite State.maps, releaseMap_maps]

theorem mmapCreate_maps (k : Uapi) (req : MapRequest) (d : DmaResult) :
    ((mmapCreate k s req d).1, (mmapCreate k s req d).2.maps) =
      FileMaps.mmapCreate k s.maps req d.outcome := by
  simp only [mmapCreate, FileMaps.mmapCreate]
  cases mmapFind s.maps req.fd req.va req.len req.mflags true with
  | ok found => rfl
  | error err =>
    dsimp only [DmaResult.outcome]
    split_ifs <;> simp_all [mmapFree_maps, kzalloc, initialMap]

@[simp] theorem pointer_valid (ok : Bool) : isErrOrNull (pointer ok) = !ok := by
  cases ok <;> rfl

theorem result_outcome (dma : DmaOutcome) : (result dma).outcome = dma := by
  simp [DmaResult.outcome, result]

theorem ctxMap_maps (k : Uapi) (req : MapRequest) (d : DmaResult) :
    ((ctxMap k s req d).1, (ctxMap k s req d).2.maps) =
      FileMaps.ctxMap k s.maps req d.outcome := by
  have created := mmapCreate_maps s k req d
  unfold ctxMap FileMaps.ctxMap
  rw [← created]
  rcases mmapCreate k s req d with ⟨result, t⟩
  cases result <;> rfl

theorem ctxRelease_maps (slot : Option MapId) :
    (ctxRelease s slot).maps = FileMaps.ctxRelease s.maps slot := by
  cases slot with
  | none => rfl
  | some id => exact mmapFree_maps _ _ _

theorem releaseSlots_maps (slots : Nat → Option MapId) (lo n : Nat) :
    (releaseSlots slots lo n s).maps = FileOperations.releaseSlots slots lo n s.maps := by
  unfold releaseSlots FileOperations.releaseSlots
  generalize List.range' lo n = indices
  induction indices generalizing s with
  | nil => rfl
  | cons i rest ih =>
    rw [List.foldl_cons, List.foldl_cons, ih, ctxRelease_maps]

theorem mapHandle_maps (k : Uapi) (sc : UInt32) (handles : Nat → Handle) (i : Nat)
    (st : State × (Nat → Option MapId)) :
    (mapHandle k sc handles i st).map (fun st => (st.1.maps, st.2)) =
      FileOperations.mapHandle k sc handles i (st.1.maps, st.2) := by
  by_cases hfd : (handles i).fd = -1
  · simp only [mapHandle, FileOperations.mapHandle, if_pos hfd, Flow.map]
  · have taken := ctxMap_maps st.1 k ⟨(handles i).fd, (handles i).attr &&& ~~~k.attrKeepMap, 0, 0,
      if (handles i).attr &&& k.attrNomap ≠ 0 then k.dmahandleNomap else 0⟩
      (result (handles i).dma)
    rw [result_outcome] at taken
    simp only [mapHandle, FileOperations.mapHandle, if_neg hfd]
    rw [← taken]
    generalize ctxMap k st.1 _ _ = r
    obtain ⟨res, t⟩ := r
    cases res with
    | ok id => rfl
    | error err => simp only [Flow.map, releaseSlots_maps]

theorem putFdlist_maps (fdlist : List UInt64) :
    (putFdlist fdlist s).maps = FileOperations.putFdlist fdlist s.maps := by
  induction fdlist generalizing s with
  | nil => rfl
  | cons fd rest ih =>
    unfold putFdlist FileOperations.putFdlist
    split
    · rfl
    cases hfind : mmapFind s.maps fd.toUInt32.toInt32.toInt 0 0 0 false with
    | error err => exact ih s
    | ok found =>
      have same : found.2 = s.maps := by
        rcases (mmapFind_ok hfind).2 with ⟨-, same⟩ | ⟨htrue, -⟩
        · exact same
        · cases htrue
      dsimp only
      rw [ih, ctxRelease_maps, same]

theorem removeFdLoop_maps (k : Uapi) (fd : Int) (ids : List MapId) (err : Int) (entries : Nat) :
    (removeFdLoop k fd ids s).maps = (FileMaps.removeFdLoop k fd ids err entries s.maps).2.2 := by
  induction ids generalizing s err entries with
  | nil => rfl
  | cons id rest ih =>
    unfold removeFdLoop FileMaps.removeFdLoop
    dsimp only
    split_ifs
    all_goals first
      | exact ih _ _ _
      | rw [ih, mmapFree_maps]

end erasure

section steps

variable {k : Uapi} {f g : File} {s : State}

theorem finishOp_maps {ok : Bool} {raddr : UInt64} (maps : s.maps = f.maps)
    (h : FileOperations.finishOp k f ok raddr = some g) :
    (finishOp k f s ok raddr).maps = g.maps := by
  unfold FileOperations.finishOp at h
  unfold finishOp
  split at h
  · rename_i hop
    obtain rfl := Option.some.inj h
    simp only [hop, apply_ite State.maps, mmapFree_maps, State.onMaps, maps]
  · rename_i hop
    obtain rfl := Option.some.inj h
    simp only [hop, apply_ite State.maps, mmapFree_maps, State.onMaps, maps]
  · rename_i hop
    obtain rfl := Option.some.inj h
    simp only [hop, apply_ite State.maps, mmapFree_maps, State.onMaps, maps]
  · rename_i hop
    obtain rfl := Option.some.inj h
    simp only [hop, apply_ite State.maps, mmapFree_maps, State.onMaps, maps]
  · rename_i hop
    obtain rfl := Option.some.inj h
    simp only [hop, maps]
  · rename_i b hop
    obtain rfl := Option.some.inj h
    obtain ⟨_, _, _, _, _, hfree⟩ := bufFree_frame f b false
    simp only [hop, hfree, maps]
    split_ifs <;> rfl
  · cases h

/-- The maps of a run with pointers are those of the run of the file. -/
theorem stateAfter_maps {a : Action} (maps : s.maps = f.maps)
    (hstep : FileOperations.step k f a = some g) : (stateAfter k f s a).maps = g.maps := by
  rw [step_maps hstep]
  cases a with
  | mapBuffer c i req dma =>
    have taken := congrArg Prod.snd (ctxMap_maps s k { req with mflags := 0 } (result dma))
    rw [result_outcome, maps] at taken
    exact taken
  | mapHandles c handles =>
    have mapped := loop_map (fun i st => mapHandle_maps k (f.ctxs c).sc handles i st)
      (bufs (f.ctxs c).sc) (InvokeMessage.handles (f.ctxs c).sc) (s, (f.ctxs c).maps)
    simp only [mapsAfter, stateAfter, ← maps, ← mapped]
    cases loop (mapHandle k (f.ctxs c).sc handles) (bufs (f.ctxs c).sc)
      (InvokeMessage.handles (f.ctxs c).sc) (s, (f.ctxs c).maps) <;> rfl
  | putBuffer c i =>
    rw [mapsAfter, ← maps]
    exact ctxRelease_maps s _
  | putFdlist c fdlist =>
    rw [mapsAfter, ← maps]
    exact putFdlist_maps s _
  | contextFree c =>
    rw [mapsAfter, ← maps]
    exact releaseSlots_maps s _ _ _
  | mmap ud dma pages =>
    have created := congrArg Prod.snd
      (mmapCreate_maps s k ⟨ud.fd, 0, ud.vaddrin, ud.size, ud.flags⟩ (result dma))
    rw [result_outcome, maps] at created
    simp only [stateAfter, mapsAfter, apply_ite State.maps, maps]
    split_ifs
    · rfl
    · exact created
  | memMap req dma =>
    have created := congrArg Prod.snd (mmapCreate_maps s k req (result dma))
    rw [result_outcome, maps] at created
    exact created
  | munmapFd tid fd =>
    simp only [stateAfter, mapsAfter, apply_ite State.maps, mmapRemoveFd,
      removeFdLoop_maps s k fd f.maps.linked 0 0, maps]
  | finishOp ok raddr =>
    have answered := step_maps hstep
    rw [← answered]
    exact finishOp_maps maps hstep
  | munmap _ _ | memUnmap _ _ _ => rfl
  | _ => exact maps

end steps

/-- What is held beyond what the pointer of the map stands for. -/
def surplus (s : State) (id : MapId) (part : Part) : Int :=
  s.held id part - owned (s.ptrs id part)

section release

variable (s : State) (id : MapId) (part : Part)

theorem setPtr_ptrs (p : Ptr) (v : MapId) (q : Part) :
    (s.setPtr id part p).ptrs v q = if v = id ∧ q = part then p else s.ptrs v q := by
  simp only [State.setPtr, Function.update_apply]
  split_ifs <;> simp_all

theorem count_held (n : Int) (v : MapId) (q : Part) :
    (s.count id part n).held v q = s.held v q + if v = id ∧ q = part then n else 0 := by
  simp only [State.count, Function.update_apply]
  split_ifs <;> simp_all

theorem clear_ptrs (v : MapId) (q : Part) :
    owned ((s.clear id part).ptrs v q) =
      if v = id ∧ q = part then 0 else owned (s.ptrs v q) := by
  unfold State.clear
  split
  · rename_i hp
    split_ifs with hv
    · rw [hv.1, hv.2, owned, if_pos hp]
    · rfl
  · rw [setPtr_ptrs]
    split_ifs
    · rfl
    · rfl

theorem clear_surplus : surplus (s.clear id part) = surplus s := by
  funext v q
  unfold surplus
  rw [clear_ptrs]
  by_cases hp : isErrOrNull (s.ptrs id part) = true
  · have same : s.clear id part = s := if_pos hp
    rw [same]
    split_ifs with hv
    · rw [hv.1, hv.2, owned, if_pos hp]
    · rfl
  · have held : (s.clear id part).held = (s.count id part (-1)).held := by
      rw [State.clear, if_neg hp]
      rfl
    have one : owned (s.ptrs id part) = 1 := if_neg hp
    rw [held, count_held]
    split_ifs with hv
    · rw [hv.1, hv.2, one]
      omega
    · omega

theorem clear_structs : (s.clear id part).structs = s.structs := by
  unfold State.clear
  split_ifs <;> rfl

theorem releaseMap_surplus : surplus (releaseMap s id) = surplus s :=
  ((clear_surplus _ id .buf).trans (clear_surplus _ id .attach)).trans (clear_surplus s id .table)

theorem releaseMap_ptrs (v : MapId) (q : Part) :
    owned ((releaseMap s id).ptrs v q) = if v = id then 0 else owned (s.ptrs v q) := by
  change owned ((((s.clear id .table).clear id .attach).clear id .buf).ptrs v q) = _
  simp only [clear_ptrs]
  cases q <;> by_cases hv : v = id <;> simp [hv]

theorem releaseMap_structs :
    (releaseMap s id).structs = Function.update s.structs id (s.structs id - 1) := by
  simp only [releaseMap, clear_structs]

/-- The map holds nothing any more, and what is held beyond its pointers is what was. -/
theorem releaseMap_held (v : MapId) (q : Part) :
    (releaseMap s id).held v q = s.held v q - if v = id then owned (s.ptrs id q) else 0 := by
  have same := congrFun (congrFun (releaseMap_surplus s id) v) q
  have ptrs := releaseMap_ptrs s id v q
  unfold surplus at same
  split_ifs with hv
  · subst hv
    rw [if_pos rfl] at ptrs
    omega
  · rw [if_neg hv] at ptrs
    omega

/-- What is held changes exactly when the map goes to `kfree`. -/
theorem mmapFree_cases (force : Bool) :
    let maps := FileMaps.mmapFree s.maps (some id) force
    maps.freed = s.maps.freed ∧ mmapFree s (some id) force = { s with maps := maps } ∨
      maps.freed = id :: s.maps.freed ∧
        mmapFree s (some id) force = releaseMap { s with maps := maps } id := by
  simp only [mmapFree, FileMaps.mmapFree]
  split_ifs
  · exact Or.inl ⟨rfl, rfl⟩
  · exact Or.inl ⟨rfl, rfl⟩
  · exact Or.inr ⟨rfl, rfl⟩
  · exact Or.inl ⟨rfl, rfl⟩
  · exact Or.inr ⟨rfl, rfl⟩
  · exact Or.inl ⟨rfl, rfl⟩

end release

/-- The new map has its structure and what its pointers stand for. -/
structure Built (k : Uapi) (req : MapRequest) (s u : State) : Prop where
  maps : u.maps = { s.maps.set s.maps.next (initialMap k req) with next := s.maps.next + 1 }
  structs : u.structs = Function.update s.structs s.maps.next (s.structs s.maps.next + 1)
  held : ∀ v q, u.held v q =
    s.held v q + if v = s.maps.next then owned (u.ptrs s.maps.next q) else 0
  others : ∀ v ≠ s.maps.next, u.ptrs v = s.ptrs v

/-- Everything is given back and the list is as it was. -/
structure Undone (s t : State) : Prop where
  structs : t.structs = s.structs
  held : t.held = s.held
  linked : t.maps.linked = s.maps.linked
  mem : ∀ id ∈ s.maps.linked, t.maps.mem id = s.maps.mem id

section create

variable {k : Uapi} {req : MapRequest} {s u : State}

theorem kzalloc_built (k : Uapi) (req : MapRequest) (s : State) :
    Built k req s (kzalloc s (initialMap k req)) := by
  refine ⟨rfl, rfl, fun v q => ?_, fun v hv => Function.update_of_ne hv _ _⟩
  have null : (kzalloc s (initialMap k req)).ptrs s.maps.next q = .null := by
    simp [kzalloc]
  rw [null]
  change s.held v q = s.held v q + if v = s.maps.next then 0 else 0
  rw [ite_self, Int.add_zero]

theorem assign_built (h : Built k req s u) {part : Part}
    (null : owned (u.ptrs s.maps.next part) = 0) (p : Ptr) :
    Built k req s (u.assign s.maps.next part p) := by
  refine ⟨h.maps, h.structs, fun v q => ?_, fun v hv =>
    (Function.update_of_ne hv _ _).trans (h.others v hv)⟩
  have held : (u.assign s.maps.next part p).held v q =
      u.held v q + if v = s.maps.next ∧ q = part then owned p else 0 := count_held _ _ _ _ v q
  have ptrs : (u.assign s.maps.next part p).ptrs s.maps.next q =
      if s.maps.next = s.maps.next ∧ q = part then p else u.ptrs s.maps.next q :=
    setPtr_ptrs _ _ _ _ _ _
  rw [held, ptrs, h.held]
  by_cases hv : v = s.maps.next <;> by_cases hq : q = part
  · subst hq
    simp [hv, null]
  · simp [hv, hq]
  · simp [hv]
  · simp [hv]

theorem assign_null {id : MapId} {part q : Part} (hne : q ≠ part) (p : Ptr)
    (null : owned (u.ptrs id q) = 0) : owned ((u.assign id part p).ptrs id q) = 0 := by
  have ptrs : (u.assign id part p).ptrs id q = if id = id ∧ q = part then p else u.ptrs id q :=
    setPtr_ptrs _ _ _ _ _ _
  rw [ptrs, if_neg fun h => hne h.2]
  exact null

/-- The structure that is not released is missed. -/
theorem built_not_undone (h : Built k req s u) {t : State} (structs : t.structs = u.structs) :
    ¬ Undone s t := by
  intro undone
  have same := congrFun (undone.structs.symm.trans (structs.trans h.structs)) s.maps.next
  rw [Function.update_self] at same
  omega

theorem built_released (h : Built k req s u) (listed : Listed s.maps) {maps : Maps}
    (linked : maps.linked = s.maps.linked) (mem : ∀ v ≠ s.maps.next, maps.mem v = s.maps.mem v) :
    Undone s (releaseMap { u with maps := maps } s.maps.next) := by
  refine ⟨?_, ?_, ?_, fun id hid => ?_⟩
  · rw [releaseMap_structs]
    change Function.update u.structs _ (u.structs s.maps.next - 1) = _
    rw [h.structs, Function.update_self, Function.update_idem, Int.add_sub_cancel,
      Function.update_eq_self]
  · funext v q
    rw [releaseMap_held]
    change u.held v q - (if v = s.maps.next then owned (u.ptrs s.maps.next q) else 0) = _
    rw [h.held, Int.add_sub_cancel]
  · rw [releaseMap_maps]
    exact linked
  · rw [releaseMap_maps]
    exact mem id fun heq => next_unlinked listed (heq ▸ hid)

/-- The single `vfastrpc_mmap_free` at the end of a failed creation. -/
theorem aborted_undone_iff (h : Built k req s u) (listed : Listed s.maps) :
    Undone s (mmapFree u (some s.maps.next) false) ↔
      heapFlags req.mflags = false ∧ req.attr &&& k.attrKeepMap = 0 := by
  obtain ⟨refs, hmap, hrefs⟩ := initialMap_eq k req
  have hmem : u.maps.mem s.maps.next = initialMap k req := by
    rw [h.maps]
    exact set_mem_self s.maps _ _
  have outcome := mmapFree_freeing u.maps s.maps.next false
  have kept := mmapFree_cases u s.maps.next false
  dsimp only at kept
  generalize hfree : FileMaps.mmapFree u.maps (some s.maps.next) false = maps at outcome kept
  have unreleased : maps.freed = u.maps.freed →
      ¬ Undone s (mmapFree u (some s.maps.next) false) := by
    intro same
    rcases kept with ⟨-, hsame⟩ | ⟨hfreed, -⟩
    · rw [hsame]
      exact built_not_undone h rfl
    · exact absurd (congrArg List.length (hfreed.symm.trans same)) (by simp)
  cases outcome with
  | refused why =>
    refine iff_of_false (unreleased rfl) fun hcond => ?_
    rw [hmem, hmap] at why
    rcases why with heap | dead | dead
    · rw [show heapFlags req.mflags = true from heap] at hcond
      cases hcond.1
    · dsimp only at dead
      omega
    · exact absurd dead (Int.lt_irrefl 0)
  | dropped refs' ctx force left =>
    refine iff_of_false (unreleased rfl) fun hcond => ?_
    rw [hmem, hmap] at left
    rcases left with hne | hne
    · rcases hrefs with ⟨-, hone⟩ | ⟨hkeep, -⟩
      · exact hne hone
      · exact hkeep hcond.2
    · exact hne rfl
  | freed plain refs' ctx last =>
    rw [hmem, hmap] at plain last
    refine iff_of_true ?_ ⟨plain, ?_⟩
    · rcases kept with ⟨hfreed, -⟩ | ⟨-, hreleased⟩
      · exact absurd (congrArg List.length hfreed) (by simp)
      · rw [hreleased]
        refine built_released h listed ?_ fun v hv => ?_
        · change u.maps.linked.erase s.maps.next = _
          rw [h.maps]
          exact List.erase_of_not_mem (next_unlinked listed)
        · change (u.maps.set s.maps.next _).mem v = _
          rw [set_mem_ne _ _ hv, h.maps]
          exact set_mem_ne _ _ hv
    · have hone : refs = 1 := (last.resolve_left (by decide)).1
      rcases hrefs with ⟨hkeep, -⟩ | ⟨-, ⟨heap, -⟩ | ⟨-, htwo⟩⟩
      · exact hkeep
      · rw [show heapFlags req.mflags = false from plain] at heap
        cases heap
      · omega

/-- How a creation ends that finds no map to share. -/
theorem mmapCreate_built {d : DmaResult} {err : Int} (alloc : d.alloc = true)
    (none : mmapFind s.maps req.fd req.va req.len req.mflags true = .error err) :
    ∃ u, Built k req s u ∧
      ((∃ err, mmapCreate k s req d = (.error err, mmapFree u (some s.maps.next) false)) ∨
        (∀ part, owned (u.ptrs s.maps.next part) = 1) ∧ heapFlags req.mflags = false ∧
          mmapCreate k s req d = (.ok s.maps.next, u.onMaps fun m => mmapAdd (m.set s.maps.next
            { initialMap k req with va := req.va, len := req.len }) s.maps.next)) := by
  have start := kzalloc_built k req s
  have null : ∀ part, owned ((kzalloc s (initialMap k req)).ptrs s.maps.next part) = 0 := by
    intro part
    simp [kzalloc, owned, isErrOrNull]
  have buf := assign_built start (null .buf) d.get
  have noAttach := assign_null (show Part.attach ≠ .buf by decide) d.get (null .attach)
  have attach := assign_built buf noAttach d.attach
  have noTable := assign_null (show Part.table ≠ .attach by decide) d.attach
    (assign_null (show Part.table ≠ .buf by decide) d.get (null .table))
  have table := assign_built attach noTable d.table
  have valid : ∀ p, ¬ isErrOrNull p = true → p = .valid := by
    intro p hp
    simpa [isErrOrNull] using hp
  simp only [mmapCreate, none, alloc, Bool.true_eq_false, if_false]
  split_ifs with hheap hget hattach htable
  · exact ⟨_, start, Or.inl ⟨_, rfl⟩⟩
  · exact ⟨_, buf, Or.inl ⟨_, rfl⟩⟩
  · exact ⟨_, attach, Or.inl ⟨_, rfl⟩⟩
  · exact ⟨_, table, Or.inl ⟨_, rfl⟩⟩
  · refine ⟨_, table, Or.inr ⟨fun part => ?_, by simpa using hheap, rfl⟩⟩
    rw [valid _ hget, valid _ hattach, valid _ htable]
    simp only [State.assign, State.count, setPtr_ptrs]
    cases part <;> simp [owned, isErrOrNull]

end create

section runs

variable {k : Uapi} {s t : HeldFile} {a : Action}

theorem step_file (h : step k s a = some t) :
    FileOperations.step k s.file a = some t.file ∧
      t.state = stateAfter k s.file s.state a := by
  obtain ⟨f, hstep, rfl⟩ := Option.map_eq_some_iff.mp h
  exact ⟨hstep, rfl⟩

/-- The file is one of `FileOperations`, and its maps are those with the pointers. -/
structure Tracked (s : HeldFile) : Prop where
  maps : s.state.maps = s.file.maps
  sane : Sane s.file

theorem opened_tracked : Tracked HeldFile.opened := ⟨rfl, opened_sane⟩

theorem step_tracked (h : Tracked s) (hstep : step k s a = some t) : Tracked t := by
  obtain ⟨hfile, hstate⟩ := step_file hstep
  exact ⟨hstate ▸ stateAfter_maps h.maps hfile, step_sane h.sane hfile⟩

theorem run_tracked {as : List Action} (run : exec (step k) HeldFile.opened as = some s) :
    Tracked s :=
  exec_invariant (fun _ _ _ h hstep => step_tracked h hstep) opened_tracked run

end runs

/-- A creation that fails after the structure is allocated gives everything back if, and
only if, its flags are supported and it does not ask for `KEEP_MAP`. -/
theorem failed_create_undone_iff (k : Uapi) (as : List Action) (s : HeldFile)
    (run : exec (step k) HeldFile.opened as = some s) (req : MapRequest) (d : DmaResult)
    (alloc : d.alloc = true) (err : Int)
    (failed : (mmapCreate k s.state req d).1 = .error err) :
    Undone s.state (mmapCreate k s.state req d).2 ↔
      heapFlags req.mflags = false ∧ req.attr &&& k.attrKeepMap = 0 := by
  have tracked := run_tracked run
  have listed : Listed s.state.maps := tracked.maps ▸ tracked.sane.listed.maps
  cases hfind : mmapFind s.state.maps req.fd req.va req.len req.mflags true with
  | ok found =>
    simp only [mmapCreate, hfind] at failed
    cases failed
  | error e =>
    obtain ⟨u, built, ⟨e', haborted⟩ | ⟨-, -, hcreated⟩⟩ := mmapCreate_built (k := k) alloc hfind
    · rw [haborted]
      exact aborted_undone_iff built listed
    · rw [hcreated] at failed
      cases failed

/-- `dma_buf_attach` fails for a request without `KEEP_MAP`, and everything is given back. -/
theorem failed_attach_undone :
    (mmapCreate uapi HeldFile.opened.state ⟨5, 0, 0x1000, 0x1000, 2⟩
      ⟨true, .valid, .err, .null⟩).1 = .error verifyErr ∧
    Undone HeldFile.opened.state (mmapCreate uapi HeldFile.opened.state ⟨5, 0, 0x1000, 0x1000, 2⟩
      ⟨true, .valid, .err, .null⟩).2 :=
  ⟨rfl, (failed_create_undone_iff uapi [] _ rfl _ _ rfl verifyErr rfl).mpr
    ⟨by decide, by decide⟩⟩

/-- With `KEEP_MAP` the same failure leaves the structure and the dma-buf; with heap flags
the structure is left. -/
theorem failed_create_leaks :
    (let t := (mmapCreate uapi HeldFile.opened.state ⟨5, 8, 0x1000, 0x1000, 2⟩
      ⟨true, .valid, .err, .null⟩)
    t.1 = .error verifyErr ∧ t.2.structs 0 = 1 ∧ t.2.held 0 .buf = 1 ∧ t.2.maps.linked = [] ∧
      ¬ Undone HeldFile.opened.state t.2) ∧
    (let t := (mmapCreate uapi HeldFile.opened.state ⟨5, 0, 0x1000, 0x1000, adspMmapHeapAddr⟩
      ⟨true, .valid, .valid, .valid⟩)
    t.1 = .error (-EINVAL) ∧ t.2.structs 0 = 1 ∧ t.2.maps.linked = [] ∧
      ¬ Undone HeldFile.opened.state t.2) := by
  refine ⟨⟨rfl, by decide, by decide, rfl, fun undone => ?_⟩, rfl, by decide, rfl,
    fun undone => ?_⟩
  · exact absurd (congrFun undone.structs 0) (by decide)
  · exact absurd (congrFun undone.structs 0) (by decide)

end MapResources
