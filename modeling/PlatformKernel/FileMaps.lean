import Mathlib.Data.List.Nodup
import Mathlib.Data.List.Perm.Basic
import Mathlib.Logic.Function.Basic
import PlatformKernel.ReturnCodes

/-!
# The maps of a file

`vfastrpc_mmap_*` of `virtio_fastrpc_mem.c`. A map is identified by its allocation,
so an identifier is never used again; the contents of a freed map stay as they were,
which is what a pointer left behind would read. `linked` is `fl->maps`, head first,
and `freed` the history of `kfree`.
-/

namespace FileMaps

open ReturnCodes

abbrev MapId := Nat

/-- Constants of the user interface, whose header is not part of the repository. -/
structure Uapi where
  attrKeepMap : UInt32
  attrNomap : UInt32
  dmahandleNomap : UInt32
  mapFd : UInt32
  mapFdDelayed : UInt32
  mapStatic : UInt32

structure VfastrpcMmap where
  fd : Int
  flags : UInt32
  va : UInt64
  len : UInt64
  raddr : UInt64
  refs : Int
  attr : UInt32
  ctxRefs : Int
  deriving DecidableEq

def adspMmapHeapAddr : UInt32 := 4
def adspMmapRemoteHeapAddr : UInt32 := 8

/-- `ADSP_MMAP_HEAP_ADDR` and `ADSP_MMAP_REMOTE_HEAP_ADDR` are refused everywhere. -/
def heapFlags (flags : UInt32) : Bool :=
  flags == adspMmapHeapAddr || flags == adspMmapRemoteHeapAddr

def VfastrpcMmap.keep (k : Uapi) (map : VfastrpcMmap) : Bool :=
  map.attr &&& k.attrKeepMap != 0

structure Maps where
  mem : MapId → VfastrpcMmap
  linked : List MapId
  freed : List MapId
  next : MapId

def Maps.empty : Maps where
  mem := fun _ => ⟨0, 0, 0, 0, 0, 0, 0, 0⟩
  linked := []
  freed := []
  next := 0

def Maps.set (s : Maps) (id : MapId) (map : VfastrpcMmap) : Maps :=
  { s with mem := Function.update s.mem id map }

/-- `vfastrpc_mmap_add`. -/
def mmapAdd (s : Maps) (id : MapId) : Maps :=
  if heapFlags (s.mem id).flags then s else { s with linked := id :: s.linked }

/-- `vfastrpc_mmap_free`. -/
def mmapFree (s : Maps) (id : Option MapId) (forceFree : Bool) : Maps :=
  match id with
  | none => s
  | some id =>
    let map := s.mem id
    if heapFlags map.flags then s
    else if map.refs ≤ 0 ∨ map.ctxRefs < 0 then s
    else
      let map := { map with refs := map.refs - 1 }
      let map := if (map.refs ≠ 0 ∨ map.ctxRefs ≠ 0) ∧ forceFree then
        { map with refs := 0, ctxRefs := 0 } else map
      if map.refs = 0 ∧ map.ctxRefs = 0 then
        { s.set id map with linked := s.linked.erase id, freed := id :: s.freed }
      else s.set id map

/-- The test in `vfastrpc_mmap_remove`; `fd < 0` stands for any descriptor. -/
def removable (k : Uapi) (map : VfastrpcMmap) (fd : Int) (va len : UInt64) : Bool :=
  (fd < 0 || map.fd == fd) && map.raddr == va && map.raddr + map.len == va + len &&
    (map.refs == 1 || (map.refs == 2 && map.keep k)) && map.ctxRefs == 0

/-- `vfastrpc_mmap_remove`. -/
def mmapRemove (k : Uapi) (s : Maps) (fd : Int) (va len : UInt64) : Except Int (MapId × Maps) :=
  match s.linked.find? fun id => removable k (s.mem id) fd va len with
  | none => .error (-ETOOMANYREFS)
  | some id =>
    let map := s.mem id
    let map := if map.keep k then { map with refs := map.refs - 1 } else map
    .ok (id, { s.set id map with linked := s.linked.erase id })

/-- The loop of `vfastrpc_mmap_remove_fd` over the maps linked at its start. -/
def removeFdLoop (k : Uapi) (fd : Int) : List MapId → Int → Nat → Maps → Int × Nat × Maps
  | [], err, entries, s => (err, entries, s)
  | id :: rest, err, entries, s =>
    let map := s.mem id
    if map.fd = fd ∧ map.keep k then
      let err := if 1 < map.refs ∨ map.ctxRefs ≠ 0 then -ETOOMANYREFS else err
      removeFdLoop k fd rest err (entries + 1) (mmapFree s (some id) false)
    else removeFdLoop k fd rest err entries s

/-- `vfastrpc_mmap_remove_fd`: its error, the number of entries, and the maps. -/
def mmapRemoveFd (k : Uapi) (s : Maps) (fd : Int) : Int × Nat × Maps :=
  removeFdLoop k fd s.linked 0 0 s

/-- The test in `vfastrpc_mmap_find`. -/
def covers (map : VfastrpcMmap) (fd : Int) (va len : UInt64) : Bool :=
  map.va ≤ va && va + len ≤ map.va + map.len && map.fd == fd

/-- `vfastrpc_mmap_find`. -/
def mmapFind (s : Maps) (fd : Int) (va len : UInt64) (mflags : UInt32) (refs : Bool) :
    Except Int (MapId × Maps) :=
  if va + len < va then .error (-EOVERFLOW)
  else if heapFlags mflags then .error (-ENOTTY)
  else
    match s.linked.find? fun id => covers (s.mem id) fd va len with
    | none => .error (-ENOTTY)
    | some id =>
      let map := s.mem id
      if refs then
        if map.refs + 1 = intMax then .error (-ETOOMANYREFS)
        else .ok (id, s.set id { map with refs := map.refs + 1 })
      else .ok (id, s)

/-- Whether `kzalloc`, `dma_buf_get`, `dma_buf_attach` and `dma_buf_map_attachment`
succeed. -/
structure DmaOutcome where
  alloc : Bool
  get : Bool
  attach : Bool
  table : Bool

def DmaOutcome.mapped : DmaOutcome := ⟨true, true, true, true⟩

/-- Arguments of `vfastrpc_mmap_create`. -/
structure MapRequest where
  fd : Int
  attr : UInt32
  va : UInt64
  len : UInt64
  mflags : UInt32

/-- `vfastrpc_mmap_create`. A map that is not completed goes through `mmapFree` before it
is linked. -/
def mmapCreate (k : Uapi) (s : Maps) (req : MapRequest) (dma : DmaOutcome) :
    Except Int MapId × Maps :=
  match mmapFind s req.fd req.va req.len req.mflags true with
  | .ok (id, s) => (.ok id, s)
  | .error _ =>
    if dma.alloc = false then (.error verifyErr, s)
    else
      let id := s.next
      let map : VfastrpcMmap := ⟨req.fd, req.mflags, 0, 0, 0, 1, req.attr, 0⟩
      let map := if map.keep k ∧ heapFlags req.mflags = false then { map with refs := 2 } else map
      let s := { s.set id map with next := id + 1 }
      if heapFlags req.mflags then (.error (-EINVAL), mmapFree s (some id) false)
      else if dma.get ∧ dma.attach ∧ dma.table then
        (.ok id, mmapAdd (s.set id { map with va := req.va, len := req.len }) id)
      else (.error verifyErr, mmapFree s (some id) false)

/-- A context takes a map: `vfastrpc_mmap_create`, then `ctx_refs++`. -/
def ctxMap (k : Uapi) (s : Maps) (req : MapRequest) (dma : DmaOutcome) :
    Except Int MapId × Maps :=
  match mmapCreate k s req dma with
  | (.ok id, s) => (.ok id, s.set id { s.mem id with ctxRefs := (s.mem id).ctxRefs + 1 })
  | (.error err, s) => (.error err, s)

/-- A context lets a map go: `ctx_refs--` unless it is zero, then `vfastrpc_mmap_free`. -/
def ctxRelease (s : Maps) (id : Option MapId) : Maps :=
  match id with
  | none => s
  | some id =>
    let map := s.mem id
    let map := if map.ctxRefs ≠ 0 then { map with ctxRefs := map.ctxRefs - 1 } else map
    mmapFree (s.set id map) (some id) false

@[simp] theorem set_mem_self (s : Maps) (id : MapId) (map : VfastrpcMmap) :
    (s.set id map).mem id = map := by
  simp [Maps.set]

theorem set_mem_ne (s : Maps) {id v : MapId} (map : VfastrpcMmap) (h : v ≠ id) :
    (s.set id map).mem v = s.mem v := by
  simp [Maps.set, h]

/-- A map with other counts. -/
def VfastrpcMmap.withRefs (map : VfastrpcMmap) (refs ctxRefs : Int) : VfastrpcMmap :=
  { map with refs := refs, ctxRefs := ctxRefs }

section withRefs

variable (map : VfastrpcMmap) (refs ctxRefs : Int)

@[simp] theorem withRefs_refs : (map.withRefs refs ctxRefs).refs = refs := rfl
@[simp] theorem withRefs_ctxRefs : (map.withRefs refs ctxRefs).ctxRefs = ctxRefs := rfl
@[simp] theorem withRefs_flags : (map.withRefs refs ctxRefs).flags = map.flags := rfl
@[simp] theorem withRefs_keep (k : Uapi) : (map.withRefs refs ctxRefs).keep k = map.keep k := rfl
theorem withRefs_same : map.withRefs map.refs map.ctxRefs = map := rfl

end withRefs

@[simp] theorem set_set (s : Maps) (id : MapId) (map map' : VfastrpcMmap) :
    (s.set id map).set id map' = s.set id map' := by
  simp [Maps.set]

theorem set_same (s : Maps) (id : MapId) : s.set id (s.mem id) = s := by
  simp [Maps.set]

/-- The outcomes of `vfastrpc_mmap_free`. -/
inductive Freeing (s : Maps) (id : MapId) (force : Bool) : Maps → Prop where
  | refused (why : heapFlags (s.mem id).flags = true ∨ (s.mem id).refs ≤ 0 ∨
      (s.mem id).ctxRefs < 0) : Freeing s id force s
  | dropped (refs : 0 < (s.mem id).refs) (ctx : 0 ≤ (s.mem id).ctxRefs) (kept : force = false)
      (left : (s.mem id).refs ≠ 1 ∨ (s.mem id).ctxRefs ≠ 0) :
      Freeing s id force (s.set id
        ((s.mem id).withRefs ((s.mem id).refs - 1) (s.mem id).ctxRefs))
  | freed (plain : heapFlags (s.mem id).flags = false) (refs : 0 < (s.mem id).refs)
      (ctx : 0 ≤ (s.mem id).ctxRefs)
      (last : force = true ∨ (s.mem id).refs = 1 ∧ (s.mem id).ctxRefs = 0) :
      Freeing s id force { s.set id ((s.mem id).withRefs 0 0) with
        linked := s.linked.erase id
        freed := id :: s.freed }

theorem mmapFree_freeing (s : Maps) (id : MapId) (force : Bool) :
    Freeing s id force (mmapFree s (some id) force) := by
  simp only [mmapFree]
  split_ifs with hheap hdead hforce hzero hzero
  · exact .refused (Or.inl hheap)
  · exact .refused (Or.inr hdead)
  · obtain ⟨hrefs, hctx⟩ := not_or.mp hdead
    exact .freed (by simpa using hheap) (by omega) (by omega) (Or.inl hforce.2)
  · exact False.elim (hzero ⟨rfl, rfl⟩)
  · obtain ⟨hrefs, hctx⟩ := not_or.mp hdead
    obtain ⟨hone, hnone⟩ := hzero
    dsimp only at hone hnone
    have same : (s.mem id).withRefs ((s.mem id).refs - 1) (s.mem id).ctxRefs =
        (s.mem id).withRefs 0 0 := by rw [hone, hnone]
    have freed : Freeing s id force _ := .freed (by simpa using hheap) (by omega) (by omega)
      (Or.inr ⟨by omega, hnone⟩)
    rw [← same] at freed
    exact freed
  · obtain ⟨hrefs, hctx⟩ := not_or.mp hdead
    have left : (s.mem id).refs - 1 ≠ 0 ∨ (s.mem id).ctxRefs ≠ 0 := not_and_or.mp hzero
    refine .dropped (by omega) (by omega) ?_ (left.imp_left fun h => by omega)
    by_contra hf
    exact hforce ⟨left, by simpa using hf⟩

theorem mmapFree_mem_ne (s : Maps) {id v : MapId} (force : Bool) (h : v ≠ id) :
    (mmapFree s (some id) force).mem v = s.mem v := by
  have outcome := mmapFree_freeing s id force
  generalize mmapFree s (some id) force = r at outcome ⊢
  cases outcome with
  | refused why => rfl
  | dropped refs ctx kept left => exact set_mem_ne s _ h
  | freed plain refs ctx last => exact set_mem_ne s _ h

theorem mmapFind_ok {s t : Maps} {fd : Int} {va len : UInt64} {mflags : UInt32} {refs : Bool}
    {id : MapId} (h : mmapFind s fd va len mflags refs = .ok (id, t)) :
    id ∈ s.linked ∧ (refs = false ∧ t = s ∨ refs = true ∧ (s.mem id).refs + 1 ≠ intMax ∧
      t = s.set id ((s.mem id).withRefs ((s.mem id).refs + 1) (s.mem id).ctxRefs)) := by
  unfold mmapFind at h
  split at h
  · cases h
  split at h
  · cases h
  split at h
  · cases h
  rename_i v hv
  have hmem := List.mem_of_find?_eq_some hv
  dsimp only at h
  split_ifs at h with hrefs hmax
  · obtain ⟨rfl, rfl⟩ := Prod.mk.inj (Except.ok.inj h)
    exact ⟨hmem, Or.inr ⟨hrefs, hmax, rfl⟩⟩
  · obtain ⟨rfl, rfl⟩ := Prod.mk.inj (Except.ok.inj h)
    exact ⟨hmem, Or.inl ⟨by simpa using hrefs, rfl⟩⟩

/-- The outcomes of `vfastrpc_mmap_create`. A map that is abandoned with its `KEEP_MAP`
reference, or with heap flags, is neither linked nor freed. -/
inductive Creating (s : Maps) : Except Int MapId × Maps → Prop where
  | found {id : MapId} (linked : id ∈ s.linked) (room : (s.mem id).refs + 1 ≠ intMax) :
      Creating s (.ok id, s.set id
        ((s.mem id).withRefs ((s.mem id).refs + 1) (s.mem id).ctxRefs))
  | failed (err : Int) : Creating s (.error err, s)
  | created {map : VfastrpcMmap} (plain : heapFlags map.flags = false)
      (refs : map.refs = 1 ∨ map.refs = 2) (ctx : map.ctxRefs = 0) :
      Creating s (.ok s.next, { s.set s.next map with
        next := s.next + 1, linked := s.next :: s.linked })
  | abandoned (err : Int) (map : VfastrpcMmap) :
      Creating s (.error err, { s.set s.next map with next := s.next + 1 })
  | discarded (err : Int) {map : VfastrpcMmap} (refs : map.refs = 0) (ctx : map.ctxRefs = 0) :
      Creating s (.error err, { s.set s.next map with
        next := s.next + 1, linked := s.linked.erase s.next, freed := s.next :: s.freed })

theorem creating_abort (s : Maps) (map : VfastrpcMmap) (err : Int) :
    Creating s (.error err,
      mmapFree { s.set s.next map with next := s.next + 1 } (some s.next) false) := by
  generalize ht : ({ s.set s.next map with next := s.next + 1 } : Maps) = t
  have same : ∀ map', t.set s.next map' = { s.set s.next map' with next := s.next + 1 } := by
    intro map'
    rw [← ht]
    simp [Maps.set]
  have outcome := mmapFree_freeing t s.next false
  generalize mmapFree t (some s.next) false = r at outcome ⊢
  cases outcome with
  | refused why =>
    rw [← ht]
    exact .abandoned err map
  | dropped refs ctx kept left =>
    rw [same]
    exact .abandoned err _
  | freed plain refs ctx last =>
    rw [same, ← ht]
    exact .discarded err rfl rfl

theorem creating_add {s : Maps} (map : VfastrpcMmap) {map' : VfastrpcMmap}
    (plain : heapFlags map'.flags = false) (refs : map'.refs = 1 ∨ map'.refs = 2)
    (ctx : map'.ctxRefs = 0) :
    Creating s (.ok s.next,
      mmapAdd (Maps.set { s.set s.next map with next := s.next + 1 } s.next map') s.next) := by
  have same : Maps.set { s.set s.next map with next := s.next + 1 } s.next map' =
      { s.set s.next map' with next := s.next + 1 } := by
    simp [Maps.set]
  have hmem : ({ s.set s.next map' with next := s.next + 1 } : Maps).mem s.next = map' :=
    set_mem_self s s.next map'
  rw [same, mmapAdd, hmem, plain]
  exact .created plain refs ctx

theorem mmapCreate_creating (k : Uapi) (s : Maps) (req : MapRequest) (dma : DmaOutcome) :
    Creating s (mmapCreate k s req dma) := by
  unfold mmapCreate
  split
  · rename_i id t hfind
    obtain ⟨hlinked, hcases⟩ := mmapFind_ok hfind
    rcases hcases with ⟨hfalse, -⟩ | ⟨-, hmax, rfl⟩
    · cases hfalse
    · exact .found hlinked hmax
  · dsimp only
    split
    · exact .failed _
    split
    · exact creating_abort s _ _
    split
    · rename_i hheap hdma
      have hplain : heapFlags req.mflags = false := by simpa using hheap
      refine creating_add _ ?_ ?_ ?_
      · split_ifs <;> exact hplain
      · split_ifs
        · exact Or.inr rfl
        · exact Or.inl rfl
      · split_ifs <;> rfl
    · exact creating_abort s _ _

/-- The map as `vfastrpc_mmap_create` fills it in before it asks for the dma-buf. -/
def initialMap (k : Uapi) (req : MapRequest) : VfastrpcMmap :=
  let map : VfastrpcMmap := ⟨req.fd, req.mflags, 0, 0, 0, 1, req.attr, 0⟩
  if map.keep k ∧ heapFlags req.mflags = false then { map with refs := 2 } else map

theorem initialMap_eq (k : Uapi) (req : MapRequest) :
    ∃ refs, initialMap k req = ⟨req.fd, req.mflags, 0, 0, 0, refs, req.attr, 0⟩ ∧
      (req.attr &&& k.attrKeepMap = 0 ∧ refs = 1 ∨
        req.attr &&& k.attrKeepMap ≠ 0 ∧ (heapFlags req.mflags = true ∧ refs = 1 ∨
          heapFlags req.mflags = false ∧ refs = 2)) := by
  unfold initialMap
  by_cases hkeep : req.attr &&& k.attrKeepMap = 0
  · refine ⟨1, ?_, Or.inl ⟨hkeep, rfl⟩⟩
    simp [VfastrpcMmap.keep, hkeep]
  · cases hheap : heapFlags req.mflags with
    | true => exact ⟨1, by simp, Or.inr ⟨hkeep, Or.inl ⟨rfl, rfl⟩⟩⟩
    | false => exact ⟨2, by simp [VfastrpcMmap.keep, hkeep], Or.inr ⟨hkeep, Or.inr ⟨rfl, rfl⟩⟩⟩

/-- `vfastrpc_mmap_create` when there is no map to share. -/
theorem mmapCreate_new {k : Uapi} {s : Maps} {req : MapRequest} {err : Int} (dma : DmaOutcome)
    (none : mmapFind s req.fd req.va req.len req.mflags true = .error err) :
    mmapCreate k s req dma =
      if dma.alloc = false then (.error verifyErr, s)
      else
        let t := { s.set s.next (initialMap k req) with next := s.next + 1 }
        if heapFlags req.mflags then (.error (-EINVAL), mmapFree t (some s.next) false)
        else if dma.get ∧ dma.attach ∧ dma.table then
          (.ok s.next, mmapAdd (t.set s.next
            { initialMap k req with va := req.va, len := req.len }) s.next)
        else (.error verifyErr, mmapFree t (some s.next) false) := by
  simp only [mmapCreate, none]
  rfl

/-- The map `vfastrpc_mmap_create` makes when there is none to share. -/
theorem mmapCreate_made {k : Uapi} {s t : Maps} {req : MapRequest} {err : Int} {dma : DmaOutcome}
    {id : MapId} (none : mmapFind s req.fd req.va req.len req.mflags true = .error err)
    (created : mmapCreate k s req dma = (.ok id, t)) :
    id = s.next ∧ heapFlags req.mflags = false ∧
      (dma.alloc = true ∧ dma.get = true ∧ dma.attach = true ∧ dma.table = true) ∧
      ∃ refs, t = { s.set s.next ⟨req.fd, req.mflags, req.va, req.len, 0, refs, req.attr, 0⟩ with
          next := s.next + 1, linked := s.next :: s.linked } ∧
        (req.attr &&& k.attrKeepMap = 0 ∧ refs = 1 ∨
          req.attr &&& k.attrKeepMap ≠ 0 ∧ refs = 2) := by
  obtain ⟨refs, hmap, hrefs⟩ := initialMap_eq k req
  rw [mmapCreate_new dma none] at created
  split at created
  · cases (Prod.mk.inj created).1
  rename_i halloc
  dsimp only at created
  split at created
  · cases (Prod.mk.inj created).1
  rename_i hheap
  split at created
  · rename_i hdma
    obtain ⟨hid, ht⟩ := Prod.mk.inj created
    have plain : heapFlags req.mflags = false := by simpa using hheap
    refine ⟨(Except.ok.inj hid).symm, plain, ⟨by simpa using halloc, hdma⟩, refs, ?_, ?_⟩
    · have filled : ({ initialMap k req with va := req.va, len := req.len } : VfastrpcMmap) =
          ⟨req.fd, req.mflags, req.va, req.len, 0, refs, req.attr, 0⟩ := by rw [hmap]
      rw [← ht, filled, mmapAdd, set_mem_self, if_neg hheap]
      simp [Maps.set]
    · rcases hrefs with one | ⟨hkeep, ⟨heap, -⟩ | ⟨-, two⟩⟩
      · exact Or.inl one
      · exact absurd heap hheap
      · exact Or.inr ⟨hkeep, two⟩
  · cases (Prod.mk.inj created).1

/-- `ctx_refs--` unless it is zero. -/
def fewer (ctxRefs : Int) : Int :=
  if ctxRefs ≠ 0 then ctxRefs - 1 else ctxRefs

/-- The outcomes of a release by a context. -/
inductive Releasing (s : Maps) (id : MapId) : Maps → Prop where
  | refused (why : heapFlags (s.mem id).flags = true ∨ (s.mem id).refs ≤ 0 ∨
      fewer (s.mem id).ctxRefs < 0) :
      Releasing s id (s.set id ((s.mem id).withRefs (s.mem id).refs (fewer (s.mem id).ctxRefs)))
  | dropped (refs : 0 < (s.mem id).refs) (ctx : 0 ≤ fewer (s.mem id).ctxRefs)
      (left : (s.mem id).refs ≠ 1 ∨ fewer (s.mem id).ctxRefs ≠ 0) :
      Releasing s id (s.set id
        ((s.mem id).withRefs ((s.mem id).refs - 1) (fewer (s.mem id).ctxRefs)))
  | freed (plain : heapFlags (s.mem id).flags = false) (refs : (s.mem id).refs = 1)
      (ctx : fewer (s.mem id).ctxRefs = 0) :
      Releasing s id { s.set id ((s.mem id).withRefs 0 0) with
        linked := s.linked.erase id
        freed := id :: s.freed }

theorem ctxRelease_releasing (s : Maps) (id : MapId) :
    Releasing s id (ctxRelease s (some id)) := by
  have hmap : (if (s.mem id).ctxRefs ≠ 0 then
        { s.mem id with ctxRefs := (s.mem id).ctxRefs - 1 } else s.mem id) =
      (s.mem id).withRefs (s.mem id).refs (fewer (s.mem id).ctxRefs) := by
    unfold fewer
    split_ifs <;> rfl
  simp only [ctxRelease, hmap]
  generalize hmid : (s.mem id).withRefs (s.mem id).refs (fewer (s.mem id).ctxRefs) = mid
  have outcome := mmapFree_freeing (s.set id mid) id false
  generalize mmapFree (s.set id mid) (some id) false = r at outcome ⊢
  have hmem : (s.set id mid).mem id = mid := set_mem_self s id mid
  cases outcome with
  | refused why =>
    rw [hmem, ← hmid] at why
    rw [← hmid]
    exact .refused why
  | dropped refs ctx kept left =>
    rw [hmem, ← hmid] at refs ctx left
    rw [hmem, set_set, ← hmid]
    exact .dropped refs ctx left
  | freed plain refs ctx last =>
    rw [hmem, ← hmid] at plain last
    rw [hmem, set_set, ← hmid]
    rcases last with hforce | ⟨hrefs, hctx⟩
    · cases hforce
    · exact .freed plain hrefs hctx

/-- The map that is released, if the context holds it. -/
theorem ctxRelease_own {s : Maps} {id : MapId} (plain : heapFlags (s.mem id).flags = false)
    (refs : 0 < (s.mem id).refs) (ctx : 0 < (s.mem id).ctxRefs) :
    (ctxRelease s (some id)).mem id =
        (s.mem id).withRefs ((s.mem id).refs - 1) ((s.mem id).ctxRefs - 1) ∧
      ((s.mem id).refs = 1 ∧ (s.mem id).ctxRefs = 1 ∧
          (ctxRelease s (some id)).linked = s.linked.erase id ∧
          (ctxRelease s (some id)).freed = id :: s.freed ∨
        ¬((s.mem id).refs = 1 ∧ (s.mem id).ctxRefs = 1) ∧
          (ctxRelease s (some id)).linked = s.linked ∧
          (ctxRelease s (some id)).freed = s.freed) := by
  have hfewer : fewer (s.mem id).ctxRefs = (s.mem id).ctxRefs - 1 := if_pos (Int.ne_of_gt ctx)
  have outcome := ctxRelease_releasing s id
  generalize ctxRelease s (some id) = r at outcome ⊢
  cases outcome with
  | refused why =>
    rw [plain, hfewer] at why
    rcases why with heap | dead | dead
    · cases heap
    · omega
    · omega
  | dropped _ _ left =>
    rw [hfewer] at left ⊢
    exact ⟨set_mem_self s id _, Or.inr ⟨by omega, rfl, rfl⟩⟩
  | freed _ one none =>
    rw [hfewer] at none
    refine ⟨?_, Or.inl ⟨one, by omega, rfl, rfl⟩⟩
    rw [show Maps.mem _ id = _ from set_mem_self s id _, one, none]
    rfl

/-- Another map, or none. -/
theorem ctxRelease_other {s : Maps} {id : MapId} {slot : Option MapId} (other : slot ≠ some id) :
    (ctxRelease s slot).mem id = s.mem id ∧
      (id ∈ (ctxRelease s slot).linked ↔ id ∈ s.linked) ∧
      (ctxRelease s slot).freed.count id = s.freed.count id := by
  cases slot with
  | none => exact ⟨rfl, Iff.rfl, rfl⟩
  | some v =>
    have hv : id ≠ v := fun he => other (congrArg some he.symm)
    have mem : ∀ map, (s.set v map).mem id = s.mem id := fun map => set_mem_ne s map hv
    have outcome := ctxRelease_releasing s v
    generalize ctxRelease s (some v) = r at outcome ⊢
    cases outcome with
    | refused why => exact ⟨mem _, Iff.rfl, rfl⟩
    | dropped refs ctx left => exact ⟨mem _, Iff.rfl, rfl⟩
    | freed plain refs ctx =>
      exact ⟨mem _, List.mem_erase_of_ne hv, List.count_cons_of_ne hv.symm⟩

theorem mmapFree_next (s : Maps) (id : MapId) (force : Bool) :
    (mmapFree s (some id) force).next = s.next := by
  have outcome := mmapFree_freeing s id force
  generalize mmapFree s (some id) force = r at outcome ⊢
  cases outcome <;> rfl

theorem ctxRelease_next (s : Maps) (slot : Option MapId) : (ctxRelease s slot).next = s.next := by
  cases slot with
  | none => rfl
  | some id => exact mmapFree_next _ id false

theorem mmapRemove_ok {k : Uapi} {s t : Maps} {fd : Int} {va len : UInt64} {id : MapId}
    (h : mmapRemove k s fd va len = .ok (id, t)) :
    id ∈ s.linked ∧ (s.mem id).ctxRefs = 0 ∧
      ∃ refs, t = { s.set id ((s.mem id).withRefs refs 0) with linked := s.linked.erase id } ∧
        ((s.mem id).keep k = true ∧ (refs = 0 ∨ refs = 1) ∨ refs = 1) := by
  unfold mmapRemove at h
  split at h
  · cases h
  rename_i v hv
  obtain ⟨rfl, rfl⟩ := Prod.mk.inj (Except.ok.inj h)
  have test := List.find?_some hv
  simp only [removable, Bool.and_eq_true, Bool.or_eq_true, beq_iff_eq] at test
  obtain ⟨⟨-, hrefs⟩, hctx⟩ := test
  refine ⟨List.mem_of_find?_eq_some hv, hctx, ?_⟩
  split_ifs with hkeep
  · refine ⟨(s.mem v).refs - 1, by rw [← hctx]; rfl, Or.inl ⟨hkeep, ?_⟩⟩
    omega
  · have hone : (s.mem v).refs = 1 := hrefs.resolve_right fun h2 => hkeep h2.2
    refine ⟨1, ?_, Or.inr rfl⟩
    rw [← hctx, ← hone]
    rfl

end FileMaps
