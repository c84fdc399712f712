import Mathlib.Data.Multiset.AddSub
import PlatformKernel.MapReferences
import PlatformKernel.MapTallies

/-!
# Map calls that fail

MMAP, MEM_MAP, MUNMAP and MEM_UNMAP from their entry to their return, with nothing else
going on in the file. Each acquires or takes away a map or pages before it talks to the back
end and undoes this when it fails; the theorems say when that restores the lists.
-/

namespace FailedCalls

open GuardedRuns FileMaps FileMoves MapLists MapTallies ReturnCodes
open FileOperations
open MapReferences (uapi)

/-- What comes of the message: `ok` is false if it cannot be allocated or sent, or if the
back end refuses. -/
structure Answer where
  ok : Bool
  raddr : UInt64

structure Returned where
  file : File
  failed : Bool

/-- A call that waits fails if the back end does not accept its message, or before that:
`-EEXIST` for a map that has an address, `-EBADMSG` for flags that cannot be unmapped. -/
def refused (k : Uapi) (t : File) (ans : Answer) : Op → Bool
  | .memMap id => !((t.maps.mem id).raddr == 0 && ans.ok)
  | .memUnmap id => !(unmappable k (t.maps.mem id) && ans.ok)
  | _ => !ans.ok

/-- The rest of a call; one that is not waiting has returned an error. -/
def conclude (k : Uapi) (t : File) (ans : Answer) : Returned :=
  match t.op with
  | none => ⟨t, true⟩
  | some op => ⟨(finishOp k t ans.ok ans.raddr).getD t, refused k t ans op⟩

inductive Mapping where
  | mmap (ud : MmapArgs) (dma : DmaOutcome) (pages : Bool)
  | memMap (req : MapRequest) (dma : DmaOutcome)

inductive Unmapping where
  | munmap (vaddrout size : UInt64)
  | memUnmap (fd : Int) (vaddr length : UInt64)

def Mapping.begins (k : Uapi) (s : File) : Mapping → File
  | .mmap ud dma pages => internalMmap k s ud dma pages
  | .memMap req dma => internalMemMap k s req dma

def Unmapping.begins (k : Uapi) (s : File) : Unmapping → File
  | .munmap vaddrout size => internalMunmap k s vaddrout size
  | .memUnmap fd vaddr length => internalMemUnmap k s fd vaddr length

/-- A call, given what it does before it waits. -/
def run (k : Uapi) (s begun : File) (ans : Answer) : Returned :=
  if s.dspProcInit = false then ⟨s, true⟩ else conclude k begun ans

def runMapping (k : Uapi) (s : File) (c : Mapping) (ans : Answer) : Returned :=
  run k s (c.begins k s) ans

def runUnmapping (k : Uapi) (s : File) (c : Unmapping) (ans : Answer) : Returned :=
  run k s (c.begins k s) ans

def Mapping.action : Mapping → Action
  | .mmap ud dma pages => .mmap ud dma pages
  | .memMap req dma => .memMap req dma

def Unmapping.action : Unmapping → Action
  | .munmap vaddrout size => .munmap vaddrout size
  | .memUnmap fd vaddr length => .memUnmap fd vaddr length

theorem conclude_steps (k : Uapi) (t : File) (ans : Answer) :
    (conclude k t ans).file = t ∨
      step k t (.finishOp ans.ok ans.raddr) = some (conclude k t ans).file := by
  unfold conclude
  cases t.op with
  | none => exact Or.inl rfl
  | some op =>
    change (finishOp k t ans.ok ans.raddr).getD t = t ∨ finishOp k t ans.ok ans.raddr = _
    cases finishOp k t ans.ok ans.raddr with
    | none => exact Or.inl rfl
    | some u => exact Or.inr rfl

/-- What a call leaves is reached by its own steps. -/
theorem run_steps {k : Uapi} {s begun : File} {a : Action}
    (begins : s.dspProcInit = true → step k s a = some begun) (ans : Answer) :
    ∃ as, exec (step k) s as = some (run k s begun ans).file := by
  unfold run
  cases init : s.dspProcInit with
  | false => exact ⟨[], rfl⟩
  | true =>
    have first : exec (step k) s [a] = some begun := exec_singleton (begins init)
    rcases conclude_steps k begun ans with same | answered
    · exact ⟨[a], first.trans (congrArg some same.symm)⟩
    · exact ⟨[a] ++ [.finishOp ans.ok ans.raddr], exec_append first (exec_singleton answered)⟩

theorem runMapping_steps {k : Uapi} {s : File} (idle : s.op = none) (c : Mapping)
    (ans : Answer) : ∃ as, exec (step k) s as = some (runMapping k s c ans).file :=
  run_steps (a := c.action) (fun init => by
    cases c <;> simp [step, Mapping.action, Action.ctx, Action.isMapCall, idle, init, mapCall,
      Mapping.begins]) ans

theorem runUnmapping_steps {k : Uapi} {s : File} (idle : s.op = none) (c : Unmapping)
    (ans : Answer) : ∃ as, exec (step k) s as = some (runUnmapping k s c ans).file :=
  run_steps (a := c.action) (fun init => by
    cases c <;> simp [step, Unmapping.action, Action.ctx, Action.isMapCall, idle, init, mapCall,
      Unmapping.begins]) ans

/-- The list, and every map on it. -/
structure SameMaps (s t : Maps) : Prop where
  linked : t.linked = s.linked
  mem : ∀ id ∈ s.linked, t.mem id = s.mem id

theorem SameMaps.refl (s : Maps) : SameMaps s s := ⟨rfl, fun _ _ => rfl⟩

/-- The map that serves the request: the first on the list that covers it, unless its count
is at the limit. -/
def shared (s : Maps) (req : MapRequest) : Option MapId :=
  if req.va + req.len < req.va ∨ heapFlags req.mflags = true then none
  else (s.linked.find? fun id => covers (s.mem id) req.fd req.va req.len).filter
    fun id => (s.mem id).refs + 1 ≠ intMax

/-- A map that is shared has a reference or a context; a map that is created does not have
`KEEP_MAP`. -/
def Restorable (k : Uapi) (s : Maps) (req : MapRequest) (dma : DmaOutcome) : Prop :=
  match shared s req with
  | some id => ¬((s.mem id).refs = 0 ∧ (s.mem id).ctxRefs = 0)
  | none => req.attr &&& k.attrKeepMap = 0 ∨ heapFlags req.mflags = true ∨
      ¬(dma.alloc = true ∧ dma.get = true ∧ dma.attach = true ∧ dma.table = true)

section maps

variable {k : Uapi} {s t : Maps} {req : MapRequest} {dma : DmaOutcome} {id : MapId}

theorem mmapFind_shared : shared s req = some id → id ∈ s.linked ∧
    mmapFind s req.fd req.va req.len req.mflags true =
      .ok (id, s.set id ((s.mem id).withRefs ((s.mem id).refs + 1) (s.mem id).ctxRefs)) := by
  intro h
  unfold shared at h
  split_ifs at h with hrange
  obtain ⟨hwrap, hheap⟩ := not_or.mp hrange
  obtain ⟨hfind, hroom⟩ := Option.filter_eq_some_iff.mp h
  refine ⟨List.mem_of_find?_eq_some hfind, ?_⟩
  have room : (s.mem id).refs + 1 ≠ intMax := by simpa using hroom
  simp only [mmapFind, hwrap, hheap, hfind, room, if_false, if_true]
  rfl

theorem mmapFind_unshared (h : shared s req = none) :
    ∃ err, mmapFind s req.fd req.va req.len req.mflags true = .error err := by
  cases hfind : mmapFind s req.fd req.va req.len req.mflags true with
  | error err => exact ⟨err, rfl⟩
  | ok found =>
    exfalso
    unfold shared at h
    unfold mmapFind at hfind
    split at hfind
    · cases hfind
    rename_i hwrap
    split at hfind
    · cases hfind
    rename_i hheap
    rw [if_neg (not_or.mpr ⟨hwrap, hheap⟩)] at h
    split at hfind
    · cases hfind
    rename_i id hid
    rw [hid] at h
    simp only [if_true] at hfind
    split at hfind
    · cases hfind
    rename_i room
    simp [room] at h

theorem sameMaps_failed {err : Int} (listed : Listed s)
    (failed : mmapCreate k s req dma = (.error err, t)) : SameMaps s t := by
  have creating := mmapCreate_creating k s req dma
  rw [failed] at creating
  have mem : ∀ map, ∀ id ∈ s.linked, (s.set s.next map).mem id = s.mem id := fun map id hid =>
    set_mem_ne s map (Nat.ne_of_lt (listed.known id hid))
  cases creating with
  | failed err => exact .refl s
  | abandoned err map => exact ⟨rfl, mem map⟩
  | discarded err refs ctx =>
    exact ⟨List.erase_of_not_mem (next_unlinked listed), mem _⟩

/-- The reference that was taken on a shared map is given back. -/
theorem sameMaps_shared_iff (listed : Listed s) (tallied : Tallied s) (hid : id ∈ s.linked) :
    SameMaps s (mmapFree (s.set id
        ((s.mem id).withRefs ((s.mem id).refs + 1) (s.mem id).ctxRefs)) (some id) false) ↔
      ¬((s.mem id).refs = 0 ∧ (s.mem id).ctxRefs = 0) := by
  have refs := tallied.refs id
  have ctx := tallied.ctx id
  generalize hmap : (s.mem id).withRefs ((s.mem id).refs + 1) (s.mem id).ctxRefs = map
  have outcome := mmapFree_freeing (s.set id map) id false
  generalize mmapFree (s.set id map) (some id) false = r at outcome ⊢
  have hmem : (s.set id map).mem id = map := set_mem_self s id map
  cases outcome with
  | refused why =>
    exfalso
    rw [hmem, ← hmap] at why
    rcases why with heap | dead | dead
    · have plain := listed.plain id hid
      rw [withRefs_flags, plain] at heap
      cases heap
    · rw [withRefs_refs] at dead
      omega
    · rw [withRefs_ctxRefs] at dead
      omega
  | dropped refs' ctx' kept left =>
    rw [hmem, set_set, ← hmap] at *
    simp only [withRefs_refs, withRefs_ctxRefs] at left
    refine iff_of_true ?_ (by omega)
    have same : s.set id (((s.mem id).withRefs ((s.mem id).refs + 1) (s.mem id).ctxRefs).withRefs
        ((s.mem id).refs + 1 - 1) (s.mem id).ctxRefs) = s := by
      rw [Int.add_sub_cancel]
      exact set_same s id
    simp only [withRefs_refs, withRefs_ctxRefs]
    rw [same]
    exact .refl s
  | freed plain refs' ctx' last =>
    rw [hmem, ← hmap] at last
    simp only [withRefs_refs, withRefs_ctxRefs, Bool.false_eq_true, false_or] at last
    refine iff_of_false (fun same => ?_) (by omega)
    have linked : s.linked.erase id = s.linked := same.linked
    exact listed.nodup.not_mem_erase (linked.symm ▸ hid)

/-- A map that was created is freed again, unless it has a second reference. -/
theorem sameMaps_created_iff (listed : Listed s) {refs : Int}
    (hrefs : refs = 1 ∨ refs = 2) {map : VfastrpcMmap} (plain : heapFlags map.flags = false)
    (count : map.refs = refs) (ctx : map.ctxRefs = 0) :
    SameMaps s (mmapFree { s.set s.next map with
        next := s.next + 1, linked := s.next :: s.linked } (some s.next) false) ↔ refs = 1 := by
  generalize ht : ({ s.set s.next map with
    next := s.next + 1, linked := s.next :: s.linked } : Maps) = t
  have hmem : t.mem s.next = map := by
    rw [← ht]
    exact set_mem_self s s.next map
  have linked : t.linked = s.next :: s.linked := by rw [← ht]
  have others : ∀ map', ∀ id ∈ s.linked, (t.set s.next map').mem id = s.mem id := by
    intro map' id hid
    have hne := Nat.ne_of_lt (listed.known id hid)
    rw [set_mem_ne t map' hne, ← ht]
    exact set_mem_ne s map hne
  have outcome := mmapFree_freeing t s.next false
  generalize mmapFree t (some s.next) false = r at outcome ⊢
  cases outcome with
  | refused why =>
    exfalso
    rw [hmem, plain, count, ctx] at why
    rcases why with heap | dead | dead
    · cases heap
    · omega
    · omega
  | dropped pos ctx' kept left =>
    rw [hmem] at left
    refine iff_of_false (fun same => ?_) (by omega)
    have longer := congrArg List.length (linked.symm.trans same.linked)
    simp at longer
  | freed plain' pos ctx' last =>
    rw [hmem] at last
    simp only [Bool.false_eq_true, false_or] at last
    refine iff_of_true ⟨?_, others _⟩ (by omega)
    change t.linked.erase s.next = s.linked
    rw [linked, List.erase_cons_head]

/-- What a failed call leaves of the map it acquired. -/
theorem sameMaps_iff (listed : Listed s) (tallied : Tallied s)
    (created : mmapCreate k s req dma = (.ok id, t)) :
    SameMaps s (mmapFree t (some id) false) ↔ Restorable k s req dma := by
  unfold Restorable
  cases hshared : shared s req with
  | some v =>
    obtain ⟨hv, hfind⟩ := mmapFind_shared hshared
    simp only [mmapCreate, hfind] at created
    obtain ⟨hid, rfl⟩ := Prod.mk.inj created
    obtain rfl := Except.ok.inj hid
    exact sameMaps_shared_iff listed tallied hv
  | none =>
    obtain ⟨err, hfind⟩ := mmapFind_unshared hshared
    obtain ⟨rfl, plain, hdma, refs, rfl, hrefs⟩ := mmapCreate_made hfind created
    have count : refs = 1 ∨ refs = 2 := hrefs.imp And.right And.right
    rw [sameMaps_created_iff listed count plain rfl rfl]
    constructor
    · intro one
      rcases hrefs with ⟨hkeep, -⟩ | ⟨-, two⟩
      · exact Or.inl hkeep
      · omega
    · rintro (hkeep | heap | impossible)
      · rcases hrefs with ⟨-, one⟩ | ⟨hne, -⟩
        · exact one
        · exact absurd hkeep hne
      · rw [plain] at heap
        cases heap
      · exact absurd hdma impossible

/-- A creation that fails does not need a condition. -/
theorem restorable_failed {err : Int} (failed : mmapCreate k s req dma = (.error err, t)) :
    Restorable k s req dma := by
  unfold Restorable
  cases hshared : shared s req with
  | some v =>
    obtain ⟨-, hfind⟩ := mmapFind_shared hshared
    simp only [mmapCreate, hfind] at failed
    cases (Prod.mk.inj failed).1
  | none =>
    obtain ⟨e, hfind⟩ := mmapFind_unshared hshared
    rw [mmapCreate_new dma hfind] at failed
    refine Or.inr (Classical.or_iff_not_imp_left.mpr fun hheap hdma => ?_)
    simp only [hdma.1, Bool.true_eq_false, if_false, hheap, hdma.2, and_self, if_true] at failed
    cases (Prod.mk.inj failed).1

end maps

/-- `fl->maps` and `fl->remote_bufs`. -/
structure Unchanged (s t : File) : Prop where
  maps : SameMaps s.maps t.maps
  remoteBufs : t.remoteBufs = s.remoteBufs
  bufs : ∀ b ∈ s.remoteBufs, t.bufs b = s.bufs b

/-- What the state and the request must meet. -/
def MappingUndone (k : Uapi) (s : File) : Mapping → Prop
  | .mmap ud dma pages =>
    if ud.flags = adspMmapAddPages then ud.vaddrin ≠ 0 ∨ ud.size = 0 ∨ pages = false
    else Restorable k s.maps ⟨ud.fd, 0, ud.vaddrin, ud.size, ud.flags⟩ dma
  | .memMap req dma => Restorable k s.maps req dma

section mapping

variable {k : Uapi} {s : File} {ans : Answer}

theorem unchanged_maps_iff (maps : Maps) (op : Option Op) :
    Unchanged s { s with maps := maps, op := op } ↔ SameMaps s.maps maps :=
  ⟨fun h => h.maps, fun h => ⟨h, rfl, fun _ _ => rfl⟩⟩

/-- MMAP of a descriptor and MEM_MAP, which differ in the answer they take for a failure. -/
theorem created_undone_iff (h : Sane s) {req : MapRequest} {dma : DmaOutcome} {id : MapId}
    {maps : Maps} (created : mmapCreate k s.maps req dma = (.ok id, maps)) {op : Op}
    (own : op = .mmap id ∨ op = .memMap id)
    (failed : (conclude k { s with maps := maps, op := some op } ans).failed = true) :
    Unchanged s (conclude k { s with maps := maps, op := some op } ans).file ↔
      Restorable k s.maps req dma := by
  rw [← sameMaps_iff h.listed.maps h.tallied created, ← unchanged_maps_iff _ none]
  suffices hfile : (conclude k { s with maps := maps, op := some op } ans).file =
      { s with maps := mmapFree maps (some id) false, op := none } by rw [hfile]
  rcases own with rfl | rfl
  · have hok : ans.ok = false := by simpa [conclude, refused] using failed
    simp [conclude, finishOp, hok]
  · have hok : ¬((maps.mem id).raddr = 0 ∧ ans.ok = true) := by
      rintro ⟨hraddr, hok⟩
      simp [conclude, refused, hraddr, hok] at failed
    simp only [conclude, finishOp, hok, if_false, Option.getD_some]

theorem failed_undone_iff (h : Sane s) (idle : s.op = none) {req : MapRequest}
    {dma : DmaOutcome} {err : Int} {maps : Maps}
    (failed : mmapCreate k s.maps req dma = (.error err, maps)) :
    Unchanged s (conclude k { s with maps := maps } ans).file ↔ Restorable k s.maps req dma := by
  have hfile : (conclude k { s with maps := maps } ans).file = { s with maps := maps } := by
    unfold conclude
    simp only [idle]
  rw [hfile]
  exact iff_of_true ⟨sameMaps_failed h.listed.maps failed, rfl, fun _ _ => rfl⟩
    (restorable_failed failed)

/-- Pages for the heap of the DSP stay on the list if the back end refuses them. -/
theorem pages_undone_iff (idle : s.op = none) {ud : MmapArgs} {dma : DmaOutcome} {pages : Bool}
    (flags : ud.flags = adspMmapAddPages)
    (failed : (conclude k (internalMmap k s ud dma pages) ans).failed = true) :
    Unchanged s (conclude k (internalMmap k s ud dma pages) ans).file ↔
      (ud.vaddrin ≠ 0 ∨ ud.size = 0 ∨ pages = false) := by
  have same : ∀ {begun : File}, begun = s → Unchanged s (conclude k begun ans).file := by
    rintro begun rfl
    simp only [conclude, idle]
    exact ⟨.refl _, rfl, fun _ _ => rfl⟩
  by_cases hva : ud.vaddrin = 0
  · by_cases hsize : ud.size = 0
    · refine iff_of_true (same ?_) (Or.inr (Or.inl hsize))
      simp [internalMmap, flags, hva, bufAlloc, hsize]
    cases pages with
    | false =>
      refine iff_of_true (same ?_) (Or.inr (Or.inr rfl))
      simp [internalMmap, flags, hva, bufAlloc, hsize]
    | true =>
      refine iff_of_false (fun unchanged => ?_) (by simp [hva, hsize])
      have begun : internalMmap k s ud dma true =
          { (bufNew s ud.size ud.flags true).2 with op := some (.mmapPages s.nextBuf) } := by
        simp [internalMmap, flags, hva, bufAlloc, hsize, bufNew]
      have longer := congrArg List.length unchanged.remoteBufs
      rw [begun] at longer
      simp [conclude, finishOp, bufNew] at longer
  · refine iff_of_true (same ?_) (Or.inl hva)
    simp [internalMmap, flags, hva]

end mapping

/-- A failed request leaves the lists as they were if, and only if, the process is not
initialised or the state and the request meet `MappingUndone`. -/
theorem failed_mapping_unchanged_iff (k : Uapi) (as : List Action) (s : File)
    (reached : exec (step k) File.opened as = some s) (idle : s.op = none) (c : Mapping)
    (ans : Answer) (failed : (runMapping k s c ans).failed = true) :
    Unchanged s (runMapping k s c ans).file ↔ s.dspProcInit = false ∨ MappingUndone k s c := by
  have sane := run_sane reached
  unfold runMapping run at failed ⊢
  by_cases init : s.dspProcInit = false
  · rw [if_pos init]
    exact iff_of_true ⟨.refl _, rfl, fun _ _ => rfl⟩ (Or.inl init)
  rw [if_neg init] at failed ⊢
  rw [or_iff_right init]
  cases c with
  | mmap ud dma pages =>
    by_cases flags : ud.flags = adspMmapAddPages
    · rw [MappingUndone, if_pos flags]
      exact pages_undone_iff idle flags failed
    · rw [MappingUndone, if_neg flags]
      have begun : (Mapping.mmap ud dma pages).begins k s = internalMmap k s ud dma pages := rfl
      rw [begun] at failed ⊢
      simp only [internalMmap, if_neg flags] at failed ⊢
      generalize hcreate : mmapCreate k s.maps ⟨ud.fd, 0, ud.vaddrin, ud.size, ud.flags⟩ dma = r
        at failed ⊢
      obtain ⟨result, maps⟩ := r
      cases result with
      | ok id => exact created_undone_iff sane hcreate (Or.inl rfl) failed
      | error err => exact failed_undone_iff sane idle hcreate
  | memMap req dma =>
    have begun : (Mapping.memMap req dma).begins k s = internalMemMap k s req dma := rfl
    rw [begun] at failed ⊢
    simp only [internalMemMap, MappingUndone] at failed ⊢
    generalize hcreate : mmapCreate k s.maps req dma = r at failed ⊢
    obtain ⟨result, maps⟩ := r
    cases result with
    | ok id => exact created_undone_iff sane hcreate (Or.inr rfl) failed
    | error err => exact failed_undone_iff sane idle hcreate

/-- MEM_MAP of a new descriptor is refused by the back end. -/
theorem refused_mapping_undone : ∃ s, exec (step uapi) File.opened [.init 1] = some s ∧
    (runMapping uapi s (.memMap ⟨5, 0, 0x1000, 0x1000, 2⟩ .mapped) ⟨false, 0⟩).failed = true ∧
    Unchanged s (runMapping uapi s (.memMap ⟨5, 0, 0x1000, 0x1000, 2⟩ .mapped) ⟨false, 0⟩).file :=
  ⟨_, rfl, rfl, (failed_mapping_unchanged_iff uapi [.init 1] _ rfl rfl _ _ rfl).mpr
    (Or.inr (Or.inl (by decide)))⟩

/-- A `KEEP_MAP` map loses a reference to MUNMAP_FD and another to a MUNMAP that fails. -/
def unreferenced : List Action :=
  [.init 1, .memMap ⟨5, 8, 0x1000, 0x1000, 2⟩ .mapped, .finishOp true 0x9000, .munmapFd 7 5,
    .notifyAlloc true, .notifyDone false false, .munmap 0x9000 0x1000, .finishOp false 0]

/-- Refused pages stay in `remote_bufs`, a refused `KEEP_MAP` map stays in `maps`, and a map
without references is freed by a request that returns `-EEXIST`. -/
theorem refused_mappings_left :
    (∃ s, exec (step uapi) File.opened [.init 1] = some s ∧
      (let r := runMapping uapi s (.mmap ⟨-1, 0, 0x1000, adspMmapAddPages⟩ .mapped true) ⟨false, 0⟩
      r.failed = true ∧ r.file.remoteBufs = [0] ∧ ¬ Unchanged s r.file) ∧
      let r := runMapping uapi s (.memMap ⟨5, 8, 0x1000, 0x1000, 2⟩ .mapped) ⟨false, 0⟩
      r.failed = true ∧ r.file.maps.linked = [0] ∧ (r.file.maps.mem 0).refs = 1 ∧
        ¬ Unchanged s r.file) ∧
    ∃ s, exec (step uapi) File.opened unreferenced = some s ∧ s.op = none ∧
      s.maps.linked = [0] ∧ (s.maps.mem 0).refs = 0 ∧
      let r := runMapping uapi s (.memMap ⟨5, 8, 0x1000, 0x1000, 2⟩ .mapped) ⟨true, 0xa000⟩
      r.failed = true ∧ r.file.maps.linked = [] ∧ r.file.maps.freed = [0] ∧
        ¬ Unchanged s r.file := by
  refine ⟨⟨_, rfl, ⟨rfl, rfl, fun h => ?_⟩, rfl, rfl, by decide, fun h => ?_⟩,
    _, rfl, rfl, rfl, by decide, rfl, rfl, rfl, fun h => ?_⟩
  · exact absurd h.remoteBufs (List.cons_ne_nil _ _)
  · exact absurd h.maps.linked (List.cons_ne_nil _ _)
  · exact absurd h.maps.linked.symm (List.cons_ne_nil _ _)

/-- The maps of the list with all their fields, in any order, and `fl->remote_bufs`. -/
structure Unaltered (s t : File) : Prop where
  maps : (t.maps.linked.map t.maps.mem).Perm (s.maps.linked.map s.maps.mem)
  remoteBufs : t.remoteBufs = s.remoteBufs
  bufs : ∀ b ∈ s.remoteBufs, t.bufs b = s.bufs b

/-- The pages MUNMAP looks for before it looks for a map. -/
def isPages (s : File) (vaddrout size : UInt64) (b : BufId) : Bool :=
  (s.bufs b).raddr != 0 && (s.bufs b).flags == adspMmapAddPages &&
    (s.bufs b).raddr == vaddrout && (s.bufs b).size == size

/-- MUNMAP finds pages, or no map, or one without `KEEP_MAP`. -/
def UnmappingUndone (k : Uapi) (s : File) : Unmapping → Prop
  | .munmap vaddrout size => (∃ b ∈ s.remoteBufs, isPages s vaddrout size b = true) ∨
      ∀ id, (s.maps.linked.find? fun id => removable k (s.maps.mem id) (-1) vaddrout size) =
        some id → (s.maps.mem id).keep k = false
  | .memUnmap _ _ _ => True

section unmapping

variable {k : Uapi} {s : File} {ans : Answer}

theorem unaltered_same {t : File} (maps : t.maps = s.maps)
    (remoteBufs : t.remoteBufs = s.remoteBufs) (bufs : t.bufs = s.bufs) : Unaltered s t :=
  ⟨by rw [maps], remoteBufs, fun _ _ => by rw [bufs]⟩

/-- A map that comes back to the list is the map that went if it is the same in all fields. -/
theorem putBack_perm_iff {m : Maps} {id : MapId} {map : VfastrpcMmap} (listed : Listed m)
    (hid : id ∈ m.linked) :
    ((id :: m.linked.erase id).map (m.set id map).mem).Perm (m.linked.map m.mem) ↔
      map = m.mem id := by
  have rest : (m.linked.erase id).map (m.set id map).mem = (m.linked.erase id).map m.mem :=
    List.map_congr_left fun v hv => set_mem_ne m map fun heq =>
      listed.nodup.not_mem_erase (heq ▸ hv)
  have whole := (List.perm_cons_erase hid).map m.mem
  have cancel : (map :: (m.linked.erase id).map m.mem).Perm
      (m.mem id :: (m.linked.erase id).map m.mem) ↔ map = m.mem id := by
    rw [← Multiset.coe_eq_coe, ← Multiset.cons_coe, ← Multiset.cons_coe, Multiset.cons_inj_left]
  rw [List.map_cons, set_mem_self, rest]
  exact ⟨fun h => cancel.mp (h.trans whole), fun h => (cancel.mpr h).trans whole.symm⟩

/-- The map `vfastrpc_mmap_remove` finds, and what it makes of it. -/
theorem mmapRemove_find {m n : Maps} {fd : Int} {va len : UInt64} {id : MapId}
    (h : mmapRemove k m fd va len = .ok (id, n)) :
    (m.linked.find? fun id => removable k (m.mem id) fd va len) = some id ∧
      n = { m.set id (if (m.mem id).keep k then { m.mem id with refs := (m.mem id).refs - 1 }
        else m.mem id) with linked := m.linked.erase id } := by
  unfold mmapRemove at h
  split at h
  · cases h
  rename_i v hv
  obtain ⟨rfl, rfl⟩ := Prod.mk.inj (Except.ok.inj h)
  exact ⟨hv, rfl⟩

theorem putBack_unaltered_iff (h : Sane s) {id : MapId} (hid : id ∈ s.maps.linked)
    {map : VfastrpcMmap} (flags : map.flags = (s.maps.mem id).flags) :
    Unaltered s { s with
        maps := mmapAdd { s.maps.set id map with linked := s.maps.linked.erase id } id
        op := none } ↔ map = s.maps.mem id := by
  have plain : heapFlags map.flags = false := by
    rw [flags]
    exact h.listed.maps.plain id hid
  have added : mmapAdd { s.maps.set id map with linked := s.maps.linked.erase id } id =
      { s.maps.set id map with linked := id :: s.maps.linked.erase id } := by
    have hmem : ({ s.maps.set id map with linked := s.maps.linked.erase id } : Maps).mem id =
        map := set_mem_self s.maps id map
    rw [mmapAdd, hmem, plain]
    rfl
  rw [added, ← putBack_perm_iff h.listed.maps hid]
  exact ⟨fun h => h.maps, fun h => ⟨h, rfl, fun _ _ => rfl⟩⟩

theorem munmap_unaltered_iff (h : Sane s) (idle : s.op = none) {vaddrout size : UInt64}
    (failed : (conclude k (internalMunmap k s vaddrout size) ans).failed = true) :
    Unaltered s (conclude k (internalMunmap k s vaddrout size) ans).file ↔
      UnmappingUndone k s (.munmap vaddrout size) := by
  rw [UnmappingUndone]
  unfold internalMunmap at failed ⊢
  split at failed
  · rename_i b hb
    have hok : ans.ok = false := by simpa [conclude, refused] using failed
    have test := List.find?_some hb
    refine iff_of_true ?_ (Or.inl ⟨b, List.mem_of_find?_eq_some hb, test⟩)
    simp only [conclude, finishOp, hok, Option.getD_some]
    exact unaltered_same rfl rfl rfl
  · rename_i hb
    have nopages : ¬ ∃ b ∈ s.remoteBufs, isPages s vaddrout size b = true := by
      rintro ⟨b, hmem, test⟩
      exact List.find?_eq_none.mp hb b hmem test
    rw [or_iff_right nopages]
    split at failed
    · rename_i id maps removed
      have hok : ans.ok = false := by simpa [conclude, refused] using failed
      obtain ⟨hfind, rfl⟩ := mmapRemove_find removed
      have hid := List.mem_of_find?_eq_some hfind
      simp only [conclude, finishOp, hok, Option.getD_some, Bool.false_eq_true, if_false]
      rw [putBack_unaltered_iff h hid (by split_ifs <;> rfl), hfind]
      constructor
      · intro same v hv
        obtain rfl := Option.some.inj hv
        by_contra hkeep
        rw [if_pos (by simpa using hkeep)] at same
        have refs := congrArg VfastrpcMmap.refs same
        dsimp only at refs
        omega
      · intro hkeep
        rw [hkeep id rfl]
        rfl
    · rename_i err removed
      simp only [conclude, idle]
      refine iff_of_true (unaltered_same rfl rfl rfl) fun id hfind => ?_
      simp only [mmapRemove, hfind] at removed
      cases removed

theorem memUnmap_unaltered (h : Sane s) (idle : s.op = none) {fd : Int} {vaddr length : UInt64}
    (failed : (conclude k (internalMemUnmap k s fd vaddr length) ans).failed = true) :
    Unaltered s (conclude k (internalMemUnmap k s fd vaddr length) ans).file := by
  unfold internalMemUnmap at failed ⊢
  split at failed
  · rename_i id maps removed
    obtain ⟨hfind, hmaps⟩ := mmapRemove_find removed
    have hid := List.mem_of_find?_eq_some hfind
    have hok : ¬(unmappable k (maps.mem id) = true ∧ ans.ok = true) := by
      rintro ⟨hflags, hok⟩
      simp [conclude, refused, hflags, hok] at failed
    simp only [conclude, finishOp, hok, if_false, Option.getD_some]
    have hmem : maps.mem id = if (s.maps.mem id).keep k then
        { s.maps.mem id with refs := (s.maps.mem id).refs - 1 } else s.maps.mem id := by
      rw [hmaps]
      exact set_mem_self s.maps id _
    have keep : (maps.mem id).keep k = (s.maps.mem id).keep k := by
      rw [hmem]
      split_ifs <;> rfl
    have restored : (if (maps.mem id).keep k then
          maps.set id { maps.mem id with refs := (maps.mem id).refs + 1 } else maps) =
        { s.maps.set id (s.maps.mem id) with linked := s.maps.linked.erase id } := by
      rw [keep, hmem, hmaps]
      split_ifs
      · simp [Maps.set]
      · rfl
    rw [restored]
    exact (putBack_unaltered_iff h hid rfl).mpr rfl
  · simp only [conclude, idle]
    exact unaltered_same rfl rfl rfl

end unmapping

/-- A failed request leaves the maps and pages as they were if, and only if, the process is
not initialised or it is not a MUNMAP that finds a `KEEP_MAP` map. -/
theorem failed_unmapping_unaltered_iff (k : Uapi) (as : List Action) (s : File)
    (reached : exec (step k) File.opened as = some s) (idle : s.op = none) (c : Unmapping)
    (ans : Answer) (failed : (runUnmapping k s c ans).failed = true) :
    Unaltered s (runUnmapping k s c ans).file ↔
      s.dspProcInit = false ∨ UnmappingUndone k s c := by
  have sane := run_sane reached
  unfold runUnmapping run at failed ⊢
  by_cases init : s.dspProcInit = false
  · rw [if_pos init]
    exact iff_of_true (unaltered_same rfl rfl rfl) (Or.inl init)
  rw [if_neg init] at failed ⊢
  rw [or_iff_right init]
  cases c with
  | munmap vaddrout size => exact munmap_unaltered_iff sane idle failed
  | memUnmap fd vaddr length =>
    exact iff_of_true (memUnmap_unaltered sane idle failed) trivial

/-- MEM_MAP with and without `KEEP_MAP`. -/
def keptAndPlain : List Action :=
  [.init 1, .memMap ⟨5, 8, 0x1000, 0x1000, 2⟩ .mapped, .finishOp true 0x9000,
    .memMap ⟨6, 0, 0x4000, 0x1000, 2⟩ .mapped, .finishOp true 0xa000]

/-- A MUNMAP of the map without `KEEP_MAP` is refused. -/
theorem refused_unmapping_undone : ∃ s, exec (step uapi) File.opened keptAndPlain = some s ∧
    (runUnmapping uapi s (.munmap 0xa000 0x1000) ⟨false, 0⟩).failed = true ∧
    Unaltered s (runUnmapping uapi s (.munmap 0xa000 0x1000) ⟨false, 0⟩).file := by
  refine ⟨_, rfl, rfl, (failed_unmapping_unaltered_iff uapi keptAndPlain _ rfl rfl _ _ rfl).mpr
    (Or.inr (Or.inr fun id hid => ?_))⟩
  obtain rfl := Option.some.inj hid
  decide

/-- A MUNMAP of the `KEEP_MAP` map is refused, and the map comes back with one reference. -/
theorem refused_unmapping_drops : ∃ s, exec (step uapi) File.opened keptAndPlain = some s ∧
    s.op = none ∧ (s.maps.mem 0).refs = 2 ∧
    let r := runUnmapping uapi s (.munmap 0x9000 0x1000) ⟨false, 0⟩
    r.failed = true ∧ r.file.maps.linked = [0, 1] ∧ (r.file.maps.mem 0).refs = 1 ∧
      ¬ Unaltered s r.file := by
  refine ⟨_, rfl, rfl, by decide, rfl, rfl, by decide, fun h => ?_⟩
  exact absurd (h.maps.map VfastrpcMmap.refs).sum_eq (by decide)

end FailedCalls
