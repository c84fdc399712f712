import PlatformKernel.MappedMaps

/-!
# Mapping and unmapping

Every mapping has its map or its pages: steps of invokes and of other calls leave both to
it, a call that succeeds adds one, and only an unmap call that succeeds takes one away. With
no invoke in flight the map has then the references, and the pages the address, that the
unmap calls look for. This takes a map for each mapping alone, which the driver does not
see to: a second MMAP of a range is served by the same map.
-/

namespace MapRoundTrip

open GuardedRuns FileMaps FileMoves MapLists FileLists ContextShares UserMappings MappedMaps
open FileOperations hiding step
open CommandReturns (vfastrpcInternalMunmap vfastrpcInternalMemUnmap)

/-- Pages of ADSP_MMAP_ADD_PAGES are on `remote_bufs`. -/
structure PagesOk (s : File) (b : BufId) (size : UInt64) : Prop where
  remote : b ∈ s.remoteBufs
  flags : (s.bufs b).flags = adspMmapAddPages
  size : (s.bufs b).size = size

section pages

variable {k : Uapi} {s t : File} {b : BufId} {size : UInt64} {a : Action}

theorem pagesOk_same (h : PagesOk s b size) (remote : b ∈ t.remoteBufs)
    (same : t.bufs b = s.bufs b) :
    PagesOk t b size ∧ (s.op ≠ some (.mmapPages b) → (t.bufs b).raddr = (s.bufs b).raddr) := by
  refine ⟨⟨remote, ?_, ?_⟩, fun _ => ?_⟩
  all_goals rw [same]
  · exact h.flags
  · exact h.size

theorem step_pages (h : PagesOk s b size) (places : PlacesOk s)
    (freed : t.op = none → s.op ≠ some (.munmapPages b))
    (hstep : FileOperations.step k s a = some t) :
    PagesOk t b size ∧ (s.op ≠ some (.mmapPages b) → (t.bufs b).raddr = (s.bufs b).raddr) := by
  have known : b ≠ s.nextBuf := Nat.ne_of_lt
    (places.bufs.known b (mem_allBufs.mpr (Or.inr (Or.inr (Or.inl h.remote)))))
  cases step_moves hstep with
  | staged pending alloc =>
    rcases bufAlloc_some alloc with ⟨-, -, rfl⟩ | ⟨-, rfl⟩
    · exact pagesOk_same h h.remote rfl
    · exact pagesOk_same h h.remote (Function.update_of_ne known _ _)
  | messaged pending bare alloc | notifies op alloc | commands alloc =>
    obtain ⟨i, -, -, rfl⟩ := virtAllocMsg_some alloc
    exact pagesOk_same h h.remote rfl
  | frees pending =>
    rename_i c
    have hlocal := local_descs places (contextFree_perm places pending)
    obtain ⟨_, _, _, hdrop, -, -⟩ := contextDrop_local (s := { s with
      pending := s.pending.erase c, interrupted := s.interrupted.erase c }) (c := c) hlocal
    rw [FileOperations.contextFree, hdrop]
    exact pagesOk_same h h.remote rfl
  | allocsPages idle alloc =>
    rcases bufAlloc_some alloc with ⟨hfalse, -⟩ | ⟨rfl, rfl⟩
    · cases hfalse
    · exact pagesOk_same h (List.mem_cons_of_mem _ h.remote) (Function.update_of_ne known _ _)
  | mapsPages raddr op =>
    rename_i b'
    by_cases hb : b' = b
    · subst hb
      refine ⟨⟨h.remote, ?_, ?_⟩, fun hne => False.elim (hne op)⟩
      · simpa using h.flags
      · simpa using h.size
    · exact pagesOk_same h h.remote (Function.update_of_ne (Ne.symm hb) _ _)
  | freesPages op =>
    rename_i b'
    have hne : b ≠ b' := fun he => freed rfl (he ▸ op)
    rw [bufFree_remote places (places.marked.2.2 b' op)]
    exact pagesOk_same h ((List.mem_erase_of_ne hne).mpr h.remote) (Function.update_of_ne hne _ _)
  | answers op =>
    rename_i tid m
    obtain ⟨_, hfree⟩ := virtFreeMsg_frame s m
    rw [hfree]
    exact pagesOk_same h h.remote rfl
  | replies waiting =>
    rename_i m
    obtain ⟨_, hfree⟩ := virtFreeMsg_frame s m
    rw [hfree]
    exact pagesOk_same h h.remote rfl
  | _ => exact pagesOk_same h h.remote rfl

end pages

section held

variable {k : Uapi} {s t : File} {id : MapId} {a : Action}

theorem ctxMoves_listed {maps maps' : Maps} (known : id < maps.next)
    (h : id ∈ maps.linked ∨ (maps.mem id).refs ≤ 0) (moves : CtxMoves k maps maps') :
    id < maps'.next ∧ (id ∈ maps'.linked ∨ (maps'.mem id).refs ≤ 0) := by
  have shifted : ∀ {u u' : Maps}, id < u.next ∧ (id ∈ u.linked ∨ (u.mem id).refs ≤ 0) →
      Shifted u u' id 0 → id < u'.next ∧ (id ∈ u'.linked ∨ (u'.mem id).refs ≤ 0) := by
    intro u u' hu same
    refine ⟨Nat.lt_of_lt_of_le hu.1 same.next, hu.2.imp same.linked.mpr fun hrefs => ?_⟩
    rw [same.same]
    exact hrefs
  induction moves with
  | refl => exact ⟨known, h⟩
  | take _ req dma ih =>
    rename_i u _
    generalize hmap : ctxMap k u req dma = r
    obtain ⟨result, u'⟩ := r
    rcases ctxMap_old ih.1 hmap with ⟨-, linked, -, more⟩ | ⟨-, same⟩
    · exact ⟨Nat.lt_of_lt_of_le ih.1 more.next, Or.inl (more.linked.mpr linked)⟩
    · exact shifted ih same
  | release _ slot ih =>
    rename_i u _
    by_cases hslot : slot = some id
    · subst hslot
      have outcome := ctxRelease_releasing u id
      generalize ctxRelease u (some id) = r at outcome ⊢
      cases outcome with
      | refused why =>
        refine ⟨ih.1, ih.2.imp_right fun hrefs => ?_⟩
        rw [set_mem_self]
        exact hrefs
      | dropped refs ctx left => exact ⟨ih.1, Or.inl (ih.2.resolve_right (by omega))⟩
      | freed plain refs ctx =>
        refine ⟨ih.1, Or.inr ?_⟩
        change ((u.set id ((u.mem id).withRefs 0 0)).mem id).refs ≤ 0
        rw [set_mem_self]
        exact Int.le_refl 0
    · exact shifted ih (shifted_release hslot)

theorem step_holding (holds : holding s.op = some id) (known : id < s.maps.next)
    (h : id ∈ s.maps.linked ∨ (s.maps.mem id).refs ≤ 0) (quiet : Action.isQuiet a = true)
    (hstep : FileOperations.step k s a = some t) :
    id ∈ t.maps.linked ∨ (t.maps.mem id).refs ≤ 0 := by
  have busy : s.op ≠ none := fun hn => by
    rw [hn] at holds
    cases holds
  have moves := step_mapMoves hstep
  generalize t.op = op at moves
  generalize t.maps = maps at moves ⊢
  cases moves with
  | ctx moves => exact (ctxMoves_listed known h moves).2
  | call idle moves => exact False.elim (busy idle)
  | other free => exact h
  | removesFd idle action fresh free => exact False.elim (busy idle)
  | finish action moves =>
    subst action
    cases quiet

theorem mmapCreate_ok {maps maps' : Maps} {req : MapRequest} {dma : DmaOutcome}
    (h : mmapCreate k maps req dma = (.ok id, maps')) :
    id ∈ maps'.linked ∧ (maps'.mem id).fd = req.fd := by
  unfold mmapCreate at h
  split at h
  · rename_i v u hfind
    obtain ⟨hid, rfl⟩ := Prod.mk.inj h
    obtain rfl := Except.ok.inj hid
    have hcovers := mmapFind_covers hfind
    obtain ⟨linked, hcases⟩ := mmapFind_ok hfind
    simp only [covers, Bool.and_eq_true, beq_iff_eq] at hcovers
    rcases hcases with ⟨hfalse, -⟩ | ⟨-, -, rfl⟩
    · cases hfalse
    · refine ⟨linked, ?_⟩
      rw [set_mem_self]
      exact hcovers.2
  · dsimp only at h
    split at h
    · cases (Prod.mk.inj h).1
    split at h
    · cases (Prod.mk.inj h).1
    rename_i hheap
    split at h
    · obtain ⟨hid, rfl⟩ := Prod.mk.inj h
      obtain rfl := Except.ok.inj hid
      rw [mmapAdd_plain]
      · refine ⟨List.mem_cons_self, ?_⟩
        change (Maps.mem (Maps.set _ _ _) _).fd = _
        rw [set_mem_self]
        dsimp only
        split_ifs <;> rfl
      · rw [set_mem_self]
        dsimp only
        split_ifs <;> simpa using hheap
    · cases (Prod.mk.inj h).1

end held

/-- A map call that waits has its map, unless all references to it are gone. -/
structure CallMap (s : State) (id : MapId) : Prop where
  known : id < s.file.maps.next
  fd : (s.file.maps.mem id).fd = s.asked.fd
  linked : id ∈ s.file.maps.linked ∨ (s.file.maps.mem id).refs ≤ 0

def MappingOk (k : Uapi) (s : File) (m : Mapping) : Prop :=
  match m.place with
  | .map id => MapOk k s m id
  | .pages b => m.cmd = .mmap ∧ PagesOk s b m.req.size ∧ (s.bufs b).raddr = m.addr ∧
      m.addr ≠ 0 ∧ s.op ≠ some (.mmapPages b)

structure Sound (k : Uapi) (s : State) : Prop where
  listed : FileListed s.file
  places : PlacesOk s.file
  started : notifying s.file.op = false ∨ s.mapped ≠ [] → s.file.dspProcInit = true
  map : ∀ id, holding s.file.op = some id → CallMap s id
  pages : ∀ b, s.file.op = some (.mmapPages b) → PagesOk s.file b s.asked.size
  mapped : ∀ m ∈ s.mapped, MappingOk k s.file m

section sound

variable {k : Uapi} {s : State} {t : File} {a : Action}

theorem opened_sound (k : Uapi) : Sound k State.opened where
  listed := opened_listed
  places := opened_listsOk.places
  started := fun h => h.elim (fun hop => by cases hop) fun hnil => False.elim (hnil rfl)
  map := fun _ h => by cases h
  pages := fun _ h => by cases h
  mapped := fun _ h => by cases h

theorem step_dspProcInit {s t : File} (init : s.dspProcInit = true)
    (hstep : FileOperations.step k s a = some t) : t.dspProcInit = true := by
  cases step_moves hstep with
  | init cid => rfl
  | staged pending alloc | allocsPages idle alloc =>
    rcases bufAlloc_some alloc with ⟨-, -, rfl⟩ | ⟨-, rfl⟩
    · exact init
    · exact init
  | messaged pending bare alloc | notifies op alloc | commands alloc =>
    obtain ⟨i, -, -, rfl⟩ := virtAllocMsg_some alloc
    exact init
  | frees pending =>
    rename_i c
    obtain ⟨_, _, _, _, _, _, hfree⟩ := contextDrop_frame { s with
      pending := s.pending.erase c, interrupted := s.interrupted.erase c } c
    rw [FileOperations.contextFree, hfree]
    exact init
  | freesPages op =>
    obtain ⟨_, _, _, _, _, hfree⟩ := bufFree_frame s _ false
    rw [hfree]
    exact init
  | answers op | replies waiting =>
    obtain ⟨_, hfree⟩ := virtFreeMsg_frame s _
    rw [hfree]
    exact init
  | _ => exact init

theorem quiet_waits (quiet : Action.isQuiet a = true) : ∀ ok raddr, a ≠ .finishOp ok raddr := by
  rintro ok raddr rfl
  cases quiet

theorem call_waits (call : a.isMapCall = true) : ∀ ok raddr, a ≠ .finishOp ok raddr := by
  rintro ok raddr rfl
  cases call

theorem separate_unreached {m : Mapping} {id : MapId} (cond : Separate k s a) (hm : m ∈ s.mapped)
    (place : m.place = .map id) : Unreached s.file id a := by
  have hid : id ∈ m.id := by
    unfold Mapping.id
    rw [place]
    exact rfl
  cases a with
  | mapHandles c handles => exact cond m hm id hid
  | putFdlist c fdlist => exact cond m hm id hid
  | _ => trivial

theorem quiet_mappingOk {m : Mapping} (h : Sound k s) (cond : Separate k s a)
    (quiet : Action.isQuiet a = true) (hm : m ∈ s.mapped)
    (hstep : FileOperations.step k s.file a = some t) : MappingOk k t m := by
  have old := h.mapped m hm
  have aside := quiet_aside quiet hstep
  unfold MappingOk at old ⊢
  split at old
  · rename_i id place
    obtain ⟨d, moved⟩ := quiet_moved old.pinned h.places
      (separate_unreached cond hm place) quiet hstep
    refine mapOk_moved old moved (by rw [aside.same.1]) (by rw [aside.same.2]) ?_
    exact alone_next old (step_onward h.listed hstep) (step_addressed (quiet_waits quiet) hstep)
  · rename_i b place
    obtain ⟨cmd, pages, raddr, addr, settled⟩ := old
    have freed : t.op = none → s.file.op ≠ some (.munmapPages b) := fun hnone hop => by
      have same := aside.eq (by rw [hop]; rfl)
      rw [hnone, hop] at same
      cases same
    obtain ⟨pages', raddr'⟩ := step_pages pages h.places freed hstep
    refine ⟨cmd, pages', (raddr' settled).trans raddr, addr, fun hop => ?_⟩
    rcases aside with same | ⟨-, busy⟩
    · exact settled (same.symm.trans hop)
    · rw [hop] at busy
      cases busy

theorem quiet_callMap {id : MapId} (h : CallMap s id) (listed : FileListed s.file)
    (holds : holding s.file.op = some id) (quiet : Action.isQuiet a = true)
    (hstep : FileOperations.step k s.file a = some t) (mapped : List Mapping) :
    CallMap ⟨t, s.asked, mapped⟩ id := by
  have onward := step_onward listed hstep
  refine ⟨Nat.lt_of_lt_of_le h.known onward.next, ?_, ?_⟩
  · exact (onward.same id h.known).fd.trans h.fd
  · exact step_holding holds h.known h.linked quiet hstep

theorem begun_pages {s t : File} {b : BufId} (idle : s.op = none) (begun : Begun k s a t)
    (op : t.op = some (.mmapPages b)) (last : Request) :
    b = s.nextBuf ∧ PagesOk t b (asks last a).size := by
  have busy : s.op ≠ some (.mmapPages b) := fun hop => by
    rw [idle] at hop
    cases hop
  cases begun with
  | pages flags =>
    obtain rfl := Op.mmapPages.inj (Option.some.inj op)
    refine ⟨rfl, List.mem_cons_self, ?_, ?_⟩
    all_goals simp [bufNew, flags, asks]
  | refused => exact False.elim (busy op)
  | failed created => exact False.elim (busy op)
  | unmaps removed next => rcases next with rfl | rfl <;> cases op
  | removesFd fresh next =>
    rcases next with rfl | rfl
    · exact False.elim (busy op)
    · cases op
  | _ => cases op

theorem begun_callMap {id : MapId} (idle : s.file.op = none) (begun : Begun k s.file a t)
    (listed : FileListed t) (holds : holding t.op = some id) (mapped : List Mapping) :
    CallMap ⟨t, asks s.asked a, mapped⟩ id := by
  have busy : holding s.file.op ≠ some id := fun hop => by
    rw [idle] at hop
    cases hop
  have created : ∀ {req : MapRequest} {dma : DmaOutcome} {maps : Maps},
      mmapCreate k s.file.maps req dma = (.ok id, maps) → t.maps = maps →
      (asks s.asked a).fd = req.fd → CallMap ⟨t, asks s.asked a, mapped⟩ id := by
    intro req dma maps hcreate hmaps hfd
    obtain ⟨linked, fd⟩ := mmapCreate_ok hcreate
    rw [← hmaps] at linked fd
    exact ⟨listed.maps.known id linked, fd.trans hfd.symm, Or.inl linked⟩
  cases begun with
  | mmap hcreate | memMap hcreate =>
    obtain rfl := Option.some.inj holds
    exact created hcreate rfl rfl
  | refused => exact False.elim (busy holds)
  | failed hcreate => exact False.elim (busy holds)
  | unmaps removed next => rcases next with rfl | rfl <;> cases holds
  | removesFd fresh next =>
    rcases next with rfl | rfl
    · exact False.elim (busy holds)
    · cases holds
  | _ => cases holds

theorem call_mappingOk {m : Mapping} (h : Sound k s) (idle : s.file.op = none)
    (call : a.isMapCall = true) (hm : m ∈ s.mapped) (kept : ends k s.file m.place a = false)
    (begun : Begun k s.file a t) (hstep : FileOperations.step k s.file a = some t) :
    MappingOk k t m := by
  have old := h.mapped m hm
  unfold MappingOk at old ⊢
  split at old
  · rename_i id place
    rw [place] at kept
    exact mapCall_mapOk old h.listed idle kept (alone_next old (step_onward h.listed hstep)
      (step_addressed (call_waits call) hstep)) begun
  · rename_i b place
    obtain ⟨cmd, pages, raddr, addr, settled⟩ := old
    have freed : t.op = none → s.file.op ≠ some (.munmapPages b) := fun _ hop => by
      rw [idle] at hop
      cases hop
    obtain ⟨pages', raddr'⟩ := step_pages pages h.places freed hstep
    refine ⟨cmd, pages', (raddr' settled).trans raddr, addr, fun hop => ?_⟩
    have new := (begun_pages idle begun hop s.asked).1
    have known := h.places.bufs.known b (mem_allBufs.mpr (Or.inr (Or.inr (Or.inl pages.remote))))
    exact Nat.ne_of_lt known new

theorem finishOp_op {s t : File} {ok : Bool} {raddr : UInt64}
    (h : finishOp k s ok raddr = some t) : t.op = none := by
  unfold FileOperations.finishOp at h
  split at h
  all_goals cases h
  all_goals rfl

theorem finish_mappingOk {m : Mapping} {ok : Bool} {raddr : UInt64} (h : Sound k s)
    (cond : FinishAlone k s ok raddr) (hm : m ∈ s.mapped)
    (kept : unmapped k s.file ok ≠ some m.place) (hstep : finishOp k s.file ok raddr = some t) :
    MappingOk k t m := by
  have old := h.mapped m hm
  have fstep : FileOperations.step k s.file (.finishOp ok raddr) = some t := hstep
  have idle := finishOp_op hstep
  unfold MappingOk at old ⊢
  split at old
  · rename_i id place
    rw [place] at kept
    exact finish_mapOk old hm place h.listed cond kept (step_onward h.listed fstep) hstep
  · rename_i b place
    rw [place] at kept
    obtain ⟨cmd, pages, addr, nonzero, settled⟩ := old
    have waits : t.op ≠ some (.mmapPages b) := fun hop => by
      rw [idle] at hop
      cases hop
    by_cases hop : s.file.op = some (.munmapPages b)
    -- the back end refused to unmap these pages
    · unfold unmapped at kept
      unfold FileOperations.finishOp at hstep
      rw [hop] at kept hstep
      have hok : ¬ ok = true := fun hok => kept (if_pos hok)
      obtain rfl := Option.some.inj hstep
      rw [if_neg hok] at waits ⊢
      exact ⟨cmd, ⟨pages.remote, pages.flags, pages.size⟩, addr, nonzero, waits⟩
    · obtain ⟨pages', addr'⟩ := step_pages pages h.places (fun _ => hop) fstep
      exact ⟨cmd, pages', (addr' settled).trans addr, nonzero, waits⟩

/-- A call that succeeds alone makes a mapping. -/
theorem mapOk_new {cmd : MapCmd} {id : MapId} {raddr : UInt64} (own : Alone k s id)
    (call : CallMap s id) (listed : FileListed s.file)
    (fresh : cmd = .memMap → NewAddress s.file id raddr ∧
      unmappable k (s.file.maps.mem id) = true) :
    MapOk k { s.file with
      op := none
      maps := s.file.maps.set id { s.file.maps.mem id with raddr := raddr } }
      ⟨cmd, s.asked, raddr, .map id⟩ id := by
  obtain ⟨ctx, handles, low, high⟩ := own.refs
  have linked : id ∈ s.file.maps.linked := call.linked.resolve_right (by omega)
  have hmem := set_mem_self s.file.maps id { s.file.maps.mem id with raddr := raddr }
  constructor
  case pinned =>
    refine ⟨call.known, ?_, ?_, fun _ => ?_, fun hnot => False.elim (hnot linked), handles⟩
    all_goals dsimp only
    all_goals rw [hmem]
    · exact listed.maps.plain id linked
    · exact ctx
    · change (s.file.maps.mem id).ctxRefs < (s.file.maps.mem id).refs
      omega
  case present => exact Or.inl linked
  case addr => exact fun hcmd => (fresh hcmd).1.1
  case alone =>
    intro hcmd v hv hne
    dsimp only
    rw [set_mem_ne s.file.maps _ hne]
    exact (fresh hcmd).1.2 v (hv.resolve_right fun hh => by cases hh) hne
  all_goals dsimp only
  all_goals rw [hmem]
  case fd => exact call.fd
  case len => exact own.len
  case flags => exact fun hcmd => (fresh hcmd).2
  case low =>
    change (held s.file id : Int) + 1 + 0 ≤ (s.file.maps.mem id).refs
    omega
  case high =>
    change (s.file.maps.mem id).refs ≤
      (held s.file id : Int) + 1 + 0 + keepRefs k (s.file.maps.mem id)
    omega

theorem returned_mappingOk {m : Mapping} {ok : Bool} {raddr : UInt64} (h : Sound k s)
    (cond : FinishAlone k s ok raddr) (hm : m ∈ returned s ok raddr)
    (hstep : finishOp k s.file ok raddr = some t) : MappingOk k t m := by
  unfold returned at hm
  unfold FinishAlone at cond
  unfold FileOperations.finishOp at hstep
  split at hm
  · rename_i id hop
    rw [hop] at cond hstep
    split_ifs at hm with hok
    · obtain rfl := List.mem_singleton.mp hm
      obtain rfl := Option.some.inj hstep
      rw [if_pos hok]
      exact mapOk_new (cond hok).1 (h.map id (by rw [hop]; rfl)) h.listed fun hcmd => by cases hcmd
    · cases hm
  · rename_i id hop
    rw [hop] at cond hstep
    split_ifs at hm with hok
    · obtain rfl := List.mem_singleton.mp hm
      obtain rfl := Option.some.inj hstep
      obtain ⟨own, fresh, flags⟩ := cond hok.2 hok.1
      rw [if_pos hok]
      exact mapOk_new own (h.map id (by rw [hop]; rfl)) h.listed fun _ => ⟨fresh, flags⟩
    · cases hm
  · rename_i b hop
    rw [hop] at cond hstep
    split_ifs at hm with hok
    · obtain rfl := List.mem_singleton.mp hm
      obtain rfl := Option.some.inj hstep
      have pages := h.pages b hop
      rw [if_pos hok]
      refine ⟨rfl, ⟨pages.remote, ?_, ?_⟩, ?_, cond hok, fun he => by cases he⟩
      all_goals dsimp only
      all_goals rw [Function.update_self]
      · exact pages.flags
      · exact pages.size
    · cases hm
  · cases hm

theorem returned_busy {ok : Bool} {raddr : UInt64} (h : returned s ok raddr ≠ []) :
    notifying s.file.op = false := by
  unfold returned at h
  split at h
  · rename_i hop
    rw [hop]
    rfl
  · rename_i hop
    rw [hop]
    rfl
  · rename_i hop
    rw [hop]
    rfl
  · exact False.elim (h rfl)

/-- The mappings that a step leaves. -/
def left (k : Uapi) (s : State) (a : Action) : List Mapping :=
  s.mapped.filter fun m => !ends k s.file m.place a

theorem mem_left {m : Mapping} (h : m ∈ left k s a) :
    m ∈ s.mapped ∧ ends k s.file m.place a = false := by
  obtain ⟨hm, hends⟩ := List.mem_filter.mp h
  exact ⟨hm, by simpa using hends⟩

theorem left_ne_nil (h : left k s a ≠ []) : s.mapped ≠ [] := fun hnil => h (by
  unfold left
  rw [hnil]
  rfl)

theorem quiet_sound (h : Sound k s) (cond : Separate k s a) (quiet : Action.isQuiet a = true)
    (fstep : FileOperations.step k s.file a = some t) : Sound k ⟨t, s.asked, left k s a⟩ where
  listed := (step_onward h.listed fstep).listed
  places := step_placesOk h.places fstep
  started := fun hbusy => by
    refine step_dspProcInit (h.started (hbusy.imp (fun hop => ?_) left_ne_nil)) fstep
    rcases quiet_aside quiet fstep with same | ⟨-, hop'⟩
    · exact (congrArg notifying same).symm.trans hop
    · rw [hop'] at hop
      cases hop
  map := fun id holds => by
    have hold := (quiet_aside quiet fstep).same.2.symm.trans holds
    exact quiet_callMap (h.map id hold) h.listed hold quiet fstep _
  pages := fun b hop => by
    have hold : s.file.op = some (.mmapPages b) := by
      rcases quiet_aside quiet fstep with same | ⟨-, busy⟩
      · exact same.symm.trans hop
      · rw [show t.op = _ from hop] at busy
        cases busy
    refine (step_pages (h.pages b hold) h.places (fun _ hpages => ?_) fstep).1
    rw [hold] at hpages
    cases hpages
  mapped := fun m hm => quiet_mappingOk h cond quiet (mem_left hm).1 fstep

theorem call_ctx (call : a.isMapCall = true) : a.ctx = none := by
  cases a <;> first | rfl | cases call

theorem call_sound (h : Sound k s) (call : a.isMapCall = true)
    (fstep : FileOperations.step k s.file a = some t) :
    Sound k ⟨t, asks s.asked a, left k s a⟩ := by
  have onward := step_onward h.listed fstep
  obtain ⟨idle, init, begun⟩ : s.file.op = none ∧ s.file.dspProcInit = true ∧
      Begun k s.file a t := by
    rcases step_kinds fstep with ⟨c, -, hctx, -⟩ | ⟨-, idle, init, hstep⟩ | ⟨hother, -⟩
    · rw [call_ctx call] at hctx
      cases hctx
    · exact ⟨idle, init, mapCall_begun hstep⟩
    · rw [call] at hother
      cases hother
  exact {
    listed := onward.listed
    places := step_placesOk h.places fstep
    started := fun _ => step_dspProcInit init fstep
    map := fun id holds => begun_callMap idle begun onward.listed holds _
    pages := fun b hop => (begun_pages idle begun hop s.asked).2
    mapped := fun m hm =>
      call_mappingOk h idle call (mem_left hm).1 (mem_left hm).2 begun fstep }

theorem finish_sound {ok : Bool} {raddr : UInt64} (h : Sound k s)
    (cond : FinishAlone k s ok raddr) (hstep : finishOp k s.file ok raddr = some t) :
    Sound k ⟨t, s.asked, returned s ok raddr ++ left k s (.finishOp ok raddr)⟩ := by
  have fstep : FileOperations.step k s.file (.finishOp ok raddr) = some t := hstep
  have idle := finishOp_op hstep
  refine ⟨(step_onward h.listed fstep).listed, step_placesOk h.places fstep, fun hbusy => ?_,
    fun id holds => ?_, fun b hop => ?_, fun m hm => ?_⟩
  · refine step_dspProcInit (h.started ?_) fstep
    rcases hbusy with hop | hmapped
    · dsimp only at hop
      rw [idle] at hop
      cases hop
    · by_cases hreturned : returned s ok raddr = []
      · rw [hreturned] at hmapped
        exact Or.inr (left_ne_nil hmapped)
      · exact Or.inl (returned_busy hreturned)
  · dsimp only at holds
    rw [idle] at holds
    cases holds
  · dsimp only at hop
    rw [idle] at hop
    cases hop
  · rcases List.mem_append.mp hm with hnew | hold
    · exact returned_mappingOk h cond hnew hstep
    · obtain ⟨hm, hends⟩ := mem_left hold
      exact finish_mappingOk h cond hm (fun hu => by simp [ends, hu] at hends) hstep

theorem step_sound {s' : State} (h : Sound k s) (cond : Separate k s a)
    (hstep : step k s a = some s') : Sound k s' := by
  obtain ⟨t, fstep, rfl⟩ := Option.map_eq_some_iff.mp hstep
  cases a with
  | finishOp ok raddr => exact finish_sound h cond fstep
  | mmap ud dma pages => exact call_sound h rfl fstep
  | memMap req dma => exact call_sound h rfl fstep
  | munmap vaddrout size => exact call_sound h rfl fstep
  | memUnmap fd vaddr length => exact call_sound h rfl fstep
  | munmapFd tid fd => exact call_sound h rfl fstep
  | _ => exact quiet_sound h cond rfl fstep

end sound

section undone

variable {k : Uapi} {s : File} {m : Mapping}

theorem held_idle (idle : Idle s) (id : MapId) : held s id = 0 := by
  unfold held live
  rw [idle.1, idle.2.1]
  rfl

/-- With no invoke in flight the map passes the test of `vfastrpc_mmap_remove`. -/
theorem removable_idle {id : MapId} (fd : Int) (h : MapOk k s m id) (idle : Idle s)
    (hfd : fd < 0 ∨ fd = m.req.fd) :
    id ∈ s.maps.linked ∧ removable k (s.maps.mem id) fd m.addr m.req.size = true := by
  obtain ⟨linked, hcall⟩ := idle_linked h idle.2.2
  refine ⟨linked, ?_⟩
  have hheld := held_idle idle id
  have hctx := h.pinned.ctx
  have hlow := h.low
  have hhigh := h.high
  rw [hcall, hheld] at hlow hhigh
  rw [hheld] at hctx
  have refs : (s.maps.mem id).refs = 1 ∨ (s.maps.mem id).refs = 2 ∧
      (s.maps.mem id).keep k = true := by
    rcases keepRefs_cases k (s.maps.mem id) with ⟨hkeep, hone⟩ | ⟨-, hzero⟩
    · rw [hone] at hhigh
      have : (s.maps.mem id).refs = 1 ∨ (s.maps.mem id).refs = 2 := by omega
      exact this.imp_right fun htwo => ⟨htwo, hkeep⟩
    · rw [hzero] at hhigh
      exact Or.inl (by omega)
  simp only [removable, Bool.and_eq_true, Bool.or_eq_true, decide_eq_true_eq, beq_iff_eq]
  refine ⟨⟨⟨⟨hfd.imp_right fun he => h.fd.trans he.symm, h.raddr⟩, ?_⟩, refs⟩, hctx⟩
  rw [h.raddr, h.len]

theorem munmap_idle {id : MapId} (h : MapOk k s m id) (idle : Idle s)
    (init : s.dspProcInit = true) :
    (vfastrpcInternalMunmap k s m.addr m.req.size (.reply 0 true)).ret = 0 := by
  obtain ⟨linked, test⟩ := removable_idle (-1) h idle (Or.inl (by decide))
  unfold vfastrpcInternalMunmap
  rw [if_neg (by rw [init]; decide)]
  split
  · rfl
  split
  · rename_i hremove
    unfold mmapRemove at hremove
    split at hremove
    · rename_i hnone
      exact False.elim (List.find?_eq_none.mp hnone id linked test)
    · cases hremove
  · rfl

theorem munmap_pages {b : BufId} (pages : PagesOk s b m.req.size)
    (raddr : (s.bufs b).raddr = m.addr) (nonzero : m.addr ≠ 0) (init : s.dspProcInit = true) :
    (vfastrpcInternalMunmap k s m.addr m.req.size (.reply 0 true)).ret = 0 := by
  unfold vfastrpcInternalMunmap
  rw [if_neg (by rw [init]; decide)]
  split
  · rfl
  · rename_i hnone
    refine False.elim (List.find?_eq_none.mp hnone b pages.remote ?_)
    simp [raddr, nonzero, pages.flags, pages.size]

theorem memUnmap_idle {id : MapId} (h : MapOk k s m id) (cmd : m.cmd = .memMap) (idle : Idle s)
    (init : s.dspProcInit = true) :
    (vfastrpcInternalMemUnmap k s m.req.fd m.addr m.req.size (.reply 0 true)).ret = 0 := by
  obtain ⟨linked, test⟩ := removable_idle m.req.fd h idle (Or.inr rfl)
  unfold vfastrpcInternalMemUnmap
  rw [if_neg (by rw [init]; decide)]
  split
  · rename_i hremove
    unfold mmapRemove at hremove
    split at hremove
    · rename_i hnone
      exact False.elim (List.find?_eq_none.mp hnone id linked test)
    · cases hremove
  · rename_i v maps hremove
    -- the first map that passes the test has the address, so it is this one
    have hv : v = id := by
      by_contra hne
      unfold mmapRemove at hremove
      split at hremove
      · cases hremove
      rename_i w hfind
      obtain ⟨rfl, -⟩ := Prod.mk.inj (Except.ok.inj hremove)
      have hraddr := List.find?_some hfind
      simp only [removable, Bool.and_eq_true, beq_iff_eq] at hraddr
      exact h.alone cmd w (Or.inl (List.mem_of_find?_eq_some hfind)) hne hraddr.1.1.1.2
    subst hv
    have flags : unmappable k (maps.mem v) = true := by
      rw [(mmapRemove_own hremove).2.1]
      exact h.flags cmd
    rw [if_pos flags]
    rfl

theorem mapping_undone {s : State} (h : Sound k s) (hm : m ∈ s.mapped) (idle : Idle s.file) :
    Undone k s.file m := by
  have init := h.started (Or.inr (List.ne_nil_of_mem hm))
  have hok := h.mapped m hm
  unfold MappingOk at hok
  unfold Undone
  split at hok
  · split
    · exact munmap_idle hok idle init
    · rename_i cmd
      exact memUnmap_idle hok cmd idle init
  · obtain ⟨cmd, pages, raddr, nonzero, -⟩ := hok
    rw [cmd]
    exact munmap_pages pages raddr nonzero init

/-- In a run in which every map call that succeeds has a map to itself, every mapping can
be undone by its owner once no invoke is in flight. -/
theorem mappings_can_be_undone (k : Uapi) (as : List Action) (s : State)
    (separate : Along (step k) (Separate k) State.opened as)
    (run : exec (step k) State.opened as = some s) (m : Mapping) (hm : m ∈ s.mapped)
    (idle : Idle s.file) : Undone k s.file m :=
  mapping_undone (exec_invariant_along (Separate k) (fun _ _ _ h cond hs => step_sound h cond hs)
    (opened_sound k) separate run) hm idle

end undone

open MapReferences (uapi)

/-- MMAP of a range and of pages, MEM_MAP of another descriptor with `KEEP_MAP`, and invokes
with buffers in both ranges. -/
def threeMappings : List Action :=
  [.init 1, .mmap ⟨5, 0x1000, 0x100, 0⟩ .mapped true,
    .invoke 7 0x20000 false, .mapBuffer 0 0 ⟨5, 0, 0x1010, 0x20, 0⟩ .mapped,
    .finishOp true 0x8000, .memMap ⟨6, 8, 0x4000, 0x200, 2⟩ .mapped,
    .finishOp true 0x9000, .mapBuffer 0 1 ⟨6, 0, 0x4000, 0x200, 0⟩ .mapped,
    .mmap ⟨0, 0, 0x300, 0x1000⟩ .mapped true, .finishOp true 0x9000,
    .memMap ⟨6, 8, 0x4000, 0x200, 2⟩ .mapped, .finishOp true 0xA000,
    .send 0 false, .contextFree 0]

theorem threeMappings_undone : ∃ s, exec (step uapi) State.opened threeMappings = some s ∧
    s.mapped.map Mapping.addr = [0x9000, 0x9000, 0x8000] ∧ Idle s.file ∧
    ∀ m ∈ s.mapped, Undone uapi s.file m :=
  ⟨_, rfl, by decide +kernel, by decide +kernel, fun m hm =>
    mappings_can_be_undone uapi threeMappings _ (by decide +kernel) rfl m hm (by decide +kernel)⟩

/-- Two MMAPs of one range succeed. The second overwrites the address of the first, and as
both hold a reference neither can be undone. -/
theorem shared_map_never_unmapped : ∃ s, exec (step uapi) State.opened
      [.init 1, .mmap ⟨5, 0x1000, 0x100, 0⟩ .mapped true,
        .finishOp true 0x8000, .mmap ⟨5, 0x1000, 0x100, 0⟩ .mapped true,
        .finishOp true 0x9000] = some s ∧
    Idle s.file ∧ s.mapped.map Mapping.addr = [0x9000, 0x8000] ∧
    ∀ m ∈ s.mapped, ¬ Undone uapi s.file m :=
  ⟨_, rfl, by decide +kernel⟩

end MapRoundTrip
