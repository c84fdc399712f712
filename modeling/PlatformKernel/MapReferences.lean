import PlatformKernel.GuardedRuns
import PlatformKernel.FileMoves

/-!
# Reference counts of linked maps

A map is counted by `refs`, of which `ctx_refs` are held by contexts. Taking and
releasing a map for a context changes both, so it keeps `ctx_refs` at most `refs`,
whoever asks for it. The map calls change `refs` alone. They are safe while the
reference they drop is their own: `vfastrpc_mmap_remove_fd` does not check this, and
a failed `munmap` puts a `KEEP_MAP` map back without the reference it took.
-/

namespace MapReferences

open GuardedRuns FileMaps FileOperations FileMoves ReturnCodes

structure Counted (map : VfastrpcMmap) : Prop where
  refs : 1 ≤ map.refs
  bound : map.refs < intMax
  ctx : 0 ≤ map.ctxRefs
  le : map.ctxRefs ≤ map.refs

/-- Linked maps are counted; maps that are freed, or not yet allocated, count nothing, so
that a pointer left behind releases nothing. -/
structure MapsOk (s : Maps) : Prop where
  counted : ∀ id ∈ s.linked, Counted (s.mem id)
  plain : ∀ id ∈ s.linked, heapFlags (s.mem id).flags = false
  nodup : (s.linked ++ s.freed).Nodup
  known : ∀ id ∈ s.linked ++ s.freed, id < s.next
  dead : ∀ id, id ∈ s.freed ∨ s.next ≤ id → (s.mem id).refs = 0 ∧ (s.mem id).ctxRefs = 0

/-- `mmap` and `mem_map` own a reference, unless a context took it from them. -/
def Held (s : Maps) (id : MapId) : Prop :=
  id ∈ s.freed ∨ id ∈ s.linked ∧ (s.mem id).ctxRefs < (s.mem id).refs

/-- The map that `munmap` or `mem_unmap` took off the list. -/
structure Removed (k : Uapi) (s : Maps) (id : MapId) : Prop where
  known : id < s.next
  unlinked : id ∉ s.linked
  plain : heapFlags (s.mem id).flags = false
  ctx : (s.mem id).ctxRefs = 0
  low : 0 ≤ (s.mem id).refs
  high : (s.mem id).refs ≤ 1
  alive : id ∉ s.freed → (s.mem id).keep k = false → (s.mem id).refs = 1

def OpOk (k : Uapi) (s : Maps) : Option Op → Prop
  | some (.mmap id) => Held s id
  | some (.memMap id) => Held s id
  | some (.munmap id) => Removed k s id
  | some (.memUnmap id) => Removed k s id
  | _ => True

structure RefsOk (k : Uapi) (s : Maps) (op : Option Op) : Prop where
  maps : MapsOk s
  op : OpOk k s op

theorem opOk_of {k : Uapi} {s t : Maps} {op : Option Op} (h : OpOk k s op)
    (held : ∀ id, Held s id → Held t id) (removed : ∀ id, Removed k s id → Removed k t id) :
    OpOk k t op := by
  match op, h with
  | some (.mmap id), h => exact held id h
  | some (.memMap id), h => exact held id h
  | some (.munmap id), h => exact removed id h
  | some (.memUnmap id), h => exact removed id h
  | some (.mmapPages b), _ => trivial
  | some (.munmapPages b), _ => trivial
  | some (.notify tid), _ => trivial
  | some (.notified tid m), _ => trivial
  | none, _ => trivial

section maps

variable {k : Uapi} {s : Maps} {op : Option Op} {id : MapId} {map : VfastrpcMmap}

theorem MapsOk.alive (h : MapsOk s) (hrefs : 0 < (s.mem id).refs) :
    id ∉ s.freed ∧ id < s.next := by
  have notDead : ¬ (id ∈ s.freed ∨ s.next ≤ id) := fun hd => by
    have := (h.dead id hd).1
    omega
  exact ⟨fun hf => notDead (Or.inl hf), Nat.lt_of_not_le fun hn => notDead (Or.inr hn)⟩

theorem MapsOk.linked_alive (h : MapsOk s) (hid : id ∈ s.linked) : id ∉ s.freed ∧ id < s.next :=
  h.alive (h.counted id hid).refs

theorem mapsOk_set (h : MapsOk s)
    (linked : id ∈ s.linked → Counted map ∧ heapFlags map.flags = false)
    (dead : id ∈ s.freed ∨ s.next ≤ id → map.refs = 0 ∧ map.ctxRefs = 0) :
    MapsOk (s.set id map) where
  counted := fun v hv => by
    by_cases hvid : v = id
    · subst hvid
      rw [set_mem_self]
      exact (linked hv).1
    · rw [set_mem_ne s map hvid]
      exact h.counted v hv
  plain := fun v hv => by
    by_cases hvid : v = id
    · subst hvid
      rw [set_mem_self]
      exact (linked hv).2
    · rw [set_mem_ne s map hvid]
      exact h.plain v hv
  nodup := h.nodup
  known := h.known
  dead := fun v hv => by
    by_cases hvid : v = id
    · subst hvid
      rw [set_mem_self]
      exact dead hv
    · rw [set_mem_ne s map hvid]
      exact h.dead v hv

/-- A map leaves the list; its contents do not matter to the others. -/
theorem mapsOk_unlink (h : MapsOk s) (alive : id ∉ s.freed ∧ id < s.next)
    (map : VfastrpcMmap) : MapsOk { s.set id map with linked := s.linked.erase id } := by
  have hnodup : s.linked.Nodup := (List.nodup_append.mp h.nodup).1
  have other : ∀ v ∈ s.linked.erase id, v ≠ id ∧ v ∈ s.linked := fun v hv =>
    hnodup.mem_erase_iff.mp hv
  have left : (s.linked.erase id ++ s.freed).Sublist (s.linked ++ s.freed) :=
    List.erase_sublist.append_right s.freed
  refine ⟨fun v hv => ?_, fun v hv => ?_, left.nodup h.nodup,
    fun v hv => h.known v (left.subset hv), fun v hv => ?_⟩
  · rw [show (Maps.mem _ v) = s.mem v from set_mem_ne s map (other v hv).1]
    exact h.counted v (other v hv).2
  · rw [show (Maps.mem _ v) = s.mem v from set_mem_ne s map (other v hv).1]
    exact h.plain v (other v hv).2
  · have hne : v ≠ id := by
      rintro rfl
      exact hv.elim alive.1 (Nat.not_le.mpr alive.2)
    rw [show (Maps.mem _ v) = s.mem v from set_mem_ne s map hne]
    exact h.dead v hv

theorem mapsOk_free (h : MapsOk s) (alive : id ∉ s.freed ∧ id < s.next) (hrefs : map.refs = 0)
    (hctx : map.ctxRefs = 0) :
    MapsOk { s.set id map with linked := s.linked.erase id, freed := id :: s.freed } := by
  have base := mapsOk_unlink h alive map
  have hnodup : s.linked.Nodup := (List.nodup_append.mp h.nodup).1
  have hnot : id ∉ s.linked.erase id := hnodup.not_mem_erase
  refine ⟨base.counted, base.plain, ?_, fun v hv => ?_, fun v hv => ?_⟩
  · refine List.perm_middle.nodup_iff.mpr (List.nodup_cons.mpr ⟨?_, base.nodup⟩)
    simp [hnot, alive.1]
  · rcases List.mem_append.mp hv with hl | hf
    · exact base.known v (List.mem_append_left _ hl)
    · rcases List.mem_cons.mp hf with rfl | hf
      · exact alive.2
      · exact base.known v (List.mem_append_right _ hf)
  · by_cases hvid : v = id
    · subst hvid
      rw [show (Maps.mem _ v) = map from set_mem_self s v map]
      exact ⟨hrefs, hctx⟩
    · exact base.dead v (hv.imp_left fun hm => (List.mem_cons.mp hm).resolve_left hvid)

theorem held_set {v : MapId} (h : Held s v)
    (more : id ∈ s.linked → (s.mem id).ctxRefs < (s.mem id).refs → map.ctxRefs < map.refs) :
    Held (s.set id map) v := by
  rcases h with hfreed | ⟨hlinked, hlt⟩
  · exact Or.inl hfreed
  · refine Or.inr ⟨hlinked, ?_⟩
    by_cases hv : v = id
    · subst hv
      rw [set_mem_self]
      exact more hlinked hlt
    · rw [set_mem_ne s map hv]
      exact hlt

theorem removed_set {v : MapId} (h : Removed k s v)
    (same : Removed k s id → Removed k (s.set id map) id) : Removed k (s.set id map) v := by
  by_cases hv : v = id
  · exact hv ▸ same (hv ▸ h)
  · have hmem := set_mem_ne s map hv
    exact ⟨h.known, h.unlinked, hmem ▸ h.plain, hmem ▸ h.ctx, hmem ▸ h.low, hmem ▸ h.high,
      hmem ▸ h.alive⟩

/-- A linked map gets other counts. -/
theorem refsOk_set (h : RefsOk k s op) (hid : id ∈ s.linked) (counted : Counted map)
    (flags : map.flags = (s.mem id).flags)
    (more : (s.mem id).ctxRefs < (s.mem id).refs → map.ctxRefs < map.refs) :
    RefsOk k (s.set id map) op where
  maps := mapsOk_set h.maps (fun _ => ⟨counted, flags ▸ h.maps.plain id hid⟩) fun hdead => by
    obtain ⟨hnot, hlt⟩ := h.maps.linked_alive hid
    exact False.elim (hdead.elim hnot (Nat.not_le.mpr hlt))
  op := opOk_of h.op (fun _ hv => held_set hv fun _ => more)
    (fun _ hv => removed_set hv fun hr => False.elim (hr.unlinked hid))

theorem refsOk_free (h : RefsOk k s op) (id : MapId) (alive : id ∉ s.freed ∧ id < s.next) :
    RefsOk k { s.set id ((s.mem id).withRefs 0 0) with
      linked := s.linked.erase id
      freed := id :: s.freed } op where
  maps := mapsOk_free h.maps alive rfl rfl
  op := by
    refine opOk_of h.op (fun v hv => ?_) (fun v hv => ?_)
    · by_cases hvid : v = id
      · exact Or.inl (hvid ▸ List.mem_cons_self)
      rcases hv with hfreed | ⟨hlinked, hlt⟩
      · exact Or.inl (List.mem_cons_of_mem _ hfreed)
      · refine Or.inr ⟨(List.mem_erase_of_ne hvid).mpr hlinked, ?_⟩
        rw [show (Maps.mem _ v) = s.mem v from set_mem_ne s _ hvid]
        exact hlt
    · have hunlinked : v ∉ s.linked.erase id := fun hm => hv.unlinked (List.mem_of_mem_erase hm)
      by_cases hvid : v = id
      · subst hvid
        exact ⟨hv.known, hunlinked, by simpa [Maps.set] using hv.plain, by simp [Maps.set],
          by simp [Maps.set], by simp [Maps.set],
          fun hnot => False.elim (hnot List.mem_cons_self)⟩
      · have hmem : (s.set id ((s.mem id).withRefs 0 0)).mem v = s.mem v := set_mem_ne s _ hvid
        exact ⟨hv.known, hunlinked, hmem ▸ hv.plain, hmem ▸ hv.ctx, hmem ▸ hv.low,
          hmem ▸ hv.high, fun hnot => hmem ▸ hv.alive fun hf => hnot (List.mem_cons_of_mem _ hf)⟩

theorem fewer_cases (c : Int) : c = 0 ∧ fewer c = 0 ∨ c ≠ 0 ∧ fewer c = c - 1 := by
  unfold fewer
  split_ifs with hc
  · exact Or.inr ⟨hc, rfl⟩
  · have hzero : c = 0 := not_not.mp hc
    exact Or.inl ⟨hzero, hzero⟩

theorem counted_fewer (h : Counted map) (hleft : map.refs ≠ 1 ∨ fewer map.ctxRefs ≠ 0) :
    Counted (map.withRefs (map.refs - 1) (fewer map.ctxRefs)) ∧
      (map.ctxRefs < map.refs → fewer map.ctxRefs < map.refs - 1) := by
  obtain ⟨hrefs, hbound, hctx, hle⟩ := h
  have hcases := fewer_cases map.ctxRefs
  refine ⟨⟨?_, ?_, ?_, ?_⟩, fun hlt => by omega⟩
  all_goals
    simp only [withRefs_refs, withRefs_ctxRefs]
    omega

/-- A release through a pointer to a map that is no longer linked does not touch the
linked ones. -/
theorem refsOk_unlinked (h : RefsOk k s op) (hid : id ∉ s.linked)
    (alive : id ∉ s.freed ∧ id < s.next)
    (same : Removed k s id → Removed k (s.set id map) id) : RefsOk k (s.set id map) op where
  maps := by
    refine mapsOk_set h.maps (fun hl => False.elim (hid hl)) fun hdead => ?_
    exact False.elim (hdead.elim alive.1 (Nat.not_le.mpr alive.2))
  op := opOk_of h.op (fun _ hv => held_set hv fun hl => False.elim (hid hl))
    (fun _ hv => removed_set hv same)

theorem refsOk_release (h : RefsOk k s op) (slot : Option MapId) :
    RefsOk k (ctxRelease s slot) op := by
  cases slot with
  | none => exact h
  | some id =>
    have hcases := fewer_cases (s.mem id).ctxRefs
    have outcome := ctxRelease_releasing s id
    generalize ctxRelease s (some id) = r at outcome ⊢
    cases outcome with
    | refused why =>
      have idle : (s.mem id).ctxRefs = 0 →
          s.set id ((s.mem id).withRefs (s.mem id).refs (fewer (s.mem id).ctxRefs)) = s := by
        intro hzero
        have hfewer : fewer (s.mem id).ctxRefs = (s.mem id).ctxRefs := by omega
        rw [hfewer, withRefs_same, set_same]
      by_cases hdead : id ∈ s.freed ∨ s.next ≤ id
      · rw [idle (h.maps.dead id hdead).2]
        exact h
      by_cases hid : id ∈ s.linked
      · obtain ⟨hrefs, -, hctx, -⟩ := h.maps.counted id hid
        rcases why with hheap | hneg | hneg
        · rw [h.maps.plain id hid] at hheap
          cases hheap
        · omega
        · omega
      · refine refsOk_unlinked h hid ⟨fun hf => hdead (Or.inl hf), ?_⟩ fun hr => ?_
        · exact Nat.lt_of_not_le fun hn => hdead (Or.inr hn)
        · rw [idle hr.ctx]
          exact hr
    | dropped refs ctx left =>
      by_cases hid : id ∈ s.linked
      · obtain ⟨counted, more⟩ := counted_fewer (h.maps.counted id hid) left
        exact refsOk_set h hid counted rfl more
      · refine refsOk_unlinked h hid (h.maps.alive refs) fun hr => ?_
        obtain ⟨-, -, -, hctx, hlow, hhigh, -⟩ := hr
        omega
    | freed plain refs ctx => exact refsOk_free h id (h.maps.alive (by omega))

theorem refsOk_alloc (h : RefsOk k s op) :
    RefsOk k { s.set s.next map with next := s.next + 1 } op := by
  have older : ∀ v, v ≠ s.next →
      ({ s.set s.next map with next := s.next + 1 } : Maps).mem v = s.mem v := fun v hv =>
    set_mem_ne s map hv
  have linkedNe : ∀ v ∈ s.linked, v ≠ s.next := fun v hv =>
    Nat.ne_of_lt (h.maps.known v (List.mem_append_left _ hv))
  refine ⟨⟨fun v hv => ?_, fun v hv => ?_, h.maps.nodup, fun v hv => ?_, fun v hv => ?_⟩,
    opOk_of h.op (fun v hv => ?_) fun v hv => ?_⟩
  · rw [older v (linkedNe v hv)]
    exact h.maps.counted v hv
  · rw [older v (linkedNe v hv)]
    exact h.maps.plain v hv
  · exact Nat.lt_succ_of_lt (h.maps.known v hv)
  · have hne : v ≠ s.next := by
      rcases hv with hf | hge
      · exact Nat.ne_of_lt (h.maps.known v (List.mem_append_right _ hf))
      · exact Nat.ne_of_gt hge
    rw [older v hne]
    exact h.maps.dead v (hv.imp_right Nat.le_of_succ_le)
  · refine hv.imp_right fun hl => ⟨hl.1, ?_⟩
    rw [older v (linkedNe v hl.1)]
    exact hl.2
  · have hmem := older v (Nat.ne_of_lt hv.known)
    exact ⟨Nat.lt_succ_of_lt hv.known, hv.unlinked, hmem ▸ hv.plain, hmem ▸ hv.ctx,
      hmem ▸ hv.low, hmem ▸ hv.high, hmem ▸ hv.alive⟩

theorem mapsOk_add (h : MapsOk s) (unlinked : id ∉ s.linked) (alive : id ∉ s.freed ∧ id < s.next)
    (counted : Counted (s.mem id)) (plain : heapFlags (s.mem id).flags = false) :
    MapsOk { s with linked := id :: s.linked } where
  counted := fun v hv => by
    rcases List.mem_cons.mp hv with rfl | hl
    · exact counted
    · exact h.counted v hl
  plain := fun v hv => by
    rcases List.mem_cons.mp hv with rfl | hl
    · exact plain
    · exact h.plain v hl
  nodup := List.nodup_cons.mpr ⟨by simp [unlinked, alive.1], h.nodup⟩
  known := fun v hv => by
    rcases List.mem_cons.mp hv with rfl | hl
    · exact alive.2
    · exact h.known v hl
  dead := h.dead

/-- A new map is linked. -/
theorem refsOk_link (h : RefsOk k s op) (map : VfastrpcMmap) (counted : Counted map)
    (plain : heapFlags map.flags = false) :
    RefsOk k { s.set s.next map with next := s.next + 1, linked := s.next :: s.linked } op := by
  have hmem : ({ s.set s.next map with next := s.next + 1 } : Maps).mem s.next = map :=
    set_mem_self s s.next map
  have fresh : ∀ v ∈ s.linked ++ s.freed, v ≠ s.next := fun v hv =>
    Nat.ne_of_lt (h.maps.known v hv)
  refine ⟨mapsOk_add (refsOk_alloc h).maps (fun hl => ?_) ⟨fun hf => ?_, Nat.lt_succ_self _⟩
    (hmem.symm ▸ counted) (hmem.symm ▸ plain), opOk_of h.op (fun v hv => ?_) fun v hv => ?_⟩
  · exact fresh _ (List.mem_append_left _ hl) rfl
  · exact fresh _ (List.mem_append_right _ hf) rfl
  · refine hv.imp_right fun hl => ⟨List.mem_cons_of_mem _ hl.1, ?_⟩
    rw [show (Maps.mem _ v) = s.mem v from
      set_mem_ne s map (fresh v (List.mem_append_left _ hl.1))]
    exact hl.2
  · have hne : v ≠ s.next := Nat.ne_of_lt hv.known
    have hv' : (s.set s.next map).mem v = s.mem v := set_mem_ne s map hne
    exact ⟨Nat.lt_succ_of_lt hv.known, by simp [hne, hv.unlinked], hv' ▸ hv.plain, hv' ▸ hv.ctx,
      hv' ▸ hv.low, hv' ▸ hv.high, hv' ▸ hv.alive⟩

theorem refsOk_create_error {t : Maps} {err : Int} (h : RefsOk k s op)
    (creating : Creating s (.error err, t)) : RefsOk k t op := by
  cases creating with
  | failed => exact h
  | abandoned err map => exact refsOk_alloc h
  | discarded err refs ctx =>
    rename_i map
    have base : RefsOk k { s.set s.next map with next := s.next + 1 } op := refsOk_alloc h
    have zero : map.withRefs 0 0 = map := by
      calc map.withRefs 0 0 = map.withRefs map.refs map.ctxRefs := by rw [refs, ctx]
        _ = map := rfl
    have freed := refsOk_free base s.next
      ⟨fun hf => Nat.lt_irrefl _ (h.maps.known _ (List.mem_append_right _ hf)),
        Nat.lt_succ_self _⟩
    simpa [Maps.set, zero] using freed

theorem counted_new (hrefs : map.refs = 1 ∨ map.refs = 2) (hctx : 0 ≤ map.ctxRefs)
    (hle : map.ctxRefs ≤ 1) : Counted map := by
  have hmax : intMax = 2147483647 := rfl
  constructor <;> omega

theorem counted_more (h : Counted map) (hroom : map.refs + 1 ≠ intMax) {ctxRefs : Int}
    (hctx : ctxRefs = map.ctxRefs ∨ ctxRefs = map.ctxRefs + 1) :
    Counted (map.withRefs (map.refs + 1) ctxRefs) := by
  obtain ⟨hrefs, hbound, hzero, hle⟩ := h
  constructor
  all_goals
    simp only [withRefs_refs, withRefs_ctxRefs]
    omega

theorem refsOk_ctxMap (h : RefsOk k s op) (req : MapRequest) (dma : DmaOutcome) :
    RefsOk k (ctxMap k s req dma).2 op := by
  have outcome := mmapCreate_creating k s req dma
  unfold ctxMap
  generalize mmapCreate k s req dma = r at outcome ⊢
  obtain ⟨result, t⟩ := r
  cases result with
  | error err => exact refsOk_create_error h outcome
  | ok id =>
    cases outcome with
    | found linked room =>
      simp only [set_mem_self, set_set]
      exact refsOk_set h linked (counted_more (h.maps.counted id linked) room (Or.inr rfl)) rfl
        fun hlt => Int.add_lt_add_right hlt 1
    | created plain refs ctx =>
      rename_i map
      have linked := refsOk_link h (map.withRefs map.refs 1)
        (counted_new refs (Int.zero_le_ofNat 1) (Int.le_refl 1)) plain
      simpa [Maps.set, VfastrpcMmap.withRefs, ctx] using linked

theorem refsOk_ctxMoves {t : Maps} (h : RefsOk k s op) (moves : CtxMoves k s t) :
    RefsOk k t op := by
  induction moves with
  | refl => exact h
  | take _ req dma ih => exact refsOk_ctxMap ih req dma
  | release _ slot ih => exact refsOk_release ih slot

theorem refsOk_create {t : Maps} (h : RefsOk k s op) {req : MapRequest} {dma : DmaOutcome}
    (ok : mmapCreate k s req dma = (.ok id, t)) : RefsOk k t op ∧ Held t id := by
  have outcome := mmapCreate_creating k s req dma
  rw [ok] at outcome
  cases outcome with
  | found linked room =>
    have counted := h.maps.counted id linked
    have hle := counted.le
    refine ⟨refsOk_set h linked (counted_more counted room (Or.inl rfl)) rfl ?_,
      Or.inr ⟨linked, ?_⟩⟩
    · intro hlt
      simp only [withRefs_refs, withRefs_ctxRefs]
      omega
    · simp only [set_mem_self, withRefs_refs, withRefs_ctxRefs]
      omega
  | created plain refs ctx =>
    rename_i map
    refine ⟨refsOk_link h map (counted_new refs (by omega) (by omega)) plain,
      Or.inr ⟨List.mem_cons_self, ?_⟩⟩
    rw [show (Maps.mem _ s.next) = map from set_mem_self s s.next map]
    omega

/-- A call may drop a reference of a linked map that no context holds. -/
theorem mapsOk_mmapFree (h : MapsOk s) (id : MapId) (force : Bool)
    (own : id ∈ s.linked → force = true ∨ (s.mem id).ctxRefs < (s.mem id).refs) :
    MapsOk (mmapFree s (some id) force) := by
  have outcome := mmapFree_freeing s id force
  generalize mmapFree s (some id) force = r at outcome ⊢
  cases outcome with
  | refused why => exact h
  | dropped refs ctx kept left =>
    obtain ⟨hfreed, hlt⟩ := h.alive refs
    refine mapsOk_set h (fun hid => ⟨?_, h.plain id hid⟩) fun hdead =>
      False.elim (hdead.elim hfreed (Nat.not_le.mpr hlt))
    obtain ⟨hone, hbound, hzero, hle⟩ := h.counted id hid
    have hmore : (s.mem id).ctxRefs < (s.mem id).refs := (own hid).resolve_left (by simp [kept])
    constructor
    all_goals
      simp only [withRefs_refs, withRefs_ctxRefs]
      omega
  | freed plain refs ctx last => exact mapsOk_free h (h.alive refs) rfl rfl

theorem mapsOk_dropHeld (h : MapsOk s) (held : Held s id) :
    MapsOk (mmapFree s (some id) false) := by
  refine mapsOk_mmapFree h id false fun hid => Or.inr ?_
  rcases held with hfreed | ⟨-, hlt⟩
  · exact False.elim ((h.linked_alive hid).1 hfreed)
  · exact hlt

theorem mapsOk_removeFdLoop (h : MapsOk s) (fd : Int) (ids : List MapId) (hids : ids.Nodup)
    (own : ∀ id ∈ ids, (s.mem id).fd = fd → (s.mem id).keep k = true →
      (s.mem id).ctxRefs < (s.mem id).refs) (err : Int) (entries : Nat) :
    MapsOk (removeFdLoop k fd ids err entries s).2.2 := by
  induction ids generalizing s err entries with
  | nil => exact h
  | cons id rest ih =>
    obtain ⟨hnot, hrest⟩ := List.nodup_cons.mp hids
    unfold removeFdLoop
    dsimp only
    split
    · rename_i hmatch
      refine ih (mapsOk_mmapFree h id false fun _ => Or.inr ?_) hrest (fun v hv => ?_) _ _
      · exact own id List.mem_cons_self hmatch.1 hmatch.2
      · have hne : v ≠ id := fun he => hnot (he ▸ hv)
        rw [mmapFree_mem_ne s false hne]
        exact own v (List.mem_cons_of_mem _ hv)
    · exact ih h hrest (fun v hv => own v (List.mem_cons_of_mem _ hv)) _ _

theorem mapsOk_remove {t : Maps} {fd : Int} {va len : UInt64} (h : MapsOk s)
    (ok : mmapRemove k s fd va len = .ok (id, t)) : MapsOk t ∧ Removed k t id := by
  obtain ⟨hid, -, refs, rfl, hrefs⟩ := mmapRemove_ok ok
  have alive := h.linked_alive hid
  have hnodup : s.linked.Nodup := (List.nodup_append.mp h.nodup).1
  refine ⟨mapsOk_unlink h alive _, alive.2, hnodup.not_mem_erase, ?_, ?_, ?_, ?_, fun _ hkeep => ?_⟩
  all_goals
    simp only [Maps.set, Function.update_self, withRefs_refs, withRefs_ctxRefs, withRefs_flags,
      withRefs_keep] at *
  · exact h.plain id hid
  · omega
  · omega
  · rcases hrefs with ⟨htrue, -⟩ | hone
    · rw [hkeep] at htrue
      cases htrue
    · exact hone

end maps

/-- `vfastrpc_mmap_remove_fd` only drops references that no context holds, and a map that
goes back on the list after a failure is alive and still counted. -/
def RefsOwned (k : Uapi) (s : File) : Action → Prop
  | .munmapFd tid fd => (s.cmds.find? fun cmd => cmd.tid == tid) = none →
      ∀ id ∈ s.maps.linked, (s.maps.mem id).fd = fd → (s.maps.mem id).keep k = true →
        (s.maps.mem id).ctxRefs < (s.maps.mem id).refs
  | .finishOp ok _ =>
      (∀ id, s.op = some (.munmap id) → ok = false →
        id ∉ s.maps.freed ∧ 1 ≤ (s.maps.mem id).refs) ∧
      ∀ id, s.op = some (.memUnmap id) → ¬ (unmappable k (s.maps.mem id) ∧ ok) →
        id ∉ s.maps.freed
  | _ => True

theorem call_refsOk {k : Uapi} {s t : Maps} {op : Option Op} (h : MapsOk s)
    (moves : CallMoves k s t op) : RefsOk k t op := by
  have idle : RefsOk k s none := ⟨h, trivial⟩
  cases moves with
  | mmap created =>
    obtain ⟨maps, held⟩ := refsOk_create idle created
    exact ⟨maps.maps, held⟩
  | memMap created =>
    obtain ⟨maps, held⟩ := refsOk_create idle created
    exact ⟨maps.maps, held⟩
  | failed failed =>
    rename_i req dma err
    have creating := mmapCreate_creating k s req dma
    rw [failed] at creating
    exact refsOk_create_error idle creating
  | munmap removed =>
    obtain ⟨maps, removed⟩ := mapsOk_remove h removed
    exact ⟨maps, removed⟩
  | memUnmap removed =>
    obtain ⟨maps, removed⟩ := mapsOk_remove h removed
    exact ⟨maps, removed⟩

theorem mapsOk_putBack {k : Uapi} {s : Maps} {id : MapId} (h : MapsOk s) (removed : Removed k s id)
    (alive : id ∉ s.freed) (hrefs : 1 ≤ (s.mem id).refs) : MapsOk (mmapAdd s id) := by
  obtain ⟨known, unlinked, plain, ctx, low, high, -⟩ := removed
  rw [mmapAdd, plain]
  have hmax : intMax = 2147483647 := rfl
  exact mapsOk_add h unlinked ⟨alive, known⟩
    ⟨hrefs, by omega, by omega, by omega⟩ plain

theorem mapsOk_restored {k : Uapi} {s : Maps} {id : MapId} (h : MapsOk s)
    (removed : Removed k s id) (alive : id ∉ s.freed) :
    MapsOk (mmapAdd (if (s.mem id).keep k then
      s.set id { s.mem id with refs := (s.mem id).refs + 1 } else s) id) := by
  have hmax : intMax = 2147483647 := rfl
  split_ifs with hkeep
  · have hset : MapsOk (s.set id ((s.mem id).withRefs ((s.mem id).refs + 1) (s.mem id).ctxRefs)) :=
      mapsOk_set h (fun hl => False.elim (removed.unlinked hl)) fun hdead =>
        False.elim (hdead.elim alive (Nat.not_le.mpr removed.known))
    obtain ⟨known, unlinked, plain, ctx, low, high, -⟩ := removed
    rw [mmapAdd, set_mem_self]
    dsimp only
    rw [plain]
    refine mapsOk_add hset unlinked ⟨alive, known⟩ ?_ ?_
    · rw [set_mem_self]
      exact ⟨by simp; omega, by simp; omega, by simp; omega, by simp; omega⟩
    · rw [set_mem_self]
      exact plain
  · have hone := removed.alive alive (by simpa using hkeep)
    exact mapsOk_putBack h removed alive (by omega)

theorem finish_mapsOk {k : Uapi} {s : File} {ok : Bool} {raddr : UInt64} {maps : Maps}
    (h : RefsOk k s.maps s.op) (own : RefsOwned k s (.finishOp ok raddr))
    (moves : FinishMoves k s ok maps) : MapsOk maps := by
  have hop := h.op
  cases moves with
  | mapped raddr op =>
    rename_i id
    refine mapsOk_set h.maps (fun hid => ?_) fun hdead => h.maps.dead id hdead
    exact ⟨⟨(h.maps.counted id hid).refs, (h.maps.counted id hid).bound,
      (h.maps.counted id hid).ctx, (h.maps.counted id hid).le⟩, h.maps.plain id hid⟩
  | unmapped op =>
    rcases op with op | op
    · rw [op] at hop
      exact mapsOk_dropHeld h.maps hop
    · rw [op] at hop
      exact mapsOk_dropHeld h.maps hop
  | removed op =>
    rename_i id
    have hremoved : Removed k s.maps id := by
      rcases op with op | op
      · rw [op] at hop
        exact hop
      · rw [op] at hop
        exact hop
    exact mapsOk_mmapFree h.maps id false fun hid => False.elim (hremoved.unlinked hid)
  | putBack op failed =>
    rename_i id
    rw [op] at hop
    obtain ⟨alive, hrefs⟩ := own.1 id op failed
    exact mapsOk_putBack h.maps hop alive hrefs
  | restored op failed =>
    rename_i id
    rw [op] at hop
    exact mapsOk_restored h.maps hop (own.2 id op failed)

theorem opOk_mapless {k : Uapi} {maps : Maps} {op : Option Op} (free : mapless op = true) :
    OpOk k maps op := by
  match op, free with
  | none, _ => trivial
  | some (.mmapPages _), _ => trivial
  | some (.munmapPages _), _ => trivial
  | some (.notify _), _ => trivial
  | some (.notified _ _), _ => trivial

theorem step_refsOk {k : Uapi} {s t : File} {a : Action} (h : RefsOk k s.maps s.op)
    (own : RefsOwned k s a) (hstep : step k s a = some t) : RefsOk k t.maps t.op := by
  have moves := step_mapMoves hstep
  generalize t.maps = maps at moves ⊢
  generalize t.op = op at moves ⊢
  cases moves with
  | ctx moves => exact refsOk_ctxMoves h moves
  | other free => exact ⟨h.maps, opOk_mapless free⟩
  | call idle moves => exact call_refsOk h.maps moves
  | removesFd idle action fresh free =>
    subst action
    exact ⟨mapsOk_removeFdLoop h.maps _ _ (List.nodup_append.mp h.maps.nodup).1
      (own fresh) 0 0, opOk_mapless free⟩
  | finish action moves =>
    subst action
    exact ⟨finish_mapsOk h own moves, trivial⟩

theorem opened_refsOk (k : Uapi) : RefsOk k File.opened.maps File.opened.op where
  maps :=
    { counted := fun id hid => by cases hid
      plain := fun id hid => by cases hid
      nodup := List.nodup_nil
      known := fun id hid => by cases hid
      dead := fun id _ => ⟨rfl, rfl⟩ }
  op := trivial

/-- The whole run. -/
theorem run_refsOk {k : Uapi} {as : List Action} {s : File}
    (along : Along (step k) (RefsOwned k) File.opened as)
    (run : exec (step k) File.opened as = some s) : RefsOk k s.maps s.op :=
  @exec_invariant_along _ _ (step k) (RefsOwned k) (fun s => RefsOk k s.maps s.op)
    (fun _ _ _ h own hs => step_refsOk h own hs) _ _ _ (opened_refsOk k) along run

/-- In every run in which `munmap_fd` and the failure paths of `munmap` and `mem_unmap` only
touch references that are theirs, every linked map is counted. -/
theorem linked_maps_counted (k : Uapi) (as : List Action) (s : File)
    (along : Along (step k) (RefsOwned k) File.opened as)
    (run : exec (step k) File.opened as = some s) :
    ∀ id ∈ s.maps.linked, 1 ≤ (s.maps.mem id).refs ∧ 0 ≤ (s.maps.mem id).ctxRefs ∧
      (s.maps.mem id).ctxRefs ≤ (s.maps.mem id).refs := by
  intro id hid
  obtain ⟨hrefs, -, hctx, hle⟩ := (run_refsOk along run).maps.counted id hid
  exact ⟨hrefs, hctx, hle⟩

def uapi : Uapi := ⟨8, 16, 16, 2, 3, 0⟩

/-- An invoke with one `KEEP_MAP` buffer is in flight. -/
def keptInvoke : List Action :=
  [.init 1, .invoke 7 0x10000 false,
    .mapBuffer 0 0 ⟨5, 8, 0x1000, 0x100, 0⟩ .mapped, .allocMsg 0 true,
    .send 0 true]

theorem keptInvoke_owned : Along (step uapi) (RefsOwned uapi) File.opened
    (keptInvoke ++ [.munmapFd 9 5, .notifyAlloc true, .notifyDone false false]) := by
  refine along_append (along_of_forall (fun a ha s => ?_) _) rfl (along_cons ?_ rfl ?_)
  · simp only [keptInvoke, List.mem_cons, List.not_mem_nil, or_false] at ha
    rcases ha with rfl | rfl | rfl | rfl | rfl <;> trivial
  · intro _ id hid
    obtain rfl : id = 0 := List.mem_singleton.mp hid
    decide
  · exact along_cons trivial rfl (along_cons trivial rfl trivial)

theorem keptInvoke_counted : ∃ s, exec (step uapi) File.opened
      (keptInvoke ++ [.munmapFd 9 5, .notifyAlloc true, .notifyDone false false]) = some s ∧
    s.maps.linked = [0] ∧
    ∀ id ∈ s.maps.linked, 1 ≤ (s.maps.mem id).refs ∧ 0 ≤ (s.maps.mem id).ctxRefs ∧
      (s.maps.mem id).ctxRefs ≤ (s.maps.mem id).refs :=
  ⟨_, rfl, rfl, linked_maps_counted uapi _ _ keptInvoke_owned rfl⟩

/-- A second `munmap_fd` takes the reference of the invoke: the map stays linked with
`refs` 0 and `ctx_refs` 1. -/
theorem second_munmap_fd_uncounted : ∃ s, exec (step uapi) File.opened
      (keptInvoke ++ [.munmapFd 9 5, .notifyAlloc true, .notifyDone false false,
        .munmapFd 9 5]) = some s ∧
    ∃ id ∈ s.maps.linked, ¬ (1 ≤ (s.maps.mem id).refs ∧ 0 ≤ (s.maps.mem id).ctxRefs ∧
      (s.maps.mem id).ctxRefs ≤ (s.maps.mem id).refs) :=
  ⟨_, rfl, 0, List.mem_singleton.mpr rfl, by decide⟩

end MapReferences
