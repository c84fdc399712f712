import PlatformKernel.UserMappings

/-!
# The map behind a mapping

Besides the references of buffers in flight, of `KEEP_MAP` and of the call in progress, the
map of a mapping has the one reference of the mapping, and it is on the list unless the
unmap call in progress took it off. Every step keeps this.
-/

namespace MappedMaps

open GuardedRuns FileMaps FileMoves MapLists FileLists ContextShares UserMappings
open FileOperations hiding step
open UnmapCalls (keeps)

/-- On the list, or taken off it by the unmap call in progress. -/
def Present (s : File) (v : MapId) : Prop := v ∈ s.maps.linked ∨ takenBy s.op = some v

/-- What the call in progress adds to the references of a map. -/
def callRefs (k : Uapi) (s : File) (id : MapId) : Int :=
  (if holding s.op = some id then 1 else 0) -
    if takenBy s.op = some id then keepRefs k (s.maps.mem id) else 0

/-- Besides those of buffers, `KEEP_MAP` and the call in progress the map has one reference,
the one of the mapping. -/
structure MapOk (k : Uapi) (s : File) (m : Mapping) (id : MapId) : Prop where
  pinned : Pinned s id
  present : Present s id
  fd : (s.maps.mem id).fd = m.req.fd
  len : (s.maps.mem id).len = m.req.size
  raddr : (s.maps.mem id).raddr = m.addr
  flags : m.cmd = .memMap → unmappable k (s.maps.mem id) = true
  low : (held s id : Int) + 1 + callRefs k s id ≤ (s.maps.mem id).refs
  high : (s.maps.mem id).refs ≤ held s id + 1 + callRefs k s id + keepRefs k (s.maps.mem id)
  addr : m.cmd = .memMap → m.addr ≠ 0
  alone : m.cmd = .memMap → ∀ v, Present s v → v ≠ id → (s.maps.mem v).raddr ≠ m.addr

section mapOk

variable {k : Uapi} {s t : File} {m : Mapping} {id : MapId} {a : Action}

theorem keepRefs_withRefs (k : Uapi) (map : VfastrpcMmap) (refs ctxRefs : Int) :
    keepRefs k (map.withRefs refs ctxRefs) = keepRefs k map := rfl

theorem keepRefs_cases (k : Uapi) (map : VfastrpcMmap) :
    map.keep k = true ∧ keepRefs k map = 1 ∨ map.keep k = false ∧ keepRefs k map = 0 := by
  unfold keepRefs
  cases map.keep k
  · exact Or.inr ⟨rfl, rfl⟩
  · exact Or.inl ⟨rfl, rfl⟩

/-- The counts of the map change, and what they should be changes with them. -/
theorem mapOk_next (h : MapOk k s m id) {r c : Int} (pinned : Pinned t id) (present : Present t id)
    (mem : t.maps.mem id = (s.maps.mem id).withRefs r c)
    (low : (held t id : Int) + 1 + callRefs k t id ≤ r)
    (high : r ≤ held t id + 1 + callRefs k t id + keepRefs k (s.maps.mem id))
    (alone : m.cmd = .memMap → ∀ v, Present t v → v ≠ id → (t.maps.mem v).raddr ≠ m.addr) :
    MapOk k t m id := by
  refine ⟨pinned, present, ?_, ?_, ?_, fun hcmd => ?_, ?_, ?_, h.addr, alone⟩
  all_goals rw [mem]
  · exact h.fd
  · exact h.len
  · exact h.raddr
  · exact h.flags hcmd
  · exact low
  · exact high

theorem callRefs_eq {r c : Int} (mem : t.maps.mem id = (s.maps.mem id).withRefs r c)
    (taken : takenBy t.op = some id ↔ takenBy s.op = some id)
    (holds : holding t.op = some id ↔ holding s.op = some id) :
    callRefs k t id = callRefs k s id := by
  unfold callRefs
  rw [mem, keepRefs_withRefs]
  simp only [taken, holds]

theorem mapOk_moved {d : Int} (h : MapOk k s m id) (moved : Moved s t id d)
    (taken : takenBy t.op = some id ↔ takenBy s.op = some id)
    (holds : holding t.op = some id ↔ holding s.op = some id)
    (alone : m.cmd = .memMap → ∀ v, Present t v → v ≠ id → (t.maps.mem v).raddr ≠ m.addr) :
    MapOk k t m id := by
  have hcall := callRefs_eq (k := k) moved.maps.mem taken holds
  have hheld := moved.held
  have hlow := h.low
  have hhigh := h.high
  refine mapOk_next h (pinned_moved h.pinned moved) ?_ moved.maps.mem ?_ ?_ alone
  · exact h.present.imp moved.maps.linked.mpr taken.mpr
  · rw [hcall]
    omega
  · rw [hcall]
    omega

/-- A map that is present afterwards was present before or is new. -/
theorem present_back (onward : Onward s t) {v : MapId} (hv : Present t v) :
    v < t.maps.next ∧ (v < s.maps.next → Present s v) := by
  refine ⟨hv.elim (onward.listed.maps.known v) fun htaken => (onward.listed.taken v htaken).2,
    fun hlt => ?_⟩
  by_contra hnot
  obtain ⟨hlinked, htaken⟩ := not_or.mp hnot
  have gone := onward.gone v ⟨hlt, hlinked, htaken⟩
  exact hv.elim gone.unlinked gone.untaken

theorem alone_next (h : MapOk k s m id) (onward : Onward s t)
    (addressed : Addressed s.maps t.maps) :
    m.cmd = .memMap → ∀ v, Present t v → v ≠ id → (t.maps.mem v).raddr ≠ m.addr := by
  intro hcmd v hv hne
  obtain ⟨hknown, hback⟩ := present_back onward hv
  by_cases hlt : v < s.maps.next
  · rw [addressed.old v hlt]
    exact h.alone hcmd v (hback hlt) hne
  · rw [addressed.new v hknown (Nat.le_of_not_lt hlt)]
    exact (h.addr hcmd).symm

/-- The contexts stay as they are. -/
theorem pinned_maps (h : Pinned s id) {maps : Maps} (op : Option Op) {r : Int}
    (mem : maps.mem id = (s.maps.mem id).withRefs r (s.maps.mem id).ctxRefs)
    (next : s.maps.next ≤ maps.next)
    (other : id ∈ maps.linked → (s.maps.mem id).ctxRefs < r)
    (idle : id ∉ maps.linked → held s id = 0) : Pinned { s with maps := maps, op := op } id where
  known := Nat.lt_of_lt_of_le h.known next
  plain := by
    change heapFlags (maps.mem id).flags = false
    rw [mem]
    exact h.plain
  ctx := by
    change (maps.mem id).ctxRefs = held s id
    rw [mem]
    exact h.ctx
  other := fun hid => by
    change (maps.mem id).ctxRefs < (maps.mem id).refs
    rw [mem]
    exact other hid
  idle := idle
  handles := h.handles

theorem moved_maps (h : Pinned s id) {maps : Maps} (op : Option Op)
    (shifted : Shifted s.maps maps id 0) : Moved s { s with maps := maps, op := op } id 0 :=
  moved_quiet h shifted (List.Perm.refl _) fun _ _ => ⟨rfl, rfl⟩

theorem idle_linked (h : MapOk k s m id) (idle : s.op = none) :
    id ∈ s.maps.linked ∧ callRefs k s id = 0 := by
  refine ⟨h.present.resolve_right fun htaken => ?_, ?_⟩
  · rw [idle] at htaken
    cases htaken
  · unfold callRefs
    rw [idle]
    rfl

/-- MMAP and MEM_MAP get this map, another one, or none. -/
theorem mapOk_create {req : MapRequest} {dma : DmaOutcome} {r : Except Int MapId} {maps : Maps}
    {op : Option Op} (h : MapOk k s m id) (idle : s.op = none)
    (create : mmapCreate k s.maps req dma = (r, maps))
    (holds : holding op = some id ↔ r = .ok id) (taken : takenBy op = none)
    (alone : m.cmd = .memMap → ∀ v, Present { s with maps := maps, op := op } v → v ≠ id →
      (maps.mem v).raddr ≠ m.addr) : MapOk k { s with maps := maps, op := op } m id := by
  obtain ⟨linked, hcall⟩ := idle_linked h idle
  have hother := h.pinned.other linked
  have hlow := h.low
  have hhigh := h.high
  rcases create_old h.pinned.known create with ⟨rfl, -, -, rfl⟩ | ⟨hne, shifted⟩
  · have hmem := set_mem_self s.maps id
      ((s.maps.mem id).withRefs ((s.maps.mem id).refs + 1) (s.maps.mem id).ctxRefs)
    have hcalls : callRefs k { s with
        maps := s.maps.set id
          ((s.maps.mem id).withRefs ((s.maps.mem id).refs + 1) (s.maps.mem id).ctxRefs)
        op := op } id = 1 := by
      unfold callRefs
      dsimp only
      rw [if_pos (holds.mpr rfl), taken]
      rfl
    refine mapOk_next h (pinned_maps h.pinned op hmem (Nat.le_refl _) (fun _ => by omega)
      fun hnot => False.elim (hnot linked)) (Or.inl linked) hmem ?_ ?_ alone
    · rw [hcalls]
      change (held s id : Int) + 1 + 1 ≤ _
      omega
    · rw [hcalls]
      change _ ≤ (held s id : Int) + 1 + 1 + _
      omega
  · refine mapOk_moved h (moved_maps h.pinned op shifted) ?_ ?_ alone
    · rw [idle, taken]
      exact Iff.rfl
    · rw [idle]
      exact iff_of_false (fun hh => hne (holds.mp hh)) fun hh => by cases hh

theorem mmapRemove_own {s t : Maps} {fd : Int} {va len : UInt64}
    (h : mmapRemove k s fd va len = .ok (id, t)) :
    (s.mem id).ctxRefs = 0 ∧ t.mem id = (s.mem id).withRefs
        ((s.mem id).refs - keepRefs k (s.mem id)) (s.mem id).ctxRefs ∧
      t.linked = s.linked.erase id ∧ t.next = s.next := by
  unfold mmapRemove at h
  split at h
  · cases h
  rename_i v hfind
  obtain ⟨rfl, rfl⟩ := Prod.mk.inj (Except.ok.inj h)
  have test := List.find?_some hfind
  simp only [removable, Bool.and_eq_true, beq_iff_eq] at test
  refine ⟨test.2, ?_, rfl, rfl⟩
  refine (set_mem_self s v _).trans ?_
  unfold keepRefs
  split_ifs
  · rfl
  · rw [Int.sub_zero]
    rfl

/-- MUNMAP and MEM_UNMAP take this map off the list, or another one. -/
theorem mapOk_remove {fd : Int} {va len : UInt64} {v : MapId} {maps : Maps} {op : Option Op}
    (h : MapOk k s m id) (hlisted : Listed s.maps) (idle : s.op = none)
    (remove : mmapRemove k s.maps fd va len = .ok (v, maps))
    (taken : takenBy op = some v) (holds : holding op = none)
    (alone : m.cmd = .memMap → ∀ v, Present { s with maps := maps, op := op } v → v ≠ id →
      (maps.mem v).raddr ≠ m.addr) : MapOk k { s with maps := maps, op := op } m id := by
  obtain ⟨linked, hcall⟩ := idle_linked h idle
  by_cases hv : v = id
  · subst hv
    obtain ⟨hzero, hmem, hlinked, hnext⟩ := mmapRemove_own remove
    have hctx : held s v = 0 := by
      have hpinned := h.pinned.ctx
      omega
    have hnot : v ∉ maps.linked := by
      rw [hlinked]
      exact hlisted.nodup.not_mem_erase
    have hlow := h.low
    have hhigh := h.high
    have hcalls : callRefs k { s with maps := maps, op := op } v = -keepRefs k (s.maps.mem v) := by
      unfold callRefs
      dsimp only
      rw [holds, taken, if_pos rfl, hmem, keepRefs_withRefs]
      exact Int.zero_sub _
    refine mapOk_next h (pinned_maps h.pinned op hmem (Nat.le_of_eq hnext.symm)
      (fun hin => False.elim (hnot hin)) fun _ => hctx) (Or.inr taken) hmem ?_ ?_ alone
    · rw [hcalls]
      change (held s v : Int) + 1 + -keepRefs k (s.maps.mem v) ≤ _
      omega
    · rw [hcalls]
      change _ ≤ (held s v : Int) + 1 + -keepRefs k (s.maps.mem v) + _
      omega
  · obtain ⟨-, -, refs, rfl, -⟩ := mmapRemove_ok remove
    refine mapOk_moved h (moved_maps h.pinned op (shifted_unlink _ _ hv)) ?_ ?_ alone
    · rw [idle, taken]
      exact iff_of_false (fun hh => hv (Option.some.inj hh)) fun hh => by cases hh
    · rw [idle, holds]
      exact Iff.rfl

theorem shifted_removeFdLoop {maps : Maps} {fd : Int} (ids : List MapId) (err : Int)
    (entries : Nat) (hnot : keeps k fd (maps.mem id) = false) :
    Shifted maps (removeFdLoop k fd ids err entries maps).2.2 id 0 := by
  induction ids generalizing maps err entries with
  | nil => exact Shifted.refl maps id
  | cons v rest ih =>
    unfold removeFdLoop
    dsimp only
    split
    · rename_i hkeeps
      have hv : v ≠ id := by
        rintro rfl
        rw [UnmapCalls.keeps_iff.mpr hkeeps] at hnot
        cases hnot
      have freed := shifted_free (s := maps) false hv
      exact freed.trans (ih _ _ (by rw [freed.same]; exact hnot))
    · exact ih _ _ hnot

theorem mapOk_failed {req : MapRequest} {dma : DmaOutcome} {err : Int} {maps : Maps}
    (h : MapOk k s m id) (create : mmapCreate k s.maps req dma = (.error err, maps))
    (alone : m.cmd = .memMap → ∀ v, Present { s with maps := maps } v → v ≠ id →
      (maps.mem v).raddr ≠ m.addr) : MapOk k { s with maps := maps } m id := by
  rcases create_old h.pinned.known create with ⟨he, -⟩ | ⟨-, shifted⟩
  · cases he
  · exact mapOk_moved h (moved_maps h.pinned s.op shifted) Iff.rfl Iff.rfl alone

/-- The maps and what the call in progress has of them stay as they are. -/
theorem mapOk_same (h : MapOk k s m id) (maps : t.maps = s.maps) (ctxs : t.ctxs = s.ctxs)
    (lists : live t = live s) (op : takenBy t.op = takenBy s.op ∧ holding t.op = holding s.op) :
    MapOk k t m id := by
  have moved : Moved s t id 0 := by
    refine moved_quiet h.pinned (maps ▸ Shifted.refl _ id) (lists ▸ List.Perm.refl _) fun _ _ => ?_
    rw [ctxs]
    exact ⟨rfl, rfl⟩
  refine mapOk_moved h moved (by rw [op.1]) (by rw [op.2]) fun hcmd v hv hne => ?_
  unfold Present at hv
  rw [maps, op.1] at hv
  rw [maps]
  exact h.alone hcmd v hv hne

theorem mapCall_mapOk (h : MapOk k s m id) (listed : FileListed s) (idle : s.op = none)
    (kept : ends k s (.map id) a = false)
    (alone : m.cmd = .memMap → ∀ v, Present t v → v ≠ id → (t.maps.mem v).raddr ≠ m.addr)
    (begun : Begun k s a t) : MapOk k t m id := by
  have free : takenBy s.op = none ∧ holding s.op = none := by
    rw [idle]
    exact ⟨rfl, rfl⟩
  cases begun with
  | refused => exact h
  | failed created => exact mapOk_failed h created alone
  | mmap created | memMap created =>
    exact mapOk_create h idle created ⟨fun hh => congrArg Except.ok (Option.some.inj hh),
      fun hh => congrArg some (Except.ok.inj hh)⟩ rfl alone
  | pages flags => exact mapOk_same h rfl rfl rfl ⟨free.1.symm, free.2.symm⟩
  | unmaps removed next =>
    refine mapOk_remove h listed.maps idle removed ?_ ?_ alone
    · rcases next with rfl | rfl <;> rfl
    · rcases next with rfl | rfl <;> rfl
  | findsPages b => exact mapOk_same h rfl rfl rfl ⟨free.1.symm, free.2.symm⟩
  | resumed tid cmd => exact mapOk_same h rfl rfl rfl ⟨free.1.symm, free.2.symm⟩
  | removesFd fresh next =>
    rename_i tid fd op
    have hkeeps : keeps k fd (s.maps.mem id) = false := by
      simpa [ends, letsGo, fresh] using kept
    have shifted : Shifted s.maps (mmapRemoveFd k s.maps fd).2.2 id 0 :=
      shifted_removeFdLoop _ _ _ hkeeps
    have hop : takenBy op = takenBy s.op ∧ holding op = holding s.op := by
      rcases next with rfl | rfl
      · exact ⟨rfl, rfl⟩
      · exact ⟨free.1.symm, free.2.symm⟩
    exact mapOk_moved h (moved_maps h.pinned op shifted) (by rw [hop.1]) (by rw [hop.2]) alone

theorem free_own {maps : Maps} (plain : heapFlags (maps.mem id).flags = false)
    (other : 1 < (maps.mem id).refs) (ctx : 0 ≤ (maps.mem id).ctxRefs) :
    mmapFree maps (some id) false =
      maps.set id ((maps.mem id).withRefs ((maps.mem id).refs - 1) (maps.mem id).ctxRefs) := by
  have outcome := mmapFree_freeing maps id false
  generalize mmapFree maps (some id) false = r at outcome ⊢
  cases outcome with
  | refused why =>
    rcases why with hheap | hrefs | hctx
    · rw [plain] at hheap
      cases hheap
    · omega
    · omega
  | dropped refs ctx kept left => rfl
  | freed plain refs ctx last =>
    rcases last with hforce | ⟨hone, -⟩
    · cases hforce
    · omega

/-- A failed map call gives back its reference. -/
theorem mapOk_freeHeld {v : MapId} (h : MapOk k s m id) (taken : takenBy s.op = none)
    (holds : holding s.op = some v)
    (alone : m.cmd = .memMap → ∀ w, Present { s with
      op := none, maps := mmapFree s.maps (some v) false } w → w ≠ id →
        ((mmapFree s.maps (some v) false).mem w).raddr ≠ m.addr) :
    MapOk k { s with op := none, maps := mmapFree s.maps (some v) false } m id := by
  have linked : id ∈ s.maps.linked := h.present.resolve_right fun hh => by
    rw [taken] at hh
    cases hh
  by_cases hv : v = id
  · subst hv
    have hlow := h.low
    have hhigh := h.high
    have hctx := h.pinned.ctx
    have hcall : callRefs k s v = 1 := by
      unfold callRefs
      rw [if_pos holds, taken]
      rfl
    rw [hcall] at hlow hhigh
    rw [free_own h.pinned.plain (by omega) (by omega)] at alone ⊢
    have hmem := set_mem_self s.maps v
      ((s.maps.mem v).withRefs ((s.maps.mem v).refs - 1) (s.maps.mem v).ctxRefs)
    refine mapOk_next h (pinned_maps h.pinned none hmem (Nat.le_refl _) (fun _ => by omega)
      fun hnot => False.elim (hnot linked)) (Or.inl linked) hmem ?_ ?_ alone
    · change (held s v : Int) + 1 + 0 ≤ _
      omega
    · change _ ≤ (held s v : Int) + 1 + 0 + _
      omega
  · refine mapOk_moved h (moved_maps h.pinned none (shifted_free false hv)) ?_ ?_ alone
    · rw [taken]
      exact Iff.rfl
    · rw [holds]
      exact iff_of_false (fun hh => by cases hh) fun hh => hv (Option.some.inj hh)

/-- Another map gets its address. -/
theorem mapOk_setAddr {v : MapId} {raddr : UInt64} (h : MapOk k s m id) (hv : v ≠ id)
    (taken : takenBy s.op = none) (holds : holding s.op = some v)
    (hne : m.cmd = .memMap → m.addr ≠ raddr) :
    MapOk k { s with
      op := none, maps := s.maps.set v { s.maps.mem v with raddr := raddr } } m id := by
  refine mapOk_moved h (moved_maps h.pinned none (shifted_set _ hv)) ?_ ?_ fun hcmd w hw hwid => ?_
  · rw [taken]
    exact Iff.rfl
  · rw [holds]
    exact iff_of_false (fun hh => by cases hh) fun hh => hv (Option.some.inj hh)
  · by_cases hwv : w = v
    · subst hwv
      change ((s.maps.set w { s.maps.mem w with raddr := raddr }).mem w).raddr ≠ m.addr
      rw [set_mem_self]
      exact (hne hcmd).symm
    · change ((s.maps.set v { s.maps.mem v with raddr := raddr }).mem w).raddr ≠ m.addr
      rw [set_mem_ne s.maps _ hwv]
      exact h.alone hcmd w (hw.imp_right fun hh => by cases hh) hwid

/-- The map of another unmap call is freed. -/
theorem mapOk_freeTaken {v : MapId} (h : MapOk k s m id) (hv : v ≠ id)
    (taken : takenBy s.op = some v) (holds : holding s.op = none)
    (alone : m.cmd = .memMap → ∀ w, Present { s with
      op := none, maps := mmapFree s.maps (some v) false } w → w ≠ id →
        ((mmapFree s.maps (some v) false).mem w).raddr ≠ m.addr) :
    MapOk k { s with op := none, maps := mmapFree s.maps (some v) false } m id := by
  refine mapOk_moved h (moved_maps h.pinned none (shifted_free false hv)) ?_ ?_ alone
  · rw [taken]
    exact iff_of_false (fun hh => by cases hh) fun hh => hv (Option.some.inj hh)
  · rw [holds]
    exact Iff.rfl

theorem mmapAdd_plain {maps : Maps} (plain : heapFlags (maps.mem id).flags = false) :
    mmapAdd maps id = { maps with linked := id :: maps.linked } := by
  unfold mmapAdd
  rw [plain]
  rfl

/-- The map of a failed unmap call goes back on the list. -/
theorem mapOk_putBack {v : MapId} (maps : Maps) (h : MapOk k s m id)
    (taken : takenBy s.op = some v) (holds : holding s.op = none)
    (unlinked : v ∉ s.maps.linked) {r : Int}
    (others : ∀ w, w ≠ v → maps.mem w = s.maps.mem w) (linked : maps.linked = s.maps.linked)
    (next : maps.next = s.maps.next)
    (own : maps.mem v = (s.maps.mem v).withRefs r (s.maps.mem v).ctxRefs)
    (counted : v = id → 1 ≤ r ∧ r ≤ 1 + keepRefs k (s.maps.mem id)) :
    MapOk k { s with op := none, maps := mmapAdd maps v } m id := by
  obtain ⟨hmem, hnext⟩ := mmapAdd_mem maps v
  have alone : m.cmd = .memMap → ∀ w, Present { s with op := none, maps := mmapAdd maps v } w →
      w ≠ id → ((mmapAdd maps v).mem w).raddr ≠ m.addr := by
    intro hcmd w hw hwid
    have hpresent : Present s w := by
      rcases mmapAdd_linked maps v w (hw.resolve_right fun hh => by cases hh) with rfl | hold
      · exact Or.inr taken
      · rw [linked] at hold
        exact Or.inl hold
    have hraddr : ((mmapAdd maps v).mem w).raddr = (s.maps.mem w).raddr := by
      rw [hmem]
      by_cases hwv : w = v
      · subst hwv
        rw [own]
        rfl
      · rw [others w hwv]
    rw [hraddr]
    exact h.alone hcmd w hpresent hwid
  by_cases hv : v = id
  · subst hv
    obtain ⟨hone, htwo⟩ := counted rfl
    have hplain : heapFlags (maps.mem v).flags = false := by
      rw [own]
      exact h.pinned.plain
    rw [mmapAdd_plain hplain] at alone ⊢
    have hzero := h.pinned.idle unlinked
    have hctx := h.pinned.ctx
    refine mapOk_next h (pinned_maps h.pinned none own (Nat.le_of_eq next.symm) (fun _ => by omega)
      fun hnot => False.elim (hnot List.mem_cons_self)) (Or.inl List.mem_cons_self) own ?_ ?_ alone
    · change (held s v : Int) + 1 + 0 ≤ r
      omega
    · change r ≤ (held s v : Int) + 1 + 0 + _
      omega
  · have hlinked : id ∈ (mmapAdd maps v).linked ↔ id ∈ s.maps.linked := by
      unfold mmapAdd
      rw [linked]
      split_ifs
      · rw [linked]
      · simp [Ne.symm hv]
    have shifted : Shifted s.maps (mmapAdd maps v) id 0 := by
      refine shifted_of_same ?_ hlinked ?_
      · rw [hmem]
        exact others id (Ne.symm hv)
      · rw [hnext, next]
    refine mapOk_moved h (moved_maps h.pinned none shifted) ?_ ?_ alone
    · rw [taken]
      exact iff_of_false (fun hh => by cases hh) fun hh => hv (Option.some.inj hh)
    · rw [holds]
      exact Iff.rfl

end mapOk

/-- While it is off the list the map has the reference of the mapping, less its `KEEP_MAP`
reference if that was given up before. -/
theorem taken_counts {k : Uapi} {s : File} {m : Mapping} {id : MapId} (h : MapOk k s m id)
    (listed : FileListed s) (taken : takenBy s.op = some id) (holds : holding s.op = none) :
    1 - keepRefs k (s.maps.mem id) ≤ (s.maps.mem id).refs ∧ (s.maps.mem id).refs ≤ 1 := by
  have hlow := h.low
  have hhigh := h.high
  have hzero := h.pinned.idle (listed.taken id taken).1
  unfold callRefs at hlow hhigh
  rw [holds, if_pos taken] at hlow hhigh
  simp only [reduceCtorEq, if_false] at hlow hhigh
  omega

/-- A failed MEM_UNMAP gives a kept map its reference back. -/
theorem mapOk_memUnmapFailed {k : Uapi} {s : File} {m : Mapping} {id v : MapId}
    (h : MapOk k s m id) (listed : FileListed s) (taken : takenBy s.op = some v)
    (holds : holding s.op = none) :
    MapOk k { s with
      op := none
      maps := mmapAdd (if (s.maps.mem v).keep k then
          s.maps.set v { s.maps.mem v with refs := (s.maps.mem v).refs + 1 }
        else s.maps) v } m id := by
  have restored : v = id → 1 ≤ (s.maps.mem v).refs + keepRefs k (s.maps.mem v) ∧
      (s.maps.mem v).refs + keepRefs k (s.maps.mem v) ≤ 1 + keepRefs k (s.maps.mem v) := by
    rintro rfl
    have hcounts := taken_counts h listed taken holds
    omega
  split_ifs with hkeeps
  · refine mapOk_putBack _ h taken holds (listed.taken v taken).1
      (fun w hw => set_mem_ne s.maps _ hw) rfl rfl (set_mem_self s.maps v _) fun hv => ?_
    have hcounts := restored hv
    rw [← hv]
    unfold keepRefs at hcounts ⊢
    rw [if_pos hkeeps] at hcounts ⊢
    exact hcounts
  · refine mapOk_putBack _ h taken holds (listed.taken v taken).1
      (fun _ _ => rfl) rfl rfl (withRefs_same _).symm fun hv => ?_
    have hcounts := restored hv
    rw [← hv]
    unfold keepRefs at hcounts ⊢
    rw [if_neg hkeeps, Int.add_zero] at hcounts
    rw [if_neg hkeeps]
    exact hcounts

theorem finish_mapOk {k : Uapi} {s : State} {t : File} {m : Mapping} {id : MapId} {ok : Bool}
    {raddr : UInt64} (h : MapOk k s.file m id) (hm : m ∈ s.mapped) (place : m.place = .map id)
    (listed : FileListed s.file) (cond : FinishAlone k s ok raddr)
    (kept : unmapped k s.file ok ≠ some (.map id)) (onward : Onward s.file t)
    (hstep : finishOp k s.file ok raddr = some t) : MapOk k t m id := by
  have free : ∀ v, Onward s.file { s.file with
      op := none, maps := mmapFree s.file.maps (some v) false } → m.cmd = .memMap →
      ∀ w, Present { s.file with op := none, maps := mmapFree s.file.maps (some v) false } w →
        w ≠ id → ((mmapFree s.file.maps (some v) false).mem w).raddr ≠ m.addr := fun v honward =>
    alone_next h honward (addressed_free v false)
  unfold FinishAlone at cond
  unfold unmapped at kept
  unfold FileOperations.finishOp at hstep
  split at hstep
  · rename_i v hop
    obtain rfl := Option.some.inj hstep
    rw [hop] at cond
    split_ifs at onward ⊢ with hok
    · obtain ⟨⟨first, -, -⟩, hne⟩ := cond hok
      have hv : v ≠ id := fun he => first m hm (he ▸ place)
      exact mapOk_setAddr h hv (by rw [hop]; rfl) (by rw [hop]; rfl) (hne m hm)
    · exact mapOk_freeHeld h (by rw [hop]; rfl) (by rw [hop]; rfl) (free v onward)
  · rename_i v hop
    obtain rfl := Option.some.inj hstep
    rw [hop] at cond
    have taken : takenBy s.file.op = none := by rw [hop]; rfl
    split_ifs at onward ⊢ with hok
    · obtain ⟨⟨first, -, -⟩, ⟨-, new⟩, -⟩ := cond hok.2 hok.1
      have hv : v ≠ id := fun he => first m hm (he ▸ place)
      refine mapOk_setAddr h hv taken (by rw [hop]; rfl) fun _ => ?_
      rw [← h.raddr]
      refine new id (h.present.resolve_right fun hh => ?_) (Ne.symm hv)
      rw [taken] at hh
      cases hh
    · exact mapOk_freeHeld h taken (by rw [hop]; rfl) (free v onward)
  · rename_i v hop
    obtain rfl := Option.some.inj hstep
    rw [hop] at cond kept
    have taken : takenBy s.file.op = some v := by rw [hop]; rfl
    have holds : holding s.file.op = none := by rw [hop]; rfl
    split_ifs at onward ⊢ with hok
    · have hv : v ≠ id := by
        rintro rfl
        exact kept (if_pos hok)
      exact mapOk_freeTaken h hv taken holds (free v onward)
    · refine mapOk_putBack s.file.maps h taken holds (listed.taken v taken).1
        (fun _ _ => rfl) rfl rfl (withRefs_same _).symm fun hv => ?_
      have hcounts := taken_counts h listed (hv ▸ taken) holds
      subst hv
      have hrefs := cond (by simpa using hok) m hm place
      have hkeep := keepRefs_cases k (s.file.maps.mem v)
      omega
  · rename_i v hop
    obtain rfl := Option.some.inj hstep
    rw [hop] at kept
    have taken : takenBy s.file.op = some v := by rw [hop]; rfl
    have holds : holding s.file.op = none := by rw [hop]; rfl
    by_cases hok : unmappable k (s.file.maps.mem v) ∧ ok = true
    · rw [if_pos hok] at onward ⊢
      have hv : v ≠ id := by
        rintro rfl
        exact kept (if_pos hok)
      exact mapOk_freeTaken h hv taken holds (free v onward)
    · rw [if_neg hok]
      exact mapOk_memUnmapFailed h listed taken holds
  · rename_i b hop
    obtain rfl := Option.some.inj hstep
    exact mapOk_same h rfl rfl rfl (by rw [hop]; exact ⟨rfl, rfl⟩)
  · rename_i b hop
    obtain rfl := Option.some.inj hstep
    obtain ⟨_, _, _, _, _, hfree⟩ := bufFree_frame s.file b false
    split_ifs
    · rw [hfree]
      exact mapOk_same h rfl rfl rfl (by rw [hop]; exact ⟨rfl, rfl⟩)
    · exact mapOk_same h rfl rfl rfl (by rw [hop]; exact ⟨rfl, rfl⟩)
  · cases hstep

end MappedMaps
