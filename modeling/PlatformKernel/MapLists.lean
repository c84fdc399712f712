import PlatformKernel.FileMoves

/-!
# The list of maps, whatever the counts are

What holds of `fl->maps` in every run, also where references are dropped that belong
to someone else: no map is on it twice, the range a map describes never changes, and a
map that went off the list comes back only from the `munmap` or `mem_unmap` that took it.
-/

namespace MapLists

open FileMaps FileOperations FileMoves

/-- Agreement on everything but the counts and the address on the DSP. -/
structure SameRange (map map' : VfastrpcMmap) : Prop where
  fd : map.fd = map'.fd
  flags : map.flags = map'.flags
  va : map.va = map'.va
  len : map.len = map'.len
  attr : map.attr = map'.attr

theorem SameRange.refl (map : VfastrpcMmap) : SameRange map map := ⟨rfl, rfl, rfl, rfl, rfl⟩

theorem SameRange.trans {map map' map'' : VfastrpcMmap} (h : SameRange map map')
    (h' : SameRange map' map'') : SameRange map map'' :=
  ⟨h.fd.trans h'.fd, h.flags.trans h'.flags, h.va.trans h'.va, h.len.trans h'.len,
    h.attr.trans h'.attr⟩

theorem SameRange.keep {map map' : VfastrpcMmap} (h : SameRange map map') (k : Uapi) :
    map.keep k = map'.keep k := by
  unfold VfastrpcMmap.keep
  rw [h.attr]

theorem sameRange_withRefs (map : VfastrpcMmap) (refs ctxRefs : Int) :
    SameRange (map.withRefs refs ctxRefs) map := ⟨rfl, rfl, rfl, rfl, rfl⟩

structure Listed (s : Maps) : Prop where
  nodup : s.linked.Nodup
  known : ∀ id ∈ s.linked, id < s.next
  plain : ∀ id ∈ s.linked, heapFlags (s.mem id).flags = false

/-- A map on the list afterwards was on it or is new. -/
structure Renews (s t : Maps) : Prop where
  next : s.next ≤ t.next
  linked : ∀ id ∈ t.linked, id ∈ s.linked ∨ s.next ≤ id
  same : ∀ id < s.next, SameRange (t.mem id) (s.mem id)

structure Kept (s t : Maps) : Prop where
  listed : Listed t
  renews : Renews s t

theorem Renews.refl (s : Maps) : Renews s s :=
  ⟨Nat.le_refl _, fun _ h => Or.inl h, fun _ _ => SameRange.refl _⟩

theorem Renews.trans {s t u : Maps} (h : Renews s t) (h' : Renews t u) : Renews s u where
  next := Nat.le_trans h.next h'.next
  linked := fun id hid => by
    rcases h'.linked id hid with hold | hnew
    · exact h.linked id hold
    · exact Or.inr (Nat.le_trans h.next hnew)
  same := fun id hid =>
    (h'.same id (Nat.lt_of_lt_of_le hid h.next)).trans (h.same id hid)

theorem Kept.trans {s t u : Maps} (h : Kept s t) (h' : Kept t u) : Kept s u :=
  ⟨h'.listed, h.renews.trans h'.renews⟩

section maps

variable {k : Uapi} {s t : Maps} {id : MapId} {map : VfastrpcMmap}

theorem kept_refl (h : Listed s) : Kept s s := ⟨h, Renews.refl s⟩

theorem set_sameRange (h : SameRange map (s.mem id)) (v : MapId) :
    SameRange ((s.set id map).mem v) (s.mem v) := by
  by_cases hv : v = id
  · subst hv
    rw [set_mem_self]
    exact h
  · rw [set_mem_ne s map hv]
    exact SameRange.refl _

/-- A map changes and may go off the list. -/
theorem kept_change (h : Listed s) (same : SameRange map (s.mem id)) {linked : List MapId}
    (left : linked.Sublist s.linked) (freed : List MapId) :
    Kept s { s.set id map with linked := linked, freed := freed } where
  listed :=
    { nodup := left.nodup h.nodup
      known := fun v hv => h.known v (left.subset hv)
      plain := fun v hv => by
        rw [show Maps.mem _ v = (s.set id map).mem v from rfl, (set_sameRange same v).flags]
        exact h.plain v (left.subset hv) }
  renews := ⟨Nat.le_refl _, fun v hv => Or.inl (left.subset hv), fun v _ => set_sameRange same v⟩

theorem kept_set (h : Listed s) (same : SameRange map (s.mem id)) : Kept s (s.set id map) :=
  kept_change h same (List.Sublist.refl _) s.freed

theorem next_unlinked (h : Listed s) : s.next ∉ s.linked := fun hmem =>
  Nat.lt_irrefl _ (h.known _ hmem)

theorem alloc_sameRange (map : VfastrpcMmap) {v : MapId} (hv : v < s.next) :
    SameRange ((s.set s.next map).mem v) (s.mem v) := by
  rw [set_mem_ne s map (Nat.ne_of_lt hv)]
  exact SameRange.refl _

theorem kept_alloc (h : Listed s) (map : VfastrpcMmap) (freed : List MapId) :
    Kept s { s.set s.next map with next := s.next + 1, freed := freed } where
  listed :=
    { nodup := h.nodup
      known := fun v hv => Nat.lt_succ_of_lt (h.known v hv)
      plain := fun v hv => by
        rw [show Maps.mem _ v = (s.set s.next map).mem v from rfl,
          (alloc_sameRange map (h.known v hv)).flags]
        exact h.plain v hv }
  renews := ⟨Nat.le_succ _, fun v hv => Or.inl hv, fun v hv => alloc_sameRange map hv⟩

theorem kept_link (h : Listed s) (plain : heapFlags map.flags = false) :
    Kept s { s.set s.next map with next := s.next + 1, linked := s.next :: s.linked } where
  listed :=
    { nodup := List.nodup_cons.mpr ⟨next_unlinked h, h.nodup⟩
      known := fun v hv => by
        rcases List.mem_cons.mp hv with rfl | hold
        · exact Nat.lt_succ_self _
        · exact Nat.lt_succ_of_lt (h.known v hold)
      plain := fun v hv => by
        rcases List.mem_cons.mp hv with rfl | hold
        · rw [show Maps.mem _ s.next = map from set_mem_self s s.next map]
          exact plain
        · rw [show Maps.mem _ v = (s.set s.next map).mem v from rfl,
            (alloc_sameRange map (h.known v hold)).flags]
          exact h.plain v hold }
  renews :=
    { next := Nat.le_succ _
      linked := fun v hv => by
        rcases List.mem_cons.mp hv with rfl | hold
        · exact Or.inr (Nat.le_refl _)
        · exact Or.inl hold
      same := fun v hv => alloc_sameRange map hv }

theorem kept_free (h : Listed s) (id : MapId) (force : Bool) :
    Kept s (mmapFree s (some id) force) := by
  have outcome := mmapFree_freeing s id force
  generalize mmapFree s (some id) force = r at outcome ⊢
  cases outcome with
  | refused why => exact kept_refl h
  | dropped refs ctx kept left => exact kept_set h (sameRange_withRefs _ _ _)
  | freed plain refs ctx last =>
    exact kept_change h (sameRange_withRefs _ _ _) List.erase_sublist _

theorem kept_release (h : Listed s) (slot : Option MapId) : Kept s (ctxRelease s slot) := by
  cases slot with
  | none => exact kept_refl h
  | some id =>
    have outcome := ctxRelease_releasing s id
    generalize ctxRelease s (some id) = r at outcome ⊢
    cases outcome with
    | refused why => exact kept_set h (sameRange_withRefs _ _ _)
    | dropped refs ctx left => exact kept_set h (sameRange_withRefs _ _ _)
    | freed plain refs ctx =>
      exact kept_change h (sameRange_withRefs _ _ _) List.erase_sublist _

theorem kept_creating {r : Except Int MapId × Maps} (h : Listed s) (creating : Creating s r) :
    Kept s r.2 := by
  cases creating with
  | found linked room => exact kept_set h (sameRange_withRefs _ _ _)
  | failed err => exact kept_refl h
  | created plain refs ctx => exact kept_link h plain
  | abandoned err map => exact kept_alloc h map s.freed
  | discarded err refs ctx =>
    rename_i map
    have discarded := kept_alloc h map (s.next :: s.freed)
    rw [List.erase_of_not_mem (next_unlinked h)]
    exact discarded

theorem kept_ctxMap (h : Listed s) (req : MapRequest) (dma : DmaOutcome) :
    Kept s (ctxMap k s req dma).2 := by
  have kept := kept_creating h (mmapCreate_creating k s req dma)
  unfold ctxMap
  generalize mmapCreate k s req dma = r at kept ⊢
  obtain ⟨result, t⟩ := r
  cases result with
  | error err => exact kept
  | ok id => exact kept.trans (kept_set kept.listed (sameRange_withRefs _ _ _))

theorem kept_ctxMoves (h : Listed s) (moves : CtxMoves k s t) : Kept s t := by
  induction moves with
  | refl => exact kept_refl h
  | take _ req dma ih => exact ih.trans (kept_ctxMap ih.listed req dma)
  | release _ slot ih => exact ih.trans (kept_release ih.listed slot)

theorem kept_removeFdLoop (h : Listed s) (fd : Int) (ids : List MapId) (err : Int)
    (entries : Nat) : Kept s (removeFdLoop k fd ids err entries s).2.2 := by
  induction ids generalizing s err entries with
  | nil => exact kept_refl h
  | cons id rest ih =>
    unfold removeFdLoop
    dsimp only
    split
    · have freed := kept_free h id false
      exact freed.trans (ih freed.listed _ _)
    · exact ih h _ _

theorem kept_remove {fd : Int} {va len : UInt64} (h : Listed s)
    (removed : mmapRemove k s fd va len = .ok (id, t)) :
    Kept s t ∧ id ∉ t.linked ∧ id < t.next := by
  obtain ⟨hid, -, refs, rfl, -⟩ := mmapRemove_ok removed
  refine ⟨kept_change h (sameRange_withRefs _ _ _) List.erase_sublist _, ?_, h.known id hid⟩
  exact h.nodup.not_mem_erase

theorem mmapAdd_linked (s : Maps) (id : MapId) :
    ∀ v ∈ (mmapAdd s id).linked, v = id ∨ v ∈ s.linked := by
  intro v hv
  unfold mmapAdd at hv
  split_ifs at hv
  · exact Or.inr hv
  · exact List.mem_cons.mp hv

theorem listed_add (h : Listed s) (unlinked : id ∉ s.linked) (known : id < s.next) :
    Listed (mmapAdd s id) := by
  unfold mmapAdd
  split_ifs with hheap
  · exact h
  · refine ⟨List.nodup_cons.mpr ⟨unlinked, h.nodup⟩, fun v hv => ?_, fun v hv => ?_⟩
    · rcases List.mem_cons.mp hv with rfl | hold
      · exact known
      · exact h.known v hold
    · rcases List.mem_cons.mp hv with rfl | hold
      · simpa using hheap
      · exact h.plain v hold

theorem mmapAdd_mem (s : Maps) (id : MapId) : (mmapAdd s id).mem = s.mem ∧
    (mmapAdd s id).next = s.next := by
  unfold mmapAdd
  split_ifs <;> exact ⟨rfl, rfl⟩

end maps

/-- The map the call took off the list and may put back. -/
def takenBy : Option Op → Option MapId
  | some (.munmap id) => some id
  | some (.memUnmap id) => some id
  | _ => none

structure FileListed (s : File) : Prop where
  maps : Listed s.maps
  taken : ∀ id, takenBy s.op = some id → id ∉ s.maps.linked ∧ id < s.maps.next

/-- A map that is off the list for good. -/
structure Gone (s : File) (id : MapId) : Prop where
  known : id < s.maps.next
  unlinked : id ∉ s.maps.linked
  untaken : takenBy s.op ≠ some id

structure Onward (s t : File) : Prop where
  listed : FileListed t
  gone : ∀ id, Gone s id → Gone t id
  next : s.maps.next ≤ t.maps.next
  same : ∀ id < s.maps.next, SameRange (t.maps.mem id) (s.maps.mem id)

variable {k : Uapi} {s t : File} {a : Action}

theorem renews_unlinked {s t : Maps} {id : MapId} (h : Renews s t) (known : id < s.next)
    (unlinked : id ∉ s.linked) : id < t.next ∧ id ∉ t.linked :=
  ⟨Nat.lt_of_lt_of_le known h.next, fun hid =>
    (h.linked id hid).elim unlinked (Nat.not_le.mpr known)⟩

theorem onward_kept (h : FileListed s) (kept : Kept s.maps t.maps)
    (op : ∀ id, takenBy t.op = some id → takenBy s.op = some id) : Onward s t where
  listed := ⟨kept.listed, fun id htakes => by
    obtain ⟨unlinked, known⟩ := h.taken id (op id htakes)
    exact (renews_unlinked kept.renews known unlinked).symm⟩
  gone := fun id hgone => by
    obtain ⟨known, unlinked⟩ := renews_unlinked kept.renews hgone.known hgone.unlinked
    exact ⟨known, unlinked, fun htakes => hgone.untaken (op id htakes)⟩
  next := kept.renews.next
  same := kept.renews.same

theorem onward_call {maps : Maps} {op : Option Op} (h : FileListed s)
    (moves : CallMoves k s.maps maps op) : Onward s { s with maps := maps, op := op } := by
  have creates : ∀ req dma r, mmapCreate k s.maps req dma = (r, maps) → Kept s.maps maps := by
    intro req dma r hr
    have kept := kept_creating h.maps (mmapCreate_creating k s.maps req dma)
    rw [hr] at kept
    exact kept
  have removes : ∀ id, Kept s.maps maps ∧ id ∉ maps.linked ∧ id < maps.next →
      (∀ v, takenBy op = some v → v = id) → id ∈ s.maps.linked →
      Onward s { s with maps := maps, op := op } := by
    rintro id ⟨kept, unlinked, known⟩ one hid
    refine ⟨⟨kept.listed, fun v hv => ?_⟩, fun v hgone => ?_, kept.renews.next, kept.renews.same⟩
    · rw [one v hv]
      exact ⟨unlinked, known⟩
    · obtain ⟨hknown, hunlinked⟩ := renews_unlinked kept.renews hgone.known hgone.unlinked
      refine ⟨hknown, hunlinked, fun hv => hgone.unlinked ?_⟩
      rw [one v hv]
      exact hid
  cases moves with
  | mmap created =>
    exact onward_kept h (creates _ _ _ created) fun v hv => by cases hv
  | memMap created =>
    exact onward_kept h (creates _ _ _ created) fun v hv => by cases hv
  | failed failed =>
    exact onward_kept h (creates _ _ _ failed) fun v hv => by cases hv
  | munmap removed =>
    exact removes _ (kept_remove h.maps removed) (fun v hv => (Option.some.inj hv).symm)
      (mmapRemove_ok removed).1
  | memUnmap removed =>
    exact removes _ (kept_remove h.maps removed) (fun v hv => (Option.some.inj hv).symm)
      (mmapRemove_ok removed).1

/-- The map of a failed call goes back. -/
theorem onward_putBack {maps : Maps} {id : MapId} (h : FileListed s)
    (taken : takenBy s.op = some id) (kept : Kept s.maps maps) :
    Onward s { s with op := none, maps := mmapAdd maps id } := by
  obtain ⟨unlinked, known⟩ := h.taken id taken
  obtain ⟨hknown, hunlinked⟩ := renews_unlinked kept.renews known unlinked
  obtain ⟨hmem, hnext⟩ := mmapAdd_mem maps id
  refine ⟨⟨listed_add kept.listed hunlinked hknown, fun v hv => by cases hv⟩,
    fun v hgone => ⟨?_, fun hv => ?_, fun hv => by cases hv⟩, ?_, fun v hv => ?_⟩
  · change v < (mmapAdd maps id).next
    rw [hnext]
    exact Nat.lt_of_lt_of_le hgone.known kept.renews.next
  · rcases mmapAdd_linked maps id v hv with rfl | hold
    · exact hgone.untaken taken
    · exact (renews_unlinked kept.renews hgone.known hgone.unlinked).2 hold
  · change s.maps.next ≤ (mmapAdd maps id).next
    rw [hnext]
    exact kept.renews.next
  · change SameRange ((mmapAdd maps id).mem v) _
    rw [hmem]
    exact kept.renews.same v hv

theorem onward_finish {ok : Bool} {maps : Maps} (h : FileListed s)
    (moves : FinishMoves k s ok maps) : Onward s { s with op := none, maps := maps } := by
  have done : ∀ v, takenBy none = some v → takenBy s.op = some v := fun v hv => by cases hv
  cases moves with
  | mapped raddr op => exact onward_kept h (kept_set h.maps ⟨rfl, rfl, rfl, rfl, rfl⟩) done
  | unmapped op => exact onward_kept h (kept_free h.maps _ false) done
  | removed op => exact onward_kept h (kept_free h.maps _ false) done
  | putBack op failed => exact onward_putBack h (by rw [op]; rfl) (kept_refl h.maps)
  | restored op failed =>
    refine onward_putBack h (by rw [op]; rfl) ?_
    split_ifs
    · exact kept_set h.maps ⟨rfl, rfl, rfl, rfl, rfl⟩
    · exact kept_refl h.maps

/-- Only the maps and the call matter. -/
theorem onward_of {u : File} (h : Onward s u) (maps : u.maps = t.maps) (op : u.op = t.op) :
    Onward s t where
  listed := ⟨maps ▸ h.listed.maps, maps ▸ op ▸ h.listed.taken⟩
  gone := fun id hgone =>
    have gone := h.gone id hgone
    ⟨maps ▸ gone.known, maps ▸ gone.unlinked, op ▸ gone.untaken⟩
  next := maps ▸ h.next
  same := maps ▸ h.same

theorem mapless_taken {op : Option Op} (free : mapless op = true) : takenBy op = none := by
  match op, free with
  | none, _ => rfl
  | some (.mmapPages _), _ => rfl
  | some (.munmapPages _), _ => rfl
  | some (.notify _), _ => rfl
  | some (.notified _ _), _ => rfl

theorem step_onward (h : FileListed s) (hstep : step k s a = some t) : Onward s t := by
  have moves := step_mapMoves hstep
  generalize hmaps : t.maps = maps at moves
  generalize hop : t.op = op at moves
  have free : mapless op = true → ∀ v, takenBy op = some v → takenBy s.op = some v :=
    fun hfree v hv => by
      rw [mapless_taken hfree] at hv
      cases hv
  refine onward_of (u := { s with maps := maps, op := op }) ?_ hmaps.symm hop.symm
  cases moves with
  | ctx moves => exact onward_kept h (kept_ctxMoves h.maps moves) fun _ hv => hv
  | other hfree => exact onward_kept h (kept_refl h.maps) (free hfree)
  | call idle moves => exact onward_call h moves
  | removesFd idle action fresh hfree =>
    exact onward_kept h (kept_removeFdLoop h.maps _ _ 0 0) (free hfree)
  | finish action moves => exact onward_finish h moves

theorem opened_listed : FileListed File.opened where
  maps := ⟨List.nodup_nil, fun _ h => (by cases h), fun _ h => by cases h⟩
  taken := fun id h => by cases h

end MapLists
