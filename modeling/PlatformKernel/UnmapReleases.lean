import PlatformKernel.MapResources
import PlatformKernel.UserMappings

/-!
# A successful unmap releases its map

`vfastrpc_mmap_remove` takes a map off the list and drops its `KEEP_MAP` reference; once the
back end has answered, `vfastrpc_mmap_free` drops the last one. In between other threads may
let go of the same map, but they cannot take it.
-/

namespace UnmapReleases

open CountedLoops FileMoves GuardedRuns MapLists MapResources MapTallies
open FileMaps hiding mmapCreate mmapFree ctxMap ctxRelease removeFdLoop
open FileOperations hiding mapHandle putFdlist releaseSlots finishOp step
open InvokeMessage (bufs)
open MapReferences (uapi)

/-- What is on the list, or was taken off it by a call in progress, is whole unless it was
freed before. -/
structure Sound (s : State) (taken : Option MapId) : Prop where
  listed : Listed s.maps
  tallied : Tallied s.maps
  known : ∀ id, taken = some id → id < s.maps.next
  whole : ∀ id, id ∈ s.maps.linked ∨ taken = some id → id ∉ s.maps.freed →
    ∀ part, owned (s.ptrs id part) = 1
  gone : ∀ id ∈ s.maps.freed, ∀ part, owned (s.ptrs id part) = 0

section sound

variable {k : Uapi} {s u : State} {taken taken' : Option MapId}

/-- The pointers stay as they are. -/
theorem sound_onMaps (h : Sound s taken) {maps : Maps} (listed : Listed maps)
    (tallied : Tallied maps) (freed : maps.freed = s.maps.freed)
    (places : ∀ id, id ∈ maps.linked ∨ taken' = some id → id ∈ s.maps.linked ∨ taken = some id)
    (known : ∀ id, taken' = some id → id < maps.next) :
    Sound { s with maps := maps } taken' where
  listed := listed
  tallied := tallied
  known := known
  whole := fun id hid halive => h.whole id (places id hid) (freed ▸ halive)
  gone := fun id hid => h.gone id (freed ▸ hid)

theorem mmapFree_linked (maps : Maps) (id : MapId) (force : Bool) :
    (FileMaps.mmapFree maps (some id) force).linked.Sublist maps.linked ∧
      (FileMaps.mmapFree maps (some id) force).next = maps.next := by
  have outcome := mmapFree_freeing maps id force
  generalize FileMaps.mmapFree maps (some id) force = r at outcome ⊢
  cases outcome with
  | refused why => exact ⟨List.Sublist.refl _, rfl⟩
  | dropped refs ctx kept left => exact ⟨List.Sublist.refl _, rfl⟩
  | freed plain refs ctx last => exact ⟨List.erase_sublist, rfl⟩

theorem sound_free (h : Sound s taken) (id : MapId) (force : Bool) :
    Sound (mmapFree s (some id) force) taken := by
  have listed := (kept_free h.listed id force).listed
  have tallied := tallied_free h.tallied id force
  obtain ⟨linked, next⟩ := mmapFree_linked s.maps id force
  have places : ∀ v, v ∈ (FileMaps.mmapFree s.maps (some id) force).linked ∨ taken = some v →
      v ∈ s.maps.linked ∨ taken = some v := fun v hv => hv.imp_left fun hmem => linked.subset hmem
  have known : ∀ v, taken = some v → v < (FileMaps.mmapFree s.maps (some id) force).next :=
    fun v hv => next ▸ h.known v hv
  rcases mmapFree_cases s id force with ⟨hfreed, hsame⟩ | ⟨hfreed, hreleased⟩
  · rw [hsame]
    exact sound_onMaps h listed tallied hfreed places known
  · rw [hreleased]
    refine ⟨?_, ?_, ?_, fun v hv halive part => ?_, fun v hv part => ?_⟩
    · rw [releaseMap_maps]
      exact listed
    · rw [releaseMap_maps]
      exact tallied
    · rw [releaseMap_maps]
      exact known
    · rw [releaseMap_maps] at hv halive
      change v ∉ (FileMaps.mmapFree s.maps (some id) force).freed at halive
      rw [hfreed] at halive
      obtain ⟨hne, hold⟩ := not_or.mp (List.mem_cons.not.mp halive)
      rw [releaseMap_ptrs, if_neg hne]
      exact h.whole v (places v hv) hold part
    · rw [releaseMap_maps] at hv
      change v ∈ (FileMaps.mmapFree s.maps (some id) force).freed at hv
      rw [hfreed] at hv
      rw [releaseMap_ptrs]
      split_ifs with heq
      · rfl
      · exact h.gone v ((List.mem_cons.mp hv).resolve_left heq) part

theorem sound_built {req : MapRequest} (h : Sound s taken) (built : Built k req s u) :
    Sound u taken := by
  have old : ∀ v, v < s.maps.next → u.ptrs v = s.ptrs v := fun v hv =>
    built.others v (Nat.ne_of_lt hv)
  obtain ⟨refs, hmap, hrefs⟩ := initialMap_eq k req
  have maps := built.maps
  rw [hmap] at maps
  have listed := (kept_alloc h.listed ⟨req.fd, req.mflags, 0, 0, 0, refs, req.attr, 0⟩
    s.maps.freed).listed
  have tallied := tallied_alloc h.tallied ⟨req.fd, req.mflags, 0, 0, 0, refs, req.attr, 0⟩
    (by dsimp only; omega) (Int.le_refl 0) s.maps.linked
    fun v hv => Nat.lt_succ_of_lt (h.tallied.freed v hv)
  have freed : u.maps.freed = s.maps.freed := by rw [maps]; rfl
  have linked : u.maps.linked = s.maps.linked := by rw [maps]; rfl
  refine ⟨by rw [maps]; exact listed, by rw [maps]; exact tallied, fun v hv => ?_,
    fun v hv halive part => ?_, fun v hv part => ?_⟩
  · rw [maps]
    exact Nat.lt_succ_of_lt (h.known v hv)
  · rw [linked] at hv
    rw [freed] at halive
    have known : v < s.maps.next := hv.elim (h.listed.known v) (h.known v)
    rw [old v known]
    exact h.whole v hv halive part
  · rw [freed] at hv
    rw [old v (h.tallied.freed v hv)]
    exact h.gone v hv part

theorem sound_create (h : Sound s taken) (req : MapRequest) (d : DmaResult) :
    Sound (mmapCreate k s req d).2 taken := by
  have erased := congrArg Prod.snd (mmapCreate_maps s k req d)
  have listed := (kept_creating h.listed (mmapCreate_creating k s.maps req d.outcome)).listed
  have tallied := tallied_create (k := k) h.tallied h.listed req d.outcome
  rw [← erased] at listed tallied
  cases hfind : mmapFind s.maps req.fd req.va req.len req.mflags true with
  | ok found =>
    simp only [mmapCreate, hfind] at listed tallied ⊢
    rcases (mmapFind_ok hfind).2 with ⟨hfalse, -⟩ | ⟨-, -, hset⟩
    · cases hfalse
    · rw [hset] at listed tallied ⊢
      exact sound_onMaps h listed tallied rfl (fun _ hv => hv) h.known
  | error err =>
    cases halloc : d.alloc with
    | false =>
      simp only [mmapCreate, hfind, halloc, if_true]
      exact h
    | true =>
      obtain ⟨u, built, ⟨err, haborted⟩ | ⟨valid, plain, hcreated⟩⟩ :=
        mmapCreate_built (k := k) halloc hfind
      · rw [haborted]
        exact sound_free (sound_built h built) _ _
      · rw [hcreated] at listed tallied ⊢
        have sound := sound_built h built
        have flags : heapFlags ((u.maps.set s.maps.next
            { initialMap k req with va := req.va, len := req.len }).mem s.maps.next).flags =
            false := by
          obtain ⟨refs, hmap, -⟩ := initialMap_eq k req
          rw [set_mem_self, hmap]
          exact plain
        simp only [State.onMaps, mmapAdd, flags, Bool.false_eq_true, if_false] at listed tallied ⊢
        refine ⟨listed, tallied, sound.known, fun v hv halive part => ?_, sound.gone⟩
        rcases hv with hv | hv
        · rcases List.mem_cons.mp hv with rfl | hold
          · exact valid part
          · exact sound.whole v (Or.inl hold) halive part
        · exact sound.whole v (Or.inr hv) halive part

theorem sound_ctxMap (h : Sound s taken) (req : MapRequest) (d : DmaResult) :
    Sound (ctxMap k s req d).2 taken := by
  have created := sound_create (k := k) h req d
  have erased := congrArg Prod.snd (ctxMap_maps s k req d)
  have listed := (kept_ctxMap (k := k) h.listed req d.outcome).listed
  have tallied := tallied_ctxMap (k := k) h.tallied h.listed req d.outcome
  rw [← erased] at listed tallied
  unfold ctxMap at listed tallied ⊢
  generalize mmapCreate k s req d = r at created listed tallied ⊢
  obtain ⟨result, u⟩ := r
  cases result with
  | error err => exact created
  | ok id => exact sound_onMaps created listed tallied rfl (fun _ hv => hv) created.known

theorem sound_release (h : Sound s taken) (slot : Option MapId) :
    Sound (ctxRelease s slot) taken := by
  cases slot with
  | none => exact h
  | some id =>
    have counted : (if (s.maps.mem id).ctxRefs ≠ 0 then
        { s.maps.mem id with ctxRefs := (s.maps.mem id).ctxRefs - 1 } else s.maps.mem id) =
        (s.maps.mem id).withRefs (s.maps.mem id).refs (fewer (s.maps.mem id).ctxRefs) := by
      unfold fewer
      split_ifs <;> rfl
    have tallied : Tallied (s.maps.set id
        ((s.maps.mem id).withRefs (s.maps.mem id).refs (fewer (s.maps.mem id).ctxRefs))) :=
      tallied_set h.tallied (h.tallied.refs id) (fewer_nonneg (h.tallied.ctx id))
        (h.tallied.zero_or_known id)
    simp only [ctxRelease, counted]
    exact sound_free (sound_onMaps h (kept_set h.listed (sameRange_withRefs _ _ _)).listed tallied
      rfl (fun _ hv => hv) h.known) _ _

end sound

/-- Contexts take and release maps. -/
inductive Works (k : Uapi) (s : State) : State → Prop where
  | refl : Works k s s
  | take {t : State} (works : Works k s t) (req : MapRequest) (d : DmaResult) :
      Works k s (ctxMap k t req d).2
  | release {t : State} (works : Works k s t) (slot : Option MapId) :
      Works k s (ctxRelease t slot)

section works

variable {k : Uapi} {s t : State}

theorem releaseSlots_works (works : Works k s t) (slots : Nat → Option MapId) (lo n : Nat) :
    Works k s (releaseSlots slots lo n t) := by
  unfold releaseSlots
  generalize List.range' lo n = indices
  induction indices generalizing t with
  | nil => exact works
  | cons i rest ih => exact ih (works.release (slots i))

theorem putFdlist_works (works : Works k s t) (fdlist : List UInt64) :
    Works k s (putFdlist fdlist t) := by
  induction fdlist generalizing t with
  | nil => exact works
  | cons fd rest ih =>
    unfold putFdlist
    split
    · exact works
    split
    · exact ih (works.release _)
    · exact ih works

theorem mapHandles_works (sc : UInt32) (handles : Nat → Handle) (slots : Nat → Option MapId)
    (lo n : Nat) : Works k s (loop (mapHandle k sc handles) lo n (s, slots)).state.1 := by
  refine holds_state (Q := fun st : State × (Nat → Option MapId) => Works k s st.1)
    (loop_holds (fun _ (st : State × (Nat → Option MapId)) => Works k s st.1) .refl
      fun i st _ _ hst => ?_)
  unfold mapHandle
  split
  · exact hst
  have taken := hst.take
    ⟨(handles i).fd, (handles i).attr &&& ~~~k.attrKeepMap, 0, 0,
      if (handles i).attr &&& k.attrNomap ≠ 0 then k.dmahandleNomap else 0⟩
    (result (handles i).dma)
  dsimp only
  split
  · rename_i hok
    rw [hok] at taken
    exact taken
  · rename_i herr
    rw [herr] at taken
    exact releaseSlots_works taken _ _ _

theorem sound_works {taken : Option MapId} (h : Sound s taken) (works : Works k s t) :
    Sound t taken := by
  induction works with
  | refl => exact h
  | take _ req d ih => exact sound_ctxMap ih req d
  | release _ slot ih => exact sound_release ih slot

theorem sound_removeFdLoop {taken : Option MapId} (h : Sound s taken) (fd : Int)
    (ids : List MapId) : Sound (removeFdLoop k fd ids s) taken := by
  induction ids generalizing s with
  | nil => exact h
  | cons id rest ih =>
    unfold removeFdLoop
    split
    · exact ih (sound_free h id false)
    · exact ih h

theorem works_moves (works : Works k s t) : CtxMoves k s.maps t.maps := by
  induction works with
  | refl => exact .refl
  | take _ req d ih =>
    rename_i u _
    have taken : (ctxMap k u req d).2.maps = (FileMaps.ctxMap k u.maps req d.outcome).2 :=
      congrArg Prod.snd (ctxMap_maps u k req d)
    rw [taken]
    exact ih.take req d.outcome
  | release _ slot ih =>
    rw [ctxRelease_maps]
    exact ih.release slot

end works

structure HeldSound (s : HeldFile) : Prop where
  tracked : Tracked s
  sound : Sound s.state (takenBy s.file.op)

section steps

variable {k : Uapi} {f g : File} {s : State} {a : Action}

theorem quiet_works (quiet : UserMappings.Action.isQuiet a = true) :
    Works k s (stateAfter k f s a) := by
  cases a with
  | mapBuffer c i req dma => exact Works.refl.take _ _
  | mapHandles c handles => exact mapHandles_works _ _ _ _ _
  | putBuffer c i => exact Works.refl.release _
  | putFdlist c fdlist => exact putFdlist_works .refl _
  | contextFree c => exact releaseSlots_works .refl _ _ _
  | mmap _ _ _ | memMap _ _ | munmap _ _ | memUnmap _ _ _ | munmapFd _ _ | finishOp _ _ =>
    cases quiet
  | _ => exact .refl

/-- The call in progress may have changed. -/
theorem sound_retake {taken taken' : Option MapId} (h : Sound s taken)
    (places : ∀ id, taken' = some id → id ∈ s.maps.linked ∨ taken = some id) : Sound s taken' :=
  sound_onMaps h h.listed h.tallied rfl (fun id hid => hid.elim Or.inl (places id)) fun id hid =>
    (places id hid).elim (h.listed.known id) (h.known id)

/-- What a call that begins takes off the list. -/
inductive Takes (k : Uapi) (f g : File) : Prop where
  | nothing (maps : g.maps = f.maps) (op : takenBy g.op = none)
  | map {fd : Int} {va len : UInt64} (id : MapId)
      (removed : mmapRemove k f.maps fd va len = .ok (id, g.maps)) (op : takenBy g.op = some id)

theorem unmap_takes (idle : f.op = none) (h : mapCall k f a = some g)
    (unmap : (∃ va len, a = .munmap va len) ∨ ∃ fd va len, a = .memUnmap fd va len) :
    Takes k f g := by
  have none : takenBy f.op = none := by
    rw [idle]
    rfl
  rcases unmap with ⟨va, len, rfl⟩ | ⟨fd, va, len, rfl⟩
  · obtain rfl := Option.some.inj h
    unfold internalMunmap
    split
    · exact .nothing rfl rfl
    split
    · rename_i removed
      exact .map _ removed rfl
    · exact .nothing rfl none
  · obtain rfl := Option.some.inj h
    unfold internalMemUnmap
    split
    · rename_i removed
      exact .map _ removed rfl
    · exact .nothing rfl none

theorem other_takes_none (idle : f.op = none) (h : mapCall k f a = some g)
    (other : ¬((∃ va len, a = .munmap va len) ∨ ∃ fd va len, a = .memUnmap fd va len)) :
    takenBy g.op = none := by
  have none : takenBy f.op = none := by
    rw [idle]
    rfl
  cases a with
  | mmap ud dma pages =>
    obtain rfl := Option.some.inj h
    unfold internalMmap
    split
    · split
      · exact none
      split
      · rfl
      · exact none
    · split
      · rfl
      · exact none
  | memMap req dma =>
    obtain rfl := Option.some.inj h
    unfold internalMemMap
    split
    · rfl
    · exact none
  | munmapFd tid fd =>
    obtain rfl := Option.some.inj h
    unfold internalMunmapFd
    split
    · rfl
    · dsimp only
      split
      · exact none
      · rfl
  | munmap va len => exact absurd (Or.inl ⟨va, len, rfl⟩) other
  | memUnmap fd va len => exact absurd (Or.inr ⟨fd, va, len, rfl⟩) other
  | _ => cases h

theorem sound_call (h : Sound s none) (maps : s.maps = f.maps) (idle : f.op = none)
    (listed : Listed g.maps) (tallied : Tallied g.maps) (hcall : mapCall k f a = some g)
    (hmaps : (stateAfter k f s a).maps = g.maps) :
    Sound (stateAfter k f s a) (takenBy g.op) := by
  by_cases unmap : (∃ va len, a = .munmap va len) ∨ ∃ fd va len, a = .memUnmap fd va len
  · have same : stateAfter k f s a = { s with maps := g.maps } := by
      rw [← hmaps]
      rcases unmap with ⟨va, len, rfl⟩ | ⟨fd, va, len, rfl⟩ <;> rfl
    rw [same]
    cases unmap_takes idle hcall unmap with
    | nothing hold op =>
      rw [op]
      exact sound_onMaps h listed tallied (by rw [hold, maps])
        (fun id hid => hid.imp_left fun hmem => by rwa [hold, ← maps] at hmem)
        fun id hid => by cases hid
    | map id removed op =>
      obtain ⟨hid, -, refs, hg, -⟩ := mmapRemove_ok removed
      have old : ∀ v, v ∈ g.maps.linked → v ∈ s.maps.linked := by
        intro v hv
        rw [hg] at hv
        rw [maps]
        exact List.mem_of_mem_erase hv
      refine sound_onMaps h listed tallied (by rw [hg, maps]; rfl) (fun v hv => ?_)
        fun v hv => ?_
      · rcases hv with hv | hv
        · exact Or.inl (old v hv)
        · obtain rfl := Option.some.inj (op.symm.trans hv)
          exact Or.inl (maps ▸ hid)
      · obtain rfl := Option.some.inj (op.symm.trans hv)
        have known := h.listed.known id (maps ▸ hid)
        rw [maps] at known
        rw [hg]
        exact known
  · rw [other_takes_none idle hcall unmap]
    cases a with
    | mmap ud dma pages =>
      simp only [stateAfter]
      split_ifs
      · exact h
      · exact sound_create h _ _
    | memMap req dma => exact sound_create h _ _
    | munmapFd tid fd =>
      simp only [stateAfter]
      split_ifs
      · exact h
      · exact sound_removeFdLoop h _ _
    | munmap va len => exact absurd (Or.inl ⟨va, len, rfl⟩) unmap
    | memUnmap fd va len => exact absurd (Or.inr ⟨fd, va, len, rfl⟩) unmap
    | _ => cases hcall

/-- The map of a failed call goes back to the list. -/
theorem sound_relist {id : MapId} (h : Sound s (some id)) {maps : Maps}
    (same : maps.linked = s.maps.linked ∧ maps.freed = s.maps.freed)
    (listed : Listed (mmapAdd maps id)) (tallied : Tallied (mmapAdd maps id)) :
    Sound { s with maps := mmapAdd maps id } none := by
  have freed : (mmapAdd maps id).freed = maps.freed := by
    unfold mmapAdd
    split_ifs <;> rfl
  refine sound_onMaps h listed tallied (freed.trans same.2) (fun v hv => ?_)
    fun v hv => by cases hv
  rcases mmapAdd_linked maps id v (hv.resolve_right (by simp)) with rfl | hold
  · exact Or.inr rfl
  · exact Or.inl (same.1 ▸ hold)

theorem sound_finish {ok : Bool} {raddr : UInt64} (h : Sound s (takenBy f.op))
    (listed : Listed (finishOp k f s ok raddr).maps)
    (tallied : Tallied (finishOp k f s ok raddr).maps) :
    Sound (finishOp k f s ok raddr) none := by
  have drop : ∀ {u : State} {taken : Option MapId}, Sound u taken → Sound u none :=
    fun hu => sound_retake hu fun v hv => by cases hv
  have set : ∀ {id : MapId} {map : VfastrpcMmap}, Listed (s.maps.set id map) →
      Tallied (s.maps.set id map) → Sound { s with maps := s.maps.set id map } none :=
    fun hl ht => sound_onMaps h hl ht rfl (fun v hv => hv.imp_right fun hn => by cases hn)
      fun v hv => by cases hv
  unfold finishOp at listed tallied ⊢
  split
  · rename_i id hop
    simp only [hop] at listed tallied
    split_ifs at listed tallied ⊢
    · exact set listed tallied
    · exact drop (sound_free h id false)
  · rename_i id hop
    simp only [hop] at listed tallied
    split_ifs at listed tallied ⊢
    · exact set listed tallied
    · exact drop (sound_free h id false)
  · rename_i id hop
    simp only [hop] at listed tallied
    split_ifs at listed tallied ⊢
    · exact drop (sound_free h id false)
    · rw [hop] at h
      exact sound_relist h ⟨rfl, rfl⟩ listed tallied
  · rename_i id hop
    simp only [hop] at listed tallied
    split at listed
    · rename_i hok
      rw [if_pos hok]
      exact drop (sound_free h id false)
    · rename_i hok
      rw [if_neg hok] at tallied ⊢
      rw [hop] at h
      refine sound_relist h ?_ listed tallied
      split_ifs <;> exact ⟨rfl, rfl⟩
  · exact drop h

theorem finishOp_op {ok : Bool} {raddr : UInt64}
    (h : FileOperations.finishOp k f ok raddr = some g) : g.op = none := by
  unfold FileOperations.finishOp at h
  split at h
  all_goals
    first
    | (obtain rfl := Option.some.inj h; rfl)
    | cases h

end steps

theorem step_heldSound {k : Uapi} {s t : HeldFile} {a : Action} (h : HeldSound s)
    (hstep : step k s a = some t) : HeldSound t := by
  have tracked := step_tracked h.tracked hstep
  obtain ⟨hfile, hstate⟩ := step_file hstep
  have listed := tracked.sane.listed.maps
  have tallied := tracked.sane.tallied
  have maps := hstate ▸ tracked.maps
  refine ⟨tracked, ?_⟩
  rw [hstate]
  by_cases quiet : UserMappings.Action.isQuiet a = true
  · rw [(UserMappings.quiet_aside quiet hfile).same.1]
    exact sound_works h.sound (quiet_works quiet)
  rcases UserMappings.step_kinds hfile with ⟨c, -, own, -⟩ | ⟨-, idle, -, hcall⟩ | ⟨call, hother⟩
  · cases a <;> first | exact absurd rfl quiet | cases own
  · have sound := h.sound
    rw [idle] at sound
    exact sound_call sound h.tracked.maps idle listed tallied hcall maps
  · cases a with
    | finishOp ok raddr =>
      rw [finishOp_op hother]
      rw [← maps] at listed tallied
      exact sound_finish h.sound listed tallied
    | mmap _ _ _ | memMap _ _ | munmap _ _ | memUnmap _ _ _ | munmapFd _ _ => cases call
    | _ => exact absurd rfl quiet

theorem opened_heldSound : HeldSound HeldFile.opened where
  tracked := opened_tracked
  sound :=
    { listed := opened_listed.maps
      tallied := opened_sane.tallied
      known := fun _ h => by cases h
      whole := fun _ h => by rcases h with h | h <;> cases h
      gone := fun _ h => by cases h }

/-- Nothing happens to one map. -/
structure Apart (s t : State) (id : MapId) : Prop where
  mem : t.maps.mem id = s.maps.mem id
  ptrs : ∀ part, owned (t.ptrs id part) = owned (s.ptrs id part)
  structs : t.structs id = s.structs id
  held : ∀ part, t.held id part = s.held id part

theorem Apart.trans {s t u : State} {id : MapId} (h : Apart s t id) (h' : Apart t u id) :
    Apart s u id where
  mem := h'.mem.trans h.mem
  ptrs := fun part => (h'.ptrs part).trans (h.ptrs part)
  structs := h'.structs.trans h.structs
  held := fun part => (h'.held part).trans (h.held part)

section waiting

variable {k : Uapi} {s t : State} {id v : MapId}

theorem apart_maps {maps : Maps} (mem : maps.mem id = s.maps.mem id) :
    Apart s { s with maps := maps } id :=
  ⟨mem, fun _ => rfl, rfl, fun _ => rfl⟩

theorem apart_free (hne : id ≠ v) (force : Bool) : Apart s (mmapFree s (some v) force) id := by
  have mem := mmapFree_mem_ne s.maps force hne
  rcases mmapFree_cases s v force with ⟨-, hsame⟩ | ⟨-, hreleased⟩
  · rw [hsame]
    exact apart_maps mem
  · rw [hreleased]
    refine ⟨?_, fun part => ?_, ?_, fun part => ?_⟩
    · rw [releaseMap_maps]
      exact mem
    · rw [releaseMap_ptrs, if_neg hne]
    · rw [releaseMap_structs]
      exact Function.update_of_ne hne _ _
    · rw [releaseMap_held, if_neg hne, Int.sub_zero]

theorem apart_release {slot : Option MapId} (hne : slot ≠ some id) :
    Apart s (ctxRelease s slot) id := by
  cases slot with
  | none => exact apart_maps rfl
  | some v =>
    have hv : id ≠ v := fun heq => hne (congrArg some heq.symm)
    exact (apart_maps (set_mem_ne s.maps _ hv)).trans (apart_free hv false)

theorem apart_built {req : MapRequest} (built : Built k req s t) (hne : id ≠ s.maps.next) :
    Apart s t id where
  mem := by
    rw [built.maps]
    exact set_mem_ne s.maps _ hne
  ptrs := fun part => by rw [built.others id hne]
  structs := by
    rw [built.structs]
    exact Function.update_of_ne hne _ _
  held := fun part => by rw [built.held, if_neg hne, Int.add_zero]

theorem apart_create (unlinked : id ∉ s.maps.linked) (known : id < s.maps.next)
    (req : MapRequest) (d : DmaResult) :
    Apart s (mmapCreate k s req d).2 id ∧ (mmapCreate k s req d).1 ≠ .ok id := by
  have hne : id ≠ s.maps.next := Nat.ne_of_lt known
  cases hfind : mmapFind s.maps req.fd req.va req.len req.mflags true with
  | ok found =>
    obtain ⟨hfound, hcases⟩ := mmapFind_ok hfind
    have hv : id ≠ found.1 := fun heq => unlinked (heq ▸ hfound)
    simp only [mmapCreate, hfind]
    refine ⟨apart_maps ?_, fun heq => hv (Except.ok.inj heq).symm⟩
    rcases hcases with ⟨-, hset⟩ | ⟨-, -, hset⟩ <;> rw [hset]
    exact set_mem_ne s.maps _ hv
  | error err =>
    cases halloc : d.alloc with
    | false =>
      simp only [mmapCreate, hfind, halloc, if_true]
      exact ⟨apart_maps rfl, fun heq => by cases heq⟩
    | true =>
      obtain ⟨u, built, ⟨err, haborted⟩ | ⟨-, -, hcreated⟩⟩ :=
        mmapCreate_built (k := k) halloc hfind
      · rw [haborted]
        exact ⟨(apart_built built hne).trans (apart_free hne false), fun heq => by cases heq⟩
      · rw [hcreated]
        refine ⟨(apart_built built hne).trans (apart_maps ?_), fun heq => hne ?_⟩
        · rw [(mmapAdd_mem _ _).1]
          exact set_mem_ne _ _ hne
        · exact (Except.ok.inj heq).symm

theorem apart_ctxMap (unlinked : id ∉ s.maps.linked) (known : id < s.maps.next)
    (req : MapRequest) (d : DmaResult) : Apart s (ctxMap k s req d).2 id := by
  obtain ⟨apart, hne⟩ := apart_create (k := k) unlinked known req d
  unfold ctxMap
  generalize mmapCreate k s req d = r at apart hne ⊢
  obtain ⟨result, u⟩ := r
  cases result with
  | error err => exact apart
  | ok v =>
    have hv : id ≠ v := fun heq => hne (congrArg Except.ok heq.symm)
    exact apart.trans (apart_maps (set_mem_ne u.maps _ hv))

/-- The map is as the call left it, or another thread dropped its last reference. -/
inductive Waits (s t : State) (id : MapId) : Prop where
  | untouched (apart : Apart s t id)
  | spent (last : (s.maps.mem id).refs = 1) (refs : (t.maps.mem id).refs = 0)
      (structs : t.structs id = s.structs id - 1)
      (held : ∀ part, t.held id part = s.held id part - owned (s.ptrs id part))

/-- One more reference is dropped. -/
theorem waits_free (waits : Waits s t id) (plain : heapFlags (s.maps.mem id).flags = false)
    (refs : (s.maps.mem id).refs = 0 ∨ (s.maps.mem id).refs = 1)
    (ctx : (s.maps.mem id).ctxRefs = 0) :
    Waits s (mmapFree t (some id) false) id ∧
      ((s.maps.mem id).refs = 1 → ((mmapFree t (some id) false).maps.mem id).refs = 0) := by
  have outcome := mmapFree_freeing t.maps id false
  have kept := mmapFree_cases t id false
  dsimp only at kept
  rw [mmapFree_maps]
  generalize hfree : FileMaps.mmapFree t.maps (some id) false = maps at outcome kept ⊢
  have same : maps = t.maps → mmapFree t (some id) false = t := by
    rintro rfl
    rcases kept with ⟨-, hsame⟩ | ⟨hfreed, -⟩
    · exact hsame
    · exact absurd (congrArg List.length hfreed) (by simp)
  cases waits with
  | spent last gone structs held =>
    cases outcome with
    | refused why =>
      rw [same rfl]
      exact ⟨.spent last gone structs held, fun _ => gone⟩
    | dropped pos ctx' kept' left => omega
    | freed plain' pos ctx' last' => omega
  | untouched apart =>
    have mem := apart.mem
    cases outcome with
    | refused why =>
      rw [same rfl]
      refine ⟨.untouched apart, fun one => ?_⟩
      rw [mem, plain, one, ctx] at why
      exact absurd why (by decide)
    | dropped pos ctx' kept' left =>
      rw [mem] at pos left
      omega
    | freed plain' pos ctx' last' =>
      rw [mem] at pos
      have released := (kept.resolve_left fun h => absurd (congrArg List.length h.1) (by simp)).2
      have zero : ((t.maps.set id ((t.maps.mem id).withRefs 0 0)).mem id).refs = 0 := by
        rw [set_mem_self]
        rfl
      rw [released]
      refine ⟨.spent (by omega) ?_ ?_ fun part => ?_, fun _ => zero⟩
      · rw [releaseMap_maps]
        exact zero
      · rw [releaseMap_structs, Function.update_self]
        exact congrArg (· - 1) apart.structs
      · rw [releaseMap_held, if_pos rfl]
        exact congrArg₂ (· - ·) (apart.held part) (apart.ptrs part)

theorem waits_release (waits : Waits s t id) (plain : heapFlags (s.maps.mem id).flags = false)
    (refs : (s.maps.mem id).refs = 0 ∨ (s.maps.mem id).refs = 1)
    (ctx : (s.maps.mem id).ctxRefs = 0) (slot : Option MapId) :
    Waits s (ctxRelease t slot) id := by
  by_cases hslot : slot = some id
  · subst hslot
    refine (waits_free (t := t.onMaps fun m => m.set id _) ?_ plain refs ctx).1
    cases waits with
    | spent last gone structs held =>
      refine .spent last ?_ structs held
      change ((t.maps.set id _).mem id).refs = 0
      rw [set_mem_self]
      split_ifs <;> exact gone
    | untouched apart =>
      refine .untouched (apart.trans (apart_maps ?_))
      rw [set_mem_self, apart.mem, ctx, if_neg (not_not_intro rfl)]
  · have still := apart_release (s := t) hslot
    cases waits with
    | untouched apart => exact .untouched (apart.trans still)
    | spent last gone structs held =>
      exact .spent last (still.mem ▸ gone) (still.structs.trans structs)
        fun part => (still.held part).trans (held part)

theorem waits_works {u : State} (waits : Waits s t id)
    (plain : heapFlags (s.maps.mem id).flags = false)
    (refs : (s.maps.mem id).refs = 0 ∨ (s.maps.mem id).refs = 1)
    (ctx : (s.maps.mem id).ctxRefs = 0) (listed : Listed t.maps) (unlinked : id ∉ t.maps.linked)
    (known : id < t.maps.next) (works : Works k t u) : Waits s u id := by
  induction works with
  | refl => exact waits
  | release _ slot ih => exact waits_release ih plain refs ctx slot
  | take works req d ih =>
    obtain ⟨hknown, hunlinked⟩ :=
      renews_unlinked (kept_ctxMoves listed (works_moves works)).renews known unlinked
    have still := apart_ctxMap (k := k) hunlinked hknown req d
    cases ih with
    | untouched apart => exact .untouched (apart.trans still)
    | spent last gone structs held =>
      exact .spent last (still.mem ▸ gone) (still.structs.trans structs)
        fun part => (still.held part).trans (held part)

end waiting

/-- Between two states the structure, the dma-buf, the attachment and its table were
released once each. -/
def ReleasedOnce (s t : State) (id : MapId) : Prop :=
  t.structs id = s.structs id - 1 ∧ ∀ part, t.held id part = s.held id part - 1

section results

variable {k : Uapi} {s t u v : HeldFile} {id : MapId}

theorem mmapRemove_counts {m n : Maps} {fd : Int} {va len : UInt64}
    (h : mmapRemove k m fd va len = .ok (id, n)) :
    id ∈ m.linked ∧ (n.mem id).ctxRefs = 0 ∧ (n.mem id).flags = (m.mem id).flags ∧
      ((n.mem id).refs = 0 ∧ (m.mem id).keep k = true ∧ (m.mem id).refs = 1 ∨
        (n.mem id).refs = 1 ∧ ¬((m.mem id).keep k = true ∧ (m.mem id).refs = 1)) := by
  unfold mmapRemove at h
  split at h
  · cases h
  rename_i v hv
  obtain ⟨rfl, rfl⟩ := Prod.mk.inj (Except.ok.inj h)
  have test := List.find?_some hv
  simp only [removable, Bool.and_eq_true, Bool.or_eq_true, beq_iff_eq] at test
  obtain ⟨⟨-, hrefs⟩, hctx⟩ := test
  refine ⟨List.mem_of_find?_eq_some hv, ?_⟩
  change ((m.set v _).mem v).ctxRefs = 0 ∧ ((m.set v _).mem v).flags = _ ∧
    (((m.set v _).mem v).refs = 0 ∧ _ ∨ ((m.set v _).mem v).refs = 1 ∧ _)
  rw [set_mem_self]
  split_ifs with hkeep
  · refine ⟨hctx, rfl, ?_⟩
    rcases hrefs with one | ⟨two, -⟩
    · exact Or.inl ⟨by dsimp only; omega, hkeep, one⟩
    · exact Or.inr ⟨by dsimp only; omega, fun h => by omega⟩
  · have hone : (m.mem v).refs = 1 := hrefs.resolve_right fun h2 => hkeep h2.2
    exact ⟨hctx, rfl, Or.inr ⟨hone, fun h => hkeep h.1⟩⟩

/-- The call that took the map, and what it did. -/
theorem taken_removed {a : Action} (h : HeldSound s) (idle : s.file.op = none)
    (call : step k s a = some u) (taken : takenBy u.file.op = some id) :
    u.state = { s.state with maps := u.file.maps } ∧
      ∃ fd va len, mmapRemove k s.file.maps fd va len = .ok (id, u.file.maps) := by
  have tracked := step_tracked h.tracked call
  obtain ⟨hfile, hstate⟩ := step_file call
  have busy : takenBy s.file.op ≠ some id := by
    rw [idle]
    exact fun hn => by cases hn
  by_cases quiet : UserMappings.Action.isQuiet a = true
  · rw [(UserMappings.quiet_aside quiet hfile).same.1] at taken
    exact absurd taken busy
  rcases UserMappings.step_kinds hfile with ⟨c, -, own, -⟩ | ⟨-, -, -, hcall⟩ | ⟨hcall, hother⟩
  · cases a <;> first | exact absurd rfl quiet | cases own
  · by_cases unmap : (∃ va len, a = .munmap va len) ∨ ∃ fd va len, a = .memUnmap fd va len
    · refine ⟨?_, ?_⟩
      · rw [← tracked.maps, hstate]
        rcases unmap with ⟨va, len, rfl⟩ | ⟨fd, va, len, rfl⟩ <;> rfl
      · cases unmap_takes idle hcall unmap with
        | nothing maps op =>
          rw [op] at taken
          cases taken
        | map v removed op =>
          obtain rfl := Option.some.inj (op.symm.trans taken)
          exact ⟨_, _, _, removed⟩
    · rw [other_takes_none idle hcall unmap] at taken
      cases taken
  · cases a with
    | finishOp ok raddr =>
      rw [finishOp_op hother] at taken
      cases taken
    | mmap _ _ _ | memMap _ _ | munmap _ _ | memUnmap _ _ _ | munmapFd _ _ => cases hcall
    | _ => exact absurd rfl quiet

theorem takenBy_cases {op : Option Op} (taken : takenBy op = some id) :
    op = some (.munmap id) ∨ op = some (.memUnmap id) := by
  cases op with
  | none => cases taken
  | some op =>
    cases op with
    | munmap v =>
      obtain rfl := Option.some.inj taken
      exact Or.inl rfl
    | memUnmap v =>
      obtain rfl := Option.some.inj taken
      exact Or.inr rfl
    | _ => cases taken

/-- What holds while the call waits for its answer. -/
structure Waiting (u w : HeldFile) (id : MapId) : Prop where
  sound : HeldSound w
  op : w.file.op = u.file.op
  flags : (w.file.maps.mem id).flags = (u.file.maps.mem id).flags
  waits : Waits u.state w.state id

theorem step_waiting {b : Action} (taken : takenBy u.file.op = some id)
    (plain : heapFlags (u.state.maps.mem id).flags = false)
    (refs : (u.state.maps.mem id).refs = 0 ∨ (u.state.maps.mem id).refs = 1)
    (ctx : (u.state.maps.mem id).ctxRefs = 0) (h : Waiting u v id)
    (unanswered : ∀ ok raddr, b ≠ .finishOp ok raddr) (hstep : step k v b = some t) :
    Waiting u t id := by
  obtain ⟨hfile, hstate⟩ := step_file hstep
  have onward := step_onward h.sound.tracked.sane.listed hfile
  obtain ⟨unlinked, known⟩ := h.sound.tracked.sane.listed.taken id (h.op ▸ taken)
  have quiet : UserMappings.Action.isQuiet b = true := by
    rcases UserMappings.step_kinds hfile with ⟨c, -, own, -⟩ | ⟨-, idle, -⟩ | ⟨hcall, -⟩
    · cases b <;> first | rfl | cases own
    · rw [← h.op, idle] at taken
      cases taken
    · cases b <;> first | exact absurd rfl (unanswered _ _) | rfl | cases hcall
  have busy : UserMappings.notifying v.file.op = false := by
    rw [h.op]
    rcases takenBy_cases taken with hop | hop <;> rw [hop] <;> rfl
  have maps := h.sound.tracked.maps
  refine ⟨step_heldSound h.sound hstep, ?_, (onward.same id known).flags.trans h.flags, ?_⟩
  · exact ((UserMappings.quiet_aside quiet hfile).eq busy).trans h.op
  · rw [hstate]
    exact waits_works h.waits plain refs ctx h.sound.sound.listed (maps ▸ unlinked)
      (maps ▸ known) (quiet_works quiet)

/-- The answer drops the last reference. -/
theorem finish_waits {raddr : UInt64} (taken : takenBy u.file.op = some id)
    (plain : heapFlags (u.state.maps.mem id).flags = false)
    (refs : (u.state.maps.mem id).refs = 0 ∨ (u.state.maps.mem id).refs = 1)
    (ctx : (u.state.maps.mem id).ctxRefs = 0) (h : Waiting u v id)
    (zero : u.file.op = some (.memUnmap id) → unmappable k (u.file.maps.mem id) = true)
    (answer : step k v (.finishOp true raddr) = some t) :
    Waits u.state t.state id ∧
      ((u.state.maps.mem id).refs = 1 → (t.state.maps.mem id).refs = 0) := by
  obtain ⟨-, hstate⟩ := step_file answer
  have freed := waits_free h.waits plain refs ctx
  suffices hsame : t.state = mmapFree v.state (some id) false by
    rw [hsame]
    exact freed
  rw [hstate, stateAfter, finishOp, h.op]
  rcases takenBy_cases taken with hop | hop
  · rw [hop]
    rfl
  · have flags : unmappable k (v.state.maps.mem id) = true := by
      rw [h.sound.tracked.maps, unmappable, h.flags]
      exact zero hop
    rw [hop]
    exact if_pos ⟨flags, rfl⟩

end results

/-- A map that `munmap` or `mem_unmap` takes off the list is released exactly once when the
call returns 0 if, and only if, it had not been freed before and is not a `KEEP_MAP` map with
one reference. -/
theorem unmap_releases_iff (k : Uapi) (as : List Action) (s : HeldFile)
    (run : exec (step k) HeldFile.opened as = some s) (idle : s.file.op = none)
    (a : Action) (u : HeldFile) (call : step k s a = some u) (id : MapId)
    (taken : takenBy u.file.op = some id)
    (zero : u.file.op = some (.memUnmap id) → unmappable k (u.file.maps.mem id) = true)
    (bs : List Action) (unanswered : ∀ b ∈ bs, ∀ ok raddr, b ≠ .finishOp ok raddr)
    (v : HeldFile) (wait : exec (step k) u bs = some v) (raddr : UInt64) (t : HeldFile)
    (answer : step k v (.finishOp true raddr) = some t) :
    ReleasedOnce s.state t.state id ↔ id ∉ s.file.maps.freed ∧
      ¬((s.file.maps.mem id).keep k = true ∧ (s.file.maps.mem id).refs = 1) := by
  have sound := exec_invariant (fun _ _ _ h hstep => step_heldSound h hstep) opened_heldSound run
  have maps := sound.tracked.maps
  obtain ⟨hu, fd, va, len, removed⟩ := taken_removed sound idle call taken
  obtain ⟨linked, ctx, flags, counts⟩ := mmapRemove_counts removed
  have umaps : u.state.maps = u.file.maps := by rw [hu]
  have plain : heapFlags (u.state.maps.mem id).flags = false := by
    rw [umaps, flags]
    exact sound.tracked.sane.listed.maps.plain id linked
  rw [← umaps] at ctx counts
  have refs : (u.state.maps.mem id).refs = 0 ∨ (u.state.maps.mem id).refs = 1 :=
    counts.imp And.left And.left
  have start : Waiting u u id := ⟨step_heldSound sound call, rfl, rfl,
    .untouched ⟨rfl, fun _ => rfl, rfl, fun _ => rfl⟩⟩
  have waiting : Waiting u v id := exec_invariant_along
    (fun _ b => ∀ ok raddr, b ≠ .finishOp ok raddr)
    (fun _ _ _ h hb hstep => step_waiting taken plain refs ctx h hb hstep) start
    (along_of_forall (fun b hb _ => unanswered b hb) u) wait
  obtain ⟨waits, last⟩ := finish_waits taken plain refs ctx waiting zero answer
  have structs : u.state.structs = s.state.structs := by rw [hu]
  have held : u.state.held = s.state.held := by rw [hu]
  have ptrs : u.state.ptrs = s.state.ptrs := by rw [hu]
  cases waits with
  | untouched apart =>
    have unspent : (u.state.maps.mem id).refs ≠ 1 := fun one => by
      have gone := last one
      rw [apart.mem, one] at gone
      cases gone
    refine iff_of_false (fun released => ?_) fun cond => ?_
    · have same := apart.structs
      rw [released.1, structs] at same
      omega
    · exact cond.2 (counts.resolve_right fun h => unspent h.1).2
  | spent one gone hstructs hheld =>
    rw [structs] at hstructs
    rw [held, ptrs] at hheld
    have fine := (counts.resolve_left fun h => by omega).2
    constructor
    · intro released
      refine ⟨fun freed => ?_, fine⟩
      have zero := sound.sound.gone id (maps ▸ freed) .buf
      have one := released.2 .buf
      rw [hheld, zero] at one
      omega
    · intro cond
      refine ⟨hstructs, fun part => ?_⟩
      rw [hheld, sound.sound.whole id (Or.inl (maps ▸ linked)) (maps ▸ cond.1) part]

/-- MEM_MAP with `KEEP_MAP`, answered with an address. -/
def keptMapping : List Action :=
  [.init 1, .memMap ⟨5, 8, 0x1000, 0x1000, 2⟩ .mapped, .finishOp true 0x9000]

/-- MEM_UNMAP of this map, while a context begins and ends. -/
theorem keptMapping_released : ∃ s u v t, exec (step uapi) HeldFile.opened keptMapping = some s ∧
    step uapi s (.memUnmap 5 0x9000 0x1000) = some u ∧
    exec (step uapi) u [.invoke 7 0 false, .send 0 false, .contextFree 0] = some v ∧
    step uapi v (.finishOp true 0) = some t ∧ t.file.maps.freed = [0] ∧
    ReleasedOnce s.state t.state 0 := by
  refine ⟨_, _, _, _, rfl, rfl, rfl, rfl, rfl, (unmap_releases_iff uapi keptMapping _ rfl rfl
    (.memUnmap 5 0x9000 0x1000) _ rfl 0 rfl (fun _ => by decide)
    [.invoke 7 0 false, .send 0 false, .contextFree 0] (fun b hb ok raddr heq => ?_) _ rfl 0 _
    rfl).mpr ⟨by decide, by decide⟩⟩
  subst heq
  simp at hb

/-- MUNMAP_FD drops the `KEEP_MAP` reference and leaves the map on the list. -/
def keptOnce : List Action :=
  keptMapping ++ [.munmapFd 7 5, .notifyAlloc true, .notifyDone false false]

/-- MUNMAP of a map in this state returns 0; the map is off the list and nothing of it is
released. -/
theorem keptOnce_leaks : ∃ s u t, exec (step uapi) HeldFile.opened keptOnce = some s ∧
    s.file.maps.linked = [0] ∧ s.file.maps.freed = [] ∧
    step uapi s (.munmap 0x9000 0x1000) = some u ∧ u.file.op = some (.munmap 0) ∧
    step uapi u (.finishOp true 0) = some t ∧ t.file.op = none ∧
    t.file.maps.linked = [] ∧ t.file.maps.freed = [] ∧
    t.state.structs 0 = 1 ∧ t.state.held 0 .buf = 1 ∧ t.state.held 0 .attach = 1 ∧
    ¬ ReleasedOnce s.state t.state 0 := by
  refine ⟨_, _, _, rfl, rfl, rfl, rfl, rfl, rfl, rfl, rfl, rfl, by decide, by decide, by decide,
    fun released => ?_⟩
  exact absurd released.1 (by decide)

end UnmapReleases
