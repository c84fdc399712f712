import PlatformKernel.FailedCalls

/-!
# Ranges that wrap around

`vfastrpc_mmap_find` rejects a range whose end overflows with `-EOVERFLOW`, but
`vfastrpc_mmap_create` takes every error of it for "not found" and goes on to create the
map. Which requests reach `vfastrpc_mmap_create`, and what they add to the list.
-/

namespace WrappedRanges

open CountedLoops GuardedRuns FileMaps FileMoves FileOperations MapLists MapTallies ReturnCodes
open InvokeMessage (bufs)
open MapReferences (uapi)

def wraps (va len : UInt64) : Prop := 2 ^ 64 ≤ va.toNat + len.toNat

instance (va len : UInt64) : Decidable (wraps va len) := inferInstanceAs (Decidable (_ ≤ _))

theorem wraps_iff (va len : UInt64) : va + len < va ↔ wraps va len := by
  unfold wraps
  rw [UInt64.lt_iff_toNat_lt, UInt64.toNat_add]
  have hva := va.toNat_lt
  have hlen := len.toNat_lt
  constructor
  · intro h
    by_contra hle
    rw [Nat.mod_eq_of_lt (Nat.lt_of_not_le hle)] at h
    omega
  · intro h
    rw [Nat.mod_eq_sub_mod h, Nat.mod_eq_of_lt (by omega)]
    omega

/-- The range a step asks `vfastrpc_mmap_create` for. Those of DMA handles are empty. -/
def request : Action → Option (MapRequest × DmaOutcome)
  | .mapBuffer _ _ req dma => some ({ req with mflags := 0 }, dma)
  | .mmap ud dma _ =>
    if ud.flags = adspMmapAddPages then none
    else some (⟨ud.fd, 0, ud.vaddrin, ud.size, ud.flags⟩, dma)
  | .memMap req dma => some (req, dma)
  | _ => none

/-- Nothing but the range stands in the way of a new map. -/
def creatable (req : MapRequest) (dma : DmaOutcome) : Bool :=
  !heapFlags req.mflags && dma.alloc && dma.get && dma.attach && dma.table

/-- Maps that are new on the list have a range that meets `P`. -/
def NewMaps (P : UInt64 → UInt64 → Prop) (s t : Maps) : Prop :=
  ∀ v ∈ t.linked, s.next ≤ v → P (t.mem v).va (t.mem v).len

section maps

variable {k : Uapi} {P Q : UInt64 → UInt64 → Prop} {s t u : Maps}

theorem newMaps_none (listed : Listed t) (next : t.next = s.next) : NewMaps P s t := by
  intro v hv hnew
  have known := listed.known v hv
  rw [next] at known
  exact absurd hnew (Nat.not_le_of_lt known)

theorem newMaps_trans (h : NewMaps P s t) (kept : Kept t u) (h' : NewMaps P t u) :
    NewMaps P s u := by
  intro v hv hnew
  by_cases hv' : v < t.next
  · have hold := (kept.renews.linked v hv).resolve_right (Nat.not_le_of_lt hv')
    have same := kept.renews.same v hv'
    rw [same.va, same.len]
    exact h v hold hnew
  · exact h' v hv (Nat.le_of_not_lt hv')

theorem newMaps_mono (h : NewMaps P s t) (weaker : ∀ va len, P va len → Q va len) :
    NewMaps Q s t :=
  fun v hv hnew => weaker _ _ (h v hv hnew)

theorem releaseSlots_next (slots : Nat → Option MapId) (lo n : Nat) (s : Maps) :
    (releaseSlots slots lo n s).next = s.next := by
  unfold releaseSlots
  generalize List.range' lo n = indices
  induction indices generalizing s with
  | nil => rfl
  | cons i rest ih => exact (ih _).trans (ctxRelease_next s _)

theorem putFdlist_next (fdlist : List UInt64) (s : Maps) : (putFdlist fdlist s).next = s.next := by
  induction fdlist generalizing s with
  | nil => rfl
  | cons fd rest ih =>
    unfold putFdlist
    split
    · rfl
    split
    · rename_i id u hfind
      rcases (mmapFind_ok hfind).2 with ⟨-, rfl⟩ | ⟨htrue, -⟩
      · exact (ih _).trans (ctxRelease_next u _)
      · cases htrue
    · exact ih s

theorem removeFdLoop_next (fd : Int) (ids : List MapId) (err : Int) (entries : Nat) (s : Maps) :
    (removeFdLoop k fd ids err entries s).2.2.next = s.next := by
  induction ids generalizing s err entries with
  | nil => rfl
  | cons id rest ih =>
    unfold removeFdLoop
    dsimp only
    split
    · exact (ih _ _ _).trans (mmapFree_next s id false)
    · exact ih _ _ _

/-- What `vfastrpc_mmap_create` makes when there is no map to share. -/
theorem mmapCreate_creatable {req : MapRequest} {err : Int} (dma : DmaOutcome)
    (none : mmapFind s req.fd req.va req.len req.mflags true = .error err) :
    creatable req dma = true ∧ (∃ refs, mmapCreate k s req dma = (.ok s.next,
        { s.set s.next ⟨req.fd, req.mflags, req.va, req.len, 0, refs, req.attr, 0⟩ with
          next := s.next + 1, linked := s.next :: s.linked })) ∨
      creatable req dma = false ∧ ∃ err, (mmapCreate k s req dma).1 = .error err := by
  rcases hcreate : mmapCreate k s req dma with ⟨err' | id, t⟩
  · refine Or.inr ⟨Bool.eq_false_iff.mpr fun hcreatable => ?_, err', rfl⟩
    simp only [creatable, Bool.and_eq_true, Bool.not_eq_true'] at hcreatable
    simp [mmapCreate_new dma none, hcreatable] at hcreate
  · obtain ⟨rfl, plain, ⟨halloc, hget, hattach, htable⟩, refs, rfl, -⟩ :=
      mmapCreate_made none hcreate
    exact Or.inl ⟨by simp [creatable, plain, halloc, hget, hattach, htable], refs, rfl⟩

theorem newMaps_create (listed : Listed s) (req : MapRequest) (dma : DmaOutcome) :
    NewMaps (fun va len => va = req.va ∧ len = req.len ∧ creatable req dma = true) s
      (mmapCreate k s req dma).2 := by
  cases hfind : mmapFind s req.fd req.va req.len req.mflags true with
  | ok found =>
    have kept := kept_creating listed (mmapCreate_creating k s req dma)
    refine newMaps_none kept.listed ?_
    simp only [mmapCreate, hfind]
    rcases (mmapFind_ok hfind).2 with ⟨-, hset⟩ | ⟨-, -, hset⟩ <;> rw [hset]
    rfl
  | error err =>
    rcases mmapCreate_creatable (k := k) dma hfind with
      ⟨hcreatable, refs, hcreated⟩ | ⟨-, err', hfailed⟩
    · rw [hcreated]
      intro v hv hnew
      rcases List.mem_cons.mp hv with rfl | hold
      · rw [show Maps.mem _ s.next = _ from set_mem_self s s.next _]
        exact ⟨rfl, rfl, hcreatable⟩
      · exact absurd hnew (Nat.not_le_of_lt (listed.known v hold))
    · have same := FailedCalls.sameMaps_failed listed
        (show mmapCreate k s req dma = (.error err', (mmapCreate k s req dma).2) by
          rw [← hfailed])
      intro v hv hnew
      rw [same.linked] at hv
      exact absurd hnew (Nat.not_le_of_lt (listed.known v hv))

theorem newMaps_ctxMap (listed : Listed s) (req : MapRequest) (dma : DmaOutcome) :
    NewMaps (fun va len => va = req.va ∧ len = req.len ∧ creatable req dma = true) s
      (ctxMap k s req dma).2 := by
  have created := newMaps_create (k := k) listed req dma
  have kept := kept_creating listed (mmapCreate_creating k s req dma)
  unfold ctxMap
  generalize mmapCreate k s req dma = r at created kept ⊢
  obtain ⟨result, u⟩ := r
  cases result with
  | error err => exact created
  | ok id =>
    have set : Kept u (u.set id ((u.mem id).withRefs (u.mem id).refs ((u.mem id).ctxRefs + 1))) :=
      kept_set kept.listed (sameRange_withRefs _ _ _)
    exact newMaps_trans created set (newMaps_none set.listed rfl)

/-- The handles ask for empty ranges. -/
theorem newMaps_handles (listed : Listed s) (sc : UInt32) (handles : Nat → Handle)
    (slots : Nat → Option MapId) (lo n : Nat) :
    NewMaps (fun va len => va = 0 ∧ len = 0) s
      (loop (mapHandle k sc handles) lo n (s, slots)).state.1 := by
  have both : Kept s (loop (mapHandle k sc handles) lo n (s, slots)).state.1 ∧
      NewMaps (fun va len => va = 0 ∧ len = 0) s
        (loop (mapHandle k sc handles) lo n (s, slots)).state.1 := by
    refine holds_state (Q := fun st : Slots => Kept s st.1 ∧
      NewMaps (fun va len => va = 0 ∧ len = 0) s st.1) (loop_holds (fun _ (st : Slots) =>
        Kept s st.1 ∧ NewMaps (fun va len => va = 0 ∧ len = 0) s st.1)
        ⟨kept_refl listed, newMaps_none listed rfl⟩ fun i st _ _ hst => ?_)
    obtain ⟨hkept, hnew⟩ := hst
    unfold mapHandle
    split
    · exact ⟨hkept, hnew⟩
    dsimp only
    generalize hreq : (⟨(handles i).fd, (handles i).attr &&& ~~~k.attrKeepMap, 0, 0,
      if (handles i).attr &&& k.attrNomap ≠ 0 then k.dmahandleNomap else 0⟩ : MapRequest) = req
    have kept := kept_ctxMap (k := k) hkept.listed req (handles i).dma
    have taken := newMaps_mono (newMaps_ctxMap (k := k) hkept.listed req (handles i).dma)
      (Q := fun va len => va = 0 ∧ len = 0) fun va len h => by
        rw [h.1, h.2.1, ← hreq]
        exact ⟨rfl, rfl⟩
    generalize ctxMap k st.1 req (handles i).dma = r at kept taken ⊢
    obtain ⟨result, maps⟩ := r
    have total := newMaps_trans hnew kept taken
    cases result with
    | ok id => exact ⟨hkept.trans kept, total⟩
    | error err =>
      have released := kept_ctxMoves kept.listed
        (releaseSlots_moves (k := k) .refl st.2 (bufs sc) (i - bufs sc))
      exact ⟨(hkept.trans kept).trans released,
        newMaps_trans total released (newMaps_none released.listed (releaseSlots_next _ _ _ _))⟩
  exact both.2

end maps

section steps

variable {k : Uapi} {s t : File} {a : Action}

/-- The range of a request that was served, or of a handle. -/
def Asked (a : Action) (va len : UInt64) : Prop :=
  (∃ p ∈ request a, va = p.1.va ∧ len = p.1.len ∧ creatable p.1 p.2 = true) ∨ va = 0 ∧ len = 0

theorem finishOp_next {ok : Bool} {raddr : UInt64} (h : finishOp k s ok raddr = some t) :
    t.maps.next = s.maps.next := by
  unfold finishOp at h
  split at h
  · obtain rfl := Option.some.inj h
    dsimp only
    split_ifs
    · rfl
    · exact mmapFree_next _ _ _
  · obtain rfl := Option.some.inj h
    dsimp only
    split_ifs
    · rfl
    · exact mmapFree_next _ _ _
  · obtain rfl := Option.some.inj h
    dsimp only
    split_ifs
    · exact mmapFree_next _ _ _
    · exact (mmapAdd_mem _ _).2
  · obtain rfl := Option.some.inj h
    dsimp only
    split_ifs
    · exact mmapFree_next _ _ _
    · exact (mmapAdd_mem _ _).2
    · exact (mmapAdd_mem _ _).2
  · obtain rfl := Option.some.inj h
    rfl
  · obtain rfl := Option.some.inj h
    split_ifs
    · obtain ⟨_, _, _, _, _, hfree⟩ := bufFree_frame s _ false
      rw [hfree]
    · rfl
  · cases h

theorem step_newMaps (h : FileListed s) (hstep : step k s a = some t) :
    NewMaps (Asked a) s.maps t.maps := by
  have listed := (step_onward h hstep).listed.maps
  have asked : ∀ {req : MapRequest} {dma : DmaOutcome} {maps : Maps},
      request a = some (req, dma) →
      NewMaps (fun va len => va = req.va ∧ len = req.len ∧ creatable req dma = true)
        s.maps maps → NewMaps (Asked a) s.maps maps :=
    fun hreq hnew => newMaps_mono hnew fun _ _ hr => Or.inl ⟨_, hreq, hr⟩
  have same : mapsAfter k s a = s.maps → NewMaps (Asked a) s.maps t.maps := fun hsame => by
    have hmaps := (step_maps hstep).trans hsame
    exact newMaps_none listed (congrArg Maps.next hmaps)
  have next : (mapsAfter k s a).next = s.maps.next → NewMaps (Asked a) s.maps t.maps :=
    fun hnext => newMaps_none listed ((congrArg Maps.next (step_maps hstep)).trans hnext)
  have hmaps := step_maps hstep
  cases a with
  | mapBuffer c i req dma =>
    rw [hmaps]
    exact asked rfl (newMaps_ctxMap h.maps { req with mflags := 0 } dma)
  | mapHandles c handles =>
    rw [hmaps]
    exact newMaps_mono (newMaps_handles h.maps _ _ _ _ _) fun _ _ hr => Or.inr hr
  | mmap ud dma pages =>
    by_cases hflags : ud.flags = adspMmapAddPages
    · exact same (if_pos hflags)
    · rw [hmaps, mapsAfter, if_neg hflags]
      exact asked (if_neg hflags) (newMaps_create h.maps _ dma)
  | memMap req dma =>
    rw [hmaps]
    exact asked rfl (newMaps_create h.maps req dma)
  | putBuffer c i => exact next (ctxRelease_next _ _)
  | putFdlist c fdlist => exact next (putFdlist_next _ _)
  | contextFree c => exact next (releaseSlots_next _ _ _ _)
  | munmap vaddrout size =>
    refine next ?_
    simp only [mapsAfter, internalMunmap]
    split
    · rfl
    split
    · rename_i removed
      obtain ⟨-, -, refs, hset, -⟩ := mmapRemove_ok removed
      rw [hset]
      rfl
    · rfl
  | memUnmap fd vaddr length =>
    refine next ?_
    simp only [mapsAfter, internalMemUnmap]
    split
    · rename_i removed
      obtain ⟨-, -, refs, hset, -⟩ := mmapRemove_ok removed
      rw [hset]
      rfl
    · rfl
  | munmapFd tid fd =>
    refine next ?_
    simp only [mapsAfter, mmapRemoveFd, apply_ite Maps.next, removeFdLoop_next, ite_self]
  | finishOp ok raddr =>
    refine next ?_
    rw [← hmaps]
    exact finishOp_next hstep
  | _ => exact same rfl

/-- A map that a call takes off the list was on it. -/
theorem step_taken {id : MapId} (hstep : step k s a = some t) (taken : takenBy t.op = some id) :
    takenBy s.op = some id ∨ id ∈ s.maps.linked := by
  have moves := step_mapMoves hstep
  generalize t.maps = maps at moves
  generalize t.op = op at moves taken
  cases moves with
  | ctx moves => exact Or.inl taken
  | other free | removesFd idle action fresh free =>
    rw [mapless_taken free] at taken
    cases taken
  | finish action moves => cases taken
  | call idle moves =>
    cases moves with
    | munmap removed | memUnmap removed =>
      obtain rfl := Option.some.inj taken
      exact Or.inr (mmapRemove_ok removed).1
    | mmap created | memMap created | failed failed => cases taken

/-- No map on the list, or in the hands of a call that may put it back, wraps. -/
structure Unwrapped (s : File) : Prop where
  listed : FileListed s
  ranges : ∀ id, id ∈ s.maps.linked ∨ takenBy s.op = some id →
    ¬ wraps (s.maps.mem id).va (s.maps.mem id).len

/-- The request does not wrap, or something else prevents its map. -/
def Contained (a : Action) : Prop :=
  ∀ p ∈ request a, ¬ wraps p.1.va p.1.len ∨ creatable p.1 p.2 = false

theorem step_unwrapped (h : Unwrapped s) (ok : Contained a) (hstep : step k s a = some t) :
    Unwrapped t := by
  have onward := step_onward h.listed hstep
  have old : ∀ id < s.maps.next, id ∈ s.maps.linked ∨ takenBy s.op = some id →
      ¬ wraps (t.maps.mem id).va (t.maps.mem id).len := by
    intro id known hid
    have same := onward.same id known
    rw [same.va, same.len]
    exact h.ranges id hid
  refine ⟨onward.listed, fun id hid => ?_⟩
  by_cases known : id < s.maps.next
  · refine old id known ?_
    by_contra hgone
    obtain ⟨unlinked, untaken⟩ := not_or.mp hgone
    have gone := onward.gone id ⟨known, unlinked, untaken⟩
    exact hid.elim gone.unlinked gone.untaken
  · rcases hid with hid | taken
    · rcases step_newMaps h.listed hstep id hid (Nat.le_of_not_lt known) with
        ⟨p, hp, hva, hlen, hcreatable⟩ | ⟨hva, hlen⟩
      · rw [hva, hlen]
        refine (ok p hp).resolve_right fun hfalse => ?_
        rw [hcreatable] at hfalse
        cases hfalse
      · rw [hva, hlen]
        exact show ¬ wraps 0 0 by decide
    · rcases step_taken hstep taken with hold | hold
      · exact absurd (h.listed.taken id hold).2 known
      · exact absurd (h.listed.maps.known id hold) known

end steps

/-- How the caller of `vfastrpc_mmap_create` shows that it failed: `get_args` goes to its
end, the ioctls return before they send a message. -/
def fails (t : File) : Action → Prop
  | .mapBuffer c _ _ _ => (t.ctxs c).stage = .ending
  | _ => t.op = none

/-- After the step no map on the list wraps, and a request that was rejected with
`-EOVERFLOW` has failed without a new map. -/
def Upheld (k : Uapi) (s : File) (a : Action) : Prop :=
  ∀ t, step k s a = some t →
    (∀ id ∈ t.maps.linked, ¬ wraps (t.maps.mem id).va (t.maps.mem id).len) ∧
    ∀ p ∈ request a,
      mmapFind s.maps p.1.fd p.1.va p.1.len p.1.mflags true = .error (-EOVERFLOW) →
        fails t a ∧ t.maps.linked = s.maps.linked

section results

variable {k : Uapi} {s t : File} {a : Action} {req : MapRequest} {dma : DmaOutcome}

theorem mmapFind_overflow {m : Maps} :
    mmapFind m req.fd req.va req.len req.mflags true = .error (-EOVERFLOW) ↔
      wraps req.va req.len := by
  rw [← wraps_iff]
  constructor
  · intro h
    unfold mmapFind at h
    split at h
    · assumption
    split at h
    · exact absurd (Except.error.inj h) (by decide)
    split at h
    · exact absurd (Except.error.inj h) (by decide)
    dsimp only at h
    split_ifs at h
    exact absurd (Except.error.inj h) (by decide)
  · intro h
    rw [mmapFind, if_pos h]

/-- A buffer of an invoke. -/
theorem mapBuffer_request {c : CtxId} {i : Nat} (building : (s.ctxs c).stage = .building) :
    (mapBuffer k s c i req dma).maps.linked =
        (mmapCreate k s.maps { req with mflags := 0 } dma).2.linked ∧
      (((mapBuffer k s c i req dma).ctxs c).stage = .ending ↔
        ∃ err, (mmapCreate k s.maps { req with mflags := 0 } dma).1 = .error err) := by
  unfold mapBuffer ctxMap
  generalize mmapCreate k s.maps { req with mflags := 0 } dma = r
  obtain ⟨result, maps⟩ := r
  cases result with
  | ok id =>
    refine ⟨rfl, iff_of_false (fun hstage => ?_) fun herr => ?_⟩
    · simp [File.setCtx, building] at hstage
    · obtain ⟨err, herr⟩ := herr
      cases herr
  | error err =>
    refine ⟨rfl, iff_of_true ?_ ⟨err, rfl⟩⟩
    simp [File.setCtx]

theorem internalMemMap_request (idle : s.op = none) :
    (internalMemMap k s req dma).maps.linked = (mmapCreate k s.maps req dma).2.linked ∧
      ((internalMemMap k s req dma).op = none ↔
        ∃ err, (mmapCreate k s.maps req dma).1 = .error err) := by
  unfold internalMemMap
  generalize mmapCreate k s.maps req dma = r
  obtain ⟨result, maps⟩ := r
  cases result with
  | ok id => exact ⟨rfl, iff_of_false (fun h => by cases h) fun h => h.elim fun _ h => by cases h⟩
  | error err => exact ⟨rfl, iff_of_true idle ⟨err, rfl⟩⟩

theorem internalMmap_request {ud : MmapArgs} {pages : Bool} (idle : s.op = none)
    (flags : ud.flags ≠ adspMmapAddPages) :
    let req : MapRequest := ⟨ud.fd, 0, ud.vaddrin, ud.size, ud.flags⟩
    (internalMmap k s ud dma pages).maps.linked = (mmapCreate k s.maps req dma).2.linked ∧
      ((internalMmap k s ud dma pages).op = none ↔
        ∃ err, (mmapCreate k s.maps req dma).1 = .error err) := by
  unfold internalMmap
  rw [if_neg flags]
  dsimp only
  generalize mmapCreate k s.maps ⟨ud.fd, 0, ud.vaddrin, ud.size, ud.flags⟩ dma = r
  obtain ⟨result, maps⟩ := r
  cases result with
  | ok id => exact ⟨rfl, iff_of_false (fun h => by cases h) fun h => h.elim fun _ h => by cases h⟩
  | error err => exact ⟨rfl, iff_of_true idle ⟨err, rfl⟩⟩

/-- What the step of a request does with the result of `vfastrpc_mmap_create`. -/
theorem step_request (hreq : request a = some (req, dma)) (hstep : step k s a = some t) :
    t.maps.linked = (mmapCreate k s.maps req dma).2.linked ∧
      (fails t a ↔ ∃ err, (mmapCreate k s.maps req dma).1 = .error err) := by
  cases a with
  | mapBuffer c i r d =>
    obtain ⟨rfl, rfl⟩ := Prod.mk.inj (Option.some.inj hreq)
    simp only [step, Action.ctx, ctxStep] at hstep
    split_ifs at hstep with hpending hcond
    obtain rfl := Option.some.inj hstep
    exact mapBuffer_request hcond.1
  | mmap ud d pages =>
    simp only [request] at hreq
    split_ifs at hreq with hflags
    obtain ⟨rfl, rfl⟩ := Prod.mk.inj (Option.some.inj hreq)
    simp only [step, Action.ctx, Action.isMapCall, if_true, mapCall] at hstep
    split_ifs at hstep with hidle
    obtain rfl := Option.some.inj hstep
    exact internalMmap_request hidle.1 hflags
  | memMap r d =>
    obtain ⟨rfl, rfl⟩ := Prod.mk.inj (Option.some.inj hreq)
    simp only [step, Action.ctx, Action.isMapCall, if_true, mapCall] at hstep
    split_ifs at hstep with hidle
    obtain rfl := Option.some.inj hstep
    exact internalMemMap_request hidle.1
  | _ => cases hreq

theorem upheld_iff (h : Unwrapped s) (hstep : step k s a = some t) :
    Upheld k s a ↔ Contained a := by
  constructor
  · rintro upheld ⟨req, dma⟩ hreq
    rw [or_iff_not_imp_left, not_not]
    intro hwraps
    have rejected := (mmapFind_overflow (m := s.maps)).mpr hwraps
    have failed := ((upheld t hstep).2 (req, dma) hreq rejected).1
    obtain ⟨err, herr⟩ := (step_request hreq hstep).2.mp failed
    rcases mmapCreate_creatable (k := k) dma rejected with ⟨-, refs, hok⟩ | ⟨hcreatable, -⟩
    · rw [hok] at herr
      cases herr
    · exact hcreatable
  · intro ok t' hstep'
    obtain rfl := Option.some.inj (hstep.symm.trans hstep')
    refine ⟨fun id hid => (step_unwrapped h ok hstep).ranges id (Or.inl hid), ?_⟩
    rintro ⟨req, dma⟩ hreq rejected
    obtain ⟨linked, hfails⟩ := step_request hreq hstep
    have hfalse := (ok (req, dma) hreq).resolve_left
      (not_not_intro (mmapFind_overflow.mp rejected))
    rcases mmapCreate_creatable (k := k) dma rejected with ⟨htrue, -⟩ | ⟨-, err, herr⟩
    · rw [hfalse] at htrue
      cases htrue
    · refine ⟨hfails.mpr ⟨err, herr⟩, linked.trans ?_⟩
      exact (FailedCalls.sameMaps_failed h.listed.maps
        (show mmapCreate k s.maps req dma = (.error err, (mmapCreate k s.maps req dma).2) by
          rw [← herr])).linked

theorem opened_unwrapped : Unwrapped File.opened where
  listed := opened_listed
  ranges := fun _ h => by rcases h with h | h <;> cases h

end results

/-- Along a run no map that wraps is linked and no rejected request creates one if, and only
if, no request of the run both wraps and could be served otherwise. -/
theorem ranges_upheld_iff (k : Uapi) (as : List Action) (s : File)
    (run : exec (step k) File.opened as = some s) :
    Along (step k) (Upheld k) File.opened as ↔
      Along (step k) (fun _ a => Contained a) File.opened as :=
  along_iff Unwrapped (fun _ _ _ h hstep => upheld_iff h hstep)
    (fun _ _ _ h ok hstep => step_unwrapped h ((upheld_iff h hstep).mp ok) hstep)
    opened_unwrapped run

/-- A mapping at the end of the address space, and one that wraps but whose descriptor is
not a dma-buf. -/
def containedRun : List Action :=
  [.init 1, .memMap ⟨5, 0, 0xfffffffffffff000, 0xfff, 2⟩ .mapped, .finishOp true 0x9000,
    .memMap ⟨6, 0, 0xfffffffffffff000, 0x2000, 2⟩ ⟨true, false, true, true⟩]

theorem containedRun_upheld : ∃ s, exec (step uapi) File.opened containedRun = some s ∧
    s.maps.linked = [0] ∧ Along (step uapi) (Upheld uapi) File.opened containedRun := by
  refine ⟨_, rfl, rfl, (ranges_upheld_iff uapi containedRun _ rfl).mpr
    (along_of_forall (fun a ha _ p hp => ?_) _)⟩
  simp only [containedRun, List.mem_cons, List.not_mem_nil, or_false] at ha
  rcases ha with rfl | rfl | rfl | rfl
  · cases hp
  · obtain rfl := Option.some.inj hp
    exact Or.inl (by decide)
  · cases hp
  · obtain rfl := Option.some.inj hp
    exact Or.inr rfl

/-- MEM_MAP of a range that wraps is rejected by the lookup and served all the same. -/
theorem wrapped_range_linked : ∃ s t, exec (step uapi) File.opened [.init 1] = some s ∧
    let req : MapRequest := ⟨5, 0, 0xfffffffffffff000, 0x2000, 2⟩
    mmapFind s.maps req.fd req.va req.len req.mflags true = .error (-EOVERFLOW) ∧
    step uapi s (.memMap req .mapped) = some t ∧ t.op = some (.memMap 0) ∧
    t.maps.linked = [0] ∧ wraps (t.maps.mem 0).va (t.maps.mem 0).len ∧
    ¬ Upheld uapi s (.memMap req .mapped) := by
  refine ⟨_, _, rfl, rfl, rfl, rfl, rfl, by decide, fun upheld => ?_⟩
  exact (upheld _ rfl).1 0 (by decide) (by decide)

end WrappedRanges
