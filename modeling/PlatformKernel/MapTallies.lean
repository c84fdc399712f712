import PlatformKernel.GuardedRuns
import PlatformKernel.MapLists

/-!
# The counts of maps, whoever drops them

No run makes a count negative: `vfastrpc_mmap_free` refuses a map without references, and
`ctx_refs` is only decremented when it is not zero. A map that was not allocated yet has no
references, so nothing that is freed is allocated again.
-/

namespace MapTallies

open FileMaps FileOperations FileMoves GuardedRuns MapLists

structure Tallied (s : Maps) : Prop where
  refs : ∀ id, 0 ≤ (s.mem id).refs
  ctx : ∀ id, 0 ≤ (s.mem id).ctxRefs
  fresh : ∀ id, s.next ≤ id → (s.mem id).refs = 0
  freed : ∀ id ∈ s.freed, id < s.next

section maps

variable {k : Uapi} {s t : Maps} {id : MapId} {map : VfastrpcMmap}

theorem Tallied.known (h : Tallied s) (refs : 0 < (s.mem id).refs) : id < s.next := by
  by_contra hle
  have none := h.fresh id (Nat.le_of_not_lt hle)
  omega

theorem Tallied.zero_or_known (h : Tallied s) (id : MapId) :
    (s.mem id).refs = 0 ∨ id < s.next := by
  by_cases hid : id < s.next
  · exact Or.inr hid
  · exact Or.inl (h.fresh id (Nat.le_of_not_lt hid))

/-- One map changes; the list may change too. -/
theorem tallied_change (h : Tallied s) (refs : 0 ≤ map.refs) (ctx : 0 ≤ map.ctxRefs)
    (known : map.refs = 0 ∨ id < s.next) (linked : List MapId) {freed : List MapId}
    (old : ∀ v ∈ freed, v < s.next) :
    Tallied { s.set id map with linked := linked, freed := freed } := by
  have cases : ∀ v, (s.set id map).mem v = map ∧ v = id ∨ (s.set id map).mem v = s.mem v := by
    intro v
    by_cases hv : v = id
    · subst hv
      exact Or.inl ⟨set_mem_self s v map, rfl⟩
    · exact Or.inr (set_mem_ne s map hv)
  refine ⟨fun v => ?_, fun v => ?_, fun v hv => ?_, old⟩
  · change 0 ≤ ((s.set id map).mem v).refs
    rcases cases v with ⟨hmap, -⟩ | hmap <;> rw [hmap]
    · exact refs
    · exact h.refs v
  · change 0 ≤ ((s.set id map).mem v).ctxRefs
    rcases cases v with ⟨hmap, -⟩ | hmap <;> rw [hmap]
    · exact ctx
    · exact h.ctx v
  · change ((s.set id map).mem v).refs = 0
    rcases cases v with ⟨hmap, rfl⟩ | hmap <;> rw [hmap]
    · exact known.resolve_right (Nat.not_lt_of_le hv)
    · exact h.fresh v hv

theorem tallied_set (h : Tallied s) (refs : 0 ≤ map.refs) (ctx : 0 ≤ map.ctxRefs)
    (known : map.refs = 0 ∨ id < s.next) : Tallied (s.set id map) :=
  tallied_change h refs ctx known s.linked h.freed

theorem tallied_freed (h : Tallied s) (known : id < s.next) :
    Tallied { s.set id ((s.mem id).withRefs 0 0) with
      linked := s.linked.erase id
      freed := id :: s.freed } := by
  refine tallied_change h (Int.le_refl 0) (Int.le_refl 0) (Or.inl rfl) _ fun v hv => ?_
  rcases List.mem_cons.mp hv with rfl | hold
  · exact known
  · exact h.freed v hold

/-- A new map, which may already be discarded. -/
theorem tallied_alloc (h : Tallied s) (map : VfastrpcMmap) (refs : 0 ≤ map.refs)
    (ctx : 0 ≤ map.ctxRefs) (linked : List MapId) {freed : List MapId}
    (old : ∀ v ∈ freed, v < s.next + 1) :
    Tallied { s.set s.next map with next := s.next + 1, linked := linked, freed := freed } := by
  have later : Tallied { s with next := s.next + 1 } :=
    ⟨h.refs, h.ctx, fun v hv => h.fresh v (Nat.le_of_succ_le hv),
      fun v hv => Nat.lt_succ_of_lt (h.freed v hv)⟩
  exact tallied_change later refs ctx (Or.inr (Nat.lt_succ_self s.next)) linked old

theorem tallied_free (h : Tallied s) (id : MapId) (force : Bool) :
    Tallied (mmapFree s (some id) force) := by
  have outcome := mmapFree_freeing s id force
  generalize mmapFree s (some id) force = r at outcome ⊢
  cases outcome with
  | refused why => exact h
  | dropped refs ctx kept left =>
    exact tallied_set h (by simp only [withRefs_refs]; omega) ctx (Or.inr (h.known refs))
  | freed plain refs ctx last => exact tallied_freed h (h.known refs)

theorem fewer_nonneg {ctxRefs : Int} (h : 0 ≤ ctxRefs) : 0 ≤ fewer ctxRefs := by
  unfold fewer
  split_ifs <;> omega

theorem tallied_release (h : Tallied s) (slot : Option MapId) : Tallied (ctxRelease s slot) := by
  cases slot with
  | none => exact h
  | some id =>
    have ctx := fewer_nonneg (h.ctx id)
    have outcome := ctxRelease_releasing s id
    generalize ctxRelease s (some id) = r at outcome ⊢
    cases outcome with
    | refused why => exact tallied_set h (h.refs id) ctx (h.zero_or_known id)
    | dropped refs ctx' left =>
      exact tallied_set h (by simp only [withRefs_refs]; omega) ctx (Or.inr (h.known refs))
    | freed plain refs ctx' => exact tallied_freed h (h.known (by omega))

theorem tallied_add (h : Tallied s) (id : MapId) : Tallied (mmapAdd s id) := by
  unfold mmapAdd
  split_ifs
  · exact h
  · exact ⟨h.refs, h.ctx, h.fresh, h.freed⟩

/-- A map that is abandoned keeps counts that are not negative. -/
theorem tallied_create (h : Tallied s) (listed : Listed s) (req : MapRequest) (dma : DmaOutcome) :
    Tallied (mmapCreate k s req dma).2 := by
  cases hfind : mmapFind s req.fd req.va req.len req.mflags true with
  | ok found =>
    obtain ⟨hid, hcases⟩ := mmapFind_ok hfind
    have refs := h.refs found.1
    simp only [mmapCreate, hfind]
    rcases hcases with ⟨hfalse, -⟩ | ⟨-, -, hset⟩
    · cases hfalse
    · rw [hset]
      exact tallied_set h (by simp only [withRefs_refs]; omega) (h.ctx found.1)
        (Or.inr (listed.known found.1 hid))
  | error err =>
    obtain ⟨refs, hmap, hrefs⟩ := initialMap_eq k req
    have nonneg : 0 ≤ refs := by omega
    rw [mmapCreate_new dma hfind, hmap]
    have alloc := tallied_alloc h ⟨req.fd, req.mflags, 0, 0, 0, refs, req.attr, 0⟩ nonneg
      (Int.le_refl 0) s.linked fun v hv => Nat.lt_succ_of_lt (h.freed v hv)
    split
    · exact h
    dsimp only
    split
    · exact tallied_free alloc _ _
    split
    · refine tallied_add ?_ _
      exact tallied_set alloc nonneg (Int.le_refl 0) (Or.inr (Nat.lt_succ_self s.next))
    · exact tallied_free alloc _ _

theorem tallied_ctxMap (h : Tallied s) (listed : Listed s) (req : MapRequest) (dma : DmaOutcome) :
    Tallied (ctxMap k s req dma).2 := by
  have created := tallied_create (k := k) h listed req dma
  have kept := kept_creating listed (mmapCreate_creating k s req dma)
  have old := mmapCreate_creating k s req dma
  unfold ctxMap
  generalize mmapCreate k s req dma = r at created kept old ⊢
  obtain ⟨result, u⟩ := r
  cases result with
  | error err => exact created
  | ok id =>
    have linked : id ∈ u.linked := by
      cases old with
      | found hid room => exact hid
      | created plain refs ctx => exact List.mem_cons_self
    have ctx : 0 ≤ (u.mem id).ctxRefs := created.ctx id
    exact tallied_set created (created.refs id) (by dsimp only; omega)
      (Or.inr (kept.listed.known id linked))

theorem tallied_ctxMoves (h : Tallied s) (listed : Listed s) (moves : CtxMoves k s t) :
    Tallied t := by
  induction moves with
  | refl => exact h
  | take moves req dma ih => exact tallied_ctxMap ih (kept_ctxMoves listed moves).listed req dma
  | release _ slot ih => exact tallied_release ih slot

theorem tallied_removeFdLoop (h : Tallied s) (fd : Int) (ids : List MapId) (err : Int)
    (entries : Nat) : Tallied (removeFdLoop k fd ids err entries s).2.2 := by
  induction ids generalizing s err entries with
  | nil => exact h
  | cons id rest ih =>
    unfold removeFdLoop
    dsimp only
    split
    · exact ih (tallied_free h id false) _ _
    · exact ih h _ _

theorem tallied_remove {fd : Int} {va len : UInt64} (h : Tallied s) (listed : Listed s)
    (removed : mmapRemove k s fd va len = .ok (id, t)) : Tallied t := by
  obtain ⟨hid, -, refs, rfl, hrefs⟩ := mmapRemove_ok removed
  refine tallied_change h ?_ (Int.le_refl 0) (Or.inr (listed.known id hid)) _ h.freed
  rw [withRefs_refs]
  omega

end maps

variable {k : Uapi} {s t : File} {a : Action}

theorem tallied_call {maps : Maps} {op : Option Op} (h : Tallied s.maps) (listed : Listed s.maps)
    (moves : CallMoves k s.maps maps op) : Tallied maps := by
  have creates : ∀ req dma r, mmapCreate k s.maps req dma = (r, maps) → Tallied maps := by
    intro req dma r hr
    have created := tallied_create (k := k) h listed req dma
    rw [hr] at created
    exact created
  cases moves with
  | mmap created => exact creates _ _ _ created
  | memMap created => exact creates _ _ _ created
  | failed failed => exact creates _ _ _ failed
  | munmap removed => exact tallied_remove h listed removed
  | memUnmap removed => exact tallied_remove h listed removed

theorem tallied_finish {ok : Bool} {maps : Maps} (h : Tallied s.maps) (listed : FileListed s)
    (moves : FinishMoves k s ok maps) : Tallied maps := by
  cases moves with
  | mapped raddr op =>
    rename_i id
    exact tallied_set h (h.refs id) (h.ctx id) (h.zero_or_known id)
  | unmapped op => exact tallied_free h _ _
  | removed op => exact tallied_free h _ _
  | putBack op failed => exact tallied_add h _
  | restored op failed =>
    rename_i id
    have known := (listed.taken id (by rw [op]; rfl)).2
    have refs := h.refs id
    refine tallied_add ?_ _
    split_ifs
    · exact tallied_set h (by dsimp only; omega) (h.ctx id) (Or.inr known)
    · exact h

theorem step_tallied (h : Tallied s.maps) (listed : FileListed s)
    (hstep : step k s a = some t) : Tallied t.maps := by
  have moves := step_mapMoves hstep
  generalize t.maps = maps at moves ⊢
  generalize t.op = op at moves
  cases moves with
  | ctx moves => exact tallied_ctxMoves h listed.maps moves
  | other free => exact h
  | call idle moves => exact tallied_call h listed.maps moves
  | removesFd idle action fresh free => exact tallied_removeFdLoop h _ _ 0 0
  | finish action moves => exact tallied_finish h listed moves

/-- What every reachable state of a file has. -/
structure Sane (s : File) : Prop where
  listed : FileListed s
  tallied : Tallied s.maps

theorem opened_sane : Sane File.opened where
  listed := opened_listed
  tallied := ⟨fun _ => Int.le_refl 0, fun _ => Int.le_refl 0, fun _ _ => rfl,
    fun _ h => by cases h⟩

theorem step_sane (h : Sane s) (hstep : step k s a = some t) : Sane t :=
  ⟨(step_onward h.listed hstep).listed, step_tallied h.tallied h.listed hstep⟩

theorem run_sane {as : List Action} (run : exec (step k) File.opened as = some s) : Sane s :=
  exec_invariant (fun _ _ _ h hstep => step_sane h hstep) opened_sane run

end MapTallies
