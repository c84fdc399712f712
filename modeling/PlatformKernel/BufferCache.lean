import PlatformKernel.FileBuffers
import PlatformKernel.FileRelease

/-!
# The buffer cache of a file

Every call of `vfastrpc_buf_alloc` and `vfastrpc_buf_free` on a file, each a critical
section of its own: `get_args` stages buffers for a context, `context_free` gives them
back one by one with the cache flag, the pages of the DSP heap come and go without it,
and closing the file drains the cache and the pages. The buffers in use by contexts are
listed with their context.
-/

namespace BufferCache

open GuardedRuns FileMaps FileOperations FileMoves FileLists FileRelease

structure State where
  file : File
  staged : List (CtxId × BufId)

def State.opened : State := ⟨File.opened, []⟩

inductive Action where
  | stage (c : CtxId) (size : UInt64) (ok : Bool)
  | release (c : CtxId) (b : BufId)
  | addPages (size : UInt64) (flags : UInt32) (ok : Bool)
  | mapPages (b : BufId) (raddr : UInt64)
  | freePages (b : BufId)
  | drainCached
  | drainRemote

def step (s : State) : Action → Option State
  | .stage c size ok =>
    match bufAlloc s.file size 0 false ok with
    | some (b, t) => some ⟨t, (c, b) :: s.staged⟩
    | none => some s
  | .release c b =>
    if (c, b) ∈ s.staged then some ⟨bufFree s.file b true, s.staged.erase (c, b)⟩ else none
  | .addPages size flags ok =>
    match bufAlloc s.file size flags true ok with
    | some (_, t) => some ⟨t, s.staged⟩
    | none => some s
  | .mapPages b raddr =>
    some ⟨{ s.file with
      bufs := Function.update s.file.bufs b { s.file.bufs b with raddr := raddr } }, s.staged⟩
  | .freePages b =>
    if b ∈ s.file.remoteBufs then some ⟨bufFree s.file b false, s.staged⟩ else none
  | .drainCached => (nextCached s.file).map fun t => ⟨t, s.staged⟩
  | .drainRemote => (nextRemote s.file).map fun t => ⟨t, s.staged⟩

def users (s : State) : List BufId := s.staged.map Prod.snd

def places (s : State) : List BufId :=
  s.file.cached ++ s.file.freedBufs ++ s.file.remoteBufs ++ users s

structure CacheOk (s : State) : Prop where
  distinct : Distinct (places s) s.file.nextBuf
  remote : ∀ b ∈ s.file.remoteBufs, (s.file.bufs b).remote = true
  here : ∀ b ∈ s.file.cached ++ users s, (s.file.bufs b).remote = false
  count : s.file.numCached = s.file.cached.length
  small : ∀ b ∈ s.file.cached, (s.file.bufs b).size < maxCacheBufSize

theorem opened_ok : CacheOk State.opened where
  distinct := ⟨List.nodup_nil, fun b hb => by cases hb⟩
  remote := fun b hb => by cases hb
  here := fun b hb => by cases hb
  count := rfl
  small := fun b hb => by cases hb

theorem mem_places {s : State} {b : BufId} : b ∈ places s ↔ b ∈ s.file.cached ∨
    b ∈ s.file.freedBufs ∨ b ∈ s.file.remoteBufs ∨ b ∈ users s := by
  simp [places]

section operations

variable {s : State}

/-- A new buffer leaves the ones there are alone. -/
theorem bufs_older (h : CacheOk s) (buf : VfastrpcBuf) {b : BufId} (hb : b ∈ places s) :
    Function.update s.file.bufs s.file.nextBuf buf b = s.file.bufs b :=
  Function.update_of_ne (Nat.ne_of_lt (h.distinct.known b hb)) _ _

/-- The cache gives a buffer to a context. -/
theorem takes_ok (h : CacheOk s) {b : BufId} (hb : b ∈ s.file.cached) (c : CtxId) :
    CacheOk ⟨{ s.file with cached := s.file.cached.erase b, numCached := s.file.numCached - 1 },
      (c, b) :: s.staged⟩ where
  distinct := by
    refine h.distinct.perm (List.perm_iff_count.mpr fun x => ?_)
    have taken := (List.perm_cons_erase hb).count_eq x
    simp only [places, users, List.map_cons, List.count_append, List.count_cons] at taken ⊢
    omega
  remote := h.remote
  here := by
    intro x hx
    simp only [users, List.map_cons, List.mem_append, List.mem_cons] at hx
    rcases hx with hx | rfl | hx
    · exact h.here x (List.mem_append_left _ (List.mem_of_mem_erase hx))
    · exact h.here x (List.mem_append_left _ hb)
    · exact h.here x (List.mem_append_right _ hx)
  count := by
    have most := List.length_pos_of_mem hb
    have less := List.length_erase_of_mem hb
    have same := h.count
    simp only
    omega
  small := fun x hx => h.small x (List.mem_of_mem_erase hx)

/-- A new buffer for a context or for the DSP heap. -/
theorem makes_ok (h : CacheOk s) (size : UInt64) (rflags : UInt32) :
    (∀ c, CacheOk ⟨(bufNew s.file size rflags false).2, (c, s.file.nextBuf) :: s.staged⟩) ∧
      CacheOk ⟨(bufNew s.file size rflags true).2, s.staged⟩ := by
  have cached : ∀ b ∈ s.file.cached, b ∈ places s := fun b hb => mem_places.mpr (Or.inl hb)
  have remote : ∀ b ∈ s.file.remoteBufs, b ∈ places s :=
    fun b hb => mem_places.mpr (Or.inr (Or.inr (Or.inl hb)))
  have used : ∀ b ∈ users s, b ∈ places s :=
    fun b hb => mem_places.mpr (Or.inr (Or.inr (Or.inr hb)))
  constructor
  · intro c
    refine ⟨h.distinct.fresh.perm List.perm_middle, fun b hb => ?_, fun b hb => ?_, h.count,
      fun b hb => ?_⟩
    · exact (congrArg VfastrpcBuf.remote (bufs_older h _ (remote b hb))).trans (h.remote b hb)
    · simp only [users, List.map_cons, List.mem_append, List.mem_cons] at hb
      rcases hb with hb | rfl | hb
      · exact (congrArg VfastrpcBuf.remote (bufs_older h _ (cached b hb))).trans
          (h.here b (List.mem_append_left _ hb))
      · simp [bufNew]
      · exact (congrArg VfastrpcBuf.remote (bufs_older h _ (used b hb))).trans
          (h.here b (List.mem_append_right _ hb))
    · exact (congrArg VfastrpcBuf.size (bufs_older h _ (cached b hb))).symm ▸ h.small b hb
  · refine ⟨h.distinct.fresh.perm (List.perm_middle.append_right (users s)), fun b hb => ?_,
      fun b hb => ?_, h.count, fun b hb => ?_⟩
    · rcases List.mem_cons.mp hb with rfl | hb
      · simp [bufNew]
      · exact (congrArg VfastrpcBuf.remote (bufs_older h _ (remote b hb))).trans (h.remote b hb)
    · refine (congrArg VfastrpcBuf.remote (bufs_older h _ ?_)).trans (h.here b hb)
      rcases List.mem_append.mp hb with hb | hb
      · exact cached b hb
      · exact used b hb
    · exact (congrArg VfastrpcBuf.size (bufs_older h _ (cached b hb))).symm ▸ h.small b hb

/-- A context gives its buffer back: it is cached, or freed if it is big or the cache full. -/
theorem releases_ok (h : CacheOk s) {c : CtxId} {b : BufId} (held : (c, b) ∈ s.staged) :
    CacheOk ⟨bufFree s.file b true, s.staged.erase (c, b)⟩ := by
  have used : b ∈ users s := List.mem_map.mpr ⟨(c, b), held, rfl⟩
  have hlocal := h.here b (List.mem_append_right _ used)
  have perm : (users s).Perm (b :: (s.staged.erase (c, b)).map Prod.snd) :=
    (List.perm_cons_erase held).map Prod.snd
  have left : ∀ x ∈ (s.staged.erase (c, b)).map Prod.snd, x ∈ users s :=
    fun x hx => perm.mem_iff.mpr (List.mem_cons_of_mem _ hx)
  have dropped : CacheOk ⟨bufDrop s.file b, s.staged.erase (c, b)⟩ := by
    have drops : bufDrop s.file b = { s.file with freedBufs := b :: s.file.freedBufs } := by
      simp [bufDrop, hlocal]
    rw [drops]
    refine ⟨h.distinct.perm (List.perm_iff_count.mpr fun x => ?_), h.remote, fun x hx => ?_,
      h.count, h.small⟩
    · have moved := perm.count_eq x
      simp only [places, users, List.count_append, List.count_cons] at moved ⊢
      omega
    · rcases List.mem_append.mp hx with hx | hx
      · exact h.here x (List.mem_append_left _ hx)
      · exact h.here x (List.mem_append_right _ (left x hx))
  unfold bufFree
  split_ifs with cacheable full
  · exact dropped
  · refine ⟨h.distinct.perm (List.perm_iff_count.mpr fun x => ?_), h.remote, fun x hx => ?_, ?_,
      fun x hx => ?_⟩
    · have moved := perm.count_eq x
      simp only [places, users, List.count_append, List.count_cons] at moved ⊢
      omega
    · rcases List.mem_append.mp hx with hx | hx
      · rcases List.mem_cons.mp hx with rfl | hx
        · exact hlocal
        · exact h.here x (List.mem_append_left _ hx)
      · exact h.here x (List.mem_append_right _ (left x hx))
    · have same := h.count
      simp only [List.length_cons]
      omega
    · rcases List.mem_cons.mp hx with rfl | hx
      · exact cacheable.2
      · exact h.small x hx
  · exact dropped

theorem mapsPages_ok (h : CacheOk s) (b : BufId) (raddr : UInt64) :
    CacheOk ⟨{ s.file with
      bufs := Function.update s.file.bufs b { s.file.bufs b with raddr := raddr } }, s.staged⟩ := by
  have remote (x : BufId) : (Function.update s.file.bufs b
      { s.file.bufs b with raddr := raddr } x).remote = (s.file.bufs x).remote := by
    by_cases hx : x = b
    · rw [hx, Function.update_self]
    · rw [Function.update_of_ne hx]
  have size := FileBuffers.update_size s.file.bufs b { s.file.bufs b with raddr := raddr } rfl
  exact ⟨h.distinct, fun x hx => (remote x).trans (h.remote x hx),
    fun x hx => (remote x).trans (h.here x hx), h.count, fun x hx => (size x).symm ▸ h.small x hx⟩

/-- Pages of the DSP heap are freed, never cached. -/
theorem freesPages_ok (h : CacheOk s) {b : BufId} (pages : b ∈ s.file.remoteBufs) :
    CacheOk ⟨bufFree s.file b false, s.staged⟩ := by
  have frees : bufFree s.file b false = { s.file with
      remoteBufs := s.file.remoteBufs.erase b
      bufs := Function.update s.file.bufs b { s.file.bufs b with remote := false, raddr := 0 }
      freedBufs := b :: s.file.freedBufs } := by
    simp [bufFree, bufDrop, h.remote b pages]
  have nodup : s.file.remoteBufs.Nodup :=
    (List.nodup_append.mp (List.nodup_append.mp h.distinct.nodup).1).2.1
  rw [frees]
  refine ⟨h.distinct.perm (List.perm_iff_count.mpr fun x => ?_), fun x hx => ?_, fun x hx => ?_,
    h.count, fun x hx => ?_⟩
  · have moved := (List.perm_cons_erase pages).count_eq x
    simp only [places, users, List.count_append, List.count_cons] at moved ⊢
    omega
  · obtain ⟨other, hx⟩ := nodup.mem_erase_iff.mp hx
    simp only [Function.update_of_ne other]
    exact h.remote x hx
  · have other : x ≠ b := by
      rintro rfl
      have := (h.here x hx).symm.trans (h.remote x pages)
      cases this
    simp only [Function.update_of_ne other]
    exact h.here x hx
  · have size := FileBuffers.update_size s.file.bufs b
      { s.file.bufs b with remote := false, raddr := 0 } rfl x
    exact size.symm ▸ h.small x hx

/-- Closing the file frees what is cached. -/
theorem drains_ok (h : CacheOk s) {b : BufId} {rest : List BufId}
    (first : s.file.cached = b :: rest) :
    CacheOk ⟨bufFree { s.file with cached := rest, numCached := s.file.numCached - 1 } b false,
      s.staged⟩ := by
  have hlocal := h.here b (by rw [first]; exact List.mem_cons_self)
  have frees : bufFree { s.file with cached := rest, numCached := s.file.numCached - 1 } b false =
      { s.file with
        cached := rest
        numCached := s.file.numCached - 1
        freedBufs := b :: s.file.freedBufs } := by
    simp [bufFree, bufDrop, hlocal]
  have still : ∀ x ∈ rest, x ∈ s.file.cached := by
    intro x hx
    rw [first]
    exact List.mem_cons_of_mem b hx
  rw [frees]
  refine ⟨h.distinct.perm (List.perm_iff_count.mpr fun x => ?_), h.remote, fun x hx => ?_, ?_,
    fun x hx => h.small x (still x hx)⟩
  · simp only [places, users, first, List.count_append, List.count_cons]
    omega
  · rcases List.mem_append.mp hx with hx | hx
    · exact h.here x (List.mem_append_left _ (still x hx))
    · exact h.here x (List.mem_append_right _ hx)
  · have same := h.count
    rw [first, List.length_cons] at same
    simp only
    omega

end operations

theorem step_ok {s t : State} {a : Action} (h : CacheOk s) (hstep : step s a = some t) :
    CacheOk t := by
  cases a with
  | stage c size ok =>
    simp only [step] at hstep
    split at hstep
    · rename_i b file alloc
      obtain rfl := Option.some.inj hstep
      rcases bufAlloc_some alloc with ⟨-, hb, rfl⟩ | ⟨rfl, rfl⟩
      · exact takes_ok h hb c
      · exact (makes_ok h size 0).1 c
    · obtain rfl := Option.some.inj hstep
      exact h
  | release c b =>
    simp only [step] at hstep
    split_ifs at hstep with held
    obtain rfl := Option.some.inj hstep
    exact releases_ok h held
  | addPages size flags ok =>
    simp only [step] at hstep
    split at hstep
    · rename_i b file alloc
      obtain rfl := Option.some.inj hstep
      rcases bufAlloc_some alloc with ⟨remote, -⟩ | ⟨-, rfl⟩
      · cases remote
      · exact (makes_ok h size flags).2
    · obtain rfl := Option.some.inj hstep
      exact h
  | mapPages b raddr =>
    obtain rfl := Option.some.inj hstep
    exact mapsPages_ok h b raddr
  | freePages b =>
    simp only [step] at hstep
    split_ifs at hstep with pages
    obtain rfl := Option.some.inj hstep
    exact freesPages_ok h pages
  | drainCached =>
    obtain ⟨file, next, rfl⟩ := Option.map_eq_some_iff.mp hstep
    unfold nextCached at next
    split at next
    · cases next
    · rename_i b rest first
      obtain rfl := Option.some.inj next
      exact drains_ok h first
  | drainRemote =>
    obtain ⟨file, next, rfl⟩ := Option.map_eq_some_iff.mp hstep
    unfold nextRemote at next
    split at next
    · cases next
    · rename_i b rest first
      obtain rfl := Option.some.inj next
      exact freesPages_ok h (by rw [first]; exact List.mem_cons_self)

theorem run_ok {s : State} {as : List Action} (run : exec step State.opened as = some s) :
    CacheOk s :=
  exec_invariant (fun _ _ _ h hstep => step_ok h hstep) opened_ok run

/-- The smallest cached buffer that is large enough is taken out, and nothing else happens. -/
def ServesBest (s : File) (size : UInt64) (rflags : UInt32) (ok : Bool) : Prop :=
  ∃ b ∈ s.cached, size ≤ (s.bufs b).size ∧
    (∀ x ∈ s.cached, size ≤ (s.bufs x).size → (s.bufs b).size ≤ (s.bufs x).size) ∧
    bufAlloc s size rflags false ok =
      some (b, { s with cached := s.cached.erase b, numCached := s.numCached - 1 }) ∧
    ∀ x, x ∈ s.cached.erase b ↔ x ∈ s.cached ∧ x ≠ b

structure Cached (s : State) : Prop where
  count : s.file.numCached = s.file.cached.length
  small : ∀ b ∈ s.file.cached, (s.file.bufs b).size < maxCacheBufSize
  unused : ∀ b ∈ s.file.cached, ∀ c, (c, b) ∉ s.staged
  once : s.file.cached.Nodup
  alive : ∀ b ∈ s.file.cached, b ∉ s.file.freedBufs
  serves : ∀ size rflags ok, 0 < size → (∃ b ∈ s.file.cached, size ≤ (s.file.bufs b).size) →
    ServesBest s.file size rflags ok

theorem bufAlloc_serves {s : File} (once : s.cached.Nodup) {size : UInt64} (positive : 0 < size)
    (fitting : ∃ b ∈ s.cached, size ≤ (s.bufs b).size) (rflags : UInt32) (ok : Bool) :
    ServesBest s size rflags ok := by
  have spec := bestFit_spec s size
  obtain ⟨x, hx, fits⟩ := fitting
  obtain ⟨b, found, -⟩ := spec.best x hx fits
  have nonzero : size ≠ 0 := (UInt64.ne_of_lt positive).symm
  refine ⟨b, (spec.found b found).1, (spec.found b found).2, fun y hy fits => ?_, ?_, fun y => ?_⟩
  · obtain ⟨f, hf, most⟩ := spec.best y hy fits
    obtain rfl := Option.some.inj (found.symm.trans hf)
    exact most
  · have found : bestFit s size = some b := found
    simp [bufAlloc, nonzero, found]
  · rw [once.mem_erase_iff, and_comm]

theorem CacheOk.cached {s : State} (h : CacheOk s) : Cached s := by
  have parts := List.nodup_append.mp h.distinct.nodup
  have lists := List.nodup_append.mp (List.nodup_append.mp parts.1).1
  refine ⟨h.count, h.small, fun b hb c held => ?_, lists.1, fun b hb freed => ?_, ?_⟩
  · have used : b ∈ users s := List.mem_map.mpr ⟨(c, b), held, rfl⟩
    exact parts.2.2 b (List.mem_append_left _ (List.mem_append_left _ hb)) b used rfl
  · exact lists.2.2 b hb b freed rfl
  · intro size rflags ok positive fitting
    exact bufAlloc_serves lists.1 positive fitting rflags ok

/-- Whatever the callers do, the cache keeps its promises. -/
theorem buffer_cache_kept (as : List Action) (s : State)
    (run : exec step State.opened as = some s) : Cached s :=
  (run_ok run).cached

/-- Three staged buffers, of which one is too big for the cache, then two given back. -/
def stagedCall : List Action :=
  [.stage 7 0x3000 true, .stage 7 0x1000 true, .stage 8 0x800000 true, .addPages 0x1000 0x1000 true,
    .release 7 0, .release 8 2, .release 7 1]

theorem stagedCall_kept : ∃ s, exec step State.opened stagedCall = some s ∧
    s.file.cached = [1, 0] ∧ s.file.freedBufs = [2] ∧ Cached s :=
  ⟨_, rfl, rfl, rfl, buffer_cache_kept stagedCall _ rfl⟩

/-- `PAGE_ALIGN` of a length near the end of the address space is zero, and a request for
nothing is refused although the cache has a buffer. -/
theorem empty_request_refused : ∃ s, exec step State.opened stagedCall = some s ∧
    (∃ b ∈ s.file.cached, InvokeMessage.pageAlign 0xfffffffffffffff0 ≤ (s.file.bufs b).size) ∧
    bufAlloc s.file (InvokeMessage.pageAlign 0xfffffffffffffff0) 0 false true = none :=
  ⟨_, rfl, ⟨1, List.mem_cons_self, by decide⟩, by decide⟩

/-- A buffer that goes to the cache finds room in it. -/
def Room (s : State) : Action → Prop
  | .release _ b => (s.file.bufs b).size < maxCacheBufSize → s.file.cached.length < maxCachedBufs
  | _ => True

instance (s : State) (a : Action) : Decidable (Room s a) :=
  match a with
  | .release _ _ => inferInstanceAs (Decidable (_ → _))
  | .stage _ _ _ => isTrue trivial
  | .addPages _ _ _ => isTrue trivial
  | .mapPages _ _ => isTrue trivial
  | .freePages _ => isTrue trivial
  | .drainCached => isTrue trivial
  | .drainRemote => isTrue trivial

/-- The step leaves at most `MAX_CACHED_BUFS` buffers in the cache. -/
def Bounded (s : State) (a : Action) : Prop :=
  ∀ t, step s a = some t → t.file.cached.length ≤ maxCachedBufs

theorem bufDrop_cached (s : File) (b : BufId) : (bufDrop s b).cached = s.cached := by
  unfold bufDrop
  split_ifs <;> rfl

/-- One buffer more than `MAX_CACHED_BUFS` is taken. -/
theorem release_length {s : State} (h : CacheOk s) (b : BufId) :
    (bufFree s.file b true).cached.length = s.file.cached.length +
      if (s.file.bufs b).size < maxCacheBufSize ∧ s.file.cached.length ≤ maxCachedBufs then 1
      else 0 := by
  have same := h.count
  simp only [bufFree, true_and]
  by_cases small : (s.file.bufs b).size < maxCacheBufSize
  · by_cases full : maxCachedBufs < s.file.numCached
    · rw [if_pos small, if_pos full, if_neg (by omega), bufDrop_cached, Nat.add_zero]
    · rw [if_pos small, if_neg full, if_pos ⟨small, by omega⟩, List.length_cons]
  · rw [if_neg small, if_neg fun both => small both.1, bufDrop_cached, Nat.add_zero]

/-- Only buffers that contexts give back make the cache longer. -/
theorem step_length {s t : State} {a : Action} (hstep : step s a = some t) :
    (∃ c b, a = .release c b) ∨ Room s a ∧ t.file.cached.length ≤ s.file.cached.length := by
  cases a with
  | stage c size ok =>
    refine Or.inr ⟨trivial, ?_⟩
    simp only [step] at hstep
    split at hstep
    · rename_i b file alloc
      obtain rfl := Option.some.inj hstep
      rcases bufAlloc_some alloc with ⟨-, hb, rfl⟩ | ⟨rfl, rfl⟩
      · exact List.length_erase_le
      · exact Nat.le_refl _
    · obtain rfl := Option.some.inj hstep
      exact Nat.le_refl _
  | release c b => exact Or.inl ⟨c, b, rfl⟩
  | addPages size flags ok =>
    refine Or.inr ⟨trivial, ?_⟩
    simp only [step] at hstep
    split at hstep
    · rename_i b file alloc
      obtain rfl := Option.some.inj hstep
      rcases bufAlloc_some alloc with ⟨remote, -⟩ | ⟨-, rfl⟩
      · cases remote
      · exact Nat.le_refl _
    · obtain rfl := Option.some.inj hstep
      exact Nat.le_refl _
  | mapPages b raddr =>
    refine Or.inr ⟨trivial, ?_⟩
    obtain rfl := Option.some.inj hstep
    exact Nat.le_refl _
  | freePages b =>
    refine Or.inr ⟨trivial, ?_⟩
    simp only [step] at hstep
    split_ifs at hstep with pages
    obtain rfl := Option.some.inj hstep
    simp [bufFree, bufDrop_cached]
  | drainCached =>
    refine Or.inr ⟨trivial, ?_⟩
    obtain ⟨file, next, rfl⟩ := Option.map_eq_some_iff.mp hstep
    unfold nextCached at next
    split at next
    · cases next
    · rename_i b rest first
      obtain rfl := Option.some.inj next
      simp [bufFree, bufDrop_cached, first]
  | drainRemote =>
    refine Or.inr ⟨trivial, ?_⟩
    obtain ⟨file, next, rfl⟩ := Option.map_eq_some_iff.mp hstep
    unfold nextRemote at next
    split at next
    · cases next
    · obtain rfl := Option.some.inj next
      simp [bufFree, bufDrop_cached]

theorem release_some {s t : State} {c : CtxId} {b : BufId}
    (hstep : step s (.release c b) = some t) : t.file = bufFree s.file b true := by
  simp only [step] at hstep
  split_ifs at hstep
  obtain rfl := Option.some.inj hstep
  rfl

/-- From a cache within the bound, a step stays within it exactly if it finds room. -/
theorem bounded_iff_room {s t : State} {a : Action} (h : CacheOk s)
    (bound : s.file.cached.length ≤ maxCachedBufs) (hstep : step s a = some t) :
    Bounded s a ↔ Room s a := by
  rcases step_length hstep with ⟨c, b, rfl⟩ | ⟨room, shorter⟩
  · have length := release_length h b
    constructor
    · intro bounded small
      have most := bounded t hstep
      rw [release_some hstep, length, if_pos ⟨small, bound⟩] at most
      push_cast at most
      omega
    · intro room u hu
      rw [release_some hu, length]
      by_cases small : (s.file.bufs b).size < maxCacheBufSize
      · have := room small
        rw [if_pos ⟨small, bound⟩]
        push_cast
        omega
      · rw [if_neg fun both => small both.1]
        exact bound
  · constructor
    · exact fun _ => room
    · intro _ u hu
      obtain rfl := Option.some.inj (hstep.symm.trans hu)
      omega

/-- The cache holds one buffer more than it should at most. -/
theorem run_length {s : State} {as : List Action} (run : exec step State.opened as = some s) :
    s.file.cached.length ≤ maxCachedBufs + 1 := by
  have preserved : ∀ s a t, CacheOk s ∧ s.file.cached.length ≤ maxCachedBufs + 1 →
      step s a = some t → CacheOk t ∧ t.file.cached.length ≤ maxCachedBufs + 1 := by
    rintro s a t ⟨ok, most⟩ hstep
    refine ⟨step_ok ok hstep, ?_⟩
    rcases step_length hstep with ⟨c, b, rfl⟩ | ⟨-, shorter⟩
    · rw [release_some hstep, release_length ok b]
      push_cast
      split_ifs <;> omega
    · omega
  exact (exec_invariant preserved ⟨opened_ok, by decide⟩ run).2

/-- The cache stays within the bound as long as each buffer given back finds room. -/
theorem cache_bounded_iff (as : List Action) (s : State)
    (run : exec step State.opened as = some s) :
    Along step Bounded State.opened as ↔ Along step Room State.opened as :=
  along_iff (fun s => CacheOk s ∧ s.file.cached.length ≤ maxCachedBufs)
    (fun _ _ _ h hstep => bounded_iff_room h.1 h.2 hstep)
    (fun _ _ t h bounded hstep => ⟨step_ok h.1 hstep, bounded t hstep⟩)
    ⟨opened_ok, by decide⟩ run

/-- `n` buffers of one page are staged for a context and given back. -/
def stagedPages (n : Nat) : List Action :=
  (List.range n).map (fun _ => .stage 0 0x1000 true) ++ (List.range n).map fun b => .release 0 b

theorem stagedPages_bounded : ∃ s, exec step State.opened (stagedPages 32) = some s ∧
    Along step Bounded State.opened (stagedPages 32) := by
  have ends : (exec step State.opened (stagedPages 32)).isSome = true := by decide +kernel
  obtain ⟨s, run⟩ := Option.isSome_iff_exists.mp ends
  exact ⟨s, run, (cache_bounded_iff (stagedPages 32) s run).mpr (by decide +kernel)⟩

/-- The cache takes 33 buffers. -/
theorem cache_overfull : ((exec step State.opened (stagedPages 33)).map fun s =>
    s.file.cached.length) = some 33 := by
  decide +kernel

/-- The buffers of two files agree. -/
structure SameBuffers (s s' : File) : Prop where
  bufs : s'.bufs = s.bufs
  cached : s'.cached = s.cached
  numCached : s'.numCached = s.numCached
  remoteBufs : s'.remoteBufs = s.remoteBufs
  freedBufs : s'.freedBufs = s.freedBufs
  nextBuf : s'.nextBuf = s.nextBuf

theorem SameBuffers.refl (s : File) : SameBuffers s s := ⟨rfl, rfl, rfl, rfl, rfl, rfl⟩

theorem SameBuffers.framed {s t u : File} (h : SameBuffers t u) (frame : SameBuffers s t) :
    SameBuffers s u :=
  ⟨h.bufs.trans frame.bufs, h.cached.trans frame.cached, h.numCached.trans frame.numCached,
    h.remoteBufs.trans frame.remoteBufs, h.freedBufs.trans frame.freedBufs,
    h.nextBuf.trans frame.nextBuf⟩

section calls

variable {s s' : File}

theorem bufDrop_same (h : SameBuffers s s') (b : BufId) :
    SameBuffers (bufDrop s b) (bufDrop s' b) := by
  unfold bufDrop
  rw [h.bufs]
  split_ifs
  · exact ⟨rfl, h.cached, h.numCached, by simp only [h.remoteBufs], by simp only [h.freedBufs],
      h.nextBuf⟩
  · exact ⟨rfl, h.cached, h.numCached, h.remoteBufs, by simp only [h.freedBufs], h.nextBuf⟩

theorem bufFree_same (h : SameBuffers s s') (b : BufId) (cache : Bool) :
    SameBuffers (bufFree s b cache) (bufFree s' b cache) := by
  unfold bufFree
  rw [h.bufs, h.numCached]
  split_ifs
  · exact bufDrop_same h b
  · exact ⟨rfl, by simp only [h.cached], rfl, h.remoteBufs, h.freedBufs, h.nextBuf⟩
  · exact bufDrop_same h b

theorem bufFrees_same (h : SameBuffers s s') (bs : List BufId) :
    SameBuffers (bs.foldl (fun s b => bufFree s b true) s)
      (bs.foldl (fun s b => bufFree s b true) s') := by
  induction bs generalizing s s' with
  | nil => exact h
  | cons b rest ih => exact ih (bufFree_same h b true)

theorem bufNew_same (h : SameBuffers s s') (size : UInt64) (rflags : UInt32) (remote : Bool) :
    (bufNew s' size rflags remote).1 = (bufNew s size rflags remote).1 ∧
      SameBuffers (bufNew s size rflags remote).2 (bufNew s' size rflags remote).2 := by
  refine ⟨h.nextBuf, ?_, h.cached, h.numCached, ?_, h.freedBufs, ?_⟩ <;>
    simp only [bufNew, h.bufs, h.nextBuf, h.remoteBufs]

theorem bufAlloc_same (h : SameBuffers s s') {size : UInt64} {rflags : UInt32} {remote ok : Bool}
    {b : BufId} {t : File} (alloc : bufAlloc s size rflags remote ok = some (b, t)) :
    ∃ t', bufAlloc s' size rflags remote ok = some (b, t') ∧ SameBuffers t t' := by
  have fit : betterFit s' size = betterFit s size := by
    funext fr x
    simp only [betterFit, h.bufs]
  have best : bestFit s' size = bestFit s size := by
    simp only [bestFit, h.cached, fit]
  by_cases zero : size = 0
  · simp [bufAlloc, zero] at alloc
  simp only [bufAlloc, if_neg zero, best] at alloc ⊢
  cases found : (if remote = true then none else bestFit s size) with
  | some f =>
    rw [found] at alloc
    obtain ⟨rfl, rfl⟩ := Prod.mk.inj (Option.some.inj alloc)
    exact ⟨_, rfl, h.bufs, by simp only [h.cached], by simp only [h.numCached], h.remoteBufs,
      h.freedBufs, h.nextBuf⟩
  | none =>
    rw [found] at alloc
    obtain ⟨new, buffers⟩ := bufNew_same h size rflags remote
    cases ok with
    | false => cases alloc
    | true =>
      have made := Option.some.inj alloc
      rw [made] at new buffers
      have same : bufNew s' size rflags remote = (b, (bufNew s' size rflags remote).2) :=
        Prod.ext new rfl
      exact ⟨_, congrArg some same, buffers⟩

end calls

/-- The file of all ioctls and the one with its buffers only: the same buffers, of which the
same are in use. -/
structure Covers (s : File) (x : State) : Prop where
  buffers : SameBuffers s x.file
  users : (users x).Perm (descs s)

/-- Buffers that are in use can be given back in any order. -/
theorem releases_run {x : State} (bs : List BufId) {rest : List BufId}
    (used : (users x).Perm (bs ++ rest)) :
    ∃ as y, exec step x as = some y ∧ y.file = bs.foldl (fun s b => bufFree s b true) x.file ∧
      (users y).Perm rest := by
  induction bs generalizing x with
  | nil => exact ⟨[], x, rfl, rfl, used⟩
  | cons b bs ih =>
    obtain ⟨⟨c, v⟩, held, rfl⟩ := List.mem_map.mp (used.mem_iff.mpr List.mem_cons_self)
    have released : step x (.release c v) =
        some ⟨bufFree x.file v true, x.staged.erase (c, v)⟩ := if_pos held
    have left : ((x.staged.erase (c, v)).map Prod.snd).Perm (bs ++ rest) := by
      have perm := (List.perm_cons_erase held).map Prod.snd
      exact (perm.symm.trans used).cons_inv
    obtain ⟨as, y, run, file, left⟩ :=
      ih (x := ⟨bufFree x.file v true, x.staged.erase (c, v)⟩) left
    exact ⟨.release c v :: as, y, Option.bind_eq_some_iff.mpr ⟨_, released, run⟩, file, left⟩

section simulation

variable {k : Uapi} {s t : File} {a : FileOperations.Action} {x : State}

/-- Nothing happens to the buffers. -/
theorem Covers.aside (h : Covers s x) (same : SameBuffers t s) (descs : (descs t).Perm (descs s)) :
    ∃ as y, exec step x as = some y ∧ Covers t y :=
  ⟨[], x, rfl, h.buffers.framed same, h.users.trans descs.symm⟩

theorem contextFree_covered (places : PlacesOk s) (h : Covers s x) {c : CtxId}
    (pending : c ∈ s.pending) : ∃ as y, exec step x as = some y ∧ Covers (contextFree s c) y := by
  have perm := contextFree_perm places pending
  obtain ⟨as, y, run, file, left⟩ :=
    releases_run (s.ctxs c).desc (h.users.trans (descs_perm perm))
  refine ⟨as, y, run, ?_, ?_⟩
  · let dropping := { s with
      pending := s.pending.erase c
      interrupted := s.interrupted.erase c
      maps := releaseSlots (s.ctxs c).maps 0 (InvokeMessage.bufs (s.ctxs c).sc) s.maps }
    obtain ⟨table, freed⟩ := freeMsg_frame dropping (s.ctxs c).msg
    have same : SameBuffers (freeMsg dropping (s.ctxs c).msg) x.file := by
      rw [freed]
      exact h.buffers.framed ⟨rfl, rfl, rfl, rfl, rfl, rfl⟩
    rw [file]
    exact (bufFrees_same same (s.ctxs c).desc).framed ⟨rfl, rfl, rfl, rfl, rfl, rfl⟩
  · obtain ⟨cached, num, freed, drop, -, -⟩ := contextDrop_local (s := { s with
      pending := s.pending.erase c, interrupted := s.interrupted.erase c }) (c := c)
      (local_descs (s := s) places perm)
    rw [contextFree, drop]
    exact left

/-- One call on the buffers. -/
theorem Covers.call {y : State} (b : Action) (called : step x b = some y) (covers : Covers t y) :
    ∃ as y, exec step x as = some y ∧ Covers t y :=
  ⟨[b], y, Option.bind_eq_some_iff.mpr ⟨y, called, rfl⟩, covers⟩

/-- Every step of a file is a run of calls on its buffers. -/
theorem step_covered (places : PlacesOk s) (h : Covers s x)
    (hstep : FileOperations.step k s a = some t) :
    ∃ as y, exec step x as = some y ∧ Covers t y := by
  cases step_moves hstep with
  | begins desc msg =>
    exact h.aside ⟨rfl, rfl, rfl, rfl, rfl, rfl⟩ (.of_eq (descs_begins places desc))
  | resumes stage saved =>
    rename_i c
    refine h.aside ⟨rfl, rfl, rfl, rfl, rfl, rfl⟩ ?_
    have moved : (c :: s.pending ++ s.interrupted.erase c).Perm (s.pending ++ s.interrupted) :=
      List.perm_middle.symm.trans ((List.perm_cons_erase saved).symm.append_left s.pending)
    rw [← descs_setCtx (s := s) (c := c) { s.ctxs c with stage := stage } rfl]
    exact moved.flatMap_right _
  | ctx slots stage moves =>
    rename_i c maps
    exact h.aside ⟨rfl, rfl, rfl, rfl, rfl, rfl⟩
      (.of_eq (descs_setCtx (s := s) (c := c) { s.ctxs c with maps := slots, stage := stage } rfl))
  | staged pending alloc =>
    rename_i c b t size ok
    obtain ⟨y, alloc', buffers⟩ := bufAlloc_same h.buffers alloc
    have called : step x (.stage c size ok) = some ⟨y, (c, b) :: x.staged⟩ := by
      simp only [step, alloc']
    refine Covers.call _ called ⟨?_, ?_⟩
    · exact buffers.framed ⟨rfl, rfl, rfl, rfl, rfl, rfl⟩
    · have used := (h.users.cons b).trans (descs_staged places pending b).symm
      rcases bufAlloc_some alloc with ⟨-, -, rfl⟩ | ⟨-, rfl⟩ <;> exact used
  | messaged pending bare alloc =>
    rename_i c m t tx
    obtain ⟨i, -, rfl, rfl⟩ := virtAllocMsg_some alloc
    exact h.aside ⟨rfl, rfl, rfl, rfl, rfl, rfl⟩
      (.of_eq (descs_setCtx (s := s) (c := c) { s.ctxs c with msg := some s.nextMsg } rfl))
  | interrupts pending =>
    rename_i c
    refine h.aside ⟨rfl, rfl, rfl, rfl, rfl, rfl⟩ (List.Perm.flatMap_right _ ?_)
    exact List.perm_middle.trans ((List.perm_cons_erase pending).symm.append_right s.interrupted)
  | frees pending => exact contextFree_covered places h pending
  | allocsPages idle alloc =>
    rename_i b t size flags ok
    obtain ⟨y, alloc', buffers⟩ := bufAlloc_same h.buffers alloc
    have called : step x (.addPages size flags ok) = some ⟨y, x.staged⟩ := by
      simp only [step, alloc']
    refine Covers.call _ called ⟨?_, ?_⟩
    · exact buffers.framed ⟨rfl, rfl, rfl, rfl, rfl, rfl⟩
    · rcases bufAlloc_some alloc with ⟨-, -, rfl⟩ | ⟨-, rfl⟩ <;> exact h.users
  | mapsPages raddr op =>
    rename_i b
    refine Covers.call (.mapPages b raddr) rfl ⟨⟨?_, h.buffers.cached, h.buffers.numCached,
      h.buffers.remoteBufs, h.buffers.freedBufs, h.buffers.nextBuf⟩, h.users⟩
    simp only [h.buffers.bufs]
  | freesPages op =>
    rename_i b
    have remote := places.marked.2.2 b op
    have called : step x (.freePages b) = some ⟨bufFree x.file b false, x.staged⟩ :=
      if_pos (h.buffers.remoteBufs ▸ remote)
    have buffers := bufFree_same h.buffers b false
    refine Covers.call _ called ⟨buffers.framed ⟨rfl, rfl, rfl, rfl, rfl, rfl⟩, ?_⟩
    rw [bufFree_remote places remote]
    exact h.users
  | notifies op alloc | commands alloc =>
    obtain ⟨i, -, -, rfl⟩ := virtAllocMsg_some alloc
    exact h.aside ⟨rfl, rfl, rfl, rfl, rfl, rfl⟩ (.refl _)
  | answers op | replies waiting =>
    obtain ⟨_, hfree⟩ := virtFreeMsg_frame s _
    rw [hfree]
    exact h.aside ⟨rfl, rfl, rfl, rfl, rfl, rfl⟩ (.refl _)
  | _ => exact h.aside ⟨rfl, rfl, rfl, rfl, rfl, rfl⟩ (.refl _)

/-- Every run of a file is a run of calls on its buffers: the cache is the same, and so are
the buffers in use. -/
theorem run_covered {as : List FileOperations.Action}
    (run : exec (FileOperations.step k) File.opened as = some t) :
    ∃ bs y, exec step State.opened bs = some y ∧ Covers t y := by
  suffices both : PlacesOk t ∧ ∃ bs y, exec step State.opened bs = some y ∧ Covers t y from both.2
  have preserved : ∀ s a t,
      (PlacesOk s ∧ ∃ bs y, exec step State.opened bs = some y ∧ Covers s y) →
      FileOperations.step k s a = some t →
      PlacesOk t ∧ ∃ bs y, exec step State.opened bs = some y ∧ Covers t y := by
    rintro s a t ⟨places, bs, x, reached, covers⟩ hstep
    obtain ⟨as, y, run, covers⟩ := step_covered places covers hstep
    exact ⟨step_placesOk places hstep, bs ++ as, y, exec_append reached run, covers⟩
  exact exec_invariant preserved
    ⟨opened_listsOk.places, [], State.opened, rfl, .refl _, .refl _⟩ run

end simulation

/-- Whatever is called on a file, its buffers are those of a run of the calls on them: each
buffer has one place, and the cache holds one buffer more than it should at most. -/
theorem file_buffers_placed (k : Uapi) (as : List FileOperations.Action) (t : File)
    (run : exec (FileOperations.step k) File.opened as = some t) :
    (∃ bs y, exec step State.opened bs = some y ∧ Covers t y) ∧ (allBufs t).Nodup ∧
      t.numCached = t.cached.length ∧ t.cached.length ≤ maxCachedBufs + 1 ∧
      ∀ b ∈ t.cached, (t.bufs b).size < maxCacheBufSize := by
  obtain ⟨bs, y, reached, covers⟩ := run_covered run
  have ok := run_ok reached
  have most := run_length reached
  obtain ⟨bufs, cached, num, remote, freed, -⟩ := covers.buffers
  refine ⟨⟨bs, y, reached, covers⟩, ?_, ?_, ?_, ?_⟩
  · have once := ok.distinct.nodup
    rw [places, cached, freed, remote] at once
    exact (covers.users.append_left _).nodup_iff.mp once
  · rw [← cached, ← num]
    exact ok.count
  · rw [← cached]
    exact most
  · rw [← cached, ← bufs]
    exact ok.small

/-- An invoke with a staged buffer, which the cache has after the invoke. -/
def stagedInvoke : List FileOperations.Action :=
  [.init 1, .invoke 7 0x100 false, .stageBuffer 0 0x1000 true, .send 0 false, .contextFree 0]

theorem stagedInvoke_placed : ∃ t,
    exec (FileOperations.step MapReferences.uapi) File.opened stagedInvoke = some t ∧
      t.cached = [0] ∧ (allBufs t).Nodup ∧ t.cached.length ≤ maxCachedBufs + 1 := by
  obtain ⟨-, once, -, most, -⟩ := file_buffers_placed MapReferences.uapi stagedInvoke _ rfl
  exact ⟨_, rfl, rfl, once, most⟩

end BufferCache
