import PlatformKernel.FileMoves

/-!
# What a step does to the internal buffers of a file

The inversion of the step function as far as `vfastrpc_buf` is concerned. `get_args`
and the map call for DSP heap pages allocate; no other step makes a buffer or changes
its size, and only buffers below `MAX_CACHE_BUF_SIZE` are put into the cache.
-/

namespace FileBuffers

open CountedLoops FileMaps FileOperations FileMoves
open InvokeMessage (bufs)

/-- No buffer is made, none changes its size, and the cache takes small ones only. -/
structure Retains (s t : File) : Prop where
  next : t.nextBuf = s.nextBuf
  sizes : ∀ b, (t.bufs b).size = (s.bufs b).size
  cached : ∀ b ∈ t.cached, b ∈ s.cached ∨ (s.bufs b).size < maxCacheBufSize

theorem retains_of_eq {s t : File} (next : t.nextBuf = s.nextBuf) (bufs : t.bufs = s.bufs)
    (cached : t.cached = s.cached) : Retains s t where
  next := next
  sizes := fun b => by rw [bufs]
  cached := fun b hb => Or.inl (cached ▸ hb)

theorem Retains.trans {s t u : File} (first : Retains s t) (second : Retains t u) :
    Retains s u where
  next := second.next.trans first.next
  sizes := fun b => (second.sizes b).trans (first.sizes b)
  cached := fun b hb => by
    rcases second.cached b hb with hb | hsmall
    · exact first.cached b hb
    · exact Or.inr (first.sizes b ▸ hsmall)

/-- The buffer that a step asks for, with its `rflags` and `remote`. -/
inductive Asks : Action → UInt64 → UInt32 → Bool → Bool → Prop where
  | stage (c : CtxId) (size : UInt64) (ok : Bool) : Asks (.stageBuffer c size ok) size 0 false ok
  | mmap (ud : MmapArgs) (dma : DmaOutcome) (ok : Bool) :
      Asks (.mmap ud dma ok) ud.size ud.flags true ok

inductive BufferMoves (s : File) (a : Action) : File → Prop where
  | aside : BufferMoves s a s
  | allocs {size : UInt64} {rflags : UInt32} {remote ok : Bool} {b : BufId} {t : File}
      (asks : Asks a size rflags remote ok)
      (alloc : bufAlloc s size rflags remote ok = some (b, t)) : BufferMoves s a t

section cache

variable {s t : File}

theorem bestFit_fits {size : UInt64} {b : BufId} (h : bestFit s size = some b) :
    size ≤ (s.bufs b).size :=
  ((bestFit_spec s size).found b h).2

/-- A large enough buffer of the cache, or a new one. -/
theorem bufAlloc_fits {size : UInt64} {rflags : UInt32} {remote ok : Bool} {b : BufId}
    (h : bufAlloc s size rflags remote ok = some (b, t)) :
    b ∈ s.cached ∧ size ≤ (s.bufs b).size ∧
        t = { s with cached := s.cached.erase b, numCached := s.numCached - 1 } ∨
      ok = true ∧ b = s.nextBuf ∧ t = (bufNew s size rflags remote).2 := by
  unfold bufAlloc at h
  split at h
  · cases h
  split at h
  · rename_i v hv
    obtain ⟨rfl, rfl⟩ := Prod.mk.inj (Option.some.inj h)
    cases remote with
    | true => cases hv
    | false => exact Or.inl ⟨bestFit_mem hv, bestFit_fits hv, rfl⟩
  · split_ifs at h with hok
    obtain ⟨rfl, rfl⟩ := Prod.mk.inj (Option.some.inj h)
    exact Or.inr ⟨hok, rfl, rfl⟩

theorem update_size (bufs : BufId → VfastrpcBuf) (b : BufId) (buf : VfastrpcBuf)
    (same : buf.size = (bufs b).size) (x : BufId) :
    (Function.update bufs b buf x).size = (bufs x).size := by
  by_cases hx : x = b
  · rw [hx, Function.update_self, same]
  · rw [Function.update_of_ne hx]

theorem bufDrop_retains (s : File) (b : BufId) : Retains s (bufDrop s b) := by
  unfold bufDrop
  split_ifs
  · exact ⟨rfl, update_size s.bufs b { s.bufs b with remote := false, raddr := 0 } rfl,
      fun _ hx => Or.inl hx⟩
  · exact retains_of_eq rfl rfl rfl

theorem bufFree_retains (s : File) (b : BufId) (cache : Bool) : Retains s (bufFree s b cache) := by
  unfold bufFree
  split_ifs with hcache
  · exact bufDrop_retains s b
  · refine ⟨rfl, fun _ => rfl, fun x hx => ?_⟩
    rcases List.mem_cons.mp hx with rfl | hx
    · exact Or.inr hcache.2
    · exact Or.inl hx
  · exact bufDrop_retains s b

theorem bufFrees_retains (s : File) (bs : List BufId) :
    Retains s (bs.foldl (fun s b => bufFree s b true) s) := by
  induction bs generalizing s with
  | nil => exact retains_of_eq rfl rfl rfl
  | cons b rest ih => exact (bufFree_retains s b true).trans (ih _)

theorem freeMsg_retains (s : File) (m : Option MsgId) : Retains s (freeMsg s m) := by
  obtain ⟨_, hfree⟩ := freeMsg_frame s m
  rw [hfree]
  exact retains_of_eq rfl rfl rfl

theorem virtFreeMsg_retains (s : File) (m : MsgId) : Retains s (virtFreeMsg s m) :=
  freeMsg_retains s (some m)

theorem virtAllocMsg_retains {tx : Bool} {m : MsgId} (h : virtAllocMsg s tx = some (m, t)) :
    Retains s t := by
  obtain ⟨i, -, -, rfl⟩ := virtAllocMsg_some h
  exact retains_of_eq rfl rfl rfl

theorem contextFree_retains (s : File) (c : CtxId) : Retains s (contextFree s c) := by
  have first : Retains s { s with
      pending := s.pending.erase c
      interrupted := s.interrupted.erase c
      maps := releaseSlots (s.ctxs c).maps 0 (bufs (s.ctxs c).sc) s.maps } :=
    retains_of_eq rfl rfl rfl
  have freed := (first.trans (freeMsg_retains _ (s.ctxs c).msg)).trans
    (bufFrees_retains _ (s.ctxs c).desc)
  exact freed.trans (retains_of_eq rfl rfl rfl)

end cache

section steps

variable {k : Uapi} {s t : File} {a : Action}

theorem ctxStep_buffers {c : CtxId} (h : ctxStep k s c a = some t) :
    ∃ u, BufferMoves s a u ∧ Retains u t := by
  cases a with
  | mapBuffer _ i req dma =>
    simp only [ctxStep] at h
    split_ifs at h
    obtain rfl := Option.some.inj h
    unfold mapBuffer
    split <;> exact ⟨s, .aside, retains_of_eq rfl rfl rfl⟩
  | mapHandles _ handles =>
    simp only [ctxStep] at h
    split_ifs at h
    obtain rfl := Option.some.inj h
    unfold mapHandles
    dsimp only
    split <;> exact ⟨s, .aside, retains_of_eq rfl rfl rfl⟩
  | stageBuffer _ size ok =>
    simp only [ctxStep] at h
    split_ifs at h
    obtain rfl := Option.some.inj h
    unfold stageBuffer
    split
    · rename_i halloc
      exact ⟨_, .allocs (.stage _ size ok) halloc, retains_of_eq rfl rfl rfl⟩
    · exact ⟨s, .aside, retains_of_eq rfl rfl rfl⟩
  | allocMsg _ tx =>
    simp only [ctxStep] at h
    split_ifs at h
    obtain rfl := Option.some.inj h
    unfold allocCtxMsg
    split
    · rename_i halloc
      exact ⟨s, .aside, (virtAllocMsg_retains halloc).trans (retains_of_eq rfl rfl rfl)⟩
    · exact ⟨s, .aside, retains_of_eq rfl rfl rfl⟩
  | contextFree _ =>
    simp only [ctxStep] at h
    split_ifs at h
    obtain rfl := Option.some.inj h
    exact ⟨s, .aside, contextFree_retains s c⟩
  | send _ _ | interrupt _ | wake _ | takeAsync _ | putBuffer _ _ | putFdlist _ _ =>
    simp only [ctxStep] at h
    split at h
    · obtain rfl := Option.some.inj h
      exact ⟨s, .aside, retains_of_eq rfl rfl rfl⟩
    · cases h
  | _ => cases h

theorem mapCall_buffers (h : mapCall k s a = some t) : ∃ u, BufferMoves s a u ∧ Retains u t := by
  cases a with
  | mmap ud dma pages =>
    obtain rfl := Option.some.inj h
    unfold internalMmap
    split
    · split
      · exact ⟨s, .aside, retains_of_eq rfl rfl rfl⟩
      split
      · rename_i halloc
        exact ⟨_, .allocs (.mmap ud dma pages) halloc, retains_of_eq rfl rfl rfl⟩
      · exact ⟨s, .aside, retains_of_eq rfl rfl rfl⟩
    split <;> exact ⟨s, .aside, retains_of_eq rfl rfl rfl⟩
  | memMap req dma =>
    obtain rfl := Option.some.inj h
    unfold internalMemMap
    split <;> exact ⟨s, .aside, retains_of_eq rfl rfl rfl⟩
  | munmap vaddrout size =>
    obtain rfl := Option.some.inj h
    unfold internalMunmap
    split
    · exact ⟨s, .aside, retains_of_eq rfl rfl rfl⟩
    split <;> exact ⟨s, .aside, retains_of_eq rfl rfl rfl⟩
  | memUnmap fd vaddr length =>
    obtain rfl := Option.some.inj h
    unfold internalMemUnmap
    split <;> exact ⟨s, .aside, retains_of_eq rfl rfl rfl⟩
  | munmapFd tid fd =>
    obtain rfl := Option.some.inj h
    unfold internalMunmapFd
    split
    · exact ⟨s, .aside, retains_of_eq rfl rfl rfl⟩
    dsimp only
    split <;> exact ⟨s, .aside, retains_of_eq rfl rfl rfl⟩
  | _ => cases h

theorem finishOp_retains {ok : Bool} {raddr : UInt64} (h : finishOp k s ok raddr = some t) :
    Retains s t := by
  unfold finishOp at h
  split at h
  · obtain rfl := Option.some.inj h
    exact retains_of_eq rfl rfl rfl
  · obtain rfl := Option.some.inj h
    exact retains_of_eq rfl rfl rfl
  · obtain rfl := Option.some.inj h
    exact retains_of_eq rfl rfl rfl
  · obtain rfl := Option.some.inj h
    exact retains_of_eq rfl rfl rfl
  · rename_i b hop
    obtain rfl := Option.some.inj h
    split
    · exact ⟨rfl, update_size s.bufs b _ rfl, fun _ hx => Or.inl hx⟩
    · exact retains_of_eq rfl rfl rfl
  · rename_i b hop
    obtain rfl := Option.some.inj h
    split
    · exact (bufFree_retains s b false).trans (retains_of_eq rfl rfl rfl)
    · exact retains_of_eq rfl rfl rfl
  · cases h

theorem notifyAlloc_retains {tx : Bool} (h : notifyAlloc s tx = some t) : Retains s t := by
  unfold notifyAlloc at h
  split at h
  · split at h
    · rename_i halloc
      obtain rfl := Option.some.inj h
      exact (virtAllocMsg_retains halloc).trans (retains_of_eq rfl rfl rfl)
    · obtain rfl := Option.some.inj h
      exact retains_of_eq rfl rfl rfl
  · cases h

theorem notifyDone_retains {interrupted saved : Bool}
    (h : notifyDone s interrupted saved = some t) : Retains s t := by
  unfold notifyDone at h
  split at h
  · rename_i tid m hop
    split_ifs at h
    · obtain rfl := Option.some.inj h
      exact retains_of_eq rfl rfl rfl
    · obtain rfl := Option.some.inj h
      exact retains_of_eq rfl rfl rfl
    · obtain rfl := Option.some.inj h
      exact (virtFreeMsg_retains s m).trans (retains_of_eq rfl rfl rfl)
  · cases h

theorem otherStep_retains (h : otherStep k s a = some t) : Retains s t := by
  cases a with
  | invoke pid sc isAsync =>
    obtain rfl := Option.some.inj h
    unfold internalInvoke
    split
    · split <;> exact retains_of_eq rfl rfl rfl
    · exact retains_of_eq rfl rfl rfl
  | finishOp ok raddr => exact finishOp_retains h
  | notifyAlloc tx => exact notifyAlloc_retains h
  | notifyDone interrupted saved => exact notifyDone_retains h
  | cmdBegin tx =>
    obtain ⟨⟨m, u⟩, halloc, rfl⟩ := Option.map_eq_some_iff.mp h
    exact (virtAllocMsg_retains halloc).trans (retains_of_eq rfl rfl rfl)
  | cmdEnd m =>
    simp only [otherStep] at h
    split_ifs at h
    obtain rfl := Option.some.inj h
    exact (virtFreeMsg_retains s m).trans (retains_of_eq rfl rfl rfl)
  | init _ | foreignClaim _ | foreignFree _ =>
    simp only [otherStep] at h
    split_ifs at h
    obtain rfl := Option.some.inj h
    exact retains_of_eq rfl rfl rfl
  | _ => cases h

theorem step_buffers (h : step k s a = some t) : ∃ u, BufferMoves s a u ∧ Retains u t := by
  unfold step at h
  split at h
  · split_ifs at h
    exact ctxStep_buffers h
  · split_ifs at h
    · exact mapCall_buffers h
    · exact ⟨s, .aside, otherStep_retains h⟩

end steps

end FileBuffers
