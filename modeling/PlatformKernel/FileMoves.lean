import PlatformKernel.FileOperations

/-!
# What a step of a file can do

One inversion of the step function, from which the invariants of a file are proved.
Contexts change the maps only by taking and releasing them; the map calls hold
`internal_map_mutex` from the change they make to the answer of the back end.
-/

namespace FileMoves

open CountedLoops FileMaps FileOperations
open InvokeMessage (bufs)
open MessageTransport (freeSlot)

theorem virtAllocMsg_some {s t : File} {tx : Bool} {m : MsgId}
    (h : virtAllocMsg s tx = some (m, t)) :
    ∃ i, freeSlot s.table = some i ∧ m = s.nextMsg ∧ t = { s with
      table := Function.update s.table i (some (.ours s.nextMsg))
      msgid := Function.update s.msgid s.nextMsg i
      nextMsg := s.nextMsg + 1 } := by
  unfold virtAllocMsg at h
  split at h
  · rename_i i hi
    split_ifs at h
    obtain ⟨rfl, rfl⟩ := Prod.mk.inj (Option.some.inj h)
    exact ⟨i, hi, rfl, rfl⟩
  · cases h

theorem virtFreeMsg_frame (s : File) (m : MsgId) :
    ∃ table, virtFreeMsg s m = { s with table := table } := by
  unfold virtFreeMsg
  split_ifs
  · exact ⟨_, rfl⟩
  · exact ⟨s.table, rfl⟩

theorem freeMsg_frame (s : File) (m : Option MsgId) :
    ∃ table, freeMsg s m = { s with table := table } := by
  cases m with
  | none => exact ⟨s.table, rfl⟩
  | some m => exact virtFreeMsg_frame s m

theorem bufFree_frame (s : File) (b : BufId) (cache : Bool) :
    ∃ bufs cached numCached remoteBufs freedBufs, bufFree s b cache = { s with
      bufs := bufs
      cached := cached
      numCached := numCached
      remoteBufs := remoteBufs
      freedBufs := freedBufs } := by
  unfold bufFree bufDrop
  split_ifs <;> exact ⟨_, _, _, _, _, rfl⟩

theorem bufFrees_frame (s : File) (bs : List BufId) :
    ∃ bufs cached numCached remoteBufs freedBufs,
      bs.foldl (fun s b => bufFree s b true) s = { s with
        bufs := bufs
        cached := cached
        numCached := numCached
        remoteBufs := remoteBufs
        freedBufs := freedBufs } := by
  induction bs generalizing s with
  | nil => exact ⟨s.bufs, s.cached, s.numCached, s.remoteBufs, s.freedBufs, rfl⟩
  | cons b rest ih =>
    obtain ⟨_, _, _, _, _, hfree⟩ := bufFree_frame s b true
    obtain ⟨_, _, _, _, _, hrest⟩ := ih (bufFree s b true)
    rw [List.foldl_cons, hrest, hfree]
    exact ⟨_, _, _, _, _, rfl⟩

theorem contextDrop_frame (s : File) (c : CtxId) :
    ∃ table bufs' cached numCached remoteBufs freedBufs, contextDrop s c = { s with
      maps := releaseSlots (s.ctxs c).maps 0 (bufs (s.ctxs c).sc) s.maps
      freedCtxs := c :: s.freedCtxs
      table := table
      bufs := bufs'
      cached := cached
      numCached := numCached
      remoteBufs := remoteBufs
      freedBufs := freedBufs } := by
  unfold contextDrop
  dsimp only
  generalize ht : freeMsg _ (s.ctxs c).msg = t
  obtain ⟨_, hmsg⟩ := freeMsg_frame { s with
    maps := releaseSlots (s.ctxs c).maps 0 (bufs (s.ctxs c).sc) s.maps } (s.ctxs c).msg
  obtain ⟨_, _, _, _, _, hdesc⟩ := bufFrees_frame t (s.ctxs c).desc
  rw [hdesc, ← ht, hmsg]
  exact ⟨_, _, _, _, _, _, rfl⟩

/-- What the search has found so far is in the cache and fits, and nothing it has seen fits
better. -/
structure Fits (s : File) (size : UInt64) (seen : List BufId) (fr : Option BufId) : Prop where
  found : ∀ f ∈ fr, f ∈ seen ∧ size ≤ (s.bufs f).size
  best : ∀ x ∈ seen, size ≤ (s.bufs x).size → ∃ f ∈ fr, (s.bufs f).size ≤ (s.bufs x).size

theorem betterFit_fits {s : File} {size : UInt64} {seen : List BufId} {fr : Option BufId}
    (h : Fits s size seen fr) (b : BufId) : Fits s size (seen ++ [b]) (betterFit s size fr b) := by
  unfold betterFit
  split_ifs with better
  · refine ⟨fun f hf => ?_, fun x hx fits => ?_⟩
    · obtain rfl := Option.some.inj hf
      exact ⟨List.mem_append_right _ List.mem_cons_self, better.1⟩
    · rcases List.mem_append.mp hx with hx | hx
      · obtain ⟨f, hf, most⟩ := h.best x hx fits
        exact ⟨b, rfl, UInt64.le_trans (UInt64.le_of_lt (better.2 f hf)) most⟩
      · obtain rfl := List.mem_singleton.mp hx
        exact ⟨x, rfl, UInt64.le_refl _⟩
  · refine ⟨fun f hf => ⟨List.mem_append_left _ (h.found f hf).1, (h.found f hf).2⟩,
      fun x hx fits => ?_⟩
    rcases List.mem_append.mp hx with hx | hx
    · exact h.best x hx fits
    · obtain rfl := List.mem_singleton.mp hx
      by_contra none
      refine better ⟨fits, fun f hf => ?_⟩
      by_contra more
      exact none ⟨f, hf, UInt64.not_lt.mp more⟩

theorem bestFit_spec (s : File) (size : UInt64) : Fits s size s.cached (bestFit s size) := by
  have inv : ∀ (l seen : List BufId) (fr : Option BufId), Fits s size seen fr →
      Fits s size (seen ++ l) (l.foldl (betterFit s size) fr) := by
    intro l
    induction l with
    | nil =>
      intro seen fr h
      rwa [List.append_nil]
    | cons x rest ih =>
      intro seen fr h
      have next := ih (seen ++ [x]) _ (betterFit_fits h x)
      rwa [List.append_assoc] at next
  exact inv s.cached [] none ⟨(fun f hf => by cases hf), fun x hx => by cases hx⟩

theorem bestFit_mem {s : File} {size : UInt64} {b : BufId} (h : bestFit s size = some b) :
    b ∈ s.cached :=
  ((bestFit_spec s size).found b h).1

theorem bufAlloc_some {s t : File} {size : UInt64} {rflags : UInt32} {remote ok : Bool}
    {b : BufId} (h : bufAlloc s size rflags remote ok = some (b, t)) :
    remote = false ∧ b ∈ s.cached ∧
        t = { s with cached := s.cached.erase b, numCached := s.numCached - 1 } ∨
      b = s.nextBuf ∧ t = (bufNew s size rflags remote).2 := by
  unfold bufAlloc at h
  split at h
  · cases h
  split at h
  · rename_i v hv
    obtain ⟨rfl, rfl⟩ := Prod.mk.inj (Option.some.inj h)
    cases remote with
    | true => cases hv
    | false => exact Or.inl ⟨rfl, bestFit_mem hv, rfl⟩
  · split_ifs at h
    obtain ⟨rfl, rfl⟩ := Prod.mk.inj (Option.some.inj h)
    exact Or.inr ⟨rfl, rfl⟩

/-- Contexts take and release maps. -/
inductive CtxMoves (k : Uapi) (s : Maps) : Maps → Prop where
  | refl : CtxMoves k s s
  | take {t : Maps} (moves : CtxMoves k s t) (req : MapRequest) (dma : DmaOutcome) :
      CtxMoves k s (ctxMap k t req dma).2
  | release {t : Maps} (moves : CtxMoves k s t) (slot : Option MapId) :
      CtxMoves k s (ctxRelease t slot)

section maps

variable {k : Uapi} {s t : Maps}

theorem releaseSlots_moves (moves : CtxMoves k s t) (slots : Nat → Option MapId) (lo n : Nat) :
    CtxMoves k s (releaseSlots slots lo n t) := by
  unfold releaseSlots
  generalize List.range' lo n = indices
  induction indices generalizing t with
  | nil => exact moves
  | cons i rest ih => exact ih (moves.release (slots i))

theorem putFdlist_moves (moves : CtxMoves k s t) (fdlist : List UInt64) :
    CtxMoves k s (putFdlist fdlist t) := by
  induction fdlist generalizing t with
  | nil => exact moves
  | cons fd rest ih =>
    unfold putFdlist
    split
    · exact moves
    split
    · rename_i id u hfind
      rcases (mmapFind_ok hfind).2 with ⟨-, rfl⟩ | ⟨htrue, -⟩
      · exact ih (moves.release (some id))
      · cases htrue
    · exact ih moves

/-- The loop over the handles, whether it goes through or rolls back. -/
theorem mapHandles_moves (sc : UInt32) (handles : Nat → Handle) (slots : Nat → Option MapId)
    (lo n : Nat) : CtxMoves k s (loop (mapHandle k sc handles) lo n (s, slots)).state.1 := by
  refine holds_state (Q := fun st : Slots => CtxMoves k s st.1)
    (loop_holds (fun _ (st : Slots) => CtxMoves k s st.1) .refl fun i st _ _ hst => ?_)
  unfold mapHandle
  split
  · exact hst
  have taken := hst.take
    ⟨(handles i).fd, (handles i).attr &&& ~~~k.attrKeepMap, 0, 0,
      if (handles i).attr &&& k.attrNomap ≠ 0 then k.dmahandleNomap else 0⟩ (handles i).dma
  dsimp only
  split
  · rename_i hok
    rw [hok] at taken
    exact taken
  · rename_i herr
    rw [herr] at taken
    exact releaseSlots_moves taken _ _ _

end maps

/-- What the map calls do before they wait for the back end. -/
inductive CallMoves (k : Uapi) (s : Maps) : Maps → Option Op → Prop where
  | mmap {req : MapRequest} {dma : DmaOutcome} {id : MapId} {t : Maps}
      (created : mmapCreate k s req dma = (.ok id, t)) : CallMoves k s t (some (.mmap id))
  | memMap {req : MapRequest} {dma : DmaOutcome} {id : MapId} {t : Maps}
      (created : mmapCreate k s req dma = (.ok id, t)) : CallMoves k s t (some (.memMap id))
  | failed {req : MapRequest} {dma : DmaOutcome} {err : Int} {t : Maps}
      (failed : mmapCreate k s req dma = (.error err, t)) : CallMoves k s t none
  | munmap {fd : Int} {va len : UInt64} {id : MapId} {t : Maps}
      (removed : mmapRemove k s fd va len = .ok (id, t)) : CallMoves k s t (some (.munmap id))
  | memUnmap {fd : Int} {va len : UInt64} {id : MapId} {t : Maps}
      (removed : mmapRemove k s fd va len = .ok (id, t)) : CallMoves k s t (some (.memUnmap id))

/-- What the map calls do when the back end answered. -/
inductive FinishMoves (k : Uapi) (s : File) (ok : Bool) : Maps → Prop where
  | mapped {id : MapId} (raddr : UInt64) (op : s.op = some (.mmap id) ∨ s.op = some (.memMap id)) :
      FinishMoves k s ok (s.maps.set id { s.maps.mem id with raddr := raddr })
  | unmapped {id : MapId} (op : s.op = some (.mmap id) ∨ s.op = some (.memMap id)) :
      FinishMoves k s ok (mmapFree s.maps (some id) false)
  | removed {id : MapId} (op : s.op = some (.munmap id) ∨ s.op = some (.memUnmap id)) :
      FinishMoves k s ok (mmapFree s.maps (some id) false)
  | putBack {id : MapId} (op : s.op = some (.munmap id)) (failed : ok = false) :
      FinishMoves k s ok (mmapAdd s.maps id)
  | restored {id : MapId} (op : s.op = some (.memUnmap id))
      (failed : ¬ (unmappable k (s.maps.mem id) ∧ ok)) :
      FinishMoves k s ok (mmapAdd (if (s.maps.mem id).keep k then
        s.maps.set id { s.maps.mem id with refs := (s.maps.mem id).refs + 1 } else s.maps) id)

/-- Everything a step can do. -/
inductive Moves (k : Uapi) (s : File) (a : Action) : File → Prop where
  | same : Moves k s a s
  | init (cid : Int) : Moves k s a { s with dspProcInit := true, cid := cid }
  | begins {ctx : InvokeCtx} (desc : ctx.desc = []) (msg : ctx.msg = none) :
      Moves k s a { s.setCtx s.nextCtx ctx with
        pending := s.nextCtx :: s.pending
        nextCtx := s.nextCtx + 1 }
  | resumes {c : CtxId} (stage : Stage) (saved : c ∈ s.interrupted) :
      Moves k s a { s.setCtx c { s.ctxs c with stage := stage } with
        interrupted := s.interrupted.erase c
        pending := c :: s.pending }
  | ctx {c : CtxId} (slots : Nat → Option MapId) (stage : Stage) {maps : Maps}
      (moves : CtxMoves k s.maps maps) :
      Moves k s a { s.setCtx c { s.ctxs c with maps := slots, stage := stage } with maps := maps }
  | maps {maps : Maps} (moves : CtxMoves k s.maps maps) : Moves k s a { s with maps := maps }
  | staged {c : CtxId} {b : BufId} {t : File} {size : UInt64} {ok : Bool} (pending : c ∈ s.pending)
      (alloc : bufAlloc s size 0 false ok = some (b, t)) :
      Moves k s a (t.setCtx c { t.ctxs c with desc := (t.ctxs c).desc ++ [b] })
  | messaged {c : CtxId} {m : MsgId} {t : File} {tx : Bool} (pending : c ∈ s.pending)
      (bare : (s.ctxs c).msg = none) (alloc : virtAllocMsg s tx = some (m, t)) :
      Moves k s a (t.setCtx c { t.ctxs c with msg := some m })
  | interrupts {c : CtxId} (pending : c ∈ s.pending) :
      Moves k s a { s with pending := s.pending.erase c, interrupted := c :: s.interrupted }
  | frees {c : CtxId} (pending : c ∈ s.pending) : Moves k s a (contextFree s c)
  | call {maps : Maps} {op : Option Op} (idle : s.op = none)
      (moves : CallMoves k s.maps maps op) : Moves k s a { s with maps := maps, op := op }
  | removesFd {tid : Tid} {fd : Int} {op : Option Op} (idle : s.op = none)
      (action : a = .munmapFd tid fd) (fresh : (s.cmds.find? fun cmd => cmd.tid == tid) = none)
      (next : op = none ∨ op = some (.notify tid)) :
      Moves k s a { s with maps := (mmapRemoveFd k s.maps fd).2.2, op := op }
  | takesCmd {tid : Tid} {cmd : Cmd} (idle : s.op = none) (saved : cmd ∈ s.cmds) :
      Moves k s a { s with
        cmds := s.cmds.erase cmd
        freedCmds := cmd.id :: s.freedCmds
        op := some (.notified tid cmd.msg) }
  | allocsPages {b : BufId} {t : File} {size : UInt64} {flags : UInt32} {ok : Bool}
      (idle : s.op = none) (alloc : bufAlloc s size flags true ok = some (b, t)) :
      Moves k s a { t with op := some (.mmapPages b) }
  | findsPages {b : BufId} (idle : s.op = none) (remote : b ∈ s.remoteBufs) :
      Moves k s a { s with op := some (.munmapPages b) }
  | finish {ok : Bool} {raddr : UInt64} {maps : Maps} (action : a = .finishOp ok raddr)
      (moves : FinishMoves k s ok maps) : Moves k s a { s with op := none, maps := maps }
  | mapsPages {b : BufId} (raddr : UInt64) (op : s.op = some (.mmapPages b)) :
      Moves k s a { s with
        op := none
        bufs := Function.update s.bufs b { s.bufs b with raddr := raddr } }
  | freesPages {b : BufId} (op : s.op = some (.munmapPages b)) :
      Moves k s a { bufFree s b false with op := none }
  | gives (op : ∀ tid m, s.op ≠ some (.notified tid m)) : Moves k s a { s with op := none }
  | notifies {tid : Tid} {m : MsgId} {t : File} {tx : Bool} (op : s.op = some (.notify tid))
      (alloc : virtAllocMsg s tx = some (m, t)) :
      Moves k s a { t with op := some (.notified tid m) }
  | saves {tid : Tid} {m : MsgId} (op : s.op = some (.notified tid m)) :
      Moves k s a { s with
        op := none
        cmds := ⟨s.nextCmd, tid, m⟩ :: s.cmds
        nextCmd := s.nextCmd + 1 }
  | loses {tid : Tid} {m : MsgId} (op : s.op = some (.notified tid m))
      (action : a = .notifyDone true false) : Moves k s a { s with op := none }
  | answers {tid : Tid} {m : MsgId} (op : s.op = some (.notified tid m)) :
      Moves k s a { virtFreeMsg s m with op := none }
  | commands {m : MsgId} {t : File} {tx : Bool} (alloc : virtAllocMsg s tx = some (m, t)) :
      Moves k s a { t with commands := m :: t.commands }
  | replies {m : MsgId} (waiting : m ∈ s.commands) :
      Moves k s a { virtFreeMsg s m with commands := s.commands.erase m }
  | foreign {table : Nat → Option Owner}
      (ours : ∀ i m, table i = some (.ours m) → s.table i = some (.ours m)) :
      Moves k s a { s with table := table }

variable {k : Uapi} {s t : File} {a : Action}

theorem ctxStep_moves {c : CtxId} (pending : c ∈ s.pending) (h : ctxStep k s c a = some t) :
    Moves k s a t := by
  cases a with
  | mapBuffer _ i req dma =>
    simp only [ctxStep] at h
    split_ifs at h
    obtain rfl := Option.some.inj h
    have taken := (CtxMoves.refl (k := k) (s := s.maps)).take { req with mflags := 0 } dma
    unfold mapBuffer
    split
    · rename_i hok
      rw [hok] at taken
      exact .ctx _ (s.ctxs c).stage taken
    · rename_i herr
      rw [herr] at taken
      exact .ctx (s.ctxs c).maps _ taken
  | mapHandles _ handles =>
    simp only [ctxStep] at h
    split_ifs at h
    obtain rfl := Option.some.inj h
    have taken := mapHandles_moves (k := k) (s := s.maps) (s.ctxs c).sc handles (s.ctxs c).maps
      (bufs (s.ctxs c).sc) (InvokeMessage.handles (s.ctxs c).sc)
    unfold mapHandles
    dsimp only
    split
    · rename_i hnext
      rw [hnext] at taken
      exact .ctx _ (s.ctxs c).stage taken
    · rename_i hbail
      rw [hbail] at taken
      exact .ctx _ _ taken
  | stageBuffer _ size ok =>
    simp only [ctxStep] at h
    split_ifs at h
    obtain rfl := Option.some.inj h
    unfold stageBuffer
    split
    · rename_i hsome
      exact .staged pending hsome
    · exact .ctx (s.ctxs c).maps _ .refl
  | allocMsg _ tx =>
    simp only [ctxStep] at h
    split_ifs at h with hcond
    obtain rfl := Option.some.inj h
    unfold allocCtxMsg
    split
    · rename_i hsome
      exact .messaged pending hcond.2 hsome
    · exact .ctx (s.ctxs c).maps _ .refl
  | send _ ok =>
    simp only [ctxStep] at h
    split at h
    · obtain rfl := Option.some.inj h
      exact .ctx (s.ctxs c).maps _ .refl
    · cases h
  | interrupt _ =>
    simp only [ctxStep] at h
    split_ifs at h
    obtain rfl := Option.some.inj h
    exact .interrupts pending
  | wake _ =>
    simp only [ctxStep] at h
    split_ifs at h
    obtain rfl := Option.some.inj h
    exact .ctx (s.ctxs c).maps _ .refl
  | takeAsync _ =>
    simp only [ctxStep] at h
    split_ifs at h
    obtain rfl := Option.some.inj h
    exact .ctx (s.ctxs c).maps _ .refl
  | putBuffer _ i =>
    simp only [ctxStep] at h
    split_ifs at h
    obtain rfl := Option.some.inj h
    exact .ctx _ (s.ctxs c).stage (CtxMoves.refl.release _)
  | putFdlist _ fdlist =>
    simp only [ctxStep] at h
    split_ifs at h
    obtain rfl := Option.some.inj h
    exact .maps (putFdlist_moves .refl _)
  | contextFree _ =>
    simp only [ctxStep] at h
    split_ifs at h
    obtain rfl := Option.some.inj h
    exact .frees pending
  | _ => cases h

theorem mapCall_moves (idle : s.op = none) (h : mapCall k s a = some t) : Moves k s a t := by
  cases a with
  | mmap ud dma pages =>
    obtain rfl := Option.some.inj h
    unfold internalMmap
    split
    · split
      · exact .same
      split
      · rename_i hsome
        exact .allocsPages idle hsome
      · exact .same
    split
    · rename_i hok
      exact .call idle (.mmap hok)
    · rename_i herr
      simpa only [idle] using Moves.call idle (.failed herr)
  | memMap req dma =>
    obtain rfl := Option.some.inj h
    unfold internalMemMap
    split
    · rename_i hok
      exact .call idle (.memMap hok)
    · rename_i herr
      simpa only [idle] using Moves.call idle (.failed herr)
  | munmap vaddrout size =>
    obtain rfl := Option.some.inj h
    unfold internalMunmap
    split
    · rename_i hfind
      exact .findsPages idle (List.mem_of_find?_eq_some hfind)
    split
    · rename_i hok
      exact .call idle (.munmap hok)
    · exact .same
  | memUnmap fd vaddr length =>
    obtain rfl := Option.some.inj h
    unfold internalMemUnmap
    split
    · rename_i hok
      exact .call idle (.memUnmap hok)
    · exact .same
  | munmapFd tid fd =>
    obtain rfl := Option.some.inj h
    unfold internalMunmapFd
    split
    · rename_i hfind
      exact .takesCmd idle (List.mem_of_find?_eq_some hfind)
    · rename_i hnone
      dsimp only
      split
      · simpa only [idle] using Moves.removesFd idle rfl hnone (Or.inl rfl)
      · exact .removesFd idle rfl hnone (Or.inr rfl)
  | _ => cases h

theorem finishOp_moves {ok : Bool} {raddr : UInt64} (h : finishOp k s ok raddr = some t) :
    Moves k s (.finishOp ok raddr) t := by
  unfold finishOp at h
  split at h
  · rename_i id hop
    obtain rfl := Option.some.inj h
    split
    · exact .finish rfl (.mapped raddr (Or.inl hop))
    · exact .finish rfl (.unmapped (Or.inl hop))
  · rename_i id hop
    obtain rfl := Option.some.inj h
    split
    · exact .finish rfl (.mapped raddr (Or.inr hop))
    · exact .finish rfl (.unmapped (Or.inr hop))
  · rename_i id hop
    obtain rfl := Option.some.inj h
    split
    · exact .finish rfl (.removed (Or.inl hop))
    · rename_i hok
      exact .finish rfl (.putBack hop (by simpa using hok))
  · rename_i id hop
    obtain rfl := Option.some.inj h
    split
    · exact .finish rfl (.removed (Or.inr hop))
    · rename_i hok
      exact .finish rfl (.restored hop hok)
  · rename_i b hop
    obtain rfl := Option.some.inj h
    split
    · exact .mapsPages raddr hop
    · exact .gives fun tid m hn => by rw [hop] at hn; cases hn
  · rename_i b hop
    obtain rfl := Option.some.inj h
    split
    · exact .freesPages hop
    · exact .gives fun tid m hn => by rw [hop] at hn; cases hn
  · cases h

theorem notify_moves {tx : Bool} (h : notifyAlloc s tx = some t) : Moves k s a t := by
  unfold notifyAlloc at h
  split at h
  · rename_i tid hop
    split at h
    · rename_i hsome
      obtain rfl := Option.some.inj h
      exact .notifies hop hsome
    · obtain rfl := Option.some.inj h
      exact .gives fun tid' m hn => by rw [hop] at hn; cases hn
  · cases h

theorem notifyDone_moves {interrupted saved : Bool} (h : notifyDone s interrupted saved = some t) :
    Moves k s (.notifyDone interrupted saved) t := by
  unfold notifyDone at h
  split at h
  · rename_i tid m hop
    cases interrupted with
    | false =>
      obtain rfl := Option.some.inj h
      exact .answers hop
    | true =>
      cases saved with
      | true =>
        obtain rfl := Option.some.inj h
        exact .saves hop
      | false =>
        obtain rfl := Option.some.inj h
        exact .loses hop rfl
  · cases h

theorem invoke_moves (pid : Tid) (sc : UInt32) (isAsync : Bool) :
    Moves k s a (internalInvoke s pid sc isAsync) := by
  unfold internalInvoke
  split
  · rename_i c hfind
    split
    · exact .same
    · exact .resumes _ (List.mem_of_find?_eq_some hfind)
  · exact .begins rfl rfl

theorem otherStep_moves (h : otherStep k s a = some t) : Moves k s a t := by
  cases a with
  | init cid =>
    simp only [otherStep] at h
    split_ifs at h
    obtain rfl := Option.some.inj h
    exact .init cid
  | invoke pid sc isAsync =>
    obtain rfl := Option.some.inj h
    exact invoke_moves pid sc isAsync
  | finishOp ok raddr => exact finishOp_moves h
  | notifyAlloc tx => exact notify_moves h
  | notifyDone interrupted saved => exact notifyDone_moves h
  | cmdBegin tx =>
    obtain ⟨⟨m, u⟩, hsome, rfl⟩ := Option.map_eq_some_iff.mp h
    exact .commands hsome
  | cmdEnd m =>
    simp only [otherStep] at h
    split_ifs at h with hm
    obtain rfl := Option.some.inj h
    exact .replies hm
  | foreignClaim i =>
    simp only [otherStep] at h
    split_ifs at h
    obtain rfl := Option.some.inj h
    refine .foreign fun j m hj => ?_
    by_cases hji : j = i
    · simp [hji] at hj
    · simpa [hji] using hj
  | foreignFree i =>
    simp only [otherStep] at h
    split_ifs at h
    obtain rfl := Option.some.inj h
    refine .foreign fun j m hj => ?_
    by_cases hji : j = i
    · simp [hji] at hj
    · simpa [hji] using hj
  | _ => cases h

theorem step_moves (h : step k s a = some t) : Moves k s a t := by
  unfold step at h
  split at h
  · split_ifs at h with hc
    exact ctxStep_moves hc h
  · split_ifs at h with hcall hidle
    · exact mapCall_moves hidle.1 h
    · exact otherStep_moves h

/-- The call in progress, if there is one, has no map. -/
def mapless : Option Op → Bool
  | some (.mmap _) => false
  | some (.memMap _) => false
  | some (.munmap _) => false
  | some (.memUnmap _) => false
  | _ => true

/-- What a step can do to the maps and to the call in progress. -/
inductive MapMoves (k : Uapi) (s : File) (a : Action) : Maps → Option Op → Prop where
  | ctx {maps : Maps} (moves : CtxMoves k s.maps maps) : MapMoves k s a maps s.op
  | other {op : Option Op} (free : mapless op = true) : MapMoves k s a s.maps op
  | call {maps : Maps} {op : Option Op} (idle : s.op = none)
      (moves : CallMoves k s.maps maps op) : MapMoves k s a maps op
  | removesFd {tid : Tid} {fd : Int} {op : Option Op} (idle : s.op = none)
      (action : a = .munmapFd tid fd) (fresh : (s.cmds.find? fun cmd => cmd.tid == tid) = none)
      (free : mapless op = true) : MapMoves k s a (mmapRemoveFd k s.maps fd).2.2 op
  | finish {ok : Bool} {raddr : UInt64} {maps : Maps} (action : a = .finishOp ok raddr)
      (moves : FinishMoves k s ok maps) : MapMoves k s a maps none

theorem step_mapMoves (h : step k s a = some t) : MapMoves k s a t.maps t.op := by
  cases step_moves h with
  | ctx slots stage moves => exact .ctx moves
  | maps moves => exact .ctx moves
  | staged pending alloc =>
    rcases bufAlloc_some alloc with ⟨-, -, rfl⟩ | ⟨-, rfl⟩
    · exact .ctx .refl
    · exact .ctx .refl
  | messaged pending bare alloc | commands alloc =>
    obtain ⟨i, -, -, rfl⟩ := virtAllocMsg_some alloc
    exact .ctx .refl
  | frees pending =>
    rename_i c
    obtain ⟨_, _, _, _, _, _, hfree⟩ := contextDrop_frame { s with
      pending := s.pending.erase c, interrupted := s.interrupted.erase c } c
    rw [contextFree, hfree]
    exact .ctx (releaseSlots_moves .refl _ _ _)
  | call idle moves => exact .call idle moves
  | removesFd idle action fresh next =>
    refine .removesFd idle action fresh ?_
    rcases next with rfl | rfl <;> rfl
  | finish action moves => exact .finish action moves
  | allocsPages idle alloc =>
    rcases bufAlloc_some alloc with ⟨-, -, rfl⟩ | ⟨-, rfl⟩
    · exact .other rfl
    · exact .other rfl
  | freesPages op =>
    obtain ⟨_, _, _, _, _, hfree⟩ := bufFree_frame s _ false
    rw [hfree]
    exact .other rfl
  | notifies op alloc =>
    obtain ⟨i, -, -, rfl⟩ := virtAllocMsg_some alloc
    exact .other rfl
  | answers op =>
    obtain ⟨_, hfree⟩ := virtFreeMsg_frame s _
    rw [hfree]
    exact .other rfl
  | replies waiting =>
    obtain ⟨_, hfree⟩ := virtFreeMsg_frame s _
    rw [hfree]
    exact .ctx .refl
  | takesCmd | findsPages | mapsPages | gives | saves | loses => exact .other rfl
  | same | init | begins | resumes | interrupts | foreign => exact .ctx .refl

/-- What each action makes of the maps. -/
def mapsAfter (k : Uapi) (s : File) : Action → Maps
  | .mapBuffer _ _ req dma => (ctxMap k s.maps { req with mflags := 0 } dma).2
  | .mapHandles c handles =>
    (loop (mapHandle k (s.ctxs c).sc handles) (bufs (s.ctxs c).sc)
      (InvokeMessage.handles (s.ctxs c).sc) (s.maps, (s.ctxs c).maps)).state.1
  | .putBuffer c i => ctxRelease s.maps ((s.ctxs c).maps i)
  | .putFdlist _ fdlist => putFdlist (fdlist.take InvokeMessage.mFdlist.toNat) s.maps
  | .contextFree c => releaseSlots (s.ctxs c).maps 0 (bufs (s.ctxs c).sc) s.maps
  | .mmap ud dma _ =>
    if ud.flags = adspMmapAddPages then s.maps
    else (mmapCreate k s.maps ⟨ud.fd, 0, ud.vaddrin, ud.size, ud.flags⟩ dma).2
  | .memMap req dma => (mmapCreate k s.maps req dma).2
  | .munmap vaddrout size => (internalMunmap k s vaddrout size).maps
  | .memUnmap fd vaddr length => (internalMemUnmap k s fd vaddr length).maps
  | .munmapFd tid fd =>
    if (s.cmds.find? fun cmd => cmd.tid == tid).isSome then s.maps
    else (mmapRemoveFd k s.maps fd).2.2
  | .finishOp ok raddr => (finishOp k s ok raddr).elim s.maps File.maps
  | _ => s.maps

theorem bufAlloc_maps {size : UInt64} {rflags : UInt32} {remote ok : Bool} {b : BufId}
    (h : bufAlloc s size rflags remote ok = some (b, t)) : t.maps = s.maps := by
  rcases bufAlloc_some h with ⟨-, -, rfl⟩ | ⟨-, rfl⟩ <;> rfl

theorem virtAllocMsg_maps {tx : Bool} {m : MsgId} (h : virtAllocMsg s tx = some (m, t)) :
    t.maps = s.maps := by
  obtain ⟨i, -, -, rfl⟩ := virtAllocMsg_some h
  rfl

theorem virtFreeMsg_maps (s : File) (m : MsgId) : (virtFreeMsg s m).maps = s.maps := by
  obtain ⟨table, hfree⟩ := virtFreeMsg_frame s m
  rw [hfree]

theorem contextFree_maps (s : File) (c : CtxId) : (contextFree s c).maps =
    releaseSlots (s.ctxs c).maps 0 (bufs (s.ctxs c).sc) s.maps := by
  obtain ⟨_, _, _, _, _, _, hfree⟩ := contextDrop_frame { s with
    pending := s.pending.erase c, interrupted := s.interrupted.erase c } c
  rw [contextFree, hfree]

theorem mapBuffer_maps (k : Uapi) (s : File) (c : CtxId) (i : Nat) (req : MapRequest)
    (dma : DmaOutcome) :
    (mapBuffer k s c i req dma).maps = (ctxMap k s.maps { req with mflags := 0 } dma).2 := by
  unfold mapBuffer
  split <;> (rename_i h; rw [h])

theorem mapHandles_maps (k : Uapi) (s : File) (c : CtxId) (handles : Nat → Handle) :
    (mapHandles k s c handles).maps =
      (loop (mapHandle k (s.ctxs c).sc handles) (bufs (s.ctxs c).sc)
        (InvokeMessage.handles (s.ctxs c).sc) (s.maps, (s.ctxs c).maps)).state.1 := by
  unfold mapHandles
  dsimp only
  split <;> (rename_i h; rw [h]; rfl)

theorem internalMmap_maps (k : Uapi) (s : File) (ud : MmapArgs) (dma : DmaOutcome)
    (pages : Bool) : (internalMmap k s ud dma pages).maps =
      if ud.flags = adspMmapAddPages then s.maps
      else (mmapCreate k s.maps ⟨ud.fd, 0, ud.vaddrin, ud.size, ud.flags⟩ dma).2 := by
  unfold internalMmap
  split
  · split
    · rfl
    split
    · rename_i alloc
      have maps := bufAlloc_maps alloc
      exact maps
    · rfl
  · split <;> (rename_i h; rw [h])

theorem internalMemMap_maps (k : Uapi) (s : File) (req : MapRequest) (dma : DmaOutcome) :
    (internalMemMap k s req dma).maps = (mmapCreate k s.maps req dma).2 := by
  unfold internalMemMap
  split <;> (rename_i h; rw [h])

theorem internalMunmapFd_maps (k : Uapi) (s : File) (tid : Tid) (fd : Int) :
    (internalMunmapFd k s tid fd).maps =
      if (s.cmds.find? fun cmd => cmd.tid == tid).isSome then s.maps
      else (mmapRemoveFd k s.maps fd).2.2 := by
  unfold internalMunmapFd
  split
  · rename_i hfind
    rw [hfind]
    rfl
  · rename_i hnone
    rw [hnone]
    dsimp only
    split <;> rfl

theorem ctxStep_maps {c : CtxId} (own : a.ctx = some c) (h : ctxStep k s c a = some t) :
    t.maps = mapsAfter k s a := by
  cases a with
  | stageBuffer _ size ok =>
    simp only [ctxStep] at h
    split_ifs at h
    obtain rfl := Option.some.inj h
    unfold stageBuffer
    split
    · rename_i alloc
      have maps := bufAlloc_maps alloc
      exact maps
    · rfl
  | allocMsg _ tx =>
    simp only [ctxStep] at h
    split_ifs at h
    obtain rfl := Option.some.inj h
    unfold allocCtxMsg
    split
    · rename_i alloc
      have maps := virtAllocMsg_maps alloc
      exact maps
    · rfl
  | send _ ok =>
    simp only [ctxStep] at h
    split at h
    · obtain rfl := Option.some.inj h
      rfl
    · cases h
  | _ =>
    first
    | (simp only [ctxStep] at h; split_ifs at h; obtain rfl := Option.some.inj own;
       obtain rfl := Option.some.inj h;
       first | rfl | exact mapBuffer_maps .. | exact mapHandles_maps .. | exact contextFree_maps ..)
    | cases own

theorem otherStep_maps (h : otherStep k s a = some t) : t.maps = mapsAfter k s a := by
  cases a with
  | invoke pid sc isAsync =>
    obtain rfl := Option.some.inj h
    unfold internalInvoke
    split
    · split <;> rfl
    · rfl
  | finishOp ok raddr => simp only [mapsAfter, show finishOp k s ok raddr = some t from h,
      Option.elim_some]
  | notifyAlloc tx =>
    change notifyAlloc s tx = some t at h
    unfold notifyAlloc at h
    split at h
    · split at h
      · rename_i alloc
        obtain rfl := Option.some.inj h
        have maps := virtAllocMsg_maps alloc
        exact maps
      · obtain rfl := Option.some.inj h
        rfl
    · cases h
  | notifyDone interrupted saved =>
    change notifyDone s interrupted saved = some t at h
    unfold notifyDone at h
    split at h
    · split_ifs at h
      all_goals obtain rfl := Option.some.inj h
      · rfl
      · rfl
      · exact virtFreeMsg_maps s _
    · cases h
  | cmdBegin tx =>
    obtain ⟨⟨m, u⟩, alloc, rfl⟩ := Option.map_eq_some_iff.mp h
    have maps := virtAllocMsg_maps alloc
    exact maps
  | cmdEnd m =>
    simp only [otherStep] at h
    split_ifs at h
    obtain rfl := Option.some.inj h
    exact virtFreeMsg_maps s m
  | init _ | foreignClaim _ | foreignFree _ =>
    simp only [otherStep] at h
    split_ifs at h
    obtain rfl := Option.some.inj h
    rfl
  | _ => cases h

theorem step_maps (h : step k s a = some t) : t.maps = mapsAfter k s a := by
  unfold step at h
  split at h
  · rename_i c own
    split_ifs at h
    exact ctxStep_maps own h
  · split_ifs at h with hcall hidle
    · cases a with
      | mmap ud dma pages =>
        obtain rfl := Option.some.inj h
        exact internalMmap_maps k s ud dma pages
      | memMap req dma =>
        obtain rfl := Option.some.inj h
        exact internalMemMap_maps k s req dma
      | munmapFd tid fd =>
        obtain rfl := Option.some.inj h
        exact internalMunmapFd_maps k s tid fd
      | munmap _ _ | memUnmap _ _ _ =>
        obtain rfl := Option.some.inj h
        rfl
      | _ => cases h
    · exact otherStep_maps h

end FileMoves
