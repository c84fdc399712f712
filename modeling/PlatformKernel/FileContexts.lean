import PlatformKernel.FileMoves

/-!
# What a step does to the contexts of a file

The inversion of the step function as far as contexts are concerned: how a context is
begun, resumed, saved and freed, and what its own steps may change in it. Map calls,
commands and other files leave the contexts and their lists alone.
-/

namespace FileContexts

open CountedLoops FileMaps FileOperations FileMoves
open InvokeMessage (bufs)

/-- Agreement on the contexts and on the lists they are on. -/
structure SameContexts (s t : File) : Prop where
  ctxs : t.ctxs = s.ctxs
  pending : t.pending = s.pending
  interrupted : t.interrupted = s.interrupted
  freed : t.freedCtxs = s.freedCtxs
  next : t.nextCtx = s.nextCtx

theorem SameContexts.refl (s : File) : SameContexts s s := ⟨rfl, rfl, rfl, rfl, rfl⟩

/-- The steps that take a context out of its stage when they succeed. -/
def advances : Action → Bool
  | .send _ _ => true
  | .wake _ => true
  | .takeAsync _ => true
  | _ => false

/-- The steps that fill slots of a context. -/
def remaps : Action → Bool
  | .mapBuffer _ _ _ _ => true
  | .mapHandles _ _ => true
  | _ => false

/-- The steps that are not about contexts, and the one that only releases maps. -/
def idles : Action → Bool
  | .invoke _ _ _ => false
  | .putFdlist _ _ => true
  | a => a.ctx.isNone

/-- The steps that take a context off its list. -/
def unlists : Action → Bool
  | .interrupt _ => true
  | .contextFree _ => true
  | _ => false

/-- How far a context gets by one of its own steps. -/
inductive StageMoves (ctx : InvokeCtx) (a : Action) : Stage → Prop where
  | same (stays : advances a = false) : StageMoves ctx a ctx.stage
  | fails (building : ctx.stage = .building) (unsent : ∀ c, a ≠ .send c true) :
      StageMoves ctx a .ending
  | sends {c : CtxId} (building : ctx.stage = .building) (action : a = .send c true) :
      StageMoves ctx a (if ctx.isAsync then .queued else .waiting)
  | wakes {c : CtxId} (waiting : ctx.stage = .waiting) (action : a = .wake c) :
      StageMoves ctx a .ending
  | taken {c : CtxId} (queued : ctx.stage = .queued) (action : a = .takeAsync c) :
      StageMoves ctx a .ending

structure Edit (a : Action) (ctx ctx' : InvokeCtx) : Prop where
  pid : ctx'.pid = ctx.pid
  sc : ctx'.sc = ctx.sc
  isAsync : ctx'.isAsync = ctx.isAsync
  stage : StageMoves ctx a ctx'.stage
  slots : remaps a = false → ∀ i, ctx'.maps i = ctx.maps i ∨ ctx'.maps i = none

inductive ContextMoves (s : File) : Action → File → Prop where
  | aside {a : Action} (other : idles a = true) : ContextMoves s a s
  | refused {pid : Tid} {sc : UInt32} {isAsync : Bool} {c : CtxId} (saved : savedOf s pid = some c)
      (differs : (s.ctxs c).sc ≠ sc) : ContextMoves s (.invoke pid sc isAsync) s
  | begins {pid : Tid} {sc : UInt32} {isAsync : Bool} (fresh : savedOf s pid = none) :
      ContextMoves s (.invoke pid sc isAsync)
        { s.setCtx s.nextCtx ⟨pid, sc, isAsync, fun _ => none, [], none, .building⟩ with
          pending := s.nextCtx :: s.pending
          nextCtx := s.nextCtx + 1 }
  | resumes {pid : Tid} {sc : UInt32} {isAsync : Bool} {c : CtxId} (saved : savedOf s pid = some c)
      (same : (s.ctxs c).sc = sc) :
      ContextMoves s (.invoke pid sc isAsync)
        { s.setCtx c { s.ctxs c with stage := .waiting } with
          interrupted := s.interrupted.erase c
          pending := c :: s.pending }
  | edits {a : Action} {c : CtxId} {ctx : InvokeCtx} (own : a.ctx = some c)
      (listed : unlists a = false) (pending : c ∈ s.pending) (edit : Edit a (s.ctxs c) ctx) :
      ContextMoves s a (s.setCtx c ctx)
  | interrupts {c : CtxId} (pending : c ∈ s.pending) (waiting : (s.ctxs c).stage = .waiting) :
      ContextMoves s (.interrupt c)
        { s with pending := s.pending.erase c, interrupted := c :: s.interrupted }
  | frees {c : CtxId} (pending : c ∈ s.pending) (ending : (s.ctxs c).stage = .ending) :
      ContextMoves s (.contextFree c)
        { s with
          pending := s.pending.erase c
          interrupted := s.interrupted.erase c
          freedCtxs := c :: s.freedCtxs }

section steps

variable {k : Uapi} {s t : File} {a : Action}

/-- The slots of buffers are not touched by the loop over the handles. -/
theorem mapHandles_buffers (sc : UInt32) (handles : Nat → Handle) (maps : Maps)
    (slots : Nat → Option MapId) {n i : Nat} (hi : i < bufs sc) :
    (loop (mapHandle k sc handles) (bufs sc) n (maps, slots)).state.2 i = slots i := by
  refine holds_state (Q := fun st : Slots => st.2 i = slots i)
    (loop_holds (fun _ (st : Slots) => st.2 i = slots i) rfl fun j st hj _ hst => ?_)
  unfold mapHandle
  split
  · exact hst
  dsimp only
  split
  · have hne : i ≠ j := by omega
    simp only [holds_next, Function.update_of_ne hne]
    exact hst
  · exact hst

/-- A step of the context's own that keeps its identity and its slots. -/
theorem edit_stage {ctx : InvokeCtx} {stage : Stage} (moves : StageMoves ctx a stage)
    (desc : List BufId) (msg : Option MsgId) :
    Edit a ctx { ctx with desc := desc, msg := msg, stage := stage } :=
  ⟨rfl, rfl, rfl, moves, fun _ _ => Or.inl rfl⟩

theorem edit_slots {ctx : InvokeCtx} {stage : Stage} (fills : remaps a = true)
    (moves : StageMoves ctx a stage) (slots : Nat → Option MapId) :
    Edit a ctx { ctx with maps := slots, stage := stage } :=
  ⟨rfl, rfl, rfl, moves, fun hno => by rw [fills] at hno; cases hno⟩

theorem ctxStep_contexts {c : CtxId} (own : a.ctx = some c) (pending : c ∈ s.pending)
    (h : ctxStep k s c a = some t) : ∃ u, ContextMoves s a u ∧ SameContexts u t := by
  cases a with
  | mapBuffer _ i req dma =>
    simp only [ctxStep] at h
    split_ifs at h with hcond
    obtain rfl := Option.some.inj h
    unfold mapBuffer
    split
    · exact ⟨_, .edits own rfl pending (edit_slots rfl (.same rfl) _), ⟨rfl, rfl, rfl, rfl, rfl⟩⟩
    · exact ⟨_, .edits own rfl pending (edit_stage (.fails hcond.1 fun _ hc => by cases hc) _ _),
        ⟨rfl, rfl, rfl, rfl, rfl⟩⟩
  | mapHandles _ handles =>
    simp only [ctxStep] at h
    split_ifs at h with hcond
    obtain rfl := Option.some.inj h
    unfold mapHandles
    dsimp only
    split
    · exact ⟨_, .edits own rfl pending (edit_slots rfl (.same rfl) _), ⟨rfl, rfl, rfl, rfl, rfl⟩⟩
    · exact ⟨_, .edits own rfl pending (edit_slots rfl (.fails hcond fun _ hc => by cases hc) _),
        ⟨rfl, rfl, rfl, rfl, rfl⟩⟩
  | stageBuffer _ size ok =>
    simp only [ctxStep] at h
    split_ifs at h with hcond
    obtain rfl := Option.some.inj h
    unfold stageBuffer
    split
    · rename_i b u halloc
      refine ⟨_, .edits own rfl pending (edit_stage (.same rfl) ((s.ctxs c).desc ++ [b])
        (s.ctxs c).msg), ?_⟩
      rcases bufAlloc_some halloc with ⟨-, -, rfl⟩ | ⟨-, rfl⟩
      · exact ⟨rfl, rfl, rfl, rfl, rfl⟩
      · exact ⟨rfl, rfl, rfl, rfl, rfl⟩
    · exact ⟨_, .edits own rfl pending (edit_stage (.fails hcond fun _ hc => by cases hc) _ _),
        ⟨rfl, rfl, rfl, rfl, rfl⟩⟩
  | allocMsg _ tx =>
    simp only [ctxStep] at h
    split_ifs at h with hcond
    obtain rfl := Option.some.inj h
    unfold allocCtxMsg
    split
    · rename_i m u halloc
      refine ⟨_, .edits own rfl pending (edit_stage (.same rfl) (s.ctxs c).desc (some m)), ?_⟩
      obtain ⟨i, -, -, rfl⟩ := virtAllocMsg_some halloc
      exact ⟨rfl, rfl, rfl, rfl, rfl⟩
    · exact ⟨_, .edits own rfl pending (edit_stage (.fails hcond.1 fun _ hc => by cases hc) _ _),
        ⟨rfl, rfl, rfl, rfl, rfl⟩⟩
  | send _ ok =>
    simp only [ctxStep] at h
    split at h
    · rename_i hcond
      obtain rfl := Option.some.inj h
      refine ⟨_, .edits own rfl pending (edit_stage ?_ _ _), SameContexts.refl _⟩
      cases ok with
      | false => exact .fails hcond.1 fun _ hc => by cases hc
      | true => exact .sends hcond.1 rfl
    · cases h
  | interrupt _ =>
    simp only [ctxStep] at h
    split_ifs at h with hcond
    obtain rfl := Option.some.inj h
    obtain rfl := Option.some.inj own
    exact ⟨_, .interrupts pending hcond, SameContexts.refl _⟩
  | wake _ =>
    simp only [ctxStep] at h
    split_ifs at h with hcond
    obtain rfl := Option.some.inj h
    exact ⟨_, .edits own rfl pending (edit_stage (.wakes hcond rfl) _ _), SameContexts.refl _⟩
  | takeAsync _ =>
    simp only [ctxStep] at h
    split_ifs at h with hcond
    obtain rfl := Option.some.inj h
    exact ⟨_, .edits own rfl pending (edit_stage (.taken hcond rfl) _ _), SameContexts.refl _⟩
  | putBuffer _ i =>
    simp only [ctxStep] at h
    split_ifs at h
    obtain rfl := Option.some.inj h
    have edit : Edit (.putBuffer c i) (s.ctxs c)
        { s.ctxs c with maps := Function.update (s.ctxs c).maps i none } := by
      refine ⟨rfl, rfl, rfl, .same rfl, fun _ j => ?_⟩
      by_cases hj : j = i
      · exact Or.inr (by rw [hj]; exact Function.update_self _ _ _)
      · exact Or.inl (Function.update_of_ne hj _ _)
    obtain rfl := Option.some.inj own
    exact ⟨_, .edits rfl rfl pending edit, ⟨rfl, rfl, rfl, rfl, rfl⟩⟩
  | putFdlist _ fdlist =>
    simp only [ctxStep] at h
    split_ifs at h
    obtain rfl := Option.some.inj h
    exact ⟨s, .aside rfl, ⟨rfl, rfl, rfl, rfl, rfl⟩⟩
  | contextFree _ =>
    simp only [ctxStep] at h
    split_ifs at h with hcond
    obtain rfl := Option.some.inj h
    obtain ⟨_, _, _, _, _, _, hfree⟩ := contextDrop_frame { s with
      pending := s.pending.erase c, interrupted := s.interrupted.erase c } c
    rw [contextFree, hfree]
    obtain rfl := Option.some.inj own
    exact ⟨_, .frees pending hcond, ⟨rfl, rfl, rfl, rfl, rfl⟩⟩
  | _ => cases h

/-- Map calls leave the contexts alone. -/
theorem mapCall_contexts (h : mapCall k s a = some t) : SameContexts s t := by
  cases a with
  | mmap ud dma pages =>
    obtain rfl := Option.some.inj h
    unfold internalMmap
    split
    · split
      · exact SameContexts.refl s
      split
      · rename_i halloc
        rcases bufAlloc_some halloc with ⟨-, -, rfl⟩ | ⟨-, rfl⟩
        · exact ⟨rfl, rfl, rfl, rfl, rfl⟩
        · exact ⟨rfl, rfl, rfl, rfl, rfl⟩
      · exact SameContexts.refl s
    split <;> exact ⟨rfl, rfl, rfl, rfl, rfl⟩
  | memMap req dma =>
    obtain rfl := Option.some.inj h
    unfold internalMemMap
    split <;> exact ⟨rfl, rfl, rfl, rfl, rfl⟩
  | munmap vaddrout size =>
    obtain rfl := Option.some.inj h
    unfold internalMunmap
    split
    · exact ⟨rfl, rfl, rfl, rfl, rfl⟩
    split <;> exact ⟨rfl, rfl, rfl, rfl, rfl⟩
  | memUnmap fd vaddr length =>
    obtain rfl := Option.some.inj h
    unfold internalMemUnmap
    split <;> exact ⟨rfl, rfl, rfl, rfl, rfl⟩
  | munmapFd tid fd =>
    obtain rfl := Option.some.inj h
    unfold internalMunmapFd
    split
    · exact ⟨rfl, rfl, rfl, rfl, rfl⟩
    dsimp only
    split <;> exact ⟨rfl, rfl, rfl, rfl, rfl⟩
  | _ => cases h

theorem virtFreeMsg_contexts (s : File) (m : MsgId) : SameContexts s (virtFreeMsg s m) := by
  obtain ⟨_, hfree⟩ := virtFreeMsg_frame s m
  rw [hfree]
  exact ⟨rfl, rfl, rfl, rfl, rfl⟩

theorem virtAllocMsg_contexts {tx : Bool} {m : MsgId} (h : virtAllocMsg s tx = some (m, t)) :
    SameContexts s t := by
  obtain ⟨i, -, -, rfl⟩ := virtAllocMsg_some h
  exact ⟨rfl, rfl, rfl, rfl, rfl⟩

theorem finishOp_contexts {ok : Bool} {raddr : UInt64} (h : finishOp k s ok raddr = some t) :
    SameContexts s t := by
  unfold finishOp at h
  split at h
  · obtain rfl := Option.some.inj h
    exact ⟨rfl, rfl, rfl, rfl, rfl⟩
  · obtain rfl := Option.some.inj h
    exact ⟨rfl, rfl, rfl, rfl, rfl⟩
  · obtain rfl := Option.some.inj h
    exact ⟨rfl, rfl, rfl, rfl, rfl⟩
  · obtain rfl := Option.some.inj h
    exact ⟨rfl, rfl, rfl, rfl, rfl⟩
  · obtain rfl := Option.some.inj h
    exact ⟨rfl, rfl, rfl, rfl, rfl⟩
  · rename_i b hop
    obtain rfl := Option.some.inj h
    split
    · obtain ⟨_, _, _, _, _, hfree⟩ := bufFree_frame s b false
      rw [hfree]
      exact ⟨rfl, rfl, rfl, rfl, rfl⟩
    · exact ⟨rfl, rfl, rfl, rfl, rfl⟩
  · cases h

theorem notifyAlloc_contexts {tx : Bool} (h : notifyAlloc s tx = some t) : SameContexts s t := by
  unfold notifyAlloc at h
  split at h
  · split at h
    · rename_i halloc
      obtain rfl := Option.some.inj h
      have same := virtAllocMsg_contexts halloc
      exact ⟨same.ctxs, same.pending, same.interrupted, same.freed, same.next⟩
    · obtain rfl := Option.some.inj h
      exact ⟨rfl, rfl, rfl, rfl, rfl⟩
  · cases h

theorem notifyDone_contexts {interrupted saved : Bool}
    (h : notifyDone s interrupted saved = some t) : SameContexts s t := by
  unfold notifyDone at h
  split at h
  · rename_i tid m hop
    split_ifs at h
    · obtain rfl := Option.some.inj h
      exact ⟨rfl, rfl, rfl, rfl, rfl⟩
    · obtain rfl := Option.some.inj h
      exact ⟨rfl, rfl, rfl, rfl, rfl⟩
    · obtain rfl := Option.some.inj h
      have same := virtFreeMsg_contexts s m
      exact ⟨same.ctxs, same.pending, same.interrupted, same.freed, same.next⟩
  · cases h

theorem invoke_contexts (pid : Tid) (sc : UInt32) (isAsync : Bool) :
    ContextMoves s (.invoke pid sc isAsync) (internalInvoke s pid sc isAsync) := by
  unfold internalInvoke
  split
  · rename_i c hfind
    split
    · rename_i hsc
      exact .refused hfind hsc
    · rename_i hsc
      exact .resumes hfind (not_not.mp hsc)
  · rename_i hfind
    exact .begins hfind

theorem otherStep_contexts (h : otherStep k s a = some t) :
    ∃ u, ContextMoves s a u ∧ SameContexts u t := by
  cases a with
  | init cid =>
    simp only [otherStep] at h
    split_ifs at h
    obtain rfl := Option.some.inj h
    exact ⟨s, .aside rfl, ⟨rfl, rfl, rfl, rfl, rfl⟩⟩
  | invoke pid sc isAsync =>
    obtain rfl := Option.some.inj h
    exact ⟨_, invoke_contexts pid sc isAsync, SameContexts.refl _⟩
  | finishOp ok raddr => exact ⟨s, .aside rfl, finishOp_contexts h⟩
  | notifyAlloc tx => exact ⟨s, .aside rfl, notifyAlloc_contexts h⟩
  | notifyDone interrupted saved => exact ⟨s, .aside rfl, notifyDone_contexts h⟩
  | cmdBegin tx =>
    obtain ⟨⟨m, u⟩, halloc, rfl⟩ := Option.map_eq_some_iff.mp h
    have same := virtAllocMsg_contexts halloc
    exact ⟨s, .aside rfl, ⟨same.ctxs, same.pending, same.interrupted, same.freed, same.next⟩⟩
  | cmdEnd m =>
    simp only [otherStep] at h
    split_ifs at h
    obtain rfl := Option.some.inj h
    have same := virtFreeMsg_contexts s m
    exact ⟨s, .aside rfl, ⟨same.ctxs, same.pending, same.interrupted, same.freed, same.next⟩⟩
  | foreignClaim i | foreignFree i =>
    simp only [otherStep] at h
    split_ifs at h
    obtain rfl := Option.some.inj h
    exact ⟨s, .aside rfl, ⟨rfl, rfl, rfl, rfl, rfl⟩⟩
  | _ => cases h

theorem step_contexts (h : step k s a = some t) : ∃ u, ContextMoves s a u ∧ SameContexts u t := by
  unfold step at h
  split at h
  · rename_i c hctx
    split_ifs at h with hc
    exact ctxStep_contexts hctx hc h
  · split_ifs at h with hcall hidle
    · have other : idles a = true := by cases a <;> first | rfl | cases hcall
      exact ⟨s, .aside other, mapCall_contexts h⟩
    · exact otherStep_contexts h

end steps

end FileContexts
