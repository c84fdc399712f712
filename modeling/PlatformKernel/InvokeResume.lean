import PlatformKernel.MapReferences

/-!
# Invokes that are interrupted and resumed

An invoke that is interrupted while it waits leaves its context on a list, and the next
invoke of the same thread takes it from there, if the scalars agree. The context has a
request of its own: handle, scalars and the copied argument array, from which the message
was built and to whose buffers the response is copied. Here every context of a file is
kept together with the call it works for. Returns are history only.
-/

namespace InvokeResume

open GuardedRuns FileMaps ReturnCodes
open FileOperations hiding Action step
open InvokeMessage (RemoteArg)

structure Request where
  handle : UInt32
  sc : UInt32
  pra : List RemoteArg
  deriving DecidableEq

/-- A call of `vfastrpc_internal_invoke`; `isAsync` if it has an asynchronous job. -/
structure Call where
  req : Request
  isAsync : Bool
  deriving DecidableEq

/-- The request whose response was copied out, and the arguments it was copied to. -/
structure Delivery where
  response : Request
  pra : List RemoteArg
  deriving DecidableEq

structure Return where
  call : Call
  ret : Int
  delivered : Option Delivery
  deriving DecidableEq

/-- `req` is what the context was allocated for, `sent` the request in its message,
`active` the call that works on it. `bound` says whether the file has a domain. -/
structure State where
  file : File
  bound : Bool
  req : CtxId → Request
  active : CtxId → Option Call
  sent : CtxId → Option Request
  answer : CtxId → Option UInt32
  woken : CtxId → Bool
  returned : List Return

def State.opened : State where
  file := File.opened
  bound := false
  req := fun _ => ⟨0, 0, []⟩
  active := fun _ => none
  sent := fun _ => none
  answer := fun _ => none
  woken := fun _ => false
  returned := []

inductive Action where
  | file (a : FileOperations.Action)
  | bind
  | invoke (pid : Tid) (req : Request) (isAsync alloc : Bool)
  | send (c : CtxId) (ok : Bool)
  | answer (c : CtxId) (result : UInt32)
  | interrupt (c : CtxId)
  | wake (c : CtxId)
  | takeAsync (c : CtxId)
  | contextFree (c : CtxId) (copied : Bool)

/-- The steps of a file that do not begin, send or end an invoke. -/
def passes : FileOperations.Action → Bool
  | .invoke _ _ _ => false
  | .send _ _ => false
  | .interrupt _ => false
  | .wake _ => false
  | .takeAsync _ => false
  | .contextFree _ => false
  | _ => true

def State.returns (s : State) (call : Call) (ret : Int) (delivered : Option Delivery) : State :=
  { s with returned := ⟨call, ret, delivered⟩ :: s.returned }

/-- `context_alloc`: nothing is sent for a new context yet. -/
def State.allocates (s : State) (file : File) (call : Call) : State :=
  let c := s.file.nextCtx
  { s with
    file := file
    req := Function.update s.req c call.req
    active := Function.update s.active c (some call)
    sent := Function.update s.sent c none
    answer := Function.update s.answer c none
    woken := Function.update s.woken c false }

/-- `vfastrpc_internal_invoke` up to `get_args` or its wait; `kernelHandle` is
`FASTRPC_STATIC_HANDLE_KERNEL`, which is defined outside the repository. -/
def beginInvoke (k : Uapi) (kernelHandle : UInt32) (s : State) (pid : Tid) (call : Call)
    (alloc : Bool) : Option State :=
  if call.req.handle = kernelHandle then some (s.returns call verifyErr none)
  else if s.bound = false then some (s.returns call (-EBADR) none)
  else
    match savedOf s.file pid with
    | some c =>
      if (s.file.ctxs c).sc ≠ call.req.sc then some (s.returns call verifyErr none)
      else
        (FileOperations.step k s.file (.invoke pid call.req.sc call.isAsync)).map fun t =>
          { s with file := t, active := Function.update s.active c (some call) }
    | none =>
      if alloc then
        (FileOperations.step k s.file (.invoke pid call.req.sc call.isAsync)).map fun t =>
          s.allocates t call
      else some (s.returns call verifyErr none)

/-- The call lets its context go. -/
def State.leaves (s : State) (file : File) (c : CtxId) : State :=
  { s with file := file, active := Function.update s.active c none }

def step (k : Uapi) (kernelHandle : UInt32) (s : State) : Action → Option State
  | .file a =>
    if passes a then (FileOperations.step k s.file a).map fun t => { s with file := t } else none
  | .bind => some { s with bound := true }
  | .invoke pid req isAsync alloc => beginInvoke k kernelHandle s pid ⟨req, isAsync⟩ alloc
  -- not `ok`: `get_args` or `virt_fastrpc_invoke` failed and the context is freed next
  | .send c ok =>
    (s.active c).bind fun call => (FileOperations.step k s.file (.send c ok)).map fun t =>
      let s' := { s with sent := if ok then Function.update s.sent c (some (s.req c)) else s.sent }
      if ok ∧ call.isAsync then (s'.leaves t c).returns call 0 none else { s' with file := t }
  | .answer c result =>
    if s.sent c ≠ none ∧ s.answer c = none then
      some { s with answer := Function.update s.answer c (some result) }
    else none
  -- the wait returns an error only if there is no answer yet
  | .interrupt c =>
    if s.answer c = none then
      (s.active c).bind fun call => (FileOperations.step k s.file (.interrupt c)).map fun t =>
        (s.leaves t c).returns call (-ERESTARTSYS) none
    else none
  | .wake c =>
    if s.answer c ≠ none then
      (FileOperations.step k s.file (.wake c)).map fun t =>
        { s with file := t, woken := Function.update s.woken c true }
    else none
  | .takeAsync c =>
    if s.answer c ≠ none then
      (FileOperations.step k s.file (.takeAsync c)).map fun t => { s with file := t }
    else none
  -- `copied`: every `K_COPY_TO_USER` of `put_args` succeeded
  | .contextFree c copied =>
    (FileOperations.step k s.file (.contextFree c)).map fun t =>
      match s.active c with
      | none => { s with file := t }
      | some call =>
        if s.woken c ∧ s.answer c = some 0 ∧ copied then
          (s.leaves t c).returns call 0 ((s.sent c).map fun r => ⟨r, (s.req c).pra⟩)
        else (s.leaves t c).returns call verifyErr none

def Answered (r : Return) : Prop :=
  r.ret = 0 → r.call.isAsync = false → r.delivered = some ⟨r.call.req, r.call.req.pra⟩

instance (r : Return) : Decidable (Answered r) := inferInstanceAs (Decidable (_ → _ → _))

structure Paired (s : State) : Prop where
  active : ∀ c call, s.active c = some call → call.isAsync = false → s.req c = call.req
  sent : ∀ c r, s.sent c = some r → r = s.req c
  answered : ∀ c, s.answer c ≠ none → s.sent c ≠ none
  returned : ∀ r ∈ s.returned, Answered r

/-- A synchronous invoke that finds an interrupted context of its thread with the same
scalars asks for what this context was allocated for. -/
def SameRequest (s : State) : Action → Prop
  | .invoke pid req isAsync _ => isAsync = false → ∀ c ∈ savedOf s.file pid,
      (s.file.ctxs c).sc = req.sc → s.req c = req
  | _ => True

instance (s : State) (a : Action) : Decidable (SameRequest s a) := by
  unfold SameRequest
  split <;> infer_instance

section runs

variable {k : Uapi} {kernelHandle : UInt32} {s t : State} {a : Action}

theorem paired_file (h : Paired s) (file : File) (bound : Bool) (woken : CtxId → Bool) :
    Paired { s with file := file, bound := bound, woken := woken } :=
  ⟨h.active, h.sent, h.answered, h.returned⟩

theorem paired_returns (h : Paired s) {call : Call} {ret : Int} {delivered : Option Delivery}
    (ok : Answered ⟨call, ret, delivered⟩) : Paired (s.returns call ret delivered) where
  active := h.active
  sent := h.sent
  answered := h.answered
  returned := fun r hr => by
    rcases List.mem_cons.mp hr with rfl | hold
    · exact ok
    · exact h.returned r hold

theorem paired_leaves (h : Paired s) (file : File) (c : CtxId) : Paired (s.leaves file c) where
  active := fun d call hd => by
    change Function.update s.active c none d = some call at hd
    rw [Function.update_apply] at hd
    split_ifs at hd
    exact h.active d call hd
  sent := h.sent
  answered := h.answered
  returned := h.returned

theorem refused_answered {call : Call} {ret : Int} (hret : ret ≠ 0) (delivered : Option Delivery) :
    Answered ⟨call, ret, delivered⟩ := fun hzero => False.elim (hret hzero)

/-- The call resumes a context of its own request. -/
theorem paired_resumes (h : Paired s) {c : CtxId} {call : Call} (file : File)
    (same : call.isAsync = false → s.req c = call.req) :
    Paired { s with file := file, active := Function.update s.active c (some call) } where
  active := fun d call' hd => by
    dsimp only at hd
    rw [Function.update_apply] at hd
    split_ifs at hd with hdc
    · obtain rfl := Option.some.inj hd
      exact hdc ▸ same
    · exact h.active d call' hd
  sent := h.sent
  answered := h.answered
  returned := h.returned

theorem paired_allocates (h : Paired s) (file : File) (call : Call) :
    Paired (s.allocates file call) where
  active := fun d call' hd => by
    simp only [State.allocates, Function.update_apply] at hd ⊢
    split_ifs at hd ⊢
    · obtain rfl := Option.some.inj hd
      exact fun _ => rfl
    · exact h.active d call' hd
  sent := fun d r hd => by
    simp only [State.allocates, Function.update_apply] at hd ⊢
    split_ifs at hd ⊢
    exact h.sent d r hd
  answered := fun d hd => by
    simp only [State.allocates, Function.update_apply] at hd ⊢
    split_ifs at hd ⊢
    · exact False.elim (hd rfl)
    · exact h.answered d hd
  returned := h.returned

theorem paired_begin (h : Paired s) {pid : Tid} {call : Call} {alloc : Bool}
    (ok : SameRequest s (.invoke pid call.req call.isAsync alloc))
    (hstep : beginInvoke k kernelHandle s pid call alloc = some t) : Paired t := by
  have refused : ∀ ret, ret ≠ 0 → Paired (s.returns call ret none) := fun ret hret =>
    paired_returns h (refused_answered hret none)
  unfold beginInvoke at hstep
  split at hstep
  · obtain rfl := Option.some.inj hstep
    exact refused _ (by decide)
  split at hstep
  · obtain rfl := Option.some.inj hstep
    exact refused _ (by decide)
  split at hstep
  · rename_i c hfind
    split at hstep
    · obtain rfl := Option.some.inj hstep
      exact refused _ (by decide)
    · rename_i hsc
      obtain ⟨file, -, rfl⟩ := Option.map_eq_some_iff.mp hstep
      exact paired_resumes h file fun hsync => ok hsync c hfind (not_not.mp hsc)
  · split at hstep
    · obtain ⟨file, -, rfl⟩ := Option.map_eq_some_iff.mp hstep
      exact paired_allocates h file call
    · obtain rfl := Option.some.inj hstep
      exact refused _ (by decide)

theorem paired_sent (h : Paired s) (c : CtxId) (ok : Bool) :
    Paired { s with sent := if ok then Function.update s.sent c (some (s.req c)) else s.sent } := by
  cases ok with
  | false => exact ⟨h.active, h.sent, h.answered, h.returned⟩
  | true =>
    refine ⟨h.active, fun d r hd => ?_, fun d hd => ?_, h.returned⟩
    · simp only [if_true, Function.update_apply] at hd
      split_ifs at hd with hdc
      · rw [← Option.some.inj hd, hdc]
      · exact h.sent d r hd
    · simp only [if_true, Function.update_apply]
      split_ifs
      · exact fun e => by cases e
      · exact h.answered d hd

theorem step_paired (h : Paired s) (ok : SameRequest s a)
    (hstep : step k kernelHandle s a = some t) : Paired t := by
  cases a with
  | file b =>
    simp only [step] at hstep
    split_ifs at hstep
    obtain ⟨file, -, rfl⟩ := Option.map_eq_some_iff.mp hstep
    exact paired_file h file s.bound s.woken
  | bind =>
    obtain rfl := Option.some.inj hstep
    exact paired_file h s.file true s.woken
  | invoke pid req isAsync alloc => exact paired_begin h ok hstep
  | send c sent =>
    obtain ⟨call, -, hstep⟩ := Option.bind_eq_some_iff.mp hstep
    obtain ⟨file, -, rfl⟩ := Option.map_eq_some_iff.mp hstep
    have base := paired_sent h c sent
    dsimp only
    split
    · rename_i hcond
      refine paired_returns (paired_leaves base file c) fun _ hsync => ?_
      rw [hcond.2] at hsync
      cases hsync
    · exact paired_file base file s.bound s.woken
  | answer c result =>
    simp only [step] at hstep
    split_ifs at hstep with hcond
    obtain rfl := Option.some.inj hstep
    refine ⟨h.active, h.sent, fun d hd => ?_, h.returned⟩
    simp only [Function.update_apply] at hd
    split_ifs at hd with hdc
    · rw [hdc]
      exact hcond.1
    · exact h.answered d hd
  | interrupt c =>
    simp only [step] at hstep
    split_ifs at hstep
    obtain ⟨call, -, hstep⟩ := Option.bind_eq_some_iff.mp hstep
    obtain ⟨file, -, rfl⟩ := Option.map_eq_some_iff.mp hstep
    exact paired_returns (paired_leaves h file c) (refused_answered (by decide) none)
  | wake c =>
    simp only [step] at hstep
    split_ifs at hstep
    obtain ⟨file, -, rfl⟩ := Option.map_eq_some_iff.mp hstep
    exact paired_file h file s.bound _
  | takeAsync c =>
    simp only [step] at hstep
    split_ifs at hstep
    obtain ⟨file, -, rfl⟩ := Option.map_eq_some_iff.mp hstep
    exact paired_file h file s.bound s.woken
  | contextFree c copied =>
    obtain ⟨file, -, rfl⟩ := Option.map_eq_some_iff.mp hstep
    split
    · exact paired_file h file s.bound s.woken
    · rename_i call hactive
      have left := paired_leaves h file c
      split
      · rename_i hcond
        refine paired_returns left fun _ hsync => ?_
        obtain ⟨r, hr⟩ := Option.ne_none_iff_exists'.mp (h.answered c (by simp [hcond.2.1]))
        rw [hr, h.sent c r hr, h.active c call hactive hsync]
        rfl
      · exact paired_returns left (refused_answered (by decide) none)

end runs

/-- In every run in which no invoke resumes a context of another request, a synchronous
invoke that returns 0 delivered the response to its own request. -/
theorem invoke_delivers_own_response (k : Uapi) (kernelHandle : UInt32) (as : List Action)
    (s : State) (along : Along (step k kernelHandle) SameRequest State.opened as)
    (run : exec (step k kernelHandle) State.opened as = some s) :
    ∀ r ∈ s.returned, r.ret = 0 → r.call.isAsync = false →
      r.delivered = some ⟨r.call.req, r.call.req.pra⟩ := by
  have start : Paired State.opened :=
    ⟨fun _ _ h => (by cases h), fun _ _ h => (by cases h), fun _ h => False.elim (h rfl),
      fun _ h => by cases h⟩
  exact (exec_invariant_along SameRequest (fun _ _ _ h ok hs => step_paired h ok hs)
    start along run).returned

open MapReferences (uapi)

/-- One output buffer, at different places. -/
def readHere : Request := ⟨2, 0x100, [⟨0x1000, 64⟩]⟩
def readThere : Request := ⟨3, 0x100, [⟨0x2000, 64⟩]⟩

/-- Thread 7 is interrupted in its first invoke and then calls `again`. -/
def resumedInvoke (again : Request) : List Action :=
  [.bind, .invoke 7 readHere false true, .file (.allocMsg 0 true), .send 0 true, .interrupt 0,
    .invoke 7 again false true, .answer 0 0, .wake 0, .contextFree 0 true]

theorem resumedInvoke_delivers : ∃ s, exec (step uapi 1) State.opened (resumedInvoke readHere) =
      some s ∧ s.returned.map Return.ret = [0, -ERESTARTSYS] ∧
    ∀ r ∈ s.returned, r.ret = 0 → r.call.isAsync = false →
      r.delivered = some ⟨r.call.req, r.call.req.pra⟩ :=
  ⟨_, rfl, rfl, invoke_delivers_own_response uapi 1 (resumedInvoke readHere) _
    (by decide +kernel) rfl⟩

/-- Another request with equal scalars returns 0, and its buffer was never written. -/
theorem other_request_resumed : ∃ s, exec (step uapi 1) State.opened
      (resumedInvoke readThere) = some s ∧
    ∃ r ∈ s.returned, r.ret = 0 ∧ r.call.isAsync = false ∧
      r.delivered ≠ some ⟨r.call.req, r.call.req.pra⟩ :=
  ⟨_, rfl, by decide +kernel⟩

end InvokeResume
