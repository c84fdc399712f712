import PlatformKernel.BufferCache
import PlatformKernel.PageAllocation
import PlatformKernel.ResourceTraces

/-!
# The memory behind the buffers of a file

Each buffer has a structure, an array of pages, the pages, a scatter list and, unless it is
DSP heap, a kernel mapping. `vfastrpc_alloc_buffer` takes them one after the other and gives
them back at its labels; `vfastrpc_free_buffer` gives all of them back. Every acquisition and
release is kept in a trace, through the cache and over any order of the calls.
-/

namespace PageLedger

open GuardedRuns ResourceTraces FileOperations ReturnCodes
open PageAllocation hiding State
open StagingPages (Answers pageCount)

inductive Resource where
  | buf (b : BufId)
  | array (b : BufId)
  | page (b : BufId) (p : Page)
  | table (b : BufId)
  | mapping (b : BufId)
  deriving DecidableEq

abbrev Trace := List (Event Resource)

/-- `buf->pages`, and whether `buf->va` is set. -/
structure Contents where
  pages : List (Option Page)
  mapped : Bool

/-- `kvzalloc` refuses more than `INT_MAX` bytes. -/
def kvzalloc (x : Answers) (size : Nat) : Bool := x.array && decide (size ≤ intMax)

/-- `vfastrpc_free_pages`. -/
def freeArray (b : BufId) (pages : List (Option Page)) (count : UInt32) : Option Trace :=
  (PageAllocation.freePages pages count.toInt32).map fun freed =>
    releases (freed.map (.page b)) ++ [.release (.array b)]

/-- `vfastrpc_alloc_pages` for the pages of `b`. -/
def allocPages (maxOrder : Nat) (x : Answers) (b : BufId) (count : UInt32) :
    Option (Option (List (Option Page)) × Trace) :=
  (vfastrpcAllocPages (kvzalloc x) x.page maxOrder (count.toNat + maxOrder + 2) count).map fun o =>
    let array := present (kvzalloc x (count.toNat * 8)) (.array b)
    (o.result, acquires array ++ acquires ((taken o.log).map (.page b)) ++
      releases (o.freed.map (.page b)) ++ releases (if o.result.isSome then [] else array))

/-- `vfastrpc_alloc_buffer`; `sg_alloc_table_from_pages` makes no table of no pages. -/
def allocBuffer (maxOrder : Nat) (x : Answers) (b : BufId) (size : UInt64) (mapped : Bool) :
    Option (Option Contents × Trace) := do
  let count := pageCount size
  let (result, first) ← allocPages maxOrder x b count
  match result with
  | none => return (none, first)
  | some pages =>
    if count = 0 ∨ x.table = false then
      return (none, first ++ (← freeArray b pages count))
    else if mapped = true ∧ x.vmap = false then
      return (none, first ++ [.acquire (.table b), .release (.table b)] ++
        (← freeArray b pages count))
    else
      return (some ⟨pages, mapped⟩,
        first ++ [.acquire (.table b)] ++ acquires (present mapped (.mapping b)))

/-- `vfastrpc_free_buffer`. -/
def freeBuffer (b : BufId) (size : UInt64) (c : Contents) : Option Trace := do
  let pages ← freeArray b c.pages (pageCount size)
  return releases (present c.mapped (.mapping b)) ++ [.release (.table b)] ++ pages

structure State where
  file : File
  staged : List (CtxId × BufId)
  contents : BufId → Contents
  trace : Trace

def State.opened : State := ⟨File.opened, [], fun _ => ⟨[], false⟩, []⟩

/-- `vfastrpc_buf_alloc`. Without pages the new buffer is freed again. -/
def bufAlloc (maxOrder : Nat) (s : State) (size : UInt64) (rflags : UInt32) (remote : Bool)
    (x : Answers) : Option (Option BufId × State) :=
  if size = 0 then some (none, s)
  else
    match if remote then none else bestFit s.file size with
    | some b =>
      some (some b, { s with
        file := { s.file with
          cached := s.file.cached.erase b
          numCached := s.file.numCached - 1 } })
    | none =>
      if x.buf then do
        let b := s.file.nextBuf
        let (contents, events) ← allocBuffer maxOrder x b size (!remote)
        match contents with
        | some c => return (some b, { s with
            file := (bufNew s.file size rflags remote).2
            contents := Function.update s.contents b c
            trace := s.trace ++ (.acquire (.buf b) :: events) })
        | none => return (none, { s with
            trace := s.trace ++ (.acquire (.buf b) :: events) ++ [.release (.buf b)] })
      else some (none, s)

/-- `vfastrpc_buf_free` past its label `skip_buf_cache`. -/
def bufDrop (s : State) (b : BufId) : Option State := do
  let events ← freeBuffer b (s.file.bufs b).size (s.contents b)
  return { s with
    file := FileOperations.bufDrop s.file b
    trace := s.trace ++ events ++ [.release (.buf b)] }

/-- `vfastrpc_buf_free`. -/
def bufFree (s : State) (b : BufId) (cache : Bool) : Option State :=
  if cache ∧ (s.file.bufs b).size < maxCacheBufSize then
    if maxCachedBufs < s.file.numCached then bufDrop s b
    else some { s with file := { s.file with
      cached := b :: s.file.cached, numCached := s.file.numCached + 1 } }
  else bufDrop s b

inductive Action where
  | stage (c : CtxId) (size : UInt64) (x : Answers)
  | release (c : CtxId) (b : BufId)
  | addPages (size : UInt64) (flags : UInt32) (x : Answers)
  | mapPages (b : BufId) (raddr : UInt64)
  | freePages (b : BufId)
  | drainCached
  | drainRemote

local instance : LawfulBEq (CtxId × BufId) := inferInstance

def step (maxOrder : Nat) (s : State) : Action → Option State
  | .stage c size x =>
    (bufAlloc maxOrder s size 0 false x).map fun r =>
      match r.1 with
      | some b => { r.2 with staged := (c, b) :: s.staged }
      | none => r.2
  | .release c b =>
    if (c, b) ∈ s.staged then
      (bufFree s b true).map fun t => { t with staged := s.staged.erase (c, b) }
    else none
  | .addPages size flags x => (bufAlloc maxOrder s size flags true x).map Prod.snd
  | .mapPages b raddr =>
    some { s with file := { s.file with
      bufs := Function.update s.file.bufs b { s.file.bufs b with raddr := raddr } } }
  | .freePages b => if b ∈ s.file.remoteBufs then bufFree s b false else none
  | .drainCached =>
    match s.file.cached with
    | [] => none
    | b :: rest =>
      bufFree { s with file := { s.file with
        cached := rest, numCached := s.file.numCached - 1 } } b false
  | .drainRemote =>
    match s.file.remoteBufs with
    | [] => none
    | b :: _ => bufFree s b false

/-- The memory of a buffer besides its structure. -/
def memory (b : BufId) (c : Contents) : Multiset Resource :=
  ({.array b} : Multiset Resource) + Multiset.ofList (c.pages.reduceOption.map (.page b)) +
    ({.table b} : Multiset Resource) + Multiset.ofList (present c.mapped (.mapping b))

def resources (b : BufId) (c : Contents) : Multiset Resource :=
  ({.buf b} : Multiset Resource) + memory b c

/-- Every page of the array is there, once, and as many as the size asks for. -/
structure Backed (size : UInt64) (c : Contents) : Prop where
  full : ∃ ps : List Page, c.pages = ps.map some ∧ ps.length = (pageCount size).toNat ∧ ps.Nodup
  small : (pageCount size).toNat ≤ intMax

theorem pages_full (ps : List Page) : (ps.map some).reduceOption = ps := by
  change (ps.map some).filterMap id = ps
  simp

theorem once_perm {log : List Request} {ps qs : List Page} (hp : Once log ps) (hq : Once log qs) :
    ps.Perm qs := by
  refine (List.perm_ext_iff_of_nodup hp.nodup hq.nodup).mpr fun p => ?_
  rw [hp.mem, hq.mem]

theorem once_pages {log : List Request} {ps qs : List Page} (b : BufId) (hp : Once log ps)
    (hq : Once log qs) :
    Multiset.ofList (ps.map (Resource.page b)) = Multiset.ofList (qs.map (Resource.page b)) :=
  Multiset.coe_eq_coe.mpr ((once_perm hp hq).map _)

/-- A failed call leaves nothing; otherwise there are the array and its pages. -/
def PagesTaken (b : BufId) (count : UInt32) (events : Trace) : Option (List (Option Page)) → Prop
  | none => ∀ held, replay held events = some held
  | some pages => count.toNat ≤ intMax ∧ ∃ ps : List Page, pages = ps.map some ∧
      ps.length = count.toNat ∧ ps.Nodup ∧ ∀ held, replay held events =
        some (held + ({.array b} : Multiset Resource) + Multiset.ofList (ps.map (.page b)))

def MemoryTaken (b : BufId) (size : UInt64) (events : Trace) : Option Contents → Prop
  | none => ∀ held, replay held events = some held
  | some c => Backed size c ∧ ∀ held, replay held events = some (held + memory b c)

section alloc

variable {maxOrder : Nat} (x : Answers) (b : BufId)

theorem allocPages_spec (order : maxOrder < 31) (count : UInt32) :
    ∃ result events, allocPages maxOrder x b count = some (result, events) ∧
      PagesTaken b count events result := by
  cases array : kvzalloc x (count.toNat * 8) with
  | false =>
    refine ⟨none, [], ?_, fun held => rfl⟩
    simp [allocPages, vfastrpcAllocPages, array, taken, acquires, releases, present]
  | true =>
    have fits : count.toNat ≤ intMax := by
      simp only [kvzalloc, Bool.and_eq_true, decide_eq_true_eq] at array
      omega
    have small : count.toNat ≤ 2 ^ 31 := by
      unfold intMax at fits
      omega
    obtain ⟨o, run, correct, -⟩ := alloc_run x.page order
      (show count.toNat + maxOrder + 1 < count.toNat + maxOrder + 2 by omega) array small
    cases result : o.result with
    | none =>
      obtain ⟨-, freed⟩ := correct.null result
      refine ⟨none, _, by rw [allocPages, run, Option.map_some, result], fun held => ?_⟩
      simp only [array, present, if_true, List.append_assoc, replay_acquires_append,
        Option.isSome_none, Bool.false_eq_true, if_false]
      rw [once_pages b (once_taken o.log) freed, replay_releases_append, replay_releases]
    | some pages =>
      obtain ⟨none_freed, ps, rfl, length, once⟩ := correct.pages pages result
      refine ⟨some (ps.map some), _, by rw [allocPages, run, Option.map_some, result], fits, ps,
        rfl, length, once.nodup, fun held => ?_⟩
      simp only [array, present, if_true, replay_acquires_append, none_freed, Option.isSome_some,
        releases, List.map_nil, List.append_nil, replay_acquires]
      rw [once_pages b (once_taken o.log) once]
      rfl

theorem freeArray_spec {count : UInt32} {ps : List Page} (length : ps.length = count.toNat)
    (small : count.toNat ≤ intMax) : ∃ events, freeArray b (ps.map some) count = some events ∧
      ∀ held, replay (held + ({.array b} : Multiset Resource) +
        Multiset.ofList (ps.map (.page b))) events = some held := by
  have free := freePages_front length.symm (length ▸ small) []
  rw [List.append_nil] at free
  refine ⟨_, by rw [freeArray, free, Option.map_some], fun held => ?_⟩
  have turned : Multiset.ofList (ps.map (Resource.page b)) =
      Multiset.ofList (ps.reverse.map (Resource.page b)) :=
    Multiset.coe_eq_coe.mpr ((List.reverse_perm ps).symm.map _)
  rw [turned, replay_releases_append, replay_release, replay_nil]

theorem allocBuffer_spec (order : maxOrder < 31) (size : UInt64) (mapped : Bool) :
    ∃ contents events, allocBuffer maxOrder x b size mapped = some (contents, events) ∧
      MemoryTaken b size events contents := by
  obtain ⟨result, first, alloc, spec⟩ := allocPages_spec x b order (pageCount size)
  cases result with
  | none => exact ⟨none, first, by simp [allocBuffer, alloc], spec⟩
  | some pages =>
    obtain ⟨small, ps, rfl, length, nodup, held⟩ := spec
    obtain ⟨freed, free, back⟩ := freeArray_spec b length small
    by_cases noTable : pageCount size = 0 ∨ x.table = false
    · refine ⟨none, first ++ freed, by simp [allocBuffer, alloc, free, noTable], fun h => ?_⟩
      rw [replay_append (held h), back]
    by_cases noMapping : mapped = true ∧ x.vmap = false
    · refine ⟨none, first ++ [.acquire (.table b), .release (.table b)] ++ freed, ?_, fun h => ?_⟩
      · simp [allocBuffer, alloc, free, noTable, noMapping]
      · rw [List.append_assoc, replay_append (held h), List.cons_append, replay_acquire,
          List.cons_append, replay_release, List.nil_append, back]
    · refine ⟨some ⟨ps.map some, mapped⟩,
        first ++ [.acquire (.table b)] ++ acquires (present mapped (.mapping b)), ?_,
        ⟨⟨ps, rfl, length, nodup⟩, small⟩, fun h => ?_⟩
      · simp only [allocBuffer, alloc, Option.bind_eq_bind, Option.bind_some, if_neg noTable,
          if_neg noMapping]
        rfl
      · rw [List.append_assoc, replay_append (held h), List.cons_append, replay_acquire,
          List.nil_append, replay_acquires]
        simp only [memory, pages_full, add_assoc]

end alloc

theorem freeBuffer_spec (b : BufId) {size : UInt64} {c : Contents} (backed : Backed size c) :
    ∃ events, freeBuffer b size c = some events ∧
      ∀ held, replay (held + memory b c) events = some held := by
  obtain ⟨⟨ps, pages, length, -⟩, small⟩ := backed
  obtain ⟨freed, free, back⟩ := freeArray_spec b length small
  refine ⟨_, by simp only [freeBuffer, pages, free]; rfl, fun held => ?_⟩
  simp only [memory, pages, pages_full, ← add_assoc]
  rw [List.append_assoc, replay_releases_append, List.cons_append, replay_release, List.nil_append,
    back]

/-- What `vfastrpc_buf_alloc` may do. -/
inductive Allocs (s : State) (size : UInt64) (rflags : UInt32) (remote : Bool) :
    Option BufId → State → Prop where
  | refused {ev : Trace} (neutral : ∀ held, replay held ev = some held)
      (file : FileOperations.bufAlloc s.file size rflags remote false = none) :
      Allocs s size rflags remote none { s with trace := s.trace ++ ev }
  | cached {b : BufId} (here : b ∈ s.file.cached)
      (file : FileOperations.bufAlloc s.file size rflags remote false = some (b,
        { s.file with cached := s.file.cached.erase b, numCached := s.file.numCached - 1 })) :
      Allocs s size rflags remote (some b) { s with
        file := { s.file with cached := s.file.cached.erase b, numCached := s.file.numCached - 1 } }
  | new {c : Contents} {ev : Trace} (backed : Backed size c)
      (adds : ∀ held, replay held ev = some (held + resources s.file.nextBuf c))
      (file : FileOperations.bufAlloc s.file size rflags remote true =
        some (bufNew s.file size rflags remote)) :
      Allocs s size rflags remote (some s.file.nextBuf) { s with
        file := (bufNew s.file size rflags remote).2
        contents := Function.update s.contents s.file.nextBuf c
        trace := s.trace ++ ev }

theorem allocs_nothing {s : State} {size : UInt64} {rflags : UInt32} {remote : Bool}
    (file : FileOperations.bufAlloc s.file size rflags remote false = none) :
    Allocs s size rflags remote none s := by
  have refused : Allocs s size rflags remote none { s with trace := s.trace ++ [] } :=
    .refused (fun held => rfl) file
  rwa [List.append_nil] at refused

theorem bufAlloc_allocs {maxOrder : Nat} (order : maxOrder < 31) (s : State) (size : UInt64)
    (rflags : UInt32) (remote : Bool) (x : Answers) :
    ∃ r t, bufAlloc maxOrder s size rflags remote x = some (r, t) ∧
      Allocs s size rflags remote r t := by
  by_cases empty : size = 0
  · exact ⟨none, s, if_pos empty, allocs_nothing (if_pos empty)⟩
  cases best : (if remote then none else bestFit s.file size) with
  | some b =>
    have here : b ∈ s.file.cached := by
      cases remote with
      | true => cases best
      | false => exact FileMoves.bestFit_mem best
    refine ⟨some b, _, ?_, .cached here ?_⟩
    · simp only [bufAlloc, if_neg empty, best]
    · simp only [FileOperations.bufAlloc, if_neg empty, best]
  | none =>
    have refuses : FileOperations.bufAlloc s.file size rflags remote false = none := by
      simp [FileOperations.bufAlloc, empty, best]
    cases buf : x.buf with
    | false => exact ⟨none, s, by simp [bufAlloc, empty, best, buf], allocs_nothing refuses⟩
    | true =>
      obtain ⟨contents, events, alloc, taken⟩ :=
        allocBuffer_spec x s.file.nextBuf order size (!remote)
      cases contents with
      | none =>
        refine ⟨none, { s with trace := s.trace ++ (.acquire (.buf s.file.nextBuf) :: events ++
          [.release (.buf s.file.nextBuf)]) }, ?_, .refused (fun held => ?_) refuses⟩
        · simp [bufAlloc, empty, best, buf, alloc]
        · rw [List.cons_append, replay_acquire, replay_append (taken _), replay_release, replay_nil]
      | some c =>
        obtain ⟨backed, adds⟩ := taken
        have whole : ∀ held, replay held (.acquire (.buf s.file.nextBuf) :: events) =
            some (held + resources s.file.nextBuf c) := by
          intro held
          rw [replay_acquire, adds, resources, add_assoc]
        refine ⟨some s.file.nextBuf, _, ?_, .new backed whole ?_⟩
        · simp [bufAlloc, empty, best, buf, alloc]
        · simp [FileOperations.bufAlloc, empty, best]

/-- What `vfastrpc_buf_free` may do. -/
inductive Frees (s : State) (b : BufId) (cache : Bool) : State → Prop where
  | cached (asked : cache = true) (file : FileOperations.bufFree s.file b cache =
        { s.file with cached := b :: s.file.cached, numCached := s.file.numCached + 1 }) :
      Frees s b cache { s with file := FileOperations.bufFree s.file b cache }
  | dropped {ev : Trace} (file : FileOperations.bufFree s.file b cache =
        FileOperations.bufDrop s.file b)
      (gives : ∀ held, replay (held + resources b (s.contents b)) ev = some held) :
      Frees s b cache { s with
        file := FileOperations.bufFree s.file b cache
        trace := s.trace ++ ev }

theorem bufFree_frees {s : State} {b : BufId} (cache : Bool)
    (backed : Backed (s.file.bufs b).size (s.contents b)) :
    ∃ t, bufFree s b cache = some t ∧ Frees s b cache t := by
  obtain ⟨events, free, gives⟩ := freeBuffer_spec b backed
  have drops : ∀ file, file = FileOperations.bufDrop s.file b → bufDrop s b = some { s with
      file := file
      trace := s.trace ++ (events ++ [.release (.buf b)]) } := by
    rintro file rfl
    simp [bufDrop, free]
  have back : ∀ held, replay (held + resources b (s.contents b))
      (events ++ [.release (.buf b)]) = some held := by
    intro held
    rw [resources, ← add_assoc, replay_append (gives _), replay_release, replay_nil]
  by_cases small : cache = true ∧ (s.file.bufs b).size < maxCacheBufSize
  · by_cases full : maxCachedBufs < s.file.numCached
    · have file : FileOperations.bufFree s.file b cache = FileOperations.bufDrop s.file b := by
        rw [FileOperations.bufFree, if_pos small, if_pos full]
      exact ⟨_, by rw [bufFree, if_pos small, if_pos full, drops _ file], .dropped file back⟩
    · have file : FileOperations.bufFree s.file b cache =
          { s.file with cached := b :: s.file.cached, numCached := s.file.numCached + 1 } := by
        rw [FileOperations.bufFree, if_pos small, if_neg full]
      refine ⟨_, ?_, .cached small.1 file⟩
      rw [bufFree, if_pos small, if_neg full, file]
  · have file : FileOperations.bufFree s.file b cache = FileOperations.bufDrop s.file b := by
      rw [FileOperations.bufFree, if_neg small]
    exact ⟨_, by rw [bufFree, if_neg small, drops _ file], .dropped file back⟩

/-- The buffers that are somewhere: in the cache, with the DSP, or with a context. -/
def live (s : State) : List BufId :=
  s.file.cached ++ s.file.remoteBufs ++ s.staged.map Prod.snd

def owned (contents : BufId → Contents) (bs : List BufId) : Multiset Resource :=
  (bs.map fun b => resources b (contents b)).sum

theorem owned_perm {contents : BufId → Contents} {bs cs : List BufId} (h : bs.Perm cs) :
    owned contents bs = owned contents cs :=
  (h.map _).sum_eq

theorem owned_cons (contents : BufId → Contents) (b : BufId) (bs : List BufId) :
    owned contents (b :: bs) = owned contents bs + resources b (contents b) := by
  rw [owned, List.map_cons, List.sum_cons, add_comm]
  rfl

/-- The trace never releases what is not held, and leaves exactly the memory of the live
buffers, each of which has all its pages. -/
structure Ledger (s : State) : Prop where
  places : BufferCache.CacheOk ⟨s.file, s.staged⟩
  backed : ∀ b ∈ live s, Backed (s.file.bufs b).size (s.contents b)
  held : replay 0 s.trace = some (owned s.contents (live s))

theorem opened_ledger : Ledger State.opened where
  places := BufferCache.opened_ok
  backed := fun b hb => by cases hb
  held := rfl

section steps

variable {s t : State} {b : BufId}

theorem live_places (hb : b ∈ live s) : b ∈ BufferCache.places ⟨s.file, s.staged⟩ := by
  simp only [live, List.mem_append] at hb
  simp only [BufferCache.mem_places, BufferCache.users]
  tauto

theorem live_known (h : Ledger s) (hb : b ∈ live s) : b ≠ s.file.nextBuf :=
  Nat.ne_of_lt (h.places.distinct.known b (live_places hb))

/-- The buffers only change places. -/
theorem ledger_moved {ev : Trace} (h : Ledger s)
    (places : BufferCache.CacheOk ⟨t.file, t.staged⟩) (perm : (live t).Perm (live s))
    (contents : t.contents = s.contents)
    (sizes : ∀ b ∈ live s, (t.file.bufs b).size = (s.file.bufs b).size)
    (trace : t.trace = s.trace ++ ev) (neutral : ∀ held, replay held ev = some held) :
    Ledger t where
  places := places
  backed := fun b hb => by
    have old := perm.mem_iff.mp hb
    rw [contents, sizes b old]
    exact h.backed b old
  held := by rw [trace, replay_append h.held, neutral, contents, owned_perm perm]

theorem ledger_new {ev : Trace} {c : Contents} (h : Ledger s)
    (places : BufferCache.CacheOk ⟨t.file, t.staged⟩)
    (perm : (live t).Perm (s.file.nextBuf :: live s))
    (contents : t.contents = Function.update s.contents s.file.nextBuf c)
    (sizes : ∀ b ∈ live s, (t.file.bufs b).size = (s.file.bufs b).size)
    (backed : Backed (t.file.bufs s.file.nextBuf).size c) (trace : t.trace = s.trace ++ ev)
    (adds : ∀ held, replay held ev = some (held + resources s.file.nextBuf c)) : Ledger t where
  places := places
  backed := fun b hb => by
    rcases List.mem_cons.mp (perm.mem_iff.mp hb) with rfl | old
    · rw [contents, Function.update_self]
      exact backed
    · rw [contents, Function.update_of_ne (live_known h old), sizes b old]
      exact h.backed b old
  held := by
    have older : owned t.contents (live s) = owned s.contents (live s) := by
      refine congrArg List.sum (List.map_congr_left fun b hb => ?_)
      rw [contents, Function.update_of_ne (live_known h hb)]
    rw [trace, replay_append h.held, adds, owned_perm perm, owned_cons, older, contents,
      Function.update_self]

theorem ledger_dropped {ev : Trace} (h : Ledger s)
    (places : BufferCache.CacheOk ⟨t.file, t.staged⟩) (perm : (live s).Perm (b :: live t))
    (contents : t.contents = s.contents)
    (sizes : ∀ b ∈ live s, (t.file.bufs b).size = (s.file.bufs b).size)
    (trace : t.trace = s.trace ++ ev)
    (gives : ∀ held, replay (held + resources b (s.contents b)) ev = some held) : Ledger t where
  places := places
  backed := fun v hv => by
    have old := perm.mem_iff.mpr (List.mem_cons_of_mem b hv)
    rw [contents, sizes v old]
    exact h.backed v old
  held := by
    rw [trace, replay_append h.held, owned_perm perm, owned_cons, gives, contents]

theorem bufNew_size (f : File) (size : UInt64) (rflags : UInt32) (remote : Bool) :
    ((bufNew f size rflags remote).2.bufs f.nextBuf).size = size := by
  simp [bufNew]

theorem bufNew_sizes (h : Ledger s) (size : UInt64) (rflags : UInt32) (remote : Bool)
    (hb : b ∈ live s) :
    ((bufNew s.file size rflags remote).2.bufs b).size = (s.file.bufs b).size := by
  simp [bufNew, Function.update_of_ne (live_known h hb)]

theorem stage_ledger {maxOrder : Nat} {c : CtxId} {size : UInt64} {x : Answers}
    (order : maxOrder < 31) (h : Ledger s)
    (hstep : step maxOrder s (.stage c size x) = some t) : Ledger t := by
  obtain ⟨r, u, alloc, allocs⟩ := bufAlloc_allocs order s size 0 false x
  rw [step, alloc, Option.map_some] at hstep
  obtain rfl := Option.some.inj hstep
  cases allocs with
  | refused neutral file =>
    exact ledger_moved h h.places (.refl _) rfl (fun _ _ => rfl) rfl neutral
  | @cached b here file =>
    have moved : BufferCache.step ⟨s.file, s.staged⟩ (.stage c size false) = some
        ⟨{ s.file with cached := s.file.cached.erase b, numCached := s.file.numCached - 1 },
          (c, b) :: s.staged⟩ := by
      simp only [BufferCache.step, file]
    refine ledger_moved h (BufferCache.step_ok h.places moved) ?_ rfl (fun _ _ => rfl)
      (List.append_nil _).symm (fun held => rfl)
    refine List.perm_iff_count.mpr fun v => ?_
    have taken := (List.perm_cons_erase here).count_eq v
    simp only [live, List.map_cons, List.count_append, List.count_cons] at taken ⊢
    omega
  | new backed adds file =>
    have moved : BufferCache.step ⟨s.file, s.staged⟩ (.stage c size true) = some
        ⟨(bufNew s.file size 0 false).2, (c, s.file.nextBuf) :: s.staged⟩ := by
      simp only [BufferCache.step, file]
      rfl
    refine ledger_new h (BufferCache.step_ok h.places moved) List.perm_middle rfl
      (fun b hb => bufNew_sizes h size 0 false hb) ?_ rfl adds
    rw [bufNew_size]
    exact backed

theorem addPages_ledger {maxOrder : Nat} {size : UInt64} {flags : UInt32} {x : Answers}
    (order : maxOrder < 31) (h : Ledger s)
    (hstep : step maxOrder s (.addPages size flags x) = some t) : Ledger t := by
  obtain ⟨r, u, alloc, allocs⟩ := bufAlloc_allocs order s size flags true x
  rw [step, alloc, Option.map_some] at hstep
  obtain rfl := Option.some.inj hstep
  cases allocs with
  | refused neutral file =>
    exact ledger_moved h h.places (.refl _) rfl (fun _ _ => rfl) rfl neutral
  | cached here file => simp [FileOperations.bufAlloc] at file
  | new backed adds file =>
    have moved : BufferCache.step ⟨s.file, s.staged⟩ (.addPages size flags true) = some
        ⟨(bufNew s.file size flags true).2, s.staged⟩ := by
      simp only [BufferCache.step, file]
    refine ledger_new h (BufferCache.step_ok h.places moved) (List.perm_middle.append_right _) rfl
      (fun b hb => bufNew_sizes h size flags true hb) ?_ rfl adds
    rw [bufNew_size]
    exact backed

/-- A buffer that is freed, whether it is kept in the cache or not. -/
theorem frees_ledger {u : State} {cache : Bool} (frees : Frees u b cache t)
    (staged : List (CtxId × BufId)) (h : Ledger s)
    (places : BufferCache.CacheOk ⟨FileOperations.bufFree u.file b cache, staged⟩)
    (same : u.file.bufs = s.file.bufs ∧ u.contents = s.contents ∧ u.trace = s.trace)
    (kept : cache = true →
      (b :: u.file.cached ++ u.file.remoteBufs ++ staged.map Prod.snd).Perm (live s))
    (gone : (live s).Perm (b :: ((FileOperations.bufDrop u.file b).cached ++
      (FileOperations.bufDrop u.file b).remoteBufs ++ staged.map Prod.snd))) :
    Ledger { t with staged := staged } := by
  obtain ⟨bufs, contents, trace⟩ := same
  have sizes : ∀ v ∈ live s,
      ((FileOperations.bufFree u.file b cache).bufs v).size = (s.file.bufs v).size := by
    intro v hv
    rw [(FileBuffers.bufFree_retains u.file b cache).sizes, bufs]
  cases frees with
  | cached asked file =>
    refine ledger_moved h places ?_ contents sizes (trace.trans (List.append_nil _).symm)
      (fun held => rfl)
    simpa only [live, file] using kept asked
  | dropped file gives =>
    refine ledger_dropped h places ?_ contents sizes (by rw [trace]) (contents ▸ gives)
    simpa only [live, file] using gone

theorem release_ledger {maxOrder : Nat} {c : CtxId} (h : Ledger s)
    (hstep : step maxOrder s (.release c b) = some t) : Ledger t := by
  simp only [step] at hstep
  split_ifs at hstep with held
  have used : b ∈ s.staged.map Prod.snd := List.mem_map.mpr ⟨(c, b), held, rfl⟩
  have hlive : b ∈ live s := List.mem_append_right _ used
  have hlocal : (s.file.bufs b).remote = false :=
    h.places.here b (List.mem_append_right _ used)
  have perm := (List.perm_cons_erase held).map Prod.snd
  obtain ⟨u, free, frees⟩ := bufFree_frees true (h.backed b hlive)
  rw [free, Option.map_some] at hstep
  obtain rfl := Option.some.inj hstep
  have moved : BufferCache.step ⟨s.file, s.staged⟩ (.release c b) = some
      ⟨FileOperations.bufFree s.file b true, s.staged.erase (c, b)⟩ := if_pos held
  have all : (live s).Perm (b :: (s.file.cached ++ s.file.remoteBufs ++
      (s.staged.erase (c, b)).map Prod.snd)) := (perm.append_left _).trans List.perm_middle
  refine frees_ledger frees _ h (BufferCache.step_ok h.places moved) ⟨rfl, rfl, rfl⟩
    (fun _ => all.symm) ?_
  simpa [FileOperations.bufDrop, hlocal] using all

theorem freePages_ledger (h : Ledger s) (pages : b ∈ s.file.remoteBufs)
    (hstep : bufFree s b false = some t) : Ledger t := by
  have hlive : b ∈ live s := List.mem_append_left _ (List.mem_append_right _ pages)
  obtain ⟨u, free, frees⟩ := bufFree_frees false (h.backed b hlive)
  obtain rfl := Option.some.inj (free.symm.trans hstep)
  have moved : BufferCache.step ⟨s.file, s.staged⟩ (.freePages b) = some
      ⟨FileOperations.bufFree s.file b false, s.staged⟩ := if_pos pages
  have gone : (live s).Perm (b :: ((FileOperations.bufDrop s.file b).cached ++
      (FileOperations.bufDrop s.file b).remoteBufs ++ s.staged.map Prod.snd)) := by
    rw [FileOperations.bufDrop, if_pos (h.places.remote b pages)]
    refine List.perm_iff_count.mpr fun v => ?_
    have taken := (List.perm_cons_erase pages).count_eq v
    simp only [live, List.count_append, List.count_cons] at taken ⊢
    omega
  have whole := frees_ledger frees s.staged h (BufferCache.step_ok h.places moved) ⟨rfl, rfl, rfl⟩
    (fun on => by cases on) gone
  cases frees <;> exact whole

theorem drainCached_ledger {rest : List BufId} (h : Ledger s) (first : s.file.cached = b :: rest)
    (hstep : bufFree { s with file := { s.file with
      cached := rest, numCached := s.file.numCached - 1 } } b false = some t) : Ledger t := by
  have here : b ∈ s.file.cached := by
    rw [first]
    exact List.mem_cons_self
  have hlive : b ∈ live s := List.mem_append_left _ (List.mem_append_left _ here)
  have hlocal : (s.file.bufs b).remote = false :=
    h.places.here b (List.mem_append_left _ here)
  obtain ⟨v, free, frees⟩ := bufFree_frees (s := { s with file := { s.file with
    cached := rest, numCached := s.file.numCached - 1 } }) false (h.backed b hlive)
  obtain rfl := Option.some.inj (free.symm.trans hstep)
  have moved : BufferCache.step ⟨s.file, s.staged⟩ .drainCached = some
      ⟨FileOperations.bufFree { s.file with cached := rest, numCached := s.file.numCached - 1 } b
        false, s.staged⟩ := by
    simp only [BufferCache.step, FileRelease.nextCached, first, Option.map_some]
  have whole := frees_ledger frees s.staged h (BufferCache.step_ok h.places moved) ⟨rfl, rfl, rfl⟩
    (fun on => by cases on) (by simp [FileOperations.bufDrop, hlocal, live, first])
  cases frees <;> exact whole

theorem step_ledger {maxOrder : Nat} {a : Action} (order : maxOrder < 31) (h : Ledger s)
    (hstep : step maxOrder s a = some t) : Ledger t := by
  cases a with
  | stage c size x => exact stage_ledger order h hstep
  | release c b => exact release_ledger h hstep
  | addPages size flags x => exact addPages_ledger order h hstep
  | mapPages b raddr =>
    obtain rfl := Option.some.inj hstep
    have sizes := FileBuffers.update_size s.file.bufs b { s.file.bufs b with raddr := raddr } rfl
    exact ledger_moved h (BufferCache.mapsPages_ok h.places b raddr) (.refl _) rfl
      (fun v _ => sizes v) (List.append_nil _).symm (fun held => rfl)
  | freePages b =>
    simp only [step] at hstep
    split_ifs at hstep with pages
    exact freePages_ledger h pages hstep
  | drainCached =>
    simp only [step] at hstep
    split at hstep
    case h_1 => cases hstep
    case h_2 b rest first => exact drainCached_ledger h first hstep
  | drainRemote =>
    simp only [step] at hstep
    split at hstep
    case h_1 => cases hstep
    case h_2 b rest first =>
      refine freePages_ledger h ?_ hstep
      rw [first]
      exact List.mem_cons_self

end steps

/-- No call leaves its array, each live buffer has exactly its pages, nothing is released that
is not held, and what is held is the memory of the live buffers. -/
structure Accounted (maxOrder : Nat) (s : State) : Prop where
  allocs : ∀ size rflags remote x, (bufAlloc maxOrder s size rflags remote x).isSome = true
  frees : ∀ b ∈ live s, ∀ cache, (bufFree s b cache).isSome = true
  backed : ∀ b ∈ live s, Backed (s.file.bufs b).size (s.contents b)
  held : replay 0 s.trace = some (owned s.contents (live s))
  nothing : live s = [] → replay 0 s.trace = some 0

/-- The memory of a file is accounted for over every order of allocations, releases and
drains, whatever the kernel answers. -/
theorem buffer_memory_accounted {maxOrder : Nat} (order : maxOrder < 31) (as : List Action)
    (s : State) (run : exec (step maxOrder) State.opened as = some s) : Accounted maxOrder s := by
  have ledger : Ledger s :=
    exec_invariant (fun _ _ _ h hstep => step_ledger order h hstep) opened_ledger run
  refine ⟨fun size rflags remote x => ?_, fun b hb cache => ?_, ledger.backed, ledger.held,
    fun none => ?_⟩
  · obtain ⟨r, t, alloc, -⟩ := bufAlloc_allocs order s size rflags remote x
    rw [alloc]
    rfl
  · obtain ⟨t, free, -⟩ := bufFree_frees cache (ledger.backed b hb)
    rw [free]
    rfl
  · rw [ledger.held, none]
    rfl

def granted : Answers := ⟨true, true, fun _ => true, true, true⟩

/-- Three pages are taken and given back because they cannot be mapped, then taken again for
the same call, and one page for the DSP; closing the file frees them. -/
def mappedLater : List Action :=
  [.stage 7 0x3000 { granted with vmap := false }, .stage 7 0x3000 granted,
    .addPages 0x1000 0x1000 granted, .release 7 0, .drainCached, .drainRemote]

theorem mappedLater_accounted : ∃ s, exec (step 10) State.opened mappedLater = some s ∧
    s.file.freedBufs = [1, 0] ∧ s.trace.length = 34 ∧ replay 0 s.trace = some 0 :=
  ⟨_, rfl, rfl, rfl,
    (buffer_memory_accounted (show 10 < 31 by decide) mappedLater _ rfl).nothing rfl⟩

end PageLedger
