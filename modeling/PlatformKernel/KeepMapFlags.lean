import PlatformKernel.FileContexts
import PlatformKernel.MapLists
import PlatformKernel.MapReferences

/-!
# Which maps the back end keeps

The descriptor of a buffer tells the back end to keep its map if the attributes of this
request say so. The file keeps the map if its own attributes say so, and those are the
attributes of the request that created it. The two agree as long as a request that finds
a map finds one that was created with the same flag.
-/

namespace KeepMapFlags

open GuardedRuns FileMaps FileContexts MapLists
open InvokeMessage (bufs total vfastrpcBufAttrIon vfastrpcBufAttrInternal vfastrpcBufAttrKeepMap)
open FileOperations hiding Action step

def asksKeep (k : Uapi) (attr : UInt32) : Bool := attr &&& k.attrKeepMap != 0

/-- `rpra[i].attrs` for a buffer with a map, a staged one and one in the message. -/
def descriptorAttrs (keepMap attr : UInt32) (map : Option MapId) (staged : Bool) : UInt32 :=
  match map with
  | some _ =>
    if attr &&& keepMap ≠ 0 then vfastrpcBufAttrIon ||| vfastrpcBufAttrKeepMap
    else vfastrpcBufAttrIon
  | none => if staged then vfastrpcBufAttrInternal else 0

/-- The descriptor of buffer `index` in the message of a context. -/
structure Descriptor where
  ctx : CtxId
  index : Nat
  map : Option MapId
  attrs : UInt32

/-- `attrs` is `ctx->attrs`, copied from the user by `context_alloc`; `written` is history. -/
structure State where
  file : File
  attrs : CtxId → Nat → UInt32
  written : List Descriptor

def State.opened : State := ⟨File.opened, fun _ _ => 0, []⟩

inductive Action where
  | file (a : FileOperations.Action)
  | invoke (pid : Tid) (sc : UInt32) (isAsync : Bool) (attrs : Nat → UInt32)
  | mapBuffer (c : CtxId) (i : Nat) (fd : Int) (va len : UInt64) (dma : DmaOutcome)
  | mapHandles (c : CtxId) (fds : Nat → Int) (dma : Nat → DmaOutcome)
  | writeBuffer (c : CtxId) (i : Nat) (staged : Bool)

/-- The steps of a file that do not read the attributes of a request. -/
def passes : FileOperations.Action → Bool
  | .invoke _ _ _ => false
  | .mapBuffer _ _ _ _ => false
  | .mapHandles _ _ => false
  | _ => true

/-- The second loop of `get_args` clears the flag of each handle it maps. -/
def handleAttrs (k : Uapi) (sc : UInt32) (fds : Nat → Int) (attrs : Nat → UInt32) (i : Nat) :
    UInt32 :=
  if bufs sc ≤ i ∧ i < total sc ∧ fds i ≠ -1 then attrs i &&& ~~~k.attrKeepMap else attrs i

def step (k : Uapi) (s : State) : Action → Option State
  | .file a =>
    if passes a then (FileOperations.step k s.file a).map fun t => { s with file := t } else none
  | .invoke pid sc isAsync attrs =>
    (FileOperations.step k s.file (.invoke pid sc isAsync)).map fun t =>
      match savedOf s.file pid with
      | some _ => { s with file := t }
      | none => { s with file := t, attrs := Function.update s.attrs s.file.nextCtx attrs }
  | .mapBuffer c i fd va len dma =>
    (FileOperations.step k s.file (.mapBuffer c i ⟨fd, s.attrs c i, va, len, 0⟩ dma)).map fun t =>
      { s with file := t }
  | .mapHandles c fds dma =>
    (FileOperations.step k s.file (.mapHandles c fun i => ⟨fds i, s.attrs c i, dma i⟩)).map
      fun t => { s with
        file := t
        attrs := Function.update s.attrs c
          (handleAttrs k (s.file.ctxs c).sc fds (s.attrs c)) }
  | .writeBuffer c i staged =>
    let ctx := s.file.ctxs c
    if c ∈ s.file.pending ∧ ctx.stage = .building ∧ ctx.msg ≠ none ∧ i < bufs ctx.sc then
      some { s with written := ⟨c, i, ctx.maps i,
        descriptorAttrs k.attrKeepMap (s.attrs c i) (ctx.maps i) staged⟩ :: s.written }
    else none

/-- The head of an ION descriptor in the invoke message carries these attributes. -/
theorem ionHead_attrs (req : InvokeMessage.Request) (i : Nat) (e : InvokeMessage.PraEntry)
    (id : MapId) : (InvokeMessage.ionHead req i e).attrs =
      descriptorAttrs req.keepMap (req.attrs i) (some id) false := rfl

def carriesKeep (attrs : UInt32) : Bool := attrs &&& vfastrpcBufAttrKeepMap != 0

theorem carriesKeep_descriptor (keepMap attr : UInt32) (map : Option MapId) (staged : Bool) :
    carriesKeep (descriptorAttrs keepMap attr map staged) =
      (map.isSome && attr &&& keepMap != 0) := by
  have inline : carriesKeep 0 = false := by decide
  have internal : carriesKeep vfastrpcBufAttrInternal = false := by decide
  have plain : carriesKeep vfastrpcBufAttrIon = false := by decide
  have kept : carriesKeep (vfastrpcBufAttrIon ||| vfastrpcBufAttrKeepMap) = true := by decide
  cases map with
  | none => cases staged <;> simp [descriptorAttrs, inline, internal]
  | some id =>
    by_cases hkeep : attr &&& keepMap = 0
    · simp [descriptorAttrs, hkeep, plain]
    · simp [descriptorAttrs, hkeep, kept]

/-- The map `vfastrpc_mmap_create` would reuse for a buffer. -/
def foundMap (s : Maps) (fd : Int) (va len : UInt64) : Option MapId :=
  match mmapFind s fd va len 0 true with
  | .ok (id, _) => some id
  | .error _ => none

/-- A buffer that finds a map asks for what the map was created with. -/
def Agrees (k : Uapi) (s : State) : Action → Prop
  | .mapBuffer c i fd va len _ => ∀ id ∈ foundMap s.file.maps fd va len,
      (s.file.maps.mem id).keep k = asksKeep k (s.attrs c i)
  | _ => True

instance (k : Uapi) (s : State) (a : Action) : Decidable (Agrees k s a) :=
  match a with
  | .mapBuffer c i fd va len _ => inferInstanceAs (Decidable (∀ id ∈ foundMap s.file.maps fd va len,
      (s.file.maps.mem id).keep k = asksKeep k (s.attrs c i)))
  | .file _ => isTrue trivial
  | .invoke _ _ _ _ => isTrue trivial
  | .mapHandles _ _ _ => isTrue trivial
  | .writeBuffer _ _ _ => isTrue trivial

/-- A context gets a map that was there, or a new one with the attributes it asks for. -/
theorem ctxMap_source {k : Uapi} {s t : Maps} {fd : Int} {attr : UInt32} {va len : UInt64}
    {dma : DmaOutcome} {id : MapId} (h : ctxMap k s ⟨fd, attr, va, len, 0⟩ dma = (.ok id, t)) :
    foundMap s fd va len = some id ∧ id ∈ s.linked ∨
      id = s.next ∧ t.next = s.next + 1 ∧ (t.mem id).attr = attr := by
  unfold ctxMap at h
  split at h
  · rename_i v u hcreate
    obtain ⟨hid, rfl⟩ := Prod.mk.inj h
    obtain rfl := Except.ok.inj hid
    unfold mmapCreate at hcreate
    split at hcreate
    · rename_i w x hfind
      obtain ⟨hw, rfl⟩ := Prod.mk.inj hcreate
      obtain rfl := Except.ok.inj hw
      refine Or.inl ⟨?_, (mmapFind_ok hfind).1⟩
      simp only [foundMap, hfind]
    · dsimp only at hcreate
      split at hcreate
      · cases (Prod.mk.inj hcreate).1
      split at hcreate
      · cases (Prod.mk.inj hcreate).1
      split at hcreate
      · obtain ⟨hw, rfl⟩ := Prod.mk.inj hcreate
        obtain rfl := Except.ok.inj hw
        refine Or.inr ⟨rfl, (mmapAdd_mem _ _).2, ?_⟩
        rw [set_mem_self, (mmapAdd_mem _ _).1, set_mem_self]
        split_ifs <;> rfl
      · cases (Prod.mk.inj hcreate).1
  · cases h

structure Matched (k : Uapi) (s : State) : Prop where
  listed : FileListed s.file
  slots : ∀ c i id, i < bufs (s.file.ctxs c).sc → (s.file.ctxs c).maps i = some id →
    id < s.file.maps.next ∧ (s.file.maps.mem id).keep k = asksKeep k (s.attrs c i)
  written : ∀ d ∈ s.written, (∀ id ∈ d.map, id < s.file.maps.next) ∧
    (carriesKeep d.attrs = true ↔ ∃ id ∈ d.map, (s.file.maps.mem id).keep k = true)

section steps

variable {k : Uapi} {s : State} {t : File} {a : Action}

theorem keep_onward (onward : Onward s.file t) {id : MapId} (known : id < s.file.maps.next) :
    (t.maps.mem id).keep k = (s.file.maps.mem id).keep k :=
  (onward.same id known).keep k

/-- A slot afterwards is one from before, or its map has the flag that is asked for. -/
theorem matched_onward (h : Matched k s) (onward : Onward s.file t) (attrs : CtxId → Nat → UInt32)
    (slots : ∀ c i id, i < bufs (t.ctxs c).sc → (t.ctxs c).maps i = some id →
      i < bufs (s.file.ctxs c).sc ∧ (s.file.ctxs c).maps i = some id ∧ attrs c i = s.attrs c i ∨
        id < t.maps.next ∧ (t.maps.mem id).keep k = asksKeep k (attrs c i)) :
    Matched k { s with file := t, attrs := attrs } where
  listed := onward.listed
  slots := fun c i id hi hid => by
    rcases slots c i id hi hid with ⟨hold, hsame, hattr⟩ | hnew
    · obtain ⟨known, hkeep⟩ := h.slots c i id hold hsame
      refine ⟨Nat.lt_of_lt_of_le known onward.next, ?_⟩
      exact (keep_onward onward known).trans (hkeep.trans (congrArg (asksKeep k) hattr.symm))
    · exact hnew
  written := fun d hd => by
    obtain ⟨known, hiff⟩ := h.written d hd
    refine ⟨fun id hid => Nat.lt_of_lt_of_le (known id hid) onward.next, hiff.trans ?_⟩
    refine exists_congr fun id => and_congr_right fun hid => ?_
    rw [keep_onward onward (known id hid)]

theorem slots_setCtx {s : File} {c v : CtxId} {ctx : InvokeCtx} {i : Nat} {id : MapId}
    (hid : ((s.setCtx v ctx).ctxs c).maps i = some id) (sc : ctx.sc = (s.ctxs v).sc)
    (slots : ctx.maps i = some id → (s.ctxs v).maps i = some id) :
    ((s.setCtx v ctx).ctxs c).sc = (s.ctxs c).sc ∧ (s.ctxs c).maps i = some id := by
  by_cases hc : c = v
  · subst hc
    simp only [File.setCtx, Function.update_self] at hid ⊢
    exact ⟨sc, slots hid⟩
  · have other : (s.setCtx v ctx).ctxs c = s.ctxs c := Function.update_of_ne hc _ _
    rw [other] at hid ⊢
    exact ⟨rfl, hid⟩

/-- A step that fills no slot of a context. -/
theorem slots_back {s t : File} {b : FileOperations.Action} (old : passes b = true)
    (hstep : FileOperations.step k s b = some t) {c : CtxId} {i : Nat} {id : MapId}
    (hid : (t.ctxs c).maps i = some id) :
    (t.ctxs c).sc = (s.ctxs c).sc ∧ (s.ctxs c).maps i = some id := by
  obtain ⟨u, moves, hu⟩ := step_contexts hstep
  rw [hu.ctxs] at hid ⊢
  cases moves with
  | aside other => exact ⟨rfl, hid⟩
  | refused saved differs => cases old
  | begins fresh => cases old
  | resumes saved same => cases old
  | edits own listed pending edit =>
    have fills : remaps b = false := by cases b <;> first | rfl | cases old
    refine slots_setCtx hid edit.sc fun hctx => ?_
    rcases edit.slots fills i with hsame | hnone
    · exact hsame.symm.trans hctx
    · rw [hnone] at hctx
      cases hctx
  | interrupts pending waiting => exact ⟨rfl, hid⟩
  | frees pending ending => exact ⟨rfl, hid⟩

/-- A new context has no maps. -/
theorem invoke_slots {s : File} {pid : Tid} {sc : UInt32} {isAsync : Bool} {c : CtxId} {i : Nat}
    {id : MapId} (hid : ((internalInvoke s pid sc isAsync).ctxs c).maps i = some id) :
    ((internalInvoke s pid sc isAsync).ctxs c).sc = (s.ctxs c).sc ∧
      (s.ctxs c).maps i = some id ∧ (savedOf s pid = none → c ≠ s.nextCtx) := by
  have moves := invoke_contexts (s := s) pid sc isAsync
  generalize internalInvoke s pid sc isAsync = t at moves hid ⊢
  cases moves with
  | aside other => cases other
  | refused saved differs => exact ⟨rfl, hid, fun hnone => by rw [saved] at hnone; cases hnone⟩
  | begins fresh =>
    have hne : c ≠ s.nextCtx := by
      rintro rfl
      simp [File.setCtx] at hid
    simp only [File.setCtx, Function.update_of_ne hne] at hid
    exact ⟨by simp [File.setCtx, hne], hid, fun _ => hne⟩
  | resumes saved same =>
    rename_i v
    change ((s.setCtx v { s.ctxs v with stage := .waiting }).ctxs c).maps i = some id at hid
    obtain ⟨hsc, hslot⟩ := slots_setCtx hid rfl fun h => h
    exact ⟨hsc, hslot, fun hnone => by rw [saved] at hnone; cases hnone⟩
  | edits own listed pending edit => cases own

theorem mapHandles_sc (s : File) (c v : CtxId) (handles : Nat → Handle) :
    ((mapHandles k s c handles).ctxs v).sc = (s.ctxs v).sc := by
  unfold mapHandles
  dsimp only
  by_cases hv : v = c
  · subst hv
    split <;> simp [File.setCtx]
  · split <;> simp [File.setCtx, hv]

theorem mapHandles_slots {s : File} {c v : CtxId} (handles : Nat → Handle) {i : Nat}
    (hi : i < bufs (s.ctxs v).sc) :
    ((mapHandles k s c handles).ctxs v).maps i = (s.ctxs v).maps i := by
  by_cases hv : v = c
  · subst hv
    have same := mapHandles_buffers (k := k) (n := InvokeMessage.handles (s.ctxs v).sc)
      (s.ctxs v).sc handles s.maps (s.ctxs v).maps hi
    unfold mapHandles
    dsimp only
    split
    · rename_i hloop
      rw [hloop] at same
      simpa [File.setCtx, CountedLoops.Flow.state] using same
    · rename_i hloop
      rw [hloop] at same
      simpa [File.setCtx, CountedLoops.Flow.state] using same
  · unfold mapHandles
    dsimp only
    split <;> simp [File.setCtx, hv]

/-- A slot after the mapping of one buffer: an old one, or the map it got. -/
theorem mapBuffer_slots {s : File} {c v : CtxId} {i j : Nat} {req : MapRequest} {dma : DmaOutcome}
    {id : MapId} (hid : ((mapBuffer k s c i req dma).ctxs v).maps j = some id) :
    ((mapBuffer k s c i req dma).ctxs v).sc = (s.ctxs v).sc ∧
      ((s.ctxs v).maps j = some id ∨ v = c ∧ j = i ∧
        ctxMap k s.maps { req with mflags := 0 } dma =
          (.ok id, (mapBuffer k s c i req dma).maps)) := by
  unfold mapBuffer at hid ⊢
  generalize hmaps : ctxMap k s.maps { req with mflags := 0 } dma = r at hid ⊢
  obtain ⟨result, maps⟩ := r
  by_cases hv : v = c
  · subst hv
    cases result with
    | error err =>
      simp only [File.setCtx, Function.update_self] at hid ⊢
      exact ⟨trivial, Or.inl hid⟩
    | ok w =>
      simp only [File.setCtx, Function.update_self] at hid ⊢
      by_cases hj : j = i
      · subst hj
        rw [Function.update_self] at hid
        obtain rfl := Option.some.inj hid
        exact ⟨trivial, Or.inr ⟨trivial, rfl, rfl⟩⟩
      · rw [Function.update_of_ne hj] at hid
        exact ⟨trivial, Or.inl hid⟩
  · cases result with
    | error err =>
      simp only [File.setCtx, Function.update_of_ne hv] at hid ⊢
      exact ⟨trivial, Or.inl hid⟩
    | ok w =>
      simp only [File.setCtx, Function.update_of_ne hv] at hid ⊢
      exact ⟨trivial, Or.inl hid⟩

theorem matched_mapBuffer {c : CtxId} {i : Nat} {fd : Int} {va len : UInt64} {dma : DmaOutcome}
    (h : Matched k s) (ok : Agrees k s (.mapBuffer c i fd va len dma))
    (hstep : FileOperations.step k s.file (.mapBuffer c i ⟨fd, s.attrs c i, va, len, 0⟩ dma) =
      some t) : Matched k { s with file := t } := by
  have onward := step_onward h.listed hstep
  refine matched_onward h onward s.attrs fun v j id hj hid => ?_
  obtain ⟨-, hctx⟩ := Option.ite_none_right_eq_some.mp hstep
  obtain ⟨-, hmap⟩ := Option.ite_none_right_eq_some.mp hctx
  obtain rfl := Option.some.inj hmap
  obtain ⟨hsc, hold | ⟨rfl, rfl, htaken⟩⟩ := mapBuffer_slots hid
  · exact Or.inl ⟨hsc ▸ hj, hold, rfl⟩
  refine Or.inr ?_
  rcases ctxMap_source htaken with ⟨hfound, hlinked⟩ | ⟨rfl, hnext, hattr⟩
  · have known := h.listed.maps.known id hlinked
    exact ⟨Nat.lt_of_lt_of_le known onward.next, (keep_onward onward known).trans (ok id hfound)⟩
  · refine ⟨by rw [hnext]; exact Nat.lt_succ_self _, ?_⟩
    unfold VfastrpcMmap.keep asksKeep
    rw [hattr]

theorem matched_mapHandles {c : CtxId} {fds : Nat → Int} {dma : Nat → DmaOutcome}
    (h : Matched k s) (hstep : FileOperations.step k s.file
      (.mapHandles c fun i => ⟨fds i, s.attrs c i, dma i⟩) = some t) :
    Matched k { s with
      file := t
      attrs := Function.update s.attrs c
        (handleAttrs k (s.file.ctxs c).sc fds (s.attrs c)) } := by
  refine matched_onward h (step_onward h.listed hstep) _ fun v j id hj hid => Or.inl ?_
  obtain ⟨-, hctx⟩ := Option.ite_none_right_eq_some.mp hstep
  obtain ⟨-, hmap⟩ := Option.ite_none_right_eq_some.mp hctx
  obtain rfl := Option.some.inj hmap
  have hbufs : j < bufs (s.file.ctxs v).sc := by rwa [mapHandles_sc] at hj
  have hslot := mapHandles_slots (k := k) (c := c) (fun i => ⟨fds i, s.attrs c i, dma i⟩) hbufs
  refine ⟨hbufs, hslot.symm.trans hid, ?_⟩
  by_cases hv : v = c
  · subst hv
    rw [Function.update_self, handleAttrs, if_neg fun hcond => Nat.not_le.mpr hbufs hcond.1]
  · rw [Function.update_of_ne hv]

theorem step_matched {t : State} (h : Matched k s) (ok : Agrees k s a)
    (hstep : step k s a = some t) : Matched k t := by
  cases a with
  | file b =>
    simp only [step] at hstep
    split_ifs at hstep with old
    obtain ⟨file, hfile, rfl⟩ := Option.map_eq_some_iff.mp hstep
    refine matched_onward h (step_onward h.listed hfile) s.attrs fun c i id hi hid => Or.inl ?_
    obtain ⟨hsc, hslot⟩ := slots_back old hfile hid
    exact ⟨hsc ▸ hi, hslot, rfl⟩
  | invoke pid sc isAsync attrs =>
    simp only [step] at hstep
    obtain ⟨file, hfile, rfl⟩ := Option.map_eq_some_iff.mp hstep
    have onward := step_onward h.listed hfile
    obtain rfl : internalInvoke s.file pid sc isAsync = file := Option.some.inj hfile
    split
    · refine matched_onward h onward s.attrs fun c i id hi hid => Or.inl ?_
      obtain ⟨hsc, hslot, -⟩ := invoke_slots hid
      exact ⟨hsc ▸ hi, hslot, rfl⟩
    · rename_i fresh
      refine matched_onward h onward _ fun c i id hi hid => Or.inl ?_
      obtain ⟨hsc, hslot, hne⟩ := invoke_slots hid
      exact ⟨hsc ▸ hi, hslot, by rw [Function.update_of_ne (hne fresh)]⟩
  | mapBuffer c i fd va len dma =>
    obtain ⟨file, hfile, rfl⟩ := Option.map_eq_some_iff.mp hstep
    exact matched_mapBuffer h ok hfile
  | mapHandles c fds dma =>
    obtain ⟨file, hfile, rfl⟩ := Option.map_eq_some_iff.mp hstep
    exact matched_mapHandles h hfile
  | writeBuffer c i staged =>
    simp only [step] at hstep
    split_ifs at hstep with hcond
    obtain rfl := Option.some.inj hstep
    refine ⟨h.listed, h.slots, fun d hd => ?_⟩
    rcases List.mem_cons.mp hd with rfl | hold
    · have slot := h.slots c i
      dsimp only
      rw [carriesKeep_descriptor]
      cases hmap : (s.file.ctxs c).maps i with
      | none => simp
      | some id =>
        obtain ⟨known, hkeep⟩ := slot id hcond.2.2.2 hmap
        simp [known, hkeep, asksKeep]
    · exact h.written d hold

end steps

theorem opened_matched (k : Uapi) : Matched k State.opened where
  listed := opened_listed
  slots := fun _ _ _ _ h => by cases h
  written := fun _ h => by cases h

open MapReferences (uapi)

/-- Thread 7 invokes with one buffer of descriptor 5, and thread 8 with a part of it. -/
def sharedBuffer (attr attr' : UInt32) : List Action :=
  [.invoke 7 0x10000 false fun _ => attr, .mapBuffer 0 0 5 0x1000 0x2000 .mapped,
    .file (.allocMsg 0 true), .writeBuffer 0 0 false,
    .invoke 8 0x10000 false fun _ => attr', .mapBuffer 1 0 5 0x1000 0x1000 .mapped,
    .file (.allocMsg 1 true), .writeBuffer 1 0 false]

end KeepMapFlags
