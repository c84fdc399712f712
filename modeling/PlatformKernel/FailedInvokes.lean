import PlatformKernel.InvokeReferences

/-!
# Invokes that fail before their message is sent

`get_args` maps the buffers, then the DMA handles, and a handle that cannot be mapped undoes
the handles before it. After a later failure only `context_free` is left, which releases the
slots of buffers: the handles are meant to be released through the list of descriptors of the
back end, and there is no response. The maps of the handles keep what the invoke took.
-/

namespace FailedInvokes

open CountedLoops GuardedRuns FileMaps MapTallies InvokeReferences
open FileOperations hiding mapBuffer
open UserMappings (keepRefs)
open MappedMaps (keepRefs_cases)
open InvokeMessage (bufs)

/-- The arguments `get_args` maps; a buffer is `none` if it is empty or has no descriptor. -/
structure Args where
  sc : UInt32
  buffers : Nat → Option (MapRequest × DmaOutcome)
  handles : Nat → Handle

/-- The number of arguments, `total` in `get_args`. -/
def Args.total (args : Args) : Nat := bufs args.sc + InvokeMessage.handles args.sc

/-- One buffer of the first loop of `get_args`. -/
def mapBuffer (k : Uapi) (args : Args) (i : Nat) (st : Slots) : Flow Int Slots :=
  match args.buffers i with
  | none => .next st
  | some (req, dma) =>
    match ctxMap k st.1 { req with mflags := 0 } dma with
    | (.ok id, maps) => .next (maps, Function.update st.2 i (some id))
    | (.error err, maps) => .bail err (maps, st.2)

def mapBuffers (k : Uapi) (args : Args) (s : Maps) : Flow Int Slots :=
  loop (mapBuffer k args) 0 (bufs args.sc) (s, fun _ => none)

def mapHandles (k : Uapi) (args : Args) (st : Slots) : Flow Int Slots :=
  loop (mapHandle k args.sc args.handles) (bufs args.sc) (InvokeMessage.handles args.sc) st

/-- The two loops of `get_args` that map the arguments. -/
def mapArgs (k : Uapi) (args : Args) (s : Maps) : Flow Int Slots :=
  (mapBuffers k args s).andThen (mapHandles k args)

/-- What an invoke leaves that fails before its message is sent, in `get_args` or after it. -/
def failedInvoke (k : Uapi) (args : Args) (s : Maps) : Maps :=
  let st := (mapArgs k args s).state
  releaseSlots st.2 0 (bufs args.sc) st.1

/-- Where the invoke fails: a buffer or a handle cannot be mapped, the internal buffers, the
message, its contents, or `vfastrpc_txbuf_send`. -/
inductive Point where
  | buffer
  | handle
  | staging
  | message
  | contents
  | send
  deriving DecidableEq

def FailsAt (k : Uapi) (args : Args) (s : Maps) : Point → Prop
  | .buffer => ∃ err st, mapBuffers k args s = .bail err st
  | .handle => ∃ st, mapBuffers k args s = .next st ∧
      ∃ err st', mapHandles k args st = .bail err st'
  | _ => ∃ st, mapArgs k args s = .next st

/-- A handle of the invoke was given this map. -/
def HandleMap (k : Uapi) (args : Args) (s : Maps) (id : MapId) : Prop :=
  ∃ i, bufs args.sc ≤ i ∧ i < args.total ∧ (mapArgs k args s).state.2 i = some id

/-- The maps of the handles are as they were, and those that were made are gone. Only a buffer
can ask for `KEEP_MAP`; a map it made with it is left with this reference. -/
structure HandlesUndone (k : Uapi) (args : Args) (s : Maps) : Prop where
  refs : ∀ id < s.next, HandleMap k args s id →
    ((failedInvoke k args s).mem id).refs = (s.mem id).refs
  ctx : ∀ id < s.next, HandleMap k args s id →
    ((failedInvoke k args s).mem id).ctxRefs = (s.mem id).ctxRefs
  made : ∀ id, s.next ≤ id → HandleMap k args s id → id ∉ (failedInvoke k args s).linked ∨
    ((failedInvoke k args s).mem id).keep k = true ∧ ((failedInvoke k args s).mem id).refs = 1 ∧
      ((failedInvoke k args s).mem id).ctxRefs = 0

/-- The slots before `i` may be filled. -/
structure Mapped (k : Uapi) (args : Args) (s : Maps) (i : Nat) (st : Slots) : Prop where
  moves : SlotMoves k args.total (s, fun _ => none) st
  rest : ∀ j, i ≤ j → st.2 j = none

/-- So far each handle that has a descriptor has a map. -/
structure HandlesMapped (k : Uapi) (args : Args) (s : Maps) (i : Nat) (st : Slots) : Prop where
  mapped : Mapped k args s i st
  handles : ∀ j, bufs args.sc ≤ j → j < i → (st.2 j = none ↔ (args.handles j).fd = -1)

/-- The handles have been given back; the slots still refer to them. -/
def RolledBack (k : Uapi) (args : Args) (s : Maps) (st : Slots) : Prop :=
  SlotMoves k args.total (s, fun _ => none)
    (st.1, emptied st.2 (bufs args.sc) (InvokeMessage.handles args.sc))

section loops

variable {k : Uapi} {args : Args} {s maps : Maps} {slots : Nat → Option MapId} {st : Slots}
  {i : Nat}

theorem mapBuffer_mapped (hi : i < bufs args.sc) (h : Mapped k args s i st) :
    (mapBuffer k args i st).Holds (Mapped k args s (i + 1))
      fun _ => Mapped k args s (bufs args.sc) := by
  obtain ⟨maps, slots⟩ := st
  have later : ∀ {j : Nat}, i + 1 ≤ j → slots j = none := fun hj => h.rest _ (by omega)
  unfold mapBuffer
  split
  · exact ⟨h.moves, fun j hj => later hj⟩
  split
  · rename_i taken
    have inside : i < args.total := Nat.lt_of_lt_of_le hi (Nat.le_add_right _ _)
    refine ⟨h.moves.take inside (h.rest i (Nat.le_refl i)) taken, fun j hj => ?_⟩
    have hji : j ≠ i := by omega
    exact (Function.update_of_ne hji _ _).trans (later hj)
  · rename_i failed
    exact ⟨h.moves.fail failed, fun j hj => h.rest j (by omega)⟩

theorem mapBuffers_mapped (k : Uapi) (args : Args) (s : Maps) :
    (mapBuffers k args s).Holds (Mapped k args s (bufs args.sc))
      fun _ => Mapped k args s (bufs args.sc) := by
  have start : Mapped k args s 0 (s, fun _ => none) := ⟨.refl, fun _ _ => rfl⟩
  have loops := loop_holds (Mapped k args s) (n := bufs args.sc) start
    fun i st _ hi hst => mapBuffer_mapped (by omega) hst
  rwa [Nat.zero_add] at loops

theorem rolledBack (hi : bufs args.sc ≤ i) (hn : i < args.total)
    (h : Mapped k args s i (maps, slots)) :
    RolledBack k args s (releaseSlots slots (bufs args.sc) (i - bufs args.sc) maps, slots) := by
  have released := h.moves.releaseSlots (bufs args.sc) (i - bufs args.sc) (by omega)
  have all : emptied slots (bufs args.sc) (i - bufs args.sc) =
      emptied slots (bufs args.sc) (InvokeMessage.handles args.sc) := by
    funext j
    unfold emptied
    unfold Args.total at hn
    by_cases hj : bufs args.sc ≤ j ∧ j < bufs args.sc + (i - bufs args.sc)
    · rw [if_pos hj, if_pos (by omega)]
    · rw [if_neg hj]
      split_ifs
      · exact h.rest j (by omega)
      · rfl
  rw [all] at released
  exact released

theorem mapHandle_mapped (hi : bufs args.sc ≤ i) (hn : i < args.total)
    (h : HandlesMapped k args s i st) :
    (mapHandle k args.sc args.handles i st).Holds (HandlesMapped k args s (i + 1))
      fun _ => RolledBack k args s := by
  obtain ⟨maps, slots⟩ := st
  have later : ∀ {j : Nat}, i + 1 ≤ j → slots j = none := fun hj => h.mapped.rest _ (by omega)
  have empty : slots i = none := h.mapped.rest i (Nat.le_refl i)
  unfold mapHandle
  split
  · rename_i hfd
    refine ⟨⟨h.mapped.moves, fun j hj => later hj⟩, fun j hj hlt => ?_⟩
    by_cases hji : j = i
    · subst hji
      exact iff_of_true empty hfd
    · exact h.handles j hj (by omega)
  rename_i hfd
  dsimp only
  split
  · rename_i taken
    refine ⟨⟨h.mapped.moves.take hn empty taken, fun j hj => ?_⟩, fun j hj hlt => ?_⟩
    · have hji : j ≠ i := by omega
      exact (Function.update_of_ne hji _ _).trans (later hj)
    · dsimp only
      by_cases hji : j = i
      · subst hji
        rw [Function.update_self]
        exact iff_of_false (fun he => by cases he) hfd
      · rw [Function.update_of_ne hji]
        exact h.handles j hj (by omega)
  · rename_i failed
    exact rolledBack hi hn ⟨h.mapped.moves.fail failed, h.mapped.rest⟩

theorem mapHandles_mapped (h : Mapped k args s (bufs args.sc) st) :
    (mapHandles k args st).Holds (HandlesMapped k args s args.total)
      fun _ => RolledBack k args s := by
  refine loop_holds (HandlesMapped k args s) ⟨h, fun j hj hlt => ?_⟩
    fun i st hi hn hst => mapHandle_mapped hi hn hst
  omega

end loops

section left

variable {k : Uapi} {args : Args} {s maps : Maps} {st : Slots} {slots slots' : Nat → Option MapId}
  {id : MapId} {i : Nat} {p : Point}

theorem releaseSlots_congr {lo n : Nat} (same : ∀ j, lo ≤ j → j < lo + n → slots' j = slots j) :
    releaseSlots slots' lo n maps = releaseSlots slots lo n maps := by
  unfold releaseSlots
  refine List.foldl_ext _ _ maps fun maps j hj => ?_
  rw [List.mem_range'_1] at hj
  rw [same j hj.1 hj.2]

/-- All slots are empty in the end. -/
theorem undone_of_empty (usable : Usable s)
    (moves : SlotMoves k args.total (s, fun _ => none) (failedInvoke k args s, slots))
    (empty : ∀ i < args.total, slots i = none) : HandlesUndone k args s := by
  have ledger := moves.ledger usable (ledger_start usable fun _ _ => rfl)
  refine ⟨fun id hid _ => (ledger_counts ledger empty hid).1,
    fun id hid _ => (ledger_counts ledger empty hid).2, fun id hid _ => ?_⟩
  rcases ledger.new id hid with ⟨unlinked, -⟩ | made
  · exact Or.inl unlinked
  · cases made_settled (Or.inl made) empty with
    | released discards unlinked once => exact Or.inl unlinked
    | kept keeps linked unfreed refs ctx => exact Or.inr ⟨keeps, refs, ctx⟩

theorem rolledBack_undone (usable : Usable s) (h : RolledBack k args s st)
    (state : (mapArgs k args s).state = st) : HandlesUndone k args s := by
  have released := SlotMoves.releaseSlots h 0 (bufs args.sc)
    (by unfold Args.total; omega)
  have same : releaseSlots (emptied st.2 (bufs args.sc) (InvokeMessage.handles args.sc)) 0
      (bufs args.sc) st.1 = failedInvoke k args s := by
    unfold failedInvoke
    rw [state]
    exact releaseSlots_congr fun j _ hj => if_neg (by omega)
  rw [same] at released
  refine undone_of_empty usable released fun j hj => ?_
  unfold Args.total at hj
  unfold emptied
  split_ifs with hlow hhigh
  · rfl
  · rfl
  · omega

/-- A handle that has a map keeps it. -/
theorem held_not_undone (usable : Usable s) (moves : SlotMoves k args.total (s, fun _ => none) st)
    (state : (mapArgs k args s).state = st) (hi : bufs args.sc ≤ i) (hn : i < args.total)
    (held : st.2 i = some id) : ¬ HandlesUndone k args s := by
  intro undone
  have released := SlotMoves.releaseSlots moves 0 (bufs args.sc)
    (by unfold Args.total; omega)
  have same : releaseSlots st.2 0 (bufs args.sc) st.1 = failedInvoke k args s := by
    unfold failedInvoke
    rw [state]
  rw [same] at released
  have ledger := released.ledger usable (ledger_start usable fun _ _ => rfl)
  have left : emptied st.2 0 (bufs args.sc) i = some id := (if_neg (by omega)).trans held
  have count := slotRefs_put_own hn left
  have handle : HandleMap k args s id := ⟨i, hi, hn, by rw [state]; exact held⟩
  by_cases hid : id < s.next
  · have refs := undone.refs id hid handle
    rw [(ledger.old id hid).mem, withRefs_refs] at refs
    dsimp only at refs
    omega
  · have hnew : s.next ≤ id := Nat.le_of_not_lt hid
    rcases ledger.new id hnew with ⟨-, none⟩ | made
    · dsimp only at none
      omega
    · rcases undone.made id hnew handle with unlinked | ⟨-, -, ctx⟩
      · exact unlinked made.linked
      · have ctx' := made.ctx
        dsimp only at ctx'
        omega

theorem mapArgs_next (done : mapArgs k args s = .next st) :
    HandlesMapped k args s args.total st := by
  have mapped : (mapArgs k args s).Holds (HandlesMapped k args s args.total) fun _ _ => True :=
    holds_andThen _ (holds_mono (mapBuffers_mapped k args s) (fun _ h => h) fun _ _ _ => trivial)
      fun st h => holds_mono (mapHandles_mapped h) (fun _ h => h) fun _ _ _ => trivial
  rw [done] at mapped
  exact mapped

/-- Without handles that have a map there is nothing to undo. -/
theorem undone_of_none (none : ∀ j, bufs args.sc ≤ j → j < args.total →
    (mapArgs k args s).state.2 j = none) : HandlesUndone k args s := by
  have vacuous : ∀ id, ¬ HandleMap k args s id := by
    rintro id ⟨j, hj, hn, held⟩
    rw [none j hj hn] at held
    cases held
  exact ⟨fun id _ h => absurd h (vacuous id), fun id _ h => absurd h (vacuous id),
    fun id _ h => absurd h (vacuous id)⟩

/-- After the loops nothing undoes a handle. -/
theorem late_undone_iff (usable : Usable s) (done : mapArgs k args s = .next st) :
    HandlesUndone k args s ↔
      ∀ i, bufs args.sc ≤ i → i < args.total → (args.handles i).fd = -1 := by
  have mapped := mapArgs_next done
  have state : (mapArgs k args s).state = st := by rw [done]; rfl
  constructor
  · intro undone i hi hn
    rw [← mapped.handles i hi hn, Option.eq_none_iff_forall_ne_some]
    intro id held
    exact held_not_undone usable mapped.mapped.moves state hi hn held undone
  · intro none
    refine undone_of_none fun j hj hn => ?_
    rw [state]
    exact (mapped.handles j hj hn).mpr (none j hj hn)

end left

/-- The invoke leaves the maps of its handles as they were unless it fails after mapping one. -/
theorem failed_invoke_undone_iff (k : Uapi) (as : List Action) (s : File)
    (run : exec (step k) File.opened as = some s) (args : Args) (p : Point)
    (fails : FailsAt k args s.maps p) :
    HandlesUndone k args s.maps ↔ p = .buffer ∨ p = .handle ∨
      ∀ i, bufs args.sc ≤ i → i < args.total → (args.handles i).fd = -1 := by
  have usable := sane_usable (run_sane run)
  have buffers := mapBuffers_mapped k args s.maps
  cases p with
  | buffer =>
    obtain ⟨err, st, bailed⟩ := fails
    rw [bailed] at buffers
    refine iff_of_true (undone_of_none fun j hj _ => ?_) (Or.inl rfl)
    rw [mapArgs, bailed]
    exact buffers.rest j hj
  | handle =>
    obtain ⟨st, through, err, st', bailed⟩ := fails
    rw [through] at buffers
    have handles := mapHandles_mapped buffers
    rw [bailed] at handles
    refine iff_of_true (rolledBack_undone usable handles ?_) (Or.inr (Or.inl rfl))
    rw [mapArgs, through, Flow.andThen, bailed]
    rfl
  | staging | message | contents | send =>
    obtain ⟨st, done⟩ := fails
    rw [late_undone_iff usable done]
    simp

/-- The second of two handles cannot be mapped. -/
def secondRefused : Args where
  sc := 0x20
  buffers := fun _ => none
  handles := fun i => if i = 0 then ⟨5, 0, .mapped⟩
    else ⟨6, 0, ⟨true, true, false, true⟩⟩

theorem secondRefused_undone :
    FailsAt MapReferences.uapi secondRefused File.opened.maps .handle ∧
      HandlesUndone MapReferences.uapi secondRefused File.opened.maps :=
  ⟨⟨_, rfl, _, _, rfl⟩, (failed_invoke_undone_iff MapReferences.uapi [] File.opened rfl
    secondRefused .handle ⟨_, rfl, _, _, rfl⟩).mpr (Or.inr (Or.inl rfl))⟩

/-- One handle. -/
def oneHandle : Args where
  sc := 0x10
  buffers := fun _ => none
  handles := fun _ => ⟨5, 0, .mapped⟩

/-- There is no message left: the map of the handle stays on the list with one reference and
one context reference. -/
theorem unsent_handle_left :
    FailsAt MapReferences.uapi oneHandle File.opened.maps .message ∧
      HandleMap MapReferences.uapi oneHandle File.opened.maps 0 ∧
      (failedInvoke MapReferences.uapi oneHandle File.opened.maps).linked = [0] ∧
      ((failedInvoke MapReferences.uapi oneHandle File.opened.maps).mem 0).refs = 1 ∧
      ((failedInvoke MapReferences.uapi oneHandle File.opened.maps).mem 0).ctxRefs = 1 ∧
      ¬ HandlesUndone MapReferences.uapi oneHandle File.opened.maps := by
  have handle : HandleMap MapReferences.uapi oneHandle File.opened.maps 0 :=
    ⟨0, by decide, by decide, rfl⟩
  refine ⟨⟨_, rfl⟩, handle, rfl, rfl, rfl, fun undone => ?_⟩
  rcases undone.made 0 (Nat.le_refl 0) handle with unlinked | ⟨-, -, ctx⟩
  · exact unlinked (by decide)
  · exact absurd ctx (by decide)

/-- A thread builds the message of context `c`. -/
structure Builds (s : File) (c : CtxId) (sc : UInt32) (stage : Stage) (st : Slots) : Prop where
  pending : c ∈ s.pending
  args : (s.ctxs c).sc = sc
  stage : (s.ctxs c).stage = stage
  maps : s.maps = st.1
  slots : (s.ctxs c).maps = st.2

/-- The stage a loop of `get_args` leaves the context in. -/
def stageAfter : Flow Int Slots → Stage
  | .next _ => .building
  | .bail _ _ => .ending

section steps

variable {k : Uapi} {s : File} {args : Args} {c : CtxId} {st : Slots} {i : Nat}

theorem mapBuffer_steps (h : Builds s c args.sc .building st) (hi : i < bufs args.sc)
    (empty : st.2 i = none) : ∃ as t, exec (step k) s as = some t ∧
      Builds t c args.sc (stageAfter (mapBuffer k args i st)) (mapBuffer k args i st).state := by
  obtain ⟨maps, slots⟩ := st
  unfold mapBuffer
  cases hbuffer : args.buffers i with
  | none => exact ⟨[], s, rfl, h⟩
  | some request =>
    obtain ⟨req, dma⟩ := request
    have enabled : step k s (.mapBuffer c i req dma) =
        some (FileOperations.mapBuffer k s c i req dma) := by
      simp only [step, Action.ctx, ctxStep, if_pos h.pending, h.args, h.stage, h.slots]
      exact if_pos ⟨trivial, hi, empty⟩
    refine ⟨[.mapBuffer c i req dma], _, exec_singleton enabled, ?_⟩
    simp only [FileOperations.mapBuffer, h.maps]
    cases hmap : ctxMap k maps { req with mflags := 0 } dma with
    | mk result maps' =>
      cases result with
      | ok id =>
        refine ⟨h.pending, ?_, ?_, rfl, ?_⟩ <;> simp [File.setCtx, h.args, h.stage, h.slots,
          stageAfter, Flow.state]
      | error err =>
        refine ⟨h.pending, ?_, ?_, rfl, ?_⟩ <;> simp [File.setCtx, h.args, h.slots, stageAfter,
          Flow.state]

theorem bufferLoop_steps {m : Maps} {n lo : Nat} (h : Builds s c args.sc .building st)
    (mapped : Mapped k args m lo st) (hn : lo + n ≤ bufs args.sc) :
    ∃ as t, exec (step k) s as = some t ∧
      Builds t c args.sc (stageAfter (loop (mapBuffer k args) lo n st))
        (loop (mapBuffer k args) lo n st).state := by
  induction n generalizing lo s st with
  | zero => exact ⟨[], s, rfl, h⟩
  | succ n ih =>
    obtain ⟨as, t, run, builds⟩ := mapBuffer_steps (k := k) h (by omega)
      (mapped.rest lo (Nat.le_refl lo))
    have next := mapBuffer_mapped (by omega) mapped
    rw [loop]
    cases hbody : mapBuffer k args lo st with
    | bail err st' =>
      rw [hbody] at builds
      exact ⟨as, t, run, builds⟩
    | next st' =>
      rw [hbody] at builds next
      obtain ⟨bs, u, run', builds'⟩ := ih builds next (by omega)
      exact ⟨as ++ bs, u, exec_append run run', builds'⟩

theorem mapHandles_steps (h : Builds s c args.sc .building st) : ∃ t,
    exec (step k) s [.mapHandles c args.handles] = some t ∧
      Builds t c args.sc (stageAfter (mapHandles k args st)) (mapHandles k args st).state := by
  obtain ⟨maps, slots⟩ := st
  have enabled : step k s (.mapHandles c args.handles) =
      some (FileOperations.mapHandles k s c args.handles) := by
    simp only [step, Action.ctx, ctxStep, if_pos h.pending, h.stage, if_true]
  refine ⟨_, exec_singleton enabled, ?_⟩
  simp only [FileOperations.mapHandles, h.maps, h.args, h.slots]
  unfold mapHandles
  cases loop (mapHandle k args.sc args.handles) (bufs args.sc) (InvokeMessage.handles args.sc)
    (maps, slots) with
  | next st' =>
    refine ⟨h.pending, ?_, ?_, rfl, ?_⟩ <;> simp [File.setCtx, h.stage, stageAfter, Flow.state]
  | bail err st' =>
    refine ⟨h.pending, ?_, ?_, rfl, ?_⟩ <;> simp [File.setCtx, stageAfter, Flow.state]

theorem contextFree_steps (h : Builds s c args.sc .ending st) : ∃ t,
    exec (step k) s [.contextFree c] = some t ∧
      t.maps = releaseSlots st.2 0 (bufs args.sc) st.1 := by
  have enabled : step k s (.contextFree c) = some (contextFree s c) := by
    simp only [step, Action.ctx, ctxStep, if_pos h.pending, h.stage, if_true]
  refine ⟨_, exec_singleton enabled, ?_⟩
  rw [FileMoves.contextFree_maps, h.args, h.slots, h.maps]

/-- Some later statement fails, or the message is not sent. -/
theorem fails_steps (h : Builds s c args.sc .building st) : ∃ t,
    exec (step k) s [.send c false] = some t ∧ Builds t c args.sc .ending st := by
  have enabled : step k s (.send c false) =
      some (s.setCtx c { s.ctxs c with stage := .ending }) := by
    simp [step, Action.ctx, ctxStep, h.pending, h.stage]
  refine ⟨_, exec_singleton enabled, ?_⟩
  refine ⟨h.pending, ?_, ?_, h.maps, ?_⟩ <;> simp [File.setCtx, h.args, h.slots]

/-- After `get_args` mapped the arguments, or failed to. -/
theorem mapArgs_steps (h : Builds s c args.sc .building (s.maps, fun _ => none)) :
    ∃ as t, exec (step k) s as = some t ∧
      Builds t c args.sc (stageAfter (mapArgs k args s.maps)) (mapArgs k args s.maps).state := by
  have start : Mapped k args s.maps 0 (s.maps, fun _ => none) := ⟨.refl, fun _ _ => rfl⟩
  obtain ⟨as, t, run, builds⟩ := bufferLoop_steps (n := bufs args.sc) h start (by omega)
  rw [mapArgs, mapBuffers]
  cases hbuffers : loop (mapBuffer k args) 0 (bufs args.sc) (s.maps, fun _ => none) with
  | bail err st =>
    rw [hbuffers] at builds
    exact ⟨as, t, run, builds⟩
  | next st =>
    rw [hbuffers] at builds
    obtain ⟨u, run', builds'⟩ := mapHandles_steps (k := k) builds
    exact ⟨_, u, exec_append run run', builds'⟩

/-- A failed invoke is a run of the file. -/
theorem failedInvoke_steps (k : Uapi) (s : File) (pid : Tid) (fresh : savedOf s pid = none)
    (args : Args) : ∃ as t, exec (step k) s (.invoke pid args.sc false :: as) = some t ∧
      t.maps = failedInvoke k args s.maps := by
  have begun : Builds (internalInvoke s pid args.sc false) s.nextCtx args.sc .building
      (s.maps, fun _ => none) := by
    simp only [internalInvoke, fresh, File.setCtx]
    refine ⟨List.mem_cons_self, ?_, ?_, rfl, ?_⟩ <;> simp only [Function.update_self]
  have maps : (internalInvoke s pid args.sc false).maps = s.maps := begun.maps
  rw [← maps] at begun
  obtain ⟨as, t, run, builds⟩ := mapArgs_steps (k := k) begun
  rw [maps] at builds
  have ending : ∃ bs u, exec (step k) t bs = some u ∧
      Builds u s.nextCtx args.sc .ending (mapArgs k args s.maps).state := by
    cases hargs : mapArgs k args s.maps with
    | bail err st =>
      rw [hargs] at builds
      exact ⟨[], t, rfl, builds⟩
    | next st =>
      rw [hargs] at builds
      obtain ⟨u, run', builds'⟩ := fails_steps (k := k) builds
      exact ⟨_, u, run', builds'⟩
  obtain ⟨bs, u, run', builds'⟩ := ending
  obtain ⟨v, freed, left⟩ := contextFree_steps (k := k) builds'
  refine ⟨as ++ bs ++ [.contextFree s.nextCtx], v, ?_, left⟩
  have invoked : exec (step k) s [.invoke pid args.sc false] =
    some (internalInvoke s pid args.sc false) := rfl
  have whole := exec_append invoked (exec_append (exec_append run run') freed)
  exact whole

theorem oneHandle_steps : savedOf File.opened 7 = none ∧ ∃ as t,
    exec (step MapReferences.uapi) File.opened (.invoke 7 oneHandle.sc false :: as) = some t ∧
      t.maps = failedInvoke MapReferences.uapi oneHandle File.opened.maps :=
  ⟨rfl, failedInvoke_steps MapReferences.uapi File.opened 7 rfl oneHandle⟩

end steps

end FailedInvokes
