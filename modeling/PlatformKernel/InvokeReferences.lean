import PlatformKernel.FileContexts
import PlatformKernel.MapTallies
import PlatformKernel.MappedMaps

/-!
# The references an invoke takes and gives back

`get_args` fills the slots of a context one after the other, `put_args` empties the slots of
output buffers and `context_free` releases what is left. Each slot stands for one reference
and one context reference of its map, whatever the order in which slots are filled and
emptied and however many of them share a map. So once all slots are empty the counts are what
they were, and of the maps that were made only those with `KEEP_MAP` are left.
-/

namespace InvokeReferences

open CountedLoops GuardedRuns FileMaps FileOperations FileMoves FileContexts MapLists MapTallies
open ContextShares (countP_update)
open UserMappings (keepRefs)
open MappedMaps (keepRefs_cases keepRefs_withRefs)
open InvokeMessage (bufs inbufs)

/-- Slots below `n` are filled and emptied. -/
inductive SlotMoves (k : Uapi) (n : Nat) (st : Slots) : Slots → Prop where
  | refl : SlotMoves k n st st
  | take {maps maps' : Maps} {slots : Nat → Option MapId} {i : Nat} {req : MapRequest}
      {dma : DmaOutcome} {id : MapId} (moves : SlotMoves k n st (maps, slots)) (inside : i < n)
      (empty : slots i = none) (taken : ctxMap k maps req dma = (.ok id, maps')) :
      SlotMoves k n st (maps', Function.update slots i (some id))
  | fail {maps maps' : Maps} {slots : Nat → Option MapId} {req : MapRequest} {dma : DmaOutcome}
      {err : Int} (moves : SlotMoves k n st (maps, slots))
      (failed : ctxMap k maps req dma = (.error err, maps')) :
      SlotMoves k n st (maps', slots)
  | put {maps : Maps} {slots : Nat → Option MapId} {i : Nat}
      (moves : SlotMoves k n st (maps, slots)) (inside : i < n) :
      SlotMoves k n st (ctxRelease maps (slots i), Function.update slots i none)

/-- How many of the first `n` slots refer to a map. -/
def slotRefs (slots : Nat → Option MapId) (n : Nat) (id : MapId) : Nat :=
  (List.range n).countP fun i => slots i == some id

section slots

variable {k : Uapi} {n : Nat} {st st' st'' : Slots} {slots : Nat → Option MapId} {i : Nat}
  {id v : MapId}

theorem SlotMoves.trans (first : SlotMoves k n st st') (second : SlotMoves k n st' st'') :
    SlotMoves k n st st'' := by
  induction second with
  | refl => exact first
  | take _ inside empty taken ih => exact ih.take inside empty taken
  | fail _ failed ih => exact ih.fail failed
  | put _ inside ih => exact ih.put inside

theorem slotRefs_take (inside : i < n) (empty : slots i = none) (v id : MapId) :
    slotRefs (Function.update slots i (some v)) n id =
      slotRefs slots n id + if v = id then 1 else 0 := by
  have count := countP_update slots inside (some v) id
  simpa [empty, slotRefs] using count

theorem slotRefs_put_own (inside : i < n) (own : slots i = some id) :
    slotRefs (Function.update slots i none) n id + 1 = slotRefs slots n id := by
  have count := countP_update slots inside none id
  simpa [own, slotRefs] using count

theorem slotRefs_put_other (inside : i < n) (other : slots i ≠ some id) :
    slotRefs (Function.update slots i none) n id = slotRefs slots n id := by
  have count := countP_update slots inside none id
  simpa [other, slotRefs] using count

theorem slotRefs_empty (empty : ∀ i < n, slots i = none) : slotRefs slots n id = 0 :=
  List.countP_eq_zero.mpr fun i hi => by simp [empty i (List.mem_range.mp hi)]

/-- The slots from `lo` on are emptied. -/
def emptied (slots : Nat → Option MapId) (lo n : Nat) : Nat → Option MapId :=
  fun i => if lo ≤ i ∧ i < lo + n then none else slots i

/-- `context_free`, and the roll-back in `get_args`. -/
theorem SlotMoves.releaseSlots {maps : Maps} (moves : SlotMoves k n st (maps, slots)) (lo m : Nat)
    (inside : lo + m ≤ n) :
    SlotMoves k n st (FileOperations.releaseSlots slots lo m maps, emptied slots lo m) := by
  have general : ∀ (m lo : Nat) (maps : Maps) (held : Nat → Option MapId), lo + m ≤ n →
      (∀ j, lo ≤ j → held j = slots j) → SlotMoves k n st (maps, held) →
      SlotMoves k n st (FileOperations.releaseSlots slots lo m maps, emptied held lo m) := by
    intro m
    induction m with
    | zero =>
      intro lo maps held _ _ moves
      have none : emptied held lo 0 = held := by
        funext j
        exact if_neg (by omega)
      rw [none]
      exact moves
    | succ m ih =>
      intro lo maps held inside same moves
      have first := moves.put (show lo < n by omega)
      rw [same lo (Nat.le_refl lo)] at first
      have rest := ih (lo + 1) _ _ (by omega) (fun j hj => by
        rw [Function.update_of_ne (by omega)]
        exact same j (by omega)) first
      have both : emptied (Function.update held lo none) (lo + 1) m = emptied held lo (m + 1) := by
        funext j
        unfold emptied
        by_cases hj : j = lo
        · subst hj
          simp
        · rw [Function.update_of_ne hj]
          by_cases hin : lo + 1 ≤ j ∧ j < lo + 1 + m
          · rw [if_pos hin, if_pos (by omega)]
          · rw [if_neg hin, if_neg (by omega)]
      rw [both] at rest
      exact rest
  exact general m lo maps slots inside (fun _ _ => rfl) moves

end slots

section maps

variable {k : Uapi} {s t : Maps} {req : MapRequest} {dma : DmaOutcome} {id v : MapId}

/-- A context takes a map that is on the list, or one that is made for it. -/
theorem ctxMap_ok (h : ctxMap k s req dma = (.ok id, t)) :
    (id ∈ s.linked ∧
      t = s.set id ((s.mem id).withRefs ((s.mem id).refs + 1) ((s.mem id).ctxRefs + 1))) ∨
    (id = s.next ∧ ∃ map, heapFlags map.flags = false ∧ map.refs = 1 + keepRefs k map ∧
      map.ctxRefs = 1 ∧
      t = { s.set s.next map with next := s.next + 1, linked := s.next :: s.linked }) := by
  unfold ctxMap at h
  split at h
  · rename_i v maps hcreate
    obtain ⟨hid, rfl⟩ := Prod.mk.inj h
    obtain rfl := Except.ok.inj hid
    cases hfind : mmapFind s req.fd req.va req.len req.mflags true with
    | ok found =>
      obtain ⟨linked, hcases⟩ := mmapFind_ok hfind
      simp only [mmapCreate, hfind] at hcreate
      obtain ⟨hv, rfl⟩ := Prod.mk.inj hcreate
      obtain rfl := Except.ok.inj hv
      rcases hcases with ⟨hfalse, -⟩ | ⟨-, -, hset⟩
      · cases hfalse
      · refine Or.inl ⟨linked, ?_⟩
        rw [hset, set_set, set_mem_self]
        rfl
    | error err =>
      obtain ⟨rfl, plain, -, refs, rfl, hrefs⟩ := mmapCreate_made hfind hcreate
      refine Or.inr ⟨rfl, ⟨req.fd, req.mflags, req.va, req.len, 0, refs, req.attr, 1⟩, plain, ?_,
        rfl, ?_⟩
      · unfold keepRefs VfastrpcMmap.keep
        rcases hrefs with ⟨hkeep, rfl⟩ | ⟨hkeep, rfl⟩ <;> simp [hkeep]
      · simp [Maps.set]
  · cases (Prod.mk.inj h).1

/-- What is left of a map that could not be completed. -/
theorem ctxMap_error {err : Int} (listed : Listed s)
    (h : ctxMap k s req dma = (.error err, t)) :
    t.linked = s.linked ∧ (∀ id < s.next, t.mem id = s.mem id) ∧
      (t.freed = s.freed ∨ t.freed = s.next :: s.freed ∧ s.next < t.next) := by
  unfold ctxMap at h
  split at h
  · cases (Prod.mk.inj h).1
  · rename_i err' maps hcreate
    obtain ⟨-, rfl⟩ := Prod.mk.inj h
    have creating := mmapCreate_creating k s req dma
    rw [hcreate] at creating
    have mem : ∀ map, ∀ id < s.next, (s.set s.next map).mem id = s.mem id := fun map id hid =>
      set_mem_ne s map (Nat.ne_of_lt hid)
    cases creating with
    | failed err => exact ⟨rfl, fun _ _ => rfl, Or.inl rfl⟩
    | abandoned err map => exact ⟨rfl, mem map, Or.inl rfl⟩
    | discarded err refs ctx =>
      exact ⟨List.erase_of_not_mem (next_unlinked listed), mem _,
        Or.inr ⟨rfl, Nat.lt_succ_self s.next⟩⟩

end maps

/-- What the driver relies on about the maps on the list. -/
structure Usable (s : Maps) : Prop where
  listed : Listed s
  freed : ∀ id ∈ s.freed, id < s.next
  refs : ∀ id ∈ s.linked, 0 ≤ (s.mem id).refs
  ctx : ∀ id ∈ s.linked, 0 ≤ (s.mem id).ctxRefs

/-- A map that was there before. -/
structure OldMap (s : Maps) (n : Nat) (st : Slots) (id : MapId) : Prop where
  mem : st.1.mem id = (s.mem id).withRefs ((s.mem id).refs + slotRefs st.2 n id)
    ((s.mem id).ctxRefs + slotRefs st.2 n id)
  origin : id ∈ st.1.linked → id ∈ s.linked
  held : 0 < slotRefs st.2 n id → id ∈ st.1.linked
  stays : id ∈ s.linked → id ∉ st.1.linked → (s.mem id).refs = 0 ∧ (s.mem id).ctxRefs = 0

/-- A map that was made since and is on the list. -/
structure Made (k : Uapi) (n : Nat) (st : Slots) (id : MapId) : Prop where
  linked : id ∈ st.1.linked
  refs : (st.1.mem id).refs = slotRefs st.2 n id + keepRefs k (st.1.mem id)
  ctx : (st.1.mem id).ctxRefs = slotRefs st.2 n id
  used : 0 < (st.1.mem id).refs
  unfreed : st.1.freed.count id = 0

/-- A map that was made since and is gone again. -/
structure Released (k : Uapi) (n : Nat) (st : Slots) (id : MapId) : Prop where
  known : id < st.1.next
  unlinked : id ∉ st.1.linked
  unheld : slotRefs st.2 n id = 0
  discards : (st.1.mem id).keep k = false
  once : st.1.freed.count id = 1

structure Ledger (k : Uapi) (s : Maps) (n : Nat) (st : Slots) : Prop where
  listed : Listed st.1
  freed : ∀ id ∈ st.1.freed, id < st.1.next
  next : s.next ≤ st.1.next
  old : ∀ id < s.next, OldMap s n st id
  new : ∀ id, s.next ≤ id → id ∉ st.1.linked ∧ slotRefs st.2 n id = 0 ∨ Made k n st id

/-- A move that is about other maps. -/
structure Aside (n : Nat) (st st' : Slots) (id : MapId) : Prop where
  mem : st'.1.mem id = st.1.mem id
  linked : id ∈ st'.1.linked ↔ id ∈ st.1.linked
  freed : st'.1.freed.count id = st.1.freed.count id
  slots : slotRefs st'.2 n id = slotRefs st.2 n id

section ledger

variable {k : Uapi} {s : Maps} {n : Nat} {st st' : Slots} {id v : MapId} {maps maps' : Maps}
  {slots : Nat → Option MapId} {i : Nat} {req : MapRequest} {dma : DmaOutcome} {err : Int}

theorem OldMap.aside (h : OldMap s n st id) (aside : Aside n st st' id) : OldMap s n st' id where
  mem := by rw [aside.mem, aside.slots, h.mem]
  origin := fun hid => h.origin (aside.linked.mp hid)
  held := fun hheld => aside.linked.mpr (h.held (aside.slots ▸ hheld))
  stays := fun hid hnot => h.stays hid fun hin => hnot (aside.linked.mpr hin)

theorem Made.aside (h : Made k n st id) (aside : Aside n st st' id) : Made k n st' id where
  linked := aside.linked.mpr h.linked
  refs := by rw [aside.mem, aside.slots, h.refs]
  ctx := by rw [aside.mem, aside.slots, h.ctx]
  used := aside.mem ▸ h.used
  unfreed := aside.freed.trans h.unfreed

theorem Released.aside (h : Released k n st id) (aside : Aside n st st' id)
    (next : st.1.next ≤ st'.1.next) : Released k n st' id where
  known := Nat.lt_of_lt_of_le h.known next
  unlinked := fun hid => h.unlinked (aside.linked.mp hid)
  unheld := aside.slots.trans h.unheld
  discards := aside.mem ▸ h.discards
  once := aside.freed.trans h.once

theorem aside_take (inside : i < n) (empty : slots i = none)
    (taken : ctxMap k maps req dma = (.ok v, maps')) (other : v ≠ id) :
    Aside n (maps, slots) (maps', Function.update slots i (some v)) id := by
  have count := slotRefs_take inside empty v id
  rw [if_neg other] at count
  rcases ctxMap_ok taken with ⟨-, rfl⟩ | ⟨rfl, map, -, -, -, rfl⟩
  · exact ⟨set_mem_ne maps _ other.symm, Iff.rfl, rfl, count⟩
  · refine ⟨set_mem_ne maps _ other.symm, ?_, rfl, count⟩
    exact List.mem_cons.trans (or_iff_right other.symm)

theorem aside_fail (listed : Listed maps) (failed : ctxMap k maps req dma = (.error err, maps'))
    (known : id < maps.next) : Aside n (maps, slots) (maps', slots) id := by
  obtain ⟨linked, mem, freed⟩ := ctxMap_error listed failed
  refine ⟨mem id known, by rw [linked], ?_, rfl⟩
  rcases freed with same | ⟨more, -⟩
  · rw [same]
  · rw [more]
    exact List.count_cons_of_ne (Nat.ne_of_gt known)

theorem aside_put (maps : Maps) (inside : i < n) (other : slots i ≠ some id) :
    Aside n (maps, slots) (ctxRelease maps (slots i), Function.update slots i none) id := by
  obtain ⟨mem, linked, freed⟩ := ctxRelease_other (s := maps) other
  exact ⟨mem, linked, freed, slotRefs_put_other inside other⟩

theorem OldMap.take (h : OldMap s n (maps, slots) id) (known : id < maps.next) (inside : i < n)
    (empty : slots i = none) (taken : ctxMap k maps req dma = (.ok id, maps')) :
    OldMap s n (maps', Function.update slots i (some id)) id := by
  have count := slotRefs_take inside empty id id
  rw [if_pos rfl] at count
  rcases ctxMap_ok taken with ⟨linked, rfl⟩ | ⟨rfl, -⟩
  · refine ⟨?_, h.origin, fun _ => linked, fun _ hnot => absurd linked hnot⟩
    have mem := h.mem
    dsimp only at mem ⊢
    rw [set_mem_self, count, mem, withRefs_refs, withRefs_ctxRefs]
    push_cast
    rw [← Int.add_assoc, ← Int.add_assoc]
    rfl
  · exact absurd known (Nat.lt_irrefl _)

theorem Made.take (h : Made k n (maps, slots) id) (known : id < maps.next) (inside : i < n)
    (empty : slots i = none) (taken : ctxMap k maps req dma = (.ok id, maps')) :
    Made k n (maps', Function.update slots i (some id)) id := by
  have count := slotRefs_take inside empty id id
  rw [if_pos rfl] at count
  obtain ⟨-, refs, ctx, used, unfreed⟩ := h
  rcases ctxMap_ok taken with ⟨linked, rfl⟩ | ⟨rfl, -⟩
  · refine ⟨linked, ?_, ?_, ?_, unfreed⟩ <;> dsimp only at refs ctx used ⊢
    · rw [set_mem_self, withRefs_refs, keepRefs_withRefs, count, refs]
      push_cast
      omega
    · rw [set_mem_self, withRefs_ctxRefs, count, ctx]
      push_cast
      rfl
    · rw [set_mem_self, withRefs_refs]
      omega
  · exact absurd known (Nat.lt_irrefl _)

/-- A map off the list is only taken if it is made for the slot. -/
theorem made_new (freed : ∀ id ∈ maps.freed, id < maps.next)
    (unlinked : id ∉ maps.linked) (unheld : slotRefs slots n id = 0) (inside : i < n)
    (empty : slots i = none) (taken : ctxMap k maps req dma = (.ok id, maps')) :
    Made k n (maps', Function.update slots i (some id)) id := by
  have count := slotRefs_take inside empty id id
  rw [if_pos rfl, unheld, Nat.zero_add] at count
  rcases ctxMap_ok taken with ⟨linked, -⟩ | ⟨rfl, map, -, refs, ctx, rfl⟩
  · exact absurd linked unlinked
  · have keep := keepRefs_cases k map
    have never : maps.freed.count maps.next = 0 :=
      List.count_eq_zero.mpr fun hid => Nat.lt_irrefl _ (freed _ hid)
    refine ⟨List.mem_cons_self, ?_, ?_, ?_, never⟩ <;>
      simp only [show Maps.mem _ maps.next = map from set_mem_self maps maps.next map, count]
    · rw [refs]
      rfl
    · rw [ctx]
      rfl
    · omega

theorem OldMap.put (usable : Usable s) (h : OldMap s n (maps, slots) id) (listed : Listed maps)
    (inside : i < n) (own : slots i = some id) :
    OldMap s n (ctxRelease maps (slots i), Function.update slots i none) id := by
  have count := slotRefs_put_own inside own
  have mem := h.mem
  have linked : id ∈ maps.linked := h.held (by dsimp only; omega)
  have before := h.origin linked
  have refs0 := usable.refs id before
  have ctx0 := usable.ctx id before
  dsimp only at mem
  have refs : (maps.mem id).refs = (s.mem id).refs + slotRefs slots n id := by
    rw [mem, withRefs_refs]
  have ctx : (maps.mem id).ctxRefs = (s.mem id).ctxRefs + slotRefs slots n id := by
    rw [mem, withRefs_ctxRefs]
  obtain ⟨hmem, hlist⟩ := ctxRelease_own (listed.plain id linked) (by omega) (by omega)
  rw [own]
  refine ⟨?_, fun _ => before, fun held => ?_, fun _ hnot => ?_⟩ <;> dsimp only at *
  · rw [hmem, refs, ctx, mem, ← count]
    push_cast
    rw [← Int.add_assoc, ← Int.add_assoc, Int.add_sub_cancel, Int.add_sub_cancel]
    rfl
  · rcases hlist with ⟨one, -, -, -⟩ | ⟨-, same, -⟩
    · omega
    · rw [same]
      exact linked
  · rcases hlist with ⟨one, hone, -, -⟩ | ⟨-, same, -⟩
    · omega
    · rw [same] at hnot
      exact absurd linked hnot

/-- The last slot of a map releases it, unless it has `KEEP_MAP`. -/
theorem Made.put (h : Made k n (maps, slots) id) (listed : Listed maps) (inside : i < n)
    (own : slots i = some id) :
    Made k n (ctxRelease maps (slots i), Function.update slots i none) id ∨
      Released k n (ctxRelease maps (slots i), Function.update slots i none) id := by
  have count := slotRefs_put_own inside own
  obtain ⟨linked, refs, ctx, used, unfreed⟩ := h
  dsimp only at refs ctx used linked unfreed
  have keep := keepRefs_cases k (maps.mem id)
  obtain ⟨hmem, hlist⟩ := ctxRelease_own (listed.plain id linked) used (by omega)
  rw [own]
  rcases hlist with ⟨one, hone, hlinked, hfreed⟩ | ⟨left, hlinked, hfreed⟩
  · refine Or.inr ⟨?_, ?_, ?_, ?_, ?_⟩ <;> dsimp only
    · exact Nat.lt_of_lt_of_le (listed.known id linked) (kept_release listed (some id)).renews.next
    · rw [hlinked]
      exact listed.nodup.not_mem_erase
    · omega
    · rw [hmem, withRefs_keep]
      exact (keep.resolve_left fun h => by omega).1
    · rw [hfreed, List.count_cons_self, unfreed]
  · refine Or.inl ⟨?_, ?_, ?_, ?_, ?_⟩ <;> dsimp only
    · rw [hlinked]
      exact linked
    · rw [hmem, withRefs_refs, keepRefs_withRefs]
      omega
    · rw [hmem, withRefs_ctxRefs]
      omega
    · rw [hmem, withRefs_refs]
      omega
    · rw [hfreed]
      exact unfreed

theorem ledger_start (usable : Usable s) (empty : ∀ i < n, slots i = none) :
    Ledger k s n (s, slots) where
  listed := usable.listed
  freed := usable.freed
  next := Nat.le_refl _
  old := fun id _ => by
    have count : slotRefs slots n id = 0 := slotRefs_empty empty
    refine ⟨?_, fun h => h, fun held => ?_, fun hid hnot => absurd hid hnot⟩ <;> dsimp only
    · rw [count, Int.natCast_zero, Int.add_zero, Int.add_zero]
      rfl
    · dsimp only at held
      omega
  new := fun id hid => Or.inl ⟨fun hin => Nat.not_lt_of_le hid (usable.listed.known id hin),
    slotRefs_empty empty⟩

theorem Ledger.known (h : Ledger k s n st) (hid : id < s.next) : id < st.1.next :=
  Nat.lt_of_lt_of_le hid h.next

theorem Ledger.take (h : Ledger k s n (maps, slots)) (inside : i < n) (empty : slots i = none)
    (taken : ctxMap k maps req dma = (.ok v, maps')) :
    Ledger k s n (maps', Function.update slots i (some v)) := by
  have kept := kept_ctxMap (k := k) h.listed req dma
  rw [taken] at kept
  refine ⟨kept.listed, fun id hid => ?_, Nat.le_trans h.next kept.renews.next, fun id hid => ?_,
    fun id hid => ?_⟩
  · rcases ctxMap_ok taken with ⟨-, rfl⟩ | ⟨-, map, -, -, -, rfl⟩
    · exact h.freed id hid
    · exact Nat.lt_succ_of_lt (h.freed id hid)
  · by_cases hv : v = id
    · subst hv
      exact (h.old v hid).take (h.known hid) inside empty taken
    · exact (h.old id hid).aside (aside_take inside empty taken hv)
  · by_cases hv : v = id
    · subst hv
      refine Or.inr ?_
      rcases h.new v hid with ⟨unlinked, unheld⟩ | made
      · exact made_new h.freed unlinked unheld inside empty taken
      · exact made.take (h.listed.known v made.linked) inside empty taken
    · have aside := aside_take inside empty taken hv
      exact (h.new id hid).imp (fun none => ⟨fun hin => none.1 (aside.linked.mp hin),
        aside.slots.trans none.2⟩) fun made => made.aside aside

theorem Ledger.fail (h : Ledger k s n (maps, slots))
    (failed : ctxMap k maps req dma = (.error err, maps')) : Ledger k s n (maps', slots) := by
  have kept := kept_ctxMap (k := k) h.listed req dma
  rw [failed] at kept
  obtain ⟨linked, mem, freed⟩ := ctxMap_error h.listed failed
  have aside : ∀ id < maps.next, Aside n (maps, slots) (maps', slots) id := fun id hid =>
    aside_fail h.listed failed hid
  have next : maps.next ≤ maps'.next := kept.renews.next
  refine ⟨kept.listed, fun id hid => ?_, Nat.le_trans h.next next, fun id hid => ?_,
    fun id hid => ?_⟩
  · rcases freed with same | ⟨more, later⟩
    · rw [same] at hid
      exact Nat.lt_of_lt_of_le (h.freed id hid) next
    · rw [more] at hid
      rcases List.mem_cons.mp hid with rfl | hold
      · exact later
      · exact Nat.lt_of_lt_of_le (h.freed id hold) next
  · exact (h.old id hid).aside (aside id (h.known hid))
  · refine (h.new id hid).imp (fun none => ⟨?_, none.2⟩) fun made =>
      made.aside (aside id (h.listed.known id made.linked))
    rw [linked]
    exact none.1

/-- The map of a slot is there. -/
theorem Ledger.slot_known (h : Ledger k s n (maps, slots)) (inside : i < n)
    (own : slots i = some id) : id < maps.next := by
  have count := slotRefs_put_own inside own
  by_cases hid : id < s.next
  · exact h.known hid
  · rcases h.new id (Nat.le_of_not_lt hid) with ⟨-, unheld⟩ | made
    · dsimp only at unheld
      omega
    · exact h.listed.known id made.linked

theorem Ledger.put (usable : Usable s) (h : Ledger k s n (maps, slots)) (inside : i < n) :
    Ledger k s n (ctxRelease maps (slots i), Function.update slots i none) := by
  have kept := kept_release h.listed (slots i)
  refine ⟨kept.listed, fun id hid => ?_, Nat.le_trans h.next kept.renews.next,
    fun id hid => ?_, fun id hid => ?_⟩
  · by_cases own : slots i = some id
    · exact Nat.lt_of_lt_of_le (h.slot_known inside own) kept.renews.next
    · have aside := aside_put maps inside own
      refine Nat.lt_of_lt_of_le (h.freed id ?_) kept.renews.next
      exact List.count_pos_iff.mp (aside.freed ▸ List.count_pos_iff.mpr hid)
  · by_cases own : slots i = some id
    · exact (h.old id hid).put usable h.listed inside own
    · exact (h.old id hid).aside (aside_put maps inside own)
  · by_cases own : slots i = some id
    · rcases h.new id hid with ⟨-, unheld⟩ | made
      · have count := slotRefs_put_own inside own
        dsimp only at unheld
        omega
      · rcases made.put h.listed inside own with left | gone
        · exact Or.inr left
        · exact Or.inl ⟨gone.unlinked, gone.unheld⟩
    · have aside := aside_put maps inside own
      exact (h.new id hid).imp (fun none => ⟨fun hin => none.1 (aside.linked.mp hin),
        aside.slots.trans none.2⟩) fun made => made.aside aside

theorem SlotMoves.ledger (moves : SlotMoves k n st st') (usable : Usable s)
    (start : Ledger k s n st) : Ledger k s n st' := by
  induction moves with
  | refl => exact start
  | take _ inside empty taken ih => exact ih.take inside empty taken
  | fail _ failed ih => exact ih.fail failed
  | put _ inside ih => exact ih.put usable inside

/-- A map that was made stays until it is released, and is released once. -/
theorem SlotMoves.made (moves : SlotMoves k n st st') (usable : Usable s)
    (start : Ledger k s n st) (made : Made k n st id) :
    Made k n st' id ∨ Released k n st' id := by
  induction moves with
  | refl => exact Or.inl made
  | take moves inside empty taken ih =>
    rename_i maps maps' slots i req dma v
    have ledger := moves.ledger usable start
    have kept := kept_ctxMap (k := k) ledger.listed req dma
    rw [taken] at kept
    by_cases hv : v = id
    · subst hv
      rcases ih with made | released
      · exact Or.inl (made.take (ledger.listed.known v made.linked) inside empty taken)
      · rcases ctxMap_ok taken with ⟨linked, -⟩ | ⟨rfl, -⟩
        · exact absurd linked released.unlinked
        · exact absurd released.known (Nat.lt_irrefl _)
    · have aside := aside_take inside empty taken hv
      exact ih.imp (fun made => made.aside aside) fun released =>
        released.aside aside kept.renews.next
  | fail moves failed ih =>
    rename_i maps maps' slots req dma err
    have ledger := moves.ledger usable start
    have kept := kept_ctxMap (k := k) ledger.listed req dma
    rw [failed] at kept
    refine ih.imp (fun made => ?_) fun released => ?_
    · exact made.aside (aside_fail ledger.listed failed (ledger.listed.known id made.linked))
    · exact released.aside (aside_fail ledger.listed failed released.known) kept.renews.next
  | put moves inside ih =>
    rename_i maps slots i
    have ledger := moves.ledger usable start
    by_cases own : slots i = some id
    · rcases ih with made | released
      · exact made.put ledger.listed inside own
      · have count := slotRefs_put_own inside own
        have unheld := released.unheld
        dsimp only at unheld
        omega
    · have aside := aside_put maps inside own
      exact ih.imp (fun made => made.aside aside) fun released =>
        released.aside aside (kept_release ledger.listed (slots i)).renews.next

end ledger

/-- Context `c` is the only one that works on the maps, it is not freed yet, and the back end
returns no descriptors to it. -/
def invokeOnly (c : CtxId) : Action → Bool
  | .mapBuffer c' _ _ _ => c' == c
  | .mapHandles c' _ => c' == c
  | .putBuffer c' _ => c' == c
  | .putFdlist c' fdlist => c' == c && fdlist.headD 0 == 0
  | .contextFree _ => false
  | .finishOp _ _ => false
  | a => !a.isMapCall

section steps

variable {k : Uapi} {s t : File} {a : Action} {c : CtxId}

theorem putFdlist_empty {fdlist : List UInt64} (empty : fdlist.headD 0 = 0) (maps : Maps) :
    putFdlist (fdlist.take InvokeMessage.mFdlist.toNat) maps = maps := by
  cases fdlist with
  | nil => rfl
  | cons fd rest =>
    have first : fd = 0 := empty
    rw [show InvokeMessage.mFdlist.toNat = 15 + 1 by decide, List.take_succ_cons, putFdlist,
      if_pos first]

/-- The slots of a context under its own steps. -/
theorem ctxStep_slots (own : a.ctx = some c) (only : invokeOnly c a = true)
    (none : InvokeMessage.handles (s.ctxs c).sc = 0) (h : ctxStep k s c a = some t) :
    SlotMoves k (bufs (s.ctxs c).sc) (s.maps, (s.ctxs c).maps) (t.maps, (t.ctxs c).maps) := by
  have same : ∀ {u : File}, u.maps = s.maps → (u.ctxs c).maps = (s.ctxs c).maps →
      SlotMoves k (bufs (s.ctxs c).sc) (s.maps, (s.ctxs c).maps) (u.maps, (u.ctxs c).maps) := by
    intro u maps slots
    rw [maps, slots]
    exact .refl
  cases a with
  | mapBuffer _ i req dma =>
    simp only [ctxStep] at h
    split_ifs at h with hcond
    obtain rfl := Option.some.inj h
    unfold mapBuffer
    split
    · rename_i taken
      simp only [File.setCtx, Function.update_self]
      exact SlotMoves.refl.take hcond.2.1 hcond.2.2 taken
    · rename_i failed
      simp only [File.setCtx, Function.update_self]
      exact SlotMoves.refl.fail failed
  | mapHandles _ handles =>
    simp only [ctxStep] at h
    split_ifs at h
    obtain rfl := Option.some.inj h
    simp only [mapHandles, none, loop, File.setCtx, Function.update_self]
    exact .refl
  | stageBuffer _ size ok =>
    simp only [ctxStep] at h
    split_ifs at h
    obtain rfl := Option.some.inj h
    unfold stageBuffer
    split
    · rename_i alloc
      rcases bufAlloc_some alloc with ⟨-, -, rfl⟩ | ⟨-, rfl⟩
      · exact same rfl (by simp [File.setCtx])
      · exact same rfl (by simp [File.setCtx, bufNew])
    · exact same rfl (by simp [File.setCtx])
  | allocMsg _ tx =>
    simp only [ctxStep] at h
    split_ifs at h
    obtain rfl := Option.some.inj h
    unfold allocCtxMsg
    split
    · rename_i alloc
      obtain ⟨i, -, -, rfl⟩ := virtAllocMsg_some alloc
      exact same rfl (by simp [File.setCtx])
    · exact same rfl (by simp [File.setCtx])
  | send _ ok =>
    simp only [ctxStep] at h
    split at h
    · obtain rfl := Option.some.inj h
      exact same rfl (by simp [File.setCtx])
    · cases h
  | interrupt _ =>
    simp only [ctxStep] at h
    split_ifs at h
    obtain rfl := Option.some.inj h
    exact same rfl rfl
  | wake _ | takeAsync _ =>
    simp only [ctxStep] at h
    split_ifs at h
    obtain rfl := Option.some.inj h
    exact same rfl (by simp [File.setCtx])
  | putBuffer _ i =>
    simp only [ctxStep] at h
    split_ifs at h with hcond
    obtain rfl := Option.some.inj h
    simp only [putBuffer, File.setCtx, Function.update_self]
    exact SlotMoves.refl.put hcond.2.2
  | putFdlist _ fdlist =>
    simp only [ctxStep] at h
    split_ifs at h
    obtain rfl := Option.some.inj h
    simp only [invokeOnly, Bool.and_eq_true, beq_iff_eq] at only
    exact same (putFdlist_empty only.2 s.maps) rfl
  | contextFree _ => cases only
  | _ => cases own

/-- A context keeps its arguments, and its slots under the steps of others. -/
theorem step_keeps (known : c < s.nextCtx) (h : step k s a = some t) :
    (t.ctxs c).sc = (s.ctxs c).sc ∧ c < t.nextCtx ∧
      (a.ctx ≠ some c → (t.ctxs c).maps = (s.ctxs c).maps) := by
  obtain ⟨u, moves, same⟩ := step_contexts h
  rw [same.ctxs, same.next]
  have updated : ∀ (v : CtxId) (ctx : InvokeCtx),
      (c = v → ctx.sc = (s.ctxs c).sc ∧ (a.ctx ≠ some c → ctx.maps = (s.ctxs c).maps)) →
      (Function.update s.ctxs v ctx c).sc = (s.ctxs c).sc ∧
        (a.ctx ≠ some c → (Function.update s.ctxs v ctx c).maps = (s.ctxs c).maps) := by
    intro v ctx keeps
    by_cases hc : c = v
    · rw [hc, Function.update_self, ← hc]
      exact keeps hc
    · rw [Function.update_of_ne hc]
      exact ⟨rfl, fun _ => rfl⟩
  cases moves with
  | aside | refused | interrupts | frees => exact ⟨rfl, known, fun _ => rfl⟩
  | begins =>
    obtain ⟨sc, maps⟩ := updated s.nextCtx _ fun hc => absurd hc (Nat.ne_of_lt known)
    exact ⟨sc, Nat.lt_succ_of_lt known, maps⟩
  | resumes saved agrees =>
    rename_i c'
    obtain ⟨sc, maps⟩ := updated c' { s.ctxs c' with stage := .waiting } fun hc => by
      subst hc
      exact ⟨rfl, fun _ => rfl⟩
    exact ⟨sc, known, maps⟩
  | edits own listed pending edit =>
    rename_i c' ctx
    obtain ⟨sc, maps⟩ := updated c' ctx fun hc => by
      subst hc
      exact ⟨edit.sc, fun other => absurd own other⟩
    exact ⟨sc, known, maps⟩

theorem others_maps (only : invokeOnly c a = true) (other : a.ctx ≠ some c)
    (h : step k s a = some t) : t.maps = s.maps := by
  rw [step_maps h]
  cases a with
  | mapBuffer _ _ _ _ | mapHandles _ _ | putBuffer _ _ =>
    exact absurd (congrArg some (beq_iff_eq.mp only)) other
  | putFdlist _ _ =>
    simp only [invokeOnly, Bool.and_eq_true, beq_iff_eq] at only
    exact absurd (congrArg some only.1) other
  | contextFree _ | finishOp _ _ | mmap _ _ _ | memMap _ _ | munmap _ _ | memUnmap _ _ _
  | munmapFd _ _ => cases only
  | _ => rfl

/-- The maps and the slots of a context during its invoke. -/
structure Underway (k : Uapi) (c : CtxId) (sc : UInt32) (st : Slots) (s : File) : Prop where
  known : c < s.nextCtx
  args : (s.ctxs c).sc = sc
  moves : SlotMoves k (bufs sc) st (s.maps, (s.ctxs c).maps)

theorem step_underway {sc : UInt32} {st : Slots} (none : InvokeMessage.handles sc = 0)
    (h : Underway k c sc st s) (only : invokeOnly c a = true) (hstep : step k s a = some t) :
    Underway k c sc st t := by
  obtain ⟨hsc, known, slots⟩ := step_keeps h.known hstep
  refine ⟨known, hsc.trans h.args, h.moves.trans ?_⟩
  by_cases own : a.ctx = some c
  · unfold step at hstep
    rw [own] at hstep
    dsimp only at hstep
    split_ifs at hstep
    have moves := ctxStep_slots own only (by rw [h.args]; exact none) hstep
    rw [h.args] at moves
    exact moves
  · rw [others_maps only own hstep, slots own]
    exact .refl

theorem run_underway {sc : UInt32} {st : Slots} {as : List Action}
    (none : InvokeMessage.handles sc = 0) (h : Underway k c sc st s)
    (only : ∀ a ∈ as, invokeOnly c a = true) (run : exec (step k) s as = some t) :
    Underway k c sc st t :=
  exec_invariant_along (fun _ a => invokeOnly c a = true)
    (fun _ _ _ h only hstep => step_underway none h only hstep) h
    (along_of_forall (fun a ha _ => only a ha) s) run

end steps

/-- The maps that were there have the counts they had. -/
structure Restored (s t : Maps) : Prop where
  refs : ∀ id < s.next, (t.mem id).refs = (s.mem id).refs
  ctx : ∀ id < s.next, (t.mem id).ctxRefs = (s.mem id).ctxRefs
  linked : ∀ id < s.next, id ∈ t.linked ↔ id ∈ s.linked

/-- A map that was made is released, or is left with the reference of `KEEP_MAP`. -/
inductive Settled (k : Uapi) (t : Maps) (id : MapId) : Prop where
  | released (discards : (t.mem id).keep k = false) (unlinked : id ∉ t.linked)
      (once : t.freed.count id = 1) : Settled k t id
  | kept (keeps : (t.mem id).keep k = true) (linked : id ∈ t.linked) (unfreed : id ∉ t.freed)
      (refs : (t.mem id).refs = 1) (ctx : (t.mem id).ctxRefs = 0) : Settled k t id

theorem sane_usable {s : File} (h : Sane s) : Usable s.maps where
  listed := h.listed.maps
  freed := h.tallied.freed
  refs := fun id _ => h.tallied.refs id
  ctx := fun id _ => h.tallied.ctx id

section outcomes

variable {k : Uapi} {s : Maps} {n : Nat} {st st' : Slots} {id : MapId}

theorem ledger_counts (h : Ledger k s n st) (empty : ∀ i < n, st.2 i = none) (hid : id < s.next) :
    (st.1.mem id).refs = (s.mem id).refs ∧ (st.1.mem id).ctxRefs = (s.mem id).ctxRefs := by
  have none : slotRefs st.2 n id = 0 := slotRefs_empty empty
  rw [(h.old id hid).mem, none, withRefs_refs, withRefs_ctxRefs]
  exact ⟨Int.add_zero _, Int.add_zero _⟩

theorem ledger_restored (h : Ledger k s n st) (alive : ∀ id ∈ s.linked, 1 ≤ (s.mem id).refs)
    (empty : ∀ i < n, st.2 i = none) : Restored s st.1 := by
  refine ⟨fun id hid => (ledger_counts h empty hid).1, fun id hid => (ledger_counts h empty hid).2,
    fun id hid => ⟨(h.old id hid).origin, fun hin => ?_⟩⟩
  by_contra hnot
  have dead := (h.old id hid).stays hin hnot
  have refs := alive id hin
  omega

theorem made_settled (h : Made k n st id ∨ Released k n st id)
    (empty : ∀ i < n, st.2 i = none) : Settled k st.1 id := by
  have none : slotRefs st.2 n id = 0 := slotRefs_empty empty
  rcases h with made | released
  · obtain ⟨linked, refs, ctx, used, unfreed⟩ := made
    rw [none] at refs ctx
    rcases keepRefs_cases k (st.1.mem id) with ⟨keeps, one⟩ | ⟨-, zero⟩
    · exact .kept keeps linked (List.count_eq_zero.mp unfreed) (by omega) ctx
    · omega
  · exact .released released.discards released.unlinked released.once

end outcomes

theorem begins_underway {k : Uapi} {s t : File} {pid : Tid} {sc : UInt32} {isAsync : Bool}
    (fresh : savedOf s pid = none) (h : step k s (.invoke pid sc isAsync) = some t) :
    Underway k s.nextCtx sc (s.maps, fun _ => none) t := by
  obtain rfl : internalInvoke s pid sc isAsync = t := Option.some.inj h
  simp only [internalInvoke, fresh, File.setCtx]
  refine ⟨Nat.lt_succ_self _, ?_, ?_⟩ <;> simp only [Function.update_self]
  exact .refl

theorem frees_moves {k : Uapi} {s t : File} {c : CtxId} {sc : UInt32} {st : Slots}
    (h : Underway k c sc st s) (hstep : step k s (.contextFree c) = some t) :
    ∃ slots, SlotMoves k (bufs sc) st (t.maps, slots) ∧ ∀ i < bufs sc, slots i = none := by
  have maps : t.maps = releaseSlots (s.ctxs c).maps 0 (bufs (s.ctxs c).sc) s.maps :=
    step_maps hstep
  rw [h.args] at maps
  refine ⟨emptied (s.ctxs c).maps 0 (bufs sc), ?_, fun i hi => if_pos (by omega)⟩
  rw [maps]
  exact h.moves.releaseSlots _ _ (by omega)

/-- An invoke without DMA handles, from any state the driver can be in, whatever becomes of it
and whoever runs beside it. -/
theorem invoke_references_restored (k : Uapi) (s t : File) (before : List Action)
    (reached : exec (step k) File.opened before = some s)
    (alive : ∀ id ∈ s.maps.linked, 1 ≤ (s.maps.mem id).refs) (pid : Tid) (sc : UInt32)
    (isAsync : Bool) (fresh : savedOf s pid = none) (noHandles : InvokeMessage.handles sc = 0)
    (as : List Action) (only : ∀ a ∈ as, invokeOnly s.nextCtx a = true)
    (run : exec (step k) s (.invoke pid sc isAsync :: (as ++ [.contextFree s.nextCtx])) = some t) :
    Restored s.maps t.maps ∧
      ∀ front back u, as = front ++ back →
        exec (step k) s (.invoke pid sc isAsync :: front) = some u →
        ∀ id ∈ u.maps.linked, s.maps.next ≤ id → Settled k t.maps id := by
  have usable := sane_usable (run_sane reached)
  have start : Ledger k s.maps (bufs sc) (s.maps, fun _ => none) :=
    ledger_start usable fun _ _ => rfl
  obtain ⟨begun, hbegin, hrest⟩ := exec_cons_eq_some run
  obtain ⟨last, hrun, hfree⟩ := exec_append_eq_some hrest
  obtain ⟨freed, hfreed, hdone⟩ := exec_cons_eq_some hfree
  obtain rfl : freed = t := Option.some.inj hdone
  have underway := begins_underway fresh hbegin
  constructor
  · obtain ⟨slots, moves, empty⟩ := frees_moves (run_underway noHandles underway only hrun) hfreed
    exact ledger_restored (moves.ledger usable start) alive empty
  · rintro front back u rfl hfront id hlinked hnew
    obtain ⟨begun', hbegin', hfront⟩ := exec_cons_eq_some hfront
    obtain rfl := Option.some.inj (hbegin.symm.trans hbegin')
    obtain ⟨u', hfront', hback⟩ := exec_append_eq_some hrun
    obtain rfl := Option.some.inj (hfront.symm.trans hfront')
    have sofar := run_underway noHandles underway
      (fun a ha => only a (List.mem_append_left back ha)) hfront
    have ledger := sofar.moves.ledger usable start
    have made : Made k (bufs sc) (u.maps, (u.ctxs s.nextCtx).maps) id :=
      (ledger.new id hnew).resolve_left fun none => none.1 hlinked
    -- from here on the invoke only works on what it holds at this point
    have later : Underway k s.nextCtx sc (u.maps, (u.ctxs s.nextCtx).maps) u :=
      ⟨sofar.known, sofar.args, .refl⟩
    obtain ⟨slots, moves, empty⟩ := frees_moves (run_underway noHandles later
      (fun a ha => only a (List.mem_append_right front ha)) hback) hfreed
    exact made_settled (moves.made usable ledger made) empty

/-- One input buffer with `KEEP_MAP` and two output buffers that share a map; `put_args` fails
after the first of them. -/
def sharedBuffers : List Action :=
  [.mapBuffer 0 0 ⟨5, 8, 0x1000, 0x100, 0⟩ .mapped,
    .mapBuffer 0 1 ⟨6, 0, 0x2000, 0x100, 0⟩ .mapped,
    .mapBuffer 0 2 ⟨6, 0, 0x2010, 0x20, 0⟩ .mapped,
    .allocMsg 0 true, .send 0 true, .wake 0, .putBuffer 0 1]

theorem sharedBuffers_restored : ∃ t,
    exec (step MapReferences.uapi) File.opened
      (.invoke 7 0x10200 false :: (sharedBuffers ++ [.contextFree 0])) = some t ∧
    Restored File.opened.maps t.maps ∧ Settled MapReferences.uapi t.maps 0 ∧
    Settled MapReferences.uapi t.maps 1 := by
  refine ⟨_, rfl, ?_⟩
  have result := invoke_references_restored MapReferences.uapi File.opened _
    [] rfl (fun id hid => by cases hid) 7 0x10200 false rfl (by decide)
    sharedBuffers (by decide) rfl
  have linked := result.2 (sharedBuffers.take 2) (sharedBuffers.drop 2) _ rfl rfl
  exact ⟨result.1, linked 0 (by decide) (Nat.le_refl 0), linked 1 (by decide) (Nat.zero_le 1)⟩

end InvokeReferences
