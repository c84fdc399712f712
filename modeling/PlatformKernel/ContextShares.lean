import Mathlib.Algebra.GroupWithZero.Nat
import PlatformKernel.MapLists
import PlatformKernel.FileLists

/-!
# What the contexts in flight hold of a map

A context holds a map once for each of its buffers whose slot refers to it. Taking and
releasing a map for a buffer moves `refs`, `ctx_refs` and this number by the same amount.
DMA handles and the list of descriptors the back end returns are not balanced in this way;
they reach a map through its descriptor at address 0 only.
-/

namespace ContextShares

open CountedLoops FileMaps FileOperations FileMoves MapLists FileLists
open InvokeMessage (bufs)

/-- Both counts of a map move by `d`, and it stays where it is. -/
structure Shifted (s t : Maps) (id : MapId) (d : Int) : Prop where
  mem : t.mem id = (s.mem id).withRefs ((s.mem id).refs + d) ((s.mem id).ctxRefs + d)
  linked : id ∈ t.linked ↔ id ∈ s.linked
  next : s.next ≤ t.next

section maps

variable {k : Uapi} {s t u : Maps} {id v : MapId} {d d' : Int}

theorem shifted_of_same (mem : t.mem id = s.mem id) (linked : id ∈ t.linked ↔ id ∈ s.linked)
    (next : s.next ≤ t.next) : Shifted s t id 0 := by
  refine ⟨?_, linked, next⟩
  rw [mem, Int.add_zero, Int.add_zero]
  rfl

theorem Shifted.refl (s : Maps) (id : MapId) : Shifted s s id 0 :=
  shifted_of_same rfl Iff.rfl (Nat.le_refl _)

theorem Shifted.trans (h : Shifted s t id d) (h' : Shifted t u id d') :
    Shifted s u id (d + d') := by
  refine ⟨?_, h'.linked.trans h.linked, Nat.le_trans h.next h'.next⟩
  rw [h'.mem, h.mem, ← Int.add_assoc, ← Int.add_assoc]
  rfl

theorem Shifted.same (h : Shifted s t id 0) : t.mem id = s.mem id := by
  rw [h.mem, Int.add_zero, Int.add_zero]
  rfl

theorem shifted_set (map : VfastrpcMmap) (hne : v ≠ id) : Shifted s (s.set v map) id 0 :=
  shifted_of_same (set_mem_ne s map hne.symm) Iff.rfl (Nat.le_refl _)

/-- Another map is freed. -/
theorem shifted_unlink (map : VfastrpcMmap) (freed : List MapId) (hne : v ≠ id) :
    Shifted s { s.set v map with linked := s.linked.erase v, freed := freed } id 0 :=
  shifted_of_same (set_mem_ne s map hne.symm) (List.mem_erase_of_ne hne.symm) (Nat.le_refl _)

theorem shifted_free (force : Bool) (hne : v ≠ id) :
    Shifted s (mmapFree s (some v) force) id 0 := by
  have outcome := mmapFree_freeing s v force
  generalize mmapFree s (some v) force = r at outcome ⊢
  cases outcome with
  | refused why => exact Shifted.refl s id
  | dropped refs ctx kept left => exact shifted_set _ hne
  | freed plain refs ctx last => exact shifted_unlink _ _ hne

theorem shifted_release {slot : Option MapId} (hne : slot ≠ some id) :
    Shifted s (ctxRelease s slot) id 0 := by
  obtain ⟨mem, linked, -⟩ := ctxRelease_other (s := s) hne
  exact shifted_of_same mem linked (Nat.le_of_eq (ctxRelease_next s slot).symm)

/-- A context gives back a map that something else still refers to. -/
theorem shifted_release_own (plain : heapFlags (s.mem id).flags = false)
    (some_ctx : 0 < (s.mem id).ctxRefs) (other : (s.mem id).ctxRefs < (s.mem id).refs) :
    Shifted s (ctxRelease s (some id)) id (-1) := by
  obtain ⟨mem, ⟨one, last, -⟩ | ⟨-, linked, -⟩⟩ := ctxRelease_own plain (by omega) some_ctx
  · omega
  · exact ⟨mem, by rw [linked], Nat.le_of_eq (ctxRelease_next s _).symm⟩

theorem shifted_releases_others {slots : Nat → Option MapId} (is : List Nat)
    (others : ∀ i ∈ is, slots i ≠ some id) :
    Shifted s (is.foldl (fun maps i => ctxRelease maps (slots i)) s) id 0 := by
  induction is generalizing s with
  | nil => exact Shifted.refl s id
  | cons i rest ih =>
    exact (shifted_release (others i List.mem_cons_self)).trans
      (ih fun j hj => others j (List.mem_cons_of_mem _ hj))

/-- The slots of a list of buffers are given back. -/
theorem shifted_releases (slots : Nat → Option MapId) (is : List Nat)
    (plain : heapFlags (s.mem id).flags = false)
    (enough : (is.countP fun i => slots i == some id : Int) ≤ (s.mem id).ctxRefs)
    (other : 0 < is.countP (fun i => slots i == some id) → (s.mem id).ctxRefs < (s.mem id).refs) :
    Shifted s (is.foldl (fun maps i => ctxRelease maps (slots i)) s) id
      (-(is.countP fun i => slots i == some id : Int)) := by
  induction is generalizing s with
  | nil => exact Shifted.refl s id
  | cons i rest ih =>
    rw [List.foldl_cons]
    by_cases hi : slots i = some id
    · have hcount : (i :: rest).countP (fun i => slots i == some id) =
          rest.countP (fun i => slots i == some id) + 1 :=
        List.countP_cons_of_pos (by simp [hi])
      rw [hcount] at enough other ⊢
      have hother := other (Nat.succ_pos _)
      rw [hi]
      have first := shifted_release_own plain (by push_cast at enough; omega) hother
      have hmem := first.mem
      have rest' := ih (s := ctxRelease s (some id)) (by rw [hmem]; exact plain)
        (by rw [hmem, withRefs_ctxRefs]; push_cast at enough; omega)
        (fun _ => by rw [hmem, withRefs_ctxRefs, withRefs_refs]; omega)
      have both := first.trans rest'
      rw [show (-1 : Int) + -(rest.countP fun i => slots i == some id : Int) =
        -((rest.countP fun i => slots i == some id) + 1 : Nat) by push_cast; omega] at both
      exact both
    · have hcount : (i :: rest).countP (fun i => slots i == some id) =
          rest.countP (fun i => slots i == some id) :=
        List.countP_cons_of_neg (by simpa using hi)
      rw [hcount] at enough other ⊢
      have first := shifted_release (s := s) hi
      have hmem := first.same
      have rest' := ih (s := ctxRelease s (slots i)) (by rw [hmem]; exact plain)
        (by rw [hmem]; exact enough) (by rw [hmem]; exact other)
      simpa using first.trans rest'

theorem mmapFind_covers {fd : Int} {va len : UInt64} {mflags : UInt32} {refs : Bool}
    (h : mmapFind s fd va len mflags refs = .ok (id, t)) : covers (s.mem id) fd va len = true := by
  unfold mmapFind at h
  split at h
  · cases h
  split at h
  · cases h
  split at h
  · cases h
  rename_i v hv
  have hcovers := List.find?_some hv
  dsimp only at h
  split_ifs at h
  · obtain ⟨rfl, -⟩ := Prod.mk.inj (Except.ok.inj h)
    exact hcovers
  · obtain ⟨rfl, -⟩ := Prod.mk.inj (Except.ok.inj h)
    exact hcovers

/-- A request that is not given a new map is given one that covers it. -/
theorem mmapCreate_covers {req : MapRequest} {dma : DmaOutcome} (old : id ≠ s.next)
    (h : mmapCreate k s req dma = (.ok id, t)) :
    covers (s.mem id) req.fd req.va req.len = true := by
  unfold mmapCreate at h
  split at h
  · rename_i hfind
    obtain ⟨hid, -⟩ := Prod.mk.inj h
    obtain rfl := Except.ok.inj hid
    exact mmapFind_covers hfind
  · dsimp only at h
    split at h
    · cases (Prod.mk.inj h).1
    split at h
    · cases (Prod.mk.inj h).1
    split at h
    · exact False.elim (old (Except.ok.inj (Prod.mk.inj h).1).symm)
    · cases (Prod.mk.inj h).1

/-- What `vfastrpc_mmap_create` does to a map that exists already. -/
theorem create_old {req : MapRequest} {dma : DmaOutcome} {r : Except Int MapId}
    (known : id < s.next) (h : mmapCreate k s req dma = (r, t)) :
    (r = .ok id ∧ id ∈ s.linked ∧ covers (s.mem id) req.fd req.va req.len = true ∧
      t = s.set id ((s.mem id).withRefs ((s.mem id).refs + 1) (s.mem id).ctxRefs)) ∨
    (r ≠ .ok id ∧ Shifted s t id 0) := by
  have hne : s.next ≠ id := (Nat.ne_of_lt known).symm
  have new : ∀ map, (s.set s.next map).mem id = s.mem id := fun map => set_mem_ne s map hne.symm
  have outcome := mmapCreate_creating k s req dma
  rw [h] at outcome
  cases outcome with
  | found linked room =>
    rename_i v
    by_cases hv : v = id
    · subst hv
      exact Or.inl ⟨rfl, linked, mmapCreate_covers hne.symm h, rfl⟩
    · exact Or.inr ⟨fun he => hv (Except.ok.inj he), shifted_set _ hv⟩
  | failed err => exact Or.inr ⟨(fun he => by cases he), Shifted.refl s id⟩
  | created plain refs ctx =>
    refine Or.inr ⟨fun he => hne (Except.ok.inj he), shifted_of_same (new _) ?_ (Nat.le_succ _)⟩
    simp [hne.symm]
  | abandoned err map =>
    exact Or.inr ⟨(fun he => by cases he), shifted_of_same (new _) Iff.rfl (Nat.le_succ _)⟩
  | discarded err refs ctx =>
    exact Or.inr ⟨(fun he => by cases he), shifted_of_same (new _)
      (List.mem_erase_of_ne hne.symm) (Nat.le_succ _)⟩

/-- A context takes a map that exists already, or another one. -/
theorem ctxMap_old {req : MapRequest} {dma : DmaOutcome} {r : Except Int MapId}
    (known : id < s.next) (h : ctxMap k s req dma = (r, t)) :
    (r = .ok id ∧ id ∈ s.linked ∧ covers (s.mem id) req.fd req.va req.len = true ∧
      Shifted s t id 1) ∨
    (r ≠ .ok id ∧ Shifted s t id 0) := by
  unfold ctxMap at h
  split at h
  · rename_i v maps hcreate
    obtain ⟨rfl, rfl⟩ := Prod.mk.inj h
    rcases create_old known hcreate with ⟨he, linked, hcovers, rfl⟩ | ⟨hne, same⟩
    · obtain rfl := Except.ok.inj he
      refine Or.inl ⟨rfl, linked, hcovers, ⟨?_, Iff.rfl, Nat.le_refl _⟩⟩
      simp only [set_mem_self, set_set]
      rfl
    · have hv : v ≠ id := fun he => hne (congrArg Except.ok he)
      exact Or.inr ⟨hne, same.trans (shifted_set _ hv)⟩
  · rename_i err maps hcreate
    obtain ⟨rfl, rfl⟩ := Prod.mk.inj h
    rcases create_old known hcreate with ⟨he, -⟩ | same
    · cases he
    · exact Or.inr same

/-- The map is not reached through this descriptor alone. -/
def Unnamed (map : VfastrpcMmap) (fd : Int) : Prop := covers map fd 0 0 = false

instance (map : VfastrpcMmap) (fd : Int) : Decidable (Unnamed map fd) :=
  inferInstanceAs (Decidable (_ = _))

/-- What the second loop of `get_args` leaves of a map it does not name. -/
structure Passed (s : Maps) (slots : Nat → Option MapId) (id : MapId) (lo n : Nat)
    (st : Slots) : Prop where
  shifted : Shifted s st.1 id 0
  low : ∀ j < lo, st.2 j = slots j
  free : ∀ j ∈ List.range' lo n, st.2 j ≠ some id

theorem passed_release {slots : Nat → Option MapId} {lo n i : Nat} {maps : Maps}
    {held : Nat → Option MapId} (h : Passed s slots id lo n (maps, held)) (hi : lo ≤ i)
    (hn : i < lo + n) :
    Passed s slots id lo n (releaseSlots held lo (i - lo) maps, held) := by
  refine ⟨h.shifted.trans (shifted_releases_others _ fun j hj => h.free j ?_), h.low, h.free⟩
  rw [List.mem_range'_1] at hj ⊢
  omega

theorem mapHandle_passed {sc : UInt32} {handles : Nat → Handle} {slots : Nat → Option MapId}
    {n i : Nat} {st : Slots} (known : id < s.next) (h : Passed s slots id (bufs sc) n st)
    (hi : bufs sc ≤ i) (hn : i < bufs sc + n)
    (unnamed : (handles i).fd ≠ -1 → Unnamed (s.mem id) (handles i).fd) :
    (mapHandle k sc handles i st).Holds (Passed s slots id (bufs sc) n)
      fun _ => Passed s slots id (bufs sc) n := by
  obtain ⟨maps, held⟩ := st
  unfold mapHandle
  split
  · exact h
  rename_i hfd
  dsimp only
  generalize hmap : ctxMap k maps _ (handles i).dma = r
  obtain ⟨result, maps'⟩ := r
  have shifted : result ≠ .ok id ∧ Shifted maps maps' id 0 := by
    rcases ctxMap_old (Nat.lt_of_lt_of_le known h.shifted.next) hmap with ⟨-, -, hcovers, -⟩ | same
    · rw [h.shifted.same] at hcovers
      have hnot := unnamed hfd
      unfold Unnamed at hnot
      rw [hnot] at hcovers
      cases hcovers
    · exact same
  have passed : Passed s slots id (bufs sc) n (maps', held) :=
    ⟨h.shifted.trans shifted.2, h.low, h.free⟩
  cases result with
  | error err => exact passed_release passed hi hn
  | ok v =>
    refine ⟨passed.shifted, fun j hj => ?_, fun j hj => ?_⟩
    · have hji : j ≠ i := by omega
      exact (Function.update_of_ne hji _ _).trans (h.low j hj)
    · change Function.update held i (some v) j ≠ some id
      rw [Function.update_apply]
      split_ifs
      · exact fun he => shifted.1 (congrArg Except.ok (Option.some.inj he))
      · exact h.free j hj

theorem mapHandles_passed {sc : UInt32} {handles : Nat → Handle} {slots : Nat → Option MapId}
    {n : Nat} (known : id < s.next)
    (free : ∀ j ∈ List.range' (bufs sc) n, slots j ≠ some id)
    (unnamed : ∀ i ∈ List.range' (bufs sc) n, (handles i).fd ≠ -1 →
      Unnamed (s.mem id) (handles i).fd) :
    Passed s slots id (bufs sc) n
      (loop (mapHandle k sc handles) (bufs sc) n (s, slots)).state := by
  refine holds_state (loop_holds (fun _ => Passed s slots id (bufs sc) n)
    ⟨Shifted.refl s id, fun _ _ => rfl, free⟩ fun i st hi hn hst => ?_)
  exact mapHandle_passed known hst hi hn (unnamed i (List.mem_range'_1.mpr ⟨hi, hn⟩))

theorem shifted_fdlist (fdlist : List UInt64)
    (unnamed : ∀ fd ∈ fdlist.takeWhile (· != 0), Unnamed (s.mem id) fd.toUInt32.toInt32.toInt) :
    Shifted s (putFdlist fdlist s) id 0 := by
  induction fdlist generalizing s with
  | nil => exact Shifted.refl s id
  | cons fd rest ih =>
    unfold putFdlist
    by_cases hfd : fd = 0
    · rw [if_pos hfd]
      exact Shifted.refl s id
    rw [if_neg hfd]
    have htake : (fd :: rest).takeWhile (· != 0) = fd :: rest.takeWhile (· != 0) :=
      List.takeWhile_cons_of_pos (by simpa using hfd)
    rw [htake] at unnamed
    have first := unnamed fd List.mem_cons_self
    have others := fun fd' hfd' => unnamed fd' (List.mem_cons_of_mem fd hfd')
    split
    · rename_i v t hfind
      have hcovers := mmapFind_covers hfind
      rcases (mmapFind_ok hfind).2 with ⟨-, rfl⟩ | ⟨htrue, -⟩
      · have hv : some v ≠ some id := by
          intro he
          rw [Option.some.inj he] at hcovers
          unfold Unnamed at first
          rw [first] at hcovers
          cases hcovers
        have released := shifted_release (s := t) hv
        exact released.trans (ih (by rw [released.same]; exact others))
      · cases htrue
    · exact ih others

end maps

/-- The buffers of a context whose slot refers to a map. -/
def slotCount (ctx : InvokeCtx) (id : MapId) : Nat :=
  (List.range (bufs ctx.sc)).countP fun i => ctx.maps i == some id

def handleSlots (ctx : InvokeCtx) : List Nat :=
  List.range' (bufs ctx.sc) (InvokeMessage.handles ctx.sc)

def live (s : File) : List CtxId := s.pending ++ s.interrupted

def held (s : File) (id : MapId) : Nat := ((live s).map fun c => slotCount (s.ctxs c) id).sum

/-- No DMA handle of a context in flight refers to the map. -/
def HandlesFree (s : File) (id : MapId) : Prop :=
  ∀ c ∈ live s, ∀ i ∈ handleSlots (s.ctxs c), (s.ctxs c).maps i ≠ some id

instance (s : File) (id : MapId) : Decidable (HandlesFree s id) :=
  inferInstanceAs (Decidable (∀ c ∈ _, ∀ i ∈ _, _ ≠ _))

theorem countP_update (f : Nat → Option MapId) {i n : Nat} (hi : i < n) (x : Option MapId)
    (id : MapId) :
    (List.range n).countP (fun j => Function.update f i x j == some id) +
        (if f i = some id then 1 else 0) =
      (List.range n).countP (fun j => f j == some id) + if x = some id then 1 else 0 := by
  induction n with
  | zero => omega
  | succ n ih =>
    simp only [List.range_succ, List.countP_append, List.countP_singleton, beq_iff_eq]
    by_cases hin : i = n
    · subst hin
      have below : (List.range i).countP (fun j => Function.update f i x j == some id) =
          (List.range i).countP fun j => f j == some id := by
        refine List.countP_congr fun j hj => ?_
        rw [Function.update_of_ne (Nat.ne_of_lt (List.mem_range.mp hj))]
      rw [below, Function.update_self]
      omega
    · rw [Function.update_of_ne (Ne.symm hin)]
      have := ih (by omega)
      omega

theorem sum_update {A : Type} (g : A → Nat) (f : CtxId → A) {l : List CtxId} {c : CtxId}
    (hnodup : l.Nodup) (hc : c ∈ l) (x : A) :
    (l.map fun v => g (Function.update f c x v)).sum + g (f c) =
      (l.map fun v => g (f v)).sum + g x := by
  have perm := List.perm_cons_erase hc
  have others : ((l.erase c).map fun v => g (Function.update f c x v)) =
      (l.erase c).map fun v => g (f v) := by
    refine List.map_congr_left fun v hv => ?_
    rw [Function.update_of_ne (hnodup.mem_erase_iff.mp hv).1]
  rw [(perm.map _).sum_eq, (perm.map fun v => g (f v)).sum_eq, List.map_cons, List.map_cons,
    List.sum_cons, List.sum_cons, Function.update_self, others]
  omega

section files

variable {k : Uapi} {s t : File} {id : MapId} {c : CtxId} {d : Int}

theorem held_setCtx (id : MapId) (hnodup : (live s).Nodup) (hc : c ∈ live s) (ctx : InvokeCtx) :
    held (s.setCtx c ctx) id + slotCount (s.ctxs c) id = held s id + slotCount ctx id :=
  sum_update (fun x : InvokeCtx => slotCount x id) s.ctxs hnodup hc ctx

theorem slotCount_le_held (id : MapId) (hc : c ∈ live s) :
    slotCount (s.ctxs c) id ≤ held s id :=
  List.le_sum_of_mem (List.mem_map.mpr ⟨c, hc, rfl⟩)

/-- A map whose counts are right: each buffer of a context that refers to it is counted, and
while it is on the list there is another reference. -/
structure Pinned (s : File) (id : MapId) : Prop where
  known : id < s.maps.next
  plain : heapFlags (s.maps.mem id).flags = false
  ctx : (s.maps.mem id).ctxRefs = held s id
  other : id ∈ s.maps.linked → (s.maps.mem id).ctxRefs < (s.maps.mem id).refs
  idle : id ∉ s.maps.linked → held s id = 0
  handles : HandlesFree s id

/-- A step in which both counts and the number of buffers move by the same amount. -/
structure Moved (s t : File) (id : MapId) (d : Int) : Prop where
  maps : Shifted s.maps t.maps id d
  held : (held t id : Int) = held s id + d
  handles : HandlesFree t id
  taken : 0 < d → id ∈ s.maps.linked

theorem pinned_moved (h : Pinned s id) (moved : Moved s t id d) : Pinned t id where
  known := Nat.lt_of_lt_of_le h.known moved.maps.next
  plain := by
    rw [moved.maps.mem]
    exact h.plain
  ctx := by
    rw [moved.maps.mem, withRefs_ctxRefs, moved.held, h.ctx]
  other := fun hid => by
    have := h.other (moved.maps.linked.mp hid)
    rw [moved.maps.mem, withRefs_ctxRefs, withRefs_refs]
    omega
  idle := fun hid => by
    have hnot : id ∉ s.maps.linked := fun hin => hid (moved.maps.linked.mpr hin)
    have hzero := h.idle hnot
    have hheld := moved.held
    have hd : ¬ 0 < d := fun hd => hnot (moved.taken hd)
    omega
  handles := moved.handles

theorem shifted_zero_moved (maps : Shifted s.maps t.maps id 0) (same : held t id = held s id)
    (handles : HandlesFree t id) : Moved s t id 0 :=
  ⟨maps, by rw [same, Int.add_zero], handles, fun h => False.elim (Int.lt_irrefl 0 h)⟩

/-- The contexts in flight are the same and have the same slots. -/
theorem moved_quiet (h : Pinned s id) (maps : Shifted s.maps t.maps id 0)
    (perm : (live t).Perm (live s))
    (slots : ∀ c ∈ live s, (t.ctxs c).sc = (s.ctxs c).sc ∧ (t.ctxs c).maps = (s.ctxs c).maps) :
    Moved s t id 0 := by
  refine shifted_zero_moved maps ?_ fun c hc i hi => ?_
  · unfold held
    rw [(perm.map _).sum_eq]
    refine congrArg List.sum (List.map_congr_left fun c hc => ?_)
    obtain ⟨hsc, hmaps⟩ := slots c hc
    unfold slotCount
    rw [hsc, hmaps]
  · have hc' := perm.mem_iff.mp hc
    obtain ⟨hsc, hmaps⟩ := slots c hc'
    rw [hmaps]
    unfold handleSlots at hi
    rw [hsc] at hi
    exact h.handles c hc' i hi

/-- A context in flight changes, its slots apart. -/
theorem moved_setCtx_quiet (h : Pinned s id) {ctx : InvokeCtx}
    (hctxs : t.ctxs = Function.update s.ctxs c ctx) (hsc : ctx.sc = (s.ctxs c).sc)
    (hmaps : ctx.maps = (s.ctxs c).maps) (maps : Shifted s.maps t.maps id 0)
    (perm : (live t).Perm (live s)) : Moved s t id 0 := by
  refine moved_quiet h maps perm fun v _ => ?_
  rw [hctxs]
  by_cases hv : v = c
  · subst hv
    rw [Function.update_self]
    exact ⟨hsc, hmaps⟩
  · rw [Function.update_of_ne hv]
    exact ⟨rfl, rfl⟩

/-- A context in flight changes its slots. -/
theorem moved_setCtx (h : Pinned s id) (hnodup : (live s).Nodup) (hc : c ∈ live s)
    {slots : Nat → Option MapId} {stage : Stage} {maps : Maps} (shifted : Shifted s.maps maps id d)
    (count : ((List.range (bufs (s.ctxs c).sc)).countP (fun i => slots i == some id) : Int) =
      slotCount (s.ctxs c) id + d)
    (handles : ∀ i ∈ handleSlots (s.ctxs c), slots i ≠ some id)
    (taken : 0 < d → id ∈ s.maps.linked) :
    Moved s { s.setCtx c { s.ctxs c with maps := slots, stage := stage } with maps := maps }
      id d where
  maps := shifted
  held := by
    have sum := held_setCtx id hnodup hc { s.ctxs c with maps := slots, stage := stage }
    have hcount : (slotCount { s.ctxs c with maps := slots, stage := stage } id : Int) =
        slotCount (s.ctxs c) id + d := count
    have hheld : held { s.setCtx c { s.ctxs c with maps := slots, stage := stage } with
        maps := maps } id = held (s.setCtx c { s.ctxs c with maps := slots, stage := stage }) id :=
      rfl
    omega
  handles := fun v hv i hi => by
    by_cases hvc : v = c
    · subst hvc
      simp only [File.setCtx, Function.update_self] at hi ⊢
      exact handles i hi
    · simp only [File.setCtx, Function.update_of_ne hvc] at hi ⊢
      exact h.handles v hv i hi
  taken := taken

theorem buffer_not_handle {i j : Nat} (hi : i < bufs (s.ctxs c).sc)
    (hj : j ∈ handleSlots (s.ctxs c)) : j ≠ i := by
  unfold handleSlots at hj
  rw [List.mem_range'_1] at hj
  omega

theorem mapBuffer_moved (h : Pinned s id) (hnodup : (live s).Nodup) (hc : c ∈ live s) {i : Nat}
    (hi : i < bufs (s.ctxs c).sc) (empty : (s.ctxs c).maps i = none) (req : MapRequest)
    (dma : DmaOutcome) : ∃ d, Moved s (mapBuffer k s c i req dma) id d := by
  unfold mapBuffer
  generalize hmap : ctxMap k s.maps { req with mflags := 0 } dma = r
  obtain ⟨result, maps⟩ := r
  have outcome := ctxMap_old h.known hmap
  cases result with
  | error err =>
    rcases outcome with ⟨he, -⟩ | ⟨-, same⟩
    · cases he
    · dsimp only
      exact ⟨0, moved_setCtx_quiet h rfl rfl rfl same (List.Perm.refl _)⟩
  | ok v =>
    have count := countP_update (s.ctxs c).maps hi (some v) id
    rw [empty, if_neg (fun he => by cases he), Nat.add_zero] at count
    have handles : ∀ j ∈ handleSlots (s.ctxs c),
        Function.update (s.ctxs c).maps i (some v) j ≠ some id := by
      intro j hj
      rw [Function.update_of_ne (buffer_not_handle hi hj)]
      exact h.handles c hc j hj
    rcases outcome with ⟨he, linked, -, shifted⟩ | ⟨hne, same⟩
    · obtain rfl := Except.ok.inj he
      rw [if_pos rfl] at count
      refine ⟨1, moved_setCtx h hnodup hc shifted ?_ handles fun _ => linked⟩
      unfold slotCount
      rw [count]
      push_cast
      rfl
    · have hv : ¬ some v = some id := fun he => hne (congrArg Except.ok (Option.some.inj he))
      rw [if_neg hv] at count
      refine ⟨0, moved_setCtx h hnodup hc same ?_ handles fun hd => False.elim (by omega)⟩
      unfold slotCount
      rw [count]
      push_cast
      omega

theorem mapHandles_moved (h : Pinned s id) (hnodup : (live s).Nodup) (hc : c ∈ live s)
    {handles : Nat → Handle}
    (unnamed : ∀ i ∈ handleSlots (s.ctxs c), (handles i).fd ≠ -1 →
      Unnamed (s.maps.mem id) (handles i).fd) : Moved s (mapHandles k s c handles) id 0 := by
  have passed := mapHandles_passed (k := k) (n := InvokeMessage.handles (s.ctxs c).sc) h.known
    (h.handles c hc) unnamed
  have count : ∀ slots : Nat → Option MapId,
      (∀ j < bufs (s.ctxs c).sc, slots j = (s.ctxs c).maps j) →
      ((List.range (bufs (s.ctxs c).sc)).countP (fun i => slots i == some id) : Int) =
        slotCount (s.ctxs c) id + 0 := by
    intro slots low
    rw [Int.add_zero]
    refine congrArg Int.ofNat (List.countP_congr fun j hj => ?_)
    rw [low j (List.mem_range.mp hj)]
  unfold mapHandles
  dsimp only
  split
  · rename_i maps slots hloop
    rw [hloop] at passed
    exact moved_setCtx h hnodup hc passed.shifted (count slots passed.low) passed.free
      fun hd => False.elim (by omega)
  · rename_i maps slots hloop
    rw [hloop] at passed
    exact moved_setCtx h hnodup hc passed.shifted (count slots passed.low) passed.free
      fun hd => False.elim (by omega)

theorem putBuffer_moved (h : Pinned s id) (hnodup : (live s).Nodup) (hc : c ∈ live s) {i : Nat}
    (hi : i < bufs (s.ctxs c).sc) : ∃ d, Moved s (putBuffer s c i) id d := by
  have count := countP_update (s.ctxs c).maps hi none id
  rw [if_neg (show ¬ (none : Option MapId) = some id from fun he => by cases he),
    Nat.add_zero] at count
  have handles : ∀ j ∈ handleSlots (s.ctxs c),
      Function.update (s.ctxs c).maps i none j ≠ some id := by
    intro j hj
    rw [Function.update_of_ne (buffer_not_handle hi hj)]
    exact h.handles c hc j hj
  unfold putBuffer
  by_cases hslot : (s.ctxs c).maps i = some id
  · rw [if_pos hslot] at count
    have hsome : 0 < held s id := by
      have hle := slotCount_le_held id hc
      unfold slotCount at hle
      omega
    have linked : id ∈ s.maps.linked := by
      by_contra hnot
      have := h.idle hnot
      omega
    have shifted : Shifted s.maps (ctxRelease s.maps ((s.ctxs c).maps i)) id (-1) := by
      rw [hslot]
      refine shifted_release_own h.plain ?_ (h.other linked)
      rw [h.ctx]
      omega
    refine ⟨-1, moved_setCtx h hnodup hc shifted ?_ handles fun hd => False.elim (by omega)⟩
    unfold slotCount
    omega
  · rw [if_neg hslot, Nat.add_zero] at count
    refine ⟨0, moved_setCtx h hnodup hc (shifted_release hslot) ?_ handles
      fun hd => False.elim (by omega)⟩
    unfold slotCount
    omega

theorem contextFree_moved (h : Pinned s id) (hnodup : (live s).Nodup) (hc : c ∈ s.pending) :
    ∃ d, Moved s (contextFree s c) id d := by
  have hnot : c ∉ s.interrupted := fun hi =>
    (List.nodup_append.mp hnodup).2.2 c hc c hi rfl
  have perm : (live s).Perm (c :: (s.pending.erase c ++ s.interrupted.erase c)) := by
    rw [List.erase_of_not_mem hnot]
    exact (List.perm_cons_erase hc).append_right s.interrupted
  have hlive : c ∈ live s := List.mem_append_left _ hc
  have hle := slotCount_le_held id hlive
  have shifted : Shifted s.maps (releaseSlots (s.ctxs c).maps 0 (bufs (s.ctxs c).sc) s.maps) id
      (-(slotCount (s.ctxs c) id : Int)) := by
    have hrange : List.range' 0 (bufs (s.ctxs c).sc) = List.range (bufs (s.ctxs c).sc) :=
      (List.range_eq_range' (n := bufs (s.ctxs c).sc)).symm
    unfold releaseSlots slotCount
    rw [hrange]
    refine shifted_releases (s.ctxs c).maps _ h.plain ?_ fun hpos => h.other ?_
    · rw [h.ctx]
      exact Int.ofNat_le.mpr hle
    · by_contra hunlinked
      have hzero := h.idle hunlinked
      unfold slotCount at hle
      omega
  obtain ⟨_, _, _, _, _, _, hfree⟩ := contextDrop_frame { s with
    pending := s.pending.erase c, interrupted := s.interrupted.erase c } c
  refine ⟨-(slotCount (s.ctxs c) id : Int), ?_⟩
  rw [contextFree, hfree]
  refine ⟨shifted, ?_, fun v hv i hi => ?_, fun hd => False.elim (by omega)⟩
  · have sum : held s id = slotCount (s.ctxs c) id + ((s.pending.erase c ++
        s.interrupted.erase c).map fun c => slotCount (s.ctxs c) id).sum := by
      unfold held
      rw [(perm.map _).sum_eq, List.map_cons, List.sum_cons]
    rw [sum]
    unfold held live
    push_cast
    omega
  · exact h.handles v (perm.mem_iff.mpr (List.mem_cons_of_mem c hv)) i hi

theorem internalInvoke_moved (h : Pinned s id) (places : PlacesOk s) (pid : Tid) (sc : UInt32)
    (isAsync : Bool) : Moved s (internalInvoke s pid sc isAsync) id 0 := by
  unfold internalInvoke
  split
  · rename_i c hfind
    split
    · exact moved_quiet h (Shifted.refl _ id) (List.Perm.refl _) fun _ _ => ⟨rfl, rfl⟩
    · refine moved_setCtx_quiet (c := c) h rfl rfl rfl (Shifted.refl _ id) ?_
      have hmem := List.mem_of_find?_eq_some hfind
      exact (List.perm_middle.symm.trans ((List.perm_cons_erase hmem).symm.append_left s.pending))
  · have others : ∀ c ∈ live s, c ≠ s.nextCtx := fun c hc => Nat.ne_of_lt
      (places.ctxs.known c (List.mem_append_left _ hc))
    refine shifted_zero_moved (Shifted.refl _ id) ?_ fun c hc i hi => ?_
    · unfold held live
      have new : ∀ g : CtxId → InvokeCtx, g s.nextCtx =
          ⟨pid, sc, isAsync, fun _ => none, [], none, .building⟩ →
          slotCount (g s.nextCtx) id = 0 := by
        intro g hg
        rw [hg]
        exact List.countP_eq_zero.mpr fun i _ => by simp
      simp only [File.setCtx, List.cons_append, List.map_cons, List.sum_cons]
      rw [new _ (Function.update_self ..), Nat.zero_add]
      refine congrArg List.sum (List.map_congr_left fun c hc => ?_)
      rw [Function.update_of_ne (others c hc)]
    · rcases List.mem_cons.mp hc with rfl | hc
      · simp only [File.setCtx, Function.update_self]
        exact fun he => by cases he
      · simp only [File.setCtx, Function.update_of_ne (others c hc)] at hi ⊢
        exact h.handles c hc i hi

/-- A context step reaches the map through its buffers only. -/
def Unreached (s : File) (id : MapId) : Action → Prop
  | .mapHandles c handles => ∀ i ∈ handleSlots (s.ctxs c), (handles i).fd ≠ -1 →
      Unnamed (s.maps.mem id) (handles i).fd
  | .putFdlist _ fdlist =>
      ∀ fd ∈ (fdlist.take InvokeMessage.mFdlist.toNat).takeWhile (· != 0),
        Unnamed (s.maps.mem id) fd.toUInt32.toInt32.toInt
  | _ => True

instance (s : File) (id : MapId) (c : CtxId) (handles : Nat → Handle) :
    Decidable (Unreached s id (.mapHandles c handles)) :=
  inferInstanceAs (Decidable (∀ i ∈ _, _ → _))

instance (s : File) (id : MapId) (c : CtxId) (fdlist : List UInt64) :
    Decidable (Unreached s id (.putFdlist c fdlist)) :=
  List.decidableBAll _ _

theorem ctxStep_moved {a : Action} (h : Pinned s id) (hnodup : (live s).Nodup)
    (hc : c ∈ s.pending) (unreached : Unreached s id a) (own : a.ctx = some c)
    (hstep : ctxStep k s c a = some t) : ∃ d, Moved s t id d := by
  have hlive : c ∈ live s := List.mem_append_left _ hc
  have same := Shifted.refl s.maps id
  have perm := List.Perm.refl (live s)
  cases a with
  | mapBuffer _ i req dma =>
    simp only [ctxStep] at hstep
    split_ifs at hstep with hcond
    obtain rfl := Option.some.inj hstep
    exact mapBuffer_moved h hnodup hlive hcond.2.1 hcond.2.2 req dma
  | mapHandles _ handles =>
    obtain rfl := Option.some.inj own
    simp only [ctxStep] at hstep
    split_ifs at hstep
    obtain rfl := Option.some.inj hstep
    exact ⟨0, mapHandles_moved h hnodup hlive unreached⟩
  | stageBuffer _ size ok =>
    simp only [ctxStep] at hstep
    split_ifs at hstep
    obtain rfl := Option.some.inj hstep
    unfold stageBuffer
    split
    · rename_i b t halloc
      rcases bufAlloc_some halloc with ⟨-, -, rfl⟩ | ⟨-, rfl⟩
      · exact ⟨0, moved_setCtx_quiet h rfl rfl rfl same perm⟩
      · exact ⟨0, moved_setCtx_quiet h rfl rfl rfl same perm⟩
    · exact ⟨0, moved_setCtx_quiet h rfl rfl rfl same perm⟩
  | allocMsg _ tx =>
    simp only [ctxStep] at hstep
    split_ifs at hstep
    obtain rfl := Option.some.inj hstep
    unfold allocCtxMsg
    split
    · rename_i m t halloc
      obtain ⟨i, -, -, rfl⟩ := virtAllocMsg_some halloc
      exact ⟨0, moved_setCtx_quiet h rfl rfl rfl same perm⟩
    · exact ⟨0, moved_setCtx_quiet h rfl rfl rfl same perm⟩
  | send _ ok =>
    simp only [ctxStep] at hstep
    split at hstep
    · obtain rfl := Option.some.inj hstep
      exact ⟨0, moved_setCtx_quiet h rfl rfl rfl same perm⟩
    · cases hstep
  | interrupt _ =>
    simp only [ctxStep] at hstep
    split_ifs at hstep
    obtain rfl := Option.some.inj hstep
    refine ⟨0, moved_quiet h same ?_ fun _ _ => ⟨rfl, rfl⟩⟩
    exact List.perm_middle.trans ((List.perm_cons_erase hc).symm.append_right s.interrupted)
  | wake _ =>
    simp only [ctxStep] at hstep
    split_ifs at hstep
    obtain rfl := Option.some.inj hstep
    exact ⟨0, moved_setCtx_quiet h rfl rfl rfl same perm⟩
  | takeAsync _ =>
    simp only [ctxStep] at hstep
    split_ifs at hstep
    obtain rfl := Option.some.inj hstep
    exact ⟨0, moved_setCtx_quiet h rfl rfl rfl same perm⟩
  | putBuffer _ i =>
    simp only [ctxStep] at hstep
    split_ifs at hstep with hcond
    obtain rfl := Option.some.inj hstep
    exact putBuffer_moved h hnodup hlive hcond.2.2
  | putFdlist _ fdlist =>
    simp only [ctxStep] at hstep
    split_ifs at hstep
    obtain rfl := Option.some.inj hstep
    exact ⟨0, moved_quiet h (shifted_fdlist _ unreached) perm fun _ _ => ⟨rfl, rfl⟩⟩
  | contextFree _ =>
    simp only [ctxStep] at hstep
    split_ifs at hstep
    obtain rfl := Option.some.inj hstep
    exact contextFree_moved h hnodup hc
  | _ => cases hstep

end files

end ContextShares
