import PlatformKernel.FileMoves

/-!
# The lists of a file

Contexts, internal buffers and interrupted commands are each in one place: on one
list, with one context, or freed. A slot of the message table that belongs to the
file belongs to a message that some context, command or call still refers to; the
only way to lose one is a failure of `save_interrupted_cmds`.
-/

namespace FileLists

open FileMaps FileOperations FileMoves
open MessageTransport (freeSlot freeSlot_none)

/-- Identifiers that were given out, each once. -/
structure Distinct (ids : List Nat) (next : Nat) : Prop where
  nodup : ids.Nodup
  known : ∀ x ∈ ids, x < next

theorem Distinct.perm {ids ids' : List Nat} {next : Nat} (h : Distinct ids next)
    (p : ids'.Perm ids) : Distinct ids' next :=
  ⟨p.nodup_iff.mpr h.nodup, fun x hx => h.known x (p.mem_iff.mp hx)⟩

theorem Distinct.fresh {ids : List Nat} {next : Nat} (h : Distinct ids next) :
    Distinct (next :: ids) (next + 1) where
  nodup := List.nodup_cons.mpr ⟨fun hx => Nat.lt_irrefl _ (h.known next hx), h.nodup⟩
  known := fun x hx => by
    rcases List.mem_cons.mp hx with rfl | hx
    · exact Nat.lt_succ_self x
    · exact Nat.lt_succ_of_lt (h.known x hx)

def allCtxs (s : File) : List CtxId :=
  s.pending ++ s.interrupted ++ s.freedCtxs

/-- The internal buffers of contexts that are not freed. -/
def descs (s : File) : List BufId :=
  (s.pending ++ s.interrupted).flatMap fun c => (s.ctxs c).desc

def allBufs (s : File) : List BufId :=
  s.cached ++ s.freedBufs ++ s.remoteBufs ++ descs s

theorem mem_allBufs {s : File} {b : BufId} : b ∈ allBufs s ↔
    b ∈ s.cached ∨ b ∈ s.freedBufs ∨ b ∈ s.remoteBufs ∨ b ∈ descs s := by
  simp [allBufs]

def allCmds (s : File) : List CmdId :=
  s.cmds.map Cmd.id ++ s.freedCmds

/-- `buf->remote` says whether a buffer is on `remote_bufs`. -/
def Marked (s : File) : Prop :=
  (∀ b ∈ s.remoteBufs, (s.bufs b).remote = true) ∧
    (∀ b ∈ s.cached ++ descs s, (s.bufs b).remote = false) ∧
    ∀ b, s.op = some (.munmapPages b) → b ∈ s.remoteBufs

/-- Someone will free the message. -/
def Owns (s : File) (m : MsgId) : Prop :=
  (∃ c ∈ s.pending ++ s.interrupted, (s.ctxs c).msg = some m) ∨ m ∈ s.commands ∨
    (∃ cmd ∈ s.cmds, cmd.msg = m) ∨ ∃ tid, s.op = some (.notified tid m)

def SlotsOk (s : File) : Prop :=
  ∀ i m, s.table i = some (.ours m) → s.msgid m = i ∧ m < s.nextMsg ∧ Owns s m

structure ListsOk (s : File) : Prop where
  ctxs : Distinct (allCtxs s) s.nextCtx
  bufs : Distinct (allBufs s) s.nextBuf
  marked : Marked s
  cmds : Distinct (allCmds s) s.nextCmd
  slots : SlotsOk s

/-- The part that holds in every run: contexts and buffers are each in one place. -/
structure PlacesOk (s : File) : Prop where
  ctxs : Distinct (allCtxs s) s.nextCtx
  bufs : Distinct (allBufs s) s.nextBuf
  marked : Marked s

theorem ListsOk.places {s : File} (h : ListsOk s) : PlacesOk s := ⟨h.ctxs, h.bufs, h.marked⟩

theorem PlacesOk.lists {s : File} (h : PlacesOk s) (cmds : Distinct (allCmds s) s.nextCmd)
    (slots : SlotsOk s) : ListsOk s :=
  ⟨h.ctxs, h.bufs, h.marked, cmds, slots⟩

theorem opened_listsOk : ListsOk File.opened where
  ctxs := ⟨List.nodup_nil, fun x hx => by cases hx⟩
  bufs := ⟨List.nodup_nil, fun x hx => by cases hx⟩
  marked := ⟨(fun b hb => by cases hb), (fun b hb => by cases hb), fun b hb => by cases hb⟩
  cmds := ⟨List.nodup_nil, fun x hx => by cases hx⟩
  slots := fun i m h => by cases h

section messages

variable {s t : File} {m : MsgId}

theorem slotsOk_owners (h : SlotsOk s) (htable : t.table = s.table) (hmsgid : t.msgid = s.msgid)
    (hnext : t.nextMsg = s.nextMsg) (owns : ∀ m, Owns s m → Owns t m) : SlotsOk t := by
  intro i m hi
  rw [htable] at hi
  rw [hmsgid, hnext]
  obtain ⟨hmsg, hlt, howns⟩ := h i m hi
  exact ⟨hmsg, hlt, owns m howns⟩

theorem slotsOk_alloc {i : Nat} (h : SlotsOk s)
    (htable : t.table = Function.update s.table i (some (.ours s.nextMsg)))
    (hmsgid : t.msgid = Function.update s.msgid s.nextMsg i)
    (hnext : t.nextMsg = s.nextMsg + 1) (owns : ∀ m, Owns s m → Owns t m)
    (new : Owns t s.nextMsg) : SlotsOk t := by
  intro j m hj
  rw [htable, Function.update_apply] at hj
  rw [hmsgid, hnext]
  split_ifs at hj with hji
  · injection hj with hj
    injection hj with hj
    subst hj
    exact ⟨by rw [Function.update_self, hji], Nat.lt_succ_self _, new⟩
  · obtain ⟨hmsg, hlt, howns⟩ := h j m hj
    exact ⟨by rw [Function.update_of_ne (Nat.ne_of_lt hlt), hmsg], Nat.lt_succ_of_lt hlt,
      owns m howns⟩

/-- `virt_free_msg` clears the one slot of the message. -/
theorem virtFreeMsg_slots (h : SlotsOk s) {i : Nat} {m' : MsgId}
    (hi : (virtFreeMsg s m).table i = some (.ours m')) :
    s.table i = some (.ours m') ∧ m' ≠ m := by
  unfold virtFreeMsg at hi
  split_ifs at hi with hslot
  · simp only [Function.update_apply] at hi
    split_ifs at hi with him
    refine ⟨hi, ?_⟩
    rintro rfl
    exact him (h i m' hi).1.symm
  · refine ⟨hi, ?_⟩
    rintro rfl
    rw [(h i m' hi).1] at hslot
    exact hslot hi

theorem slotsOk_free (h : SlotsOk s) (htable : t.table = (virtFreeMsg s m).table)
    (hmsgid : t.msgid = s.msgid) (hnext : t.nextMsg = s.nextMsg)
    (owns : ∀ m', m' ≠ m → Owns s m' → Owns t m') : SlotsOk t := by
  intro i m' hi
  rw [htable] at hi
  obtain ⟨hslot, hne⟩ := virtFreeMsg_slots h hi
  rw [hmsgid, hnext]
  obtain ⟨hmsg, hlt, howns⟩ := h i m' hslot
  exact ⟨hmsg, hlt, owns m' hne howns⟩

end messages

section buffers

variable {s : File} {b : BufId}

/-- A buffer of a context goes to the cache or is freed. -/
theorem bufFree_local (hlocal : (s.bufs b).remote = false) (cache : Bool) :
    ∃ cached numCached freedBufs, bufFree s b cache = { s with
        cached := cached, numCached := numCached, freedBufs := freedBufs } ∧
      (cached ++ freedBufs).Perm (b :: (s.cached ++ s.freedBufs)) ∧
      ∀ x ∈ cached, x = b ∨ x ∈ s.cached := by
  have dropped : bufDrop s b = { s with freedBufs := b :: s.freedBufs } := by
    simp [bufDrop, hlocal]
  unfold bufFree
  split_ifs
  · exact ⟨s.cached, s.numCached, _, dropped, List.perm_middle, fun x hx => Or.inr hx⟩
  · exact ⟨_, _, s.freedBufs, rfl, List.Perm.refl _, fun x hx => List.mem_cons.mp hx⟩
  · exact ⟨s.cached, s.numCached, _, dropped, List.perm_middle, fun x hx => Or.inr hx⟩

theorem bufFrees_local (bs : List BufId) (hlocal : ∀ b ∈ bs, (s.bufs b).remote = false) :
    ∃ cached numCached freedBufs, bs.foldl (fun s b => bufFree s b true) s = { s with
        cached := cached, numCached := numCached, freedBufs := freedBufs } ∧
      (cached ++ freedBufs).Perm (bs ++ (s.cached ++ s.freedBufs)) ∧
      ∀ x ∈ cached, x ∈ bs ∨ x ∈ s.cached := by
  induction bs generalizing s with
  | nil => exact ⟨s.cached, s.numCached, s.freedBufs, rfl, List.Perm.refl _, fun x => Or.inr⟩
  | cons b rest ih =>
    obtain ⟨cached, num, freed, hfree, perm, sub⟩ :=
      bufFree_local (hlocal b List.mem_cons_self) true
    obtain ⟨cached', num', freed', hrest, perm', sub'⟩ := ih
      (s := { s with cached := cached, numCached := num, freedBufs := freed })
      fun x hx => hlocal x (List.mem_cons_of_mem _ hx)
    refine ⟨cached', num', freed', ?_, ?_, fun x hx => ?_⟩
    · rw [List.foldl_cons, hfree, hrest]
    · exact (perm'.trans (perm.append_left rest)).trans List.perm_middle
    · rcases sub' x hx with hrest | hcached
      · exact Or.inl (List.mem_cons_of_mem _ hrest)
      · exact (sub x hcached).imp_left fun he : x = b => he ▸ List.mem_cons_self

end buffers

theorem virtFreeMsg_table (s : File) (m : MsgId) :
    (virtFreeMsg s m).table = if s.table (s.msgid m) = some (.ours m) then
      Function.update s.table (s.msgid m) none else s.table := by
  unfold virtFreeMsg
  split_ifs <;> rfl

section contexts

variable {s : File} {c : CtxId}

theorem contextDrop_local (hlocal : ∀ b ∈ (s.ctxs c).desc, (s.bufs b).remote = false) :
    ∃ cached numCached freedBufs, contextDrop s c = { s with
        maps := releaseSlots (s.ctxs c).maps 0 (InvokeMessage.bufs (s.ctxs c).sc) s.maps
        table := (freeMsg s (s.ctxs c).msg).table
        freedCtxs := c :: s.freedCtxs
        cached := cached, numCached := numCached, freedBufs := freedBufs } ∧
      (cached ++ freedBufs).Perm ((s.ctxs c).desc ++ (s.cached ++ s.freedBufs)) ∧
      ∀ x ∈ cached, x ∈ (s.ctxs c).desc ∨ x ∈ s.cached := by
  generalize hmaps : releaseSlots (s.ctxs c).maps 0 (InvokeMessage.bufs (s.ctxs c).sc) s.maps = maps
  have hmsg : freeMsg { s with maps := maps } (s.ctxs c).msg =
      { s with maps := maps, table := (freeMsg s (s.ctxs c).msg).table } := by
    cases (s.ctxs c).msg with
    | none => rfl
    | some m =>
      simp only [freeMsg, virtFreeMsg]
      split_ifs <;> rfl
  obtain ⟨cached, num, freed, hfold, perm, sub⟩ := bufFrees_local
    (s := { s with maps := maps, table := (freeMsg s (s.ctxs c).msg).table }) (s.ctxs c).desc hlocal
  refine ⟨cached, num, freed, ?_, perm, sub⟩
  simp only [contextDrop, hmaps, hmsg, hfold]

theorem descs_perm {p i : List CtxId} (perm : (s.pending ++ s.interrupted).Perm (c :: (p ++ i))) :
    (descs s).Perm ((s.ctxs c).desc ++ (p ++ i).flatMap fun c => (s.ctxs c).desc) :=
  perm.flatMap_right _

theorem local_descs {p i : List CtxId} (h : PlacesOk s)
    (perm : (s.pending ++ s.interrupted).Perm (c :: (p ++ i))) :
    ∀ b ∈ (s.ctxs c).desc, (s.bufs b).remote = false := fun b hb =>
  h.marked.2.1 b (List.mem_append_right _
    ((descs_perm perm).mem_iff.mpr (List.mem_append_left _ hb)))

/-- A context that is off its list and freed. -/
theorem contextDrop_places {p i : List CtxId} (h : PlacesOk s)
    (perm : (s.pending ++ s.interrupted).Perm (c :: (p ++ i))) :
    PlacesOk (contextDrop { s with pending := p, interrupted := i } c) ∧
      (allCtxs (contextDrop { s with pending := p, interrupted := i } c)).Perm (allCtxs s) ∧
      (allBufs (contextDrop { s with pending := p, interrupted := i } c)).Perm (allBufs s) := by
  have hdescs := descs_perm perm
  have hlocal := local_descs h perm
  obtain ⟨cached, num, freed, hdrop, hperm, hsub⟩ := contextDrop_local
    (s := { s with pending := p, interrupted := i }) (c := c) hlocal
  rw [hdrop]
  have hctxs : (p ++ i ++ c :: s.freedCtxs).Perm (allCtxs s) :=
    List.perm_middle.trans (perm.symm.append_right s.freedCtxs)
  have hbufs : (cached ++ freed ++ s.remoteBufs ++
      (p ++ i).flatMap fun c => (s.ctxs c).desc).Perm (allBufs s) := by
    refine List.perm_iff_count.mpr fun x => ?_
    have h1 := hperm.count_eq x
    have h2 := hdescs.count_eq x
    simp only [allBufs, List.count_append] at h1 h2 ⊢
    omega
  refine ⟨⟨h.ctxs.perm hctxs, h.bufs.perm hbufs, h.marked.1, fun b hb => ?_, h.marked.2.2⟩,
    hctxs, hbufs⟩
  rcases List.mem_append.mp hb with hc | hd
  · rcases hsub b hc with hdesc | hcached
    · exact hlocal b hdesc
    · exact h.marked.2.1 b (List.mem_append_left _ hcached)
  · exact h.marked.2.1 b (List.mem_append_right _
      (hdescs.mem_iff.mpr (List.mem_append_right _ hd)))

/-- The message of the context is freed with it. -/
theorem contextDrop_slots {p i : List CtxId} (h : SlotsOk s) (places : PlacesOk s)
    (perm : (s.pending ++ s.interrupted).Perm (c :: (p ++ i))) :
    SlotsOk (contextDrop { s with pending := p, interrupted := i } c) := by
  have hlocal := local_descs places perm
  obtain ⟨cached, num, freed, hdrop, -, -⟩ := contextDrop_local
    (s := { s with pending := p, interrupted := i }) (c := c) hlocal
  rw [hdrop]
  have owns : ∀ m, (s.ctxs c).msg ≠ some m → Owns s m → Owns { s with
      pending := p, interrupted := i } m := by
    intro m hne howns
    rcases howns with ⟨v, hv, hm⟩ | rest
    · refine Or.inl ⟨v, ?_, hm⟩
      rcases List.mem_cons.mp (perm.mem_iff.mp hv) with rfl | hv
      · exact False.elim (hne hm)
      · exact hv
    · exact Or.inr rest
  cases hmsg : (s.ctxs c).msg with
  | none => exact slotsOk_owners h rfl rfl rfl fun m hm => owns m (by simp [hmsg]) hm
  | some m =>
    refine slotsOk_free (m := m) h ?_ rfl rfl fun m' hne hm' => owns m' ?_ hm'
    · simp only [freeMsg, virtFreeMsg_table]
    · rw [hmsg]
      exact fun he => hne (Option.some.inj he).symm

theorem contextFree_perm (h : PlacesOk s) (pending : c ∈ s.pending) :
    (s.pending ++ s.interrupted).Perm (c :: (s.pending.erase c ++ s.interrupted.erase c)) := by
  have hnodup : (s.pending ++ s.interrupted).Nodup := (List.nodup_append.mp h.ctxs.nodup).1
  have hnot : c ∉ s.interrupted := fun hi =>
    (List.nodup_append.mp hnodup).2.2 c pending c hi rfl
  rw [List.erase_of_not_mem hnot]
  exact (List.perm_cons_erase pending).append_right s.interrupted

theorem placesOk_moved {p i : List CtxId} (h : PlacesOk s)
    (perm : (p ++ i).Perm (s.pending ++ s.interrupted)) :
    PlacesOk { s with pending := p, interrupted := i } where
  ctxs := h.ctxs.perm (perm.append_right s.freedCtxs)
  bufs := h.bufs.perm ((perm.flatMap_right _).append_left _)
  marked := ⟨h.marked.1, fun b hb => h.marked.2.1 b
    (((perm.flatMap_right _).append_left s.cached).mem_iff.mp hb), h.marked.2.2⟩

theorem slotsOk_moved {p i : List CtxId} (h : SlotsOk s)
    (perm : (p ++ i).Perm (s.pending ++ s.interrupted)) :
    SlotsOk { s with pending := p, interrupted := i } :=
  slotsOk_owners h rfl rfl rfl fun _ hm =>
    hm.imp_left fun ⟨v, hv, hmsg⟩ => ⟨v, perm.mem_iff.mpr hv, hmsg⟩

theorem descs_setCtx (ctx : InvokeCtx) (desc : ctx.desc = (s.ctxs c).desc) :
    descs (s.setCtx c ctx) = descs s := by
  refine List.flatMap_congr fun v _ => ?_
  by_cases hv : v = c
  · simp [File.setCtx, hv, desc]
  · simp [File.setCtx, hv]

theorem placesOk_setCtx {ctx : InvokeCtx} (h : PlacesOk s) (desc : ctx.desc = (s.ctxs c).desc) :
    PlacesOk (s.setCtx c ctx) := by
  have hdescs := descs_setCtx ctx desc
  refine ⟨h.ctxs, ?_, h.marked.1, fun b hb => ?_, h.marked.2.2⟩
  · unfold allBufs
    rw [hdescs]
    exact h.bufs
  · rw [hdescs] at hb
    exact h.marked.2.1 b hb

theorem slotsOk_setCtx {ctx : InvokeCtx} (h : SlotsOk s) (msg : ctx.msg = (s.ctxs c).msg) :
    SlotsOk (s.setCtx c ctx) := by
  refine slotsOk_owners h rfl rfl rfl fun m hm => hm.imp_left ?_
  rintro ⟨v, hv, hm⟩
  refine ⟨v, hv, ?_⟩
  by_cases hvc : v = c
  · subst hvc
    simpa [File.setCtx, msg] using hm
  · simpa [File.setCtx, hvc] using hm

theorem begins_older (h : PlacesOk s) (ctx : InvokeCtx) : ∀ v ∈ s.pending ++ s.interrupted,
    (Function.update s.ctxs s.nextCtx ctx v) = s.ctxs v := fun v hv =>
  Function.update_of_ne (Nat.ne_of_lt (h.ctxs.known v (List.mem_append_left _ hv))) _ _

/-- A context that is not on a list yet. -/
theorem descs_begins {ctx : InvokeCtx} (h : PlacesOk s) (desc : ctx.desc = []) :
    (s.nextCtx :: s.pending ++ s.interrupted).flatMap
      (fun v => (Function.update s.ctxs s.nextCtx ctx v).desc) = descs s := by
  rw [List.cons_append, List.flatMap_cons, Function.update_self, desc, List.nil_append]
  exact List.flatMap_congr fun v hv => by rw [begins_older h ctx v hv]

theorem placesOk_begins {ctx : InvokeCtx} (h : PlacesOk s) (desc : ctx.desc = []) :
    PlacesOk { s.setCtx s.nextCtx ctx with
      pending := s.nextCtx :: s.pending
      nextCtx := s.nextCtx + 1 } := by
  have hdescs := descs_begins h desc
  refine ⟨h.ctxs.fresh, ?_, h.marked.1, fun b hb => ?_, h.marked.2.2⟩
  · unfold allBufs descs
    dsimp only [File.setCtx]
    rw [hdescs]
    exact h.bufs
  · unfold descs at hb
    dsimp only [File.setCtx] at hb
    rw [hdescs] at hb
    exact h.marked.2.1 b hb

theorem slotsOk_begins (h : SlotsOk s) (places : PlacesOk s) (ctx : InvokeCtx) :
    SlotsOk { s.setCtx s.nextCtx ctx with
      pending := s.nextCtx :: s.pending
      nextCtx := s.nextCtx + 1 } := by
  refine slotsOk_owners h rfl rfl rfl fun m hm => hm.imp_left ?_
  rintro ⟨v, hv, hm⟩
  refine ⟨v, List.mem_cons_of_mem _ hv, ?_⟩
  dsimp only [File.setCtx]
  rw [begins_older places ctx v hv]
  exact hm

theorem descs_staged (h : PlacesOk s) (pending : c ∈ s.pending) (b : BufId) :
    ((s.pending ++ s.interrupted).flatMap fun v => (Function.update s.ctxs c
      { s.ctxs c with desc := (s.ctxs c).desc ++ [b] } v).desc).Perm (b :: descs s) := by
  have hnodup : (s.pending ++ s.interrupted).Nodup := (List.nodup_append.mp h.ctxs.nodup).1
  have perm := List.perm_cons_erase (List.mem_append_left s.interrupted pending)
  have others : ((s.pending ++ s.interrupted).erase c).flatMap (fun v => (Function.update s.ctxs c
      { s.ctxs c with desc := (s.ctxs c).desc ++ [b] } v).desc) =
      ((s.pending ++ s.interrupted).erase c).flatMap fun v => (s.ctxs v).desc :=
    List.flatMap_congr fun v hv => by
      rw [Function.update_of_ne (hnodup.mem_erase_iff.mp hv).1]
  have before : (descs s).Perm _ := perm.flatMap_right fun v => (s.ctxs v).desc
  refine (perm.flatMap_right _).trans (List.perm_iff_count.mpr fun x => ?_)
  have hcount := before.count_eq x
  simp only [List.flatMap_cons, Function.update_self, others, List.count_append,
    List.count_cons, List.count_nil] at hcount ⊢
  omega

/-- A context gets a buffer that is nowhere else. -/
theorem placesOk_staged {bufs : BufId → VfastrpcBuf} {cached : List BufId} {nextBuf b : BufId}
    (h : PlacesOk s) (numCached : Int) (pending : c ∈ s.pending)
    (distinct : Distinct (b :: (cached ++ s.freedBufs ++ s.remoteBufs ++ descs s)) nextBuf)
    (sub : ∀ x ∈ cached, x ∈ s.cached)
    (same : ∀ x ∈ allBufs s, (bufs x).remote = (s.bufs x).remote)
    (hlocal : (bufs b).remote = false) :
    PlacesOk (File.setCtx { s with
        bufs := bufs, cached := cached, numCached := numCached, nextBuf := nextBuf } c
      { s.ctxs c with desc := (s.ctxs c).desc ++ [b] }) := by
  have hdescs := descs_staged h pending b
  refine ⟨h.ctxs, distinct.perm ?_, fun x hx => ?_, fun x hx => ?_, h.marked.2.2⟩
  · exact (hdescs.append_left _).trans List.perm_middle
  · exact (same x (mem_allBufs.mpr (Or.inr (Or.inr (Or.inl hx))))).trans (h.marked.1 x hx)
  · have hold : x ∈ s.cached ++ descs s → (bufs x).remote = false := fun hx => by
      refine (same x ?_).trans (h.marked.2.1 x hx)
      rcases List.mem_append.mp hx with hc | hd
      · exact mem_allBufs.mpr (Or.inl hc)
      · exact mem_allBufs.mpr (Or.inr (Or.inr (Or.inr hd)))
    rcases List.mem_append.mp hx with hc | hd
    · exact hold (List.mem_append_left _ (sub x hc))
    · rcases List.mem_cons.mp (hdescs.mem_iff.mp hd) with rfl | hd
      · exact hlocal
      · exact hold (List.mem_append_right _ hd)

end contexts

section steps

variable {s t : File}

theorem staged_placesOk {c : CtxId} {b : BufId} {size : UInt64} {ok : Bool} (h : PlacesOk s)
    (pending : c ∈ s.pending) (alloc : bufAlloc s size 0 false ok = some (b, t)) :
    PlacesOk (t.setCtx c { t.ctxs c with desc := (t.ctxs c).desc ++ [b] }) := by
  rcases bufAlloc_some alloc with ⟨-, hb, rfl⟩ | ⟨rfl, rfl⟩
  · refine placesOk_staged h _ pending (h.bufs.perm ?_) (fun _ hx => List.mem_of_mem_erase hx)
      (fun _ _ => rfl) (h.marked.2.1 b (List.mem_append_left _ hb))
    refine List.perm_iff_count.mpr fun x => ?_
    have hcount := (List.perm_cons_erase hb).count_eq x
    simp only [allBufs, List.count_append, List.count_cons] at hcount ⊢
    omega
  · refine placesOk_staged h s.numCached pending h.bufs.fresh (fun _ hx => hx)
      (fun x hx => ?_) ?_
    · rw [Function.update_of_ne (Nat.ne_of_lt (h.bufs.known x hx))]
    · rw [Function.update_self]

theorem pages_placesOk {b : BufId} {size : UInt64} {flags : UInt32} {ok : Bool} (h : PlacesOk s)
    (alloc : bufAlloc s size flags true ok = some (b, t)) :
    PlacesOk { t with op := some (.mmapPages b) } := by
  rcases bufAlloc_some alloc with ⟨hfalse, -⟩ | ⟨rfl, rfl⟩
  · cases hfalse
  have older : ∀ x ∈ allBufs s, Function.update s.bufs s.nextBuf ⟨size, flags, 0, true⟩ x =
      s.bufs x := fun x hx => Function.update_of_ne (Nat.ne_of_lt (h.bufs.known x hx)) _ _
  refine ⟨h.ctxs, h.bufs.fresh.perm ?_, fun x hx => ?_, fun x hx => ?_, fun x hx => by cases hx⟩
  · exact List.perm_middle.append_right (descs s)
  · rcases List.mem_cons.mp hx with rfl | hx
    · simp [bufNew]
    · exact (congrArg VfastrpcBuf.remote (older x (mem_allBufs.mpr
        (Or.inr (Or.inr (Or.inl hx)))))).trans (h.marked.1 x hx)
  · refine (congrArg VfastrpcBuf.remote (older x (mem_allBufs.mpr ?_))).trans
      (h.marked.2.1 x hx)
    rcases List.mem_append.mp hx with hc | hd
    · exact Or.inl hc
    · exact Or.inr (Or.inr (Or.inr hd))

theorem bufFree_remote {b : BufId} (h : PlacesOk s) (hb : b ∈ s.remoteBufs) :
    bufFree s b false = { s with
      remoteBufs := s.remoteBufs.erase b
      bufs := Function.update s.bufs b { s.bufs b with remote := false, raddr := 0 }
      freedBufs := b :: s.freedBufs } := by
  simp [bufFree, bufDrop, h.marked.1 b hb]

theorem bufFree_remote_perm {b : BufId} (h : PlacesOk s) (hb : b ∈ s.remoteBufs) :
    (allBufs (bufFree s b false)).Perm (allBufs s) := by
  rw [bufFree_remote h hb]
  refine List.perm_iff_count.mpr fun x => ?_
  have hcount := (List.perm_cons_erase hb).count_eq x
  simp only [allBufs, descs, List.count_append, List.count_cons] at hcount ⊢
  omega

/-- Pages of the DSP heap are given back. -/
theorem placesOk_freeRemote {b : BufId} (h : PlacesOk s) (hb : b ∈ s.remoteBufs) (op : Option Op)
    (pages : ∀ x, op = some (.munmapPages x) → x ∈ s.remoteBufs.erase b) :
    PlacesOk { bufFree s b false with op := op } := by
  have hbufs := h.bufs.perm (bufFree_remote_perm h hb)
  have hnodup : s.remoteBufs.Nodup := h.bufs.nodup.sublist
    ((List.sublist_append_right _ _).trans (List.sublist_append_left _ _))
  rw [bufFree_remote h hb] at hbufs ⊢
  refine ⟨h.ctxs, hbufs, fun x hx => ?_, fun x hx => ?_, pages⟩
  · obtain ⟨hne, hx⟩ := hnodup.mem_erase_iff.mp hx
    simpa [hne] using h.marked.1 x hx
  · by_cases hxb : x = b
    · simp [hxb]
    · simpa [hxb] using h.marked.2.1 x hx

theorem listsOk_freeRemote {b : BufId} (h : ListsOk s) (hb : b ∈ s.remoteBufs) (op : Option Op)
    (pages : ∀ x, op = some (.munmapPages x) → x ∈ s.remoteBufs.erase b)
    (notified : ∀ tid m, s.op = some (.notified tid m) → op = some (.notified tid m)) :
    ListsOk { bufFree s b false with op := op } := by
  have places := placesOk_freeRemote h.places hb op pages
  rw [bufFree_remote h.places hb] at places ⊢
  exact places.lists h.cmds (slotsOk_owners h.slots rfl rfl rfl fun m hm =>
    hm.imp_right (Or.imp_right (Or.imp_right fun ⟨tid, hop⟩ => ⟨tid, notified tid m hop⟩)))

theorem placesOk_op (h : PlacesOk s) (op : Option Op)
    (pages : ∀ x, op = some (.munmapPages x) → x ∈ s.remoteBufs) : PlacesOk { s with op := op } :=
  ⟨h.ctxs, h.bufs, h.marked.1, h.marked.2.1, pages⟩

theorem listsOk_maps (h : ListsOk s) (maps : Maps) : ListsOk { s with maps := maps } :=
  ⟨h.ctxs, h.bufs, h.marked, h.cmds, h.slots⟩

theorem mapsPages_placesOk {b : BufId} (h : PlacesOk s) (raddr : UInt64) :
    PlacesOk { s with
      op := none
      bufs := Function.update s.bufs b { s.bufs b with raddr := raddr } } := by
  have same : ∀ x, (Function.update s.bufs b { s.bufs b with raddr := raddr } x).remote =
      (s.bufs x).remote := fun x => by
    by_cases hx : x = b
    · simp [hx]
    · simp [hx]
  exact ⟨h.ctxs, h.bufs, fun x hx => (same x).trans (h.marked.1 x hx),
    fun x hx => (same x).trans (h.marked.2.1 x hx), fun x hx => by cases hx⟩

theorem call_idle {k : Uapi} {maps maps' : Maps} {op : Option Op}
    (moves : CallMoves k maps maps' op) (x : BufId) : op ≠ some (.munmapPages x) := by
  cases moves <;> exact fun h => by cases h

theorem step_placesOk {k : Uapi} {a : Action} (h : PlacesOk s) (hstep : step k s a = some t) :
    PlacesOk t := by
  have idle : ∀ x, (none : Option Op) = some (.munmapPages x) → x ∈ s.remoteBufs := fun x hx => by
    cases hx
  cases step_moves hstep with
  | same => exact h
  | init cid => exact ⟨h.ctxs, h.bufs, h.marked⟩
  | begins desc msg => exact placesOk_begins h desc
  | resumes stage saved =>
    rename_i c
    refine placesOk_moved (placesOk_setCtx (c := c) h rfl) ?_
    exact (List.perm_middle.symm.trans ((List.perm_cons_erase saved).symm.append_left s.pending))
  | ctx slots stage moves =>
    rename_i c maps
    have places : PlacesOk (s.setCtx c { s.ctxs c with maps := slots, stage := stage }) :=
      placesOk_setCtx h rfl
    exact ⟨places.ctxs, places.bufs, places.marked⟩
  | maps moves => exact ⟨h.ctxs, h.bufs, h.marked⟩
  | staged pending alloc => exact staged_placesOk h pending alloc
  | messaged pending bare alloc =>
    obtain ⟨i, -, rfl, rfl⟩ := virtAllocMsg_some alloc
    rename_i c _
    have places : PlacesOk (s.setCtx c { s.ctxs c with msg := some s.nextMsg }) :=
      placesOk_setCtx h rfl
    exact ⟨places.ctxs, places.bufs, places.marked⟩
  | interrupts pending =>
    refine placesOk_moved h ?_
    exact List.perm_middle.trans ((List.perm_cons_erase pending).symm.append_right s.interrupted)
  | frees pending => exact (contextDrop_places h (contextFree_perm h pending)).1
  | call busy moves =>
    have places := placesOk_op h _ fun x hx => False.elim (call_idle moves x hx)
    exact ⟨places.ctxs, places.bufs, places.marked⟩
  | removesFd busy action fresh next =>
    rename_i op
    have places := placesOk_op h op fun x hx => by rcases next with rfl | rfl <;> cases hx
    exact ⟨places.ctxs, places.bufs, places.marked⟩
  | takesCmd busy saved =>
    exact ⟨h.ctxs, h.bufs, h.marked.1, h.marked.2.1, fun x hx => by cases hx⟩
  | allocsPages busy alloc => exact pages_placesOk h alloc
  | findsPages busy remote =>
    refine placesOk_op h _ fun x hx => ?_
    injection hx with hx
    injection hx with hx
    exact hx ▸ remote
  | finish action moves => exact ⟨h.ctxs, h.bufs, h.marked.1, h.marked.2.1, idle⟩
  | mapsPages raddr op => exact mapsPages_placesOk h raddr
  | freesPages op =>
    exact placesOk_freeRemote h (h.marked.2.2 _ op) none fun x hx => by cases hx
  | gives op => exact placesOk_op h none idle
  | notifies op alloc =>
    obtain ⟨i, -, rfl, rfl⟩ := virtAllocMsg_some alloc
    exact ⟨h.ctxs, h.bufs, h.marked.1, h.marked.2.1, fun x hx => by cases hx⟩
  | saves op => exact ⟨h.ctxs, h.bufs, h.marked.1, h.marked.2.1, idle⟩
  | loses op action => exact placesOk_op h none idle
  | answers op =>
    rename_i tid m
    obtain ⟨_, hfree⟩ := virtFreeMsg_frame s m
    rw [hfree]
    exact ⟨h.ctxs, h.bufs, h.marked.1, h.marked.2.1, idle⟩
  | commands alloc =>
    obtain ⟨i, -, rfl, rfl⟩ := virtAllocMsg_some alloc
    exact ⟨h.ctxs, h.bufs, h.marked⟩
  | replies waiting =>
    rename_i m
    obtain ⟨_, hfree⟩ := virtFreeMsg_frame s m
    rw [hfree]
    exact ⟨h.ctxs, h.bufs, h.marked⟩
  | foreign ours => exact ⟨h.ctxs, h.bufs, h.marked⟩

/-- The calls that hold no message. -/
theorem slotsOk_op (h : SlotsOk s) (op : Option Op)
    (idle : ∀ tid m, s.op ≠ some (.notified tid m)) : SlotsOk { s with op := op } :=
  slotsOk_owners h rfl rfl rfl fun m hm => hm.imp_right (Or.imp_right (Or.imp_right
    fun ⟨tid, hop⟩ => False.elim (idle tid m hop)))

theorem takesCmd_slots {tid : Tid} {cmd : Cmd} (h : SlotsOk s) (idle : s.op = none) :
    SlotsOk { s with
      cmds := s.cmds.erase cmd
      freedCmds := cmd.id :: s.freedCmds
      op := some (.notified tid cmd.msg) } := by
  refine slotsOk_owners h rfl rfl rfl fun m hm => ?_
  rcases hm with hctx | hcommand | ⟨cmd', hcmd, rfl⟩ | ⟨tid', hop⟩
  · exact Or.inl hctx
  · exact Or.inr (Or.inl hcommand)
  · by_cases hsame : cmd' = cmd
    · exact Or.inr (Or.inr (Or.inr ⟨tid, by rw [hsame]⟩))
    · exact Or.inr (Or.inr (Or.inl ⟨cmd', (List.mem_erase_of_ne hsame).mpr hcmd, rfl⟩))
  · rw [idle] at hop
    cases hop

theorem saves_slots {tid : Tid} {m : MsgId} (h : SlotsOk s)
    (op : s.op = some (.notified tid m)) :
    SlotsOk { s with
      op := none
      cmds := ⟨s.nextCmd, tid, m⟩ :: s.cmds
      nextCmd := s.nextCmd + 1 } := by
  refine slotsOk_owners h rfl rfl rfl fun m' hm => ?_
  rcases hm with hctx | hcommand | ⟨cmd, hcmd, hmsg⟩ | ⟨tid', hop⟩
  · exact Or.inl hctx
  · exact Or.inr (Or.inl hcommand)
  · exact Or.inr (Or.inr (Or.inl ⟨cmd, List.mem_cons_of_mem _ hcmd, hmsg⟩))
  · rw [op] at hop
    injection hop with hop
    injection hop with _ hmsg
    exact Or.inr (Or.inr (Or.inl ⟨_, List.mem_cons_self, hmsg⟩))

theorem messaged_slots {c : CtxId} {m : MsgId} {tx : Bool} (h : SlotsOk s)
    (pending : c ∈ s.pending) (bare : (s.ctxs c).msg = none)
    (alloc : virtAllocMsg s tx = some (m, t)) :
    SlotsOk (t.setCtx c { t.ctxs c with msg := some m }) := by
  obtain ⟨i, -, rfl, rfl⟩ := virtAllocMsg_some alloc
  refine slotsOk_alloc (i := i) h rfl rfl rfl (fun m' hm => hm.imp_left ?_) (Or.inl ⟨c, ?_, ?_⟩)
  · rintro ⟨v, hv, hm⟩
    have hvc : v ≠ c := by
      rintro rfl
      rw [bare] at hm
      cases hm
    exact ⟨v, hv, by simpa [File.setCtx, hvc] using hm⟩
  · exact List.mem_append_left _ pending
  · simp [File.setCtx]

theorem notifies_slots {tid : Tid} {m : MsgId} {tx : Bool} (h : SlotsOk s)
    (op : s.op = some (.notify tid)) (alloc : virtAllocMsg s tx = some (m, t)) :
    SlotsOk { t with op := some (.notified tid m) } := by
  obtain ⟨i, -, rfl, rfl⟩ := virtAllocMsg_some alloc
  refine slotsOk_alloc (i := i) h rfl rfl rfl (fun m' hm => ?_)
    (Or.inr (Or.inr (Or.inr ⟨tid, rfl⟩)))
  refine hm.imp_right (Or.imp_right (Or.imp_right ?_))
  rintro ⟨tid', hop⟩
  rw [op] at hop
  cases hop

theorem commands_slots {m : MsgId} {tx : Bool} (h : SlotsOk s)
    (alloc : virtAllocMsg s tx = some (m, t)) :
    SlotsOk { t with commands := m :: t.commands } := by
  obtain ⟨i, -, rfl, rfl⟩ := virtAllocMsg_some alloc
  refine slotsOk_alloc (i := i) h rfl rfl rfl (fun m' hm => ?_) (Or.inr (Or.inl List.mem_cons_self))
  exact hm.imp_right (Or.imp_left (List.mem_cons_of_mem _))

theorem answers_slots {tid : Tid} {m : MsgId} (h : SlotsOk s)
    (op : s.op = some (.notified tid m)) : SlotsOk { virtFreeMsg s m with op := none } := by
  obtain ⟨table, hfree⟩ := virtFreeMsg_frame s m
  refine slotsOk_free (m := m) h rfl ?_ ?_ fun m' hne hm => ?_
  · rw [hfree]
  · rw [hfree]
  · rw [hfree]
    refine hm.imp_right (Or.imp_right (Or.imp_right ?_))
    rintro ⟨tid', hop⟩
    rw [op] at hop
    injection hop with hop
    injection hop with _ hmsg
    exact False.elim (hne hmsg.symm)

theorem replies_slots {m : MsgId} (h : SlotsOk s) :
    SlotsOk { virtFreeMsg s m with commands := s.commands.erase m } := by
  obtain ⟨table, hfree⟩ := virtFreeMsg_frame s m
  refine slotsOk_free (m := m) h rfl ?_ ?_ fun m' hne hm => ?_
  · rw [hfree]
  · rw [hfree]
  · rw [hfree]
    exact hm.imp_right (Or.imp_left (List.mem_erase_of_ne hne).mpr)

/-- No message of an interrupted `munmap_fd` is lost. -/
def CmdsSaved : Action → Prop
  | .notifyDone interrupted saved => interrupted = true → saved = true
  | _ => True

theorem finish_idle {k : Uapi} {ok : Bool} {maps : Maps} (moves : FinishMoves k s ok maps)
    (tid : Tid) (m : MsgId) : s.op ≠ some (.notified tid m) := by
  intro hop
  cases moves with
  | mapped raddr op => rcases op with op | op <;> (rw [op] at hop; cases hop)
  | unmapped op => rcases op with op | op <;> (rw [op] at hop; cases hop)
  | removed op => rcases op with op | op <;> (rw [op] at hop; cases hop)
  | putBack op failed => rw [op] at hop; cases hop
  | restored op failed => rw [op] at hop; cases hop

theorem unnotified (idle : s.op = none) (tid : Tid) (m : MsgId) :
    s.op ≠ some (.notified tid m) := fun hop => by
  rw [idle] at hop
  cases hop

theorem step_slotsOk {k : Uapi} {a : Action} (h : SlotsOk s) (places : PlacesOk s)
    (saved : CmdsSaved a) (hstep : step k s a = some t) : SlotsOk t := by
  cases step_moves hstep with
  | begins desc msg => exact slotsOk_begins h places _
  | resumes stage saved =>
    rename_i c
    refine slotsOk_moved (slotsOk_setCtx (c := c) h rfl) ?_
    exact List.perm_middle.symm.trans ((List.perm_cons_erase saved).symm.append_left s.pending)
  | ctx slots stage moves =>
    rename_i c maps
    have slots : SlotsOk (s.setCtx c { s.ctxs c with maps := slots, stage := stage }) :=
      slotsOk_setCtx h rfl
    exact slots
  | staged pending alloc =>
    rcases bufAlloc_some alloc with ⟨-, -, rfl⟩ | ⟨-, rfl⟩
    · exact slotsOk_setCtx (show SlotsOk _ from h) rfl
    · exact slotsOk_setCtx (show SlotsOk _ from h) rfl
  | messaged pending bare alloc => exact messaged_slots h pending bare alloc
  | interrupts pending =>
    refine slotsOk_moved h ?_
    exact List.perm_middle.trans ((List.perm_cons_erase pending).symm.append_right s.interrupted)
  | frees pending => exact contextDrop_slots h places (contextFree_perm places pending)
  | call idle moves => exact slotsOk_op h _ (unnotified idle)
  | removesFd idle action fresh next => exact slotsOk_op h _ (unnotified idle)
  | takesCmd idle saved => exact takesCmd_slots h idle
  | allocsPages idle alloc =>
    rcases bufAlloc_some alloc with ⟨-, -, rfl⟩ | ⟨-, rfl⟩
    · exact slotsOk_op (show SlotsOk _ from h) _ (unnotified idle)
    · exact slotsOk_op (show SlotsOk _ from h) _ (unnotified idle)
  | findsPages idle remote => exact slotsOk_op h _ (unnotified idle)
  | finish action moves => exact slotsOk_op h _ (finish_idle moves)
  | mapsPages raddr op => exact slotsOk_op h none fun tid m hop => by rw [op] at hop; cases hop
  | freesPages op =>
    have free := slotsOk_op h none fun tid m hop => by rw [op] at hop; cases hop
    obtain ⟨_, _, _, _, _, hfree⟩ := bufFree_frame s _ false
    rw [hfree]
    exact free
  | gives op => exact slotsOk_op h none op
  | notifies op alloc => exact notifies_slots h op alloc
  | saves op => exact saves_slots h op
  | loses op action =>
    subst action
    cases saved rfl
  | answers op => exact answers_slots h op
  | commands alloc => exact commands_slots h alloc
  | replies waiting => exact replies_slots h
  | foreign ours => exact fun i m hi => h i m (ours i m hi)
  | _ => exact h

theorem step_cmds {k : Uapi} {a : Action} (h : Distinct (allCmds s) s.nextCmd)
    (hstep : step k s a = some t) : Distinct (allCmds t) t.nextCmd := by
  cases step_moves hstep with
  | takesCmd idle saved =>
    have perm := (List.perm_cons_erase saved).map Cmd.id
    exact h.perm (List.perm_middle.trans (perm.symm.append_right s.freedCmds))
  | saves op => exact h.fresh
  | staged pending alloc | allocsPages idle alloc =>
    rcases bufAlloc_some alloc with ⟨-, -, rfl⟩ | ⟨-, rfl⟩
    · exact h
    · exact h
  | messaged pending bare alloc | notifies op alloc | commands alloc =>
    obtain ⟨i, -, -, rfl⟩ := virtAllocMsg_some alloc
    exact h
  | frees pending =>
    rename_i c
    obtain ⟨_, _, _, _, _, _, hfree⟩ := contextDrop_frame { s with
      pending := s.pending.erase c, interrupted := s.interrupted.erase c } c
    rw [contextFree, hfree]
    exact h
  | freesPages op =>
    obtain ⟨_, _, _, _, _, hfree⟩ := bufFree_frame s _ false
    rw [hfree]
    exact h
  | answers op | replies waiting =>
    obtain ⟨_, hfree⟩ := virtFreeMsg_frame s _
    rw [hfree]
    exact h
  | _ => exact h

theorem step_listsOk {k : Uapi} {a : Action} (h : ListsOk s) (saved : CmdsSaved a)
    (hstep : step k s a = some t) : ListsOk t :=
  (step_placesOk h.places hstep).lists (step_cmds h.cmds hstep)
    (step_slotsOk h.slots h.places saved hstep)

end steps

end FileLists
