import PlatformKernel.DrainLoops
import PlatformKernel.FileLists
import PlatformKernel.MapReferences

/-!
# Releasing a file

`vfastrpc_file_free` drains one list after another. The context lists go first, since
freeing a context puts its buffers into the cache and releases maps. The loop over
the maps relies on `vfastrpc_mmap_free` to unlink the map it is given, which it refuses
to do for a map that counts nothing.
-/

namespace FileRelease

open GuardedRuns DrainLoops FileMaps FileOperations FileMoves FileLists MapReferences

/-- `virt_fastrpc_close` takes and frees a message of its own. -/
def virtFastrpcClose (s : File) (tx : Bool) : File :=
  if s.cid < 0 then s
  else
    match virtAllocMsg s tx with
    | some (m, s) => virtFreeMsg s m
    | none => s

/-- One round of the first loop of `vfastrpc_context_list_dtor`. -/
def nextInterrupted (s : File) : Option File :=
  match s.interrupted with
  | [] => none
  | c :: rest => some (contextFree { s with interrupted := rest } c)

/-- One round of its second loop. -/
def nextPending (s : File) : Option File :=
  match s.pending with
  | [] => none
  | c :: rest => some (contextFree { s with pending := rest } c)

/-- One round of `vfastrpc_cached_buf_list_free`. -/
def nextCached (s : File) : Option File :=
  match s.cached with
  | [] => none
  | b :: rest => some (bufFree { s with cached := rest, numCached := s.numCached - 1 } b false)

/-- One round of `vfastrpc_remote_buf_list_free`, which leaves the unlinking to
`vfastrpc_buf_free`. -/
def nextRemote (s : File) : Option File :=
  match s.remoteBufs with
  | [] => none
  | b :: _ => some (bufFree s b false)

/-- One round of `vfastrpc_interrupted_cmd_list_free`. -/
def nextCmd (s : File) : Option File :=
  match s.cmds with
  | [] => none
  | cmd :: rest =>
    some { virtFreeMsg { s with cmds := rest } cmd.msg with freedCmds := cmd.id :: s.freedCmds }

/-- One round of the loop over the maps. -/
def nextMap (s : File) : Option File :=
  match s.maps.linked with
  | [] => none
  | id :: _ => some { s with maps := mmapFree s.maps (some id) true }

/-- `vfastrpc_file_free`; each loop may take `fuel` rounds. -/
def fileFree (fuel : Nat) (s : File) (tx : Bool) : Option File :=
  (drain nextInterrupted fuel (if s.dspProcInit then virtFastrpcClose s tx else s)).bind fun s =>
  (drain nextPending fuel s).bind fun s =>
  (drain nextCached fuel s).bind fun s =>
  (drain nextRemote fuel s).bind fun s =>
  (drain nextCmd fuel s).bind fun s =>
  drain nextMap fuel s

/-- No ioctl is running on the file; `release` comes after the last of them. -/
structure Quiescent (s : File) : Prop where
  op : s.op = none
  commands : s.commands = []
  ctxs : ∀ c ∈ s.pending, (s.ctxs c).stage = .queued

structure Sound (s : File) : Prop where
  lists : ListsOk s
  maps : MapsOk s.maps
  op : s.op = none
  commands : s.commands = []

/-- Nothing gets lost on the way from `s` to `t`. -/
structure Carried (s t : File) : Prop where
  ctxs : (allCtxs t).Perm (allCtxs s)
  bufs : (allBufs t).Perm (allBufs s)
  cmds : (allCmds t).Perm (allCmds s)
  maps : ∀ id ∈ s.maps.linked ++ s.maps.freed, id ∈ t.maps.linked ++ t.maps.freed

theorem Carried.refl (s : File) : Carried s s :=
  ⟨List.Perm.refl _, List.Perm.refl _, List.Perm.refl _, fun _ h => h⟩

theorem Carried.trans {s t u : File} (h : Carried s t) (h' : Carried t u) : Carried s u :=
  ⟨h'.ctxs.trans h.ctxs, h'.bufs.trans h.bufs, h'.cmds.trans h.cmds,
    fun id hid => h'.maps id (h.maps id hid)⟩

/-- A map that is freed is not lost. -/
theorem mem_unlinked {linked freed : List MapId} {id : MapId} (hid : id ∈ linked ++ freed)
    (v : MapId) : id ∈ linked.erase v ++ v :: freed := by
  by_cases hv : id = v
  · exact List.mem_append_right _ (hv ▸ List.mem_cons_self)
  rcases List.mem_append.mp hid with hl | hf
  · exact List.mem_append_left _ ((List.mem_erase_of_ne hv).mpr hl)
  · exact List.mem_append_right _ (List.mem_cons_of_mem _ hf)

theorem release_carries (maps : Maps) (slot : Option MapId) :
    ∀ id ∈ maps.linked ++ maps.freed,
      id ∈ (ctxRelease maps slot).linked ++ (ctxRelease maps slot).freed := by
  intro id hid
  cases slot with
  | none => exact hid
  | some v =>
    have outcome := ctxRelease_releasing maps v
    generalize ctxRelease maps (some v) = r at outcome ⊢
    cases outcome with
    | refused why => exact hid
    | dropped refs ctx left => exact hid
    | freed plain refs ctx => exact mem_unlinked hid v

theorem releaseSlots_carries (maps : Maps) (slots : Nat → Option MapId) (lo n : Nat) :
    ∀ id ∈ maps.linked ++ maps.freed,
      id ∈ (releaseSlots slots lo n maps).linked ++ (releaseSlots slots lo n maps).freed := by
  unfold releaseSlots
  generalize List.range' lo n = indices
  induction indices generalizing maps with
  | nil => exact fun _ h => h
  | cons i rest ih => exact fun id hid => ih _ id (release_carries maps (slots i) id hid)

section rounds

variable {s t : File}

/-- A context leaves its list and is freed. -/
theorem contextDrop_sound {c : CtxId} {p i : List CtxId} (h : Sound s)
    (perm : (s.pending ++ s.interrupted).Perm (c :: (p ++ i))) :
    Sound (contextDrop { s with pending := p, interrupted := i } c) ∧
      Carried s (contextDrop { s with pending := p, interrupted := i } c) ∧
      (contextDrop { s with pending := p, interrupted := i } c).pending = p ∧
      (contextDrop { s with pending := p, interrupted := i } c).interrupted = i := by
  obtain ⟨places, ctxs, bufs⟩ := contextDrop_places h.lists.places perm
  have slots := contextDrop_slots h.lists.slots h.lists.places perm
  obtain ⟨_, _, _, _, _, _, hdrop⟩ :=
    contextDrop_frame { s with pending := p, interrupted := i } c
  have idle : RefsOk ⟨0, 0, 0, 0, 0, 0⟩ s.maps none := ⟨h.maps, trivial⟩
  rw [hdrop] at places slots ctxs bufs ⊢
  have maps := (refsOk_ctxMoves idle (releaseSlots_moves .refl (s.ctxs c).maps 0
    (InvokeMessage.bufs (s.ctxs c).sc))).maps
  exact ⟨⟨places.lists h.lists.cmds slots, maps, h.op, h.commands⟩,
    ⟨ctxs, bufs, List.Perm.refl _, releaseSlots_carries _ _ _ _⟩, rfl, rfl⟩

/-- The first context of a list is on that list once, and on no other. -/
theorem interrupted_perm {c : CtxId} {rest : List CtxId} (h : PlacesOk s)
    (hlist : s.interrupted = c :: rest) :
    (s.pending ++ s.interrupted).Perm (c :: (s.pending.erase c ++ rest.erase c)) := by
  have hnodup : (s.pending ++ c :: rest).Nodup :=
    hlist ▸ (List.nodup_append.mp h.ctxs.nodup).1
  obtain ⟨-, hrest, hapart⟩ := List.nodup_append.mp hnodup
  have hpending : c ∉ s.pending := fun hc => hapart c hc c List.mem_cons_self rfl
  rw [hlist, List.erase_of_not_mem hpending, List.erase_of_not_mem (List.nodup_cons.mp hrest).1]
  exact List.perm_middle

theorem pending_perm {c : CtxId} {rest : List CtxId} (h : PlacesOk s)
    (hlist : s.pending = c :: rest) :
    (s.pending ++ s.interrupted).Perm (c :: (rest.erase c ++ s.interrupted.erase c)) := by
  have hnodup : (c :: rest ++ s.interrupted).Nodup :=
    hlist ▸ (List.nodup_append.mp h.ctxs.nodup).1
  rw [List.cons_append] at hnodup
  have hc := (List.nodup_cons.mp hnodup).1
  rw [List.mem_append, not_or] at hc
  rw [hlist, List.erase_of_not_mem hc.1, List.erase_of_not_mem hc.2]
  exact List.Perm.refl _

/-- A round of the first loop drops one context from the lists. -/
theorem nextInterrupted_drops (h : PlacesOk s) (next : nextInterrupted s = some t) :
    ∃ c p i, (s.pending ++ s.interrupted).Perm (c :: (p ++ i)) ∧
      i.length < s.interrupted.length ∧
      t = contextDrop { s with pending := p, interrupted := i } c := by
  unfold nextInterrupted at next
  split at next
  · cases next
  rename_i c rest hlist
  refine ⟨c, _, _, interrupted_perm h hlist, ?_, (Option.some.inj next).symm⟩
  rw [hlist]
  exact Nat.lt_succ_of_le List.length_erase_le

theorem nextPending_drops (h : PlacesOk s) (empty : s.interrupted = [])
    (next : nextPending s = some t) :
    ∃ c p, (s.pending ++ s.interrupted).Perm (c :: (p ++ [])) ∧ p.length < s.pending.length ∧
      t = contextDrop { s with pending := p, interrupted := [] } c := by
  unfold nextPending at next
  split at next
  · cases next
  rename_i c rest hlist
  have perm := pending_perm h hlist
  have dropped := (Option.some.inj next).symm
  simp only [contextFree, empty, List.erase_nil] at perm dropped ⊢
  refine ⟨c, _, perm, ?_, dropped⟩
  rw [hlist]
  exact Nat.lt_succ_of_le List.length_erase_le

theorem nextInterrupted_round (h : Sound s) (next : nextInterrupted s = some t) :
    Sound t ∧ Carried s t ∧ t.interrupted.length < s.interrupted.length := by
  obtain ⟨c, p, i, perm, shorter, rfl⟩ := nextInterrupted_drops h.lists.places next
  obtain ⟨sound, carried, -, hi⟩ := contextDrop_sound h perm
  exact ⟨sound, carried, by rwa [hi]⟩

theorem nextPending_round (h : Sound s) (empty : s.interrupted = [])
    (next : nextPending s = some t) :
    Sound t ∧ Carried s t ∧ t.interrupted = [] ∧ t.pending.length < s.pending.length := by
  obtain ⟨c, p, perm, shorter, rfl⟩ := nextPending_drops h.lists.places empty next
  obtain ⟨sound, carried, hp, hi⟩ := contextDrop_sound h perm
  exact ⟨sound, carried, hi, by rwa [hp]⟩

theorem nextCached_round (h : Sound s) (next : nextCached s = some t) :
    Sound t ∧ Carried s t ∧ (t.pending = s.pending ∧ t.interrupted = s.interrupted) ∧
      t.cached.length < s.cached.length := by
  unfold nextCached at next
  split at next
  · cases next
  rename_i b rest hlist
  obtain rfl := Option.some.inj next
  have hb : (s.bufs b).remote = false :=
    h.lists.marked.2.1 b (List.mem_append_left _ (hlist ▸ List.mem_cons_self))
  have hfree : bufFree { s with cached := rest, numCached := s.numCached - 1 } b false = { s with
      cached := rest, numCached := s.numCached - 1, freedBufs := b :: s.freedBufs } := by
    simp [bufFree, bufDrop, hb]
  have perm : (rest ++ b :: s.freedBufs ++ s.remoteBufs ++ descs s).Perm (allBufs s) := by
    unfold allBufs
    rw [hlist]
    exact (List.perm_middle.append_right _).append_right _
  rw [hfree]
  refine ⟨⟨⟨h.lists.ctxs, h.lists.bufs.perm perm, ⟨h.lists.marked.1, fun x hx => ?_,
    h.lists.marked.2.2⟩, h.lists.cmds, h.lists.slots⟩, h.maps, h.op, h.commands⟩,
    ⟨List.Perm.refl _, perm, List.Perm.refl _, fun _ hid => hid⟩, ⟨rfl, rfl⟩, ?_⟩
  · refine h.lists.marked.2.1 x ?_
    rw [hlist]
    exact List.mem_cons_of_mem _ hx
  · rw [hlist]
    exact Nat.lt_succ_self _

theorem nextRemote_round (h : Sound s) (next : nextRemote s = some t) :
    Sound t ∧ Carried s t ∧ (t.pending = s.pending ∧ t.interrupted = s.interrupted ∧
      t.cached = s.cached) ∧ t.remoteBufs.length < s.remoteBufs.length := by
  unfold nextRemote at next
  split at next
  · cases next
  rename_i b rest hlist
  obtain rfl := Option.some.inj next
  have hb : b ∈ s.remoteBufs := hlist ▸ List.mem_cons_self
  have lists := listsOk_freeRemote h.lists hb s.op
    (fun x hx => by rw [h.op] at hx; cases hx) fun _ _ hop => hop
  have perm := bufFree_remote_perm h.lists.places hb
  rw [bufFree_remote h.lists.places hb] at lists perm ⊢
  refine ⟨⟨lists, h.maps, h.op, h.commands⟩,
    ⟨List.Perm.refl _, perm, List.Perm.refl _, fun _ hid => hid⟩, ⟨rfl, rfl, rfl⟩, ?_⟩
  simp [hlist]

theorem nextCmd_round (h : Sound s) (next : nextCmd s = some t) :
    Sound t ∧ Carried s t ∧ (t.pending = s.pending ∧ t.interrupted = s.interrupted ∧
      t.cached = s.cached ∧ t.remoteBufs = s.remoteBufs) ∧ t.cmds.length < s.cmds.length := by
  unfold nextCmd at next
  split at next
  · cases next
  rename_i cmd rest hlist
  obtain rfl := Option.some.inj next
  obtain ⟨table, hfree⟩ := virtFreeMsg_frame { s with cmds := rest } cmd.msg
  have htable : table = (virtFreeMsg s cmd.msg).table := by
    have := congrArg File.table hfree
    rw [virtFreeMsg_table] at this ⊢
    exact this.symm
  have perm : (rest.map Cmd.id ++ cmd.id :: s.freedCmds).Perm (allCmds s) := by
    unfold allCmds
    rw [hlist]
    exact List.perm_middle
  rw [hfree]
  refine ⟨⟨⟨h.lists.ctxs, h.lists.bufs, h.lists.marked, h.lists.cmds.perm perm,
    slotsOk_free (m := cmd.msg) h.lists.slots htable rfl rfl fun m hne hm => ?_⟩, h.maps, h.op,
    h.commands⟩, ⟨List.Perm.refl _, List.Perm.refl _, perm, fun _ hid => hid⟩,
    ⟨rfl, rfl, rfl, rfl⟩, ?_⟩
  · refine hm.imp_right (Or.imp_right (Or.imp_left ?_))
    rintro ⟨cmd', hcmd, rfl⟩
    rw [hlist] at hcmd
    rcases List.mem_cons.mp hcmd with rfl | hcmd
    · exact False.elim (hne rfl)
    · exact ⟨cmd', hcmd, rfl⟩
  · rw [hlist]
    exact Nat.lt_succ_self _

theorem nextMap_round (h : Sound s) (next : nextMap s = some t) :
    Sound t ∧ Carried s t ∧ (t.pending = s.pending ∧ t.interrupted = s.interrupted ∧
      t.cached = s.cached ∧ t.remoteBufs = s.remoteBufs ∧ t.cmds = s.cmds) ∧
      t.maps.linked.length < s.maps.linked.length := by
  unfold nextMap at next
  split at next
  · cases next
  rename_i id rest hlist
  obtain rfl := Option.some.inj next
  have hid : id ∈ s.maps.linked := hlist ▸ List.mem_cons_self
  obtain ⟨hrefs, -, hctx, -⟩ := h.maps.counted id hid
  have maps := mapsOk_mmapFree h.maps id true fun _ => Or.inl rfl
  have outcome := mmapFree_freeing s.maps id true
  generalize mmapFree s.maps (some id) true = r at outcome maps ⊢
  have lists := listsOk_maps h.lists r
  cases outcome with
  | refused why =>
    rcases why with hheap | hneg | hneg
    · rw [h.maps.plain id hid] at hheap
      cases hheap
    · omega
    · omega
  | dropped refs ctx kept left => cases kept
  | freed plain refs ctx last =>
    refine ⟨⟨lists, maps, h.op, h.commands⟩, ⟨List.Perm.refl _, List.Perm.refl _,
      List.Perm.refl _, fun v hv => mem_unlinked hv id⟩, ⟨rfl, rfl, rfl, rfl, rfl⟩, ?_⟩
    rw [hlist, List.erase_cons_head]
    exact Nat.lt_succ_self _

theorem close_sound (h : Sound s) (tx : Bool) :
    Sound (virtFastrpcClose s tx) ∧ Carried s (virtFastrpcClose s tx) := by
  unfold virtFastrpcClose
  split
  · exact ⟨h, Carried.refl s⟩
  split
  · rename_i m u halloc
    have freed := replies_slots (m := m) (commands_slots h.lists.slots halloc)
    obtain ⟨table, hfree⟩ := virtFreeMsg_frame u m
    have same : ({ virtFreeMsg { u with commands := m :: u.commands } m with
        commands := (m :: u.commands).erase m } : File) = virtFreeMsg u m := by
      rw [List.erase_cons_head]
      unfold virtFreeMsg
      split_ifs <;> rfl
    have slots : SlotsOk (virtFreeMsg u m) := same ▸ freed
    obtain ⟨i, -, -, rfl⟩ := virtAllocMsg_some halloc
    rw [hfree] at slots ⊢
    exact ⟨⟨⟨h.lists.ctxs, h.lists.bufs, h.lists.marked, h.lists.cmds, slots⟩, h.maps, h.op,
      h.commands⟩, List.Perm.refl _, List.Perm.refl _,
      List.Perm.refl _, fun _ hid => hid⟩
  · exact ⟨h, Carried.refl s⟩

end rounds

/-- A loop whose rounds shorten a list and keep what the loops before it achieved. -/
theorem drained {A : Type} (next : File → Option File) (list : File → List A)
    (frame : File → Prop)
    (round : ∀ u v, Sound u → frame u → next u = some v →
      Sound v ∧ Carried u v ∧ frame v ∧ (list v).length < (list u).length)
    (found : ∀ u a rest, list u = a :: rest → next u ≠ none) {s : File} (h : Sound s)
    (hframe : frame s) :
    ∃ t, (∀ fuel, (list s).length < fuel → drain next fuel s = some t) ∧
      Sound t ∧ Carried s t ∧ frame t ∧ list t = [] := by
  obtain ⟨t, ends, ⟨sound, carried, kept⟩, hnone⟩ :=
    drain_ends (fun u => Sound u ∧ Carried s u ∧ frame u) (fun u => (list u).length)
      (fun u v hu hnext => by
        obtain ⟨sound, carried, kept, shorter⟩ := round u v hu.1 hu.2.2 hnext
        exact ⟨⟨sound, hu.2.1.trans carried, kept⟩, shorter⟩)
      ⟨h, Carried.refl s, hframe⟩
  refine ⟨t, ends, sound, carried, kept, ?_⟩
  cases hlist : list t with
  | nil => rfl
  | cons a rest => exact False.elim (found t a rest hlist hnone)

section loops

variable {s : File}

theorem interrupted_drained (h : Sound s) :
    ∃ t, (∀ fuel, s.interrupted.length < fuel → drain nextInterrupted fuel s = some t) ∧
      Sound t ∧ Carried s t ∧ t.interrupted = [] := by
  obtain ⟨t, ends, sound, carried, -, empty⟩ :=
    drained nextInterrupted File.interrupted (fun _ => True)
      (fun u v hu _ hnext => by
        obtain ⟨sound, carried, shorter⟩ := nextInterrupted_round hu hnext
        exact ⟨sound, carried, trivial, shorter⟩)
      (fun u a rest hlist => by simp [nextInterrupted, hlist]) h trivial
  exact ⟨t, ends, sound, carried, empty⟩

theorem pending_drained (h : Sound s) (empty : s.interrupted = []) :
    ∃ t, (∀ fuel, s.pending.length < fuel → drain nextPending fuel s = some t) ∧
      Sound t ∧ Carried s t ∧ t.interrupted = [] ∧ t.pending = [] :=
  drained nextPending File.pending (fun u => u.interrupted = [])
    (fun _ _ hu hempty hnext => nextPending_round hu hempty hnext)
    (fun u a rest hlist => by simp [nextPending, hlist]) h empty

theorem cached_drained (h : Sound s) (interrupted : s.interrupted = [])
    (pending : s.pending = []) :
    ∃ t, (∀ fuel, s.cached.length < fuel → drain nextCached fuel s = some t) ∧
      Sound t ∧ Carried s t ∧ (t.interrupted = [] ∧ t.pending = []) ∧ t.cached = [] :=
  drained nextCached File.cached (fun u => u.interrupted = [] ∧ u.pending = [])
    (fun u v hu hempty hnext => by
      obtain ⟨sound, carried, ⟨hp, hi⟩, shorter⟩ := nextCached_round hu hnext
      exact ⟨sound, carried, ⟨hi.trans hempty.1, hp.trans hempty.2⟩, shorter⟩)
    (fun u a rest hlist => by simp [nextCached, hlist]) h ⟨interrupted, pending⟩

theorem remote_drained (h : Sound s) (interrupted : s.interrupted = [])
    (pending : s.pending = []) (cached : s.cached = []) :
    ∃ t, (∀ fuel, s.remoteBufs.length < fuel → drain nextRemote fuel s = some t) ∧
      Sound t ∧ Carried s t ∧ (t.interrupted = [] ∧ t.pending = [] ∧ t.cached = []) ∧
      t.remoteBufs = [] :=
  drained nextRemote File.remoteBufs
    (fun u => u.interrupted = [] ∧ u.pending = [] ∧ u.cached = [])
    (fun u v hu hempty hnext => by
      obtain ⟨sound, carried, ⟨hp, hi, hc⟩, shorter⟩ := nextRemote_round hu hnext
      exact ⟨sound, carried,
        ⟨hi.trans hempty.1, hp.trans hempty.2.1, hc.trans hempty.2.2⟩, shorter⟩)
    (fun u a rest hlist => by simp [nextRemote, hlist]) h ⟨interrupted, pending, cached⟩

theorem cmds_drained (h : Sound s) (interrupted : s.interrupted = [])
    (pending : s.pending = []) (cached : s.cached = []) (remote : s.remoteBufs = []) :
    ∃ t, (∀ fuel, s.cmds.length < fuel → drain nextCmd fuel s = some t) ∧
      Sound t ∧ Carried s t ∧
      (t.interrupted = [] ∧ t.pending = [] ∧ t.cached = [] ∧ t.remoteBufs = []) ∧
      t.cmds = [] :=
  drained nextCmd File.cmds
    (fun u => u.interrupted = [] ∧ u.pending = [] ∧ u.cached = [] ∧ u.remoteBufs = [])
    (fun u v hu hempty hnext => by
      obtain ⟨sound, carried, ⟨hp, hi, hc, hr⟩, shorter⟩ := nextCmd_round hu hnext
      exact ⟨sound, carried, ⟨hi.trans hempty.1, hp.trans hempty.2.1, hc.trans hempty.2.2.1,
        hr.trans hempty.2.2.2⟩, shorter⟩)
    (fun u a rest hlist => by simp [nextCmd, hlist]) h ⟨interrupted, pending, cached, remote⟩

theorem maps_drained (h : Sound s) (interrupted : s.interrupted = [])
    (pending : s.pending = []) (cached : s.cached = []) (remote : s.remoteBufs = [])
    (cmds : s.cmds = []) :
    ∃ t, (∀ fuel, s.maps.linked.length < fuel → drain nextMap fuel s = some t) ∧
      Sound t ∧ Carried s t ∧
      (t.interrupted = [] ∧ t.pending = [] ∧ t.cached = [] ∧ t.remoteBufs = [] ∧ t.cmds = []) ∧
      t.maps.linked = [] :=
  drained nextMap (fun u => u.maps.linked) (fun u => u.interrupted = [] ∧ u.pending = [] ∧
      u.cached = [] ∧ u.remoteBufs = [] ∧ u.cmds = [])
    (fun u v hu hempty hnext => by
      obtain ⟨sound, carried, ⟨hp, hi, hc, hr, hm⟩, shorter⟩ := nextMap_round hu hnext
      exact ⟨sound, carried, ⟨hi.trans hempty.1, hp.trans hempty.2.1, hc.trans hempty.2.2.1,
        hr.trans hempty.2.2.2.1, hm.trans hempty.2.2.2.2⟩, shorter⟩)
    (fun u a rest hlist => by simp [nextMap, hlist]) h ⟨interrupted, pending, cached, remote, cmds⟩

end loops

/-- All lists of the file are empty. -/
structure Empty (s : File) : Prop where
  pending : s.pending = []
  interrupted : s.interrupted = []
  cached : s.cached = []
  remoteBufs : s.remoteBufs = []
  cmds : s.cmds = []
  maps : s.maps.linked = []

theorem fileFree_ends {s : File} (h : Sound s) (tx : Bool) :
    ∃ bound t, (∀ fuel, bound < fuel → fileFree fuel s tx = some t) ∧ Sound t ∧ Carried s t ∧
      Empty t := by
  have closed : Sound (if s.dspProcInit then virtFastrpcClose s tx else s) ∧
      Carried s (if s.dspProcInit then virtFastrpcClose s tx else s) := by
    split
    · exact close_sound h tx
    · exact ⟨h, Carried.refl s⟩
  generalize hs0 : (if s.dspProcInit then virtFastrpcClose s tx else s) = s0 at closed
  obtain ⟨sound0, carried0⟩ := closed
  obtain ⟨s1, ends1, sound1, carried1, i1⟩ := interrupted_drained sound0
  obtain ⟨s2, ends2, sound2, carried2, i2, p2⟩ := pending_drained sound1 i1
  obtain ⟨s3, ends3, sound3, carried3, ⟨i3, p3⟩, c3⟩ := cached_drained sound2 i2 p2
  obtain ⟨s4, ends4, sound4, carried4, ⟨i4, p4, c4⟩, r4⟩ := remote_drained sound3 i3 p3 c3
  obtain ⟨s5, ends5, sound5, carried5, ⟨i5, p5, c5, r5⟩, d5⟩ := cmds_drained sound4 i4 p4 c4 r4
  obtain ⟨s6, ends6, sound6, carried6, ⟨i6, p6, c6, r6, d6⟩, m6⟩ :=
    maps_drained sound5 i5 p5 c5 r5 d5
  refine ⟨s0.interrupted.length + s1.pending.length + s2.cached.length + s3.remoteBufs.length +
    s4.cmds.length + s5.maps.linked.length, s6, fun fuel hfuel => ?_, sound6, ?_,
    ⟨p6, i6, c6, r6, d6, m6⟩⟩
  · unfold fileFree
    rw [hs0, ends1 fuel (by omega), Option.bind_some, ends2 fuel (by omega), Option.bind_some,
      ends3 fuel (by omega), Option.bind_some, ends4 fuel (by omega), Option.bind_some,
      ends5 fuel (by omega), Option.bind_some, ends6 fuel (by omega)]
  · exact ((((carried0.trans carried1).trans carried2).trans carried3).trans carried4).trans
      (carried5.trans carried6)

/-- The map calls drop their own references, and no interrupted command is lost. -/
def FilesOwned (k : Uapi) (s : File) (a : Action) : Prop :=
  RefsOwned k s a ∧ CmdsSaved a

/-- What a run keeps. -/
structure RunOk (k : Uapi) (s : File) : Prop where
  refs : RefsOk k s.maps s.op
  lists : ListsOk s

theorem step_runOk {k : Uapi} {s t : File} {a : Action} (h : RunOk k s) (own : FilesOwned k s a)
    (hstep : step k s a = some t) : RunOk k t where
  refs := step_refsOk h.refs own.1 hstep
  lists := step_listsOk h.lists own.2 hstep

/-- The elements of a list that are neither lost nor duplicated are freed once. -/
theorem count_freed {ids freed : List Nat} {next x : Nat} (h : Distinct ids next)
    (perm : freed.Perm ids) (hx : x ∈ ids) : freed.count x = 1 := by
  rw [perm.count_eq]
  exact List.count_eq_one_of_mem h.nodup hx

/-- After every run in which references and interrupted commands are owned, releasing the
quiescent file ends with empty lists; everything that was on them is freed exactly once, and
no slot of the message table is left to the file. -/
theorem file_free_releases (k : Uapi) (as : List Action) (s : File)
    (along : Along (step k) (FilesOwned k) File.opened as)
    (run : exec (step k) File.opened as = some s) (quiescent : Quiescent s) (tx : Bool) :
    ∃ bound t, (∀ fuel, bound < fuel → fileFree fuel s tx = some t) ∧ Empty t ∧
      (∀ c ∈ s.pending ++ s.interrupted, t.freedCtxs.count c = 1) ∧
      (∀ b ∈ s.cached ++ s.remoteBufs, t.freedBufs.count b = 1) ∧
      (∀ cmd ∈ s.cmds, t.freedCmds.count cmd.id = 1) ∧
      (∀ id ∈ s.maps.linked, t.maps.freed.count id = 1) ∧
      ∀ i m, t.table i ≠ some (.ours m) := by
  have inv : RunOk k s := exec_invariant_along (FilesOwned k)
    (fun _ _ _ h own hs => step_runOk h own hs) ⟨opened_refsOk k, opened_listsOk⟩ along run
  have sound : Sound s := ⟨inv.lists, inv.refs.maps, quiescent.op, quiescent.commands⟩
  obtain ⟨bound, t, ends, done, carried, empty⟩ := fileFree_ends sound tx
  refine ⟨bound, t, ends, empty, fun c hc => ?_, fun b hb => ?_, fun cmd hcmd => ?_,
    fun id hid => ?_, fun i m hi => ?_⟩
  · refine count_freed sound.lists.ctxs ?_ (List.mem_append_left _ hc)
    have := carried.ctxs
    rwa [allCtxs, empty.pending, empty.interrupted] at this
  · refine count_freed sound.lists.bufs ?_ (mem_allBufs.mpr ?_)
    · have := carried.bufs
      simpa [allBufs, descs, empty.cached, empty.remoteBufs, empty.pending,
        empty.interrupted] using this
    · rcases List.mem_append.mp hb with hc | hr
      · exact Or.inl hc
      · exact Or.inr (Or.inr (Or.inl hr))
  · refine count_freed sound.lists.cmds ?_ (List.mem_append_left _ (List.mem_map_of_mem hcmd))
    have := carried.cmds
    rwa [allCmds, empty.cmds] at this
  · have hfreed := carried.maps id (List.mem_append_left _ hid)
    rw [empty.maps, List.nil_append] at hfreed
    have hnodup := done.maps.nodup
    rw [empty.maps, List.nil_append] at hnodup
    exact List.count_eq_one_of_mem hnodup hfreed
  · obtain ⟨-, -, howns⟩ := done.lists.slots i m hi
    rcases howns with ⟨c, hc, -⟩ | hm | ⟨cmd, hcmd, -⟩ | ⟨tid, hop⟩
    · simp [empty.pending, empty.interrupted] at hc
    · simp [done.commands] at hm
    · simp [empty.cmds] at hcmd
    · simp [done.op] at hop

/-- The in-flight invoke is interrupted after its map lost the `KEEP_MAP` reference. -/
def interruptedInvoke : List Action :=
  keptInvoke ++ [.munmapFd 9 5, .notifyAlloc true, .notifyDone false false, .interrupt 0]

theorem interruptedInvoke_owned :
    Along (step uapi) (FilesOwned uapi) File.opened interruptedInvoke := by
  refine along_append (along_of_forall (fun a ha s => ?_) _) rfl (along_cons ⟨?_, trivial⟩ rfl ?_)
  · simp only [keptInvoke, List.mem_cons, List.not_mem_nil, or_false] at ha
    rcases ha with rfl | rfl | rfl | rfl | rfl <;> exact ⟨trivial, trivial⟩
  · intro _ id hid
    obtain rfl : id = 0 := List.mem_singleton.mp hid
    decide
  · exact along_cons ⟨trivial, trivial⟩ rfl (along_cons ⟨trivial, fun h => by cases h⟩ rfl
      (along_cons ⟨trivial, trivial⟩ rfl trivial))

/-- The interrupted context, its message and its map are there to be released. -/
theorem interruptedInvoke_released : ∃ s,
    exec (step uapi) File.opened interruptedInvoke = some s ∧
    s.interrupted = [0] ∧ s.maps.linked = [0] ∧ s.table 0 = some (.ours 0) ∧
    ∃ bound t, (∀ fuel, bound < fuel → fileFree fuel s true = some t) ∧ Empty t ∧
      (∀ c ∈ s.pending ++ s.interrupted, t.freedCtxs.count c = 1) ∧
      (∀ b ∈ s.cached ++ s.remoteBufs, t.freedBufs.count b = 1) ∧
      (∀ cmd ∈ s.cmds, t.freedCmds.count cmd.id = 1) ∧
      (∀ id ∈ s.maps.linked, t.maps.freed.count id = 1) ∧
      ∀ i m, t.table i ≠ some (.ours m) :=
  ⟨_, rfl, rfl, rfl, rfl, file_free_releases uapi interruptedInvoke _ interruptedInvoke_owned rfl
    ⟨rfl, rfl, fun _ hc => by cases hc⟩ true⟩

/-- Only maps are left, and `vfastrpc_mmap_free` refuses the first of them. -/
structure Stuck (s : File) : Prop where
  pending : s.pending = []
  interrupted : s.interrupted = []
  cached : s.cached = []
  remoteBufs : s.remoteBufs = []
  cmds : s.cmds = []
  uncounted : ∃ id rest, s.maps.linked = id :: rest ∧ (s.maps.mem id).refs ≤ 0

theorem nextMap_stuck (s : File) (h : Stuck s) : ∃ t, nextMap s = some t ∧ Stuck t := by
  obtain ⟨id, rest, head, hrefs⟩ := h.uncounted
  have refused : mmapFree s.maps (some id) true = s.maps := by
    simp [mmapFree, hrefs]
  refine ⟨s, ?_, h⟩
  simp only [nextMap, head, refused]

theorem close_stuck {s : File} (h : Stuck s) (tx : Bool) : Stuck (virtFastrpcClose s tx) := by
  unfold virtFastrpcClose
  split
  · exact h
  split
  · rename_i m u halloc
    obtain ⟨table, hfree⟩ := virtFreeMsg_frame u m
    obtain ⟨i, -, -, rfl⟩ := virtAllocMsg_some halloc
    rw [hfree]
    exact ⟨h.pending, h.interrupted, h.cached, h.remoteBufs, h.cmds, h.uncounted⟩
  · exact h

/-- No number of rounds is enough for the loop over the maps. -/
theorem fileFree_stuck {s : File} (h : Stuck s) (fuel : Nat) (tx : Bool) :
    fileFree fuel s tx = none := by
  have closed : Stuck (if s.dspProcInit then virtFastrpcClose s tx else s) := by
    split
    · exact close_stuck h tx
    · exact h
  unfold fileFree
  generalize (if s.dspProcInit then virtFastrpcClose s tx else s) = u at closed ⊢
  cases fuel with
  | zero => rfl
  | succ fuel =>
    rw [drain_done (by simp only [nextInterrupted, closed.interrupted]), Option.bind_some,
      drain_done (by simp only [nextPending, closed.pending]), Option.bind_some,
      drain_done (by simp only [nextCached, closed.cached]), Option.bind_some,
      drain_done (by simp only [nextRemote, closed.remoteBufs]), Option.bind_some,
      drain_done (by simp only [nextCmd, closed.cmds]), Option.bind_some]
    exact drain_stuck Stuck nextMap_stuck (fuel + 1) closed

/-- Two calls of `munmap_fd` during one invoke: when the context is gone the map is linked
with `refs` 0, and the file is never released. -/
theorem uncounted_map_never_drained : ∃ s, exec (step uapi) File.opened
      (keptInvoke ++ [.munmapFd 9 5, .notifyAlloc true, .notifyDone false false,
        .munmapFd 9 5, .notifyAlloc true, .notifyDone false false, .wake 0,
        .contextFree 0]) = some s ∧
    Quiescent s ∧ ∀ fuel tx, fileFree fuel s tx = none :=
  ⟨_, rfl, ⟨rfl, rfl, fun _ hc => by cases hc⟩,
    fileFree_stuck ⟨rfl, rfl, rfl, rfl, rfl, 0, [], rfl, by decide⟩⟩

end FileRelease
