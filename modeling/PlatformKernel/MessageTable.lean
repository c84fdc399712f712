import PlatformKernel.MessageTransport

/-!
# The message table

The slot of a message is claimed, rolled back and released in separate critical
sections of `virt_alloc_msg` and `virt_free_msg`. In every run the table holds exactly
the live messages, each in the slot of its `msgid`.
-/

namespace MessageTable

open GuardedRuns MessageTransport

/-- The table and the live messages name each other. -/
structure Tabled (s : State) : Prop where
  known : ∀ uid m, s.msgs uid = some m → uid < s.nextUid
  own : ∀ uid m, s.msgs uid = some m → m.msgid < fastrpcMsgMax ∧ s.table m.msgid = some uid
  live : ∀ i uid, s.table i = some uid → ∃ m, s.msgs uid = some m ∧ m.msgid = i

theorem probed_tabled (numBufs : Nat) : Tabled (State.probed numBufs) where
  known := fun uid m h => by cases h
  own := fun uid m h => by cases h
  live := fun i uid h => by cases h

section steps

variable {s t : State} {uid : Uid} {m k : Msg} {a : Action}

theorem tabled_same (h : Tabled s) (msgs : t.msgs = s.msgs) (table : t.table = s.table)
    (next : t.nextUid = s.nextUid) : Tabled t where
  known := by rw [msgs, next]; exact h.known
  own := by rw [msgs, table]; exact h.own
  live := by rw [msgs, table]; exact h.live

theorem tabled_setMsg (h : Tabled s) (hm : s.msgs uid = some m) (hid : k.msgid = m.msgid) :
    Tabled (s.setMsg uid (some k)) where
  known := setMsg_forall (h.known uid m hm) h.known
  own := setMsg_forall (P := fun v n => n.msgid < fastrpcMsgMax ∧ s.table n.msgid = some v)
    (hid ▸ h.own uid m hm) h.own
  live := fun i v hv => by
    obtain ⟨n, hn, hi⟩ := h.live i v hv
    rw [msgs_setMsg]
    split_ifs with hvu
    · subst hvu
      obtain rfl := Option.some.inj (hm.symm.trans hn)
      exact ⟨k, rfl, hid.trans hi⟩
    · exact ⟨n, hn, hi⟩

theorem tabled_mapMsg (h : Tabled s) (uid : Uid) (f : Msg → Msg)
    (hid : ∀ m, (f m).msgid = m.msgid) : Tabled (s.setMsg uid ((s.msgs uid).map f)) :=
  mapMsg_elim (P := Tabled) h fun m hm => tabled_setMsg h hm (hid m)

theorem freeSlot_lt {A : Type} {table : Nat → Option A} {i : Nat} (h : freeSlot table = some i) :
    i < fastrpcMsgMax :=
  List.mem_range.mp (List.mem_of_find?_eq_some h)

theorem tabled_claim {f : FileId} {kind : Kind} {i : Nat} (h : Tabled s)
    (slot : freeSlot s.table = some i) :
    Tabled { s with
      table := Function.update s.table i (some s.nextUid)
      msgs := Function.update s.msgs s.nextUid
        (some ⟨f, kind, i, none, none, false, false, .claimed⟩)
      nextUid := s.nextUid + 1 } := by
  have hfree := freeSlot_none slot
  refine ⟨setMsg_forall (s := s) (Nat.lt_succ_self _)
    fun v m hm => Nat.lt_succ_of_lt (h.known v m hm), ?_, fun j v hv => ?_⟩
  · refine setMsg_forall (s := s) ⟨freeSlot_lt slot, Function.update_self _ _ _⟩ fun v m hm => ?_
    obtain ⟨hlt, hslot⟩ := h.own v m hm
    have hne : m.msgid ≠ i := fun heq => by
      rw [heq, hfree] at hslot
      cases hslot
    exact ⟨hlt, (Function.update_of_ne hne _ _).trans hslot⟩
  · by_cases hj : j = i
    · subst hj
      obtain rfl : s.nextUid = v := by simpa using hv
      exact ⟨_, Function.update_self _ _ _, rfl⟩
    · obtain ⟨m, hm, hid⟩ := h.live j v ((Function.update_of_ne hj _ _).symm.trans hv)
      have hne : v ≠ s.nextUid := Nat.ne_of_lt (h.known v m hm)
      exact ⟨m, (Function.update_of_ne hne _ _).trans hm, hid⟩

/-- The message finds itself in its slot, so the slot is cleared, and no other. -/
theorem free_table (h : Tabled s) (hm : s.msgs uid = some m) :
    (virtFreeMsg s uid m).table = Function.update s.table m.msgid none :=
  if_pos (h.own uid m hm).2

theorem tabled_free (h : Tabled s) (hm : s.msgs uid = some m) : Tabled (virtFreeMsg s uid m) := by
  refine ⟨fun v n hn => h.known v n (virtFreeMsg_live hn).2, fun v n hn => ?_, fun i v hv => ?_⟩
  · obtain ⟨hv, hold⟩ := virtFreeMsg_live hn
    obtain ⟨hlt, hslot⟩ := h.own v n hold
    have hne : n.msgid ≠ m.msgid := fun heq => by
      rw [heq, (h.own uid m hm).2] at hslot
      exact hv (Option.some.inj hslot).symm
    rw [free_table h hm, Function.update_of_ne hne]
    exact ⟨hlt, hslot⟩
  · rw [free_table h hm, Function.update_apply] at hv
    split_ifs at hv with hi
    obtain ⟨n, hn, hid⟩ := h.live i v hv
    have hne : v ≠ uid := by
      rintro rfl
      obtain rfl := Option.some.inj (hm.symm.trans hn)
      exact hi hid.symm
    exact ⟨n, (Function.update_of_ne hne _ _).trans hn, hid⟩

theorem ownerMoves_tabled (h : Tabled s) (hm : s.msgs uid = some m)
    (moves : OwnerMoves s uid m a t) : Tabled t := by
  cases moves with
  | takeTx stage taken =>
    obtain ⟨last, used, rfl⟩ := getATxBuf_some taken
    exact tabled_setMsg (tabled_same h rfl rfl rfl) hm rfl
  | restage restaged => exact tabled_setMsg h hm restaged.msgid
  | send stage txbuf =>
    exact tabled_same (tabled_setMsg h hm (k := { m with sent := true, stage := m.kind.sentStage })
      rfl) rfl rfl rfl
  | giveBack stage rxbuf action =>
    exact tabled_same (tabled_setMsg h hm (k := { m with stage := .freeing }) rfl) rfl rfl rfl
  | free stage => exact tabled_free h hm

theorem recvMoves_tabled (h : Tabled s) (moves : RecvMoves s t) : Tabled t := by
  cases moves with
  | get idle used => exact tabled_same h rfl rfl rfl
  | found got lookup => exact tabled_same h rfl rfl rfl
  | rejected got lookup => exact tabled_same h rfl rfl rfl
  | attach found =>
    rename_i r v
    exact tabled_same (tabled_mapMsg h v (fun m => { m with rxbuf := some r.rx }) fun _ => rfl)
      rfl rfl rfl
  | complete attached =>
    rename_i v
    exact tabled_same (tabled_mapMsg h v (fun m => { m with completed := true }) fun _ => rfl)
      rfl rfl rfl

theorem step_tabled (h : Tabled s) (hstep : step s a = some t) : Tabled t := by
  cases step_moves hstep with
  | files files => exact tabled_same h rfl rfl rfl
  | claim slot => exact tabled_claim h slot
  | consume queued => exact tabled_same h rfl rfl rfl
  | reply taken avail => exact tabled_same h rfl rfl rfl
  | owner owned live moves => exact ownerMoves_tabled h live moves
  | recv moves => exact recvMoves_tabled h moves

end steps

theorem run_tabled {numBufs : Nat} {as : List Action} {s : State}
    (run : exec step (State.probed numBufs) as = some s) : Tabled s :=
  exec_invariant (fun _ _ _ h hs => step_tabled h hs) (probed_tabled numBufs) run

/-- `virt_alloc_msg` got no transmit buffer: all that is left to do is `virt_free_msg`. -/
def RollingBack (uid : Uid) (s : State) : Prop :=
  uid < s.nextUid ∧ ∀ m, s.msgs uid = some m → m.stage = .freeing

theorem rollingBack_setMsg {s : State} {uid v : Uid} {k : Option Msg} (h : RollingBack uid s)
    (hk : uid = v → ∀ n, k = some n → n.stage = .freeing) : RollingBack uid (s.setMsg v k) := by
  refine ⟨h.1, fun m hm => ?_⟩
  rw [msgs_setMsg] at hm
  split_ifs at hm with hv
  · exact hk hv m hm
  · exact h.2 m hm

theorem rollingBack_mapMsg {s : State} {uid v : Uid} {f : Msg → Msg} (h : RollingBack uid s)
    (hf : ∀ m, (f m).stage = m.stage) : RollingBack uid (s.setMsg v ((s.msgs v).map f)) := by
  refine rollingBack_setMsg h fun hv n hn => ?_
  subst hv
  obtain ⟨m, hm, rfl⟩ := Option.map_eq_some_iff.mp hn
  exact (hf m).trans (h.2 m hm)

/-- The owner has one step left. -/
theorem ownerMoves_rollingBack {s t : State} {uid v : Uid} {m : Msg} {a : Action}
    (h : RollingBack uid s) (hm : s.msgs v = some m) (moves : OwnerMoves s v m a t) :
    RollingBack uid t := by
  have other : ∀ st : Stage, m.stage = st → st ≠ .freeing → uid ≠ v := fun st hst hne huv =>
    hne (hst.symm.trans (h.2 m (huv ▸ hm)))
  cases moves with
  | takeTx stage taken =>
    obtain ⟨last, used, rfl⟩ := getATxBuf_some taken
    have hne := other _ stage (by decide)
    exact rollingBack_setMsg (s := { s with lastSbuf := last, svqUsed := used }) h
      fun huv => False.elim (hne huv)
  | restage restaged =>
    exact rollingBack_setMsg h fun huv => False.elim (other _ rfl restaged.live huv)
  | send stage txbuf =>
    have hne := other _ stage (by decide)
    exact rollingBack_setMsg h fun huv => False.elim (hne huv)
  | giveBack stage rxbuf action =>
    have hne := other _ stage (by decide)
    exact rollingBack_setMsg h fun huv => False.elim (hne huv)
  | free stage =>
    exact rollingBack_setMsg h fun _ n hn => by cases hn

theorem step_rollingBack {s t : State} {uid : Uid} {a : Action} (h : RollingBack uid s)
    (hstep : step s a = some t) : RollingBack uid t := by
  cases step_moves hstep with
  | files files => exact h
  | claim slot =>
    refine ⟨Nat.lt_succ_of_lt h.1, fun m hm => h.2 m ?_⟩
    exact (Function.update_of_ne (Nat.ne_of_lt h.1) _ _).symm.trans hm
  | consume queued => exact h
  | reply taken avail => exact h
  | owner owned live moves => exact ownerMoves_rollingBack h live moves
  | recv moves =>
    cases moves with
    | get idle used => exact h
    | found got lookup => exact h
    | rejected got lookup => exact h
    | attach found => exact rollingBack_mapMsg h fun _ => rfl
    | complete attached => exact rollingBack_mapMsg h fun _ => rfl

theorem getTx_fails {s t : State} {uid : Uid} (h : Tabled s) (fails : (getATxBuf s).1 = none)
    (hstep : step s (.getTx uid) = some t) : RollingBack uid t := by
  obtain ⟨m, hm, hown⟩ := Option.bind_eq_some_iff.mp hstep
  obtain ⟨-, hget⟩ := Option.ite_none_right_eq_some.mp hown
  have unchanged : getATxBuf s = (none, s) :=
    Prod.ext fails (getATxBuf_none (Prod.ext fails rfl))
  rw [unchanged] at hget
  obtain rfl := Option.some.inj hget
  refine ⟨h.known uid m hm, fun n hn => ?_⟩
  rw [msgs_setMsg, if_pos rfl] at hn
  obtain rfl := Option.some.inj hn
  rfl

/-- No slot names a message that is gone. -/
theorem Tabled.unnamed {s : State} {uid : Uid} (h : Tabled s) (gone : s.msgs uid = none) :
    ∀ i, s.table i ≠ some uid := by
  intro i hi
  obtain ⟨m, hm, -⟩ := h.live i uid hi
  rw [gone] at hm
  cases hm

theorem free_of_stage {s : State} {uid : Uid} {m : Msg} (hm : s.msgs uid = some m)
    (stage : m.stage = .freeing) : step s (.free uid) = some (virtFreeMsg s uid m) := by
  have hown : ownerStep s uid m (.free uid) = some (virtFreeMsg s uid m) := if_pos stage
  exact (congrArg (fun o => o.bind fun m => ownerStep s uid m (.free uid)) hm).trans hown

/-- What holds of the table in a state. A failed allocation either has removed its entry
or is about to, whatever ran in between. -/
structure TableKept (s : State) : Prop where
  own : ∀ uid m, s.msgs uid = some m → m.msgid < fastrpcMsgMax ∧ s.table m.msgid = some uid
  distinct : ∀ u v m n, s.msgs u = some m → s.msgs v = some n → m.msgid = n.msgid → u = v
  frees : ∀ uid t, step s (.free uid) = some t →
    ∀ i, s.table i ≠ some uid → t.table i = s.table i
  full : ∀ f kind, claimMsg s f kind = none →
    ∀ i < fastrpcMsgMax, ∃ uid m, s.table i = some uid ∧ s.msgs uid = some m
  failed : ∀ uid t as u, (getATxBuf s).1 = none → step s (.getTx uid) = some t →
    exec step t as = some u →
      (∀ i, u.table i ≠ some uid) ∨
        ∃ v, step u (.free uid) = some v ∧ ∀ i, v.table i ≠ some uid

theorem claim_full {s : State} {f : FileId} {kind : Kind} (h : Tabled s)
    (fails : claimMsg s f kind = none) {i : Nat} (hi : i < fastrpcMsgMax) :
    ∃ uid m, s.table i = some uid ∧ s.msgs uid = some m := by
  have free := List.find?_eq_none.mp (Option.map_eq_none_iff.mp fails) i (List.mem_range.mpr hi)
  obtain ⟨uid, huid⟩ : ∃ uid, s.table i = some uid :=
    Option.ne_none_iff_exists'.mp (by simpa using free)
  obtain ⟨m, hm, -⟩ := h.live i uid huid
  exact ⟨uid, m, huid, hm⟩

theorem free_other {s t : State} {uid : Uid} (h : Tabled s) (hstep : step s (.free uid) = some t)
    {i : Nat} (hi : s.table i ≠ some uid) : t.table i = s.table i := by
  obtain ⟨m, hm, hown⟩ := Option.bind_eq_some_iff.mp hstep
  obtain ⟨-, hfree⟩ := Option.ite_none_right_eq_some.mp hown
  obtain rfl := Option.some.inj hfree
  have hne : i ≠ m.msgid := fun he => hi (he ▸ (h.own uid m hm).2)
  rw [free_table h hm, Function.update_of_ne hne]

/-- The table in every state that any interleaving of the callers, the interrupt and the
back end leads to. -/
theorem message_table_kept (numBufs : Nat) (as : List Action) (s : State)
    (run : exec step (State.probed numBufs) as = some s) : TableKept s := by
  have h := run_tabled run
  refine ⟨h.own, fun u v m n hm hn hid => ?_, fun uid t hs i hi => free_other h hs hi,
    fun f kind fails i hi => claim_full h fails hi, fun uid t bs u fails hs run' => ?_⟩
  · have hu := (h.own u m hm).2
    rw [hid, (h.own v n hn).2] at hu
    exact (Option.some.inj hu).symm
  · have hu : Tabled u :=
      exec_invariant (fun _ _ _ h hs => step_tabled h hs) (step_tabled h hs) run'
    have rolling : RollingBack uid u :=
      exec_invariant (fun _ _ _ h hs => step_rollingBack h hs) (getTx_fails h fails hs) run'
    cases hm : u.msgs uid with
    | none => exact Or.inl (hu.unnamed hm)
    | some m =>
      have hfree := free_of_stage hm (rolling.2 m hm)
      refine Or.inr ⟨_, hfree, (step_tabled hu hfree).unnamed ?_⟩
      exact Function.update_self _ _ _

/-- The first message is sent, the second gets no transmit buffer, and a third claims a slot
before the second is rolled back. -/
def rolledBack : List Action :=
  [.openFile 0, .openFile 1, .claim 0 .invoke, .getTx 0, .claim 1 .command, .send 0, .getTx 1,
    .claim 0 .command, .free 1]

theorem rolledBack_table : ∃ s, exec step (State.probed 1) rolledBack = some s ∧
    (s.table 0 = some 0 ∧ s.table 1 = none ∧ s.table 2 = some 2) ∧ TableKept s :=
  ⟨_, rfl, by decide, message_table_kept 1 rolledBack _ rfl⟩

end MessageTable
