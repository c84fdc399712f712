import PlatformKernel.MessageTransport

/-!
# Responses reach the message they answer

A `msgid` names a table slot, and the slot is reused as soon as its message is
freed. A response is delivered to the right message as long as no message is freed
while its request is in flight; the waiting callers see to that, and closing a file
does not.
-/

namespace MessageDelivery

open GuardedRuns MessageTransport

def recvReqs : Recv → List Req
  | .got r => [r.req]
  | .found r _ => [r.req]
  | _ => []

/-- Requests in flight, from the send queue to the interrupt that delivers the response. -/
def inFlight (s : State) : List Req :=
  s.svqQueued.map Prod.snd ++ s.backend ++ s.rvqUsed.map Rsp.req ++ recvReqs s.recv

/-- The message is live, its request is under way, and no response has been attached. -/
def Awaits (s : State) (q : Req) : Prop :=
  ∃ m, s.msgs q.origin = some m ∧ m.msgid = q.msgid ∧ m.sent = true ∧ m.rxbuf = none

/-- A message that is completed, or given up after it was sent, has its response; one
that is still being built has neither request nor response. -/
structure Settled (m : Msg) : Prop where
  answered : m.completed = true ∨ m.stage.ending = true ∧ m.sent = true → m.rxbuf ≠ none
  early : m.stage = .claimed ∨ m.stage = .built → m.sent = false ∧ m.rxbuf = none

def LengthOk (r : Rsp) : Prop := r.len = r.hdrLen

structure Routed (s : State) : Prop where
  slots : ∀ uid m, s.msgs uid = some m → s.table m.msgid = some uid
  known : ∀ uid m, s.msgs uid = some m → uid < s.nextUid
  awaits : ∀ q ∈ inFlight s, Awaits s q
  once : ((inFlight s).map Req.origin).Nodup
  settled : ∀ uid m, s.msgs uid = some m → Settled m
  found : ∀ r uid, s.recv = .found r uid → uid = r.req.origin
  attached : ∀ uid, s.recv = .attached uid → uid < s.nextUid ∧
    ∀ m, s.msgs uid = some m → m.rxbuf ≠ none
  lengths : (∀ r ∈ s.rvqUsed, LengthOk r) ∧ ∀ r, s.recv = .got r → LengthOk r
  delivered : ∀ p ∈ s.deliveries, p.1 = p.2

/-- The state in which each request was answered: a file is only drained of messages
that have their response. -/
def Answered (s : State) : Action → Prop
  | .closeTake uid => ∀ m, s.msgs uid = some m → m.rxbuf ≠ none
  | _ => True

theorem probed_routed (numBufs : Nat) : Routed (State.probed numBufs) where
  slots := fun uid m h => by cases h
  known := fun uid m h => by cases h
  awaits := fun q h => by simp [inFlight, State.probed, recvReqs] at h
  once := by simp [inFlight, State.probed, recvReqs]
  settled := fun uid m h => by cases h
  found := fun r uid h => by cases h
  attached := fun uid h => by cases h
  lengths := ⟨fun r h => (List.not_mem_nil h).elim, fun r h => by cases h⟩
  delivered := fun p h => by cases h

/-- The message keeps its slot, its request and its response. -/
structure SameRequest (m k : Msg) : Prop where
  msgid : k.msgid = m.msgid
  sent : k.sent = m.sent
  rxbuf : k.rxbuf = m.rxbuf

theorem awaits_setMsg {s : State} {uid : Uid} {m k : Msg} (hm : s.msgs uid = some m)
    (same : SameRequest m k) {q : Req} (h : Awaits s q) :
    Awaits (s.setMsg uid (some k)) q := by
  obtain ⟨n, hn, hid, hsent, hrx⟩ := h
  by_cases hq : q.origin = uid
  · rw [hq, hm] at hn
    obtain rfl := Option.some.inj hn
    exact ⟨k, by rw [msgs_setMsg, if_pos hq], same.msgid.trans hid, same.sent.trans hsent,
      same.rxbuf.trans hrx⟩
  · exact ⟨n, by rw [msgs_setMsg, if_neg hq, hn], hid, hsent, hrx⟩

theorem routed_setMsg {s : State} {uid : Uid} {m k : Msg} (h : Routed s)
    (hm : s.msgs uid = some m) (same : SameRequest m k) (hsettled : Settled k) :
    Routed (s.setMsg uid (some k)) where
  slots := setMsg_forall (P := fun v n => s.table n.msgid = some v)
    (same.msgid ▸ h.slots uid m hm) h.slots
  known := setMsg_forall (P := fun v _ => v < s.nextUid) (h.known uid m hm) h.known
  awaits := fun q hq => awaits_setMsg hm same (h.awaits q hq)
  once := h.once
  settled := setMsg_forall (P := fun _ n => Settled n) hsettled h.settled
  found := h.found
  attached := fun v hv => ⟨(h.attached v hv).1, fun n hn =>
    setMsg_forall (P := fun v n => s.recv = .attached v → n.rxbuf ≠ none)
      (fun hu => same.rxbuf ▸ (h.attached uid hu).2 m hm)
      (fun v n hn hv => (h.attached v hv).2 n hn) v n hn hv⟩
  lengths := h.lengths
  delivered := h.delivered

theorem move_perm {A : Type} [DecidableEq A] {x : A} {src dst : List A} (hx : x ∈ src) :
    (src.erase x ++ (dst ++ [x])).Perm (src ++ dst) := by
  rw [← List.append_assoc]
  have front : (src.erase x ++ dst ++ [x]).Perm (x :: (src.erase x ++ dst)) :=
    List.perm_append_singleton _ _
  exact front.trans ((List.perm_cons_erase hx).symm.append_right dst)

/-- Requests only change places. -/
theorem routed_moved {s t : State} (h : Routed s) (hmsgs : t.msgs = s.msgs)
    (htable : t.table = s.table) (hnext : t.nextUid = s.nextUid)
    (hdeliveries : t.deliveries = s.deliveries) (perm : (inFlight t).Perm (inFlight s))
    (hfound : ∀ r uid, t.recv = .found r uid → uid = r.req.origin)
    (hattached : ∀ uid, t.recv = .attached uid → s.recv = .attached uid)
    (hlengths : (∀ r ∈ t.rvqUsed, LengthOk r) ∧ ∀ r, t.recv = .got r → LengthOk r) :
    Routed t where
  slots := by rw [hmsgs, htable]; exact h.slots
  known := by rw [hmsgs, hnext]; exact h.known
  awaits := fun q hq => by
    obtain ⟨m, hm, rest⟩ := h.awaits q (perm.mem_iff.mp hq)
    exact ⟨m, by rw [hmsgs]; exact hm, rest⟩
  once := ((perm.map Req.origin).nodup_iff).mpr h.once
  settled := by rw [hmsgs]; exact h.settled
  found := hfound
  attached := fun uid hu => by rw [hnext, hmsgs]; exact h.attached uid (hattached uid hu)
  lengths := hlengths
  delivered := by rw [hdeliveries]; exact h.delivered

theorem routed_consume {s : State} {tx : TxId} {q : Req} (h : Routed s)
    (hq : (tx, q) ∈ s.svqQueued) :
    Routed { s with
      svqQueued := s.svqQueued.erase (tx, q)
      svqUsed := s.svqUsed ++ [tx]
      backend := s.backend ++ [q] } := by
  refine routed_moved h rfl rfl rfl rfl ?_ h.found (fun _ hu => hu) h.lengths
  have moved : ((s.svqQueued.erase (tx, q)).map Prod.snd ++ (s.backend ++ [q])).Perm
      (s.svqQueued.map Prod.snd ++ s.backend) := by
    rw [← List.append_assoc]
    have front : ((s.svqQueued.erase (tx, q)).map Prod.snd ++ s.backend ++ [q]).Perm
        (q :: ((s.svqQueued.erase (tx, q)).map Prod.snd ++ s.backend)) :=
      List.perm_append_singleton _ _
    have back := ((List.perm_cons_erase hq).symm.map Prod.snd).append_right s.backend
    exact front.trans back
  exact (moved.append_right _).append_right _

theorem routed_reply {s : State} {q : Req} {rx : RxId} {len : Nat} (h : Routed s)
    (hq : q ∈ s.backend) :
    Routed { s with
      backend := s.backend.erase q
      rvqAvail := s.rvqAvail.erase rx
      rvqUsed := s.rvqUsed ++ [⟨rx, q, len, len⟩] } := by
  refine routed_moved h rfl rfl rfl rfl ?_ h.found (fun _ hu => hu) ⟨fun r hr => ?_, h.lengths.2⟩
  · have moved : (s.backend.erase q ++ (s.rvqUsed.map Rsp.req ++ [q])).Perm
        (s.backend ++ s.rvqUsed.map Rsp.req) := move_perm hq
    have whole := (moved.append_right (recvReqs s.recv)).append_left (s.svqQueued.map Prod.snd)
    simpa only [inFlight, List.map_append, List.map_cons, List.map_nil, List.append_assoc]
      using whole
  · rcases List.mem_append.mp hr with hold | hnew
    · exact h.lengths.1 r hold
    · obtain rfl := List.mem_singleton.mp hnew
      exact rfl

theorem routed_recvGet {s : State} {r : Rsp} {rest : List Rsp} (h : Routed s)
    (hidle : s.recv = .idle) (hused : s.rvqUsed = r :: rest) :
    Routed { s with recv := .got r, rvqUsed := rest } := by
  refine routed_moved h rfl rfl rfl rfl ?_ (fun _ _ hr => by cases hr)
    (fun _ hu => by cases hu) ⟨fun r' hr' => ?_, fun r' hr' => ?_⟩
  · simp only [inFlight, recvReqs, hidle, hused, List.map_cons, List.append_nil]
    have front : (rest.map Rsp.req ++ [r.req]).Perm (r.req :: rest.map Rsp.req) :=
      List.perm_append_singleton _ _
    rw [List.append_assoc]
    exact front.append_left _
  · exact h.lengths.1 r' (by rw [hused]; exact List.mem_cons_of_mem _ hr')
  · obtain rfl := Recv.got.inj hr'
    exact h.lengths.1 r (by rw [hused]; exact List.mem_cons_self)

/-- The lookup finds the message that sent the request: a live message owns its slot. -/
theorem recvSingle_found {s : State} {r : Rsp} (h : Routed s) (hgot : s.recv = .got r) :
    recvSingle s r = some r.req.origin := by
  have hflight : r.req ∈ inFlight s := by simp [inFlight, recvReqs, hgot]
  obtain ⟨m, hm, hid, -⟩ := h.awaits r.req hflight
  have hlen : r.len = r.hdrLen := h.lengths.2 r hgot
  rw [recvSingle, if_neg (not_not.mpr hlen), ← hid]
  exact h.slots _ m hm

theorem routed_recvLookup {s : State} {r : Rsp} (h : Routed s) (hgot : s.recv = .got r) :
    Routed { s with recv := .found r r.req.origin } := by
  refine routed_moved h rfl rfl rfl rfl ?_ ?_ (fun _ hu => by cases hu)
    ⟨h.lengths.1, fun _ hr => by cases hr⟩
  · simp only [inFlight, recvReqs, hgot]
    exact List.Perm.refl _
  · intro r' uid hr
    obtain ⟨rfl, rfl⟩ := Recv.found.inj hr
    rfl

/-- Delivery takes the request out of flight; no other request has this origin. -/
theorem routed_recvAttach {s : State} {r : Rsp} {uid : Uid} (h : Routed s)
    (hfound : s.recv = .found r uid) :
    Routed { s.setMsg uid ((s.msgs uid).map fun m => { m with rxbuf := some r.rx }) with
      recv := .attached uid
      deliveries := (r.req.origin, uid) :: s.deliveries } := by
  obtain rfl := h.found r uid hfound
  have hflight : inFlight s =
      (s.svqQueued.map Prod.snd ++ s.backend ++ s.rvqUsed.map Rsp.req) ++ [r.req] := by
    simp [inFlight, recvReqs, hfound]
  obtain ⟨m, hm, hid, hsent, hrx⟩ := h.awaits r.req (by simp [hflight])
  rw [hm, Option.map_some]
  have hstage : ¬ (m.stage = .claimed ∨ m.stage = .built) := fun early => by
    have unsent := ((h.settled _ m hm).early early).1
    rw [hsent] at unsent
    cases unsent
  constructor
  · exact setMsg_forall (P := fun v n => s.table n.msgid = some v) (h.slots _ m hm) h.slots
  · exact setMsg_forall (P := fun v _ => v < s.nextUid) (h.known _ m hm) h.known
  · intro q hq
    have hrest : q ∈ s.svqQueued.map Prod.snd ++ s.backend ++ s.rvqUsed.map Rsp.req := by
      simpa [inFlight, recvReqs, State.setMsg] using hq
    have hne : q.origin ≠ r.req.origin := by
      intro heq
      have hnodup := h.once
      rw [hflight, List.map_append, List.nodup_append] at hnodup
      exact hnodup.2.2 _ (List.mem_map_of_mem hrest) _ (List.mem_singleton.mpr rfl) heq
    obtain ⟨n, hn, rest⟩ := h.awaits q (by rw [hflight]; exact List.mem_append_left _ hrest)
    exact ⟨n, by rw [msgs_setMsg, if_neg hne]; exact hn, rest⟩
  · have hnodup := h.once
    rw [hflight, List.map_append, List.nodup_append] at hnodup
    simpa [inFlight, recvReqs, State.setMsg] using hnodup.1
  · exact setMsg_forall (P := fun _ n => Settled n)
      ⟨fun _ => by simp, fun early => False.elim (hstage early)⟩ h.settled
  · intro r' v hr
    cases hr
  · intro v hv
    obtain rfl := Recv.attached.inj hv
    refine ⟨h.known _ m hm, fun n hn => ?_⟩
    rw [msgs_setMsg, if_pos rfl] at hn
    obtain rfl := Option.some.inj hn
    simp
  · exact ⟨h.lengths.1, fun r' hr => by cases hr⟩
  · intro p hp
    rcases List.mem_cons.mp hp with rfl | hold
    · rfl
    · exact h.delivered p hold

theorem routed_recvComplete {s : State} {uid : Uid} (h : Routed s)
    (hattached : s.recv = .attached uid) :
    Routed { s.setMsg uid ((s.msgs uid).map fun m => { m with completed := true }) with
      recv := .idle } := by
  have hflight : inFlight { s with recv := .idle } = inFlight s := by
    simp [inFlight, recvReqs, hattached]
  have idle : Routed { s with recv := .idle } :=
    routed_moved h rfl rfl rfl rfl (by rw [hflight]) (fun _ _ hr => by cases hr)
      (fun _ hu => by cases hu) ⟨h.lengths.1, fun _ hr => by cases hr⟩
  refine mapMsg_elim (P := fun t => Routed { t with recv := .idle }) idle fun m hm => ?_
  exact routed_setMsg idle hm ⟨rfl, rfl, rfl⟩
    ⟨fun _ => (h.attached uid hattached).2 m hm, (h.settled uid m hm).early⟩

theorem routed_claim {s : State} {f : FileId} {kind : Kind} {i : Nat} (h : Routed s)
    (hi : freeSlot s.table = some i) :
    Routed { s with
      table := Function.update s.table i (some s.nextUid)
      msgs := Function.update s.msgs s.nextUid
        (some ⟨f, kind, i, none, none, false, false, .claimed⟩)
      nextUid := s.nextUid + 1 } := by
  have hfree := freeSlot_none hi
  have old : ∀ v m, s.msgs v = some m → v ≠ s.nextUid := fun v m hm heq =>
    Nat.lt_irrefl _ (heq ▸ h.known v m hm)
  constructor
  · refine setMsg_forall (s := s) (by simp) fun v m hm => ?_
    have hslot := h.slots v m hm
    have hne : m.msgid ≠ i := fun heq => by
      rw [heq, hfree] at hslot
      cases hslot
    simpa [hne] using hslot
  · exact setMsg_forall (s := s) (Nat.lt_succ_self _)
      fun v m hm => Nat.lt_succ_of_lt (h.known v m hm)
  · intro q hq
    obtain ⟨m, hm, rest⟩ := h.awaits q hq
    exact ⟨m, by simpa [old _ m hm] using hm, rest⟩
  · exact h.once
  · refine setMsg_forall (s := s) ⟨fun hc => ?_, fun _ => ⟨rfl, rfl⟩⟩ h.settled
    simp [Stage.ending] at hc
  · exact h.found
  · intro v hv
    obtain ⟨hlt, hrx⟩ := h.attached v hv
    refine ⟨Nat.lt_succ_of_lt hlt, fun m hm => hrx m ?_⟩
    simpa [Nat.ne_of_lt hlt] using hm
  · exact h.lengths
  · exact h.delivered

theorem routed_send {s : State} {uid : Uid} {m k : Msg} {b : TxId} (h : Routed s)
    (hm : s.msgs uid = some m) (hbuilt : m.stage = .built) (hid : k.msgid = m.msgid)
    (hsent : k.sent = true) (hrx : k.rxbuf = m.rxbuf) (hsettled : Settled k) :
    Routed { s.setMsg uid (some k) with
      svqQueued := s.svqQueued ++ [(b, ⟨uid, m.msgid⟩)] } := by
  obtain ⟨hunsent, hnone⟩ := (h.settled uid m hm).early (Or.inr hbuilt)
  have hnew : ∀ q ∈ inFlight s, q.origin ≠ uid := by
    intro q hq heq
    obtain ⟨n, hn, -, hs, -⟩ := h.awaits q hq
    rw [heq, hm] at hn
    obtain rfl := Option.some.inj hn
    rw [hunsent] at hs
    cases hs
  have perm : (inFlight { s.setMsg uid (some k) with
      svqQueued := s.svqQueued ++ [(b, ⟨uid, m.msgid⟩)] }).Perm
      (⟨uid, m.msgid⟩ :: inFlight s) := by
    simp only [inFlight, State.setMsg, List.map_append, List.map_cons, List.map_nil]
    have front : (s.svqQueued.map Prod.snd ++ [Req.mk uid m.msgid]).Perm
        (Req.mk uid m.msgid :: s.svqQueued.map Prod.snd) := List.perm_append_singleton _ _
    exact ((front.append_right _).append_right _).append_right _
  constructor
  · exact setMsg_forall (P := fun v n => s.table n.msgid = some v)
      (hid ▸ h.slots uid m hm) h.slots
  · exact setMsg_forall (P := fun v _ => v < s.nextUid) (h.known uid m hm) h.known
  · intro q hq
    rcases List.mem_cons.mp (perm.mem_iff.mp hq) with rfl | hold
    · exact ⟨k, by rw [msgs_setMsg, if_pos rfl], hid, hsent, hrx.trans hnone⟩
    · obtain ⟨n, hn, rest⟩ := h.awaits q hold
      exact ⟨n, by rw [msgs_setMsg, if_neg (hnew q hold)]; exact hn, rest⟩
  · rw [(perm.map Req.origin).nodup_iff, List.map_cons, List.nodup_cons]
    refine ⟨fun hmem => ?_, h.once⟩
    obtain ⟨q, hq, horigin⟩ := List.mem_map.mp hmem
    exact hnew q hq horigin
  · exact setMsg_forall (P := fun _ n => Settled n) hsettled h.settled
  · exact h.found
  · intro v hv
    refine ⟨(h.attached v hv).1, fun n hn => ?_⟩
    exact setMsg_forall (P := fun v n => s.recv = .attached v → n.rxbuf ≠ none)
      (fun hu => hrx ▸ (h.attached uid hu).2 m hm) (fun v n hn hv => (h.attached v hv).2 n hn)
      v n hn hv
  · exact h.lengths
  · exact h.delivered

theorem routed_free {s : State} {uid : Uid} {m : Msg} (h : Routed s)
    (hm : s.msgs uid = some m) (hstage : m.stage = .freeing) :
    Routed (virtFreeMsg s uid m) := by
  have hgone : ∀ q ∈ inFlight s, q.origin ≠ uid := by
    intro q hq heq
    obtain ⟨n, hn, -, hs, hnone⟩ := h.awaits q hq
    rw [heq, hm] at hn
    obtain rfl := Option.some.inj hn
    exact (h.settled uid m hm).answered (Or.inr ⟨by rw [hstage]; rfl, hs⟩) hnone
  have hslot := h.slots uid m hm
  constructor
  · intro v n hn
    obtain ⟨hv, hold⟩ := virtFreeMsg_live hn
    have hother := h.slots v n hold
    have hne : n.msgid ≠ m.msgid := fun heq => by
      rw [heq, hslot] at hother
      exact hv (Option.some.inj hother).symm
    simpa [virtFreeMsg, hslot, hne] using hother
  · exact fun v n hn => h.known v n (virtFreeMsg_live hn).2
  · intro q hq
    obtain ⟨n, hn, rest⟩ := h.awaits q hq
    refine ⟨n, ?_, rest⟩
    simpa [virtFreeMsg, hgone q hq] using hn
  · exact h.once
  · exact fun v n hn => h.settled v n (virtFreeMsg_live hn).2
  · exact h.found
  · exact fun v hv =>
      ⟨(h.attached v hv).1, fun n hn => (h.attached v hv).2 n (virtFreeMsg_live hn).2⟩
  · exact h.lengths
  · exact h.delivered

theorem routed_txQueue {s : State} (h : Routed s) (last : Nat) (used : List TxId) :
    Routed { s with lastSbuf := last, svqUsed := used } :=
  ⟨h.slots, h.known, h.awaits, h.once, h.settled, h.found, h.attached, h.lengths, h.delivered⟩

/-- A message that is given up has been answered or was never sent. -/
theorem givenUp_answered {s : State} {uid : Uid} {m : Msg} {a : Action} (h : Routed s)
    (hm : s.msgs uid = some m) (ok : ∀ v, a = .closeTake v → m.rxbuf ≠ none)
    (givenUp : GivenUp a m) (hsent : m.sent = true) : m.rxbuf ≠ none := by
  have settled := h.settled uid m hm
  have early : m.stage = .claimed ∨ m.stage = .built → m.rxbuf ≠ none := fun he => by
    rw [(settled.early he).1] at hsent
    cases hsent
  rcases givenUp with hs | ⟨hs, -⟩ | ⟨-, hc | ⟨v, hv⟩⟩ | hs
  · exact early (Or.inl hs)
  · exact early (Or.inr hs)
  · exact settled.answered (Or.inl hc)
  · exact ok v hv
  · exact settled.answered (Or.inr ⟨by rw [hs]; rfl, hsent⟩)

theorem routed_restage {s : State} {uid : Uid} {m k : Msg} {a : Action} (h : Routed s)
    (hm : s.msgs uid = some m) (ok : ∀ v, a = .closeTake v → m.rxbuf ≠ none)
    (restaged : Restaged a m k) : Routed (s.setMsg uid (some k)) := by
  refine routed_setMsg h hm ⟨restaged.msgid, restaged.sent, restaged.rxbuf⟩ ⟨?_, ?_⟩
  · rw [restaged.rxbuf, restaged.sent]
    rintro (hc | ⟨he, hs⟩)
    · exact (h.settled uid m hm).answered (Or.inl (restaged.completed hc))
    · exact givenUp_answered h hm ok (restaged.givenUp he) hs
  · rintro (he | he)
    · exact False.elim (restaged.late.1 he)
    · exact False.elim (restaged.late.2 he)

theorem ownerMoves_routed {s t : State} {uid : Uid} {m : Msg} {a : Action} (h : Routed s)
    (hm : s.msgs uid = some m) (ok : ∀ v, a = .closeTake v → m.rxbuf ≠ none)
    (moves : OwnerMoves s uid m a t) : Routed t := by
  have settled := h.settled uid m hm
  have answered : m.completed = true → m.rxbuf ≠ none := fun hc => settled.answered (Or.inl hc)
  cases moves with
  | takeTx stage taken =>
    obtain ⟨last, used, rfl⟩ := getATxBuf_some taken
    refine routed_setMsg (routed_txQueue h last used) hm ⟨rfl, rfl, rfl⟩
      ⟨?_, fun _ => settled.early (Or.inl stage)⟩
    rintro (hc | ⟨he, -⟩)
    · exact answered hc
    · cases he
  | restage restaged => exact routed_restage h hm ok restaged
  | send stage txbuf =>
    obtain ⟨hnot, hclaimed, hbuilt⟩ := outstanding_late (sentStage_outstanding m.kind)
    refine routed_send h hm stage rfl rfl rfl ⟨?_, fun early => ?_⟩
    · rintro (hc | ⟨he, -⟩)
      · exact answered hc
      · exact absurd he (by simp [hnot])
    · exact False.elim (early.elim hclaimed hbuilt)
  | giveBack stage rxbuf action =>
    have given : Routed (s.setMsg uid (some { m with stage := .freeing })) :=
      routed_setMsg h hm ⟨rfl, rfl, rfl⟩ ⟨fun _ => by simp [rxbuf], by simp⟩
    exact ⟨given.slots, given.known, given.awaits, given.once, given.settled, given.found,
      given.attached, given.lengths, given.delivered⟩
  | free stage => exact routed_free h hm stage

theorem recvMoves_routed {s t : State} (h : Routed s) (moves : RecvMoves s t) : Routed t := by
  cases moves with
  | get idle used => exact routed_recvGet h idle used
  | found got lookup =>
    rw [recvSingle_found h got] at lookup
    obtain rfl := Option.some.inj lookup
    exact routed_recvLookup h got
  | rejected got lookup =>
    rw [recvSingle_found h got] at lookup
    cases lookup
  | attach found => exact routed_recvAttach h found
  | complete attached => exact routed_recvComplete h attached

theorem routed_files {s : State} (h : Routed s) (files : FileId → FileStatus) :
    Routed { s with files := files } :=
  ⟨h.slots, h.known, h.awaits, h.once, h.settled, h.found, h.attached, h.lengths, h.delivered⟩

theorem step_routed {s t : State} {a : Action} (h : Routed s) (ok : Answered s a)
    (hstep : step s a = some t) : Routed t := by
  cases step_moves hstep with
  | files files => exact routed_files h files
  | claim slot => exact routed_claim h slot
  | consume queued => exact routed_consume h queued
  | reply taken avail => exact routed_reply h taken
  | owner owned live moves =>
    refine ownerMoves_routed h live (fun v hv => ?_) moves
    subst hv
    obtain rfl := Option.some.inj owned
    exact ok _ live
  | recv moves => exact recvMoves_routed h moves

/-- In every run in which files are only drained of answered messages, each accepted
response is attached to the message whose request it answers. -/
theorem responses_routed (numBufs : Nat) (as : List Action) (s : State)
    (along : Along step Answered (State.probed numBufs) as)
    (run : exec step (State.probed numBufs) as = some s) :
    ∀ p ∈ s.deliveries, p.1 = p.2 :=
  (exec_invariant_along Answered (fun _ _ _ hi ok hs => step_routed hi ok hs)
    (probed_routed numBufs) along run).delivered

/-- An invoke is sent, interrupted, answered, and taken by the close of its file. -/
def answeredRun : List Action :=
  [.openFile 0, .claim 0 .invoke, .getTx 0, .send 0, .consume 0 ⟨0, 0⟩, .interrupt 0 true,
    .reply ⟨0, 0⟩ 0 610, .recvGet, .recvLookup, .recvAttach, .recvComplete,
    .closeBegin 0, .drainBegin 0]

theorem answeredRun_along : Along step Answered (State.probed 2)
    (answeredRun ++ [.closeTake 0, .giveBack 0 true, .free 0]) := by
  refine along_append (along_of_forall (fun a ha s => ?_) _) rfl (along_cons ?_ rfl ?_)
  · simp only [answeredRun, List.mem_cons, List.not_mem_nil, or_false] at ha
    rcases ha with rfl | rfl | rfl | rfl | rfl | rfl | rfl | rfl | rfl | rfl | rfl | rfl | rfl <;>
      trivial
  · intro m hm
    obtain rfl := Option.some.inj hm
    simp
  · exact along_cons trivial rfl (along_cons trivial rfl trivial)

theorem answeredRun_routed : ∃ s, exec step (State.probed 2)
      (answeredRun ++ [.closeTake 0, .giveBack 0 true, .free 0]) = some s ∧
    (0, 0) ∈ s.deliveries ∧ ∀ p ∈ s.deliveries, p.1 = p.2 :=
  ⟨_, rfl, List.mem_cons_self, responses_routed 2 _ _ answeredRun_along rfl⟩

/-- An interrupted invoke is freed by the close of its file while its request is with the
back end. -/
def abandonedRun : List Action :=
  [.openFile 0, .claim 0 .invoke, .getTx 0, .send 0, .consume 0 ⟨0, 0⟩, .interrupt 0 true,
    .closeBegin 0, .drainBegin 0, .closeTake 0, .giveBack 0 true, .free 0]

/-- The response to the freed message is attached to the next one, which has its slot. -/
theorem abandoned_response_misrouted : ∃ s, exec step (State.probed 2)
      (abandonedRun ++ [.openFile 1, .claim 1 .invoke, .getTx 1, .send 1, .reply ⟨0, 0⟩ 0 610,
        .recvGet, .recvLookup, .recvAttach]) = some s ∧
    ∃ p ∈ s.deliveries, p.1 ≠ p.2 :=
  ⟨_, rfl, (0, 1), List.mem_cons_self, by decide⟩

end MessageDelivery
