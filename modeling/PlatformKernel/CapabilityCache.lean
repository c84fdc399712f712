import PlatformKernel.ProcessAccess

/-!
# The capability cache under concurrent queries

`vfastrpc_get_info_from_kernel` takes no lock. Here GET_DSP_INFO is cut at every
access to the shared channel entry, and any number of calls interleave with each
other and with GETINFO. The cache is indexed by the domain the caller names; the
query message carries the domain the file is bound to. What is cached is genuine
exactly as long as the two agree for every query that is sent.
-/

namespace CapabilityCache

open GuardedRuns ControlPlane ProcessAccess ReturnCodes

abbrev CallId := Nat

/-- Progress of a GET_DSP_INFO call that found its channel uncached. `waiting q`
has sent a message whose domain field is `q`; the later points follow the writes. -/
inductive Pc where
  | asking
  | waiting (q : UInt32)
  | copied
  | unsignedSet
  | asyncSet
  deriving DecidableEq

def Pc.rank : Pc → Nat
  | .asking => 0
  | .waiting _ => 1
  | .copied => 2
  | .unsignedSet => 3
  | .asyncSet => 4

structure Call where
  file : FileId
  domain : UInt32
  pc : Pc
  deriving DecidableEq

/-- `replies` is history: the domain field of each answered query and its answer. -/
structure State where
  drv : Driver
  calls : CallId → Option Call
  nextCall : CallId
  replies : List (UInt32 × Caps)

def State.chan (s : State) (d : UInt32) : ChannelCtx := s.drv.channel d.toNat

def State.setChan (s : State) (d : UInt32) (chan : ChannelCtx) : State :=
  { s with drv := { s.drv with channel := Function.update s.drv.channel d.toNat chan } }

def State.setCall (s : State) (c : CallId) (k : Option Call) : State :=
  { s with calls := Function.update s.calls c k }

def State.probed (ids : SharedIds) (numChannels : UInt32) (debugfsRoot : Bool)
    (memory : Int → ChannelCtx) : State where
  drv := Driver.probed ids numChannels debugfsRoot memory
  calls := fun _ => none
  nextCall := 0
  replies := []

/-- The domain field of the message: `vfl->domain` converted to unsigned. -/
def u32OfInt (x : Int) : UInt32 := UInt32.ofNat (x % 2 ^ 32).toNat

inductive Action where
  | openFile (minor : DevMinor) (cur : Process)
  | getInfo (f : FileId) (cur : Process) (info : UInt32) (out : DebugOutcome)
  | release (f : FileId)
  | begin (f : FileId) (cap : Capability)
  | send (c : CallId)
  | fail (c : CallId)
  | reply (c : CallId) (caps : Caps)
  | setUnsigned (c : CallId)
  | forceAsync (c : CallId)
  | setCached (c : CallId)

/-- `begin` is enabled when the call will query the back end; the other branches of
`vfastrpc_get_info_from_kernel` change nothing. `fail` is any failure of
`virt_fastrpc_get_dsp_info`: no message, no send, or a nonzero result. -/
def step (ids : SharedIds) (s : State) : Action → Option State
  | .openFile minor cur =>
    (ControlPlane.step ids s.drv (.openFile minor cur)).map fun drv => { s with drv := drv }
  | .getInfo f cur info out =>
    (ControlPlane.step ids s.drv (.ioctl f cur (.getInfo (some info) out))).map
      fun drv => { s with drv := drv }
  | .release f =>
    (ControlPlane.step ids s.drv (.release f)).map fun drv => { s with drv := drv }
  | .begin f cap =>
    if (s.drv.files f).isSome ∧ cap.domain < s.drv.numChannels ∧
        cap.attributeId.toNat < ids.maxAttributes ∧
        cap.attributeId.toNat < ids.maxDspAttributes ∧
        (s.chan cap.domain).isCached = false then
      some { s with
        calls := Function.update s.calls s.nextCall (some ⟨f, cap.domain, .asking⟩)
        nextCall := s.nextCall + 1 }
    else none
  | .send c =>
    match s.calls c with
    | some ⟨f, d, .asking⟩ =>
      (s.drv.files f).map fun x => s.setCall c (some ⟨f, d, .waiting (u32OfInt x.domain)⟩)
    | _ => none
  | .fail c =>
    match s.calls c with
    | some ⟨_, _, .asking⟩ => some (s.setCall c none)
    | some ⟨_, _, .waiting _⟩ => some (s.setCall c none)
    | _ => none
  | .reply c caps =>
    match s.calls c with
    | some ⟨f, d, .waiting q⟩ =>
      some { (s.setChan d ((s.chan d).storeCaps caps)).setCall c (some ⟨f, d, .copied⟩) with
        replies := (q, caps) :: s.replies }
    | _ => none
  | .setUnsigned c =>
    match s.calls c with
    | some ⟨f, d, .copied⟩ =>
      some ((s.setChan d (s.chan d).setUnsigned).setCall c (some ⟨f, d, .unsignedSet⟩))
    | _ => none
  | .forceAsync c =>
    match s.calls c with
    | some ⟨f, d, .unsignedSet⟩ =>
      some ((s.setChan d ((s.chan d).forceAsync ids)).setCall c (some ⟨f, d, .asyncSet⟩))
    | _ => none
  | .setCached c =>
    match s.calls c with
    | some ⟨_, d, .asyncSet⟩ => some ((s.setChan d (s.chan d).setCached).setCall c none)
    | _ => none

-- Small lemmas about the two updates.

theorem domain_cast_ne {d e : UInt32} (h : e ≠ d) : (e.toNat : Int) ≠ d.toNat := by
  intro he
  exact h (UInt32.toNat_inj.mp (by exact_mod_cast he))

@[simp] theorem chan_setChan_self (s : State) (d : UInt32) (chan : ChannelCtx) :
    (s.setChan d chan).chan d = chan := by
  simp [State.chan, State.setChan]

theorem chan_setChan_ne (s : State) {d e : UInt32} (chan : ChannelCtx) (h : e ≠ d) :
    (s.setChan d chan).chan e = s.chan e := by
  simp [State.chan, State.setChan, domain_cast_ne h]

/-- Some call on the domain has reached the given point, or has filled the cache. -/
def Reached (s : State) (r : Nat) (d : UInt32) : Prop :=
  (d < s.drv.numChannels ∧ (s.chan d).isCached = true) ∨
    ∃ c k, s.calls c = some k ∧ k.domain = d ∧ r ≤ k.pc.rank

/-- A call is between its `memcpy` and its update of `unsigned_support`. -/
def Updating (s : State) (d : UInt32) : Prop :=
  ∃ c k, s.calls c = some k ∧ k.domain = d ∧ k.pc = .copied

def AttrsFrom (ids : SharedIds) (s : State) (d : UInt32) (caps : Caps) : Prop :=
  (d, caps) ∈ s.replies ∧
    ∀ i, i ≠ ids.asyncFastrpcCap → (s.chan d).dspAttributes i = caps i

def UnsignedFrom (s : State) (d : UInt32) (caps : Caps) : Prop :=
  (d, caps) ∈ s.replies ∧ (s.chan d).unsignedSupport = (caps unsignedPdSupport != 0)

def Synced (s : State) (d : UInt32) : Prop :=
  (s.chan d).unsignedSupport = ((s.chan d).dspAttributes unsignedPdSupport != 0)

structure Genuine (ids : SharedIds) (s : State) : Prop where
  known : ∀ c k, s.calls c = some k → c < s.nextCall
  asked : ∀ c k q, s.calls c = some k → k.pc = .waiting q → q = k.domain
  attrs : ∀ d, Reached s 2 d → ∃ caps, AttrsFrom ids s d caps
  marked : ∀ d, Reached s 3 d → ∃ caps, UnsignedFrom s d caps
  synced : ∀ d, Reached s 3 d → Synced s d ∨ Updating s d

/-- A query is sent only for the domain its file is bound to. -/
def AsksOwnDomain (s : State) : Action → Prop
  | .send c => ∀ k x, s.calls c = some k → s.drv.files k.file = some x →
      x.domain = intOfU32 k.domain
  | _ => True

theorem u32OfInt_intOfU32 (x : UInt32) : u32OfInt (intOfU32 x) = x := by
  have bound := x.toNat_lt
  have hmod : (intOfU32 x % 2 ^ 32).toNat = x.toNat := by
    unfold intOfU32
    split_ifs with small <;> omega
  rw [u32OfInt, hmod, UInt32.ofNat_toNat]

theorem reached_mono {s : State} {q r : Nat} {d : UInt32} (hqr : q ≤ r)
    (h : Reached s r d) : Reached s q d := by
  rcases h with cached | ⟨c, k, hk, hd, hr⟩
  · exact Or.inl cached
  · exact Or.inr ⟨c, k, hk, hd, Nat.le_trans hqr hr⟩

theorem reached_of_setCall {s : State} {c : CallId} {k' : Option Call} {r : Nat} {d : UInt32}
    (h : Reached (s.setCall c k') r d) :
    Reached s r d ∨ ∃ k, k' = some k ∧ k.domain = d ∧ r ≤ k.pc.rank := by
  rcases h with cached | ⟨e, k, hk, hd, hr⟩
  · exact Or.inl (Or.inl cached)
  · change Function.update s.calls c k' e = some k at hk
    by_cases he : e = c
    · subst he
      rw [Function.update_self] at hk
      exact Or.inr ⟨k, hk, hd, hr⟩
    · rw [Function.update_of_ne he] at hk
      exact Or.inl (Or.inr ⟨e, k, hk, hd, hr⟩)

theorem updating_setCall {s : State} {c : CallId} {d : UInt32} (k' : Option Call)
    (h : Updating s d) (other : ∀ k, s.calls c = some k → k.pc ≠ .copied ∨ k.domain ≠ d) :
    Updating (s.setCall c k') d := by
  obtain ⟨e, k, hk, hd, hpc⟩ := h
  have he : e ≠ c := by
    rintro rfl
    rcases other k hk with hne | hne
    · exact hne hpc
    · exact hne hd
  refine ⟨e, k, ?_, hd, hpc⟩
  change Function.update s.calls c k' e = some k
  rwa [Function.update_of_ne he]

theorem reached_setChan {s : State} {d e : UInt32} {chan : ChannelCtx} {r : Nat}
    (same : chan.isCached = (s.chan d).isCached) (h : Reached (s.setChan d chan) r e) :
    Reached s r e := by
  rcases h with ⟨hrange, cached⟩ | call
  · refine Or.inl ⟨hrange, ?_⟩
    by_cases he : e = d
    · subst he
      rwa [chan_setChan_self, same] at cached
    · rwa [chan_setChan_ne s chan he] at cached
  · exact Or.inr call

theorem known_setCall {ids : SharedIds} {s : State} (h : Genuine ids s) {c : CallId}
    {k : Call} (old : s.calls c = some k) (k' : Option Call) (e : CallId) (j : Call)
    (hj : (s.setCall c k').calls e = some j) : e < s.nextCall := by
  change Function.update s.calls c k' e = some j at hj
  by_cases he : e = c
  · exact he ▸ h.known c k old
  · rw [Function.update_of_ne he] at hj
    exact h.known e j hj

theorem asked_setCall {ids : SharedIds} {s : State} (h : Genuine ids s) {c : CallId}
    {k' : Option Call} (new : ∀ k q, k' = some k → k.pc = .waiting q → q = k.domain)
    (e : CallId) (j : Call) (q : UInt32) (hj : (s.setCall c k').calls e = some j)
    (hpc : j.pc = .waiting q) : q = j.domain := by
  change Function.update s.calls c k' e = some j at hj
  by_cases he : e = c
  · subst he
    rw [Function.update_self] at hj
    exact new j q hj hpc
  · rw [Function.update_of_ne he] at hj
    exact h.asked e j q hj hpc

theorem genuine_drv {ids : SharedIds} {s : State} (h : Genuine ids s) {drv : Driver}
    (hchannel : drv.channel = s.drv.channel) (hnum : drv.numChannels = s.drv.numChannels) :
    Genuine ids { s with drv := drv } := by
  have hchan : ∀ d, State.chan { s with drv := drv } d = s.chan d := by
    intro d
    simp [State.chan, hchannel]
  have hreached : ∀ r d, Reached { s with drv := drv } r d → Reached s r d := by
    intro r d hr
    simpa only [Reached, hchan, hnum] using hr
  refine ⟨h.known, h.asked, ?_, ?_, ?_⟩
  · intro d hr
    simpa only [AttrsFrom, hchan] using h.attrs d (hreached 2 d hr)
  · intro d hr
    simpa only [UnsignedFrom, hchan] using h.marked d (hreached 3 d hr)
  · intro d hr
    simpa only [Synced, Updating, hchan] using h.synced d (hreached 3 d hr)

/-- A call that has not copied anything yet may move or end freely. -/
theorem genuine_setCall {ids : SharedIds} {s : State} (h : Genuine ids s) {c : CallId}
    {k : Call} (old : s.calls c = some k) (early : k.pc.rank < 2) (k' : Option Call)
    (later : ∀ j, k' = some j → j.pc.rank < 2)
    (asks : ∀ j q, k' = some j → j.pc = .waiting q → q = j.domain) :
    Genuine ids (s.setCall c k') := by
  have hreached : ∀ r d, 2 ≤ r → Reached (s.setCall c k') r d → Reached s r d := by
    intro r d hr hreach
    rcases reached_of_setCall hreach with before | ⟨j, hj, -, hrank⟩
    · exact before
    · have := later j hj
      omega
  refine ⟨known_setCall h old k', asked_setCall h asks, ?_, ?_, ?_⟩
  · intro d hr
    exact h.attrs d (hreached 2 d (by omega) hr)
  · intro d hr
    exact h.marked d (hreached 3 d (by omega) hr)
  · intro d hr
    rcases h.synced d (hreached 3 d (by omega) hr) with synced | updating
    · exact Or.inl synced
    · refine Or.inr (updating_setCall k' updating ?_)
      intro j hj
      obtain rfl := Option.some.inj (old.symm.trans hj)
      refine Or.inl ?_
      intro hpc
      rw [hpc] at early
      simp [Pc.rank] at early

theorem genuine_begin {ids : SharedIds} {s : State} (h : Genuine ids s) (f : FileId)
    (d : UInt32) :
    Genuine ids { s with
      calls := Function.update s.calls s.nextCall (some ⟨f, d, .asking⟩)
      nextCall := s.nextCall + 1 } := by
  have fresh : ∀ k, s.calls s.nextCall = some k → False := fun k hk =>
    Nat.lt_irrefl _ (h.known _ k hk)
  have hreached : ∀ r e, 2 ≤ r → Reached (s.setCall s.nextCall (some ⟨f, d, .asking⟩)) r e →
      Reached s r e := by
    intro r e hr hreach
    rcases reached_of_setCall hreach with before | ⟨k, hk, -, hrank⟩
    · exact before
    · obtain rfl := Option.some.inj hk
      simp only [Pc.rank] at hrank
      omega
  refine ⟨?_, ?_, ?_, ?_, ?_⟩
  · intro c k hk
    by_cases hc : c = s.nextCall
    · exact hc ▸ Nat.lt_succ_self _
    · simp only [Function.update_of_ne hc] at hk
      exact Nat.lt_succ_of_lt (h.known c k hk)
  · refine asked_setCall (c := s.nextCall) h ?_
    intro k q hk hpc
    obtain rfl := Option.some.inj hk
    cases hpc
  · intro e hr
    exact h.attrs e (hreached 2 e (by omega) hr)
  · intro e hr
    exact h.marked e (hreached 3 e (by omega) hr)
  · intro e hr
    rcases h.synced e (hreached 3 e (by omega) hr) with synced | updating
    · exact Or.inl synced
    · exact Or.inr (updating_setCall (c := s.nextCall) _ updating
        fun k hk => False.elim (fresh k hk))

/-- A call on domain `d` writes its channel entry, records what it was told, and
moves to its next point. -/
def State.advance (s : State) (c : CallId) (d : UInt32) (chan : ChannelCtx)
    (k' : Option Call) (told : List (UInt32 × Caps)) : State :=
  { (s.setChan d chan).setCall c k' with replies := told ++ s.replies }

section Advance

variable {ids : SharedIds} {s : State} {c : CallId} {k : Call} {chan : ChannelCtx}
variable {k' : Option Call} {told : List (UInt32 × Caps)} {d : UInt32}

theorem advance_chan_self : (s.advance c d chan k' told).chan d = chan :=
  chan_setChan_self s d chan

theorem advance_chan_ne {e : UInt32} (he : e ≠ d) :
    (s.advance c d chan k' told).chan e = s.chan e :=
  chan_setChan_ne s chan he

/-- Reaching a point on the updated domain: the call itself did, or it held before. -/
theorem advance_reached {r : Nat} {e : UInt32}
    (cached : chan.isCached = (s.chan d).isCached)
    (h : Reached (s.advance c d chan k' told) r e) :
    Reached s r e ∨ ∃ j, k' = some j ∧ j.domain = e ∧ r ≤ j.pc.rank := by
  rcases reached_of_setCall (s := s.setChan d chan) h with before | new
  · exact Or.inl (reached_setChan cached before)
  · exact Or.inr new

/-- Other domains do not notice; for its own domain a call owes three facts. -/
theorem genuine_advance (h : Genuine ids s) (old : s.calls c = some k)
    (stay : ∀ j, k' = some j → j.domain = k.domain ∧ ∀ q, j.pc ≠ .waiting q)
    (attrs : Reached (s.advance c k.domain chan k' told) 2 k.domain →
      ∃ caps, AttrsFrom ids (s.advance c k.domain chan k' told) k.domain caps)
    (marked : Reached (s.advance c k.domain chan k' told) 3 k.domain →
      ∃ caps, UnsignedFrom (s.advance c k.domain chan k' told) k.domain caps)
    (synced : Reached (s.advance c k.domain chan k' told) 3 k.domain →
      Synced (s.advance c k.domain chan k' told) k.domain ∨
        Updating (s.advance c k.domain chan k' told) k.domain) :
    Genuine ids (s.advance c k.domain chan k' told) := by
  have hchan : ∀ e, e ≠ k.domain → (s.advance c k.domain chan k' told).chan e = s.chan e :=
    fun e he => advance_chan_ne he
  have hreached : ∀ r e, e ≠ k.domain → Reached (s.advance c k.domain chan k' told) r e →
      Reached s r e := by
    intro r e he hr
    rcases reached_of_setCall (s := s.setChan k.domain chan) hr with before | ⟨j, hj, hd, -⟩
    · rcases before with ⟨hrange, hcached⟩ | call
      · exact Or.inl ⟨hrange, by rwa [chan_setChan_ne s chan he] at hcached⟩
      · exact Or.inr call
    · exact False.elim (he (hd.symm.trans (stay j hj).1))
  refine ⟨known_setCall h old k', ?_, ?_, ?_, ?_⟩
  · refine asked_setCall (c := c) h ?_
    intro j q hj hpc
    exact False.elim ((stay j hj).2 q hpc)
  · intro e hr
    by_cases he : e = k.domain
    · exact he ▸ attrs (he ▸ hr)
    · obtain ⟨caps, hmem, hsame⟩ := h.attrs e (hreached 2 e he hr)
      exact ⟨caps, List.mem_append_right told hmem, by rwa [hchan e he]⟩
  · intro e hr
    by_cases he : e = k.domain
    · exact he ▸ marked (he ▸ hr)
    · obtain ⟨caps, hmem, hsame⟩ := h.marked e (hreached 3 e he hr)
      exact ⟨caps, List.mem_append_right told hmem, by rwa [hchan e he]⟩
  · intro e hr
    by_cases he : e = k.domain
    · exact he ▸ synced (he ▸ hr)
    · rcases h.synced e (hreached 3 e he hr) with same | updating
      · exact Or.inl (by rwa [Synced, hchan e he])
      · refine Or.inr (updating_setCall (s := s.setChan k.domain chan) k' updating ?_)
        intro j hj
        obtain rfl := Option.some.inj (old.symm.trans hj)
        exact Or.inr (fun hd => he hd.symm)

theorem genuine_reply (h : Genuine ids s) {f : FileId} {q : UInt32}
    (old : s.calls c = some ⟨f, d, .waiting q⟩) (caps : Caps) :
    Genuine ids (s.advance c d ((s.chan d).storeCaps caps) (some ⟨f, d, .copied⟩)
      [(q, caps)]) := by
  have hq : q = d := h.asked c _ q old rfl
  subst hq
  refine genuine_advance h old ?_ ?_ ?_ ?_
  · intro j hj
    obtain rfl := Option.some.inj hj
    exact ⟨rfl, fun q hpc => by cases hpc⟩
  · intro _
    refine ⟨caps, List.mem_append_left _ List.mem_cons_self, ?_⟩
    intro i _
    simp [advance_chan_self, ChannelCtx.storeCaps]
  · intro hr
    have cached : ((s.chan q).storeCaps caps).isCached = (s.chan q).isCached := rfl
    rcases advance_reached cached hr with before | ⟨j, hj, -, hrank⟩
    · obtain ⟨old, hmem, hsame⟩ := h.marked _ before
      refine ⟨old, List.mem_append_right _ hmem, ?_⟩
      simpa [advance_chan_self, ChannelCtx.storeCaps] using hsame
    · obtain rfl := Option.some.inj hj
      simp [Pc.rank] at hrank
  · intro _
    exact Or.inr ⟨c, _, Function.update_self _ _ _, rfl, rfl⟩

theorem genuine_setUnsigned (h : Genuine ids s) {f : FileId}
    (old : s.calls c = some ⟨f, d, .copied⟩) :
    Genuine ids (s.advance c d (s.chan d).setUnsigned (some ⟨f, d, .unsignedSet⟩) []) := by
  have here : Reached s 2 d := Or.inr ⟨c, _, old, rfl, Nat.le_refl _⟩
  obtain ⟨caps, hmem, hsame⟩ := h.attrs d here
  refine genuine_advance h old ?_ ?_ ?_ ?_
  · intro j hj
    obtain rfl := Option.some.inj hj
    exact ⟨rfl, fun q hpc => by cases hpc⟩
  · intro _
    refine ⟨caps, hmem, ?_⟩
    intro i hi
    simpa [advance_chan_self, ChannelCtx.setUnsigned] using hsame i hi
  · intro _
    refine ⟨caps, hmem, ?_⟩
    have hentry := hsame unsignedPdSupport (fun he => ids.async_ne_unsigned he.symm)
    simp [advance_chan_self, ChannelCtx.setUnsigned, hentry]
  · intro _
    exact Or.inl (by simp [Synced, advance_chan_self, ChannelCtx.setUnsigned])

/-- The last two writes change neither what is recorded about the back end nor
the agreement of the two entries. -/
theorem genuine_finish (h : Genuine ids s) (k' : Option Call) {f : FileId} {pc : Pc}
    (late : 3 ≤ pc.rank) (old : s.calls c = some ⟨f, d, pc⟩)
    (stay : ∀ j, k' = some j → j.domain = d ∧ ∀ q, j.pc ≠ .waiting q)
    (attrs : ∀ i, i ≠ ids.asyncFastrpcCap → chan.dspAttributes i = (s.chan d).dspAttributes i)
    (support : chan.unsignedSupport = (s.chan d).unsignedSupport) :
    Genuine ids (s.advance c d chan k' []) := by
  have here : Reached s 3 d := Or.inr ⟨c, _, old, rfl, late⟩
  refine genuine_advance h old stay ?_ ?_ ?_
  · intro _
    obtain ⟨caps, hmem, hsame⟩ := h.attrs d (reached_mono (by omega) here)
    refine ⟨caps, hmem, ?_⟩
    intro i hi
    rw [advance_chan_self, attrs i hi, hsame i hi]
  · intro _
    obtain ⟨caps, hmem, hsame⟩ := h.marked d here
    exact ⟨caps, hmem, by rw [advance_chan_self, support, hsame]⟩
  · intro _
    rcases h.synced d here with synced | updating
    · have hentry := attrs unsignedPdSupport (fun he => ids.async_ne_unsigned he.symm)
      exact Or.inl (by rw [Synced, advance_chan_self, support, hentry]; exact synced)
    · refine Or.inr (updating_setCall (s := s.setChan d chan) k' updating ?_)
      intro j hj
      obtain rfl := Option.some.inj (old.symm.trans hj)
      refine Or.inl ?_
      rintro rfl
      simp [Pc.rank] at late

end Advance

theorem probed_genuine (ids : SharedIds) (numChannels : UInt32) (debugfsRoot : Bool)
    (memory : Int → ChannelCtx) :
    Genuine ids (State.probed ids numChannels debugfsRoot memory) := by
  have none : ∀ r d, ¬ Reached (State.probed ids numChannels debugfsRoot memory) r d := by
    rintro r d (⟨hrange, hcached⟩ | ⟨c, k, hk, -⟩)
    · have hlt : (d.toNat : Int) < numChannels.toNat := by
        exact_mod_cast UInt32.lt_iff_toNat_lt.mp hrange
      simp only [State.probed, State.chan, Driver.probed, vfastrpcChannelInit] at hcached
      rw [if_pos ⟨Int.natCast_nonneg _, hlt⟩] at hcached
      split_ifs at hcached
    · cases hk
  refine ⟨?_, ?_, ?_, ?_, ?_⟩
  · intro c k hk; cases hk
  · intro c k q hk; cases hk
  · intro d hr; exact False.elim (none 2 d hr)
  · intro d hr; exact False.elim (none 3 d hr)
  · intro d hr; exact False.elim (none 3 d hr)

/-- The file operations leave the channel array alone. -/
theorem drv_step_channel {ids : SharedIds} {drv drv' : Driver} {a : ControlPlane.Action}
    (quiet : ∀ f cur c, a = .ioctl f cur c → ∃ info out, c = .getInfo (some info) out)
    (h : ControlPlane.step ids drv a = some drv') :
    drv'.channel = drv.channel ∧ drv'.numChannels = drv.numChannels := by
  cases a with
  | openFile minor cur =>
    obtain rfl := Option.some.inj h
    exact ⟨rfl, rfl⟩
  | ioctl f cur c =>
    obtain ⟨x, -, rfl⟩ := Option.map_eq_some_iff.mp h
    obtain ⟨info, out, rfl⟩ := quiet f cur c rfl
    exact ⟨rfl, rfl⟩
  | release f =>
    obtain ⟨x, -, rfl⟩ := Option.map_eq_some_iff.mp h
    exact ⟨rfl, rfl⟩

theorem genuine_drv_step {ids : SharedIds} {s t : State} (h : Genuine ids s)
    {a : ControlPlane.Action}
    (quiet : ∀ f cur c, a = .ioctl f cur c → ∃ info out, c = .getInfo (some info) out)
    (hstep : (ControlPlane.step ids s.drv a).map (fun drv => { s with drv := drv }) = some t) :
    Genuine ids t := by
  obtain ⟨drv, hdrv, rfl⟩ := Option.map_eq_some_iff.mp hstep
  obtain ⟨hchannel, hnum⟩ := drv_step_channel quiet hdrv
  exact genuine_drv h hchannel hnum

theorem step_genuine {ids : SharedIds} {s t : State} {a : Action} (h : Genuine ids s)
    (ok : AsksOwnDomain s a) (hstep : step ids s a = some t) : Genuine ids t := by
  cases a with
  | openFile minor cur =>
    exact genuine_drv_step (a := .openFile minor cur) h (fun _ _ _ hc => by cases hc) hstep
  | getInfo f cur info out =>
    refine genuine_drv_step (a := .ioctl f cur (.getInfo (some info) out)) h ?_ hstep
    rintro g cur' c ⟨⟩
    exact ⟨info, out, rfl⟩
  | release f =>
    exact genuine_drv_step (a := .release f) h (fun _ _ _ hc => by cases hc) hstep
  | begin f cap =>
    simp only [step] at hstep
    split_ifs at hstep
    obtain rfl := Option.some.inj hstep
    exact genuine_begin h f cap.domain
  | send c =>
    simp only [step] at hstep
    split at hstep
    · rename_i f d hk
      obtain ⟨x, hx, rfl⟩ := Option.map_eq_some_iff.mp hstep
      have own : x.domain = intOfU32 d := ok _ x hk hx
      refine genuine_setCall h hk (by simp [Pc.rank]) _ ?_ ?_
      · intro j hj
        obtain rfl := Option.some.inj hj
        simp [Pc.rank]
      · intro j q hj hpc
        obtain rfl := Option.some.inj hj
        obtain rfl := Pc.waiting.inj hpc
        rw [own, u32OfInt_intOfU32]
    · cases hstep
  | fail c =>
    simp only [step] at hstep
    split at hstep
    · rename_i hk
      obtain rfl := Option.some.inj hstep
      exact genuine_setCall h hk (by simp [Pc.rank]) none (fun j hj => by cases hj)
        (fun j q hj => by cases hj)
    · rename_i hk
      obtain rfl := Option.some.inj hstep
      exact genuine_setCall h hk (by simp [Pc.rank]) none (fun j hj => by cases hj)
        (fun j q hj => by cases hj)
    · cases hstep
  | reply c caps =>
    simp only [step] at hstep
    split at hstep
    · rename_i hk
      obtain rfl := Option.some.inj hstep
      exact genuine_reply h hk caps
    · cases hstep
  | setUnsigned c =>
    simp only [step] at hstep
    split at hstep
    · rename_i hk
      obtain rfl := Option.some.inj hstep
      exact genuine_setUnsigned h hk
    · cases hstep
  | forceAsync c =>
    simp only [step] at hstep
    split at hstep
    · rename_i f d hk
      obtain rfl := Option.some.inj hstep
      refine genuine_finish h (some ⟨f, d, .asyncSet⟩) (by simp [Pc.rank]) hk ?_ ?_ rfl
      · intro j hj
        obtain rfl := Option.some.inj hj
        exact ⟨rfl, fun q hpc => by cases hpc⟩
      · intro i hi
        simp [ChannelCtx.forceAsync, Function.update_of_ne hi]
    · cases hstep
  | setCached c =>
    simp only [step] at hstep
    split at hstep
    · rename_i hk
      obtain rfl := Option.some.inj hstep
      exact genuine_finish h none (by simp [Pc.rank]) hk (fun j hj => by cases hj)
        (fun i _ => rfl) rfl
    · cases hstep

/-- In every run whose queries are all about the domain of the querying file, a
cached entry holds what the back end answered to a query about that very domain;
one answer accounts for both fields unless an update is under way. -/
theorem cached_entry_genuine (ids : SharedIds) (numChannels : UInt32) (debugfsRoot : Bool)
    (memory : Int → ChannelCtx) (as : List Action) (s : State)
    (along : Along (step ids) AsksOwnDomain
      (State.probed ids numChannels debugfsRoot memory) as)
    (run : exec (step ids) (State.probed ids numChannels debugfsRoot memory) as = some s)
    (d : UInt32) (range : d < s.drv.numChannels) (cached : (s.chan d).isCached = true) :
    ∃ caps caps', (d, caps) ∈ s.replies ∧ (d, caps') ∈ s.replies ∧
      (∀ i, i ≠ ids.asyncFastrpcCap → (s.chan d).dspAttributes i = caps i) ∧
      (s.chan d).unsignedSupport = (caps' unsignedPdSupport != 0) ∧
      (¬ Updating s d → caps' = caps) := by
  have genuine : Genuine ids s := exec_invariant_along AsksOwnDomain
    (fun _ _ _ hi ok hs => step_genuine hi ok hs)
    (probed_genuine ids numChannels debugfsRoot memory) along run
  obtain ⟨caps, hmem, hattrs⟩ := genuine.attrs d (Or.inl ⟨range, cached⟩)
  rcases genuine.synced d (Or.inl ⟨range, cached⟩) with synced | updating
  · have hentry := hattrs unsignedPdSupport (fun he => ids.async_ne_unsigned he.symm)
    exact ⟨caps, caps, hmem, hmem, hattrs, by rw [← hentry]; exact synced, fun _ => rfl⟩
  · obtain ⟨caps', hmem', hsupport⟩ := genuine.marked d (Or.inl ⟨range, cached⟩)
    exact ⟨caps, caps', hmem, hmem', hattrs, hsupport, fun hno => False.elim (hno updating)⟩

/-- The steps of one GET_DSP_INFO call that nothing else interrupts. -/
def callSteps (f : FileId) (cap : Capability) (c : CallId) (caps : Caps) : List Action :=
  [.begin f cap, .send c, .reply c caps, .setUnsigned c, .forceAsync c, .setCached c]

def boundRun (domain : UInt32) (cap : Capability) (caps : Caps) : List Action :=
  [.openFile .dev ⟨100, 100⟩, .getInfo 0 ⟨100, 100⟩ domain ⟨true, true⟩] ++
    callSteps 0 cap 0 caps

theorem boundRun_own_domain (caps : Caps) : Along (step headerIds) AsksOwnDomain
    (State.probed headerIds 4 false zeroMemory) (boundRun 3 ⟨3, 1⟩ caps) := by
  refine along_cons trivial rfl ?_
  refine along_cons trivial rfl ?_
  refine along_cons trivial rfl ?_
  refine along_cons ?_ rfl ?_
  · intro k x hk hx
    obtain rfl := Option.some.inj hk
    obtain rfl := Option.some.inj hx
    decide
  refine along_cons trivial rfl ?_
  refine along_cons trivial rfl ?_
  refine along_cons trivial rfl ?_
  exact along_cons trivial rfl trivial

theorem boundRun_caches : ∃ s, exec (step headerIds)
      (State.probed headerIds 4 false zeroMemory) (boundRun 3 ⟨3, 1⟩ fun _ => 1) = some s ∧
    (s.chan 3).isCached = true ∧
    ∃ caps caps', (3, caps) ∈ s.replies ∧ (3, caps') ∈ s.replies ∧
      (∀ i, i ≠ headerIds.asyncFastrpcCap → (s.chan 3).dspAttributes i = caps i) ∧
      (s.chan 3).unsignedSupport = (caps' unsignedPdSupport != 0) ∧
      (¬ Updating s 3 → caps' = caps) :=
  ⟨_, rfl, rfl, cached_entry_genuine headerIds 4 false zeroMemory _ _
    (boundRun_own_domain _) rfl 3 (by decide) rfl⟩

/-- A file bound to domain 3 asks about domain 0: the answer about domain 3 is
cached as that of domain 0, and the back end was never asked about domain 0. -/
theorem foreign_answer_cached : ∃ s, exec (step headerIds)
      (State.probed headerIds 4 false zeroMemory) (boundRun 3 ⟨0, 1⟩ fun _ => 1) = some s ∧
    0 < s.drv.numChannels ∧ (s.chan 0).isCached = true ∧
    (s.chan 0).unsignedSupport = true ∧ ∀ caps, (0, caps) ∉ s.replies := by
  refine ⟨_, rfl, by decide, rfl, rfl, ?_⟩
  rintro caps (- | ⟨-, hmem⟩)
  cases hmem

/-- The small steps are those of the sequential function: a call that nothing
interrupts leaves the channel array `vfastrpc_internal_get_dsp_info` leaves. -/
theorem undisturbed_call (ids : SharedIds) (s : State) (f : FileId) (x : File)
    (cap : Capability) (caps : Caps) (hfile : s.drv.files f = some x)
    (hdomain : cap.domain < s.drv.numChannels)
    (hattribute : cap.attributeId.toNat < ids.maxAttributes)
    (hdsp : cap.attributeId.toNat < ids.maxDspAttributes)
    (huncached : (s.chan cap.domain).isCached = false) :
    ∃ t, exec (step ids) s (callSteps f cap s.nextCall caps) = some t ∧
      t.drv.channel =
        (vfastrpcInternalGetDspInfo ids s.drv.numChannels s.drv.channel cap
          (.reply 0 caps)).channel ∧
      t.replies = (u32OfInt x.domain, caps) :: s.replies := by
  have enabled : (s.drv.files f).isSome ∧ cap.domain < s.drv.numChannels ∧
      cap.attributeId.toNat < ids.maxAttributes ∧
      cap.attributeId.toNat < ids.maxDspAttributes ∧
      (s.chan cap.domain).isCached = false :=
    ⟨by rw [hfile]; rfl, hdomain, hattribute, hdsp, huncached⟩
  have hchan : (s.drv.channel cap.domain.toNat).isCached = false := huncached
  have answered : virtFastrpcGetDspInfo (.reply 0 caps) = (0, some caps) := rfl
  simp [callSteps, exec, step, enabled, hfile, State.setCall, State.setChan, State.chan,
    vfastrpcInternalGetDspInfo, vfastrpcGetInfoFromKernel, answered,
    Nat.not_le.mpr hattribute, Nat.not_le.mpr hdsp, hchan, ChannelCtx.learn]

end CapabilityCache
