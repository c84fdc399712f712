import PlatformKernel.FileCommands
import PlatformKernel.ProcessAccess

/-!
# Channels of a file

A file has a domain, which indexes the channel array, and a channel id, which the back
end returns to OPEN. The domain is -1 until GETINFO binds the file, the channel id is -1
until INIT succeeds, and nothing keeps INIT from succeeding twice. The handlers differ
in what they check: INIT does not look whether the file is bound, INVOKE and CONTROL
do not look whether the process was initialised.
-/

namespace ChannelBinding

open GuardedRuns FileCommands ReturnCodes
open ProcessAccess (headerIds zeroMemory)
open ControlPlane hiding Action step

section runs

variable {ids : SharedIds} {feat : Features} {s t : State} {a : Action}

structure Indexed (numChannels : UInt32) (s : State) : Prop where
  channels : s.drv.numChannels = numChannels
  below : ∀ f x, s.drv.files f = some x → x.domain < numChannels.toNat
  indices : ∀ d ∈ s.indices, 0 ≤ d ∧ d < numChannels.toNat

/-- INIT comes to `init_process` only on a file that is bound to a domain. -/
def BoundFirst (s : State) : Action → Prop
  | .initBegin f _ uproc _ => initLengths uproc = true →
      ∀ x, s.drv.files f = some x → 0 ≤ x.domain
  | _ => True

theorem intOfU32_le (x : UInt32) : intOfU32 x ≤ x.toNat := by
  unfold intOfU32
  split_ifs <;> omega

theorem turned_below {s : Driver} {cur : Process} {x y : File} {c : Ioctl}
    (turned : Turned s cur x c y) (h : x.domain < s.numChannels.toNat) :
    y.domain < s.numChannels.toNat := by
  cases turned with
  | setmode m => rw [(setmode_access m x).2.2.1]; exact h
  | getInfo info out =>
    rcases getInfo_domain s.numChannels s.channel s.debugfsRoot cur out info x with
      same | ⟨-, hinfo, bound, -⟩
    · rw [same]
      exact h
    · rw [bound]
      have hlt : info.toNat < s.numChannels.toNat := UInt32.lt_iff_toNat_lt.mp hinfo
      have hle := intOfU32_le info
      omega
  | same mode => exact h

theorem ioctlIndices_valid (ids : SharedIds) (s : Driver) (cur : Process) (x : File) (c : Ioctl) :
    ∀ d ∈ ioctlIndices ids s cur x c, 0 ≤ d ∧ d < s.numChannels.toNat := by
  intro d hd
  have valid : ∀ i : UInt32, i < s.numChannels →
      0 ≤ (i.toNat : Int) ∧ (i.toNat : Int) < s.numChannels.toNat := fun i hi =>
    ⟨Int.natCast_nonneg _, Int.ofNat_lt.mpr (UInt32.lt_iff_toNat_lt.mp hi)⟩
  unfold ioctlIndices at hd
  split at hd
  · dsimp only at hd
    split_ifs at hd with hcond
    · obtain rfl := List.mem_singleton.mp hd
      exact valid _ hcond.2.2
    · cases hd
  · split_ifs at hd with hcond
    · obtain rfl := List.mem_singleton.mp hd
      exact valid _ hcond.1
    · cases hd
  · cases hd

theorem initIndices_valid {n : UInt32} {uproc : InitAttrs} {x : File} (below : x.domain < n.toNat)
    (bound : initLengths uproc = true → 0 ≤ x.domain) :
    ∀ d ∈ initIndices uproc x, 0 ≤ d ∧ d < n.toNat := by
  intro d hd
  unfold initIndices at hd
  split_ifs at hd with hlen
  · obtain rfl := List.mem_singleton.mp hd
    exact ⟨bound hlen, below⟩
  · cases hd

theorem invoke2Indices_valid {n : UInt32} (ids : SharedIds) {x : File} (req : Invoke2Req)
    (below : x.domain < n.toNat) : ∀ d ∈ invoke2Indices ids x req, 0 ≤ d ∧ d < n.toNat := by
  intro d hd
  unfold invoke2Indices at hd
  split_ifs at hd with hcond
  · obtain rfl := List.mem_singleton.mp hd
    have known := hcond.2
    simp only [asyncDomain, Bool.or_eq_true, beq_iff_eq] at known
    exact ⟨by omega, below⟩
  · cases hd

theorem step_indexed {n : UInt32} (h : Indexed n s) (ok : BoundFirst s a)
    (hstep : step ids feat s a = some t) : Indexed n t := by
  obtain ⟨channels, below, indices⟩ := h
  have append : ∀ new : List Int, (∀ d ∈ new, 0 ≤ d ∧ d < n.toNat) →
      ∀ d ∈ s.indices ++ new, 0 ≤ d ∧ d < n.toNat := fun new hnew d hd =>
    (List.mem_append.mp hd).elim (indices d) (hnew d)
  cases a with
  | openFile minor cur =>
    obtain rfl := Option.some.inj hstep
    exact ⟨channels, files_forall (show (-1 : Int) < n.toNat by omega) below, indices⟩
  | control f cur c =>
    simp only [step] at hstep
    split at hstep
    · cases hstep
    rename_i kind
    obtain ⟨x, hx, rfl⟩ := Option.map_eq_some_iff.mp hstep
    obtain ⟨y, drives, turned⟩ := ioctl_drives ids cur hx (by simpa using kind)
    refine ⟨drives.numChannels.trans channels, ?_, append _ ?_⟩
    · rw [drives.files]
      exact files_forall (channels ▸ turned_below turned (channels.symm ▸ below f x hx)) below
    · exact channels ▸ ioctlIndices_valid ids s.drv cur x c
  | initBegin f cur uproc out =>
    obtain ⟨x, hx, rfl⟩ := Option.map_eq_some_iff.mp hstep
    have hdomain := (initBegin_sender s.drv.channel uproc x).domain
    have hfiles : ∀ g y, (s.drv.setFile f (initBegin s.drv.channel uproc x).1 []).files g = some y →
        y.domain < n.toNat := files_forall (hdomain ▸ below f x hx) below
    have hindices := initIndices_valid (below f x hx) fun hlen => ok hlen x hx
    dsimp only
    split
    · exact ⟨channels, hfiles, append _ hindices⟩
    · exact ⟨channels, hfiles, append _ hindices⟩
  | initEnd f own result cid =>
    simp only [step] at hstep
    split at hstep
    · obtain ⟨x, hx, rfl⟩ := Option.map_eq_some_iff.mp hstep
      refine ⟨channels, files_forall ?_ below, indices⟩
      rcases initEnd_cases result cid x with ⟨-, same⟩ | ⟨-, opened⟩
      · rw [same]
        exact below f x hx
      · rw [opened]
        exact below f x hx
    · cases hstep
  | strayAnswer f result cid =>
    simp only [step] at hstep
    split at hstep
    · obtain rfl := Option.some.inj hstep
      exact ⟨channels, below, indices⟩
    · cases hstep
  | command f cur cmd out =>
    obtain ⟨x, hx, rfl⟩ := Option.map_eq_some_iff.mp hstep
    unfold State.post
    split_ifs <;> exact ⟨channels, below, indices⟩
  | invoke2 f cur req out =>
    obtain ⟨x, hx, rfl⟩ := Option.map_eq_some_iff.mp hstep
    have hindices := invoke2Indices_valid ids req (below f x hx)
    unfold State.post
    dsimp only
    split_ifs <;> exact ⟨channels, below, append _ hindices⟩
  | release f cur out =>
    simp only [step] at hstep
    split at hstep
    · cases hstep
    · obtain ⟨x, hx, rfl⟩ := Option.map_eq_some_iff.mp hstep
      exact ⟨channels, files_released below, indices⟩

end runs

/-- In every run in which INIT comes after GETINFO bound the file, every access to the
channel array is inside it. -/
theorem channel_indices_valid (ids : SharedIds) (feat : Features) (numChannels : UInt32)
    (debugfsRoot : Bool) (memory : Int → ChannelCtx) (as : List Action) (s : State)
    (along : Along (step ids feat) BoundFirst (.probed ids numChannels debugfsRoot memory) as)
    (run : exec (step ids feat) (.probed ids numChannels debugfsRoot memory) as = some s) :
    ∀ d ∈ s.indices, 0 ≤ d ∧ d < numChannels.toNat := by
  have start : Indexed numChannels (.probed ids numChannels debugfsRoot memory) :=
    ⟨rfl, fun f x hx => (by cases hx), fun d hd => by cases hd⟩
  exact (exec_invariant_along BoundFirst (fun _ _ _ h ok hs => step_indexed h ok hs)
    start along run).indices

def allFeatures : Features := ⟨true, true, true⟩

def unsignedInit : InitAttrs := ⟨.create, 0, 0, 8⟩

/-- GETINFO, INIT and an asynchronous INVOKE2 on the CDSP. -/
def boundRun : List Action :=
  [.openFile .dev ⟨100, 100⟩, .control 0 ⟨100, 100⟩ (.getInfo (some 3) ⟨true, true⟩),
    .initBegin 0 ⟨100, 100⟩ unsignedInit .sent, .initEnd 0 true 0 7,
    .invoke2 0 ⟨100, 100⟩ .async .sent]

theorem boundRun_bound : Along (step headerIds allFeatures) BoundFirst
    (.probed headerIds 4 false zeroMemory) boundRun := by
  refine along_cons trivial rfl (along_cons trivial rfl (along_cons ?_ rfl ?_))
  · intro _ x hx
    obtain rfl := Option.some.inj hx
    decide
  · exact along_cons trivial rfl (along_cons trivial rfl trivial)

theorem boundRun_indices : ∃ s, exec (step headerIds allFeatures)
      (.probed headerIds 4 false zeroMemory) boundRun = some s ∧ s.indices = [3, 3, 3] ∧
    ∀ d ∈ s.indices, 0 ≤ d ∧ d < (4 : UInt32).toNat :=
  ⟨_, rfl, rfl, channel_indices_valid headerIds allFeatures 4 false zeroMemory boundRun _
    boundRun_bound rfl⟩

/-- INIT as the first ioctl reads the entry before the array. -/
theorem unbound_init_outside : ∃ s, exec (step headerIds allFeatures)
      (.probed headerIds 4 false zeroMemory)
      [.openFile .dev ⟨100, 100⟩, .initBegin 0 ⟨100, 100⟩ unsignedInit .sent] = some s ∧
    ∃ d ∈ s.indices, ¬ (0 ≤ d ∧ d < (4 : UInt32).toNat) :=
  ⟨_, rfl, -1, List.mem_singleton.mpr rfl, by decide⟩

/-- An initialised file has a channel that the back end opened for it, and so had the
sender of every message that carries a channel. -/
structure Routed (s : State) : Prop where
  files : ∀ f x, s.drv.files f = some x → x.dspProcInit = true →
    0 ≤ x.cid ∧ (f, x.cid) ∈ s.opened
  sent : ∀ m ∈ s.sent, m.hdr.cmd ≠ .cmdOpen → m.hdr.cmd ≠ .cmdGetDspInfo →
    0 ≤ m.hdr.cid ∧ (m.file, m.hdr.cid) ∈ s.opened

/-- INVOKE and CONTROL go out only once the process is initialised, and it is initialised
with the answer to its own OPEN. -/
def InitFirst (s : State) : Action → Prop
  | .initEnd _ own result cid => Granted result cid → own = true
  | .command f _ cmd out => out = .sent → (cmd = .cmdInvoke ∨ cmd = .cmdControl) →
      ∀ x, s.drv.files f = some x → x.dspProcInit = true
  | .invoke2 f _ req out => out = .sent → req = .async →
      ∀ x, s.drv.files f = some x → x.dspProcInit = true
  | _ => True

section runs

variable {ids : SharedIds} {feat : Features} {s t : State} {a : Action}

theorem routed_sent (h : Routed s) {new : List Sent}
    (hnew : ∀ m ∈ new, m.hdr.cmd ≠ .cmdOpen → m.hdr.cmd ≠ .cmdGetDspInfo →
      0 ≤ m.hdr.cid ∧ (m.file, m.hdr.cid) ∈ s.opened) :
    ∀ m ∈ s.sent ++ new, m.hdr.cmd ≠ .cmdOpen → m.hdr.cmd ≠ .cmdGetDspInfo →
      0 ≤ m.hdr.cid ∧ (m.file, m.hdr.cid) ∈ s.opened :=
  List.forall_mem_append.mpr ⟨h.sent, hnew⟩

/-- The back end opens further channels. -/
theorem routed_opened (h : Routed s) {opened : List (FileId × Int)} (grows : s.opened ⊆ opened) :
    Routed { s with opened := opened } where
  files := fun f x hx hinit => (h.files f x hx hinit).imp_right fun hmem => grows hmem
  sent := fun m hm hopen hinfo => (h.sent m hm hopen hinfo).imp_right fun hmem => grows hmem

/-- A message that carries the channel of an initialised file. -/
theorem routed_post (h : Routed s) {f : FileId} {x : File} (hx : s.drv.files f = some x)
    (out : SendOutcome) (hdr : Hdr) (hcid : hdr.cid = x.cid)
    (init : out = .sent → x.dspProcInit = true) : Routed (s.post f out hdr) := by
  unfold State.post
  split_ifs with hsent
  · refine ⟨h.files, routed_sent h (List.forall_mem_singleton.mpr fun _ _ => ?_)⟩
    rw [hcid]
    exact h.files f x hx (init hsent)
  · exact h

theorem hdr_cid {cmd : Cmd} (x : File) (cur : Process) (hopen : cmd ≠ .cmdOpen)
    (hinfo : cmd ≠ .cmdGetDspInfo) : (cmd.hdr x cur).cid = x.cid := by
  cases cmd <;> first | rfl | contradiction

/-- A file takes another step without a new channel. -/
theorem routed_turned (h : Routed s) {f : FileId} {x y : File} {d : Driver}
    (hx : s.drv.files f = some x) (drives : Drives s.drv d f y)
    (hcid : y.cid = x.cid) (hinit : y.dspProcInit = x.dspProcInit) :
    ∀ g z, d.files g = some z → z.dspProcInit = true → 0 ≤ z.cid ∧ (g, z.cid) ∈ s.opened := by
  rw [drives.files]
  refine files_forall (fun hy => ?_) h.files
  rw [hcid]
  exact h.files f x hx (hinit ▸ hy)

theorem turned_channel {s : Driver} {cur : Process} {x y : File} {c : Ioctl}
    (turned : Turned s cur x c y) : y.cid = x.cid ∧ y.dspProcInit = x.dspProcInit := by
  cases turned with
  | setmode m =>
    rcases setmode_cases m x with ⟨same, -⟩ | ⟨-, session⟩
    · exact ⟨same.cid, same.dspProcInit⟩
    · rw [session]
      exact ⟨rfl, rfl⟩
  | getInfo info out =>
    obtain ⟨hcid, hinit, -, -⟩ := getInfo_sender s.numChannels s.channel s.debugfsRoot cur out
      info x
    exact ⟨hcid, hinit⟩
  | same mode => exact ⟨rfl, rfl⟩

theorem ioctlSent_cmd {ids : SharedIds} {s : Driver} {cur : Process} {x : File} {c : Ioctl}
    {h : Hdr} (hh : h ∈ ioctlSent ids s cur x c) : h = virtFastrpcGetDspInfoHdr x cur := by
  unfold ioctlSent at hh
  split at hh
  · split_ifs at hh
    · exact List.mem_singleton.mp hh
    · cases hh
  · cases hh

/-- The checks of the other handlers stand for the condition. -/
theorem accepts_init {numChannels : UInt32} {x : File} {cmd : Cmd}
    (h : accepts feat numChannels x cmd = true) :
    cmd = .cmdInvoke ∨ cmd = .cmdControl ∨ x.dspProcInit = true := by
  cases cmd <;> simp_all [accepts]

theorem accepts_carries {numChannels : UInt32} {x : File} {cmd : Cmd}
    (h : accepts feat numChannels x cmd = true) : cmd ≠ .cmdOpen ∧ cmd ≠ .cmdGetDspInfo := by
  cases cmd <;> simp_all [accepts]

theorem step_routed (h : Routed s) (ok : InitFirst s a) (hstep : step ids feat s a = some t) :
    Routed t := by
  cases a with
  | openFile minor cur =>
    obtain rfl := Option.some.inj hstep
    exact ⟨files_forall (fun hy => by cases hy) h.files, h.sent⟩
  | control f cur c =>
    simp only [step] at hstep
    split at hstep
    · cases hstep
    rename_i kind
    obtain ⟨x, hx, rfl⟩ := Option.map_eq_some_iff.mp hstep
    obtain ⟨y, drives, turned⟩ := ioctl_drives ids cur hx (by simpa using kind)
    obtain ⟨hcid, hinit⟩ := turned_channel turned
    refine ⟨routed_turned h hx drives hcid hinit, routed_sent h fun m hm => ?_⟩
    obtain ⟨hdr, hhdr, rfl⟩ := List.mem_map.mp hm
    obtain rfl := ioctlSent_cmd hhdr
    exact fun _ hinfo => False.elim (hinfo rfl)
  | initBegin f cur uproc out =>
    obtain ⟨x, hx, rfl⟩ := Option.map_eq_some_iff.mp hstep
    have same := initBegin_sender s.drv.channel uproc x
    have files := routed_turned h hx (drives_setFile s.drv f _ []) same.cid same.dspProcInit
    dsimp only
    split
    · exact ⟨files, routed_sent h (List.forall_mem_singleton.mpr fun hopen =>
        False.elim (hopen rfl))⟩
    · exact ⟨files, h.sent⟩
  | initEnd f own result cid =>
    simp only [step] at hstep
    split at hstep
    · obtain ⟨x, hx, rfl⟩ := Option.map_eq_some_iff.mp hstep
      rcases initEnd_cases result cid x with ⟨refused, same⟩ | ⟨granted, opened⟩
      · have kept : ¬ (own = true ∧ Granted result cid) := fun both => refused both.2
        rw [same, if_neg kept]
        exact ⟨files_forall (h.files f x hx) h.files, h.sent⟩
      · have booked : own = true ∧ Granted result cid := ⟨ok granted, granted⟩
        rw [opened, if_pos booked]
        have more := routed_opened h (List.subset_cons_self (f, cid) s.opened)
        exact ⟨files_forall (fun _ => ⟨granted.2, List.mem_cons_self⟩) more.files, more.sent⟩
    · cases hstep
  | strayAnswer f result cid =>
    simp only [step] at hstep
    split at hstep
    · obtain rfl := Option.some.inj hstep
      have grows : s.opened ⊆ if Granted result cid then (f, cid) :: s.opened else s.opened := by
        split_ifs
        · exact List.subset_cons_self _ _
        · exact List.Subset.refl _
      have more := routed_opened h grows
      exact ⟨more.files, more.sent⟩
    · cases hstep
  | command f cur cmd out =>
    obtain ⟨x, hx, rfl⟩ := Option.map_eq_some_iff.mp hstep
    split
    · rename_i hacc
      obtain ⟨hopen, hinfo⟩ := accepts_carries hacc
      refine routed_post h hx out _ (hdr_cid x cur hopen hinfo) fun hsent => ?_
      rcases accepts_init hacc with hcmd | hcmd | hinit
      · exact ok hsent (Or.inl hcmd) x hx
      · exact ok hsent (Or.inr hcmd) x hx
      · exact hinit
    · exact h
  | invoke2 f cur req out =>
    obtain ⟨x, hx, rfl⟩ := Option.map_eq_some_iff.mp hstep
    have base : Routed { s with indices := s.indices ++ invoke2Indices ids x req } :=
      ⟨h.files, h.sent⟩
    dsimp only
    split
    · rename_i hacc
      simp only [invoke2Accepts, Bool.and_eq_true, beq_iff_eq] at hacc
      exact routed_post base hx out _ rfl fun hsent => ok hsent hacc.1.1.1 x hx
    · exact base
  | release f cur out =>
    simp only [step] at hstep
    split at hstep
    · cases hstep
    · obtain ⟨x, hx, rfl⟩ := Option.map_eq_some_iff.mp hstep
      refine ⟨files_released h.files, routed_sent h fun m hm => ?_⟩
      unfold closeSent at hm
      split_ifs at hm with hcond
      · obtain rfl := List.mem_singleton.mp hm
        exact fun _ _ => h.files f x hx hcond.1
      · cases hm

end runs

theorem boundRun_initFirst : Along (step headerIds allFeatures) InitFirst
    (.probed headerIds 4 false zeroMemory) boundRun := by
  refine along_cons trivial rfl (along_cons trivial rfl (along_cons trivial rfl
    (along_cons (fun _ => rfl) rfl (along_cons (fun _ _ x hx => ?_) rfl trivial))))
  obtain rfl := Option.some.inj hx
  rfl

/-- An open file has at most one channel and has not closed it. -/
structure Unclosed (s : State) : Prop where
  channel : ∀ f x, s.drv.files f = some x → ∀ c, (f, c) ∈ s.opened →
    x.dspProcInit = true ∧ x.cid = c ∧ 0 ≤ c
  init : ∀ f x, s.drv.files f = some x → x.dspProcInit = true → (f, x.cid) ∈ s.opened
  closes : ∀ m ∈ s.sent, m.hdr.cmd = .cmdClose → s.drv.files m.file = none
  known : ∀ f x, s.drv.files f = some x → f < s.drv.nextFile
  opened : ∀ p ∈ s.opened, p.1 < s.drv.nextFile
  sent : ∀ m ∈ s.sent, m.file < s.drv.nextFile

/-- An OPEN that succeeds does so by its own answer, and on a file with a channel it returns
the same channel. -/
def OneChannel (s : State) : Action → Prop
  | .initEnd f own result cid => Granted result cid → own = true ∧
      ∀ x, s.drv.files f = some x → x.dspProcInit = true → cid = x.cid
  | .strayAnswer _ result cid => ¬ Granted result cid
  | _ => True

section runs

variable {ids : SharedIds} {feat : Features} {s t : State} {a : Action}

/-- New messages of an open file, none of them CLOSE. -/
theorem unclosed_sent (h : Unclosed s) {f : FileId} {x : File} (hx : s.drv.files f = some x)
    {new : List Sent} (hnew : ∀ m ∈ new, m.file = f ∧ m.hdr.cmd ≠ .cmdClose)
    (waiting : List FileId) (indices : List Int) :
    Unclosed { s with sent := s.sent ++ new, waiting := waiting, indices := indices } where
  channel := h.channel
  init := h.init
  closes := fun m hm hcmd => by
    rcases List.mem_append.mp hm with hold | hmem
    · exact h.closes m hold hcmd
    · exact False.elim ((hnew m hmem).2 hcmd)
  known := h.known
  opened := h.opened
  sent := fun m hm => by
    rcases List.mem_append.mp hm with hold | hmem
    · exact h.sent m hold
    · rw [(hnew m hmem).1]
      exact h.known f x hx

theorem unclosed_post (h : Unclosed s) {f : FileId} {x : File} (hx : s.drv.files f = some x)
    (out : SendOutcome) {hdr : Hdr} (hcmd : hdr.cmd ≠ .cmdClose) : Unclosed (s.post f out hdr) := by
  unfold State.post
  split_ifs
  · refine unclosed_sent h hx (fun m hm => ?_) s.waiting s.indices
    obtain rfl := List.mem_singleton.mp hm
    exact ⟨rfl, hcmd⟩
  · exact h

theorem closes_other (h : Unclosed s) {f : FileId} {x : File} (hx : s.drv.files f = some x)
    {m : Sent} (hm : m ∈ s.sent) (hcmd : m.hdr.cmd = .cmdClose) : m.file ≠ f := by
  intro he
  have hnone := h.closes m hm hcmd
  rw [he, hx] at hnone
  cases hnone

/-- A file changes; its channel does not. -/
theorem unclosed_turned (h : Unclosed s) {f : FileId} {x y : File} {d : Driver}
    (hx : s.drv.files f = some x) (drives : Drives s.drv d f y)
    (hcid : y.cid = x.cid) (hinit : y.dspProcInit = x.dspProcInit) :
    Unclosed { s with drv := d } where
  channel := by
    change ∀ g z, d.files g = some z → _
    rw [drives.files]
    refine files_forall (fun c hc => ?_) h.channel
    rw [hcid, hinit]
    exact h.channel f x hx c hc
  init := by
    change ∀ g z, d.files g = some z → _
    rw [drives.files]
    refine files_forall (fun hy => ?_) h.init
    rw [hcid]
    exact h.init f x hx (hinit ▸ hy)
  closes := fun m hm hcmd => by
    change d.files m.file = none
    rw [drives.files, Function.update_of_ne (closes_other h hx hm hcmd)]
    exact h.closes m hm hcmd
  known := by
    change ∀ g z, d.files g = some z → g < d.nextFile
    rw [drives.files, drives.nextFile]
    exact files_forall (h.known f x hx) h.known
  opened := fun p hp => by
    change p.1 < d.nextFile
    rw [drives.nextFile]
    exact h.opened p hp
  sent := fun m hm => by
    change m.file < d.nextFile
    rw [drives.nextFile]
    exact h.sent m hm

/-- OPEN succeeded, on a file without a channel or with the channel the file has. -/
theorem unclosed_opened (h : Unclosed s) {f : FileId} {x : File} {cid : Int}
    (hx : s.drv.files f = some x) (hcid : 0 ≤ cid)
    (one : x.dspProcInit = true → cid = x.cid) (waiting strayed : List FileId) :
    Unclosed { s with
      drv := s.drv.setFile f { x with cid := cid, dspProcInit := true } []
      waiting := waiting
      strayed := strayed
      opened := (f, cid) :: s.opened } where
  channel := by
    intro g z hg c hc
    change Function.update s.drv.files f _ g = some z at hg
    rw [Function.update_apply] at hg
    split_ifs at hg with hgf
    · subst hgf
      obtain rfl := Option.some.inj hg
      rcases List.mem_cons.mp hc with heq | hold
      · obtain rfl := (Prod.mk.inj heq).2
        exact ⟨rfl, rfl, hcid⟩
      · obtain ⟨hinit, rfl, hle⟩ := h.channel g x hx c hold
        exact ⟨rfl, one hinit, hle⟩
    · refine h.channel g z hg c ((List.mem_cons.mp hc).resolve_left fun heq => ?_)
      exact hgf (Prod.mk.inj heq).1
  init := by
    refine files_forall (fun _ => List.mem_cons_self) fun g z hg hz => ?_
    exact List.mem_cons_of_mem _ (h.init g z hg hz)
  closes := fun m hm hcmd => by
    change Function.update s.drv.files f _ m.file = none
    rw [Function.update_of_ne (closes_other h hx hm hcmd)]
    exact h.closes m hm hcmd
  known := files_forall (h.known f x hx) h.known
  opened := fun p hp => by
    rcases List.mem_cons.mp hp with rfl | hold
    · exact h.known f x hx
    · exact h.opened p hold
  sent := h.sent

theorem closeSent_file {x : File} {cur : Process} {f : FileId} {out : SendOutcome} {m : Sent}
    (hm : m ∈ closeSent x cur f out) : m.file = f := by
  unfold closeSent at hm
  split_ifs at hm
  · rw [List.mem_singleton.mp hm]
  · cases hm

/-- The file goes away with whatever it sent last. -/
theorem unclosed_release (h : Unclosed s) {f : FileId} {x : File} (hx : s.drv.files f = some x)
    {new : List Sent} (hnew : ∀ m ∈ new, m.file = f) :
    Unclosed { s with
      drv := { s.drv with files := Function.update s.drv.files f none }
      sent := s.sent ++ new } := by
  refine ⟨files_released h.channel, files_released h.init, fun m hm hcmd => ?_,
    files_released h.known, h.opened, fun m hm => ?_⟩
  · change Function.update s.drv.files f none m.file = none
    rcases List.mem_append.mp hm with hold | hmem
    · rw [Function.update_of_ne (closes_other h hx hold hcmd)]
      exact h.closes m hold hcmd
    · rw [hnew m hmem, Function.update_self]
  · rcases List.mem_append.mp hm with hold | hmem
    · exact h.sent m hold
    · rw [hnew m hmem]
      exact h.known f x hx

theorem cmd_hdr (cmd : Cmd) (x : File) (cur : Process) : (cmd.hdr x cur).cmd = cmd := by
  cases cmd <;> rfl

theorem step_unclosed (h : Unclosed s) (ok : OneChannel s a)
    (hstep : step ids feat s a = some t) : Unclosed t := by
  cases a with
  | openFile minor cur =>
    obtain rfl := Option.some.inj hstep
    have fresh : ∀ c, (s.drv.nextFile, c) ∉ s.opened := fun c hc =>
      Nat.lt_irrefl _ (h.opened _ hc)
    refine ⟨files_forall (fun c hc => False.elim (fresh c hc)) h.channel,
      files_forall (fun hy => by cases hy) h.init, fun m hm hcmd => ?_,
      files_forall (Nat.lt_succ_self _) fun g z hg => Nat.lt_succ_of_lt (h.known g z hg),
      fun p hp => Nat.lt_succ_of_lt (h.opened p hp), fun m hm => Nat.lt_succ_of_lt (h.sent m hm)⟩
    change Function.update s.drv.files s.drv.nextFile _ m.file = none
    rw [Function.update_of_ne (Nat.ne_of_lt (h.sent m hm))]
    exact h.closes m hm hcmd
  | control f cur c =>
    simp only [step] at hstep
    split at hstep
    · cases hstep
    rename_i kind
    obtain ⟨x, hx, rfl⟩ := Option.map_eq_some_iff.mp hstep
    obtain ⟨y, drives, turned⟩ := ioctl_drives ids cur hx (by simpa using kind)
    obtain ⟨hcid, hinit⟩ := turned_channel turned
    have hy : (vfastrpcIoctl ids s.drv f cur x c).files f = some y := by
      rw [drives.files, Function.update_self]
    refine unclosed_sent (unclosed_turned h hx drives hcid hinit) hy (fun m hm => ?_) _ _
    obtain ⟨hdr, hhdr, rfl⟩ := List.mem_map.mp hm
    obtain rfl := ioctlSent_cmd hhdr
    exact ⟨rfl, fun hcmd => by cases hcmd⟩
  | initBegin f cur uproc out =>
    obtain ⟨x, hx, rfl⟩ := Option.map_eq_some_iff.mp hstep
    have same := initBegin_sender s.drv.channel uproc x
    have base := unclosed_turned h hx (drives_setFile s.drv f _ []) same.cid same.dspProcInit
    have hy : (s.drv.setFile f (initBegin s.drv.channel uproc x).1 []).files f =
        some (initBegin s.drv.channel uproc x).1 := Function.update_self ..
    dsimp only
    split
    · refine unclosed_sent base hy (fun m hm => ?_) _ _
      obtain rfl := List.mem_singleton.mp hm
      exact ⟨rfl, fun hcmd => by cases hcmd⟩
    · exact ⟨base.channel, base.init, base.closes, base.known, base.opened, base.sent⟩
  | initEnd f own result cid =>
    simp only [step] at hstep
    split at hstep
    · obtain ⟨x, hx, rfl⟩ := Option.map_eq_some_iff.mp hstep
      rcases initEnd_cases result cid x with ⟨refused, same⟩ | ⟨granted, opened⟩
      · have base := unclosed_turned h hx (drives_setFile s.drv f x []) rfl rfl
        have kept : ¬ (own = true ∧ Granted result cid) := fun both => refused both.2
        rw [same, if_neg kept]
        exact ⟨base.channel, base.init, base.closes, base.known, base.opened, base.sent⟩
      · obtain ⟨answered, one⟩ := ok granted
        have booked : own = true ∧ Granted result cid := ⟨answered, granted⟩
        rw [opened, if_pos booked]
        exact unclosed_opened h hx granted.2 (one x hx) _ _
    · cases hstep
  | strayAnswer f result cid =>
    simp only [step] at hstep
    split at hstep
    · obtain rfl := Option.some.inj hstep
      rw [if_neg ok]
      exact ⟨h.channel, h.init, h.closes, h.known, h.opened, h.sent⟩
    · cases hstep
  | command f cur cmd out =>
    obtain ⟨x, hx, rfl⟩ := Option.map_eq_some_iff.mp hstep
    split
    · rename_i hacc
      refine unclosed_post h hx out ?_
      rw [cmd_hdr]
      rintro rfl
      cases hacc
    · exact h
  | invoke2 f cur req out =>
    obtain ⟨x, hx, rfl⟩ := Option.map_eq_some_iff.mp hstep
    have base : Unclosed { s with indices := s.indices ++ invoke2Indices ids x req } :=
      ⟨h.channel, h.init, h.closes, h.known, h.opened, h.sent⟩
    dsimp only
    split
    · exact unclosed_post base hx out fun hcmd => by cases hcmd
    · exact base
  | release f cur out =>
    simp only [step] at hstep
    split at hstep
    · cases hstep
    · obtain ⟨x, hx, rfl⟩ := Option.map_eq_some_iff.mp hstep
      exact unclosed_release h hx (fun m hm => closeSent_file hm)

end runs

/-- Is this a CLOSE of `f` for channel `c`? -/
def isClose (f : FileId) (c : Int) (m : Sent) : Bool :=
  m.file == f && m.hdr.cmd == .cmdClose && m.hdr.cid == c

theorem release_closes {ids : SharedIds} {feat : Features} {s t : State} (h : Unclosed s)
    {f : FileId} {cur : Process} {c : Int} (hc : (f, c) ∈ s.opened)
    (released : step ids feat s (.release f cur .sent) = some t) :
    (t.sent.filter (isClose f c)).length = 1 := by
  simp only [step] at released
  split at released
  · cases released
  obtain ⟨x, hx, rfl⟩ := Option.map_eq_some_iff.mp released
  obtain ⟨hinit, hcid, hle⟩ := h.channel f x hx c hc
  have before : s.sent.filter (isClose f c) = [] := by
    refine List.filter_eq_nil_iff.mpr fun m hm hclose => ?_
    simp only [isClose, Bool.and_eq_true, beq_iff_eq] at hclose
    exact closes_other h hx hm hclose.1.2 hclose.1.1
  have last : closeSent x cur f .sent = [⟨f, virtFastrpcCloseHdr x cur⟩] := by
    simp [closeSent, hinit, hcid, hle]
  rw [last, List.filter_append, before]
  simp [isClose, virtFastrpcCloseHdr, sessionHdr, hcid]

/-- In every run in which every OPEN that succeeds gets its own answer and no file gets a second
channel, releasing a file sends exactly one CLOSE for each channel the back end opened for it. -/
theorem opened_channels_closed_once (ids : SharedIds) (feat : Features) (numChannels : UInt32)
    (debugfsRoot : Bool) (memory : Int → ChannelCtx) (as : List Action) (s t : State)
    (along : Along (step ids feat) OneChannel (.probed ids numChannels debugfsRoot memory) as)
    (run : exec (step ids feat) (.probed ids numChannels debugfsRoot memory) as = some s)
    (f : FileId) (cur : Process)
    (released : step ids feat s (.release f cur .sent) = some t) (c : Int)
    (opened : (f, c) ∈ s.opened) : (t.sent.filter (isClose f c)).length = 1 := by
  have start : Unclosed (.probed ids numChannels debugfsRoot memory) :=
    ⟨fun f x hx => (by cases hx), fun f x hx => (by cases hx), fun m hm => (by cases hm),
      fun f x hx => (by cases hx), fun p hp => (by cases hp), fun m hm => by cases hm⟩
  exact release_closes (exec_invariant_along OneChannel
    (fun _ _ _ h ok hs => step_unclosed h ok hs) start along run) opened released

/-- A second INIT is refused by the back end, with result 5 and no channel. -/
def refusedAgain : List Action :=
  boundRun ++ [.initBegin 0 ⟨100, 100⟩ unsignedInit .sent, .initEnd 0 true 5 (-1)]

theorem refusedAgain_oneChannel : Along (step headerIds allFeatures) OneChannel
    (.probed headerIds 4 false zeroMemory) refusedAgain := by
  refine along_cons trivial rfl (along_cons trivial rfl (along_cons trivial rfl
    (along_cons (fun _ => ⟨rfl, fun x hx hinit => ?_⟩) rfl (along_cons trivial rfl
      (along_cons trivial rfl (along_cons (fun granted => ?_) rfl trivial))))))
  · obtain rfl := Option.some.inj hx
    cases hinit
  · cases granted.1

theorem refusedAgain_closed : ∃ s t, exec (step headerIds allFeatures)
      (.probed headerIds 4 false zeroMemory) refusedAgain = some s ∧ (0, 7) ∈ s.opened ∧
    step headerIds allFeatures s (.release 0 ⟨100, 100⟩ .sent) = some t ∧
    (t.sent.filter (isClose 0 7)).length = 1 :=
  ⟨_, _, rfl, List.mem_singleton.mpr rfl, rfl,
    opened_channels_closed_once headerIds allFeatures 4 false zeroMemory refusedAgain _ _
      refusedAgain_oneChannel rfl 0 ⟨100, 100⟩ rfl 7 (List.mem_singleton.mpr rfl)⟩

/-- A second INIT replaces channel 7 by channel 8, and channel 7 stays open. -/
theorem replaced_channel_not_closed : ∃ s t, exec (step headerIds allFeatures)
      (.probed headerIds 4 false zeroMemory)
      (boundRun ++ [.initBegin 0 ⟨100, 100⟩ unsignedInit .sent, .initEnd 0 true 0 8]) = some s ∧
    step headerIds allFeatures s (.release 0 ⟨100, 100⟩ .sent) = some t ∧
    (0, 7) ∈ s.opened ∧ (t.sent.filter (isClose 0 7)).length ≠ 1 :=
  ⟨_, _, rfl, rfl, by decide, by decide⟩

end ChannelBinding
