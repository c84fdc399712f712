import PlatformKernel.CountedLoops
import PlatformKernel.FileCommands
import PlatformKernel.ResourceTraces

/-!
# Probing the device

`virt_fastrpc_probe` with `init_vqs` and `vfastrpc_channel_init`, and `virt_fastrpc_remove`.
What the device offers and how each call of the probe turns out are inputs. Every resource
that is acquired or released leaves an event, in the order of the code; each label of the
two `goto` ladders is a function of its own.
-/

namespace DeviceProbe

open CountedLoops ResourceTraces ControlPlane FileCommands ReturnCodes

def maxFastrpcBufSize : UInt32 := 1024 * 1024 * 4
def defFastrpcBufSize : UInt32 := 128 * 1024
def feMajorVer : UInt32 := 0x6
def numChannelsDefault : UInt32 := 4

def beMajorVer (ver : UInt32) : UInt32 := (ver >>> 16) &&& 0xffff

inductive Resource where
  | vqs
  | rbufs
  | sbufs
  | rpages (i : Nat)
  | spages (i : Nat)
  | channel
  | debugfs
  | chrdevRegion
  | cdev
  | deviceClass
  | device
  | secureDevice
  deriving DecidableEq

/-- `none` for a field of the configuration space means that its feature is not offered.
`domainProperty` is the error and the value of reading `qcom,domain_num`, if the node has
it. The calls of the probe return an error number, or whether they succeed. -/
structure Device where
  version1 : Bool
  version : Option UInt32
  maxBufSize : Option UInt32
  domainNum : Option UInt32
  feat : Features
  invokeAttr : Bool
  invokeCrc : Bool
  domainProperty : Option (Int × UInt32)
  findVqs : Int
  rxRing : Nat
  txRing : Nat
  rbufs : Bool
  sbufs : Bool
  rpages : Nat → Bool
  spages : Nat → Bool
  channel : Bool
  debugfs : Bool
  allocChrdevRegion : Int
  cdevAdd : Int
  classCreate : Bool
  deviceCreate : Bool
  secureDeviceCreate : Bool
  addInbuf : Nat → Int

/-- What the probe leaves in `struct vfastrpc_apps`, with the receive buffers that the input
queue took. -/
structure Apps where
  feat : Features
  hasInvokeAttr : Bool
  hasInvokeCrc : Bool
  bufSize : UInt32
  numBufs : Nat
  numChannels : UInt32
  debugfsRoot : Bool
  queued : List Nat

/-- The value returned, the events on the way, and the device once it is registered. -/
structure Outcome where
  err : Int
  trace : List (Event Resource)
  ready : Option Apps

def Outcome.after (first : List (Event Resource)) (o : Outcome) : Outcome :=
  { o with trace := first ++ o.trace }

/-- An array of no elements is `ZERO_SIZE_PTR`, for which no memory is taken. -/
def kcalloc (n : Nat) (r : Resource) : List (Event Resource) := acquires (present (n != 0) r)

def kfree (n : Nat) (r : Resource) : List (Event Resource) := releases (present (n != 0) r)

structure Pages where
  slots : Nat → Bool
  trace : List (Event Resource)

/-- The array comes zeroed from `kcalloc`. -/
def Pages.empty : Pages := ⟨fun _ => false, []⟩

def getPage (page : Nat → Resource) (ok : Nat → Bool) (i : Nat) (s : Pages) : Flow Int Pages :=
  if ok i then .next ⟨Function.update s.slots i true, s.trace ++ [.acquire (page i)]⟩
  else .bail (-ENOMEM) ⟨Function.update s.slots i false, s.trace⟩

def getPages (page : Nat → Resource) (ok : Nat → Bool) (n : Nat) : Flow Int Pages :=
  loop (getPage page ok) 0 n .empty

/-- Frees every slot of the array that is not `NULL`. -/
def freePages (page : Nat → Resource) (slots : Nat → Bool) : Nat → List (Event Resource)
  | 0 => []
  | n + 1 => freePages page slots n ++ if slots n then [.release (page n)] else []

/-- The label `vqs_del`. -/
def vqsDel (err : Int) : Outcome := ⟨err, [.release .vqs], none⟩

def rbufDel (n : Nat) (rbufs : Nat → Bool) (err : Int) : Outcome :=
  (vqsDel err).after (freePages .rpages rbufs n ++ kfree n .sbufs ++ kfree n .rbufs)

def sbufDel (n : Nat) (rbufs sbufs : Nat → Bool) (err : Int) : Outcome :=
  (rbufDel n rbufs err).after (freePages .spages sbufs n)

def initVqs (d : Device) : Outcome :=
  if d.findVqs ≠ 0 then ⟨d.findVqs, [], none⟩
  else .after [.acquire .vqs] <|
    if d.rxRing ≠ d.txRing then vqsDel (-EINVAL)
    else if d.rbufs = false then vqsDel (-ENOMEM)
    else .after (kcalloc d.rxRing .rbufs) <|
      if d.sbufs = false then (vqsDel (-ENOMEM)).after (kfree d.rxRing .rbufs)
      else .after (kcalloc d.rxRing .sbufs) <|
        match getPages .rpages d.rpages d.rxRing with
        | .bail err r => (rbufDel d.rxRing r.slots err).after r.trace
        | .next r => .after r.trace <|
          match getPages .spages d.spages d.rxRing with
          | .bail err s => (sbufDel d.rxRing r.slots s.slots err).after s.trace
          | .next s => ⟨0, s.trace, none⟩

def numChannels (d : Device) : Except Int UInt32 :=
  match d.domainNum with
  | some n => .ok n
  | none =>
    match d.domainProperty with
    | some (err, n) => if err ≠ 0 then .error err else .ok n
    | none => .ok numChannelsDefault

/-- `virtqueue_add_inbuf` is only warned about, too. -/
def apps (d : Device) (n : UInt32) : Apps where
  feat := d.feat
  hasInvokeAttr := d.invokeAttr
  hasInvokeCrc := d.invokeCrc
  bufSize := d.maxBufSize.getD defFastrpcBufSize
  numBufs := d.rxRing
  numChannels := n
  debugfsRoot := d.debugfs
  queued := (List.range d.rxRing).filter fun i => d.addInbuf i == 0

def allocChannelBail (err : Int) : Outcome := ⟨err, [.release .vqs], none⟩

/-- `debugfs_remove_recursive` does nothing for `NULL`. -/
def allocChrdevBail (d : Device) (n : UInt32) (err : Int) : Outcome :=
  (allocChannelBail err).after (releases (present d.debugfs .debugfs) ++ kfree n.toNat .channel)

def cdevInitBail (d : Device) (n : UInt32) (err : Int) : Outcome :=
  (allocChrdevBail d n err).after [.release .chrdevRegion]

def classCreateBail (d : Device) (n : UInt32) (err : Int) : Outcome :=
  (cdevInitBail d n err).after [.release .cdev]

def deviceCreateBail (d : Device) (n : UInt32) (device secureDevice : Bool) (err : Int) : Outcome :=
  (classCreateBail d n err).after (releases (present device .device) ++
    releases (present secureDevice .secureDevice) ++ [.release .deviceClass])

/-- From `cdev_add` on. `class_create` and `device_create` do not write `err`. -/
def createDevices (d : Device) (n : UInt32) : Outcome :=
  let err := d.cdevAdd
  if err ≠ 0 then cdevInitBail d n err
  else .after [.acquire .cdev] <|
    if d.classCreate = false then classCreateBail d n err
    else .after [.acquire .deviceClass] <|
      if d.deviceCreate = false then deviceCreateBail d n false false err
      else .after [.acquire .device] <|
        if d.secureDeviceCreate = false then deviceCreateBail d n true false err
        else ⟨0, [.acquire .secureDevice], some (apps d n)⟩

/-- From the domain count on; a missing debugfs directory is only warned about. -/
def initChannels (d : Device) : Outcome :=
  match numChannels d with
  | .error err => allocChannelBail err
  | .ok n =>
    if d.channel = false then allocChannelBail (-ENOMEM)
    else .after (kcalloc n.toNat .channel ++ acquires (present d.debugfs .debugfs)) <|
      if d.allocChrdevRegion ≠ 0 then allocChrdevBail d n d.allocChrdevRegion
      else .after [.acquire .chrdevRegion] (createDevices d n)

def virtFastrpcProbe (d : Device) : Outcome :=
  if d.version1 = false then ⟨-ENODEV, [], none⟩
  else if d.version.any fun ver => beMajorVer ver != feMajorVer then ⟨-ENODEV, [], none⟩
  else if d.maxBufSize.any fun size => maxFastrpcBufSize < size then ⟨-EINVAL, [], none⟩
  else if (initVqs d).err ≠ 0 then initVqs d
  else (initChannels d).after (initVqs d).trace

/-- `virt_fastrpc_remove` frees what the probe left, without looking for `NULL`. -/
def virtFastrpcRemove (apps : Apps) : List (Event Resource) :=
  [.release .device, .release .secureDevice, .release .deviceClass, .release .cdev,
      .release .chrdevRegion] ++
    releases (present apps.debugfsRoot .debugfs) ++ kfree apps.numChannels.toNat .channel ++
    [.release .vqs] ++ releases ((List.range apps.numBufs).map .rpages) ++
    releases ((List.range apps.numBufs).map .spages) ++ kfree apps.numBufs .sbufs ++
    kfree apps.numBufs .rbufs

/-- The device is one this driver can talk to. -/
def Accepted (d : Device) : Prop :=
  d.version1 = true ∧ (∀ ver ∈ d.version, beMajorVer ver = feMajorVer) ∧
    ∀ size ∈ d.maxBufSize, size ≤ maxFastrpcBufSize

/-- Every step of `init_vqs` succeeds. -/
def VqsReady (d : Device) : Prop :=
  d.findVqs = 0 ∧ d.rxRing = d.txRing ∧ d.rbufs = true ∧ d.sbufs = true ∧
    (∀ i < d.rxRing, d.rpages i = true) ∧ ∀ i < d.rxRing, d.spages i = true

/-- The steps that set `err` after `init_vqs` succeed. -/
def CdevAdded (d : Device) : Prop :=
  (d.domainNum = none → ∀ err n, d.domainProperty = some (err, n) → err = 0) ∧
    d.channel = true ∧ d.allocChrdevRegion = 0 ∧ d.cdevAdd = 0

def DevicesCreated (d : Device) : Prop :=
  d.classCreate = true ∧ d.deviceCreate = true ∧ d.secureDeviceCreate = true

/-- Some step of the probe fails. -/
def Fails (d : Device) : Prop :=
  ¬ (Accepted d ∧ VqsReady d ∧ CdevAdded d ∧ DevicesCreated d)

/-- An error is returned, and everything acquired has been released once. -/
structure Unwound (o : Outcome) : Prop where
  err : o.err ≠ 0
  released : replay 0 o.trace = some 0

/-- Each resource is released as often as it was acquired. -/
theorem Unwound.balanced {o : Outcome} (h : Unwound o) (r : Resource) :
    o.trace.count (.acquire r) = o.trace.count (.release r) := by
  have counts := replay_count h.released r
  simpa using counts

def pages (page : Nat → Resource) (n : Nat) : List Resource := (List.range n).map page

theorem pages_succ (page : Nat → Resource) (n : Nat) :
    pages page (n + 1) = pages page n ++ [page n] := by
  simp [pages, List.range_succ]

/-- The first `k` slots are filled. -/
structure Filled (page : Nat → Resource) (k : Nat) (s : Pages) : Prop where
  slots : ∀ j, s.slots j = decide (j < k)
  trace : s.trace = acquires (pages page k)

/-- All pages are there, or those before the first that failed. -/
theorem getPages_filled (page : Nat → Resource) (ok : Nat → Bool) (n : Nat) :
    (getPages page ok n).Holds (fun s => (∀ i < n, ok i = true) ∧ Filled page n s)
      fun err s => err = -ENOMEM ∧ ∃ k < n, ok k = false ∧ Filled page k s := by
  have empty : (∀ j < 0, ok j = true) ∧ Filled page 0 .empty :=
    ⟨fun j hj => absurd hj (Nat.not_lt_zero j), fun j => by simp [Pages.empty], rfl⟩
  have round : ∀ i s, 0 ≤ i → i < 0 + n → (∀ j < i, ok j = true) ∧ Filled page i s →
      (getPage page ok i s).Holds (fun s => (∀ j < i + 1, ok j = true) ∧ Filled page (i + 1) s)
        fun err s => err = -ENOMEM ∧ ∃ k < n, ok k = false ∧ Filled page k s := by
    rintro i s - hi ⟨before, filled⟩
    rw [Nat.zero_add] at hi
    unfold getPage
    cases hok : ok i with
    | true =>
      refine ⟨fun j hj => ?_, fun j => ?_, ?_⟩
      · rcases Nat.lt_succ_iff_lt_or_eq.mp hj with hj | rfl
        · exact before j hj
        · exact hok
      · by_cases same : j = i
        · simp [same]
        · simp only [Function.update_of_ne same, filled.slots]
          exact decide_eq_decide.mpr (by omega)
      · simp [filled.trace, pages_succ, acquires]
    | false =>
      refine ⟨rfl, i, hi, hok, fun j => ?_, filled.trace⟩
      by_cases same : j = i
      · simp [same]
      · simp only [Function.update_of_ne same, filled.slots]
  have loops := loop_holds (fun i s => (∀ j < i, ok j = true) ∧ Filled page i s) empty round
  rwa [Nat.zero_add] at loops

/-- What is freed is what was allocated. -/
theorem freePages_eq {page : Nat → Resource} {slots : Nat → Bool} {k : Nat}
    (filled : ∀ j, slots j = decide (j < k)) (n : Nat) :
    freePages page slots n = releases (pages page (min n k)) := by
  induction n with
  | zero => simp [freePages, pages, releases]
  | succ n ih =>
    rw [freePages, ih, filled]
    by_cases less : n < k
    · have here : min (n + 1) k = n + 1 := by omega
      have before : min n k = n := by omega
      rw [here, before, pages_succ]
      simp [less, releases]
    · have here : min (n + 1) k = min n k := by omega
      simp [here, less]

/-- What is held once the arrays of the rings are there, besides what was held before. -/
def ringsHeld (held : Multiset Resource) (n : Nat) : Multiset Resource :=
  held + ({.vqs} : Multiset Resource) + Multiset.ofList (present (n != 0) .rbufs) +
    Multiset.ofList (present (n != 0) .sbufs)

section ladders

variable (held : Multiset Resource)

theorem vqsDel_replay (err : Int) : replay (held + {.vqs}) (vqsDel err).trace = some held := by
  simp [vqsDel]

theorem rbufDel_replay {n k : Nat} (hk : k ≤ n) {rbufs : Nat → Bool}
    (filled : ∀ j, rbufs j = decide (j < k)) (err : Int) :
    replay (ringsHeld held n + Multiset.ofList (pages .rpages k)) (rbufDel n rbufs err).trace =
      some held := by
  simp only [rbufDel, ringsHeld, Outcome.after, freePages_eq filled, Nat.min_eq_right hk, kfree,
    List.append_assoc, replay_releases_append]
  exact vqsDel_replay held err

theorem sbufDel_replay {n k : Nat} (hk : k ≤ n) {rbufs sbufs : Nat → Bool}
    (rfilled : ∀ j, rbufs j = decide (j < n)) (sfilled : ∀ j, sbufs j = decide (j < k))
    (err : Int) :
    replay (ringsHeld held n + Multiset.ofList (pages .rpages n) +
      Multiset.ofList (pages .spages k)) (sbufDel n rbufs sbufs err).trace = some held := by
  simp only [sbufDel, Outcome.after, freePages_eq sfilled, Nat.min_eq_right hk,
    replay_releases_append]
  exact rbufDel_replay held (Nat.le_refl n) rfilled err

end ladders

/-- What `init_vqs` holds besides the queues. -/
def ringBufs (d : Device) : Multiset Resource :=
  .ofList (present (d.rxRing != 0) .rbufs) +
    .ofList (present (d.rxRing != 0) .sbufs) +
    .ofList (pages .rpages d.rxRing) + .ofList (pages .spages d.rxRing)

theorem initVqs_ready (d : Device) (ready : VqsReady d) : (initVqs d).err = 0 ∧
    replay 0 (initVqs d).trace = some (ringBufs d + {.vqs}) := by
  obtain ⟨found, rings, rbufs, sbufs, rpages, spages⟩ := ready
  have rx := getPages_filled .rpages d.rpages d.rxRing
  have tx := getPages_filled .spages d.spages d.rxRing
  cases hrx : getPages .rpages d.rpages d.rxRing with
  | bail err r =>
    rw [hrx] at rx
    obtain ⟨-, k, hk, missing, -⟩ := rx
    rw [rpages k hk] at missing
    cases missing
  | next r =>
    cases htx : getPages .spages d.spages d.rxRing with
    | bail err s =>
      rw [htx] at tx
      obtain ⟨-, k, hk, missing, -⟩ := tx
      rw [spages k hk] at missing
      cases missing
    | next s =>
      rw [hrx] at rx
      rw [htx] at tx
      simp only [initVqs, found, rings.symm, rbufs, sbufs, hrx, htx, Outcome.after, rx.2.trace,
        tx.2.trace, kcalloc, ne_eq, not_true, if_false, Bool.true_eq_false, List.cons_append,
        List.nil_append, replay_acquire, replay_acquires_append, replay_acquires, true_and]
      simp only [ringBufs, zero_add]
      ac_rfl

theorem initVqs_unwound (d : Device) (fails : ¬ VqsReady d) : Unwound (initVqs d) := by
  have noMem : -ENOMEM ≠ 0 := by decide
  have rx := getPages_filled .rpages d.rpages d.rxRing
  have tx := getPages_filled .spages d.spages d.rxRing
  unfold initVqs
  split_ifs with found rings rbufs sbufs
  · exact ⟨found, rfl⟩
  · refine ⟨by decide, ?_⟩
    simp only [Outcome.after, List.cons_append, List.nil_append, replay_acquire]
    exact vqsDel_replay 0 _
  · refine ⟨noMem, ?_⟩
    simp only [Outcome.after, List.cons_append, List.nil_append, replay_acquire]
    exact vqsDel_replay 0 _
  · refine ⟨noMem, ?_⟩
    simp only [Outcome.after, List.cons_append, List.nil_append, replay_acquire, kcalloc, kfree,
      replay_acquires_append, replay_releases_append]
    exact vqsDel_replay 0 _
  · cases hrx : getPages .rpages d.rpages d.rxRing with
    | bail err r =>
      rw [hrx] at rx
      obtain ⟨rfl, k, hk, -, filled⟩ := rx
      refine ⟨noMem, ?_⟩
      simp only [Outcome.after, List.cons_append, List.nil_append, replay_acquire, kcalloc,
        filled.trace, replay_acquires_append]
      exact rbufDel_replay 0 (Nat.le_of_lt hk) filled.slots _
    | next r =>
      rw [hrx] at rx
      cases htx : getPages .spages d.spages d.rxRing with
      | bail err s =>
        rw [htx] at tx
        obtain ⟨rfl, k, hk, -, filled⟩ := tx
        refine ⟨noMem, ?_⟩
        simp only [Outcome.after, List.cons_append, List.nil_append, replay_acquire, kcalloc,
          rx.2.trace, filled.trace, replay_acquires_append]
        exact sbufDel_replay 0 (Nat.le_of_lt hk) rx.2.slots filled.slots _
      | next s =>
        rw [htx] at tx
        exact False.elim (fails ⟨not_not.mp found, not_not.mp rings, eq_true_of_ne_false rbufs,
          eq_true_of_ne_false sbufs, rx.1, tx.1⟩)

/-- What is held when the character devices are made, besides what was held before. -/
def channelsHeld (held : Multiset Resource) (d : Device) (n : UInt32) : Multiset Resource :=
  held + {.vqs} + .ofList (present (n.toNat != 0) .channel) + .ofList (present d.debugfs .debugfs)

section ladders

variable (held : Multiset Resource) (d : Device) (n : UInt32) (err : Int)

theorem allocChannelBail_replay :
    replay (held + {.vqs}) (allocChannelBail err).trace = some held := by
  simp [allocChannelBail]

theorem allocChrdevBail_replay :
    replay (channelsHeld held d n) (allocChrdevBail d n err).trace = some held := by
  simp only [channelsHeld, allocChrdevBail, Outcome.after, kfree, List.append_assoc,
    replay_releases_append]
  exact allocChannelBail_replay held err

theorem cdevInitBail_replay :
    replay (channelsHeld held d n + {.chrdevRegion}) (cdevInitBail d n err).trace = some held := by
  simp only [cdevInitBail, Outcome.after, List.cons_append, List.nil_append, replay_release]
  exact allocChrdevBail_replay held d n err

theorem classCreateBail_replay :
    replay (channelsHeld held d n + {.chrdevRegion} + {.cdev}) (classCreateBail d n err).trace =
      some held := by
  simp only [classCreateBail, Outcome.after, List.cons_append, List.nil_append, replay_release]
  exact cdevInitBail_replay held d n err

theorem deviceCreateBail_replay (device secureDevice : Bool) :
    replay (channelsHeld held d n + ({.chrdevRegion} : Multiset Resource) +
      ({.cdev} : Multiset Resource) + ({.deviceClass} : Multiset Resource) +
      Multiset.ofList (present secureDevice .secureDevice) +
      Multiset.ofList (present device .device))
      (deviceCreateBail d n device secureDevice err).trace = some held := by
  simp only [deviceCreateBail, Outcome.after, List.append_assoc, List.cons_append, List.nil_append,
    replay_releases_append, replay_release]
  exact classCreateBail_replay held d n err

end ladders

theorem numChannels_error {d : Device} {err : Int} (h : numChannels d = .error err) :
    err ≠ 0 ∧ ¬ CdevAdded d := by
  unfold numChannels at h
  split at h
  · cases h
  · rename_i config
    split at h
    · rename_i e n property
      split_ifs at h with failed
      obtain rfl := Except.error.inj h
      exact ⟨failed, fun added => failed (added.1 config e n property)⟩
    · cases h

theorem numChannels_ok {d : Device} {n : UInt32} (h : numChannels d = .ok n)
    (config : d.domainNum = none) (err : Int) (m : UInt32)
    (property : d.domainProperty = some (err, m)) : err = 0 := by
  simp only [numChannels, config, property] at h
  split_ifs at h with failed
  exact not_not.mp failed

/-- Everything that is held once the device is registered. -/
def registered (held : Multiset Resource) (d : Device) (n : UInt32) : Multiset Resource :=
  channelsHeld held d n + {.chrdevRegion} + {.cdev} + {.deviceClass} + {.device} + {.secureDevice}

/-- How the probe can end after `init_vqs`, from `start` on. Class and devices that are missing
go without an error. -/
inductive Ends (d : Device) (held start : Multiset Resource) (o : Outcome) : Prop where
  | ready (n : UInt32) (added : CdevAdded d) (created : DevicesCreated d) (err : o.err = 0)
      (ready : o.ready = some (apps d n))
      (holds : replay start o.trace = some (registered held d n))
  | silent (added : CdevAdded d) (missing : ¬ DevicesCreated d) (err : o.err = 0)
      (ready : o.ready = none) (holds : replay start o.trace = some held)
  | failed (missing : ¬ CdevAdded d) (err : o.err ≠ 0) (ready : o.ready = none)
      (holds : replay start o.trace = some held)

theorem Ends.after {d : Device} {held start mid : Multiset Resource} {o : Outcome}
    {first : List (Event Resource)} (h : Ends d held mid o)
    (moves : replay start first = some mid) : Ends d held start (o.after first) := by
  have whole : replay start (o.after first).trace = replay mid o.trace := replay_append moves _
  cases h with
  | ready n added created err ready holds =>
    exact .ready n added created err ready (whole.trans holds)
  | silent added missing err ready holds =>
    exact .silent added missing err ready (whole.trans holds)
  | failed missing err ready holds => exact .failed missing err ready (whole.trans holds)

theorem createDevices_ends (d : Device) (n : UInt32) (held : Multiset Resource)
    (before : d.cdevAdd = 0 → CdevAdded d) :
    Ends d held (channelsHeld held d n + {.chrdevRegion}) (createDevices d n) := by
  unfold createDevices
  by_cases cdev : d.cdevAdd = 0
  · have added := before cdev
    rw [if_neg (not_not.mpr cdev)]
    split_ifs with cls device secure
    · refine .silent added (fun created => by simp [created.1] at cls) cdev rfl ?_
      simp only [Outcome.after, List.cons_append, List.nil_append, replay_acquire]
      exact classCreateBail_replay held d n _
    · refine .silent added (fun created => by simp [created.2.1] at device) cdev rfl ?_
      simp only [Outcome.after, List.cons_append, List.nil_append, replay_acquire]
      simpa [present] using deviceCreateBail_replay held d n d.cdevAdd false false
    · refine .silent added (fun created => by simp [created.2.2] at secure) cdev rfl ?_
      simp only [Outcome.after, List.cons_append, List.nil_append, replay_acquire]
      simpa [present] using deviceCreateBail_replay held d n d.cdevAdd true false
    · refine .ready n added ⟨eq_true_of_ne_false cls, eq_true_of_ne_false device,
        eq_true_of_ne_false secure⟩ rfl rfl ?_
      simp only [Outcome.after, List.cons_append, List.nil_append, replay_acquire, replay_nil,
        registered]
  · rw [if_pos cdev]
    exact .failed (fun added => cdev added.2.2.2) cdev rfl (cdevInitBail_replay held d n _)

theorem initChannels_ends (d : Device) (held : Multiset Resource) :
    Ends d held (held + {.vqs}) (initChannels d) := by
  unfold initChannels
  cases domain : numChannels d with
  | error err =>
    obtain ⟨nonzero, missing⟩ := numChannels_error domain
    exact .failed missing nonzero rfl (allocChannelBail_replay held err)
  | ok n =>
    have read := numChannels_ok domain
    have made : replay (held + {.vqs}) (kcalloc n.toNat .channel ++
        acquires (present d.debugfs .debugfs)) = some (channelsHeld held d n) := by
      rw [kcalloc, replay_acquires_append, replay_acquires, channelsHeld]
    simp only
    split_ifs with channel region
    · exact .failed (fun added => by simp [added.2.1] at channel) (by decide) rfl
        (allocChannelBail_replay held _)
    · refine Ends.after (.failed ?_ region rfl (allocChrdevBail_replay held d n _)) made
      exact fun added => region added.2.2.1
    · refine (Ends.after (createDevices_ends d n held ?_)
        (replay_acquires _ [Resource.chrdevRegion])).after made
      exact fun zero => ⟨read, eq_true_of_ne_false channel, not_not.mp region, zero⟩

variable {d : Device}

theorem accepted_iff : Accepted d ↔ d.version1 = true ∧
    (¬ d.version.any fun ver => beMajorVer ver != feMajorVer) ∧
    ¬ d.maxBufSize.any fun size => maxFastrpcBufSize < size := by
  have version : (∀ ver ∈ d.version, beMajorVer ver = feMajorVer) ↔
      ¬ d.version.any fun ver => beMajorVer ver != feMajorVer := by
    cases d.version <;> simp
  have size : (∀ size ∈ d.maxBufSize, size ≤ maxFastrpcBufSize) ↔
      ¬ d.maxBufSize.any fun size => maxFastrpcBufSize < size := by
    cases d.maxBufSize <;> simp
  rw [Accepted, version, size]

/-- A device that is not accepted is refused before anything is acquired. -/
theorem probe_refused (refused : ¬ Accepted d) : Unwound (virtFastrpcProbe d) ∧
    (virtFastrpcProbe d).ready = none := by
  rw [accepted_iff] at refused
  unfold virtFastrpcProbe
  split_ifs with version1 version size
  · exact ⟨⟨by decide, rfl⟩, rfl⟩
  · exact ⟨⟨by decide, rfl⟩, rfl⟩
  · exact ⟨⟨by decide, rfl⟩, rfl⟩
  · exact absurd ⟨eq_true_of_ne_false version1, version, size⟩ refused
  · exact absurd ⟨eq_true_of_ne_false version1, version, size⟩ refused

theorem probe_accepted (accepted : Accepted d) : virtFastrpcProbe d =
    if (initVqs d).err ≠ 0 then initVqs d else (initChannels d).after (initVqs d).trace := by
  obtain ⟨version1, version, size⟩ := accepted_iff.mp accepted
  rw [virtFastrpcProbe, if_neg (by simp [version1]), if_neg version, if_neg size]

theorem initVqs_ready_none (d : Device) : (initVqs d).ready = none := by
  unfold initVqs
  cases getPages .rpages d.rpages d.rxRing <;> cases getPages .spages d.spages d.rxRing <;>
    split_ifs <;> rfl

/-- A step that fails up to the end of `init_vqs` is undone. -/
theorem probe_early (early : ¬ (Accepted d ∧ VqsReady d)) : Unwound (virtFastrpcProbe d) ∧
    (virtFastrpcProbe d).ready = none := by
  by_cases accepted : Accepted d
  · have unwound := initVqs_unwound d fun ready => early ⟨accepted, ready⟩
    rw [probe_accepted accepted, if_pos unwound.err]
    exact ⟨unwound, initVqs_ready_none d⟩
  · exact probe_refused accepted

theorem probe_late (accepted : Accepted d) (ready : VqsReady d) :
    Ends d (ringBufs d) 0 (virtFastrpcProbe d) := by
  obtain ⟨err, holds⟩ := initVqs_ready d ready
  rw [probe_accepted accepted, if_neg (not_not.mpr err)]
  exact (initChannels_ends d (ringBufs d)).after holds

/-- The device is registered exactly if no step fails. -/
theorem probe_ready_iff : (virtFastrpcProbe d).ready.isSome ↔ ¬ Fails d := by
  by_cases early : Accepted d ∧ VqsReady d
  · cases probe_late early.1 early.2 with
    | ready n added created err ready holds =>
      simp [ready, Fails, early.1, early.2, added, created]
    | silent added missing err ready holds => simp [ready, Fails, missing]
    | failed missing err ready holds => simp [ready, Fails, missing]
  · have fails : Fails d := fun all => early ⟨all.1, all.2.1⟩
    simp [(probe_early early).2, fails]

/-- Removing a device that was registered gives everything back. -/
theorem remove_releases {apps : Apps} (ready : (virtFastrpcProbe d).ready = some apps) :
    replay 0 ((virtFastrpcProbe d).trace ++ virtFastrpcRemove apps) = some 0 := by
  have done : ¬ Fails d := probe_ready_iff.mp (Option.isSome_iff_exists.mpr ⟨apps, ready⟩)
  obtain ⟨accepted, vqs, -, -⟩ := not_not.mp done
  cases probe_late accepted vqs with
  | silent added missing err none holds =>
    rw [none] at ready
    cases ready
  | failed missing err none holds =>
    rw [none] at ready
    cases ready
  | ready n added created err some holds =>
    obtain rfl := Option.some.inj (some.symm.trans ready)
    -- the order in which the driver gives it back
    have order : registered (ringBufs d) d n = 0 + .ofList (present (d.rxRing != 0) .rbufs) +
        .ofList (present (d.rxRing != 0) .sbufs) + .ofList (pages .spages d.rxRing) +
        .ofList (pages .rpages d.rxRing) + ({.vqs} : Multiset Resource) +
        .ofList (present (n.toNat != 0) .channel) + .ofList (present d.debugfs .debugfs) +
        ({.chrdevRegion} : Multiset Resource) + ({.cdev} : Multiset Resource) +
        ({.deviceClass} : Multiset Resource) + ({.secureDevice} : Multiset Resource) +
        ({.device} : Multiset Resource) := by
      simp only [registered, channelsHeld, ringBufs, zero_add]
      ac_rfl
    rw [replay_append holds, order]
    simp only [virtFastrpcRemove, DeviceProbe.apps, pages, kfree, List.append_assoc,
      List.cons_append, List.nil_append, replay_release, replay_releases_append, replay_releases]

theorem ringBufs_eq_zero : ringBufs d = 0 ↔ d.rxRing = 0 := by
  constructor
  · intro empty
    by_contra some
    have taken : .rbufs ∈ ringBufs d := by
      simp [ringBufs, present, some]
    rw [empty] at taken
    exact Multiset.notMem_zero _ taken
  · intro none
    simp [ringBufs, none, present, pages]

/-- A failed probe reports an error and gives everything back exactly if it failed before the
queues were ready, or has no buffers to leak and failed before the class was created. -/
theorem probe_unwinds_iff (d : Device) : (Fails d → Unwound (virtFastrpcProbe d)) ↔
    ¬ Fails d ∨ ¬ (Accepted d ∧ VqsReady d) ∨ d.rxRing = 0 ∧ ¬ CdevAdded d := by
  by_cases fails : Fails d
  swap
  · exact ⟨fun _ => Or.inl fails, fun _ h => absurd h fails⟩
  by_cases early : Accepted d ∧ VqsReady d
  swap
  · exact ⟨fun _ => Or.inr (Or.inl early), fun _ _ => (probe_early early).1⟩
  cases probe_late early.1 early.2 with
  | ready n added created err ready holds =>
    exact absurd ⟨early.1, early.2, added, created⟩ fails
  | silent added missing err ready holds =>
    constructor
    · intro unwinds
      exact absurd err (unwinds fails).err
    · rintro (none | vqs | ⟨-, missing⟩)
      · exact absurd fails none
      · exact absurd early vqs
      · exact absurd added missing
  | failed missing err ready holds =>
    constructor
    · intro unwinds
      have released := holds.symm.trans (unwinds fails).released
      exact Or.inr (Or.inr ⟨ringBufs_eq_zero.mp (Option.some.inj released), missing⟩)
    · rintro (none | vqs | ⟨empty, -⟩) -
      · exact absurd fails none
      · exact absurd early vqs
      · exact ⟨err, by rw [holds, ringBufs_eq_zero.mpr empty]⟩

/-- A device is registered only if no step of its probe fails, and then removing it gives
everything back, each resource as often as it was acquired. -/
theorem registered_given_back (d : Device) (apps : Apps)
    (ready : (virtFastrpcProbe d).ready = some apps) :
    ¬ Fails d ∧ replay 0 ((virtFastrpcProbe d).trace ++ virtFastrpcRemove apps) = some 0 ∧
      ∀ r, ((virtFastrpcProbe d).trace ++ virtFastrpcRemove apps).count (.acquire r) =
        ((virtFastrpcProbe d).trace ++ virtFastrpcRemove apps).count (.release r) := by
  have released := remove_releases ready
  refine ⟨probe_ready_iff.mp (Option.isSome_iff_exists.mpr ⟨apps, ready⟩), released, fun r => ?_⟩
  have counts := replay_count released r
  simpa using counts

/-- A device with two rings of one buffer, on which `class_create` fails. -/
def noClass : Device where
  version1 := true
  version := some 0x60001
  maxBufSize := none
  domainNum := some 4
  feat := ⟨true, true, true⟩
  invokeAttr := true
  invokeCrc := true
  domainProperty := none
  findVqs := 0
  rxRing := 1
  txRing := 1
  rbufs := true
  sbufs := true
  rpages := fun _ => true
  spages := fun _ => true
  channel := true
  debugfs := true
  allocChrdevRegion := 0
  cdevAdd := 0
  classCreate := false
  deviceCreate := true
  secureDeviceCreate := true
  addInbuf := fun _ => 0

theorem noClass_unreported : Fails noClass ∧ (virtFastrpcProbe noClass).err = 0 ∧
    replay 0 (virtFastrpcProbe noClass).trace =
      some {.rbufs, .sbufs, .rpages 0, .spages 0} := by
  refine ⟨fun all => ?_, rfl, by decide⟩
  have created := all.2.2.2.1
  cases created

/-- Where the class is created, the device is registered. -/
theorem withClass_given_back : ∃ apps,
    (virtFastrpcProbe { noClass with classCreate := true }).ready = some apps ∧
      replay 0 ((virtFastrpcProbe { noClass with classCreate := true }).trace ++
        virtFastrpcRemove apps) = some 0 :=
  ⟨_, rfl, (registered_given_back { noClass with classCreate := true } _ rfl).2.1⟩

end DeviceProbe
