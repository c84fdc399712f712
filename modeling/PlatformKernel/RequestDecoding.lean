import PlatformKernel.PartialReads
import PlatformKernel.InvokeMessage
import PlatformKernel.CommandReturns

/-!
# What an ioctl takes from the memory of its caller

`vfastrpc_ioctl` copies a structure from the user and hands it to the handler of the
ioctl. A request is decoded here up to that point: the bytes of the structure as the
handler finds them, or the error returned before there is such a structure. INVOKE2 copies
twice, first its own structure and then the invocation that structure points to.

The structures are declared in headers outside this driver. Only their sizes and the
fields of `struct fastrpc_ioctl_invoke2` are needed.
-/

namespace RequestDecoding

open PartialReads ReturnCodes
open ControlPlane (SharedIds ChannelCtx)
open FileCommands (Features Invoke2Req asyncDomain)

/-- The memory of the caller; a place without contents makes `copy_from_user` fail. -/
abbrev Memory := UInt64 → Option UInt8

/-- The addresses of `n` bytes from `src` on. -/
def span (src : UInt64) (n : Nat) : List UInt64 :=
  (List.range n).map fun i => src + UInt64.ofNat i

def copyFromUser (mem : Memory) (src : UInt64) (n : Nat) : Option (List UInt8) :=
  readAll mem (span src n)

/-- Sizes of the structures, and the fields of `struct fastrpc_ioctl_invoke2`.
`struct fastrpc_ioctl_init_attrs` holds `struct fastrpc_ioctl_init` and two fields more. -/
structure Layout where
  invoke : Nat
  invokeFd : Nat
  invokeAttrs : Nat
  invokeCrc : Nat
  invokePerf : Nat
  invokeAsync : Nat
  asyncResponse : Nat
  invoke2 : Nat
  memMap : Nat
  memUnmap : Nat
  mmap : Nat
  munmap : Nat
  mmap64 : Nat
  munmap64 : Nat
  munmapFd : Nat
  control : Nat
  init : Nat
  initAttrs : Nat
  capability : Nat
  init_lt_initAttrs : init < initAttrs
  initAttrs_le : initAttrs ≤ 2 ^ 64
  req : List UInt8 → Invoke2Req
  invparam : List UInt8 → UInt64
  size : List UInt8 → UInt32

inductive IoctlNum where
  | invoke
  | invokeFd
  | invokeAttrs
  | invokeCrc
  | invokePerf
  | invoke2
  | memMap
  | memUnmap
  | mmap
  | munmap
  | mmap64
  | munmap64
  | munmapFd
  | setmode
  | control
  | getInfo
  | init
  | initAttrs
  | getDspInfo
  | unknown
  deriving DecidableEq

/-- What the handlers get: an invocation, another structure, the mode, the place for an
asynchronous response, or nothing because the request is refused. -/
inductive Request where
  | refused (err : Int)
  | invoke (inv : List UInt8)
  | image (num : IoctlNum) (bytes : List UInt8)
  | setmode (mode : UInt32)
  | asyncResponse (param : UInt64)
  deriving DecidableEq

/-- What the ioctl looks at besides the memory of the caller. -/
structure Context where
  ids : SharedIds
  feat : Features
  channel : Int → ChannelCtx
  file : ControlPlane.File
  fileClose : Bool

/-- `K_COPY_FROM_USER`, and what is done with the copy. -/
def fetch (mem : Memory) (src : UInt64) (n : Nat) (err : Int)
    (next : List UInt8 → Request) : Request :=
  match copyFromUser mem src n with
  | none => .refused err
  | some bytes => next bytes

/-- The INVOKE ioctls copy the front of `p.inv`, whose other fields are NULL. -/
def invokeIoctl (L : Layout) (mem : Memory) (param : UInt64) (size : Nat) : Request :=
  fetch mem param size verifyErr fun bytes =>
    .invoke (bytes ++ List.replicate (L.invokeAsync - size) 0)

/-- Asynchronous requests need a CDSP that supports them. -/
def asyncErr (c : Context) : Option Int :=
  if asyncDomain c.ids c.file = false then some verifyErr
  else if (c.channel c.file.domain).dspAttributes c.ids.asyncFastrpcCap ≠ 1 then
    some (-EPROTONOSUPPORT)
  else none

def vfastrpcInternalInvoke2 (L : Layout) (c : Context) (mem : Memory) (inv2 : List UInt8) :
    Request :=
  match L.req inv2 with
  | .async =>
    match asyncErr c with
    | some err => .refused err
    | none =>
      if L.invokeAsync < (L.size inv2).toNat then .refused (-EBADE)
      else fetch mem (L.invparam inv2) L.invokeAsync verifyErr .invoke
  | .asyncResponse =>
    match asyncErr c with
    | some err => .refused err
    | none =>
      if L.asyncResponse < (L.size inv2).toNat then .refused (-EBADE)
      else .asyncResponse (L.invparam inv2)
  | .other => .refused (-ENOTTY)

/-- The map ioctls check the feature before they copy. -/
def vfastrpcMmapIoctl (has : Bool) (num : IoctlNum) (mem : Memory) (param : UInt64) (n : Nat) :
    Request :=
  if has then fetch mem param n verifyErr (.image num) else .refused (-ENOTTY)

/-- INIT and INIT_ATTRS both copy `sizeof(*init)`, the larger structure. -/
def vfastrpcInitIoctl (L : Layout) (num : IoctlNum) (mem : Memory) (param : UInt64) : Request :=
  fetch mem param L.initAttrs verifyErr (.image num)

def vfastrpcIoctl (L : Layout) (c : Context) (num : IoctlNum) (mem : Memory) (param : UInt64) :
    Request :=
  if c.fileClose then .refused (-EBADF)
  else
    match num with
    | .invoke => invokeIoctl L mem param L.invoke
    | .invokeFd => invokeIoctl L mem param L.invokeFd
    | .invokeAttrs => invokeIoctl L mem param L.invokeAttrs
    | .invokeCrc => invokeIoctl L mem param L.invokeCrc
    | .invokePerf => invokeIoctl L mem param L.invokePerf
    | .invoke2 => fetch mem param L.invoke2 (-EFAULT) (vfastrpcInternalInvoke2 L c mem)
    | .memMap => vfastrpcMmapIoctl c.feat.hasMemMap num mem param L.memMap
    | .memUnmap => vfastrpcMmapIoctl c.feat.hasMemMap num mem param L.memUnmap
    | .mmap => vfastrpcMmapIoctl c.feat.hasMmap num mem param L.mmap
    | .munmap => vfastrpcMmapIoctl c.feat.hasMmap num mem param L.munmap
    | .mmap64 => vfastrpcMmapIoctl c.feat.hasMmap num mem param L.mmap64
    | .munmap64 => vfastrpcMmapIoctl c.feat.hasMmap num mem param L.munmap64
    | .munmapFd => vfastrpcMmapIoctl true num mem param L.munmapFd
    | .setmode => .setmode param.toUInt32
    | .control => fetch mem param L.control verifyErr (.image num)
    | .getInfo => fetch mem param 4 verifyErr (.image num)
    | .init => vfastrpcInitIoctl L num mem param
    | .initAttrs => vfastrpcInitIoctl L num mem param
    | .getDspInfo => fetch mem param L.capability verifyErr (.image num)
    | .unknown => .refused (-ENOTTY)

def declaredSize (L : Layout) : IoctlNum → Nat
  | .invoke => L.invoke
  | .invokeFd => L.invokeFd
  | .invokeAttrs => L.invokeAttrs
  | .invokeCrc => L.invokeCrc
  | .invokePerf => L.invokePerf
  | .invoke2 => L.invoke2
  | .memMap => L.memMap
  | .memUnmap => L.memUnmap
  | .mmap => L.mmap
  | .munmap => L.munmap
  | .mmap64 => L.mmap64
  | .munmap64 => L.munmap64
  | .munmapFd => L.munmapFd
  | .setmode => 0
  | .control => L.control
  | .getInfo => 4
  | .init => L.init
  | .initAttrs => L.initAttrs
  | .getDspInfo => L.capability
  | .unknown => 0

/-- The structure at the argument of the ioctl and, for an asynchronous invocation, as many
bytes of it as INVOKE2 says. -/
def Declared (L : Layout) (num : IoctlNum) (mem : Memory) (param a : UInt64) : Prop :=
  a ∈ span param (declaredSize L num) ∨
    num = .invoke2 ∧ ∃ inv2 ∈ copyFromUser mem param L.invoke2,
      L.req inv2 = .async ∧ a ∈ span (L.invparam inv2) (L.size inv2).toNat

/-- Every memory with the same declared bytes gives the same request. -/
def Determined (L : Layout) (c : Context) (num : IoctlNum) (mem : Memory) (param : UInt64) :
    Prop :=
  ∀ mem', Agree (Declared L num mem param) mem mem' →
    vfastrpcIoctl L c num mem' param = vfastrpcIoctl L c num mem param

def Readable (mem : Memory) (as : List UInt64) : Prop :=
  ∀ a ∈ as, mem a ≠ none

/-- The requests for which more is copied than they declare: an INIT whose structure can be
read, and an asynchronous INVOKE2 that is not refused, whose declared bytes can be read
while the whole invocation has bytes that were not declared. -/
def Overreads (L : Layout) (c : Context) (num : IoctlNum) (mem : Memory) (param : UInt64) :
    Prop :=
  c.fileClose = false ∧
    match num with
    | .init => Readable mem (span param L.init)
    | .invoke2 => ∃ inv2 ∈ copyFromUser mem param L.invoke2,
        L.req inv2 = .async ∧ asyncErr c = none ∧ (L.size inv2).toNat ≤ L.invokeAsync ∧
        Readable mem (span (L.invparam inv2) (L.size inv2).toNat) ∧
        ∃ a ∈ span (L.invparam inv2) L.invokeAsync,
          a ∉ span (L.invparam inv2) (L.size inv2).toNat ∧ a ∉ span param L.invoke2
    | _ => False

theorem mem_span {src a : UInt64} {n : Nat} :
    a ∈ span src n ↔ ∃ i < n, src + UInt64.ofNat i = a := by
  simp [span]

theorem span_mono {src a : UInt64} {m n : Nat} (hle : m ≤ n) (ha : a ∈ span src m) :
    a ∈ span src n := by
  obtain ⟨i, hi, rfl⟩ := mem_span.mp ha
  exact mem_span.mpr ⟨i, lt_of_lt_of_le hi hle, rfl⟩

/-- The first byte after a structure is not one of its bytes. -/
theorem span_end {src : UInt64} {n : Nat} (hn : n < 2 ^ 64) :
    src + UInt64.ofNat n ∉ span src n := by
  intro hmem
  obtain ⟨i, hi, he⟩ := mem_span.mp hmem
  have heq : UInt64.ofNat i = UInt64.ofNat n := (UInt64.add_right_inj src).mp he
  have hval := congrArg UInt64.toNat heq
  rw [UInt64.toNat_ofNat_of_lt' (lt_trans hi hn), UInt64.toNat_ofNat_of_lt' hn] at hval
  omega

variable {L : Layout} {c : Context} {num : IoctlNum} {mem mem' : Memory} {param src : UInt64}
  {n : Nat} {err : Int} {next : List UInt8 → Request} {region : UInt64 → Prop}

theorem fetch_of_copy {bytes : List UInt8} (hcopy : copyFromUser mem src n = some bytes) :
    fetch mem src n err next = next bytes := by
  rw [fetch, hcopy]

theorem fetch_of_fault (hcopy : copyFromUser mem src n = none) :
    fetch mem src n err next = .refused err := by
  rw [fetch, hcopy]

/-- A copy within the region gives the same request wherever the region is the same. -/
theorem fetch_within (agree : Agree region mem mem') (within : ∀ a ∈ span src n, region a) :
    fetch mem' src n err next = fetch mem src n err next := by
  have hcopy : copyFromUser mem' src n = copyFromUser mem src n :=
    fixed_of_within within mem' agree
  rw [fetch, fetch, hcopy]

/-- A structure that is passed on as it was copied shows whatever the copy depends on. -/
theorem fetch_iff (hinj : Function.Injective next) (hne : ∀ bytes, next bytes ≠ .refused err) :
    (∀ mem', Agree region mem mem' → fetch mem' src n err next = fetch mem src n err next) ↔
      Fixed region mem (span src n) := by
  have same : ∀ mem', fetch mem' src n err next = fetch mem src n err next ↔
      copyFromUser mem' src n = copyFromUser mem src n := by
    intro mem'
    cases hnew : copyFromUser mem' src n with
    | none =>
      rw [fetch_of_fault hnew]
      cases hold : copyFromUser mem src n with
      | none => simp [fetch_of_fault hold]
      | some bytes => simp [fetch_of_copy hold, (hne bytes).symm]
    | some new =>
      rw [fetch_of_copy hnew]
      cases hold : copyFromUser mem src n with
      | none => simp [fetch_of_fault hold, hne new]
      | some bytes => simp [fetch_of_copy hold, hinj.eq_iff]
  constructor
  · intro h mem' agree
    exact (same mem').mp (h mem' agree)
  · intro h mem' agree
    exact (same mem').mpr (h mem' agree)

theorem init_declared {a : UInt64} :
    Declared L .init mem param a ↔ a ∈ span param L.init := by
  simp [Declared, declaredSize]

theorem init_fixed_iff :
    Fixed (Declared L .init mem param) mem (span param L.initAttrs) ↔
      ¬ Readable mem (span param L.init) := by
  rw [fixed_iff]
  constructor
  · rintro (within | ⟨a, _, hdeclared, hnone⟩) hread
    · have hlast : param + UInt64.ofNat L.init ∈ span param L.initAttrs :=
        mem_span.mpr ⟨L.init, L.init_lt_initAttrs, rfl⟩
      exact span_end (lt_of_lt_of_le L.init_lt_initAttrs L.initAttrs_le)
        (init_declared.mp (within _ hlast))
    · exact hread a (init_declared.mp hdeclared) hnone
  · intro hread
    obtain ⟨a, ha⟩ := not_forall.mp hread
    obtain ⟨hmem, hnone⟩ := Classical.not_imp.mp ha
    exact .inr ⟨a, span_mono (le_of_lt L.init_lt_initAttrs) hmem, init_declared.mpr hmem,
      not_not.mp hnone⟩

/-- The requests for which INVOKE2 copies an invocation. -/
structure CopiesInvoke (L : Layout) (c : Context) (inv2 : List UInt8) : Prop where
  async : L.req inv2 = .async
  supported : asyncErr c = none
  size : (L.size inv2).toNat ≤ L.invokeAsync

theorem invoke2_copies {inv2 : List UInt8} (h : CopiesInvoke L c inv2) :
    vfastrpcInternalInvoke2 L c mem inv2 =
      fetch mem (L.invparam inv2) L.invokeAsync verifyErr .invoke := by
  simp only [vfastrpcInternalInvoke2, h.async, h.supported, if_neg (Nat.not_lt.mpr h.size)]

theorem invoke2_copies_not {inv2 : List UInt8} (h : ¬ CopiesInvoke L c inv2) :
    vfastrpcInternalInvoke2 L c mem' inv2 = vfastrpcInternalInvoke2 L c mem inv2 := by
  unfold vfastrpcInternalInvoke2
  cases hreq : L.req inv2 with
  | asyncResponse => rfl
  | other => rfl
  | async =>
    cases herr : asyncErr c with
    | some err => rfl
    | none =>
      have hsize : L.invokeAsync < (L.size inv2).toNat :=
        Nat.not_le.mp fun hle => h ⟨hreq, herr, hle⟩
      simp only [if_pos hsize]

section copied

variable {inv2 : List UInt8} (hcopy : copyFromUser mem param L.invoke2 = some inv2)

include hcopy

theorem invoke2_declared (hreq : L.req inv2 = .async) {a : UInt64} :
    Declared L .invoke2 mem param a ↔
      a ∈ span param L.invoke2 ∨ a ∈ span (L.invparam inv2) (L.size inv2).toNat := by
  simp [Declared, declaredSize, hcopy, hreq]

theorem invoke2_fixed_iff (h : CopiesInvoke L c inv2) :
    Fixed (Declared L .invoke2 mem param) mem (span (L.invparam inv2) L.invokeAsync) ↔
      ¬ (Readable mem (span (L.invparam inv2) (L.size inv2).toNat) ∧
        ∃ a ∈ span (L.invparam inv2) L.invokeAsync,
          a ∉ span (L.invparam inv2) (L.size inv2).toNat ∧ a ∉ span param L.invoke2) := by
  have declared {a : UInt64} := invoke2_declared hcopy h.async (a := a)
  have header : Readable mem (span param L.invoke2) := by
    intro a ha hnone
    have hfault : copyFromUser mem param L.invoke2 = none :=
      readAll_eq_none.mpr ⟨a, ha, hnone⟩
    rw [hcopy] at hfault
    cases hfault
  rw [fixed_iff]
  constructor
  · rintro (within | ⟨a, _, hdeclared, hnone⟩) ⟨hread, b, hb, hsize, hheader⟩
    · rcases declared.mp (within b hb) with hin | hin
      · exact hheader hin
      · exact hsize hin
    · rcases declared.mp hdeclared with hin | hin
      · exact header a hin hnone
      · exact hread a hin hnone
  · intro hnot
    by_cases within : ∀ a ∈ span (L.invparam inv2) L.invokeAsync,
        Declared L .invoke2 mem param a
    · exact .inl within
    · right
      push Not at within
      obtain ⟨b, hb, hout⟩ := within
      have hread : ¬ Readable mem (span (L.invparam inv2) (L.size inv2).toNat) := fun hread =>
        hnot ⟨hread, b, hb, fun hin => hout (declared.mpr (.inr hin)),
          fun hin => hout (declared.mpr (.inl hin))⟩
      unfold Readable at hread
      push Not at hread
      obtain ⟨a, ha, hnone⟩ := hread
      exact ⟨a, span_mono h.size ha, declared.mpr (.inr ha), hnone⟩

end copied

theorem invoke2_header (agree : Agree (Declared L .invoke2 mem param) mem mem') :
    copyFromUser mem' param L.invoke2 = copyFromUser mem param L.invoke2 :=
  fixed_of_within (fun _ ha => .inl ha) mem' agree

theorem invoke2_determined_iff (hclose : c.fileClose = false) :
    Determined L c .invoke2 mem param ↔ ¬ Overreads L c .invoke2 mem param := by
  have overreads : Overreads L c .invoke2 mem param ↔
      ∃ inv2 ∈ copyFromUser mem param L.invoke2, CopiesInvoke L c inv2 ∧
        Readable mem (span (L.invparam inv2) (L.size inv2).toNat) ∧
        ∃ a ∈ span (L.invparam inv2) L.invokeAsync,
          a ∉ span (L.invparam inv2) (L.size inv2).toNat ∧ a ∉ span param L.invoke2 := by
    constructor
    · rintro ⟨_, inv2, hmem, hreq, herr, hsize, hrest⟩
      exact ⟨inv2, hmem, ⟨hreq, herr, hsize⟩, hrest⟩
    · rintro ⟨inv2, hmem, ⟨hreq, herr, hsize⟩, hrest⟩
      exact ⟨hclose, inv2, hmem, hreq, herr, hsize, hrest⟩
  have ioctl : ∀ mem', vfastrpcIoctl L c .invoke2 mem' param =
      fetch mem' param L.invoke2 (-EFAULT) (vfastrpcInternalInvoke2 L c mem') := by
    intro mem'
    rw [vfastrpcIoctl, hclose]
    rfl
  rw [overreads]
  cases hcopy : copyFromUser mem param L.invoke2 with
  | none =>
    refine iff_of_true ?_ (by simp)
    intro mem' agree
    rw [ioctl, ioctl, fetch_of_fault hcopy,
      fetch_of_fault ((invoke2_header agree).trans hcopy)]
  | some inv2 =>
    have second : Determined L c .invoke2 mem param ↔
        ∀ mem', Agree (Declared L .invoke2 mem param) mem mem' →
          vfastrpcInternalInvoke2 L c mem' inv2 = vfastrpcInternalInvoke2 L c mem inv2 := by
      refine forall₂_congr fun mem' agree => ?_
      rw [ioctl, ioctl, fetch_of_copy hcopy,
        fetch_of_copy ((invoke2_header agree).trans hcopy)]
    rw [second]
    by_cases h : CopiesInvoke L c inv2
    · simp only [invoke2_copies h]
      rw [fetch_iff (fun _ _ he => Request.invoke.inj he) (fun _ he => by cases he),
        invoke2_fixed_iff hcopy h]
      simp [h]
    · refine iff_of_true (fun mem' _ => invoke2_copies_not h) ?_
      rintro ⟨inv2', hmem, h', _⟩
      cases hmem
      exact h h'

/-- Apart from INIT and INVOKE2 an ioctl copies the structure it declares. -/
theorem other_determined (hinit : num ≠ .init) (hinvoke2 : num ≠ .invoke2) :
    Determined L c num mem param := by
  intro mem' agree
  have whole : ∀ {err next}, fetch mem' param (declaredSize L num) err next =
      fetch mem param (declaredSize L num) err next :=
    fetch_within agree fun a ha => .inl ha
  unfold vfastrpcIoctl
  split
  · rfl
  · cases num with
    | init => exact False.elim (hinit rfl)
    | invoke2 => exact False.elim (hinvoke2 rfl)
    | setmode => rfl
    | unknown => rfl
    | invoke | invokeFd | invokeAttrs | invokeCrc | invokePerf => exact whole
    | control | getInfo | initAttrs | getDspInfo => exact whole
    | munmapFd => exact whole
    | memMap | memUnmap | mmap | munmap | mmap64 | munmap64 =>
      simp only [vfastrpcMmapIoctl]
      split
      · exact whole
      · rfl

/-- A request is fixed by the bytes it declares, except where more is copied. -/
theorem request_determined_iff (L : Layout) (c : Context) (num : IoctlNum) (mem : Memory)
    (param : UInt64) : Determined L c num mem param ↔ ¬ Overreads L c num mem param := by
  by_cases hclose : c.fileClose
  · have closed : ∀ mem', vfastrpcIoctl L c num mem' param = .refused (-EBADF) := by
      intro mem'
      unfold vfastrpcIoctl
      rw [if_pos hclose]
    refine iff_of_true (fun mem' _ => ?_) fun h => ?_
    · rw [closed, closed]
    · rw [h.1] at hclose
      cases hclose
  rw [Bool.not_eq_true] at hclose
  by_cases hinvoke2 : num = .invoke2
  · subst hinvoke2
    exact invoke2_determined_iff hclose
  by_cases hinit : num = .init
  · subst hinit
    have ioctl : ∀ mem', vfastrpcIoctl L c .init mem' param =
        fetch mem' param L.initAttrs verifyErr (.image .init) := by
      intro mem'
      rw [vfastrpcIoctl, hclose]
      rfl
    simp only [Determined, ioctl]
    rw [fetch_iff (fun _ _ he => (Request.image.inj he).2) (fun _ he => by cases he),
      init_fixed_iff]
    simp [Overreads, hclose]
  · refine iff_of_true (other_determined hinit hinvoke2) fun h => ?_
    obtain ⟨_, h⟩ := h
    cases num with
    | init => exact hinit rfl
    | invoke2 => exact hinvoke2 rfl
    | _ => exact h

/-- A little-endian field. -/
def field (bytes : List UInt8) (offset n : Nat) : Nat :=
  ((bytes.drop offset).take n).foldr (fun b acc => b.toNat + 256 * acc) 0

/-- The sizes of a 64-bit kernel, where FASTRPC_INVOKE2_ASYNC is 1. -/
def lp64 : Layout where
  invoke := 16
  invokeFd := 24
  invokeAttrs := 32
  invokeCrc := 40
  invokePerf := 56
  invokeAsync := 64
  asyncResponse := 40
  invoke2 := 24
  memMap := 48
  memUnmap := 32
  mmap := 32
  munmap := 16
  mmap64 := 32
  munmap64 := 16
  munmapFd := 24
  control := 16
  init := 40
  initAttrs := 48
  capability := 12
  init_lt_initAttrs := by decide
  initAttrs_le := by decide
  req bytes :=
    match field bytes 0 4 with
    | 1 => .async
    | 2 => .asyncResponse
    | _ => .other
  invparam bytes := UInt64.ofNat (field bytes 8 8)
  size bytes := UInt32.ofNat (field bytes 16 4)

/-- Memory that is zero except at the listed places. -/
def holding (bytes : List (UInt64 × UInt8)) : Memory :=
  fun a => some ((bytes.lookup a).getD 0)

/-- A file on a CDSP with asynchronous invocations. -/
def asyncContext : Context where
  ids := ProcessAccess.headerIds
  feat := ⟨true, true, true⟩
  channel := fun _ => ⟨false, true, true, fun _ => 1⟩
  file := { ControlPlane.vfastrpcFileAlloc .dev ⟨1, 1⟩ with domain := 3 }
  fileClose := false

/-- An INVOKE2 at 0x1000 that declares 56 bytes, all but the job, at 0x2000. -/
def perfInvoke : List (UInt64 × UInt8) :=
  [(0x1000, 1), (0x1009, 0x20), (0x1010, 56)]

theorem holding_copy : copyFromUser (holding perfInvoke) 0x1000 lp64.invoke2 =
    some ([1, 0, 0, 0, 0, 0, 0, 0] ++ [0, 0x20, 0, 0, 0, 0, 0, 0] ++
      [56, 0, 0, 0, 0, 0, 0, 0]) := by
  decide +kernel

/-- The byte after `struct fastrpc_ioctl_init` becomes `attrs`, here the flag of an unsigned
module, and the byte after the 56 declared ones becomes the job of the invocation. -/
theorem undeclared_bytes_decoded :
    (Agree (Declared lp64 .init (holding []) 0x1000) (holding []) (holding [(0x1028, 8)]) ∧
      vfastrpcIoctl lp64 asyncContext .init (holding []) 0x1000 =
        .image .init (List.replicate 48 0) ∧
      vfastrpcIoctl lp64 asyncContext .init (holding [(0x1028, 8)]) 0x1000 =
        .image .init (List.replicate 40 0 ++ [8, 0, 0, 0, 0, 0, 0, 0])) ∧
    (Agree (Declared lp64 .invoke2 (holding perfInvoke) 0x1000) (holding perfInvoke)
        (holding ((0x2038, 1) :: perfInvoke)) ∧
      vfastrpcIoctl lp64 asyncContext .invoke2 (holding perfInvoke) 0x1000 =
        .invoke (List.replicate 64 0) ∧
      vfastrpcIoctl lp64 asyncContext .invoke2 (holding ((0x2038, 1) :: perfInvoke)) 0x1000 =
        .invoke (List.replicate 56 0 ++ [1, 0, 0, 0, 0, 0, 0, 0])) := by
  refine ⟨⟨fun a ha => ?_, by decide +kernel, by decide +kernel⟩,
    fun a ha => ?_, by decide +kernel, by decide +kernel⟩
  -- over the list, not over all of `UInt64`
  · have same : (span 0x1000 40).all fun a => holding [(0x1028, 8)] a == holding [] a := by
      decide +kernel
    exact beq_iff_eq.mp (List.all_eq_true.mp same a (init_declared.mp ha))
  · have same : (span 0x1000 24 ++ span 0x2000 56).all fun a =>
        holding ((0x2038, 1) :: perfInvoke) a == holding perfInvoke a := by
      decide +kernel
    have declared := List.mem_append.mpr ((invoke2_declared holding_copy (by decide)).mp ha)
    exact beq_iff_eq.mp (List.all_eq_true.mp same a declared)

end RequestDecoding
