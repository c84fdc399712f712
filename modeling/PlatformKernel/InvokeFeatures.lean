import PlatformKernel.RequestDecoding

/-!
# Invocations and the features of the device

Attributes and checksums of an invocation are features the device may lack. Every ioctl
that carries an invocation is followed here from the memory of its caller to the message
that is sent for it: INVOKE, INVOKE_FD, INVOKE_ATTRS, INVOKE_CRC and INVOKE_PERF look at
the features in `vfastrpc_ioctl`, an asynchronous INVOKE2 does not.
-/

namespace InvokeFeatures

open RequestDecoding CommandReturns ReturnCodes
open FileOperations (Tid savedOf)

/-- Fields of `struct fastrpc_ioctl_invoke_async`. -/
structure Fields where
  handle : List UInt8 → UInt32
  sc : List UInt8 → UInt32
  attrs : List UInt8 → UInt64
  crc : List UInt8 → UInt64

def Fields.args (F : Fields) (tid : Tid) (inv : List UInt8) : InvokeArgs where
  pid := tid
  handle := F.handle inv
  sc := F.sc inv
  hasAttrs := F.attrs inv != 0
  hasCrc := F.crc inv != 0

/-- What the ioctl looks at before there is an invocation. -/
def context (d : Device) (s : State) : Context where
  ids := d.ids
  feat := d.feat
  channel := d.channel
  file := s.ctl
  fileClose := s.fileClose

/-- How far an invocation gets once it is let through. -/
inductive Progress where
  | allocFailed
  | argsFailed
  | sendFailed
  | sent
  deriving DecidableEq

/-- The invocation that `vfastrpc_internal_invoke` sends an INVOKE for. A call that resumes
an interrupted context waits for the message sent before. -/
def internalInvoke (d : Device) (s : State) (inv : InvokeArgs) (p : Progress) :
    Option InvokeArgs :=
  if inv.handle = d.kernelHandle then none
  else if ¬ (0 ≤ s.ctl.domain ∧ s.ctl.domain < d.numChannels.toNat) then none
  else
    match savedOf s.file inv.pid with
    | some _ => none
    | none => if p = .sent then some inv else none

/-- `vfastrpc_ioctl`: the branch of INVOKE2 goes straight to `vfastrpc_internal_invoke`. -/
def invokeSent (L : Layout) (F : Fields) (d : Device) (s : State) (tid : Tid) (num : IoctlNum)
    (mem : Memory) (param : UInt64) (p : Progress) : Option InvokeArgs :=
  match vfastrpcIoctl L (context d s) num mem param with
  | .invoke bytes =>
    if num ≠ .invoke2 ∧ checkInvokeSupported d (F.args tid bytes) ≠ 0 then none
    else internalInvoke d s (F.args tid bytes) p
  | _ => none

/-- The device has what the invocation asks for. -/
def Supported (d : Device) (inv : InvokeArgs) : Prop :=
  (inv.hasAttrs = true → d.hasInvokeAttr = true) ∧ (inv.hasCrc = true → d.hasInvokeCrc = true)

/-- The invocation gets past the checks of `vfastrpc_internal_invoke` and is sent. -/
def Reaches (d : Device) (s : State) (inv : InvokeArgs) (p : Progress) : Prop :=
  inv.handle ≠ d.kernelHandle ∧ (0 ≤ s.ctl.domain ∧ s.ctl.domain < d.numChannels.toNat) ∧
    savedOf s.file inv.pid = none ∧ p = .sent

/-- An asynchronous INVOKE2 of an open file that passes the checks of INVOKE2, whose
invocation asks for more than the device has and is sent. -/
def Unchecked (L : Layout) (F : Fields) (d : Device) (s : State) (tid : Tid) (num : IoctlNum)
    (mem : Memory) (param : UInt64) (p : Progress) : Prop :=
  num = .invoke2 ∧ s.fileClose = false ∧
    ∃ inv2 ∈ copyFromUser mem param L.invoke2, CopiesInvoke L (context d s) inv2 ∧
      ∃ bytes ∈ copyFromUser mem (L.invparam inv2) L.invokeAsync,
        ¬ Supported d (F.args tid bytes) ∧ Reaches d s (F.args tid bytes) p

section paths

variable {L : Layout} {F : Fields} {d : Device} {s : State} {tid : Tid} {num : IoctlNum}
  {mem : Memory} {param : UInt64} {p : Progress} {inv : InvokeArgs} {bytes : List UInt8}

theorem check_iff : checkInvokeSupported d inv = 0 ↔ Supported d inv := by
  unfold checkInvokeSupported Supported
  cases inv.hasAttrs <;> cases inv.hasCrc <;> cases d.hasInvokeAttr <;> cases d.hasInvokeCrc <;>
    decide

theorem internalInvoke_some {m : InvokeArgs} :
    internalInvoke d s inv p = some m ↔ inv = m ∧ Reaches d s inv p := by
  unfold internalInvoke
  constructor
  · intro sent
    split_ifs at sent with kernel domain last
    · split at sent
      · cases sent
      · rename_i fresh
        exact ⟨Option.some.inj sent, kernel, domain, fresh, last⟩
    · split at sent <;> cases sent
  · rintro ⟨rfl, kernel, domain, fresh, last⟩
    rw [if_neg kernel, if_neg (not_not.mpr domain), fresh]
    exact if_pos last

/-- INVOKE2 has an invocation only after it copied one. -/
theorem invoke2_invokes {c : Context} {inv2 : List UInt8}
    (decoded : vfastrpcInternalInvoke2 L c mem inv2 = .invoke bytes) :
    CopiesInvoke L c inv2 ∧ copyFromUser mem (L.invparam inv2) L.invokeAsync = some bytes := by
  have copies : CopiesInvoke L c inv2 := by
    unfold vfastrpcInternalInvoke2 at decoded
    cases req : L.req inv2 with
    | other => simp [req] at decoded
    | asyncResponse =>
      cases err : asyncErr c <;> simp [req, err] at decoded
      split_ifs at decoded
    | async =>
      cases err : asyncErr c with
      | some e => simp [req, err] at decoded
      | none =>
        refine ⟨req, err, Nat.not_lt.mp fun large => ?_⟩
        simp [req, err, large] at decoded
  refine ⟨copies, ?_⟩
  rw [invoke2_copies copies] at decoded
  cases copy : copyFromUser mem (L.invparam inv2) L.invokeAsync with
  | none =>
    rw [fetch_of_fault copy] at decoded
    cases decoded
  | some inner =>
    rw [fetch_of_copy copy] at decoded
    exact congrArg some (Request.invoke.inj decoded)

theorem invoke2_decodes {c : Context} : vfastrpcIoctl L c .invoke2 mem param = .invoke bytes ↔
    c.fileClose = false ∧ ∃ inv2 ∈ copyFromUser mem param L.invoke2, CopiesInvoke L c inv2 ∧
      bytes ∈ copyFromUser mem (L.invparam inv2) L.invokeAsync := by
  constructor
  · intro decoded
    unfold vfastrpcIoctl at decoded
    split_ifs at decoded with close
    refine ⟨eq_false_of_ne_true close, ?_⟩
    cases outer : copyFromUser mem param L.invoke2 with
    | none =>
      rw [fetch_of_fault outer] at decoded
      cases decoded
    | some inv2 =>
      rw [fetch_of_copy outer] at decoded
      exact ⟨inv2, rfl, invoke2_invokes decoded⟩
  · rintro ⟨close, inv2, outer, copies, inner⟩
    rw [vfastrpcIoctl, close]
    simp only [Bool.false_eq_true, if_false]
    rw [fetch_of_copy outer, invoke2_copies copies, fetch_of_copy inner]

/-- What is sent was decoded, got past its checks and, unless it came by INVOKE2, is
supported. -/
theorem invokeSent_some {m : InvokeArgs} : invokeSent L F d s tid num mem param p = some m ↔
    ∃ bytes, vfastrpcIoctl L (context d s) num mem param = .invoke bytes ∧
      m = F.args tid bytes ∧ (num = .invoke2 ∨ Supported d m) ∧ Reaches d s m p := by
  unfold invokeSent
  cases decoded : vfastrpcIoctl L (context d s) num mem param with
  | invoke bytes =>
    constructor
    · intro sent
      simp only at sent
      split_ifs at sent with refused
      obtain ⟨rfl, reaches⟩ := internalInvoke_some.mp sent
      refine ⟨bytes, rfl, rfl, ?_, reaches⟩
      by_cases async : num = .invoke2
      · exact Or.inl async
      · exact Or.inr (check_iff.mp (not_not.mp fun failed => refused ⟨async, failed⟩))
    · rintro ⟨_, same, rfl, checked, reaches⟩
      obtain rfl := Request.invoke.inj same
      have through : ¬ (num ≠ .invoke2 ∧ checkInvokeSupported d (F.args tid bytes) ≠ 0) := by
        rintro ⟨sync, failed⟩
        rcases checked with async | supported
        · exact sync async
        · exact failed (check_iff.mpr supported)
      simp only [if_neg through]
      exact internalInvoke_some.mpr ⟨rfl, reaches⟩
  | refused err => simp
  | image num bytes => simp
  | setmode mode => simp
  | asyncResponse place => simp

/-- Every INVOKE is one that the handlers of the file let through. -/
theorem sent_accepts {drv : ControlPlane.Driver} (channels : drv.numChannels = d.numChannels)
    (channel : drv.channel = d.channel) (sent : invokeSent L F d s tid num mem param p = some inv) :
    FileCommands.accepts d.feat drv.numChannels s.ctl .cmdInvoke = true ∧
      (num = .invoke2 → FileCommands.invoke2Accepts d.ids d.feat drv s.ctl .async = true) := by
  obtain ⟨bytes, decoded, -, -, -, domain, -⟩ := invokeSent_some.mp sent
  have accepts : FileCommands.accepts d.feat drv.numChannels s.ctl .cmdInvoke = true := by
    rw [channels]
    exact decide_eq_true domain
  refine ⟨accepts, ?_⟩
  rintro rfl
  obtain ⟨-, inv2, -, copies, -⟩ := invoke2_decodes.mp decoded
  have async := copies.supported
  unfold asyncErr at async
  split_ifs at async with cdsp capability
  have served : (d.channel s.ctl.domain).dspAttributes d.ids.asyncFastrpcCap = 1 :=
    not_not.mp capability
  have domain : FileCommands.asyncDomain d.ids s.ctl = true := eq_true_of_ne_false cdsp
  simp [FileCommands.invoke2Accepts, accepts, channel, served, domain]

/-- An INVOKE is sent for each synchronous invocation that has an answer of its own. -/
theorem answered_sent {k : FileMaps.Uapi} {copyOut : Bool} {last : InvokeEnd}
    (reply : (internal k d s copyOut (.invoke inv last)).reply ≠ none)
    (own : (internal k d s copyOut (.invoke inv last)).own = true) :
    checkInvokeSupported d inv = 0 ∧ internalInvoke d s inv .sent = some inv := by
  simp only [internal] at reply own
  by_cases missing : checkInvokeSupported d inv ≠ 0
  · rw [if_pos missing] at reply
    exact absurd rfl reply
  rw [if_neg missing] at reply own
  refine ⟨not_not.mp missing, internalInvoke_some.mpr ⟨rfl, ?_⟩⟩
  · unfold vfastrpcInternalInvoke at reply own
    by_cases kernel : inv.handle = d.kernelHandle
    · rw [if_pos kernel] at reply
      exact absurd rfl reply
    rw [if_neg kernel] at reply own
    by_cases domain : 0 ≤ s.ctl.domain ∧ s.ctl.domain < d.numChannels.toNat
    swap
    · rw [if_pos domain] at reply
      exact absurd rfl reply
    rw [if_neg (not_not.mpr domain)] at reply own
    cases found : savedOf s.file inv.pid with
    | none => exact ⟨kernel, domain, found, rfl⟩
    | some c =>
      -- the answer is to the interrupted call
      rw [found] at reply own
      simp only at reply own
      split_ifs at reply own with sc
      · exact absurd rfl reply
      · cases last <;> simp [InvokeEnd.outcome, Outcome.refused] at reply own

end paths

/-- An INVOKE goes out for what the device does not support exactly if it comes from an
INVOKE2 that nothing else stops. -/
theorem invoke_supported_iff (L : Layout) (F : Fields) (d : Device) (s : State) (tid : Tid)
    (num : IoctlNum) (mem : Memory) (param : UInt64) (p : Progress) :
    (∀ inv ∈ invokeSent L F d s tid num mem param p, Supported d inv) ↔
      ¬ Unchecked L F d s tid num mem param p := by
  constructor
  · rintro supported ⟨rfl, close, inv2, outer, copies, bytes, inner, missing, reaches⟩
    have decoded := invoke2_decodes.mpr ⟨close, inv2, outer, copies, inner⟩
    exact missing (supported _ (invokeSent_some.mpr ⟨bytes, decoded, rfl, Or.inl rfl, reaches⟩))
  · intro checked inv sent
    obtain ⟨bytes, decoded, rfl, gate, reaches⟩ := invokeSent_some.mp sent
    rcases gate with rfl | supported
    · obtain ⟨close, inv2, outer, copies, inner⟩ := invoke2_decodes.mp decoded
      by_contra missing
      exact checked ⟨rfl, close, inv2, outer, copies, bytes, inner, missing, reaches⟩
    · exact supported

def lp64Fields : Fields where
  handle bytes := UInt32.ofNat (field bytes 0 4)
  sc bytes := UInt32.ofNat (field bytes 4 4)
  attrs bytes := UInt64.ofNat (field bytes 24 8)
  crc bytes := UInt64.ofNat (field bytes 32 8)

/-- A CDSP with asynchronous invocations, but neither attributes nor checksums. -/
def plainDevice : Device :=
  ⟨ProcessAccess.headerIds, 4, fun _ => ⟨false, true, true, fun _ => 1⟩, ⟨true, true, true⟩,
    false, false, 1⟩

def cdspFile : State :=
  ⟨{ ControlPlane.vfastrpcFileAlloc .dev ⟨1, 1⟩ with domain := 3 }, FileOperations.File.opened,
    false⟩

/-- An INVOKE2 at 0x1000 for the 64 bytes at 0x2000, of handle 5 and with attributes at
0x3000. -/
def attrsInvoke : List (UInt64 × UInt8) :=
  [(0x1000, 1), (0x1009, 0x20), (0x1010, 64), (0x2000, 5), (0x2019, 0x30)]

theorem attrs_sent_unchecked : plainDevice.hasInvokeAttr = false ∧
    (invokeSent lp64 lp64Fields plainDevice cdspFile 7 .invoke2 (holding attrsInvoke) 0x1000
      .sent).map InvokeArgs.hasAttrs = some true := by
  decide +kernel

/-- INVOKE_ATTRS refuses the same invocation. -/
example : (invokeSent lp64 lp64Fields plainDevice cdspFile 7 .invokeAttrs (holding attrsInvoke)
    0x2000 .sent).isNone := by
  decide +kernel

end InvokeFeatures
