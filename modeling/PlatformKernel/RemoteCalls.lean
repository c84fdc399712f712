import PlatformKernel.MessageContents
import PlatformKernel.StagedTransfer

/-!
# Concurrent calls of remote functions

What an invoke is for: the caller's out-buffers receive what a function of the remote
processor makes of its in-buffers. Any number of calls share the message table, the buffers
and the queues, in any order of their steps. The back end answers from the message alone,
in which it finds handle, scalars and arguments.
-/

namespace RemoteCalls

open GuardedRuns ByteMemory InvokeMessage InvokeLayout MessageBytes MessageReading StagedTransfer
open MessageContents (Letter Action InOrder building)
open MessageTransport (Uid TxId RxId)
open ReceiveBuffers (Holds)

section Header

variable {req : Request}

theorem header_sorted (req : Request) (size : UInt64) (msgid : UInt16) :
    (headerStores req size msgid).Pairwise Before := by
  have lists := praOff_toNat (total_le req.sc)
  simp only [headerStores, Hdr.stores, List.cons_append, List.nil_append, List.pairwise_cons,
    List.mem_cons, List.not_mem_nil, or_false, forall_eq_or_imp, forall_eq, Before, Datum.size,
    lists, UInt64.reduceToNat]
  simp
  omega

theorem header_inside (req : Request) (size : UInt64) (msgid : UInt16) :
    ∀ st ∈ headerStores req size msgid, st.off.toNat + st.datum.size ≤ 2 ^ 64 := by
  intro st mem
  have htotal := total_le req.sc
  have most : st.off.toNat + st.datum.size ≤ metaBytes req.sc := (header_within st mem).2
  simp only [metaBytes] at most
  omega

/-- The fields in front of the descriptors are those of the header. -/
theorem header_word (user prev : Mem) (out : Outcomes) (msgid : UInt16)
    (small : recordStart req (total req.sc) < 2 ^ 64) {off : UInt64} {x : UInt32}
    (mem : (⟨off, .u32 x⟩ : Store) ∈
      headerStores req (UInt64.ofNat (recordStart req (total req.sc))) msgid)
    (front : off.toNat + 4 ≤ 46) : u32At (message user req out msgid prev) off = x := by
  refine u32At_eq fun k hk => ?_
  have place : (off + UInt64.ofNat k).toNat = off.toNat + k := by
    rw [UInt64.toNat_add, UInt64.toNat_ofNat']
    omega
  have unreached : ¬ Covered (writes user ((List.range (total req.sc)).flatMap fun i =>
      argStores req out i (payloadAt req i))) (off + UInt64.ofNat k) := by
    rw [covered_flatMap]
    rintro ⟨i, hi, reached⟩
    rw [arg_covered out _ hi, payloadAt_start small (Nat.le_of_lt hi),
      inRecord_iff small hi] at reached
    have records := metaBytes_le_recordStart req i
    simp only [metaBytes] at records
    rcases reached with ⟨-, above, -⟩ | ⟨-, above, -⟩ <;> omega
  rw [message, messageStores, contents_append]
  exact (applyAll_uncovered unreached _).trans
    (stored_byte (header_sorted _ _ _) (header_inside _ _ _) mem prev hk)

end Header

/-- The functions of the remote processor, by handle and scalars. -/
abbrev Remote := UInt32 → UInt32 → Service

/-- An invoke without handles and ION maps for which `get_args` built the message `built`;
`user` is the caller's memory that it read, `prev` and `phys` what the transmit buffer and
the staging pages held before. -/
structure Invoke where
  req : Request
  crc : UInt64
  user : Mem
  out : Outcomes
  prev : Mem
  built : State
  addr : Nat → Nat → UInt64
  phys : Mem
  plain : Plain req
  short : Short req
  staging : Staging req addr
  accepted : getArgs req out (readEntry prev) = .next built

namespace Invoke

variable (c : Invoke)

/-- The transmit buffer and the staging pages as they are sent. -/
def letter : Letter Mem Mem where
  bytes := contents c.user c.built.stores c.prev
  pages := applyAll (stageIn c.req c.built c.addr c.user) c.phys

/-- The caller's memory `later` after the copies of `put_args`. -/
def after (answer : Letter Mem Mem) (reader : Reader) (later : Mem) : Mem :=
  applyAll (reader.effects.flatMap (effectWrites c.addr answer.bytes answer.pages c.crc)) later

/-- The outputs that the caller is to receive. -/
def output (F : Remote) : Nat → Nat → UInt8 :=
  F c.req.handle c.req.sc (callerInputs c.req c.user)

theorem small : recordStart c.req (total c.req.sc) < 2 ^ 32 :=
  transfer_small c.plain c.short c.staging

theorem letter_message : ∃ msgid, c.letter.bytes = message c.user c.req c.out msgid c.prev := by
  obtain ⟨-, msgid, stores⟩ := getArgs_stores c.accepted
  exact ⟨msgid, by rw [letter, stores]; rfl⟩

/-- Handle and scalars can be read from the message. -/
theorem letter_names :
    u32At c.letter.bytes 26 = c.req.handle ∧ u32At c.letter.bytes 30 = c.req.sc := by
  obtain ⟨msgid, bytes⟩ := c.letter_message
  have small := Nat.lt_trans c.small (by decide : 2 ^ 32 < 2 ^ 64)
  rw [bytes]
  exact ⟨header_word _ _ _ _ small (by simp [headerStores]) (by decide),
    header_word _ _ _ _ small (by simp [headerStores]) (by decide)⟩

end Invoke

/-- The back end answers with an error, or with what the function named in the request makes
of the arguments that it finds there. -/
def Served (F : Remote) (request answer : Letter Mem Mem) : Prop :=
  (decode (u32At request.bytes 30) answer.bytes).result = 0 →
    Serves (F (u32At request.bytes 26) (u32At request.bytes 30)) (u32At request.bytes 30)
      request.bytes request.pages answer.bytes answer.pages

section Call

variable {F : Remote} {c : Invoke} {answer : Letter Mem Mem} {copyErr : Nat → Int} {crcErr : Int}
  {reader : Reader}

theorem putArgs_result {req : Request} {s : State} {rsp : Response}
    (copied : putArgs req s rsp copyErr crcErr = .next reader) : rsp.result = 0 := by
  by_contra failed
  simp only [putArgs, ne_eq, failed, not_false_eq_true, if_true] at copied
  cases copied

theorem served_call (served : Served F c.letter answer)
    (result : (decode c.req.sc answer.bytes).result = 0) :
    Serves (F c.req.handle c.req.sc) c.req.sc c.letter.bytes c.letter.pages answer.bytes
      answer.pages := by
  obtain ⟨handle, sc⟩ := c.letter_names
  rw [Served, handle, sc] at served
  exact served result

theorem served_of_serves (serves : Serves (F c.req.handle c.req.sc) c.req.sc c.letter.bytes
    c.letter.pages answer.bytes answer.pages) : Served F c.letter answer := by
  obtain ⟨handle, sc⟩ := c.letter_names
  rw [Served, handle, sc]
  exact fun _ => serves

/-- `put_args` stores one block for each out-buffer, and the crcs. -/
theorem after_eq (serves : Serves (F c.req.handle c.req.sc) c.req.sc c.letter.bytes
      c.letter.pages answer.bytes answer.pages)
    (copied : putArgs c.req c.built (decode c.req.sc answer.bytes) copyErr crcErr = .next reader)
    (later : Mem) {a : UInt64} (outside : ¬ InCrclist c.req c.crc a) :
    c.after answer reader later a =
      applyAll ((List.range' (inbufs c.req.sc) (outbufs c.req.sc)).map fun i =>
        ⟨(c.req.lpra i).pv, argLen c.req i, fun k => fetch answer.bytes answer.pages
          (if staged c.req i then .page (c.addr i k)
            else .payload (UInt64.ofNat (recordStart c.req i) + UInt64.ofNat k))⟩) later a := by
  obtain ⟨writing, -⟩ := getArgs_stores c.accepted
  obtain ⟨msgid, bytes⟩ := c.letter_message
  have lengths : ∀ i, i < bufs c.req.sc →
      ((decode c.req.sc answer.bytes).pra i).payloadLen = UInt64.ofNat (recordLen c.req i) ∧
        ((decode c.req.sc answer.bytes).pra i).bufLen = (c.req.lpra i).len := by
    intro i hi
    obtain ⟨-, -, bufLen, payloadLen⟩ :=
      readEntry_fields c.user c.prev c.out msgid c.plain c.small hi
    rw [← bytes] at bufLen payloadLen
    exact ⟨(serves.echoes i hi).1.trans payloadLen, (serves.echoes i hi).2.trans bufLen⟩
  have copies := putArgs_copies (effectWrites c.addr answer.bytes answer.pages c.crc)
    (fun _ => rfl) c.plain c.small writing lengths copied
  have single : (fun i => effectWrites c.addr answer.bytes answer.pages c.crc (outEffect c.req i)) =
      fun i => [⟨(c.req.lpra i).pv, argLen c.req i, fun k => fetch answer.bytes answer.pages
        (if staged c.req i then .page (c.addr i k)
          else .payload (UInt64.ofNat (recordStart c.req i) + UInt64.ofNat k))⟩] := by
    funext i
    unfold outEffect
    split_ifs <;> rfl
  rw [Invoke.after, copies, applyAll_append, List.map_eq_flatMap, ← single]
  exact applyAll_uncovered (crclist_not_covered outside _) _

/-- Whatever the caller's memory is when the response is copied, its out-buffers then hold the
outputs of the function, in order. -/
theorem call_stores (served : Served F c.letter answer)
    (copied : putArgs c.req c.built (decode c.req.sc answer.bytes) copyErr crcErr = .next reader)
    (later : Mem) {a : UInt64} (outside : ¬ InCrclist c.req c.crc a) :
    c.after answer reader later a = applyAll (outputWrites c.req (c.output F)) later a := by
  have serves := served_call served (putArgs_result copied)
  obtain ⟨writing, -⟩ := getArgs_stores c.accepted
  obtain ⟨msgid, bytes⟩ := c.letter_message
  rw [after_eq serves copied later outside, outputWrites]
  refine congrFun (applyAll_map_same ?_ later) a
  intro i mem
  refine ⟨rfl, rfl, fun k hk => ?_⟩
  obtain ⟨hlo, hhi⟩ := List.mem_range'_1.mp mem
  obtain ⟨-, -, bufLen, -⟩ := readEntry_fields c.user c.prev c.out msgid c.plain c.small hhi
  have found := place_eq c.user c.prev c.out msgid c.plain c.short c.staging hhi hk
  have read := inputs_eq c.user c.prev c.phys c.out msgid c.plain c.short c.staging writing.descs
  rw [← bytes] at bufLen found read
  rw [Invoke.output, ← read]
  exact serves.outputs i hlo hhi k (by rw [bufLen]; exact hk) _ found

end Call

section System

variable (F : Remote) (calls : Uid → Option Invoke)

/-- The messages of `calls` are sent as `get_args` built them, and the back end answers them
as it should. -/
def Faithful (s : MessageContents.State Mem Mem) : Action Mem Mem → Prop
  | .send uid => ∀ c b, calls uid = some c → building s.transport uid = some b →
      c.letter = ⟨s.tx b, s.pages uid⟩
  | .reply q _ _ answer => ∀ c request, calls q.origin = some c →
      s.taken q.origin = some request → Served F request answer
  | _ => True

def Calling (s : MessageContents.State Mem Mem) (a : Action Mem Mem) : Prop :=
  InOrder s a ∧ Faithful F calls s a

/-- What is on record about the messages of `calls`. -/
structure Recorded (s : MessageContents.State Mem Mem) : Prop where
  sent : ∀ uid c letter, calls uid = some c → s.sent uid = some letter → letter = c.letter
  served : ∀ uid c request answer, calls uid = some c →
    s.exchanged uid = some (request, answer) → Served F request answer

variable {F calls} {s t : MessageContents.State Mem Mem} {a : Action Mem Mem}

theorem step_recorded (h : Recorded F calls s) (ok : Faithful F calls s a)
    (hstep : MessageContents.step s a = some t) : Recorded F calls t := by
  cases a with
  | write uid bytes pages =>
    obtain ⟨b, -, rfl⟩ := Option.map_eq_some_iff.mp hstep
    exact ⟨h.sent, h.served⟩
  | send uid =>
    obtain ⟨b, built, moved⟩ := Option.bind_eq_some_iff.mp hstep
    obtain ⟨u, -, rfl⟩ := Option.map_eq_some_iff.mp moved
    refine ⟨fun v c letter call sent => ?_, h.served⟩
    simp only [Function.update_apply] at sent
    split at sent
    · rename_i same
      subst same
      exact (Option.some.inj sent).symm.trans (ok c b call built).symm
    · exact h.sent v c letter call sent
  | consume tx q =>
    obtain ⟨u, -, rfl⟩ := Option.map_eq_some_iff.mp hstep
    exact ⟨h.sent, h.served⟩
  | reply q rx len answer =>
    obtain ⟨u, -, moved⟩ := Option.bind_eq_some_iff.mp hstep
    obtain ⟨request, found, rfl⟩ := Option.map_eq_some_iff.mp moved
    refine ⟨h.sent, fun v c asked given call exchanged => ?_⟩
    simp only [Function.update_apply] at exchanged
    split at exchanged
    · rename_i same
      subst same
      obtain ⟨rfl, rfl⟩ := Prod.mk.inj (Option.some.inj exchanged)
      exact ok c _ call found
    · exact h.served v c asked given call exchanged
  | other a =>
    obtain ⟨-, moved⟩ := Option.ite_none_left_eq_some.mp hstep
    obtain ⟨u, -, rfl⟩ := Option.map_eq_some_iff.mp moved
    exact ⟨h.sent, h.served⟩

theorem run_recorded {numBufs : Nat} {tx : TxId → Mem} {rx : RxId → Mem} {pages : Uid → Mem}
    {as : List (Action Mem Mem)}
    (along : Along MessageContents.step (Calling F calls) (.probed numBufs tx rx pages) as)
    (run : exec MessageContents.step (.probed numBufs tx rx pages) as = some s) :
    MessageContents.Inv s ∧ Recorded F calls s := by
  have kept : ∀ s a t, MessageContents.Inv s ∧ Recorded F calls s → Calling F calls s a →
      MessageContents.step s a = some t → MessageContents.Inv t ∧ Recorded F calls t :=
    fun s a t h ok hstep =>
      ⟨MessageContents.step_inv h.1 ok.1 hstep, step_recorded h.2 ok.2 hstep⟩
  have start : Recorded F calls (.probed numBufs tx rx pages) :=
    ⟨fun _ _ _ _ h => (Option.some_ne_none _ h.symm).elim,
      fun _ _ _ _ _ h => (Option.some_ne_none _ h.symm).elim⟩
  exact exec_invariant_along (Calling F calls) kept
    ⟨MessageContents.probed_inv numBufs tx rx pages, start⟩ along run

end System

/-- What the caller finds after `put_args` copied the response: apart from crcs, the outputs
stored one after the other, and in each out-buffer that nothing else overlaps its output. -/
structure Returns (F : Remote) (c : Invoke) (answer : Letter Mem Mem) (reader : Reader) :
    Prop where
  stores : ∀ later a, ¬ InCrclist c.req c.crc a →
    c.after answer reader later a = applyAll (outputWrites c.req (c.output F)) later a
  outputs : ∀ i, inbufs c.req.sc ≤ i → i < bufs c.req.sc → Apart c.req c.crc i →
    ∀ later k, k < argLen c.req i →
      c.after answer reader later ((c.req.lpra i).pv + UInt64.ofNat k) = c.output F i k

/-- However the calls of any number of threads interleave, and whatever recycled buffers they
get: when `put_args` succeeds on the response of a message, the caller's out-buffers hold what
the named function makes of what the caller's in-buffers held. -/
theorem calls_return_outputs (F : Remote) (calls : Uid → Option Invoke) (numBufs : Nat)
    (tx : TxId → Mem) (rx : RxId → Mem) (pages : Uid → Mem) (as : List (Action Mem Mem))
    (s : MessageContents.State Mem Mem)
    (along : Along MessageContents.step (Calling F calls) (.probed numBufs tx rx pages) as)
    (run : exec MessageContents.step (.probed numBufs tx rx pages) as = some s)
    (uid : Uid) (c : Invoke) (b : RxId) (call : calls uid = some c)
    (held : Holds s.transport uid b) (copyErr : Nat → Int) (crcErr : Int) (reader : Reader)
    (copied : putArgs c.req c.built (decode c.req.sc (s.rx b)) copyErr crcErr = .next reader) :
    Returns F c ⟨s.rx b, s.pages uid⟩ reader := by
  obtain ⟨inv, recorded⟩ := run_recorded along run
  obtain ⟨request, sent, exchanged⟩ := inv.intact.held uid b held
  obtain rfl := recorded.sent uid c request call sent
  have served := recorded.served uid c _ _ call exchanged
  have stores := fun later {a} (outside : ¬ InCrclist c.req c.crc a) =>
    call_stores served copied later outside
  refine ⟨fun later a outside => stores later outside, fun i hlo hi apart later k hk => ?_⟩
  rw [stores later (apart k hk).1]
  exact outputWrites_apart later (c.output F) hlo hi apart hk

/-- One invoke from `open` to the copies of `put_args`. -/
def oneCall (request answer : Letter Mem Mem) : List (Action Mem Mem) :=
  [.other (.openFile 0), .other (.claim 0 .invoke), .other (.getTx 0),
    .write 0 (fun _ => request.bytes) (fun _ => request.pages), .send 0, .consume 0 ⟨0, 0⟩,
    .reply ⟨0, 0⟩ 0 610 answer, .other .recvGet, .other .recvLookup, .other .recvAttach,
    .other .recvComplete, .other (.finish 0)]

def zeroed : MessageContents.State Mem Mem :=
  .probed 1 (fun _ _ => 0) (fun _ _ => 0) (fun _ _ => 0)

theorem oneCall_inOrder (request answer : Letter Mem Mem) :
    Along MessageContents.step InOrder zeroed (oneCall request answer) := by
  refine along_of_forall (fun a ha s => ?_) _
  simp only [oneCall, List.mem_cons, List.not_mem_nil, or_false] at ha
  intro a' moved
  rcases ha with rfl | rfl | rfl | rfl | rfl | rfl | rfl | rfl | rfl | rfl | rfl | rfl <;>
    cases moved <;> exact trivial

theorem oneCall_faithful {F : Remote} {c : Invoke} {answer : Letter Mem Mem}
    (served : Served F c.letter answer) :
    Along MessageContents.step (Faithful F fun _ => some c) zeroed (oneCall c.letter answer) := by
  refine along_cons trivial rfl (along_cons trivial rfl (along_cons trivial rfl
    (along_cons trivial rfl (along_cons ?_ rfl (along_cons trivial rfl (along_cons ?_ rfl
      (along_of_forall (fun a ha s => ?_) _)))))))
  · intro c' b call built
    obtain rfl := Option.some.inj call
    obtain rfl : 0 = b := Option.some.inj built
    rfl
  · intro c' request _ found
    obtain rfl : c.letter = request := Option.some.inj found
    exact served
  · simp only [List.mem_cons, List.not_mem_nil, or_false] at ha
    rcases ha with rfl | rfl | rfl | rfl | rfl <;> trivial

/-- The in-buffer is staged, and the out-buffer comes back in the message. -/
theorem tightRequest_returns : ∃ (c : Invoke) (s : MessageContents.State Mem Mem)
    (answer : Letter Mem Mem) (reader : Reader), c.req = tightRequest ∧
      exec MessageContents.step zeroed (oneCall c.letter answer) = some s ∧
      Holds s.transport 0 0 ∧
      putArgs c.req c.built (decode c.req.sc (s.rx 0)) (fun _ => 0) 0 = .next reader ∧
      Returns (fun _ _ => firstBytes) c ⟨s.rx 0, s.pages 0⟩ reader := by
  have plain : Plain tightRequest := ⟨longRequest_plain.handles, longRequest_plain.unmapped⟩
  have short : Short tightRequest := by decide
  obtain ⟨user', ⟨x⟩⟩ := exchange_exists firstBytes 0 (fun a => a.toUInt8) (fun _ => 0)
    (fun _ => 0) plain short tightRequest_staging
    (rfl : getArgs tightRequest InvokeBounds.calmOutcomes (readEntry fun _ => 0) =
      .next (messageOf tightRequest))
  let c : Invoke := ⟨tightRequest, 0, fun a => a.toUInt8, x.out, x.prev, x.sent, x.addr, x.phys,
    plain, short, x.staging, x.accepted⟩
  let answer : Letter Mem Mem := ⟨x.rx, x.phys'⟩
  have served : Served (fun _ _ => firstBytes) c.letter answer := served_of_serves x.served
  obtain ⟨reader, copied⟩ := putArgs_succeeds tightRequest x.sent x.served.result
  refine ⟨c, _, answer, reader, rfl, rfl, ⟨_, rfl, rfl, by decide⟩, copied, ?_⟩
  exact calls_return_outputs (fun _ _ => firstBytes) (fun _ => some c) 1 (fun _ _ => 0)
    (fun _ _ => 0) (fun _ _ => 0) (oneCall c.letter answer) _
    (along_and (oneCall_inOrder c.letter answer) (oneCall_faithful served)) rfl 0 c 0 rfl
    ⟨_, rfl, rfl, by decide⟩ (fun _ => 0) 0 reader copied

end RemoteCalls
