import Mathlib.Data.List.TakeWhile
import PlatformKernel.GuardedRuns
import PlatformKernel.ReturnCodes

/-!
# Reading the boot log

The boot loader leaves its log in a reserved region, which `xbl_log_show` formats with "%s"
into the buffer of each read. The formatter knows nothing of the size of the log: it looks
for the terminating NUL, and keeps one byte of the count for the one it writes.
-/

namespace BootLog

open GuardedRuns ReturnCodes

/-- `bytes` is the memory from the start of the region on, as far as it can be read; what
`memremap` maps of the region is a part of it. -/
structure Region where
  bytes : List UInt8
  resourceSize : Nat
  nonempty : 0 < resourceSize
  mapped : resourceSize - 1 ≤ bytes.length

def Region.xblLogSize (r : Region) : Nat := r.resourceSize - 1

/-- The string at the front of the memory; there is none if the memory ends before it. -/
def cString : List UInt8 → Option (List UInt8)
  | [] => none
  | b :: rest => if b = 0 then some [] else (cString rest).map (b :: ·)

/-- `scnprintf(buf, count, "%s", src)`: the bytes it counts. A size above `INT_MAX` is taken
for a mistake. -/
def scnprintf (count : Nat) (src : List UInt8) : Option (List UInt8) :=
  if intMax < count then some [] else (cString src).map (List.take (count - 1))

/-- The bytes of one read; none if the formatter runs out of memory. -/
def xblLogShow (r : Region) (offset count : Nat) : Option (List UInt8) :=
  if offset < r.xblLogSize then scnprintf count (r.bytes.drop offset) else some []

/-- The indices the formatter looks at, that of the NUL included. -/
def inspected (r : Region) (offset count : Nat) : List Nat :=
  if offset < r.xblLogSize ∧ count ≤ intMax then
    List.range' offset (((r.bytes.drop offset).takeWhile (· != 0)).length + 1)
  else []

/-- The log up to its first NUL. -/
def log (r : Region) : List UInt8 := (r.bytes.take r.xblLogSize).takeWhile (· != 0)

structure Reader where
  offset : Nat
  out : List UInt8
  done : Bool
  deriving DecidableEq

def Reader.start : Reader := ⟨0, [], false⟩

/-- The next read of a reader that goes on until nothing is returned. -/
def step (r : Region) (s : Reader) (count : Nat) : Option Reader :=
  if s.done then some s
  else (xblLogShow r s.offset count).map fun bytes =>
    ⟨s.offset + bytes.length, s.out ++ bytes, bytes.isEmpty⟩

/-- The read looks at no byte beyond the log. -/
def Within (r : Region) (s : Reader) (count : Nat) : Prop :=
  s.done = false → ∀ i ∈ inspected r s.offset count, i < r.xblLogSize

/-- The reads stay within the log and give all of it. -/
structure Faithful (r : Region) (counts : List Nat) : Prop where
  within : Along (step r) (Within r) .start counts
  whole : ∃ s, exec (step r) .start counts = some s ∧ (s.done = true → s.out = log r)

/-- The log is empty or ends with a NUL. -/
def Terminated (r : Region) : Prop :=
  r.xblLogSize = 0 ∨ ∃ i < r.xblLogSize, r.bytes[i]? = some 0

/-- A read that starts before the end of the log has room for a byte of it. -/
def CountOk (r : Region) (s : Reader) (count : Nat) : Prop :=
  s.done = false → s.offset < (log r).length → 2 ≤ count ∧ count ≤ intMax

theorem cString_append {front : List UInt8} (nonzero : ∀ b ∈ front, b ≠ 0) (rest : List UInt8) :
    cString (front ++ 0 :: rest) = some front := by
  induction front with
  | nil => rfl
  | cons b front ih =>
    have here : b ≠ 0 := nonzero b List.mem_cons_self
    have later : ∀ x ∈ front, x ≠ 0 := fun x hx => nonzero x (List.mem_cons_of_mem _ hx)
    rw [List.cons_append, cString, if_neg here, ih later]
    rfl

theorem takeWhile_append {front : List UInt8} (nonzero : ∀ b ∈ front, b ≠ 0) (rest : List UInt8) :
    (front ++ 0 :: rest).takeWhile (· != 0) = front := by
  rw [List.takeWhile_append_of_pos fun b hb => by simpa using nonzero b hb]
  simp

theorem log_nonzero (r : Region) : ∀ b ∈ log r, b ≠ 0 := by
  intro b hb
  simpa using List.mem_takeWhile_imp hb

/-- A log with a NUL before its end is followed by it. -/
theorem log_ends {r : Region} (nul : ∃ i < r.xblLogSize, r.bytes[i]? = some 0) :
    (log r).length < r.xblLogSize ∧ ∃ rest, r.bytes = log r ++ 0 :: rest := by
  obtain ⟨i, hi, zero⟩ := nul
  have found : 0 ∈ r.bytes.take r.xblLogSize := by
    refine List.mem_of_getElem? (i := i) ?_
    rw [List.getElem?_take, if_pos hi]
    exact zero
  have split := List.takeWhile_append_dropWhile (p := (· != 0)) (l := r.bytes.take r.xblLogSize)
  cases tail : (r.bytes.take r.xblLogSize).dropWhile (· != 0) with
  | nil =>
    rw [tail, List.append_nil] at split
    have inLog : 0 ∈ log r := by rw [log, split]; exact found
    exact absurd rfl (log_nonzero r 0 inLog)
  | cons b rest =>
    have zero : b = 0 := by
      have head := List.head?_dropWhile_not (· != 0) (r.bytes.take r.xblLogSize)
      rw [tail] at head
      simpa using head
    rw [tail, zero] at split
    have shorter : (log r).length < (r.bytes.take r.xblLogSize).length := by
      rw [← split]
      simp [log]
    have whole : r.bytes = log r ++ 0 :: (rest ++ r.bytes.drop r.xblLogSize) := by
      calc r.bytes = r.bytes.take r.xblLogSize ++ r.bytes.drop r.xblLogSize :=
            (List.take_append_drop _ _).symm
        _ = log r ++ 0 :: (rest ++ r.bytes.drop r.xblLogSize) := by
            rw [← split, log, List.append_assoc, List.cons_append]
    exact ⟨lt_of_lt_of_le shorter (List.length_take_le _ _), _, whole⟩

/-- Where no byte of the log is NUL, the formatter goes on behind it. -/
theorem unterminated {r : Region} (endless : ¬Terminated r) :
    0 < (log r).length ∧ r.xblLogSize ≤ (r.bytes.takeWhile (· != 0)).length := by
  obtain ⟨size, noNul⟩ := not_or.mp endless
  have nonzero : ∀ b ∈ r.bytes.take r.xblLogSize, (b != 0) = true := by
    intro b hb
    obtain ⟨i, here⟩ := List.mem_iff_getElem?.mp hb
    rw [List.getElem?_take] at here
    split_ifs at here with below
    rw [bne_iff_ne]
    rintro rfl
    exact noNul ⟨i, below, here⟩
  have all : log r = r.bytes.take r.xblLogSize := List.takeWhile_eq_self_iff.mpr nonzero
  have length : (r.bytes.take r.xblLogSize).length = r.xblLogSize :=
    List.length_take_of_le r.mapped
  constructor
  · rw [all, length]
    exact Nat.pos_of_ne_zero size
  · rw [← List.take_append_drop r.xblLogSize r.bytes, List.takeWhile_append_of_pos nonzero,
      List.length_append, length]
    exact Nat.le_add_right _ _

/-- What a read gives of the log from an offset on. -/
def chunk (r : Region) (offset count : Nat) : List UInt8 :=
  if intMax < count then [] else ((log r).drop offset).take (count - 1)

/-- Reads of a terminated log see the log only. -/
theorem show_terminated {r : Region} (ends : Terminated r) {offset : Nat}
    (before : offset ≤ (log r).length) (count : Nat) :
    xblLogShow r offset count = some (chunk r offset count) ∧
      ∀ i ∈ inspected r offset count, i < r.xblLogSize := by
  rcases ends with empty | nul
  · have none : log r = [] := by simp [log, empty]
    constructor
    · simp [xblLogShow, chunk, empty, none]
    · simp [inspected, empty]
  · obtain ⟨shorter, rest, whole⟩ := log_ends nul
    have inside : offset < r.xblLogSize := lt_of_le_of_lt before shorter
    have nonzero : ∀ b ∈ (log r).drop offset, b ≠ 0 := fun b hb =>
      log_nonzero r b (List.mem_of_mem_drop hb)
    have front : r.bytes.drop offset = (log r).drop offset ++ 0 :: rest := by
      conv_lhs => rw [whole]
      exact List.drop_append_of_le_length before
    constructor
    · rw [xblLogShow, if_pos inside, scnprintf, chunk, front, cString_append nonzero]
      split_ifs <;> rfl
    · intro i hi
      unfold inspected at hi
      split_ifs at hi
      · rw [front, takeWhile_append nonzero, List.length_drop, List.mem_range'_1] at hi
        omega
      · cases hi

theorem chunk_length_le (r : Region) (offset count : Nat) :
    (chunk r offset count).length ≤ (log r).length - offset := by
  unfold chunk
  split_ifs
  · exact Nat.zero_le _
  · exact (List.length_take_le' _ _).trans_eq List.length_drop

/-- The reads that give nothing. -/
theorem chunk_eq_nil_iff {r : Region} {offset count : Nat} :
    chunk r offset count = [] ↔
      (offset < (log r).length → ¬(2 ≤ count ∧ count ≤ intMax)) := by
  rw [chunk, ite_eq_left_iff, List.take_eq_nil_iff, List.drop_eq_nil_iff]
  omega

section sessions

variable {r : Region}

/-- The reader has the log up to its offset. -/
structure Reading (r : Region) (s : Reader) : Prop where
  out : s.out = (log r).take s.offset
  before : s.offset ≤ (log r).length

theorem start_reading : Reading r .start := ⟨rfl, Nat.zero_le _⟩

theorem Reading.out_eq_iff {s : Reader} (h : Reading r s) :
    s.out = log r ↔ ¬s.offset < (log r).length := by
  rw [h.out, Nat.not_lt]
  constructor
  · intro all
    have length := congrArg List.length all
    rw [List.length_take] at length
    omega
  · exact List.take_of_length_le

/-- The state after a read of a terminated log. -/
def Reader.next (r : Region) (s : Reader) (count : Nat) : Reader :=
  ⟨s.offset + (chunk r s.offset count).length, s.out ++ chunk r s.offset count,
    (chunk r s.offset count).isEmpty⟩

theorem Reading.step_eq {s : Reader} (h : Reading r s) (ends : Terminated r)
    (active : s.done = false) (count : Nat) : step r s count = some (s.next r count) := by
  have answer := (show_terminated ends h.before count).1
  rw [step, active, answer]
  rfl

theorem Reading.next {s : Reader} (h : Reading r s) (count : Nat) :
    Reading r (s.next r count) := by
  have before := h.before
  constructor
  · change s.out ++ chunk r s.offset count = _
    rw [h.out, Reader.next, List.take_add]
    congr 1
    unfold chunk
    split_ifs
    · rfl
    · rw [List.length_take, ← List.take_eq_take_min]
  · have short := chunk_length_le r s.offset count
    change s.offset + _ ≤ _
    omega

theorem step_done {s : Reader} (done : s.done = true) (count : Nat) :
    step r s count = some s :=
  if_pos done

theorem exec_done {s : Reader} (done : s.done = true) (counts : List Nat) :
    exec (step r) s counts = some s := by
  induction counts with
  | nil => rfl
  | cons count rest ih => exact Option.bind_eq_some_iff.mpr ⟨s, step_done done count, ih⟩

/-- A finished reader needs no room. -/
theorem along_done {s : Reader} (done : s.done = true) (counts : List Nat) :
    Along (step r) (CountOk r) s counts := by
  have idle : ∀ s count, s.done = true → CountOk r s count := by
    intro s count done active
    rw [done] at active
    cases active
  have kept : ∀ s count t, s.done = true → step r s count = some t → t.done = true := by
    intro s count t done run
    rw [step_done done] at run
    exact Option.some.inj run ▸ done
  exact along_of_invariant idle kept done counts

/-- A terminated log is never left. -/
theorem within_terminated (ends : Terminated r) {s : Reader} (h : Reading r s)
    (counts : List Nat) : Along (step r) (Within r) s counts := by
  refine along_of_invariant ?_ ?_ h counts
  · intro s count h _
    exact (show_terminated ends h.before count).2
  · intro s count t h run
    cases done : s.done with
    | true =>
      rw [step_done done] at run
      exact Option.some.inj run ▸ h
    | false =>
      rw [h.step_eq ends done] at run
      exact Option.some.inj run ▸ h.next count

/-- A reader that has not finished gets the whole log if, and only if, each of its reads has
room: the first that has none ends the session. -/
theorem whole_iff (ends : Terminated r) {s : Reader} (h : Reading r s) (active : s.done = false)
    (counts : List Nat) :
    (∃ t, exec (step r) s counts = some t ∧ (t.done = true → t.out = log r)) ↔
      Along (step r) (CountOk r) s counts := by
  induction counts generalizing s with
  | nil =>
    refine iff_of_true ⟨s, rfl, fun done => ?_⟩ trivial
    rw [active] at done
    cases done
  | cons count rest ih =>
    have run := h.step_eq ends active count
    have reading := h.next count
    have tail : exec (step r) s (count :: rest) = exec (step r) (s.next r count) rest := by
      rw [exec, run]
      rfl
    have along : Along (step r) (CountOk r) s (count :: rest) ↔
        CountOk r s count ∧ Along (step r) (CountOk r) (s.next r count) rest :=
      ⟨fun a => ⟨a.1, a.2 _ run⟩, fun a => along_cons a.1 run a.2⟩
    rw [tail, along]
    -- a read without a byte is the last one, whether or not the log is at its end
    by_cases last : chunk r s.offset count = []
    · have done : (s.next r count).done = true := List.isEmpty_iff.mpr last
      have out : (s.next r count).out = s.out := by
        change s.out ++ chunk r s.offset count = s.out
        rw [last, List.append_nil]
      rw [exec_done done]
      have noRoom := chunk_eq_nil_iff.mp last
      constructor
      · rintro ⟨t, same, all⟩
        obtain rfl := Option.some.inj same
        have finished := h.out_eq_iff.mp (out ▸ all done)
        exact ⟨fun _ before => absurd before finished, along_done done rest⟩
      · rintro ⟨room, _⟩
        have finished : ¬s.offset < (log r).length := fun before =>
          noRoom before (room active before)
        exact ⟨_, rfl, fun _ => out.trans (h.out_eq_iff.mpr finished)⟩
    · have active' : (s.next r count).done = false := List.isEmpty_eq_false_iff.mpr last
      have room : CountOk r s count := by
        intro _ _
        by_contra none
        exact last (chunk_eq_nil_iff.mpr fun _ => none)
      rw [ih reading active']
      exact ⟨fun a => ⟨room, a⟩, fun a => a.2⟩

/-- A session with more reads than bytes of the log has ended. -/
theorem session_ends (ends : Terminated r) {s t : Reader} (h : Reading r s) {counts : List Nat}
    (long : (log r).length - s.offset < counts.length)
    (run : exec (step r) s counts = some t) : t.done = true := by
  induction counts generalizing s with
  | nil => exact absurd long (Nat.not_lt_zero _)
  | cons count rest ih =>
    cases done : s.done with
    | true =>
      rw [exec_done done] at run
      exact Option.some.inj run ▸ done
    | false =>
      obtain ⟨next, first, run⟩ := exec_cons_eq_some run
      rw [h.step_eq ends done] at first
      obtain rfl := Option.some.inj first
      by_cases last : chunk r s.offset count = []
      · have done' : (s.next r count).done = true := List.isEmpty_iff.mpr last
        rw [exec_done done'] at run
        exact Option.some.inj run ▸ done'
      · refine ih (h.next count) ?_ run
        have some_byte := List.length_pos_iff.mpr last
        have before := chunk_length_le r s.offset count
        change (log r).length - (s.offset + (chunk r s.offset count).length) < rest.length
        rw [List.length_cons] at long
        omega

end sessions

/-- The first read of a log without a NUL looks behind it, or is refused. -/
theorem endless_unfaithful {r : Region} (endless : ¬Terminated r) (count : Nat)
    (rest : List Nat) : ¬Faithful r (count :: rest) := by
  obtain ⟨bytes, beyond⟩ := unterminated endless
  have some_size : 0 < r.xblLogSize := Nat.pos_of_ne_zero fun zero => endless (.inl zero)
  intro faithful
  by_cases large : intMax < count
  · have refused : step r .start count = some ⟨0, [], true⟩ := by
      simp [step, Reader.start, xblLogShow, scnprintf, some_size, large]
    obtain ⟨s, run, whole⟩ := faithful.whole
    rw [exec, refused, Option.bind_some, exec_done rfl] at run
    obtain rfl := Option.some.inj run
    rw [← whole rfl] at bytes
    exact Nat.lt_irrefl 0 bytes
  · have looked : r.xblLogSize ∈ inspected r 0 count := by
      rw [inspected, if_pos ⟨some_size, Nat.not_lt.mp large⟩, List.drop_zero,
        List.mem_range'_1]
      omega
    exact Nat.lt_irrefl _ (faithful.within.1 rfl _ looked)

/-- The reads of a session stay within the log and give all of it if, and only if, there are
none or the log is terminated and each read of the rest of it has room for one byte and the
NUL, and not more than the formatter takes. -/
theorem log_read_iff (r : Region) (counts : List Nat) :
    Faithful r counts ↔
      counts = [] ∨ Terminated r ∧ Along (step r) (CountOk r) .start counts := by
  by_cases ends : Terminated r
  · have whole := whole_iff ends start_reading rfl counts
    constructor
    · intro faithful
      exact .inr ⟨ends, whole.mp faithful.whole⟩
    · rintro (rfl | ⟨_, room⟩)
      · exact ⟨trivial, .start, rfl, nofun⟩
      · exact ⟨within_terminated ends start_reading counts, whole.mpr room⟩
  · constructor
    · intro faithful
      cases counts with
      | nil => exact .inl rfl
      | cons count rest => exact absurd faithful (endless_unfaithful ends count rest)
    · rintro (rfl | ⟨terminated, _⟩)
      · exact ⟨trivial, .start, rfl, nofun⟩
      · exact absurd terminated ends

/-- Two bytes and their NUL, in a region that ends with it. -/
def shortLog : Region := ⟨[79, 75, 0, 0], 4, by decide, by decide⟩

/-- The same two bytes filling the log, the NUL only behind it. -/
def fullLog : Region := ⟨[79, 75, 0], 3, by decide, by decide⟩

/-- One-byte reads get nothing of a log, and a log without a NUL is left by the first read. -/
theorem log_cut_short :
    (log shortLog = [79, 75] ∧ Terminated shortLog ∧
      exec (step shortLog) .start [1] = some ⟨0, [], true⟩) ∧
    (log fullLog = [79, 75] ∧ fullLog.xblLogSize = 2 ∧ inspected fullLog 0 4096 = [0, 1, 2]) := by
  refine ⟨⟨by decide, .inr ⟨2, by decide, rfl⟩, by decide⟩, by decide, rfl, by decide⟩

end BootLog
