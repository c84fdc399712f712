import Mathlib.Data.Nat.ModEq

/-!
# Byte memory under a log of writes

A memory of bytes behind 64-bit addresses, which wrap, and writes of a number of
bytes from an address on. What a log of writes leaves at an address is settled by
the log alone exactly where the log covers the address.
-/

namespace ByteMemory

abbrev Mem := UInt64 → UInt8

structure Write where
  addr : UInt64
  size : Nat
  byte : Nat → UInt8

def Write.Covers (w : Write) (a : UInt64) : Prop := (a - w.addr).toNat < w.size

instance (w : Write) (a : UInt64) : Decidable (w.Covers a) := inferInstanceAs (Decidable (_ < _))

def Write.apply (w : Write) (m : Mem) : Mem := fun a =>
  if w.Covers a then w.byte (a - w.addr).toNat else m a

def applyAll (ws : List Write) (m : Mem) : Mem := ws.foldl (fun m w => w.apply m) m

/-- Some write of the log reaches the address. -/
def Covered (ws : List Write) (a : UInt64) : Prop := ∃ w ∈ ws, w.Covers a

@[simp] theorem not_covered_nil (a : UInt64) : ¬ Covered [] a := by simp [Covered]

theorem covered_cons {w : Write} {ws : List Write} {a : UInt64} :
    Covered (w :: ws) a ↔ w.Covers a ∨ Covered ws a := by
  simp [Covered]

theorem covered_append {ws ws' : List Write} {a : UInt64} :
    Covered (ws ++ ws') a ↔ Covered ws a ∨ Covered ws' a := by
  simp only [Covered, List.mem_append, or_and_right, exists_or]

theorem applyAll_append (ws ws' : List Write) (m : Mem) :
    applyAll (ws ++ ws') m = applyAll ws' (applyAll ws m) :=
  List.foldl_append

/-- One byte of the result depends on one byte of the memory. -/
theorem applyAll_congr {m m' : Mem} {a : UInt64} (same : m a = m' a) (ws : List Write) :
    applyAll ws m a = applyAll ws m' a := by
  induction ws generalizing m m' with
  | nil => exact same
  | cons w ws ih =>
    refine ih ?_
    simp only [Write.apply, same]

theorem applyAll_uncovered {ws : List Write} {a : UInt64} (none : ¬ Covered ws a) (m : Mem) :
    applyAll ws m a = m a := by
  induction ws generalizing m with
  | nil => rfl
  | cons w ws ih =>
    rw [covered_cons, not_or] at none
    refine (ih none.2 _).trans ?_
    simp only [Write.apply, if_neg none.1]

theorem applyAll_covered {ws : List Write} {a : UInt64} (covered : Covered ws a) (m m' : Mem) :
    applyAll ws m a = applyAll ws m' a := by
  induction ws generalizing m m' with
  | nil => exact absurd covered (not_covered_nil a)
  | cons w ws ih =>
    by_cases reached : w.Covers a
    · refine applyAll_congr ?_ ws
      simp only [Write.apply, if_pos reached]
    · exact ih ((covered_cons.mp covered).resolve_left reached) _ _

/-- The log settles a byte exactly if it covers it. -/
theorem settled_iff_covered {ws : List Write} {a : UInt64} :
    (∀ m m' : Mem, applyAll ws m a = applyAll ws m' a) ↔ Covered ws a := by
  constructor
  · intro settled
    by_contra none
    have same := settled (fun _ => 0) fun _ => 1
    rw [applyAll_uncovered none, applyAll_uncovered none] at same
    exact absurd same (by decide)
  · exact fun covered => applyAll_covered covered

/-- The last write that reaches a byte decides it. -/
theorem applyAll_last {first rest : List Write} {w : Write} {a : UInt64} (reached : w.Covers a)
    (none : ¬ Covered rest a) (m : Mem) :
    applyAll (first ++ w :: rest) m a = w.byte (a - w.addr).toNat := by
  rw [applyAll_append]
  refine (applyAll_uncovered none _).trans ?_
  simp only [Write.apply, if_pos reached]

/-- If all writes that reach a byte agree on it, their order does not matter. -/
theorem applyAll_of_agree {ws : List Write} {a : UInt64} {b : UInt8} (covered : Covered ws a)
    (agree : ∀ w ∈ ws, w.Covers a → w.byte (a - w.addr).toNat = b) (m : Mem) :
    applyAll ws m a = b := by
  induction ws generalizing m with
  | nil => exact absurd covered (not_covered_nil a)
  | cons w ws ih =>
    by_cases later : Covered ws a
    · exact ih later (fun w' mem => agree w' (List.mem_cons_of_mem w mem)) _
    · have reached := (covered_cons.mp covered).resolve_right later
      refine (applyAll_uncovered later _).trans ?_
      simp only [Write.apply, if_pos reached]
      exact agree w List.mem_cons_self reached

/-- The same bytes to the same place. -/
structure Write.Same (w w' : Write) : Prop where
  addr : w.addr = w'.addr
  size : w.size = w'.size
  byte : ∀ k, k < w.size → w.byte k = w'.byte k

theorem Write.Same.apply {w w' : Write} (same : w.Same w') (m : Mem) : w.apply m = w'.apply m := by
  funext a
  have covers : w'.Covers a ↔ w.Covers a := by
    rw [Write.Covers, Write.Covers, same.addr, same.size]
  by_cases reached : w.Covers a
  · have byte := same.byte _ reached
    simp only [Write.apply, if_pos reached, if_pos (covers.mpr reached), ← same.addr, byte]
  · simp only [Write.apply, if_neg reached, if_neg (covers.not.mpr reached)]

theorem applyAll_map_same {ι : Type*} {l : List ι} {f g : ι → Write}
    (same : ∀ i ∈ l, (f i).Same (g i)) (m : Mem) :
    applyAll (l.map f) m = applyAll (l.map g) m := by
  induction l generalizing m with
  | nil => rfl
  | cons i l ih =>
    have first := (same i List.mem_cons_self).apply m
    have rest := ih (fun j mem => same j (List.mem_cons_of_mem i mem)) ((f i).apply m)
    rw [first] at rest
    refine Eq.trans ?_ rest
    rw [← first]
    rfl

/-- A range that does not wrap. -/
theorem sub_lt_iff {off a : UInt64} {n : Nat} (fits : off.toNat + n ≤ 2 ^ 64) :
    (a - off).toNat < n ↔ off.toNat ≤ a.toNat ∧ a.toNat < off.toNat + n := by
  have := a.toNat_lt
  rw [UInt64.toNat_sub]
  omega

/-- A part of a range that may wrap. -/
theorem sub_add_lt_iff (off k a : UInt64) {n : Nat} (fits : k.toNat + n ≤ 2 ^ 64) :
    (a - (off + k)).toNat < n ↔ k.toNat ≤ (a - off).toNat ∧ (a - off).toNat < k.toNat + n := by
  have split : a - (off + k) = a - off - k := by grind
  rw [split]
  exact sub_lt_iff fits

theorem sub_self_add (off : UInt64) {k : Nat} (hk : k < 2 ^ 64) :
    (off + UInt64.ofNat k - off).toNat = k := by
  have cancel : off + UInt64.ofNat k - off = UInt64.ofNat k := by grind
  rw [cancel, UInt64.toNat_ofNat', Nat.mod_eq_of_lt hk]

def byteOf (x : Nat) (k : Nat) : UInt8 := UInt8.ofNat (x / 256 ^ k)

def ofBytes : Nat → (Nat → UInt8) → Nat
  | 0, _ => 0
  | n + 1, byte => (byte 0).toNat + 256 * ofBytes n fun k => byte (k + 1)

theorem ofBytes_byteOf (n x : Nat) : ofBytes n (byteOf x) = x % 256 ^ n := by
  induction n generalizing x with
  | zero => simp [ofBytes, Nat.mod_one]
  | succ n ih =>
    have rest : (fun k => byteOf x (k + 1)) = byteOf (x / 256) := by
      funext k
      rw [byteOf, byteOf, Nat.div_div_eq_div_mul, Nat.pow_succ']
    have low : (byteOf x 0).toNat = x % 256 := by simp [byteOf]
    rw [ofBytes, rest, ih, low, Nat.pow_succ', Nat.mod_mul]

theorem ofBytes_congr {n : Nat} {byte byte' : Nat → UInt8}
    (same : ∀ k, k < n → byte k = byte' k) : ofBytes n byte = ofBytes n byte' := by
  induction n generalizing byte byte' with
  | zero => rfl
  | succ n ih =>
    rw [ofBytes, ofBytes, same 0 (Nat.succ_pos n),
      ih fun k hk => same (k + 1) (Nat.succ_lt_succ hk)]

/-- The word of `n` bytes at an address. -/
def word (n : Nat) (m : Mem) (addr : UInt64) : Nat :=
  ofBytes n fun k => m (addr + UInt64.ofNat k)

theorem word_eq {n x : Nat} {m : Mem} {addr : UInt64} (small : x < 256 ^ n)
    (bytes : ∀ k, k < n → m (addr + UInt64.ofNat k) = byteOf x k) : word n m addr = x := by
  rw [word, ofBytes_congr bytes, ofBytes_byteOf, Nat.mod_eq_of_lt small]

end ByteMemory
