import PlatformKernel.ByteMemory

/-!
# Packed records

A record is a list of fields, each a number of a given width in bytes, that lie one behind
the other without padding. Written anywhere in memory, over anything, a record is read back
field by field, and it changes the bytes it occupies and no others.
-/

namespace PackedRecords

open ByteMemory

structure Field where
  width : Nat
  value : Nat

def Field.Fits (f : Field) : Prop := f.value < 256 ^ f.width

/-- The bytes a record occupies. -/
def bytes : List Nat → Nat
  | [] => 0
  | w :: ws => w + bytes ws

def widths (fs : List Field) : List Nat := fs.map Field.width

/-- The fields from an address on. -/
def place : UInt64 → List Field → List Write
  | _, [] => []
  | addr, f :: fs => ⟨addr, f.width, byteOf f.value⟩ :: place (addr + UInt64.ofNat f.width) fs

/-- The numbers of these widths from an address on. -/
def read (m : Mem) : UInt64 → List Nat → List Nat
  | _, [] => []
  | addr, w :: ws => word w m addr :: read m (addr + UInt64.ofNat w) ws

@[simp] theorem widths_cons (f : Field) (fs : List Field) :
    widths (f :: fs) = f.width :: widths fs := rfl

@[simp] theorem bytes_append (ws ws' : List Nat) : bytes (ws ++ ws') = bytes ws + bytes ws' := by
  induction ws with
  | nil => simp [bytes]
  | cons w ws ih => simp [bytes, ih, Nat.add_assoc]

theorem widths_append (fs gs : List Field) : widths (fs ++ gs) = widths fs ++ widths gs :=
  List.map_append

theorem place_append (addr : UInt64) (fs gs : List Field) :
    place addr (fs ++ gs) =
      place addr fs ++ place (addr + UInt64.ofNat (bytes (widths fs))) gs := by
  induction fs generalizing addr with
  | nil => simp [place, widths, bytes]
  | cons f fs ih =>
    have next : addr + UInt64.ofNat (bytes (widths (f :: fs))) =
        addr + UInt64.ofNat f.width + UInt64.ofNat (bytes (widths fs)) := by
      rw [widths_cons, bytes, UInt64.ofNat_add, UInt64.add_assoc]
    rw [next, List.cons_append, place, ih]
    rfl

theorem read_append (m : Mem) (addr : UInt64) (ws ws' : List Nat) :
    read m addr (ws ++ ws') = read m addr ws ++ read m (addr + UInt64.ofNat (bytes ws)) ws' := by
  induction ws generalizing addr with
  | nil => simp [read, bytes]
  | cons w ws ih =>
    have next : addr + UInt64.ofNat (bytes (w :: ws)) =
        addr + UInt64.ofNat w + UInt64.ofNat (bytes ws) := by
      rw [bytes, UInt64.ofNat_add, UInt64.add_assoc]
    rw [next, List.cons_append, read, ih]
    rfl

theorem read_length (m : Mem) (addr : UInt64) (ws : List Nat) :
    (read m addr ws).length = ws.length := by
  induction ws generalizing addr with
  | nil => rfl
  | cons w ws ih => exact congrArg Nat.succ (ih _)

theorem next_toNat {addr : UInt64} {w n : Nat} (fits : addr.toNat + (w + n) < 2 ^ 64) :
    (addr + UInt64.ofNat w).toNat = addr.toNat + w := by
  rw [UInt64.toNat_add, UInt64.toNat_ofNat']
  omega

/-- A record reaches the addresses from its own on, up to its length. -/
theorem place_covered {addr : UInt64} {fs : List Field}
    (fits : addr.toNat + bytes (widths fs) < 2 ^ 64) {a : UInt64} :
    Covered (place addr fs) a ↔
      addr.toNat ≤ a.toNat ∧ a.toNat < addr.toNat + bytes (widths fs) := by
  induction fs generalizing addr with
  | nil =>
    simp only [place, not_covered_nil, widths, List.map_nil, bytes, false_iff]
    omega
  | cons f fs ih =>
    simp only [widths_cons, bytes] at fits ⊢
    have next := next_toNat fits
    have rest : Covered (place (addr + UInt64.ofNat f.width) fs) a ↔ _ := ih (by omega)
    have room : addr.toNat + f.width ≤ 2 ^ 64 := by omega
    have first : (⟨addr, f.width, byteOf f.value⟩ : Write).Covers a ↔
        addr.toNat ≤ a.toNat ∧ a.toNat < addr.toNat + f.width := sub_lt_iff room
    rw [place, covered_cons, first, rest, next]
    omega

theorem word_place {addr : UInt64} {f : Field} {fs : List Field} (small : f.Fits)
    (fits : addr.toNat + (f.width + bytes (widths fs)) < 2 ^ 64) (m : Mem) :
    word f.width (applyAll (place addr (f :: fs)) m) addr = f.value := by
  refine word_eq small fun k hk => ?_
  have next := next_toNat fits
  have reached : (addr + UInt64.ofNat k).toNat = addr.toNat + k :=
    next_toNat (n := 0) (by omega)
  have later : ¬ Covered (place (addr + UInt64.ofNat f.width) fs) (addr + UInt64.ofNat k) := by
    rw [place_covered (by omega), next, reached]
    omega
  have back : (addr + UInt64.ofNat k - addr).toNat = k := by
    have cancel : addr + UInt64.ofNat k - addr = UInt64.ofNat k := by grind
    rw [cancel, UInt64.toNat_ofNat']
    omega
  have covers : (⟨addr, f.width, byteOf f.value⟩ : Write).Covers (addr + UInt64.ofNat k) := by
    rw [Write.Covers, back]
    exact hk
  have written : applyAll (place addr (f :: fs)) m (addr + UInt64.ofNat k) =
      (⟨addr, f.width, byteOf f.value⟩ : Write).apply m (addr + UInt64.ofNat k) :=
    applyAll_uncovered later _
  rw [written, Write.apply, if_pos covers, back]

/-- What is written is read back. -/
theorem read_place {addr : UInt64} {fs : List Field} (small : ∀ f ∈ fs, f.Fits)
    (fits : addr.toNat + bytes (widths fs) < 2 ^ 64) (m : Mem) :
    read (applyAll (place addr fs) m) addr (widths fs) = fs.map Field.value := by
  induction fs generalizing addr m with
  | nil => rfl
  | cons f fs ih =>
    simp only [widths_cons, bytes, List.map_cons] at fits ⊢
    have first : word f.width (applyAll (place addr (f :: fs)) m) addr = f.value :=
      word_place (small f List.mem_cons_self) fits m
    have next := next_toNat fits
    have fits' : (addr + UInt64.ofNat f.width).toNat + bytes (widths fs) < 2 ^ 64 := by omega
    have rest := ih (fun g hg => small g (List.mem_cons_of_mem _ hg)) fits'
      ((⟨addr, f.width, byteOf f.value⟩ : Write).apply m)
    rw [read, first]
    exact congrArg _ rest

/-- A record in two parts is read back part by part. -/
theorem read_parts {addr : UInt64} {fs gs : List Field} (small : ∀ f ∈ fs ++ gs, f.Fits)
    (fits : addr.toNat + bytes (widths (fs ++ gs)) < 2 ^ 64) (m : Mem) :
    read (applyAll (place addr (fs ++ gs)) m) addr (widths fs) = fs.map Field.value ∧
      read (applyAll (place addr (fs ++ gs)) m) (addr + UInt64.ofNat (bytes (widths fs)))
        (widths gs) = gs.map Field.value := by
  have whole := read_place small fits m
  rw [widths_append, read_append, List.map_append] at whole
  refine List.append_inj whole ?_
  rw [read_length, widths, List.length_map, List.length_map]

end PackedRecords
