import Mathlib.Algebra.Group.Int.Defs
import Mathlib.Algebra.Group.Nat.Defs
import Mathlib.Tactic.SplitIfs

/-!
# Error numbers and the C `int`

The error numbers of the kernel are positive; functions return their negation, except for the
slips that are modelled as they are.
-/

namespace ReturnCodes

def EPERM : Int := 1
def EBADF : Int := 9
def ENOMEM : Int := 12
def EACCES : Int := 13
def EFAULT : Int := 14
def EEXIST : Int := 17
def ENODEV : Int := 19
def EINVAL : Int := 22
def ENOTTY : Int := 25
def ECHRNG : Int := 44
def EBADE : Int := 52
def EBADR : Int := 53
def EBADMSG : Int := 74
def EOVERFLOW : Int := 75
def EPROTONOSUPPORT : Int := 93
def ETOOMANYREFS : Int := 109
def ECONNREFUSED : Int := 111
def ERESTARTSYS : Int := 512

/-- What `VERIFY` leaves in a zero `err` when its condition fails. -/
def verifyErr : Int := -1

def intMax : Nat := 0x7fffffff

/-- Conversion of an unsigned 32-bit value to `int`. -/
def intOfU32 (x : UInt32) : Int :=
  if x.toNat < 2 ^ 31 then x.toNat else (x.toNat : Int) - 2 ^ 32

theorem intOfU32_of_nonneg {x : UInt32} (h : 0 ≤ intOfU32 x) : intOfU32 x = x.toNat := by
  have bound := x.toNat_lt
  unfold intOfU32 at h ⊢
  split_ifs at h ⊢ with small
  · rfl
  · omega

theorem intOfU32_eq_zero {x : UInt32} : intOfU32 x = 0 ↔ x = 0 := by
  have bound := x.toNat_lt
  have zero : (0 : UInt32).toNat = 0 := rfl
  rw [← UInt32.toNat_inj, zero]
  unfold intOfU32
  split_ifs <;> omega

end ReturnCodes
