import Mathlib.Data.Int.Notation
import Mathlib.Data.Nat.Notation

/-!
# The kernel's side

The numbers the drivers return and the outcomes the kernel decides while a driver runs.
-/

namespace ProCamp

/-- `EIO`. -/
def eIo : ℤ := 5

/-- `EAGAIN`. -/
def eAgain : ℤ := 11

/-- `ENOMEM`. -/
def eNoMem : ℤ := 12

/-- `EFAULT`. -/
def eFault : ℤ := 14

/-- `ENODEV`. -/
def eNoDev : ℤ := 19

/-- `EINVAL`. -/
def eInval : ℤ := 22

/-- `ENOTTY`. -/
def eNoTty : ℤ := 25

/-- `ERANGE`. -/
def eRange : ℤ := 34

/-- `ERESTARTSYS`. -/
def eRestartSys : ℤ := 512

/-- `EPOLLIN`. -/
def epollIn : UInt32 := 0x001

/-- `EPOLLRDNORM`. -/
def epollRdNorm : UInt32 := 0x040

/-- What the kernel decides at a step. -/
inductive Input where
  | go
  /-- A signal is pending. -/
  | signal
  /-- The user copy faults, with `stored` bytes copied. -/
  | fault (stored : ℕ)

/-- What a `copy_from_user` of `count` bytes of `buf` that faults after `stored` of them
leaves at the destination : the kernel fills the rest with zeros. -/
def faultedCopy (buf : List UInt8) (count stored : ℕ) : List UInt8 :=
  buf.take stored ++ List.replicate (count - stored) 0

theorem length_faultedCopy {buf : List UInt8} {count stored : ℕ} (hlt : stored < count)
    (hle : count ≤ buf.length) : (faultedCopy buf count stored).length = count := by
  rw [faultedCopy, List.length_append, List.length_take, List.length_replicate]
  omega

end ProCamp
