import Mathlib.Logic.Function.Basic
import Mathlib.Tactic.SplitIfs
import ProCamp.Kernel
import ProCamp.Machine

/-!
# The dummy devices and their files

`HW12/platform_test.c` publishes each device it has probed in `mydevs`, under the number
its alias gives it; `HW12/platform_cdev.c` copies the table into `dummy_cdevs` once, when
it is initialised, and its file operations call the functions of the device they find
there. The two are separate modules, and a device can come and go under both.

Devices are numbered in the order they are allocated, so that a number whose device is
released is not the number of a later one. An action is one call, with the outcomes of the
kernel calls in it. `n` is `DUMMY_DEVICES`.
-/

namespace ProCamp

open Machine

/-- `DUMMY_DEVICES`. -/
def dummyDevices : ℕ := 2

/-- An error pointer, as `PTR_ERR` reads it. -/
def PtrErr : Type :=
  { err : ℤ // err < 0 }

/-- The outcomes of the kernel calls in `plat_dummy_probe`. -/
structure ProbeCalls where
  /-- There is a device node. -/
  ofNode : Bool
  devmKzalloc : Bool
  ofAliasGetId : ℤ
  /-- There is a first memory resource. -/
  resource0 : Bool
  /-- The error, if there is one. -/
  ioremap0 : Option PtrErr
  resource1 : Bool
  ioremap1 : Option PtrErr
  allocWorkqueue : Bool

/-- What `plat_dummy_probe` returns, and the entry of `mydevs` it sets. Without a resource
it follows a null pointer. -/
def platDummyProbe (n : ℕ) (c : ProbeCalls) : Option (ℤ × Option ℕ) :=
  if !c.ofNode then some (-eNoMem, none)
  else if !c.devmKzalloc then some (-eNoMem, none)
  else if c.ofAliasGetId < 0 then some (c.ofAliasGetId, none)
  else if n ≤ c.ofAliasGetId then some (-eNoDev, none)
  else if !c.resource0 then none
  else match c.ioremap0 with
  | some err => some (err.1, none)
  | none =>
    if !c.resource1 then none
    else match c.ioremap1 with
    | some err => some (err.1, none)
    | none =>
      if !c.allocWorkqueue then some (-eNoMem, none)
      else some (0, some c.ofAliasGetId.toNat)

/-- The outcomes of the kernel calls in `dummy_cdev_init`. -/
structure CdevInitCalls where
  /-- What `register_chrdev_region` or `alloc_chrdev_region` returns. -/
  region : ℤ
  /-- The number `alloc_chrdev_region` chooses. -/
  major : ℕ
  cdevAdd : ℕ → ℤ
  /-- The error of `class_create`, if there is one. -/
  classCreate : Option PtrErr

/-- The static data of `platform_cdev.c`, and what it has registered. -/
structure DummyCdevs where
  /-- `dummy_cdevs[i].my_device`. -/
  myDevice : ℕ → Option ℕ
  dummyMajor : ℕ
  region : Bool
  /-- `cdev_add`. -/
  added : ℕ → Bool
  /-- `class_create`. -/
  dummyClass : Bool

namespace DummyCdevs

/-- The module as it is loaded. -/
def loaded : DummyCdevs where
  myDevice _ := none
  dummyMajor := 0
  region := false
  added _ := false
  dummyClass := false

/-- The loop of `dummy_cdev_init` with `k` devices to go, the next one `i`. It ends at
`error_region` with `ret`, or after the last device. -/
def initLoop (getDevice : ℕ → Option ℕ) (cdevAdd : ℕ → ℤ) :
    ℕ → ℕ → ℤ → DummyCdevs → Option ℤ × DummyCdevs
  | 0, _, _, m => (none, m)
  | k + 1, i, ret, m =>
    let m := { m with myDevice := Function.update m.myDevice i (getDevice i) }
    if (getDevice i).isNone then (some ret, m)
    else if cdevAdd i ≠ 0 then (some (cdevAdd i), m)
    else initLoop getDevice cdevAdd k (i + 1) (cdevAdd i)
      { m with added := Function.update m.added i true }

/-- `dummy_cdev_init`, with `get_dummy_platfrom_device`. -/
def dummyCdevInit (n : ℕ) (getDevice : ℕ → Option ℕ) (c : CdevInitCalls) (m : DummyCdevs) :
    ℤ × DummyCdevs :=
  let m := if m.dummyMajor ≠ 0 then m else { m with dummyMajor := c.major }
  if c.region < 0 then (c.region, m)
  else
    match initLoop getDevice c.cdevAdd n 0 c.region { m with region := true } with
    | (some ret, m) => (ret, { m with region := false })
    | (none, m) =>
      match c.classCreate with
      | some err =>
        (err.1, { m with
          region := false
          added := Function.update (Function.update m.added 0 false) 1 false })
      | none => (0, { m with dummyClass := true })

/-- `dummy_cdev_exit`. -/
def dummyCdevExit (n : ℕ) (m : DummyCdevs) : DummyCdevs :=
  { m with
    dummyClass := false
    added := fun i => if i < n then false else m.added i
    region := false }

end DummyCdevs

/-- `DUMMY_SET_POOLING`. -/
def dummySetPooling : UInt32 := 0x40045601

/-- `_IOC_TYPE`. -/
def iocType (cmd : UInt32) : UInt32 :=
  cmd >>> 8 &&& 0xff

/-- `_IOC_NR`. -/
def iocNr (cmd : UInt32) : UInt32 :=
  cmd &&& 0xff

/-- `DUMMY_IOC_MAGIC`. -/
def dummyIocMagic : UInt32 := 0x56

/-- `DUMMY_IOC_MAXNR`. -/
def dummyIocMaxnr : UInt32 := 0x01

/-- A call on an open file of `platform_cdev.c`. -/
inductive FileOp where
  | read (nonblock : Bool)
  | write (nonblock : Bool)
  | mmap
  /-- `user` is what `__get_user` reads, if it does not fault. -/
  | ioctl (cmd : UInt32) (user : Option UInt32)
  deriving DecidableEq

/-- What a file operation does. -/
inductive FileCall where
  /-- It returns. -/
  | ret (err : ℤ)
  /-- It follows `my_device`, and returns. -/
  | touch (dev : ℕ) (err : ℤ)
  /-- It calls a function of `my_device`. -/
  | call (dev : ℕ)
  deriving DecidableEq

/-- `dummy_cdev_read`, `dummy_cdev_write`, `dummy_cdev_mmap` and `dummy_cdev_ioctl` on a
file whose `my_device` is `dev`. A probed device has all four functions. -/
def FileOp.run (dev : Option ℕ) : FileOp → FileCall
  | .read nonblock | .write nonblock =>
    if nonblock then .ret (-eAgain)
    else match dev with
      | some d => .call d
      | none => .ret (-1)
  | .mmap =>
    match dev with
    | some d => .call d
    | none => .ret (-1)
  | .ioctl cmd user =>
    if iocType cmd ≠ dummyIocMagic then .ret (-eNoTty)
    else if iocNr cmd > dummyIocMaxnr then .ret (-eNoTty)
    else if cmd = dummySetPooling then
      match dev, user with
      | some d, some _ => .call d
      | some d, none => .touch d (-eFault)
      | none, _ => .ret (-eInval)
    else .ret (-eNoTty)

/-- The device a file operation follows. -/
def FileCall.device : FileCall → Option ℕ
  | .ret _ => none
  | .touch d _ | .call d => some d

/-- A file operation follows no device but the one of its file. -/
theorem FileOp.device_run {op : FileOp} {dev : Option ℕ} {d : ℕ}
    (h : (op.run dev).device = some d) : dev = some d := by
  cases op with
  | read nonblock | write nonblock =>
    simp only [run] at h
    split_ifs at h
    · cases h
    · rcases dev with _ | d'
      · cases h
      · exact h
  | mmap =>
    rcases dev with _ | d'
    · cases h
    · exact h
  | ioctl cmd user =>
    simp only [run] at h
    split_ifs at h
    · cases h
    · cases h
    · rcases dev with _ | d'
      · cases h
      · rcases user with _ | interval <;> exact h
    · cases h

end ProCamp
