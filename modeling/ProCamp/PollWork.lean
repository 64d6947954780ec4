import ProCamp.Deferred
import ProCamp.Driver

/-!
# The life of the polling

`dwork` of one device, from `plat_dummy_probe` to `plat_dummy_remove`. The body of
`plat_dummy_work` is the work of `Driver`; around it are the lines that touch
`js_pool_time`, and the threads in `set_poll_interval` that change it. The field has 64
bits and is stored and loaded as two halves of 32, in either order; line 233 loads it
without `pool_lock`.

`queue_delayed_work` of a pending work does nothing. `cancel_delayed_work_sync` takes the
work off its queue and waits for it to return, and while it waits nothing queues it.

`msecsToJiffies` is `msecs_to_jiffies`. `accepted` and `delays` are history : the intervals
that passed the check of `set_poll_interval`, and the delays `plat_dummy_work` was queued
again with.
-/

namespace ProCamp

open PlatDummyDevice

/-- A number of 64 bits in two halves. -/
structure Halves where
  lo : ℕ
  hi : ℕ
  deriving DecidableEq

namespace Halves

/-- A number in its halves. -/
def ofNat (v : ℕ) : Halves :=
  ⟨v % 2 ^ 32, v / 2 ^ 32⟩

/-- The number of two halves. -/
def toNat (h : Halves) : ℕ :=
  h.lo + 2 ^ 32 * h.hi

/-- One half of it. -/
def half (low : Bool) (h : Halves) : ℕ :=
  if low then h.lo else h.hi

/-- It with one half stored. -/
def setHalf (low : Bool) (v : ℕ) (h : Halves) : Halves :=
  if low then { h with lo := v } else { h with hi := v }

theorem ofNat_of_lt {v : ℕ} (h : v < 2 ^ 32) : ofNat v = ⟨v, 0⟩ := by
  rw [ofNat, Nat.mod_eq_of_lt h, Nat.div_eq_of_lt h]

end Halves

/-- Where `plat_dummy_probe` or `plat_dummy_remove` is. -/
inductive PollPhase where
  /-- Line 323. -/
  | ring
  /-- Line 328. -/
  | poolLock
  /-- Line 329. -/
  | initWork
  /-- Line 330. -/
  | poolTime
  /-- Line 331. -/
  | queue
  /-- Lines 332 and 333. -/
  | publish
  /-- `plat_dummy_probe` has returned; line 346 is next. -/
  | bound
  /-- Inside `cancel_delayed_work_sync`. -/
  | cancelling
  /-- Line 348. -/
  | destroy
  | removed
  deriving DecidableEq

/-- The line `plat_dummy_work` is about to run. -/
inductive PollWorkPc where
  /-- Line 193. -/
  | poolLock
  /-- Line 194. -/
  | poolTime
  /-- Line 195. -/
  | poolUnlock
  /-- Lines 198 to 230, and line 233 up to the load of one half. -/
  | body
  /-- Line 233, the load of the other half; `low` is what was loaded first. -/
  | load (low : Bool) (v : ℕ)
  /-- Line 233, `queue_delayed_work`. -/
  | queue (delay : ℕ)
  /-- Line 234. -/
  | ret
  deriving DecidableEq

/-- A thread in `set_poll_interval`. -/
inductive PollSetter where
  | idle
  /-- Line 159. -/
  | lock (ms : UInt32)
  /-- Line 160. -/
  | store (ms : UInt32)
  /-- Line 160, the other half; `low` is what was stored first. -/
  | store2 (ms : UInt32) (low : Bool)
  /-- Line 161. -/
  | unlock (ms : UInt32)
  | ret (ret : ℤ)
  deriving DecidableEq

/-- Who can hold `pool_lock`. -/
inductive PoolAgent where
  | work
  | setter (i : ℕ)
  deriving DecidableEq

/-- The device and its polling. -/
structure Polling where
  drv : Driver
  phase : PollPhase
  dwork : DelayedWork PollWorkPc
  jsPoolTime : Halves
  poolLock : Option PoolAgent
  setters : ℕ → PollSetter
  accepted : List UInt32
  delays : List ℕ

/-- One step of the module, its work, a thread or the driver. -/
inductive PollAct where
  /-- The next step of `plat_dummy_probe`. -/
  | probe
  /-- The next step of `plat_dummy_remove`. -/
  | remove
  /-- The timer of `dwork` expires. -/
  | expire
  /-- A worker starts `plat_dummy_work`. -/
  | worker
  /-- The next step of `plat_dummy_work`; `low` says which half it loads first. -/
  | work (x : Input) (low : Bool)
  /-- Thread `i` calls `set_poll_interval`. -/
  | callSet (i : ℕ) (ms : UInt32)
  /-- The next step of thread `i`; `low` says which half it stores first. -/
  | setter (i : ℕ) (low : Bool)
  /-- A step of a reader or a writer, or a store of a user process. -/
  | drv (y : Act)

/-- `MIN_PULL_INTERVAL`. -/
def minPullInterval : UInt32 := 10

/-- `MAX_PULL_INTERVAL`. -/
def maxPullInterval : UInt32 := 10000

/-- `DEVICE_POOLING_TIME_MS`. -/
def devicePoolingTimeMs : UInt32 := 500

/-- The device is in `mydevs` and not yet removed. -/
def PollPhase.Published : PollPhase → Prop
  | .bound | .cancelling | .destroy => True
  | .ring | .poolLock | .initWork | .poolTime | .queue | .publish | .removed => False

instance : DecidablePred PollPhase.Published
  | .bound | .cancelling | .destroy => isTrue trivial
  | .ring | .poolLock | .initWork | .poolTime | .queue | .publish | .removed => isFalse id

namespace Polling

/-- A device as it is allocated, with its registers mapped. -/
def start (io : PlatIo) : Polling where
  drv := Driver.init 0 io
  phase := .ring
  dwork := .idle
  jsPoolTime := ⟨0, 0⟩
  poolLock := none
  setters _ := .idle
  accepted := []
  delays := []

/-- `queue_delayed_work`. -/
def queueDelayedWork (d : DelayedWork PollWorkPc) (delay : ℕ) : DelayedWork PollWorkPc :=
  if delay = 0 then d.queue else d.queueDelayed

/-- Thread `i` at `pc`. -/
@[simps] def setSetter (s : Polling) (i : ℕ) (pc : PollSetter) : Polling :=
  { s with setters := Function.update s.setters i pc }

/-- One step of `plat_dummy_probe`. -/
def probeStep (msecsToJiffies : UInt32 → ℕ) (s : Polling) : Option Polling :=
  match s.phase with
  | .ring =>
    some { s with
      phase := .poolLock
      drv := { s.drv with dev := s.drv.dev.dummyInitDataBuffer } }
  | .poolLock => some { s with phase := .initWork, poolLock := none }
  | .initWork => some { s with phase := .poolTime, dwork := .idle }
  | .poolTime =>
    some { s with
      phase := .queue
      jsPoolTime := .ofNat (msecsToJiffies devicePoolingTimeMs) }
  | .queue => some { s with phase := .publish, dwork := queueDelayedWork s.dwork 0 }
  | .publish => some { s with phase := .bound }
  | _ => none

/-- One step of `plat_dummy_remove`. -/
def removeStep (s : Polling) : Option Polling :=
  match s.phase with
  | .bound => some { s with phase := .cancelling, dwork := s.dwork.disarm }
  | .cancelling => if s.dwork.work.pc = none then some { s with phase := .destroy } else none
  | .destroy => some { s with phase := .removed }
  | _ => none

/-- `plat_dummy_work` at `pc`. -/
@[simps] def goto (s : Polling) (pc : PollWorkPc) : Polling :=
  { s with dwork := s.dwork.goto pc }

/-- The delay, from the half loaded first and the half in `js_pool_time` now. -/
def delay (s : Polling) (low : Bool) (v : ℕ) : ℕ :=
  (s.jsPoolTime.setHalf low v).toNat

/-- One step of `plat_dummy_work`. -/
def workStep (s : Polling) (x : Input) (low : Bool) : Option Polling :=
  match s.dwork.work.pc with
  | some .poolLock =>
    if s.poolLock = none then some { s.goto .poolTime with poolLock := some .work } else none
  | some .poolTime => some (s.goto .poolUnlock)
  | some .poolUnlock => some { s.goto .body with poolLock := none }
  | some .body =>
    (s.drv.workStep x).map fun drv =>
      match s.drv.work with
      | .exit _ => { s.goto (.load low (s.jsPoolTime.half low)) with drv }
      | _ => { s with drv }
  | some (.load low v) => some (s.goto (.queue (s.delay low v)))
  | some (.queue delay) =>
    some { s with
      dwork := (if s.phase = .cancelling then s.dwork else queueDelayedWork s.dwork delay).goto .ret
      delays := s.delays ++ [delay] }
  | some .ret => some { s with dwork := s.dwork.finish }
  | none => none

/-- Thread `i` calls `set_poll_interval`. -/
def callSetStep (s : Polling) (i : ℕ) (ms : UInt32) : Option Polling :=
  match s.setters i with
  | .idle | .ret _ =>
    if s.phase.Published then
      if ms < minPullInterval ∨ ms > maxPullInterval then some (s.setSetter i (.ret (-eFault)))
      else some { s.setSetter i (.lock ms) with accepted := s.accepted ++ [ms] }
    else none
  | _ => none

/-- One step of `set_poll_interval`. -/
def setterStep (msecsToJiffies : UInt32 → ℕ) (s : Polling) (i : ℕ) (low : Bool) :
    Option Polling :=
  match s.setters i with
  | .lock ms =>
    if s.poolLock = none then
      some { s.setSetter i (.store ms) with poolLock := some (.setter i) }
    else none
  | .store ms =>
    some { s.setSetter i (.store2 ms low) with
      jsPoolTime := s.jsPoolTime.setHalf low ((Halves.ofNat (msecsToJiffies ms)).half low) }
  | .store2 ms low =>
    some { s.setSetter i (.unlock ms) with
      jsPoolTime := s.jsPoolTime.setHalf (!low) ((Halves.ofNat (msecsToJiffies ms)).half (!low)) }
  | .unlock _ => some { s.setSetter i (.ret 0) with poolLock := none }
  | .idle | .ret _ => none

/-- One step. -/
def step (msecsToJiffies : UInt32 → ℕ) (s : Polling) : PollAct → Option Polling
  | .probe => s.probeStep msecsToJiffies
  | .remove => s.removeStep
  | .expire => s.dwork.expire.map fun dwork => { s with dwork }
  | .worker => (s.dwork.start .poolLock).map fun dwork => { s with dwork }
  | .work x low => s.workStep x low
  | .callSet i ms => s.callSetStep i ms
  | .setter i low => s.setterStep msecsToJiffies i low
  | .drv (.work _) => none
  | .drv (.callRead i count) =>
    if s.phase.Published then (s.drv.callReadStep i count).map fun drv => { s with drv } else none
  | .drv (.callWrite i buf) =>
    if s.phase.Published then (s.drv.callWriteStep i buf).map fun drv => { s with drv } else none
  | .drv y => (s.drv.step y).map fun drv => { s with drv }

end Polling

end ProCamp
