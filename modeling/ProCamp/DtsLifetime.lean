import Mathlib.Data.Nat.Notation
import ProCamp.Deferred
import ProCamp.DummyCdev

/-!
# Works and queues without a device

The devices of `HW11/platform_test_dts.c`, from `plat_dummy_probe` to `plat_dummy_remove`.
A probe arms `dwork` on a workqueue of its own, allocates a second workqueue, and arms
`dwork_write` on the queue of the system; both works re-arm themselves. Each probe
allocates a structure of its own, so a device here is one that is probed once.

`queue_delayed_work` of a pending work does nothing. `cancel_delayed_work_sync` takes the
work off its queue and waits for it to return, and while it waits nothing queues it. A
probe without a memory resource follows a null pointer and never returns.

`no_orphans_iff` : a work that is pending or running and a workqueue that is allocated
belong to a device that is probed or being probed, and not yet removed, in exactly the
histories where the allocation of `data_write_wq` does not fail; nothing stops `dwork` then.
-/

namespace ProCamp

open Machine

/-- The two directions of a device. -/
inductive DtsWork where
  /-- `dwork`, with `data_read_wq`. -/
  | read
  /-- `dwork_write`, with `data_write_wq`. -/
  | write
  deriving DecidableEq

/-- `plat_dummy_work_read` and `plat_dummy_work_write`. -/
inductive DtsWorkPc where
  /-- Lines 73 to 90, or lines 103 to 107. -/
  | body
  /-- Line 91, or line 109. -/
  | queue
  /-- Lines 94 and 114. -/
  | ret
  deriving DecidableEq

/-- Where `plat_dummy_probe` or `plat_dummy_remove` is. -/
inductive DtsPhase where
  /-- Line 132. -/
  | node
  /-- Line 143. -/
  | kzalloc
  /-- Lines 148 and 149. -/
  | resource0
  /-- Line 152. -/
  | ioremap0
  /-- Lines 156 and 157. -/
  | resource1
  /-- Line 160. -/
  | ioremap1
  /-- Line 173. -/
  | allocRead
  /-- Line 179. -/
  | initRead
  /-- Line 181. -/
  | queueRead
  /-- Line 185. -/
  | allocWrite
  /-- Line 192. -/
  | initWrite
  /-- Line 194. -/
  | queueWrite
  /-- Line 197. -/
  | ret
  /-- `plat_dummy_probe` has returned an error. -/
  | failed (ret : ℤ)
  /-- `plat_dummy_probe` has followed a null pointer. -/
  | oops
  /-- `plat_dummy_probe` has returned 0. -/
  | bound
  /-- Line 206 or 211. -/
  | test (w : DtsWork)
  /-- Inside `cancel_delayed_work_sync`. -/
  | cancel (w : DtsWork)
  /-- Line 209 or 214. -/
  | destroy (w : DtsWork)
  /-- `plat_dummy_remove` has returned. -/
  | removed
  deriving DecidableEq

/-- A device. -/
structure DtsDevice where
  phase : DtsPhase
  /-- `data_read_wq` or `data_write_wq` is allocated. -/
  wq : DtsWork → Bool
  works : DtsWork → DelayedWork DtsWorkPc

/-- One step of the driver, its timers or its works. -/
inductive DtsLifeAct where
  /-- The next step of `plat_dummy_probe`; `err` is the error of the call in it, if it fails. -/
  | probe (err : Option PtrErr)
  /-- The next step of `plat_dummy_remove`. -/
  | remove
  /-- The timer of a work expires. -/
  | expire (w : DtsWork)
  /-- A worker starts a work. -/
  | worker (w : DtsWork)
  /-- The next step of `plat_dummy_work_read` or `plat_dummy_work_write`. -/
  | work (w : DtsWork)

namespace DtsDevice

/-- Before `plat_dummy_probe`. -/
def start : DtsDevice where
  phase := .node
  wq _ := false
  works _ := .idle

/-- Work `w` replaced. -/
@[simps] def setWork (s : DtsDevice) (w : DtsWork) (d : DelayedWork DtsWorkPc) : DtsDevice :=
  { s with works := Function.update s.works w d }

/-- The workqueue of work `w` allocated or destroyed. -/
@[simps] def setWq (s : DtsDevice) (w : DtsWork) (allocated : Bool) : DtsDevice :=
  { s with wq := Function.update s.wq w allocated }

/-- One step of `plat_dummy_probe`. -/
def probeStep (s : DtsDevice) (err : Option PtrErr) : Option DtsDevice :=
  match s.phase, err with
  | .node, none => some { s with phase := .kzalloc }
  | .node, some _ => some { s with phase := .failed (-eNoMem) }
  | .kzalloc, none => some { s with phase := .resource0 }
  | .kzalloc, some _ => some { s with phase := .failed (-eNoMem) }
  | .resource0, none => some { s with phase := .ioremap0 }
  | .resource0, some _ => some { s with phase := .oops }
  | .ioremap0, none => some { s with phase := .resource1 }
  | .ioremap0, some err => some { s with phase := .failed err.1 }
  | .resource1, none => some { s with phase := .ioremap1 }
  | .resource1, some _ => some { s with phase := .oops }
  | .ioremap1, none => some { s with phase := .allocRead }
  | .ioremap1, some err => some { s with phase := .failed err.1 }
  | .allocRead, none => some { s.setWq .read true with phase := .initRead }
  | .allocRead, some _ => some { s with phase := .failed (-eNoMem) }
  | .initRead, _ => some { s.setWork .read .idle with phase := .queueRead }
  | .queueRead, _ => some { s.setWork .read (s.works .read).queue with phase := .allocWrite }
  | .allocWrite, none => some { s.setWq .write true with phase := .initWrite }
  | .allocWrite, some _ => some { s with phase := .failed (-eNoMem) }
  | .initWrite, _ => some { s.setWork .write .idle with phase := .queueWrite }
  | .queueWrite, _ => some { s.setWork .write (s.works .write).queueDelayed with phase := .ret }
  | .ret, _ => some { s with phase := .bound }
  | _, _ => none

/-- What `plat_dummy_remove` does after it is done with `w`. -/
def afterWork : DtsWork → DtsPhase
  | .read => .test .write
  | .write => .removed

/-- One step of `plat_dummy_remove`. -/
def removeStep (s : DtsDevice) : Option DtsDevice :=
  match s.phase with
  | .bound => some { s with phase := .test .read }
  | .test w =>
    some (if s.wq w then { s.setWork w (s.works w).disarm with phase := .cancel w }
      else { s with phase := afterWork w })
  | .cancel w => if (s.works w).work.pc = none then some { s with phase := .destroy w } else none
  | .destroy w => some { s.setWq w false with phase := afterWork w }
  | _ => none

/-- One step of `plat_dummy_work_read` or `plat_dummy_work_write`. -/
def workStep (w : DtsWork) (s : DtsDevice) : Option DtsDevice :=
  match (s.works w).work.pc with
  | some .body => some (s.setWork w ((s.works w).goto .queue))
  | some .queue =>
    some (s.setWork w
      ((if s.phase = .cancel w then s.works w else (s.works w).queueDelayed).goto .ret))
  | some .ret => some (s.setWork w (s.works w).finish)
  | none => none

/-- One step of `plat_dummy_work_read`. -/
def platDummyWorkRead : DtsDevice → Option DtsDevice :=
  workStep .read

/-- One step of `plat_dummy_work_write`. -/
def platDummyWorkWrite : DtsDevice → Option DtsDevice :=
  workStep .write

/-- One step. -/
def step (s : DtsDevice) : DtsLifeAct → Option DtsDevice
  | .probe err => s.probeStep err
  | .remove => s.removeStep
  | .expire w => (s.works w).expire.map (s.setWork w)
  | .worker w => ((s.works w).start .body).map (s.setWork w)
  | .work .read => s.platDummyWorkRead
  | .work .write => s.platDummyWorkWrite

end DtsDevice

/-- The device is probed or being probed, and not yet removed. -/
def DtsPhase.Alive : DtsPhase → Prop
  | .failed _ | .removed => False
  | _ => True

/-- The workqueues a device has in a phase, where no probe has left one behind. -/
def DtsPhase.hasWq : DtsPhase → DtsWork → Bool
  | .initRead, w | .queueRead, w | .allocWrite, w => decide (w = .read)
  | .initWrite, _ | .queueWrite, _ | .ret, _ | .bound, _ => true
  | .test .read, _ | .cancel .read, _ | .destroy .read, _ => true
  | .test .write, w | .cancel .write, w | .destroy .write, w => decide (w = .write)
  | _, _ => false

/-- How a work can be in a phase : in any way between its set-up and its cancellation, not
pending while it is cancelled, and otherwise idle. -/
def DtsPhase.Allows : DtsPhase → DtsWork → DelayedWork DtsWorkPc → Prop
  | .allocWrite, .read, _ | .initWrite, .read, _ | .queueWrite, .read, _ => True
  | .ret, _, _ | .bound, _, _ | .test .read, _, _ => True
  | .cancel .read, .write, _ | .destroy .read, .write, _ | .test .write, .write, _ => True
  | .cancel .read, .read, d | .cancel .write, .write, d => ¬d.Pending
  | _, _, d => d.Idle

namespace DtsDevice

/-- What is pending, running or allocated belongs to a device that is alive. -/
def NoOrphan (s : DtsDevice) : Prop :=
  ∀ w, (s.works w).Pending ∨ (s.works w).work.pc ≠ none ∨ s.wq w = true → s.phase.Alive

/-- The device is as its phase says. -/
structure PhaseOk (s : DtsDevice) : Prop where
  wq : ∀ w, s.wq w = s.phase.hasWq w
  works : ∀ w, s.phase.Allows w (s.works w)

variable {s t : DtsDevice} {w v : DtsWork} {d : DelayedWork DtsWorkPc} {a : DtsLifeAct}

theorem phaseOk_start : PhaseOk start :=
  ⟨fun _ => rfl, fun w => by cases w <;> exact ⟨rfl, rfl, rfl⟩⟩

theorem PhaseOk.noOrphan (hok : s.PhaseOk) : s.NoOrphan := by
  intro w hw
  have hwq := hok.wq w
  have hworks := hok.works w
  cases hpc : s.phase with
  | failed ret | removed =>
    rw [hpc] at hwq hworks
    have hidle : (s.works w).Idle := by cases w <;> exact hworks
    rcases hw with hpending | hrun | htrue
    · exact absurd hpending hidle.not_pending
    · exact absurd hidle.2.2 hrun
    · have hfalse : s.wq w = false := by cases w <;> exact hwq
      simp [hfalse] at htrue
  | _ => trivial

/-! ## The works -/

/-- A work that can take a step is not idle, and stays off its queue while it is
cancelled. -/
theorem allows_step {p : DtsPhase} (hallows : p.Allows w d) (hidle : ¬d.Idle)
    {d' : DelayedWork DtsWorkPc} (hcancel : p = .cancel w → ¬d.Pending → ¬d'.Pending) :
    p.Allows w d' := by
  cases p with
  | cancel v =>
    cases v <;> cases w <;>
      first | exact absurd hallows hidle | exact hcancel rfl hallows | trivial
  | test v | destroy v =>
    cases v <;> cases w <;> first | exact absurd hallows hidle | trivial
  | _ => cases w <;> first | exact absurd hallows hidle | trivial

/-- Only work `w` has changed. -/
theorem phaseOk_setWork (hok : s.PhaseOk) (hw : s.phase.Allows w d) : (s.setWork w d).PhaseOk := by
  refine ⟨hok.wq, fun v => ?_⟩
  by_cases hv : v = w
  · subst hv
    simpa using hw
  · simpa [hv] using hok.works v

/-- A step of a work, or of its timer. -/
theorem phaseOk_work (hok : s.PhaseOk) (h : s.workStep w = some t) : t.PhaseOk := by
  unfold workStep at h
  split at h
  case h_1 hpc =>
    cases h
    refine phaseOk_setWork hok (allows_step (hok.works w) (fun hidle => ?_) fun _ => id)
    simp [hidle.2.2] at hpc
  case h_2 hpc =>
    cases h
    refine phaseOk_setWork hok (allows_step (hok.works w) (fun hidle => ?_) fun hcancel => ?_)
    · simp [hidle.2.2] at hpc
    · rw [if_pos hcancel]
      exact id
  case h_3 hpc =>
    cases h
    refine phaseOk_setWork hok (allows_step (hok.works w) (fun hidle => ?_) fun _ => id)
    simp [hidle.2.2] at hpc
  case h_4 => cases h

/-! ## `plat_dummy_probe` and `plat_dummy_remove` -/

/-- Only the phase has changed. -/
theorem phaseOk_goto (hok : s.PhaseOk) {p q : DtsPhase} (hpc : s.phase = q)
    (hwq : ∀ w, q.hasWq w = p.hasWq w) (hallows : ∀ w d, q.Allows w d → p.Allows w d) :
    PhaseOk { s with phase := p } := by
  subst hpc
  exact ⟨fun w => (hok.wq w).trans (hwq w), fun w => hallows w _ (hok.works w)⟩

theorem phaseOk_probe {err : Option PtrErr} (hok : s.PhaseOk)
    (hwrite : s.phase = .allocWrite → err = none) (h : s.probeStep err = some t) : t.PhaseOk := by
  have hwq := hok.wq
  have hworks := hok.works
  unfold probeStep at h
  split at h
  case h_13 hpc =>
    cases h
    simp only [hpc] at hwq hworks
    refine ⟨fun w => ?_, fun w => ?_⟩ <;> cases w
    · simp [DtsPhase.hasWq]
    · exact hwq .write
    · exact hworks .read
    · exact hworks .write
  case h_15 hpc =>
    cases h
    simp only [hpc] at hwq hworks
    refine ⟨hwq, fun w => ?_⟩
    cases w
    · exact ⟨rfl, rfl, rfl⟩
    · exact hworks .write
  case h_16 hpc =>
    cases h
    simp only [hpc] at hwq hworks
    refine ⟨hwq, fun w => ?_⟩
    cases w
    · trivial
    · exact hworks .write
  case h_17 hpc =>
    cases h
    simp only [hpc] at hwq hworks
    refine ⟨fun w => ?_, fun w => ?_⟩ <;> cases w
    · exact hwq .read
    · simp [DtsPhase.hasWq]
    · trivial
    · exact hworks .write
  case h_18 hpc => cases hwrite hpc
  case h_19 hpc =>
    cases h
    simp only [hpc] at hwq hworks
    refine ⟨hwq, fun w => ?_⟩
    cases w
    · trivial
    · exact ⟨rfl, rfl, rfl⟩
  case h_20 hpc =>
    cases h
    simp only [hpc] at hwq hworks
    exact ⟨hwq, fun w => by cases w <;> trivial⟩
  case h_22 => cases h
  -- the steps before the first workqueue, and the last one
  all_goals
    cases h
    refine phaseOk_goto hok (by assumption) (fun w => ?_) fun w d hd => ?_ <;>
      cases w <;> first | rfl | exact hd

theorem phaseOk_remove (hok : s.PhaseOk) (h : s.removeStep = some t) : t.PhaseOk := by
  have hwq := hok.wq
  have hworks := hok.works
  unfold removeStep at h
  split at h
  case h_1 hpc =>
    cases h
    exact phaseOk_goto hok hpc (fun w => rfl) fun w d _ => by cases w <;> trivial
  case h_2 w hpc =>
    have htrue : s.wq w = true := by
      rw [hwq w, hpc]
      cases w <;> rfl
    rw [if_pos htrue] at h
    cases h
    have hdisarm : ¬(s.works w).disarm.Pending := by
      simp [DelayedWork.Pending, DelayedWork.disarm]
    simp only [hpc] at hwq hworks
    refine ⟨fun v => ?_, fun v => ?_⟩
    · cases w <;> exact hwq v
    · cases w <;> cases v <;> first | exact hdisarm | trivial | exact hworks .read
  case h_3 w hpc =>
    split_ifs at h with hret
    cases h
    simp only [hpc] at hwq hworks
    refine ⟨fun v => ?_, fun v => ?_⟩
    · cases w <;> exact hwq v
    · cases w <;> cases v
      · exact DelayedWork.idle_of_not_pending (hworks .read) hret
      · trivial
      · exact hworks .read
      · exact DelayedWork.idle_of_not_pending (hworks .write) hret
  case h_4 w hpc =>
    cases h
    simp only [hpc] at hwq hworks
    refine ⟨fun v => ?_, fun v => ?_⟩
    · cases w <;> cases v <;> first | rfl | exact hwq .write | exact hwq .read
    · cases w <;> cases v <;> first | exact hworks .read | exact hworks .write
  case h_5 => cases h

theorem phaseOk_step (hok : s.PhaseOk)
    (hwrite : ∀ err, a = .probe err → s.phase = .allocWrite → err = none)
    (h : s.step a = some t) : t.PhaseOk := by
  cases a with
  | probe err => exact phaseOk_probe hok (hwrite err rfl) h
  | remove => exact phaseOk_remove hok h
  | expire w =>
    obtain ⟨d, hd, rfl⟩ := Option.map_eq_some_iff.1 h
    obtain ⟨htimer, rfl⟩ := DelayedWork.expire_eq_some.1 hd
    refine phaseOk_setWork hok (allows_step (hok.works w) (fun hidle => ?_) fun _ hnot => ?_)
    · simp [hidle.1] at htimer
    · exact absurd (Or.inl htimer) hnot
  | worker w =>
    obtain ⟨d, hd, rfl⟩ := Option.map_eq_some_iff.1 h
    obtain ⟨harmed, -, rfl⟩ := DelayedWork.start_eq_some.1 hd
    refine phaseOk_setWork hok (allows_step (hok.works w) (fun hidle => ?_) fun _ hnot => ?_)
    · simp [hidle.2.1] at harmed
    · exact absurd (Or.inr harmed) hnot
  | work w => cases w <;> exact phaseOk_work hok h

/-- A failure of the second allocation leaves the first workqueue behind. -/
theorem orphan_of_allocWrite {err : PtrErr} (hok : s.PhaseOk) (hpc : s.phase = .allocWrite)
    (h : s.probeStep (some err) = some t) : ¬t.NoOrphan := by
  have hwq := hok.wq .read
  simp only [probeStep, hpc] at h
  cases h
  intro hnone
  rw [hpc] at hwq
  exact hnone .read (Or.inr (Or.inr hwq))

end DtsDevice

/-! ## Histories -/

/-- The devices, each probed once. -/
abbrev DtsDevices : Type :=
  ℕ → DtsDevice

namespace DtsDevices

/-- Before the first probe. -/
def start : DtsDevices :=
  fun _ => .start

/-- One step of device `d`. -/
def step (s : DtsDevices) : ℕ × DtsLifeAct → Option DtsDevices
  | (d, a) => ((s d).step a).map (Function.update s d)

/-- No work and no workqueue is left without its device. -/
def NoOrphans (_ : DtsDevices) (_ : ℕ × DtsLifeAct) (t : DtsDevices) : Prop :=
  ∀ d, (t d).NoOrphan

/-- The allocation of `data_write_wq` does not fail. -/
def AllocatesWrite (s : DtsDevices) (a : ℕ × DtsLifeAct) (_ : DtsDevices) : Prop :=
  ∀ d err, a = (d, .probe err) → (s d).phase = .allocWrite → err = none

variable {s t : DtsDevices} {a : ℕ × DtsLifeAct}

/-- The device that takes the step, and the others. -/
theorem phaseOk_step (hok : ∀ d, (s d).PhaseOk) (hwrite : AllocatesWrite s a t)
    (h : step s a = some t) (d : ℕ) : (t d).PhaseOk := by
  obtain ⟨e, b⟩ := a
  obtain ⟨s', hs', rfl⟩ := Option.map_eq_some_iff.1 h
  by_cases hd : d = e
  · subst hd
    rw [Function.update_self]
    exact DtsDevice.phaseOk_step (hok d) (fun err hb => hwrite d err (by rw [hb])) hs'
  · rw [Function.update_of_ne hd]
    exact hok d

theorem noOrphans_step_iff (hok : ∀ d, (s d).PhaseOk) (h : step s a = some t) :
    NoOrphans s a t ↔ AllocatesWrite s a t := by
  constructor
  · intro hnone d err ha hpc
    subst ha
    obtain ⟨s', hs', rfl⟩ := Option.map_eq_some_iff.1 h
    cases err with
    | none => rfl
    | some err =>
      have horphan := hnone d
      rw [Function.update_self] at horphan
      exact absurd horphan (DtsDevice.orphan_of_allocWrite (hok d) hpc hs')
  · exact fun hwrite d => (phaseOk_step hok hwrite h d).noOrphan

/-- For every history of probes of any number of devices, with every outcome of the calls in
them, polls and removes : each work that is pending or running and each workqueue that is
allocated belongs to a device that is probed or being probed and not yet removed, if and
only if no allocation of `data_write_wq` fails. -/
theorem no_orphans_iff (as : List (ℕ × DtsLifeAct)) :
    EveryStep step NoOrphans start as ↔ EveryStep step AllocatesWrite start as := by
  refine everyStep_congr (I := fun s => ∀ d, (s d).PhaseOk) ?_ ?_ fun _ =>
    DtsDevice.phaseOk_start
  · exact fun s a t hok h => noOrphans_step_iff hok h
  · exact fun s a t hok hnone h => phaseOk_step hok ((noOrphans_step_iff hok h).1 hnone) h

/-- The allocation of `data_write_wq` fails. -/
def failedProbe : List (ℕ × DtsLifeAct) :=
  List.replicate 9 (0, .probe none) ++ [(0, .probe (some ⟨-12, by decide⟩))]

/-- `plat_dummy_work_read` runs, and re-arms itself. -/
def poll : List (ℕ × DtsLifeAct) :=
  [(0, .worker .read), (0, .work .read), (0, .work .read), (0, .work .read)]

/-- The device whose probe has failed is still polled. -/
theorem failed_device_polled :
    (∃ s, exec step start (failedProbe ++ poll) = some s ∧ (s 0).phase = .failed (-eNoMem) ∧
      (s 0).wq .read = true ∧ ((s 0).works .read).Pending) ∧
      ¬EveryStep step NoOrphans start failedProbe := by
  refine ⟨⟨_, rfl, rfl, rfl, by decide⟩, fun h => ?_⟩
  have hnone := everyStep_iff.1 h (List.replicate 9 (0, .probe none))
    (0, .probe (some ⟨-12, by decide⟩)) [] _ _ rfl rfl rfl
  exact hnone 0 .read (Or.inr (Or.inr rfl))

end DtsDevices

end ProCamp
