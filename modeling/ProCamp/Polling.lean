import Mathlib.Tactic.ByContra
import ProCamp.PollWork

/-!
# Polling goes on

`polling_lives` : from the `queue_delayed_work` of `plat_dummy_probe` to the
`cancel_delayed_work_sync` of `plat_dummy_remove` the work is pending or running; it is
queued only where it is not pending; it is queued again with the delay of the default or
an accepted interval; it runs only on a ring that is initialised; and after
`plat_dummy_remove` it is neither pending nor running.

A load of `js_pool_time` can take its halves from two stores. It makes no difference :
every accepted interval has a high half of 0 (`Times`).
-/

namespace ProCamp

open PlatDummyDevice Machine

/-- Before `queue_delayed_work` of `plat_dummy_probe`. -/
def PollPhase.Early : PollPhase → Prop
  | .ring | .poolLock | .initWork | .poolTime | .queue => True
  | .publish | .bound | .cancelling | .destroy | .removed => False

/-- The polling is on. -/
def PollPhase.Polled : PollPhase → Prop
  | .publish | .bound => True
  | .ring | .poolLock | .initWork | .poolTime | .queue | .cancelling | .destroy | .removed => False

/-- The interval of a call that passed its check. -/
def PollSetter.interval : PollSetter → Option UInt32
  | .lock ms | .store ms | .store2 ms _ | .unlock ms => some ms
  | .idle | .ret _ => none

namespace Polling

/-- The delay of the default or of an accepted interval. -/
def Known (msecsToJiffies : UInt32 → ℕ) (accepted : List UInt32) (delay : ℕ) : Prop :=
  ∃ ms, (ms = devicePoolingTimeMs ∨ ms ∈ accepted) ∧ minPullInterval ≤ ms ∧
    ms ≤ maxPullInterval ∧ delay = msecsToJiffies ms

/-- The ring is initialised, and nothing but the driver has touched it since. -/
def RingRun (drv : Driver) : Prop :=
  ∃ io ds, exec Driver.step (Driver.init dummyIoBuffSize io) ds = some drv

/-- The polling is as it should be. -/
structure Polls (msecsToJiffies : UInt32 → ℕ) (s : Polling) : Prop where
  alive : s.phase.Polled → s.dwork.Pending ∨ s.dwork.work.pc ≠ none
  /-- It is not on its timer and on its queue. -/
  once : ¬(s.dwork.timer = true ∧ s.dwork.work.armed = true)
  /-- Where it is queued it is not pending. -/
  queued : s.phase = .queue ∨ (∃ delay, s.dwork.work.pc = some (.queue delay)) → ¬s.dwork.Pending
  delays : ∀ delay ∈ s.delays, Known msecsToJiffies s.accepted delay
  /-- It is an `unsigned long` on the 32-bit target. -/
  fits : ∀ delay ∈ s.delays, delay < 2 ^ 32
  ring : s.dwork.work.pc ≠ none → RingRun s.drv
  removed : s.phase = .removed → s.dwork.Idle

variable {msecsToJiffies : UInt32 → ℕ} {s t : Polling} {a : PollAct} {as : List PollAct}
  {io : PlatIo}

/-! ## What a step can do -/

/-- The steps of the polling. -/
inductive PollMove (msecsToJiffies : UInt32 → ℕ) (s : Polling) : Polling → Prop
  | ring (hpc : s.phase = .ring) : PollMove msecsToJiffies s { s with
      phase := .poolLock
      drv := { s.drv with dev := s.drv.dev.dummyInitDataBuffer } }
  | poolLock (hpc : s.phase = .poolLock) :
      PollMove msecsToJiffies s { s with phase := .initWork, poolLock := none }
  | initWork (hpc : s.phase = .initWork) :
      PollMove msecsToJiffies s { s with phase := .poolTime, dwork := .idle }
  | poolTime (hpc : s.phase = .poolTime) : PollMove msecsToJiffies s { s with
      phase := .queue
      jsPoolTime := .ofNat (msecsToJiffies devicePoolingTimeMs) }
  | queue (hpc : s.phase = .queue) :
      PollMove msecsToJiffies s { s with phase := .publish, dwork := s.dwork.queue }
  | publish (hpc : s.phase = .publish) : PollMove msecsToJiffies s { s with phase := .bound }
  | cancel (hpc : s.phase = .bound) :
      PollMove msecsToJiffies s { s with phase := .cancelling, dwork := s.dwork.disarm }
  | cancelled (hpc : s.phase = .cancelling) (hret : s.dwork.work.pc = none) :
      PollMove msecsToJiffies s { s with phase := .destroy }
  | removed (hpc : s.phase = .destroy) : PollMove msecsToJiffies s { s with phase := .removed }
  | expire (htimer : s.dwork.timer = true) :
      PollMove msecsToJiffies s { s with dwork := ⟨false, s.dwork.work.arm⟩ }
  | worker (harmed : s.dwork.work.armed = true) (hpc : s.dwork.work.pc = none) :
      PollMove msecsToJiffies s { s with dwork := ⟨s.dwork.timer, ⟨false, some .poolLock⟩⟩ }
  | workLock (hpc : s.dwork.work.pc = some .poolLock) (hfree : s.poolLock = none) :
      PollMove msecsToJiffies s { s.goto .poolTime with poolLock := some .work }
  | workTime (hpc : s.dwork.work.pc = some .poolTime) :
      PollMove msecsToJiffies s (s.goto .poolUnlock)
  | workUnlock (hpc : s.dwork.work.pc = some .poolUnlock) :
      PollMove msecsToJiffies s { s.goto .body with poolLock := none }
  | body {x : Input} {drv : Driver} (hpc : s.dwork.work.pc = some .body)
      (hstep : s.drv.step (.work x) = some drv) : PollMove msecsToJiffies s { s with drv }
  | leave {x : Input} {drv : Driver} (low : Bool) (hpc : s.dwork.work.pc = some .body)
      (hstep : s.drv.step (.work x) = some drv) : PollMove msecsToJiffies s
        { s.goto (.load low (s.jsPoolTime.half low)) with drv }
  | load {low : Bool} {v : ℕ} (hpc : s.dwork.work.pc = some (.load low v)) :
      PollMove msecsToJiffies s (s.goto (.queue (s.delay low v)))
  | requeue {delay : ℕ} (hpc : s.dwork.work.pc = some (.queue delay)) :
      PollMove msecsToJiffies s { s with
        dwork := (if s.phase = .cancelling then s.dwork
          else queueDelayedWork s.dwork delay).goto .ret
        delays := s.delays ++ [delay] }
  | ret (hpc : s.dwork.work.pc = some .ret) :
      PollMove msecsToJiffies s { s with dwork := s.dwork.finish }
  | reject (i : ℕ) : PollMove msecsToJiffies s (s.setSetter i (.ret (-eFault)))
  | accept (i : ℕ) {ms : UInt32} (hmin : minPullInterval ≤ ms) (hmax : ms ≤ maxPullInterval) :
      PollMove msecsToJiffies s { s.setSetter i (.lock ms) with accepted := s.accepted ++ [ms] }
  | setLock {i : ℕ} {ms : UInt32} (hpc : s.setters i = .lock ms) (hfree : s.poolLock = none) :
      PollMove msecsToJiffies s { s.setSetter i (.store ms) with poolLock := some (.setter i) }
  | store {i : ℕ} {ms : UInt32} {pc : PollSetter} (low : Bool)
      (hpc : (s.setters i).interval = some ms) (hpc' : pc.interval = some ms) :
      PollMove msecsToJiffies s { s.setSetter i pc with
        jsPoolTime := s.jsPoolTime.setHalf low ((Halves.ofNat (msecsToJiffies ms)).half low) }
  | setUnlock {i : ℕ} {ms : UInt32} (hpc : s.setters i = .unlock ms) :
      PollMove msecsToJiffies s { s.setSetter i (.ret 0) with poolLock := none }
  | user (st : IoStore) :
      PollMove msecsToJiffies s { s with drv := { s.drv with io := s.drv.io.store st } }
  | thread {y : Act} {drv : Driver}
      (hy : s.phase ≠ .ring ∨ (∃ i x, y = .reader i x) ∨ ∃ i x, y = .writer i x)
      (hstep : s.drv.step y = some drv) : PollMove msecsToJiffies s { s with drv }

theorem probeStep_move (h : s.probeStep msecsToJiffies = some t) :
    PollMove msecsToJiffies s t := by
  unfold probeStep at h
  split at h
  case h_1 hpc => cases h; exact .ring hpc
  case h_2 hpc => cases h; exact .poolLock hpc
  case h_3 hpc => cases h; exact .initWork hpc
  case h_4 hpc => cases h; exact .poolTime hpc
  case h_5 hpc => cases h; exact .queue hpc
  case h_6 hpc => cases h; exact .publish hpc
  case h_7 => cases h

theorem removeStep_move (h : s.removeStep = some t) : PollMove msecsToJiffies s t := by
  unfold removeStep at h
  split at h
  case h_1 hpc => cases h; exact .cancel hpc
  case h_2 hpc =>
    split_ifs at h with hret
    cases h
    exact .cancelled hpc hret
  case h_3 hpc => cases h; exact .removed hpc
  case h_4 => cases h

theorem workStep_move {x : Input} {low : Bool} (h : s.workStep x low = some t) :
    PollMove msecsToJiffies s t := by
  unfold workStep at h
  split at h
  case h_1 hpc =>
    split_ifs at h with hfree
    cases h
    exact .workLock hpc hfree
  case h_2 hpc => cases h; exact .workTime hpc
  case h_3 hpc => cases h; exact .workUnlock hpc
  case h_4 hpc =>
    obtain ⟨drv, hstep, rfl⟩ := Option.map_eq_some_iff.1 h
    split
    · exact .leave low hpc hstep
    · exact .body hpc hstep
  case h_5 hpc => cases h; exact .load hpc
  case h_6 hpc => cases h; exact .requeue hpc
  case h_7 hpc => cases h; exact .ret hpc
  case h_8 => cases h

theorem callSetStep_move {i : ℕ} {ms : UInt32} (h : s.callSetStep i ms = some t) :
    PollMove msecsToJiffies s t := by
  have hcall : ∀ {o : Option Polling}, o = (if s.phase.Published then
      if ms < minPullInterval ∨ ms > maxPullInterval then some (s.setSetter i (.ret (-eFault)))
      else some { s.setSetter i (.lock ms) with accepted := s.accepted ++ [ms] } else none) →
      o = some t → PollMove msecsToJiffies s t := by
    rintro o rfl ho
    split_ifs at ho with hpub hrange
    · cases ho
      exact .reject i
    · cases ho
      obtain ⟨hmin, hmax⟩ := not_or.1 hrange
      exact .accept i (UInt32.not_lt.1 hmin) (UInt32.not_lt.1 hmax)
  unfold callSetStep at h
  split at h
  · exact hcall rfl h
  · exact hcall rfl h
  · cases h

theorem setterStep_move {i : ℕ} {low : Bool}
    (h : s.setterStep msecsToJiffies i low = some t) : PollMove msecsToJiffies s t := by
  unfold setterStep at h
  split at h
  case h_1 hpc =>
    split_ifs at h with hfree
    cases h
    exact .setLock hpc hfree
  case h_2 hpc => cases h; exact .store low (by rw [hpc]; rfl) rfl
  case h_3 hpc => cases h; exact .store _ (by rw [hpc]; rfl) rfl
  case h_4 hpc => cases h; exact .setUnlock hpc
  case h_5 => cases h
  case h_6 => cases h

theorem step_move (h : s.step msecsToJiffies a = some t) : PollMove msecsToJiffies s t := by
  have hpub : s.phase.Published → s.phase ≠ .ring := by
    rintro hpub heq
    rw [heq] at hpub
    exact hpub
  cases a with
  | probe => exact probeStep_move h
  | remove => exact removeStep_move h
  | expire =>
    obtain ⟨d, hd, rfl⟩ := Option.map_eq_some_iff.1 h
    obtain ⟨htimer, rfl⟩ := DelayedWork.expire_eq_some.1 hd
    exact .expire htimer
  | worker =>
    obtain ⟨d, hd, rfl⟩ := Option.map_eq_some_iff.1 h
    obtain ⟨harmed, hpc, rfl⟩ := DelayedWork.start_eq_some.1 hd
    exact .worker harmed hpc
  | work x low => exact workStep_move h
  | callSet i ms => exact callSetStep_move h
  | setter i low => exact setterStep_move h
  | drv y =>
    cases y with
    | work x => cases h
    | callRead i count =>
      simp only [step] at h
      split_ifs at h with hphase
      obtain ⟨drv, hstep, rfl⟩ := Option.map_eq_some_iff.1 h
      exact .thread (y := .callRead i count) (Or.inl (hpub hphase)) hstep
    | callWrite i buf =>
      simp only [step] at h
      split_ifs at h with hphase
      obtain ⟨drv, hstep, rfl⟩ := Option.map_eq_some_iff.1 h
      exact .thread (y := .callWrite i buf) (Or.inl (hpub hphase)) hstep
    | reader i x =>
      obtain ⟨drv, hstep, rfl⟩ := Option.map_eq_some_iff.1 h
      exact .thread (Or.inr (Or.inl ⟨i, x, rfl⟩)) hstep
    | writer i x =>
      obtain ⟨drv, hstep, rfl⟩ := Option.map_eq_some_iff.1 h
      exact .thread (Or.inr (Or.inr ⟨i, x, rfl⟩)) hstep
    | store st =>
      cases h
      exact .user st

/-! ## When the work is queued -/

/-- `dwork` through the phases. -/
structure Life (s : Polling) : Prop where
  early : s.phase.Early → s.dwork.Idle
  once : ¬(s.dwork.timer = true ∧ s.dwork.work.armed = true)
  running : ∀ pc, s.dwork.work.pc = some pc → pc ≠ .ret → ¬s.dwork.Pending
  alive : s.phase.Polled → s.dwork.Pending ∨ ∃ pc, s.dwork.work.pc = some pc ∧ pc ≠ .ret
  cancelling : s.phase = .cancelling → ¬s.dwork.Pending
  removed : s.phase = .destroy ∨ s.phase = .removed → s.dwork.Idle

theorem life_start : (start io).Life where
  early _ := ⟨rfl, rfl, rfl⟩
  once h := nomatch h.1
  running _ h := nomatch h
  alive h := h.elim
  cancelling h := nomatch h
  removed h := by rcases h with h | h <;> cases h

/-- A step that leaves `dwork` and the phase alone. -/
theorem Life.congr (h : s.Life) (hphase : t.phase = s.phase) (hdwork : t.dwork = s.dwork) :
    t.Life := by
  constructor <;> rw [hdwork]
  · exact hphase ▸ h.early
  · exact h.once
  · exact h.running
  · exact hphase ▸ h.alive
  · exact hphase ▸ h.cancelling
  · exact hphase ▸ h.removed

/-- The work runs in no phase but those where it may. -/
theorem Life.not_early (h : s.Life) {pc : PollWorkPc} (hpc : s.dwork.work.pc = some pc) :
    ¬s.phase.Early ∧ s.phase ≠ .destroy ∧ s.phase ≠ .removed := by
  refine ⟨fun hearly => ?_, fun heq => ?_, fun heq => ?_⟩
  · simp [(h.early hearly).2.2] at hpc
  · simp [(h.removed (Or.inl heq)).2.2] at hpc
  · simp [(h.removed (Or.inr heq)).2.2] at hpc

/-- The work moves on to a line before its end. -/
theorem Life.goto (h : s.Life) (pc' : PollWorkPc) {pc : PollWorkPc}
    (hpc : s.dwork.work.pc = some pc) (hne : pc ≠ .ret) (hne' : pc' ≠ .ret) :
    (s.goto pc').Life := by
  have hnot := h.running pc hpc hne
  obtain ⟨hearly, hdestroy, hremoved⟩ := h.not_early hpc
  exact ⟨fun hp => absurd hp hearly, h.once, fun _ _ _ => hnot, fun _ => Or.inr ⟨pc', rfl, hne'⟩,
    fun _ => hnot, fun hp => (hp.elim hdestroy hremoved).elim⟩

/-- A work that is not pending is queued once. -/
theorem queueDelayedWork_once {d : DelayedWork PollWorkPc} (h : ¬d.Pending) (delay : ℕ) :
    (queueDelayedWork d delay).Pending ∧
      ¬((queueDelayedWork d delay).timer = true ∧
        (queueDelayedWork d delay).work.armed = true) := by
  have htimer : d.timer ≠ true := fun heq => h (Or.inl heq)
  have harmed : d.work.armed ≠ true := fun heq => h (Or.inr heq)
  unfold queueDelayedWork
  split_ifs
  · refine ⟨d.pending_queue, ?_⟩
    simp [DelayedWork.queue, h, htimer]
  · refine ⟨d.pending_queueDelayed, ?_⟩
    simp [DelayedWork.queueDelayed, h, harmed]

theorem Life.requeue (h : s.Life) {delay : ℕ} (hpc : s.dwork.work.pc = some (.queue delay))
    (delays : List ℕ) :
    Life { s with
      dwork := (if s.phase = .cancelling then s.dwork
        else queueDelayedWork s.dwork delay).goto .ret
      delays } := by
  have hnot := h.running _ hpc (by simp)
  obtain ⟨hearly, hdestroy, hremoved⟩ := h.not_early hpc
  by_cases hphase : s.phase = .cancelling
  · simp only [hphase, if_true]
    refine ⟨fun hp => absurd (hphase ▸ hp) hearly, h.once, fun pc heq hne => ?_, fun hp => hp.elim,
      fun _ => hnot, fun hp => by rcases hp with hp | hp <;> cases hp⟩
    exact absurd (Option.some.inj heq).symm hne
  · simp only [hphase, if_false]
    obtain ⟨hpending, honce⟩ := queueDelayedWork_once hnot delay
    refine ⟨fun hp => absurd hp hearly, honce, fun pc heq hne => ?_, fun _ => Or.inl hpending,
      fun hp => absurd hp hphase, fun hp => (hp.elim hdestroy hremoved).elim⟩
    exact absurd (Option.some.inj heq).symm hne

/-- The timer expires. -/
theorem Life.expire (h : s.Life) (htimer : s.dwork.timer = true) :
    Life { s with dwork := ⟨false, s.dwork.work.arm⟩ } := by
  have hpending : s.dwork.Pending := Or.inl htimer
  have hpending' : (⟨false, s.dwork.work.arm⟩ : DelayedWork PollWorkPc).Pending := Or.inr rfl
  exact {
    early := fun hp => absurd hpending (h.early hp).not_pending
    once := by simp
    running := fun pc hpc hne => absurd hpending (h.running pc hpc hne)
    alive := fun _ => Or.inl hpending'
    cancelling := fun hp => absurd hpending (h.cancelling hp)
    removed := fun hp => absurd hpending (h.removed hp).not_pending }

/-- A worker starts. -/
theorem Life.worker (h : s.Life) (harmed : s.dwork.work.armed = true) :
    Life { s with dwork := ⟨s.dwork.timer, ⟨false, some .poolLock⟩⟩ } := by
  have hpending : s.dwork.Pending := Or.inr harmed
  have htimer : s.dwork.timer ≠ true := fun heq => h.once ⟨heq, harmed⟩
  have hnot : ¬(⟨s.dwork.timer, ⟨false, some .poolLock⟩⟩ : DelayedWork PollWorkPc).Pending := by
    simp [DelayedWork.Pending, htimer]
  exact {
    early := fun hp => absurd hpending (h.early hp).not_pending
    once := by simp
    running := fun _ _ _ => hnot
    alive := fun _ => Or.inr ⟨.poolLock, rfl, by simp⟩
    cancelling := fun _ => hnot
    removed := fun hp => absurd hpending (h.removed hp).not_pending }

/-- The work returns, and is pending while the polling is on. -/
theorem Life.ret (h : s.Life) (hpc : s.dwork.work.pc = some .ret) :
    Life { s with dwork := s.dwork.finish } := by
  obtain ⟨hearly, hdestroy, hremoved⟩ := h.not_early hpc
  refine ⟨fun hp => absurd hp hearly, h.once, fun pc heq => ?_, fun hp => ?_, h.cancelling,
    fun hp => (hp.elim hdestroy hremoved).elim⟩
  · simp at heq
  · rcases h.alive hp with hpending | ⟨pc, heq, hne⟩
    · exact Or.inl hpending
    · exact absurd (Option.some.inj (heq.symm.trans hpc)) hne

theorem life_step (h : s.Life) (hmove : PollMove msecsToJiffies s t) : t.Life := by
  cases hmove with
  | ring hpc | poolLock hpc | poolTime hpc =>
    have hidle := h.early (by rw [hpc]; trivial)
    exact ⟨fun _ => hidle, h.once, h.running, fun hp => hp.elim, by simp, by simp⟩
  | initWork hpc =>
    exact ⟨fun _ => ⟨rfl, rfl, rfl⟩, by simp [DelayedWork.idle],
      by simp [DelayedWork.idle, Deferred.idle], fun hp => hp.elim, by simp, by simp⟩
  | queue hpc =>
    have hidle := h.early (by rw [hpc]; trivial)
    obtain ⟨hpending, honce⟩ := queueDelayedWork_once hidle.not_pending 0
    exact ⟨fun hp => hp.elim, honce, by simp [hidle.2.2], fun _ => Or.inl hpending, by simp,
      by simp⟩
  | publish hpc =>
    have halive := h.alive (by rw [hpc]; trivial)
    exact ⟨fun hp => hp.elim, h.once, h.running, fun _ => halive, by simp, by simp⟩
  | cancel hpc =>
    have hnot : ¬s.dwork.disarm.Pending := by simp [DelayedWork.Pending, DelayedWork.disarm]
    exact ⟨fun hp => hp.elim, by simp [DelayedWork.disarm], fun _ _ _ => hnot, fun hp => hp.elim,
      fun _ => hnot, by simp⟩
  | cancelled hpc hret =>
    have hnot := h.cancelling hpc
    simp only [DelayedWork.Pending, not_or, Bool.not_eq_true] at hnot
    exact ⟨fun hp => hp.elim, h.once, h.running, fun hp => hp.elim, by simp,
      fun _ => ⟨hnot.1, hnot.2, hret⟩⟩
  | removed hpc =>
    exact ⟨fun hp => hp.elim, h.once, h.running, fun hp => hp.elim, by simp,
      fun _ => h.removed (Or.inl hpc)⟩
  | expire htimer => exact h.expire htimer
  | worker harmed => exact h.worker harmed
  | workLock hpc => exact (h.goto .poolTime hpc (by simp) (by simp)).congr rfl rfl
  | workTime hpc => exact h.goto .poolUnlock hpc (by simp) (by simp)
  | workUnlock hpc => exact (h.goto .body hpc (by simp) (by simp)).congr rfl rfl
  | leave low hpc =>
    exact (h.goto (.load low (s.jsPoolTime.half low)) hpc (by simp) (by simp)).congr rfl rfl
  | @load low v hpc => exact h.goto (.queue (s.delay low v)) hpc (by simp) (by simp)
  | requeue hpc => exact h.requeue hpc _
  | ret hpc => exact h.ret hpc
  | _ => exact h.congr rfl rfl

/-! ## What it is queued with -/

/-- `js_pool_time`, and what is on its way to it and from it. -/
structure Times (msecsToJiffies : UInt32 → ℕ) (s : Polling) : Prop where
  range : ∀ ms ∈ s.accepted, minPullInterval ≤ ms ∧ ms ≤ maxPullInterval
  setters : ∀ i ms, (s.setters i).interval = some ms → ms ∈ s.accepted
  time : ¬s.phase.Early ∨ s.phase = .queue →
    s.jsPoolTime.hi = 0 ∧ Known msecsToJiffies s.accepted s.jsPoolTime.lo
  load : ∀ low v, s.dwork.work.pc = some (.load low v) →
    if low = true then Known msecsToJiffies s.accepted v else v = 0
  queue : ∀ delay, s.dwork.work.pc = some (.queue delay) → Known msecsToJiffies s.accepted delay
  delays : ∀ delay ∈ s.delays, Known msecsToJiffies s.accepted delay

theorem times_start : (start io).Times msecsToJiffies where
  range _ h := by simp [start] at h
  setters _ _ h := by simp [start, PollSetter.interval] at h
  time h := by
    rcases h with h | h
    · exact absurd trivial h
    · cases h
  load _ _ h := by simp [start, DelayedWork.idle, Deferred.idle] at h
  queue _ h := by simp [start, DelayedWork.idle, Deferred.idle] at h
  delays _ h := by simp [start] at h

/-- More intervals are accepted. -/
theorem Known.mono {accepted accepted' : List UInt32} {delay : ℕ}
    (h : Known msecsToJiffies accepted delay) (hsub : accepted ⊆ accepted') :
    Known msecsToJiffies accepted' delay := by
  obtain ⟨ms, hms | hms, hrange⟩ := h
  · exact ⟨ms, Or.inl hms, hrange⟩
  · exact ⟨ms, Or.inr (hsub hms), hrange⟩

/-- A step of the work to a line without a delay, or of the timer. -/
theorem Times.congr (h : s.Times msecsToJiffies) (haccepted : t.accepted = s.accepted)
    (hsetters : t.setters = s.setters) (htime : t.jsPoolTime = s.jsPoolTime)
    (hdelays : t.delays = s.delays) (hphase : ¬t.phase.Early → ¬s.phase.Early ∨ s.phase = .queue)
    (hqueue : t.phase = .queue → s.phase = .queue)
    (hload : ∀ low v, t.dwork.work.pc = some (.load low v) →
      s.dwork.work.pc = some (.load low v))
    (hpc : ∀ delay, t.dwork.work.pc = some (.queue delay) →
      s.dwork.work.pc = some (.queue delay)) : t.Times msecsToJiffies := by
  refine ⟨?_, ?_, fun hp => ?_, fun low v heq => ?_, fun delay heq => ?_, ?_⟩
  · rw [haccepted]
    exact h.range
  · rw [haccepted, hsetters]
    exact h.setters
  · rw [haccepted, htime]
    rcases hp with hp | hp
    · exact h.time (hphase hp)
    · exact h.time (Or.inr (hqueue hp))
  · rw [haccepted]
    exact h.load low v (hload low v heq)
  · rw [haccepted]
    exact h.queue delay (hpc delay heq)
  · rw [haccepted, hdelays]
    exact h.delays

/-- A thread of `set_poll_interval` moves on. -/
theorem Times.setSetter (h : s.Times msecsToJiffies) {i : ℕ} {pc : PollSetter}
    (hpc : ∀ ms, pc.interval = some ms → ms ∈ s.accepted) (poolLock : Option PoolAgent) :
    Times msecsToJiffies { s.setSetter i pc with poolLock } := by
  refine ⟨h.range, fun j ms hj => ?_, h.time, h.load, h.queue, h.delays⟩
  by_cases heq : j = i
  · exact hpc ms (by simpa [heq] using hj)
  · exact h.setters j ms (by simpa [heq] using hj)

/-- `set_poll_interval` accepts an interval. -/
theorem Times.accept (h : s.Times msecsToJiffies) (i : ℕ) {ms : UInt32}
    (hmin : minPullInterval ≤ ms) (hmax : ms ≤ maxPullInterval) :
    Times msecsToJiffies { s.setSetter i (.lock ms) with accepted := s.accepted ++ [ms] } := by
  have hsub : s.accepted ⊆ s.accepted ++ [ms] := List.subset_append_left _ _
  refine ⟨fun ms' hms' => ?_, fun j ms' hj => ?_, fun hp => ?_, fun low v heq => ?_,
    fun delay heq => (h.queue delay heq).mono hsub, fun d hd => (h.delays d hd).mono hsub⟩
  · rcases List.mem_append.1 hms' with hms' | hms'
    · exact h.range ms' hms'
    · obtain rfl := List.mem_singleton.1 hms'
      exact ⟨hmin, hmax⟩
  · by_cases heq : j = i
    · have hms : ms = ms' := by simpa [heq, PollSetter.interval] using hj
      simp [hms]
    · exact hsub (h.setters j ms' (by simpa [heq] using hj))
  · obtain ⟨hhi, hlo⟩ := h.time hp
    exact ⟨hhi, hlo.mono hsub⟩
  · have hv := h.load low v heq
    cases low with
    | true => exact Known.mono hv hsub
    | false => exact hv

section Range

variable (hrange : ∀ ms, minPullInterval ≤ ms → ms ≤ maxPullInterval → msecsToJiffies ms < 2 ^ 32)

include hrange

/-- A half of an accepted interval is stored. -/
theorem Times.store (h : s.Times msecsToJiffies) {i : ℕ} {ms : UInt32} {pc : PollSetter}
    (low : Bool) (hms : (s.setters i).interval = some ms) (hpc : pc.interval = some ms) :
    Times msecsToJiffies { s.setSetter i pc with
      jsPoolTime := s.jsPoolTime.setHalf low ((Halves.ofNat (msecsToJiffies ms)).half low) } := by
  have hmem := h.setters i ms hms
  obtain ⟨hmin, hmax⟩ := h.range ms hmem
  have hknown : Known msecsToJiffies s.accepted (msecsToJiffies ms) :=
    ⟨ms, Or.inr hmem, hmin, hmax, rfl⟩
  have hset : Times msecsToJiffies { s.setSetter i pc with poolLock := s.poolLock } :=
    h.setSetter (fun ms' hms' => Option.some.inj (hpc.symm.trans hms') ▸ hmem) s.poolLock
  refine ⟨h.range, hset.setters, fun hp => ?_, h.load, h.queue, h.delays⟩
  obtain ⟨hhi, hlo⟩ := h.time hp
  rw [Halves.ofNat_of_lt (hrange ms hmin hmax)]
  cases low with
  | true => exact ⟨hhi, hknown⟩
  | false => exact ⟨rfl, hlo⟩

theorem times_step (h : s.Times msecsToJiffies) (hlife : s.Life)
    (hmove : PollMove msecsToJiffies s t) : t.Times msecsToJiffies := by
  have htime : ∀ {pc}, s.dwork.work.pc = some pc →
      s.jsPoolTime.hi = 0 ∧ Known msecsToJiffies s.accepted s.jsPoolTime.lo :=
    fun hpc => h.time (Or.inl (hlife.not_early hpc).1)
  cases hmove with
  | ring | poolLock =>
    exact h.congr rfl rfl rfl rfl (fun hp => absurd trivial hp) (by simp) (fun _ _ => id)
      fun _ => id
  | initWork =>
    exact h.congr rfl rfl rfl rfl (fun hp => absurd trivial hp) (by simp)
      (by simp [DelayedWork.idle, Deferred.idle]) (by simp [DelayedWork.idle, Deferred.idle])
  | poolTime hpc =>
    have hmin : minPullInterval ≤ devicePoolingTimeMs := by decide
    have hmax : devicePoolingTimeMs ≤ maxPullInterval := by decide
    refine ⟨h.range, h.setters, fun _ => ?_, h.load, h.queue, h.delays⟩
    rw [Halves.ofNat_of_lt (hrange _ hmin hmax)]
    exact ⟨rfl, _, Or.inl rfl, hmin, hmax, rfl⟩
  | queue hpc =>
    exact h.congr rfl rfl rfl rfl (fun _ => Or.inr hpc) (by simp) (by simp) (by simp)
  | publish hpc | cancel hpc | cancelled hpc | removed hpc =>
    exact h.congr rfl rfl rfl rfl (fun _ => Or.inl (by simp [hpc, PollPhase.Early])) (by simp)
      (fun _ _ => id) fun _ => id
  | expire => exact h.congr rfl rfl rfl rfl Or.inl id (fun _ _ => id) fun _ => id
  | worker | workLock | workTime | workUnlock | ret =>
    exact h.congr rfl rfl rfl rfl Or.inl id (by simp [DelayedWork.goto])
      (by simp [DelayedWork.goto])
  | body | user | thread => exact h.congr rfl rfl rfl rfl Or.inl id (fun _ _ => id) fun _ => id
  | leave low hpc =>
    obtain ⟨hhi, hlo⟩ := htime hpc
    refine ⟨h.range, h.setters, h.time, fun low' v heq => ?_, fun delay heq => ?_, h.delays⟩
    · obtain ⟨rfl, rfl⟩ : low = low' ∧ s.jsPoolTime.half low = v := by
        simpa [DelayedWork.goto] using heq
      cases low with
      | true => simpa [Halves.half] using hlo
      | false => simpa [Halves.half] using hhi
    · simp [DelayedWork.goto] at heq
  | @load low v hpc =>
    obtain ⟨hhi, hlo⟩ := htime hpc
    have hv := h.load low v hpc
    refine ⟨h.range, h.setters, h.time, fun low' v' heq => ?_, fun delay heq => ?_, h.delays⟩
    · simp [DelayedWork.goto] at heq
    · obtain rfl : s.delay low v = delay := by simpa [DelayedWork.goto] using heq
      cases low with
      | true => simpa [Polling.delay, Halves.setHalf, Halves.toNat, hhi] using hv
      | false =>
        obtain rfl : v = 0 := by simpa using hv
        simpa [Polling.delay, Halves.setHalf, Halves.toNat] using hlo
  | @requeue delay hpc =>
    refine ⟨h.range, h.setters, h.time, (fun _ _ heq => ?_), (fun _ heq => ?_), fun d hd => ?_⟩
    · simp [DelayedWork.goto] at heq
    · simp [DelayedWork.goto] at heq
    · rcases List.mem_append.1 hd with hd | hd
      · exact h.delays d hd
      · obtain rfl := List.mem_singleton.1 hd
        exact h.queue _ hpc
  | reject i => exact h.setSetter (by simp [PollSetter.interval]) s.poolLock
  | accept i hmin hmax => exact h.accept i hmin hmax
  | @setLock i ms hpc =>
    refine h.setSetter (fun ms' hms' => ?_) _
    exact h.setters i ms' (by simpa [hpc, PollSetter.interval] using hms')
  | store low hms hpc => exact h.store hrange low hms hpc
  | setUnlock => exact h.setSetter (by simp [PollSetter.interval]) none

end Range

/-! ## What it runs on -/

/-- The ring is set up once, before anything touches it. -/
structure RingOnce (s : Polling) : Prop where
  before : s.phase = .ring → ∃ io, s.drv = Driver.init 0 io
  after : s.phase ≠ .ring → RingRun s.drv

theorem ringOnce_start : (start io).RingOnce :=
  ⟨fun _ => ⟨io, rfl⟩, fun h => absurd rfl h⟩

theorem RingRun.step {drv drv' : Driver} {y : Act} (h : RingRun drv)
    (hstep : drv.step y = some drv') : RingRun drv' := by
  obtain ⟨io, ds, hds⟩ := h
  exact ⟨io, ds ++ [y], exec_append_eq_some.2 ⟨drv, hds, exec_cons_eq_some.2 ⟨drv', hstep, rfl⟩⟩⟩

theorem ringOnce_step (h : s.RingOnce) (hlife : s.Life) (hmove : PollMove msecsToJiffies s t) :
    t.RingOnce := by
  have hrun : ∀ {pc}, s.dwork.work.pc = some pc → s.phase ≠ .ring := by
    intro pc hpc heq
    exact (hlife.not_early hpc).1 (by rw [heq]; trivial)
  cases hmove with
  | ring hpc =>
    obtain ⟨io, hdrv⟩ := h.before hpc
    exact ⟨fun hp => (nomatch hp), fun _ => ⟨io, [], by rw [hdrv]; rfl⟩⟩
  | poolLock hpc | initWork hpc | poolTime hpc | queue hpc | publish hpc | cancel hpc
  | cancelled hpc | removed hpc =>
    exact ⟨fun hp => (nomatch hp), fun _ => h.after (by simp [hpc])⟩
  | body hpc hstep | leave low hpc hstep =>
    exact ⟨fun hp => absurd hp (hrun hpc), fun hp => (h.after hp).step hstep⟩
  | user st =>
    refine ⟨fun hp => ?_, fun hp => (h.after hp).step (y := .store st) rfl⟩
    obtain ⟨io, hdrv⟩ := h.before hp
    exact ⟨io.store st, by simp only [hdrv]; rfl⟩
  | @thread y drv hy hstep =>
    refine ⟨fun hp => ?_, fun hp => (h.after hp).step hstep⟩
    -- No thread is in a call before the device is published.
    obtain ⟨io, hdrv⟩ := h.before hp
    rw [hdrv] at hstep
    rcases hy with hne | ⟨i, x, rfl⟩ | ⟨i, x, rfl⟩
    · exact absurd hp hne
    · cases x <;> cases hstep
    · cases x <;> cases hstep
  | _ => exact ⟨h.before, h.after⟩

/-! ## Runs -/

section Range

variable (hrange : ∀ ms, minPullInterval ≤ ms → ms ≤ maxPullInterval → msecsToJiffies ms < 2 ^ 32)

include hrange

theorem polls_of_exec (h : exec (step msecsToJiffies) (start io) as = some s) :
    s.Polls msecsToJiffies := by
  have hinv : s.Life ∧ s.Times msecsToJiffies ∧ s.RingOnce := by
    refine exec_invariant_of_step (I := fun s => s.Life ∧ s.Times msecsToJiffies ∧ s.RingOnce) ?_
      ⟨life_start, times_start, ringOnce_start⟩ h
    rintro s a t ⟨hlife, htimes, hring⟩ hstep
    have hmove := step_move hstep
    exact ⟨life_step hlife hmove, times_step hrange htimes hlife hmove,
      ringOnce_step hring hlife hmove⟩
  obtain ⟨hlife, htimes, hring⟩ := hinv
  refine ⟨fun hp => ?_, hlife.once, fun hq => ?_, htimes.delays, fun delay hd => ?_, fun hpc => ?_,
    fun hp => hlife.removed (Or.inr hp)⟩
  · rcases hlife.alive hp with hpending | ⟨pc, hpc, -⟩
    · exact Or.inl hpending
    · exact Or.inr (by simp [hpc])
  · rcases hq with hphase | ⟨delay, hpc⟩
    · exact (hlife.early (by rw [hphase]; trivial)).not_pending
    · exact hlife.running _ hpc (by simp)
  · obtain ⟨ms, -, hmin, hmax, rfl⟩ := htimes.delays delay hd
    exact hrange ms hmin hmax
  · obtain ⟨pc, hpc⟩ := Option.ne_none_iff_exists'.1 hpc
    refine hring.after fun heq => ?_
    exact (hlife.not_early hpc).1 (by rw [heq]; trivial)

end Range

/-- An interval out of range changes nothing. -/
theorem callSet_rejected {i : ℕ} {ms : UInt32}
    (hms : ms < minPullInterval ∨ ms > maxPullInterval)
    (h : s.step msecsToJiffies (.callSet i ms) = some t) : t = s.setSetter i (.ret (-eFault)) := by
  simp only [step, callSetStep, hms, if_true] at h
  split at h
  · split_ifs at h
    exact (Option.some.inj h).symm
  · split_ifs at h
    exact (Option.some.inj h).symm
  · cases h

/-- In every run the polling goes on from `plat_dummy_probe` to `plat_dummy_remove`, and an
interval that is rejected changes nothing. -/
theorem polling_lives
    (hrange : ∀ ms, minPullInterval ≤ ms → ms ≤ maxPullInterval → msecsToJiffies ms < 2 ^ 32)
    (h : exec (step msecsToJiffies) (start io) as = some s) :
    s.Polls msecsToJiffies ∧ ∀ i ms t, ms < minPullInterval ∨ ms > maxPullInterval →
      s.step msecsToJiffies (.callSet i ms) = some t → t = s.setSetter i (.ret (-eFault)) :=
  ⟨polls_of_exec hrange h, fun _ _ _ => callSet_rejected⟩

/-- `msecs_to_jiffies` with 100 jiffies a second. -/
def msecsToJiffies100 (ms : UInt32) : ℕ :=
  (ms.toNat + 9) / 10

/-- The device is probed and polled, the interval set to 20 ms and not to 5, and the device
polled again and removed. -/
def pollRun : List PollAct :=
  [List.replicate 6 .probe, .worker :: List.replicate 8 (.work .go true),
    .callSet 0 20 :: List.replicate 4 (.setter 0 false), [.callSet 0 5, .expire, .worker],
    List.replicate 8 (.work .go false), List.replicate 3 .remove].flatten

theorem polling_lives_run :
    ∃ s, exec (step msecsToJiffies100) (start Driver.zeroIo) pollRun = some s ∧
      s.phase = .removed ∧ s.delays = [50, 2] ∧ s.Polls msecsToJiffies100 := by
  have hrange : ∀ ms, minPullInterval ≤ ms → ms ≤ maxPullInterval →
      msecsToJiffies100 ms < 2 ^ 32 := by
    intro ms _ hmax
    have hle : ms.toNat ≤ 10000 := UInt32.le_iff_toNat_le.1 hmax
    simp only [msecsToJiffies100]
    omega
  have hend : (exec (step msecsToJiffies100) (start Driver.zeroIo) pollRun).map
      (fun s => (s.phase, s.delays)) = some (.removed, [50, 2]) := by decide +kernel
  obtain ⟨s, hs, heq⟩ := Option.map_eq_some_iff.1 hend
  simp only [Prod.mk.injEq] at heq
  exact ⟨s, hs, heq.1, heq.2, (polling_lives hrange hs).1⟩

end Polling

end ProCamp
