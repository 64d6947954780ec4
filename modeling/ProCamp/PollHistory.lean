import ProCamp.History
import ProCamp.Polling

/-!
# The polling interval as one register

`js_pool_time` is stored and loaded as two halves, and line 233 loads it without `pool_lock`.
Its high half is always 0, so whatever is stored takes effect with the low half, and a load
reads what it returns there (`intervalRegister`).

`interval_history` : under any schedule the loads of `plat_dummy_work` and the stores of
`set_poll_interval` are those of an atomic register, each between the start and the end of its
own run or call. So a work that starts after `set_poll_interval` has returned 0 is queued
again with that interval or a later one.
-/

namespace ProCamp

open PlatDummyDevice Machine History

/-! ## The register -/

/-- The operations on the interval. -/
inductive IntervalOp where
  | store (ms : UInt32)
  | load
  deriving DecidableEq

/-- What an operation answers. -/
inductive IntervalAnswer where
  | done
  | jiffies (delay : ℕ)
  deriving DecidableEq

/-- The interval, in milliseconds, that is loaded in jiffies. -/
def intervalRegister (msecsToJiffies : UInt32 → ℕ) :
    Sequential UInt32 IntervalOp IntervalAnswer where
  init := devicePoolingTimeMs
  next
    | .store ms, _ => ms
    | .load, ms => ms
  answer
    | .store _, _ => .done
    | .load, ms => .jiffies (msecsToJiffies ms)

/-- A call of `set_poll_interval`, or a run of `plat_dummy_work`. -/
inductive IntervalCall where
  | set (ms : UInt32)
  | poll
  deriving DecidableEq

/-- A history of the interval. -/
abbrev PollHistory :=
  List (Event PoolAgent IntervalCall IntervalOp IntervalAnswer)

/-- The intervals that `set_poll_interval` accepts. -/
def PollRange (ms : UInt32) : Prop :=
  minPullInterval ≤ ms ∧ ms ≤ maxPullInterval

theorem pollRange_default : PollRange devicePoolingTimeMs :=
  ⟨by decide, by decide⟩

/-- The operation of the store of a half. -/
def storing (low : Bool) (ms : UInt32) : Option (IntervalOp × IntervalAnswer) :=
  if low then some (.store ms, .done) else none

/-- The operation of a step of `set_poll_interval` : the store of the low half. -/
def PollSetter.commit (low : Bool) : PollSetter → Option (IntervalOp × IntervalAnswer)
  | .store ms => storing low ms
  | .store2 ms first => storing (!first) ms
  | .idle | .lock _ | .unlock _ | .ret _ => none

namespace Polling

/-- What `js_pool_time` holds in its low half, loaded. -/
def loaded (s : Polling) : Option (IntervalOp × IntervalAnswer) :=
  some (.load, .jiffies s.jsPoolTime.lo)

/-- The operation of a step of `plat_dummy_work` : the load of the low half. -/
def commitLoad (s : Polling) (low : Bool) : Option (IntervalOp × IntervalAnswer) :=
  match s.dwork.work.pc with
  | some .body =>
    match s.drv.work with
    | .exit _ => if low then s.loaded else none
    | _ => none
  | some (.load first _) => if first then none else s.loaded
  | _ => none

/-- The history after an action. -/
def record (s : Polling) (a : PollAct) (h : PollHistory) : PollHistory :=
  match a with
  | .worker => .call .work .poll :: h
  | .work _ low => commit .work (s.commitLoad low) h
  | .callSet i ms => .call (.setter i) (.set ms) :: h
  | .setter i low => commit (.setter i) ((s.setters i).commit low) h
  | .probe | .remove | .expire | .drv _ => h

end Polling

/-- What the loads of a history have returned, the latest first. -/
def loadedJiffies : PollHistory → List ℕ
  | [] => []
  | .op _ .load (.jiffies delay) :: h => delay :: loadedJiffies h
  | _ :: h => loadedJiffies h

/-- `set_poll_interval` returns 0 after one store, and `-EFAULT` after none. -/
inductive SetOutcome (ms : UInt32) : List (IntervalOp × IntervalAnswer) → ℤ → Prop
  | accepted (hms : PollRange ms) : SetOutcome ms [(.store ms, .done)] 0
  | rejected (hms : ¬PollRange ms) : SetOutcome ms [] (-eFault)

/-- What a call of `set_poll_interval` has done at each of its lines. -/
def PollSetter.Made (ms : UInt32) (ops : List (IntervalOp × IntervalAnswer)) : PollSetter → Prop
  | .idle => True
  | .lock ms' | .store ms' => ms' = ms ∧ PollRange ms ∧ ops = []
  | .store2 ms' first =>
    ms' = ms ∧ PollRange ms ∧ ops = if first then [(.store ms, .done)] else []
  | .unlock ms' => ms' = ms ∧ PollRange ms ∧ ops = [(.store ms, .done)]
  | .ret r => SetOutcome ms ops r

/-- What `plat_dummy_work` has loaded and not yet used. -/
def PollWorkPc.pending : PollWorkPc → Option ℕ
  | .load true v => some v
  | .queue delay => some delay
  | _ => none

/-- What a run of `plat_dummy_work` has done at each of its lines. -/
def PollWorkPc.Made (ops : List (IntervalOp × IntervalAnswer)) : PollWorkPc → Prop
  | .poolLock | .poolTime | .poolUnlock | .body => ops = []
  | .load first v => if first then ops = [(.load, .jiffies v)] else v = 0 ∧ ops = []
  | .queue delay => ops = [(.load, .jiffies delay)]
  | .ret => ∃ delay, ops = [(.load, .jiffies delay)]

namespace Polling

variable {msecsToJiffies : UInt32 → ℕ} {s t : Polling} {h : PollHistory} {a : PollAct}
  {io : PlatIo}

/-! ## The other steps -/

/-- A step that is about neither the interval nor the lines around it. -/
structure Aside (s t : Polling) : Prop where
  early : t.phase.Early → s.phase.Early
  timed : ¬t.phase.Early ∨ t.phase = .queue → ¬s.phase.Early ∨ s.phase = .queue
  setters : t.setters = s.setters
  jsPoolTime : t.jsPoolTime = s.jsPoolTime
  delays : t.delays = s.delays
  pc : t.dwork.work.pc = s.dwork.work.pc

theorem Aside.of_phase (hphase : t.phase = s.phase) (hsetters : t.setters = s.setters)
    (htime : t.jsPoolTime = s.jsPoolTime) (hdelays : t.delays = s.delays)
    (hpc : t.dwork.work.pc = s.dwork.work.pc) : s.Aside t :=
  ⟨by rw [hphase]; exact id, by rw [hphase]; exact id, hsetters, htime, hdelays, hpc⟩

theorem probeStep_aside (hlife : s.Life) (hstep : s.probeStep msecsToJiffies = some t) :
    s.Aside t ∨ s.phase = .poolTime ∧ t = { s with
      phase := .queue
      jsPoolTime := .ofNat (msecsToJiffies devicePoolingTimeMs) } := by
  unfold probeStep at hstep
  split at hstep
  case h_1 hpc =>
    cases hstep
    exact Or.inl ⟨fun _ => by rw [hpc]; trivial, by simp [PollPhase.Early], rfl, rfl, rfl, rfl⟩
  case h_2 hpc =>
    cases hstep
    exact Or.inl ⟨fun _ => by rw [hpc]; trivial, by simp [PollPhase.Early], rfl, rfl, rfl, rfl⟩
  case h_3 hpc =>
    cases hstep
    have hidle := (hlife.early (by rw [hpc]; trivial)).2.2
    exact Or.inl ⟨fun _ => by rw [hpc]; trivial, by simp [PollPhase.Early], rfl, rfl, rfl,
      hidle.symm⟩
  case h_4 hpc =>
    cases hstep
    exact Or.inr ⟨hpc, rfl⟩
  case h_5 hpc =>
    cases hstep
    refine Or.inl ⟨fun hp => hp.elim, fun _ => Or.inr hpc, rfl, rfl, rfl, ?_⟩
    simp [queueDelayedWork]
  case h_6 hpc =>
    cases hstep
    exact Or.inl ⟨fun hp => hp.elim, fun _ => Or.inl (by simp [hpc, PollPhase.Early]), rfl, rfl,
      rfl, rfl⟩
  case h_7 => cases hstep

theorem removeStep_aside (hstep : s.removeStep = some t) : s.Aside t := by
  unfold removeStep at hstep
  split at hstep
  case h_1 hpc =>
    cases hstep
    exact ⟨fun hp => hp.elim, fun _ => Or.inl (by simp [hpc, PollPhase.Early]), rfl, rfl, rfl, rfl⟩
  case h_2 hpc =>
    split_ifs at hstep
    cases hstep
    exact ⟨fun hp => hp.elim, fun _ => Or.inl (by simp [hpc, PollPhase.Early]), rfl, rfl, rfl, rfl⟩
  case h_3 hpc =>
    cases hstep
    exact ⟨fun hp => hp.elim, fun _ => Or.inl (by simp [hpc, PollPhase.Early]), rfl, rfl, rfl, rfl⟩
  case h_4 => cases hstep

theorem drvStep_aside {y : Act} (hstep : s.step msecsToJiffies (.drv y) = some t) :
    s.Aside t := by
  have hdrv : ∀ {o : Option Driver}, (o.map fun drv => { s with drv }) = some t → s.Aside t := by
    intro o ho
    obtain ⟨drv, -, rfl⟩ := Option.map_eq_some_iff.1 ho
    exact .of_phase rfl rfl rfl rfl rfl
  cases y with
  | work x => cases hstep
  | callRead | callWrite =>
    simp only [step] at hstep
    split_ifs at hstep
    exact hdrv hstep
  | reader | writer => exact hdrv hstep
  | store st => exact hdrv (o := s.drv.step (.store st)) hstep

/-! ## The invariant -/

/-- The driver, with its history. -/
abbrev PollTraced :=
  Polling × PollHistory

/-- One step of it. -/
def recorded (msecsToJiffies : UInt32 → ℕ) (w : PollTraced) (a : PollAct) : Option PollTraced :=
  recording (step msecsToJiffies) record w a

/-- `js_pool_time` is the register. -/
structure HoldsInterval (msecsToJiffies : UInt32 → ℕ) (w : PollTraced) : Prop where
  early : w.1.phase.Early → (∀ i, w.1.setters i = .idle) ∧
    state (intervalRegister msecsToJiffies) w.2 = devicePoolingTimeMs
  range : PollRange (state (intervalRegister msecsToJiffies) w.2)
  time : ¬w.1.phase.Early ∨ w.1.phase = .queue →
    w.1.jsPoolTime = ⟨msecsToJiffies (state (intervalRegister msecsToJiffies) w.2), 0⟩

/-- Every call and every run has done what its line says. -/
structure ServesInterval (w : PollTraced) : Prop where
  setter : ∀ i, w.1.setters i = .idle ∨ ∃ ms, callOf (.setter i) w.2 = some (.set ms) ∧
    (w.1.setters i).Made ms (opsOf (.setter i) w.2)
  work : ∀ pc, w.1.dwork.work.pc = some pc → pc.Made (opsOf .work w.2)
  delays : w.1.delays ++ (w.1.dwork.work.pc.bind PollWorkPc.pending).toList =
    (loadedJiffies w.2).reverse

theorem holdsInterval_start : HoldsInterval msecsToJiffies (start io, []) where
  early _ := ⟨fun _ => rfl, rfl⟩
  range := pollRange_default
  time hp := by
    rcases hp with hp | hp
    · exact absurd trivial hp
    · cases hp

theorem servesInterval_start : ServesInterval (start io, []) where
  setter _ := Or.inl rfl
  work _ hpc := by cases hpc
  delays := rfl

theorem HoldsInterval.aside (hholds : HoldsInterval msecsToJiffies (s, h)) (haside : s.Aside t) :
    HoldsInterval msecsToJiffies (t, h) where
  early hp := by
    rw [haside.setters]
    exact hholds.early (haside.early hp)
  range := hholds.range
  time hp := haside.jsPoolTime.trans (hholds.time (haside.timed hp))

/-- The threads move on, and the register with them or not at all. -/
theorem HoldsInterval.congr {h' : PollHistory} (hholds : HoldsInterval msecsToJiffies (s, h))
    (hphase : t.phase = s.phase)
    (hsetters : s.phase.Early → (∀ i, s.setters i = .idle) → ∀ i, t.setters i = .idle)
    (htime : t.jsPoolTime = s.jsPoolTime)
    (hstate : state (intervalRegister msecsToJiffies) h' =
      state (intervalRegister msecsToJiffies) h) : HoldsInterval msecsToJiffies (t, h') where
  early hp := by
    obtain ⟨hidle, hdefault⟩ := hholds.early (hphase ▸ hp)
    exact ⟨hsetters (hphase ▸ hp) hidle, hstate.trans hdefault⟩
  range := hstate ▸ hholds.range
  time hp := by
    rw [hstate]
    exact htime.trans (hholds.time (hphase ▸ hp))

theorem ServesInterval.aside (hserves : ServesInterval (s, h)) (haside : s.Aside t) :
    ServesInterval (t, h) where
  setter := by
    rw [haside.setters]
    exact hserves.setter
  work := by
    rw [haside.pc]
    exact hserves.work
  delays := by
    rw [haside.delays, haside.pc]
    exact hserves.delays

/-! ## `set_poll_interval` -/

/-- An interval on its way to the register has passed its check. -/
theorem ServesInterval.range {i : ℕ} {ms : UInt32} (hserves : ServesInterval (s, h))
    (hms : (s.setters i).interval = some ms) : PollRange ms := by
  obtain hidle | ⟨ms', -, hmade⟩ := hserves.setter i
  · rw [show s.setters i = .idle from hidle] at hms
    cases hms
  · generalize s.setters i = pc at hms hmade
    cases pc with
    | idle | ret => cases hms
    | lock | store | store2 | unlock =>
      cases hms
      obtain ⟨rfl, hrange, -⟩ := hmade
      exact hrange

/-- A thread in `set_poll_interval` moves on. -/
theorem ServesInterval.setter_step {i : ℕ} {pc : PollSetter} {low : Bool}
    (hserves : ServesInterval (s, h)) (hne : s.setters i ≠ .idle)
    (hmade : ∀ ms, (s.setters i).Made ms (opsOf (.setter i) h) →
      pc.Made ms (((s.setters i).commit low).toList ++ opsOf (.setter i) h))
    (hsetters : t.setters = Function.update s.setters i pc) (hdelays : t.delays = s.delays)
    (hpc : t.dwork.work.pc = s.dwork.work.pc) :
    ServesInterval (t, commit (.setter i) ((s.setters i).commit low) h) where
  setter j := by
    rw [hsetters]
    by_cases hji : j = i
    · subst hji
      rcases hserves.setter j with hidle | ⟨ms, hcall, hms⟩
      · exact absurd hidle hne
      · refine Or.inr ⟨ms, by rw [callOf_commit]; exact hcall, ?_⟩
        rw [Function.update_self, opsOf_commit_self]
        exact hmade ms hms
    · have hother : PoolAgent.setter i ≠ .setter j := by simpa using Ne.symm hji
      rw [Function.update_of_ne hji, callOf_commit, opsOf_commit_of_ne hother]
      exact hserves.setter j
  work := by
    rw [hpc, opsOf_commit_of_ne (by simp)]
    exact hserves.work
  delays := by
    have hloaded : loadedJiffies (commit (.setter i) ((s.setters i).commit low) h) =
        loadedJiffies h := by
      unfold PollSetter.commit storing
      split
      · split_ifs <;> rfl
      · split_ifs <;> rfl
      all_goals rfl
    rw [hdelays, hpc, hloaded]
    exact hserves.delays

theorem servesInterval_setter {i : ℕ} {low : Bool} (hserves : ServesInterval (s, h))
    (hstep : s.setterStep msecsToJiffies i low = some t) :
    ServesInterval (t, commit (.setter i) ((s.setters i).commit low) h) := by
  unfold setterStep at hstep
  split at hstep
  case h_1 ms hpc =>
    split_ifs at hstep
    cases hstep
    refine hserves.setter_step (by simp [hpc]) (fun ms' hmade => ?_) rfl rfl rfl
    rw [hpc] at hmade ⊢
    exact hmade
  case h_2 ms hpc =>
    cases hstep
    refine hserves.setter_step (by simp [hpc]) (fun ms' hmade => ?_) rfl rfl rfl
    rw [hpc] at hmade ⊢
    obtain ⟨rfl, hrange, hops⟩ := hmade
    refine ⟨rfl, hrange, ?_⟩
    rw [hops]
    cases low <;> rfl
  case h_3 ms first hpc =>
    cases hstep
    refine hserves.setter_step (by simp [hpc]) (fun ms' hmade => ?_) rfl rfl rfl
    rw [hpc] at hmade ⊢
    obtain ⟨rfl, hrange, hops⟩ := hmade
    refine ⟨rfl, hrange, ?_⟩
    rw [hops]
    cases first <;> rfl
  case h_4 ms hpc =>
    cases hstep
    refine hserves.setter_step (by simp [hpc]) (fun ms' hmade => ?_) rfl rfl rfl
    rw [hpc] at hmade ⊢
    obtain ⟨rfl, hrange, hops⟩ := hmade
    rw [hops]
    exact .accepted hrange
  case h_5 => cases hstep
  case h_6 => cases hstep

theorem servesInterval_callSet {i : ℕ} {ms : UInt32} (hserves : ServesInterval (s, h))
    (hstep : s.callSetStep i ms = some t) :
    ServesInterval (t, .call (.setter i) (.set ms) :: h) := by
  obtain ⟨pc, hmade, hsetters, hdelays, hdwork⟩ : ∃ pc : PollSetter, pc.Made ms [] ∧
      t.setters = Function.update s.setters i pc ∧ t.delays = s.delays ∧ t.dwork = s.dwork := by
    unfold callSetStep at hstep
    split at hstep
    case h_3 => cases hstep
    all_goals
      split_ifs at hstep with hpub hrange
      · cases hstep
        have hout : ¬PollRange ms := fun hms =>
          hrange.elim (UInt32.not_lt.2 hms.1) (UInt32.not_lt.2 hms.2)
        exact ⟨.ret (-eFault), SetOutcome.rejected hout, rfl, rfl, rfl⟩
      · cases hstep
        obtain ⟨hmin, hmax⟩ := not_or.1 hrange
        have hin : PollRange ms := ⟨UInt32.not_lt.1 hmin, UInt32.not_lt.1 hmax⟩
        exact ⟨.lock ms, ⟨rfl, hin, rfl⟩, rfl, rfl, rfl⟩
  refine ⟨fun j => ?_, ?_, ?_⟩
  · simp only [hsetters]
    by_cases hji : j = i
    · subst hji
      refine Or.inr ⟨ms, callOf_call_self, ?_⟩
      rw [Function.update_self, opsOf_call_self]
      exact hmade
    · have hother : PoolAgent.setter i ≠ .setter j := by simpa using Ne.symm hji
      rw [Function.update_of_ne hji, callOf_call_of_ne hother, opsOf_call_of_ne hother]
      exact hserves.setter j
  · rw [hdwork, opsOf_call_of_ne (by simp)]
    exact hserves.work
  · rw [hdelays, hdwork]
    exact hserves.delays

section Range

variable (hrange : ∀ ms, minPullInterval ≤ ms → ms ≤ maxPullInterval → msecsToJiffies ms < 2 ^ 32)

include hrange

/-- A half of an interval is stored, and the register with the low half. -/
theorem HoldsInterval.store {i : ℕ} {ms : UInt32} {low : Bool}
    (hholds : HoldsInterval msecsToJiffies (s, h)) (hms : PollRange ms)
    (hne : s.setters i ≠ .idle) (hphase : t.phase = s.phase)
    (htime : t.jsPoolTime =
      s.jsPoolTime.setHalf low ((Halves.ofNat (msecsToJiffies ms)).half low)) :
    HoldsInterval msecsToJiffies (t, commit (.setter i) (storing low ms) h) := by
  have hlater : ¬s.phase.Early := fun hp => hne ((hholds.early hp).1 i)
  have hold : s.jsPoolTime = _ := hholds.time (Or.inl hlater)
  rw [hold, Halves.ofNat_of_lt (hrange ms hms.1 hms.2)] at htime
  refine ⟨fun hp => absurd (hphase ▸ hp) hlater, ?_, fun _ => ?_⟩
  · cases low with
    | true => exact hms
    | false => exact hholds.range
  · cases low with
    | true => exact htime
    | false => exact htime

theorem holdsInterval_setter {i : ℕ} {low : Bool}
    (hholds : HoldsInterval msecsToJiffies (s, h)) (hserves : ServesInterval (s, h))
    (hstep : s.setterStep msecsToJiffies i low = some t) :
    HoldsInterval msecsToJiffies (t, commit (.setter i) ((s.setters i).commit low) h) := by
  have hnotIdle : s.setters i ≠ .idle := by
    rintro hpc
    simp [setterStep, hpc] at hstep
  have hearly : s.phase.Early → (∀ i, s.setters i = .idle) → ∀ i, t.setters i = .idle :=
    fun _ hidle => absurd (hidle i) hnotIdle
  unfold setterStep at hstep
  split at hstep
  case h_1 ms hpc =>
    split_ifs at hstep
    cases hstep
    refine hholds.congr rfl hearly rfl ?_
    rw [hpc]
    rfl
  case h_2 ms hpc =>
    have hms : PollRange ms := hserves.range (i := i) (by rw [hpc]; rfl)
    cases hstep
    rw [hpc]
    exact hholds.store hrange hms hnotIdle rfl rfl
  case h_3 ms first hpc =>
    have hms : PollRange ms := hserves.range (i := i) (by rw [hpc]; rfl)
    cases hstep
    rw [hpc]
    exact hholds.store hrange hms hnotIdle rfl rfl
  case h_4 ms hpc =>
    cases hstep
    refine hholds.congr rfl hearly rfl ?_
    rw [hpc]
    rfl
  case h_5 => cases hstep
  case h_6 => cases hstep

end Range

theorem holdsInterval_callSet {i : ℕ} {ms : UInt32}
    (hholds : HoldsInterval msecsToJiffies (s, h)) (hstep : s.callSetStep i ms = some t) :
    HoldsInterval msecsToJiffies (t, .call (.setter i) (.set ms) :: h) := by
  obtain ⟨hpub, hphase, htime⟩ : s.phase.Published ∧ t.phase = s.phase ∧
      t.jsPoolTime = s.jsPoolTime := by
    unfold callSetStep at hstep
    split at hstep
    case h_3 => cases hstep
    all_goals
      split_ifs at hstep with hpub hrange
      · cases hstep
        exact ⟨hpub, rfl, rfl⟩
      · cases hstep
        exact ⟨hpub, rfl, rfl⟩
  have hlater : ¬s.phase.Early := by
    intro hearly
    cases hp : s.phase <;> simp [hp, PollPhase.Published, PollPhase.Early] at hpub hearly
  exact hholds.congr hphase (fun hp => absurd hp hlater) htime rfl

/-! ## `plat_dummy_work` -/

/-- What a step of `plat_dummy_work` leaves as it is. -/
theorem workStep_frame {x : Input} {low : Bool} (hstep : s.workStep x low = some t) :
    t.phase = s.phase ∧ t.setters = s.setters ∧ t.jsPoolTime = s.jsPoolTime := by
  unfold workStep at hstep
  split at hstep
  case h_1 =>
    split_ifs at hstep
    cases hstep
    exact ⟨rfl, rfl, rfl⟩
  case h_4 =>
    obtain ⟨drv, -, rfl⟩ := Option.map_eq_some_iff.1 hstep
    split <;> exact ⟨rfl, rfl, rfl⟩
  case h_8 => cases hstep
  all_goals
    cases hstep
    exact ⟨rfl, rfl, rfl⟩

/-- The load of the low half returns what the register has. -/
theorem HoldsInterval.loaded (hholds : HoldsInterval msecsToJiffies (s, h)) (hlife : s.Life)
    {pc : PollWorkPc} (hpc : s.dwork.work.pc = some pc) :
    s.jsPoolTime = ⟨msecsToJiffies (state (intervalRegister msecsToJiffies) h), 0⟩ :=
  hholds.time (Or.inl (hlife.not_early hpc).1)

theorem commitLoad_eq (s : Polling) (low : Bool) :
    s.commitLoad low = none ∨ s.commitLoad low = s.loaded ∧ s.dwork.work.pc ≠ none := by
  unfold commitLoad
  split
  case h_1 hpc =>
    split
    · split_ifs
      · exact Or.inr ⟨rfl, by simp [hpc]⟩
      · exact Or.inl rfl
    · exact Or.inl rfl
  case h_2 hpc =>
    split_ifs
    · exact Or.inl rfl
    · exact Or.inr ⟨rfl, by simp [hpc]⟩
  · exact Or.inl rfl

theorem holdsInterval_work {x : Input} {low : Bool}
    (hholds : HoldsInterval msecsToJiffies (s, h)) (hstep : s.workStep x low = some t) :
    HoldsInterval msecsToJiffies (t, commit .work (s.commitLoad low) h) := by
  obtain ⟨hphase, hsetters, htime⟩ := workStep_frame hstep
  refine hholds.congr hphase (fun _ hidle i => by rw [hsetters]; exact hidle i) htime ?_
  rcases commitLoad_eq s low with hnone | ⟨hload, -⟩
  · rw [hnone, commit_none]
  · rw [hload]
    rfl

/-- The work moves on to another line. -/
theorem ServesInterval.work_to {low : Bool} {pc : PollWorkPc}
    {o : Option (IntervalOp × IntervalAnswer)} (hserves : ServesInterval (s, h))
    (ho : s.commitLoad low = o) (hsetters : t.setters = s.setters)
    (hpc : t.dwork.work.pc = some pc) (hmade : pc.Made (o.toList ++ opsOf .work h))
    (hdelays : t.delays ++ pc.pending.toList = (loadedJiffies (commit .work o h)).reverse) :
    ServesInterval (t, commit .work (s.commitLoad low) h) where
  setter i := by
    rw [hsetters, callOf_commit, opsOf_commit_of_ne (by simp)]
    exact hserves.setter i
  work pc' hpc' := by
    obtain rfl : pc = pc' := Option.some.inj (hpc.symm.trans hpc')
    rw [opsOf_commit_self, ho]
    exact hmade
  delays := by
    rw [hpc, ho]
    exact hdelays

theorem loadedJiffies_loaded :
    loadedJiffies (commit .work s.loaded h) = s.jsPoolTime.lo :: loadedJiffies h :=
  rfl

/-- The body of the work goes on, or leaves for line 233. -/
theorem servesInterval_body {x : Input} {low : Bool} (hserves : ServesInterval (s, h))
    (hholds : HoldsInterval msecsToJiffies (s, h)) (hlife : s.Life)
    (hpc : s.dwork.work.pc = some .body) (hstep : s.workStep x low = some t) :
    ServesInterval (t, commit .work (s.commitLoad low) h) := by
  have hops : opsOf .work h = [] := hserves.work _ hpc
  have hdelays := hserves.delays
  rw [hpc] at hdelays
  have htime := hholds.loaded hlife hpc
  simp only [workStep, hpc] at hstep
  obtain ⟨drv, -, rfl⟩ := Option.map_eq_some_iff.1 hstep
  have hcommit : s.commitLoad low = match s.drv.work with
      | .exit _ => if low then s.loaded else none
      | _ => none := by
    simp [commitLoad, hpc]
  split
  case h_1 last hexit =>
    rw [hexit] at hcommit
    cases low with
    | true =>
      refine hserves.work_to hcommit rfl rfl ?_ ?_
      · rw [hops]
        rfl
      · rw [if_pos rfl, loadedJiffies_loaded, List.reverse_cons]
        exact congrArg (· ++ [s.jsPoolTime.lo]) (by simpa [PollWorkPc.pending] using hdelays)
    | false =>
      refine hserves.work_to hcommit rfl rfl ⟨?_, hops⟩ hdelays
      rw [htime]
      rfl
  case h_2 hstays =>
    have hnone : s.commitLoad low = none := by
      rw [hcommit]
      split
      · rename_i last hexit
        exact absurd hexit (hstays last)
      · rfl
    exact hserves.work_to hnone rfl hpc hops hdelays

/-- The other half is loaded. -/
theorem servesInterval_load {low first : Bool} {v : ℕ} (hserves : ServesInterval (s, h))
    (hholds : HoldsInterval msecsToJiffies (s, h)) (hlife : s.Life)
    (hpc : s.dwork.work.pc = some (.load first v)) :
    ServesInterval (s.goto (.queue (s.delay first v)), commit .work (s.commitLoad low) h) := by
  have hmade := hserves.work _ hpc
  have hdelays := hserves.delays
  rw [hpc] at hdelays
  have htime := hholds.loaded hlife hpc
  cases first with
  | true =>
    have hdelay : s.delay true v = v := by
      simp [delay, htime, Halves.setHalf, Halves.toNat]
    refine hserves.work_to (o := none) (by simp [commitLoad, hpc]) rfl rfl ?_ ?_
    · rw [hdelay]
      exact hmade
    · rw [hdelay]
      exact hdelays
  | false =>
    obtain ⟨rfl, hops⟩ := hmade
    have hdelay : s.delay false 0 = s.jsPoolTime.lo := by
      simp [delay, Halves.setHalf, Halves.toNat]
    refine hserves.work_to (o := s.loaded) (by simp [commitLoad, hpc]) rfl rfl ?_ ?_
    · rw [hdelay, show opsOf .work h = [] from hops]
      rfl
    · rw [hdelay, loadedJiffies_loaded, List.reverse_cons]
      exact congrArg (· ++ [s.jsPoolTime.lo]) (by simpa [PollWorkPc.pending] using hdelays)

theorem servesInterval_work {x : Input} {low : Bool} (hserves : ServesInterval (s, h))
    (hholds : HoldsInterval msecsToJiffies (s, h)) (hlife : s.Life)
    (hstep : s.workStep x low = some t) :
    ServesInterval (t, commit .work (s.commitLoad low) h) := by
  by_cases hbody : s.dwork.work.pc = some .body
  · exact servesInterval_body hserves hholds hlife hbody hstep
  have hdelays := hserves.delays
  unfold workStep at hstep
  split at hstep
  case h_1 hpc =>
    split_ifs at hstep
    cases hstep
    rw [hpc] at hdelays
    have hops := hserves.work _ hpc
    exact hserves.work_to (o := none) (by simp [commitLoad, hpc]) rfl rfl hops hdelays
  case h_2 hpc =>
    cases hstep
    rw [hpc] at hdelays
    have hops := hserves.work _ hpc
    exact hserves.work_to (o := none) (by simp [commitLoad, hpc]) rfl rfl hops hdelays
  case h_3 hpc =>
    cases hstep
    rw [hpc] at hdelays
    have hops := hserves.work _ hpc
    exact hserves.work_to (o := none) (by simp [commitLoad, hpc]) rfl rfl hops hdelays
  case h_4 hpc => exact absurd hpc hbody
  case h_5 first v hpc =>
    cases hstep
    exact servesInterval_load hserves hholds hlife hpc
  case h_6 delay hpc =>
    cases hstep
    rw [hpc] at hdelays
    have hmade := hserves.work _ hpc
    refine hserves.work_to (o := none) (by simp [commitLoad, hpc]) rfl rfl ⟨delay, hmade⟩ ?_
    simpa [PollWorkPc.pending] using hdelays
  case h_7 hpc =>
    cases hstep
    rw [hpc] at hdelays
    have hnone : s.commitLoad low = none := by simp [commitLoad, hpc]
    rw [hnone, commit_none]
    exact ⟨hserves.setter, by simp, hdelays⟩
  case h_8 => cases hstep

theorem servesInterval_worker (hserves : ServesInterval (s, h))
    (hstep : s.step msecsToJiffies .worker = some t) :
    ServesInterval (t, .call .work .poll :: h) ∧ t.phase = s.phase ∧ t.setters = s.setters ∧
      t.jsPoolTime = s.jsPoolTime := by
  obtain ⟨d, hd, rfl⟩ := Option.map_eq_some_iff.1 hstep
  obtain ⟨-, hpc, rfl⟩ := DelayedWork.start_eq_some.1 hd
  have hdelays := hserves.delays
  rw [hpc] at hdelays
  refine ⟨⟨fun i => ?_, ?_, hdelays⟩, rfl, rfl, rfl⟩
  · rw [callOf_call_of_ne (by simp), opsOf_call_of_ne (by simp)]
    exact hserves.setter i
  · rintro pc ⟨⟩
    exact opsOf_call_self

/-! ## Runs -/

/-- The invariant of the polling and its history. -/
structure IntervalInv (msecsToJiffies : UInt32 → ℕ) (w : PollTraced) : Prop where
  life : w.1.Life
  holds : HoldsInterval msecsToJiffies w
  serves : ServesInterval w
  legal : Legal (intervalRegister msecsToJiffies) w.2

theorem intervalInv_start : IntervalInv msecsToJiffies (start io, []) :=
  ⟨life_start, holdsInterval_start, servesInterval_start, trivial⟩

theorem PollSetter.commit_answer {pc : PollSetter} {low : Bool} {op : IntervalOp}
    {ans : IntervalAnswer} (ho : pc.commit low = some (op, ans)) (ms : UInt32) :
    ans = (intervalRegister msecsToJiffies).answer op ms := by
  have hstoring : ∀ {low ms'}, storing low ms' = some (op, ans) →
      ans = (intervalRegister msecsToJiffies).answer op ms := by
    intro low ms' ho
    unfold storing at ho
    split_ifs at ho
    cases ho
    rfl
  cases pc with
  | store | store2 => exact hstoring ho
  | idle | lock | unlock | ret => cases ho

/-- An operation has the answer of the register. -/
theorem legal_step {w w' : PollTraced} (hinv : IntervalInv msecsToJiffies w)
    (hstep : recorded msecsToJiffies w a = some w') :
    Legal (intervalRegister msecsToJiffies) w'.2 := by
  obtain ⟨-, hrecord⟩ := recording_eq_some hstep
  rw [hrecord]
  cases a with
  | setter i low => exact hinv.legal.commit fun op ans ho => PollSetter.commit_answer ho _
  | work x low =>
    refine hinv.legal.commit fun op ans ho => ?_
    rcases commitLoad_eq w.1 low with hnone | ⟨hload, hpc⟩
    · rw [hnone] at ho
      cases ho
    · obtain ⟨pc, hpc⟩ := Option.ne_none_iff_exists'.1 hpc
      rw [hload] at ho
      cases ho
      rw [hinv.holds.loaded hinv.life hpc]
      rfl
  | worker | callSet => exact hinv.legal
  | probe | remove | expire | drv => exact hinv.legal

section Range

variable (hrange : ∀ ms, minPullInterval ≤ ms → ms ≤ maxPullInterval → msecsToJiffies ms < 2 ^ 32)

include hrange

theorem intervalInv_step {w w' : PollTraced} (hinv : IntervalInv msecsToJiffies w)
    (hstep : recorded msecsToJiffies w a = some w') : IntervalInv msecsToJiffies w' := by
  have hlegal := legal_step hinv hstep
  obtain ⟨hmove, hrecord⟩ := recording_eq_some hstep
  obtain ⟨s, h⟩ := w
  obtain ⟨t, h'⟩ := w'
  obtain ⟨hlife, hholds, hserves, -⟩ := hinv
  have hlife' := life_step hlife (step_move hmove)
  obtain rfl : h' = record s a h := hrecord
  have haside : s.Aside t → record s a h = h → IntervalInv msecsToJiffies (t, record s a h) := by
    intro haside hsame
    rw [hsame] at hlegal ⊢
    exact ⟨hlife', hholds.aside haside, hserves.aside haside, hlegal⟩
  cases a with
  | probe =>
    rcases probeStep_aside hlife hmove with hother | ⟨hpc, rfl⟩
    · exact haside hother rfl
    · obtain ⟨hidle, hdefault⟩ := hholds.early (by rw [hpc]; trivial)
      refine ⟨hlife', ⟨fun _ => ⟨hidle, hdefault⟩, hholds.range, fun _ => ?_⟩,
        ⟨hserves.setter, hserves.work, hserves.delays⟩, hlegal⟩
      rw [show state (intervalRegister msecsToJiffies) (record s .probe h) = _ from hdefault]
      exact Halves.ofNat_of_lt (hrange _ pollRange_default.1 pollRange_default.2)
  | remove => exact haside (removeStep_aside hmove) rfl
  | expire =>
    obtain ⟨d, hd, rfl⟩ := Option.map_eq_some_iff.1 hmove
    obtain ⟨-, rfl⟩ := DelayedWork.expire_eq_some.1 hd
    exact haside (.of_phase rfl rfl rfl rfl rfl) rfl
  | worker =>
    obtain ⟨hserves', hphase, hsetters, htime⟩ := servesInterval_worker hserves hmove
    refine ⟨hlife', hholds.congr hphase (fun _ hidle i => ?_) htime rfl, hserves', hlegal⟩
    rw [hsetters]
    exact hidle i
  | work x low =>
    exact ⟨hlife', holdsInterval_work hholds hmove, servesInterval_work hserves hholds hlife hmove,
      hlegal⟩
  | callSet i ms =>
    exact ⟨hlife', holdsInterval_callSet hholds hmove, servesInterval_callSet hserves hmove, hlegal⟩
  | setter i low =>
    exact ⟨hlife', holdsInterval_setter hrange hholds hserves hmove,
      servesInterval_setter hserves hmove, hlegal⟩
  | drv y => exact haside (drvStep_aside hmove) rfl

end Range

/-- The history `h` explains what the run `as` has come to. -/
structure IntervalExplained (msecsToJiffies : UInt32 → ℕ) (io : PlatIo) (as : List PollAct)
    (s : Polling) (h : PollHistory) : Prop where
  run : exec (recorded msecsToJiffies) (start io, []) as = some (s, h)
  /-- Every load returns the last interval stored, or the default. -/
  legal : Legal (intervalRegister msecsToJiffies) h
  time : ¬s.phase.Early ∨ s.phase = .queue →
    s.jsPoolTime = .ofNat (msecsToJiffies (state (intervalRegister msecsToJiffies) h))
  set : ∀ i r, s.setters i = .ret r → ∃ ms, callOf (.setter i) h = some (.set ms) ∧
    SetOutcome ms (opsOf (.setter i) h) r
  /-- A run of the work makes one load before it is queued again, with what that returned. -/
  queue : ∀ delay, s.dwork.work.pc = some (.queue delay) →
    opsOf .work h = [(.load, .jiffies delay)]
  delays : s.dwork.work.pc = none → s.delays = (loadedJiffies h).reverse

/-- Under any schedule the interval is one register : some history explains every run. -/
theorem interval_history
    (hrange : ∀ ms, minPullInterval ≤ ms → ms ≤ maxPullInterval → msecsToJiffies ms < 2 ^ 32)
    (io : PlatIo) (as : List PollAct) (s : Polling)
    (hrun : exec (step msecsToJiffies) (start io) as = some s) :
    ∃ h, IntervalExplained msecsToJiffies io as s h := by
  obtain ⟨⟨s, h⟩, hw, rfl⟩ := Option.map_eq_some_iff.1
    ((exec_recording (step msecsToJiffies) record (start io, []) as).trans hrun)
  obtain ⟨-, hholds, hserves, hlegal⟩ : IntervalInv msecsToJiffies (s, h) :=
    exec_invariant_of_step (fun _ _ _ => intervalInv_step hrange) intervalInv_start hw
  refine ⟨h, hw, hlegal, fun hp => ?_, fun i r hret => ?_, fun delay hpc => ?_, fun hpc => ?_⟩
  · rw [Halves.ofNat_of_lt (hrange _ hholds.range.1 hholds.range.2)]
    exact hholds.time hp
  · have hret : s.setters i = .ret r := hret
    have hserved := hserves.setter i
    simp only [hret, reduceCtorEq, false_or] at hserved
    exact hserved
  · exact hserves.work _ hpc
  · have hdelays := hserves.delays
    rw [hpc] at hdelays
    exact (List.append_nil _).symm.trans hdelays

theorem msecsToJiffies100_lt (ms : UInt32) : msecsToJiffies100 ms < 2 ^ 32 := by
  have hlt := ms.toNat_lt
  simp only [msecsToJiffies100]
  omega

/-- The interval is set between two runs of the work, and its call returns before the second. -/
theorem pollRun_history :
    ∃ s, exec (step msecsToJiffies100) (start Driver.zeroIo) pollRun = some s ∧
      s.delays = [50, 2] ∧
      ∃ h, IntervalExplained msecsToJiffies100 Driver.zeroIo pollRun s h := by
  have hend : (exec (step msecsToJiffies100) (start Driver.zeroIo) pollRun).map
      (fun s => s.delays) = some [50, 2] := by decide +kernel
  obtain ⟨s, hs, hdelays⟩ := Option.map_eq_some_iff.1 hend
  exact ⟨s, hs, hdelays, interval_history (fun ms _ _ => msecsToJiffies100_lt ms) _ _ s hs⟩

end Polling

end ProCamp
