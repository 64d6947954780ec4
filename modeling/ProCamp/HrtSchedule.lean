import ProCamp.Hrt
import ProCamp.TimerSchedule

/-!
# When the high-resolution timer expires

The hrtimer of `HW6/deffered/hrt.c` on a clock, as the timers of `TimerSchedule`.
`my_hrtimer_callback` forwards it with `hrtimer_forward_now`, past every slot that is over by
then, and the timer is queued again as the callback returns. The tasklets and works it leads to
run at any time in between and do not touch it.

`hrt_skips` : the callback runs 6 times, each in a slot of its own, and slots that are over
before a call has ended are left out rather than made up for. Where no call is so late or long,
none is left out.
-/

namespace ProCamp.Hrt

open Machine

/-- What a step asks of the hrtimer : line 66 and the return after it, line 74, line 102, and
that the callback starts. `delay` is `delay_in_ms`. -/
def ask (delay : ℕ) (s : Hrt) (alarm : Alarm) : HrtAct → List Alarm.Act
  | .expires => [.fire]
  | .callback =>
    match s.hrTimer.pc with
    | some .countdown => if s.restart ≠ 0 then [.set (alarm.forward delay), .finish] else []
    | some .hiPrior => [.finish]
    | _ => []
  | .exit => if s.exit = .cancel then [.cancel] else []
  | _ => []

/-- One step on the clock. -/
def clockStep (delay : ℕ) : Hrt × Alarm → Option HrtAct → Option (Hrt × Alarm) :=
  Alarm.clocked step (ask delay)

/-- After `hrt_init`. -/
def clockInit (delay now : ℕ) : Hrt × Alarm :=
  (init, .init now (now + delay))

/-- The callback has not forwarded the timer. -/
def early : HrtimerPc → Bool :=
  fun _ => true

/-- The countdown and the timer; `hrt_exit` has not cancelled it as long as it is `loaded`. -/
structure Timing where
  restart : Int32
  hrTimer : Deferred HrtimerPc
  loaded : Bool

/-- The timing of the module. -/
def timing (s : Hrt) : Timing :=
  ⟨s.restart, s.hrTimer, decide (s.exit = .loaded)⟩

/-- What a step does to them. -/
inductive TimingMove (delay : ℕ) (c : Timing) (s : Alarm) :
    Option HrtAct → Timing → Alarm → Prop
  | tick {t : Alarm} (halarm : s.step .tick = some t) : TimingMove delay c s none c t
  | other (a : HrtAct) : TimingMove delay c s (some a) c s
  | expires {t : Alarm} (halarm : s.step .fire = some t) :
      TimingMove delay c s (some .expires) { c with hrTimer := ⟨false, some .countdown⟩ } t
  | forward {t u : Alarm} (hpc : c.hrTimer.pc = some .countdown) (hrestart : c.restart ≠ 0)
      (hset : s.step (.set (s.forward delay)) = some t) (halarm : t.step .finish = some u) :
      TimingMove delay c s (some .callback)
        { c with restart := c.restart - 1, hrTimer := c.hrTimer.finish.arm } u
  | last (hpc : c.hrTimer.pc = some .countdown) (hrestart : c.restart = 0) :
      TimingMove delay c s (some .callback)
        { c with restart := c.restart - 1, hrTimer := c.hrTimer.goto .regular } s
  | regular (hpc : c.hrTimer.pc = some .regular) :
      TimingMove delay c s (some .callback) { c with hrTimer := c.hrTimer.goto .hiPrior } s
  | hiPrior {t : Alarm} (hpc : c.hrTimer.pc = some .hiPrior)
      (halarm : s.step .finish = some t) :
      TimingMove delay c s (some .callback) { c with hrTimer := c.hrTimer.finish } t
  | unload : TimingMove delay c s (some .exit) { c with loaded := false } s
  | cancel {t : Alarm} (hidle : c.hrTimer.pc = none) (halarm : s.step .cancel = some t) :
      TimingMove delay c s (some .exit)
        { c with hrTimer := c.hrTimer.disarm, loaded := false } t

variable {delay now : ℕ} {w v : Hrt × Alarm} {x : Option HrtAct} {as : List (Option HrtAct)}
  {c d : Timing} {s t : Alarm}

theorem clockStep_move (h : clockStep delay w x = some v) :
    TimingMove delay w.1.timing w.2 x v.1.timing v.2 := by
  obtain ⟨u, alarm⟩ := v
  cases x with
  | none =>
    obtain ⟨hsame, halarm⟩ := Alarm.clocked_none h
    exact hsame ▸ .tick halarm
  | some a =>
    obtain ⟨hstep, hask⟩ := Alarm.clocked_some.1 h
    cases a with
    | expires =>
      obtain ⟨d, hd, rfl⟩ := Option.map_eq_some_iff.1 hstep
      obtain ⟨-, -, rfl⟩ := Deferred.start_eq_some.1 hd
      have halarm : w.2.step .fire = some alarm := by simpa [ask, exec_singleton] using hask
      exact .expires halarm
    | callback =>
      simp only [step, callbackStep] at hstep
      split at hstep
      case h_1 hpc =>
        cases hstep
        by_cases hrestart : w.1.restart = 0
        · obtain rfl : w.2 = alarm := by simpa [ask, hpc, hrestart] using hask
          have hmove : TimingMove delay w.1.timing w.2 _ _ _ := .last hpc hrestart
          simpa [timing, hrestart] using hmove
        · have hacts : exec Alarm.step w.2 [.set (w.2.forward delay), .finish] = some alarm := by
            simpa [ask, hpc, hrestart] using hask
          obtain ⟨t, ht, hrest⟩ := exec_cons_eq_some.1 hacts
          rw [exec_singleton] at hrest
          simpa [timing, hrestart] using
            TimingMove.forward (c := w.1.timing) hpc hrestart ht hrest
      case h_2 hpc =>
        cases hstep
        obtain rfl : w.2 = alarm := by simpa [ask, hpc] using hask
        exact .regular hpc
      case h_3 hpc =>
        cases hstep
        have halarm : w.2.step .finish = some alarm := by
          simpa [ask, hpc, exec_singleton] using hask
        exact .hiPrior hpc halarm
      case h_4 => cases hstep
    | exit =>
      simp only [step, exitStep] at hstep
      by_cases hcancel : w.1.exit = .cancel
      · simp only [hcancel] at hstep
        obtain ⟨d, hd, rfl⟩ := Option.map_eq_some_iff.1 hstep
        obtain ⟨hidle, rfl⟩ := Deferred.cancel_eq_some.1 hd
        have halarm : w.2.step .cancel = some alarm := by
          simpa [ask, hcancel, exec_singleton] using hask
        have hdisarm : Deferred.idle = w.1.hrTimer.disarm := Deferred.ext rfl hidle.symm
        simpa [timing, hdisarm] using TimingMove.cancel (c := w.1.timing) hidle halarm
      · obtain rfl : w.2 = alarm := by simpa [ask, hcancel] using hask
        suffices htiming : u.timing = { w.1.timing with loaded := false } from
          htiming ▸ .unload
        split at hstep
        case h_1 => cases hstep; rfl
        case h_2 hpc => exact absurd hpc hcancel
        case h_3 => cases hstep; rfl
        case h_4 | h_5 | h_6 =>
          obtain ⟨-, heq⟩ := Option.ite_none_right_eq_some.1 hstep
          cases heq
          rfl
        case h_7 => cases hstep
    | softirq k =>
      obtain rfl : w.2 = alarm := by simpa [ask] using hask
      obtain ⟨d, -, rfl⟩ := Option.map_eq_some_iff.1 hstep
      exact .other _
    | tasklet k =>
      obtain rfl : w.2 = alarm := by simpa [ask] using hask
      cases step_move hstep with
      | work | delayed => exact .other _
    | elapse k =>
      obtain rfl : w.2 = alarm := by simpa [ask] using hask
      obtain ⟨d, -, rfl⟩ := Option.map_eq_some_iff.1 hstep
      exact .other _
    | worker k =>
      obtain rfl : w.2 = alarm := by simpa [ask] using hask
      obtain ⟨d, -, rfl⟩ := Option.map_eq_some_iff.1 hstep
      exact .other _
    | handled k =>
      obtain rfl : w.2 = alarm := by simpa [ask] using hask
      cases step_move hstep
      exact .other _

/-- The countdown and the calls. -/
structure Counted (c : Timing) (s : Alarm) : Prop where
  le : s.calls.length ≤ 6
  left : c.hrTimer.armed = true →
    s.calls.length ≤ 5 ∧ c.restart = Int32.ofNat (5 - s.calls.length)
  countdown : c.hrTimer.pc = some .countdown → c.hrTimer.armed = false ∧
    c.restart = Int32.ofNat (6 - s.calls.length)
  spent : c.loaded = true → c.hrTimer.armed = false → c.hrTimer.pc ≠ some .countdown →
    s.calls.length = 6

theorem counted_init (now expires : ℕ) : Counted init.timing (.init now expires) where
  le := Nat.zero_le 6
  left _ := ⟨Nat.zero_le 5, rfl⟩
  countdown hpc := by cases hpc
  spent _ harmed := by cases harmed

theorem tracks_step (h : s.Tracks early c.hrTimer) (hmove : TimingMove delay c s x d t) :
    t.Tracks early d.hrTimer := by
  cases hmove with
  | tick halarm => exact h.tick halarm
  | other | unload => exact h
  | expires halarm => exact .fire halarm _
  | forward hpc hrestart hset halarm => exact .again hset halarm
  | last hpc | regular hpc => exact h.goto hpc fun _ => rfl
  | hiPrior hpc halarm => exact h.finish halarm
  | cancel hidle halarm => exact h.cancel halarm

theorem Counted.step (h : Counted c s) (htracks : s.Tracks early c.hrTimer)
    (hmove : TimingMove delay c s x d t) : Counted d t := by
  cases hmove with
  | tick halarm =>
    cases halarm
    exact ⟨h.le, h.left, h.countdown, h.spent⟩
  | other => exact h
  | expires halarm =>
    obtain ⟨⟨hpending, -, -⟩, rfl⟩ := Alarm.step_fire_eq_some.1 halarm
    obtain ⟨hle, hrestart⟩ := h.left (htracks.pending.trans hpending)
    refine ⟨?_, (fun harmed => by cases harmed), fun _ => ⟨rfl, ?_⟩, fun _ _ hpc => ?_⟩
    · simp only [List.length_append, List.length_singleton]
      omega
    · simpa using hrestart
    · exact absurd rfl hpc
  | forward hpc hrestart hset halarm =>
    obtain ⟨began, -, rfl⟩ := Alarm.step_set_eq_some.1 hset
    obtain ⟨-, rfl⟩ := Alarm.step_finish_eq_some.1 halarm
    obtain ⟨-, hcount⟩ := h.countdown hpc
    have hlt : s.calls.length < 6 := by
      refine lt_of_le_of_ne h.le fun heq => hrestart ?_
      rw [hcount, heq]
      rfl
    obtain ⟨-, hnext⟩ := TimerVars.countdown_next _ hlt
    exact ⟨h.le, fun _ => ⟨Nat.le_of_lt_succ hlt, (congrArg (· - 1) hcount).trans hnext⟩,
      (fun hp => by cases hp), fun _ harmed => by cases harmed⟩
  | last hpc hrestart =>
    obtain ⟨harmed, hcount⟩ := h.countdown hpc
    have heq : s.calls.length = 6 := by
      refine h.le.antisymm (Nat.not_lt.1 fun hlt => (TimerVars.countdown_next _ hlt).1 ?_)
      rw [← hcount, hrestart]
    refine ⟨h.le, fun harmed' => ?_, (fun hp => by cases hp), fun _ _ _ => heq⟩
    rw [Deferred.goto_armed, harmed] at harmed'
    cases harmed'
  | regular hpc =>
    refine ⟨h.le, h.left, (fun hp => by cases hp), fun hloaded harmed _ => ?_⟩
    exact h.spent hloaded harmed (by simp [hpc])
  | hiPrior hpc halarm =>
    obtain ⟨-, rfl⟩ := Alarm.step_finish_eq_some.1 halarm
    refine ⟨h.le, h.left, (fun hp => by cases hp), fun hloaded harmed _ => ?_⟩
    exact h.spent hloaded harmed (by simp [hpc])
  | unload => exact ⟨h.le, h.left, h.countdown, fun hloaded => by cases hloaded⟩
  | cancel hidle halarm =>
    cases halarm
    refine ⟨h.le, (fun harmed => by cases harmed), fun hp => ?_, fun hloaded => by cases hloaded⟩
    rw [Deferred.disarm, hidle] at hp
    cases hp

/-- What a step asks of the timer, act by act. -/
theorem forwarded_step (hmove : TimingMove delay c s x d t) :
    ∃ acts, exec Alarm.step s acts = some t ∧ EveryStep Alarm.step (Alarm.Forwarded delay) s acts ∧
      (.tick ∈ acts → acts = [.tick] ∧ x = none) := by
  have hquiet (a : Alarm.Act) (u : Alarm) (ha : ∀ expires, a ≠ .set expires)
      (hstep : s.step a = some u) : exec Alarm.step s [a] = some u ∧
        EveryStep Alarm.step (Alarm.Forwarded delay) s [a] := by
    refine ⟨(exec_singleton s a).trans hstep, (everyStep_cons_of_step hstep).2 ⟨?_, trivial⟩⟩
    exact fun expires heq => absurd heq (ha expires)
  cases hmove with
  | tick halarm =>
    obtain ⟨hexec, hevery⟩ := hquiet _ _ (by simp) halarm
    exact ⟨_, hexec, hevery, fun _ => ⟨rfl, rfl⟩⟩
  | other | last | regular | unload => exact ⟨[], rfl, trivial, by simp⟩
  | expires halarm | hiPrior hpc halarm | cancel hidle halarm =>
    obtain ⟨hexec, hevery⟩ := hquiet _ _ (by simp) halarm
    exact ⟨_, hexec, hevery, by simp⟩
  | forward hpc hrestart hset halarm =>
    refine ⟨[.set (s.forward delay), .finish], ?_, ?_, by simp⟩
    · exact exec_cons_eq_some.2 ⟨_, hset, (exec_singleton _ _).trans halarm⟩
    · refine (everyStep_cons_of_step hset).2 ⟨fun expires heq => ?_, ?_⟩
      · cases heq
        rfl
      · refine (everyStep_cons_of_step halarm).2 ⟨fun expires heq => ?_, trivial⟩
        cases heq

/-- The clock ticks in time, whatever is asked of the timer. -/
theorem prompt_acts {L D : ℕ} {acts : List Alarm.Act} (hawake : x = none → s.Awake L D)
    (htick : .tick ∈ acts → acts = [.tick] ∧ x = none) :
    EveryStep Alarm.step (Alarm.Prompt L D) s acts := by
  by_cases hmem : .tick ∈ acts
  · obtain ⟨rfl, hnone⟩ := htick hmem
    exact fun t _ => ⟨fun _ => hawake hnone, trivial⟩
  · have hother : ∀ a ∈ acts, a ≠ .tick := fun a ha heq => hmem (heq ▸ ha)
    exact (everyStep_of_forall s hother).mono fun s a t hne heq => absurd heq hne

/-- In every run, however the callback, the clock, `hrt_exit`, the tasklets and the works
interleave : at most 6 calls are made, and 6 where the module stays loaded and its timer is
done. They are in slots of their own, the `k`-th not before `k + 1` times the delay. Where no
call is more than `L` late and `L` with the time it takes is less than the delay, it is in
that slot, and never more than `L` after its start. -/
theorem hrt_skips (hdelay : 0 < delay) (hrun : exec (clockStep delay) (clockInit delay now) as =
    some w) :
    w.2.calls.length ≤ 6 ∧
      (w.1.exit = .loaded → w.1.hrTimer.Idle → w.2.calls.length = 6) ∧
      (w.2.calls.IsChain fun i j => (i - (now + delay)) / delay < (j - (now + delay)) / delay) ∧
      (∀ k j, w.2.calls[k]? = some j → now + (k + 1) * delay ≤ j) ∧
      ∀ L D, L + D < delay →
        EveryStep (clockStep delay) (Alarm.Punctual L D) (clockInit delay now) as →
        ∀ k j, w.2.calls[k]? = some j → j ≤ now + (k + 1) * delay + L := by
  have hslot (k : ℕ) : now + (k + 1) * delay = now + delay + k * delay := by ring
  obtain ⟨-, hcounted, hskips⟩ := exec_invariant_of_step
    (I := fun w : Hrt × Alarm => w.2.Tracks early w.1.timing.hrTimer ∧
      Counted w.1.timing w.2 ∧ Alarm.Skips (now + delay) delay w.2)
    (fun u x v ⟨hc, hn, hs⟩ hstep => by
      have hmove := clockStep_move hstep
      obtain ⟨acts, hexec, hforward, -⟩ := forwarded_step hmove
      refine ⟨tracks_step hc hmove, hn.step hc hmove, ?_⟩
      exact exec_invariant (fun s a t h hfor hstep => h.step hdelay hfor hstep) hs hforward hexec)
    ⟨Alarm.tracks_init .., counted_init .., Alarm.skips_init now⟩ hrun
  refine ⟨hcounted.le, fun hexit hidle => hcounted.spent (decide_eq_true hexit) hidle.1
    (by simp [timing, hidle.2]), hskips.slots, fun k j hk => (hslot k) ▸ hskips.early k j hk,
    fun L D hperiod hpunctual k j hk => ?_⟩
  obtain ⟨-, htime⟩ := exec_invariant
    (I := fun w : Hrt × Alarm => Alarm.Skips (now + delay) delay w.2 ∧
      Alarm.OnTime (now + delay) delay L D w.2)
    (fun u x v hu hawake hstep => by
      obtain ⟨acts, hexec, hforward, htick⟩ := forwarded_step (clockStep_move hstep)
      refine exec_invariant (I := fun s => Alarm.Skips (now + delay) delay s ∧
        Alarm.OnTime (now + delay) delay L D s) (fun s a t ⟨hs, ht⟩ ⟨hfor, hprompt⟩ hstep => ?_) hu
        (hforward.and (prompt_acts hawake htick)) hexec
      exact ⟨hs.step hdelay hfor hstep,
        ht.step hperiod.le (hs.absolute hperiod ht hfor hstep) hprompt hstep⟩)
    ⟨Alarm.skips_init now, Alarm.onTime_init (Nat.le_add_right ..)⟩ hpunctual hrun
  exact (hslot k) ▸ htime.late k j hk

/-- The first slot is left out : the first call comes in the second, and the next in the third. -/
theorem late_and_skipped :
    ∃ w, exec (clockStep 2) (clockInit 2 7)
        [none, none, none, none, none, some .expires, some .callback, none, some .expires] =
          some w ∧
      w.2.calls = [12, 13] ∧ w.2.calls.length ≤ 6 ∧
      w.2.calls.IsChain (fun i j => (i - 9) / 2 < (j - 9) / 2) := by
  obtain ⟨w, hrun, hcalls⟩ := Option.map_eq_some_iff.1 (by decide +kernel :
    (exec (clockStep 2) (clockInit 2 7)
      [none, none, none, none, none, some .expires, some .callback, none, some .expires]).map
      (fun w => w.2.calls) = some [12, 13])
  obtain ⟨hle, -, hslots, -⟩ := hrt_skips (by omega : 0 < 2) hrun
  exact ⟨w, hrun, hcalls, hle, hslots⟩

end ProCamp.Hrt
