import Mathlib.Data.List.Chain
import Mathlib.Tactic.Ring
import Mathlib.Tactic.SplitIfs
import ProCamp.Deferred

/-!
# Timers that set themselves again

One timer on a clock that ticks. It fires at or after the time it is set to, and the call it
makes may set it again. `calls` is history : when each call was started.

Three ways to keep a period. A call that sets the timer to its last time plus the period stays
on schedule : however late one call is, the next is due where it always was (`OnSchedule`,
`OnTime`). A call that sets it to the current time plus the period passes its lateness on to
all later ones (`Spaced`, `Prompted`). A call that sets it to the next time on schedule that is
not over yet leaves out those it has missed (`Skips`).

`Prompt L D` is what the upper bounds ask for : no call starts more than `L` ticks after it is
due, and none runs for more than `D`. `clocked` puts a machine on the clock of its timer, and
`Tracks` says that the timer is the one of its deferred function.
-/

/-- A timer, its clock and its calls. -/
structure Alarm where
  now : ℕ
  /-- The time it was set to last. -/
  expires : ℕ
  pending : Bool
  /-- When the call that runs was started, and whether it has set the timer again. -/
  running : Option (ℕ × Bool)
  calls : List ℕ
  deriving DecidableEq

namespace Alarm

open Machine

/-- What can happen to a timer, or to time. -/
inductive Act where
  /-- The clock ticks. -/
  | tick
  /-- The timer fires. -/
  | fire
  /-- The call sets it again. -/
  | set (expires : ℕ)
  /-- The call ends. -/
  | finish
  /-- The timer is taken off its queue. -/
  | cancel
  deriving DecidableEq

/-- Set for the first time. -/
def init (now expires : ℕ) : Alarm :=
  ⟨now, expires, true, none, []⟩

/-- One step. -/
def step (s : Alarm) : Act → Option Alarm
  | .tick => some { s with now := s.now + 1 }
  | .fire =>
    if s.pending = true ∧ s.running = none ∧ s.expires ≤ s.now then
      some { s with
        pending := false
        running := some (s.now, false)
        calls := s.calls ++ [s.now] }
    else none
  | .set expires =>
    match s.running with
    | some (began, false) =>
      some { s with expires, pending := true, running := some (began, true) }
    | _ => none
  | .finish => if s.running = none then none else some { s with running := none }
  | .cancel => some { s with pending := false }

/-- A call that sets the timer sets it to its last time and the period `d`. -/
def Absolute (d : ℕ) (s : Alarm) (a : Act) (_ : Alarm) : Prop :=
  ∀ expires, a = .set expires → expires = s.expires + d

/-- It sets it to the current time and the period `p`. -/
def Relative (p : ℕ) (s : Alarm) (a : Act) (_ : Alarm) : Prop :=
  ∀ expires, a = .set expires → expires = s.now + p

/-- The first time after now on the schedule of the timer, with the period `d`. -/
def forward (d : ℕ) (s : Alarm) : ℕ :=
  if s.now < s.expires then s.expires else s.expires + ((s.now - s.expires) / d + 1) * d

/-- It sets it to that. -/
def Forwarded (d : ℕ) (s : Alarm) (a : Act) (_ : Alarm) : Prop :=
  ∀ expires, a = .set expires → expires = s.forward d

/-- The clock does not tick while a call is overdue by `L`, or has run for `D`. -/
structure Awake (L D : ℕ) (s : Alarm) : Prop where
  due : s.pending = true → s.running = none → s.now < s.expires + L
  brief : ∀ began again, s.running = some (began, again) → s.now < began + D

instance (L D : ℕ) (s : Alarm) : Decidable (Awake L D s) :=
  decidable_of_iff
    ((s.pending = true → s.running = none → s.now < s.expires + L) ∧
      ∀ call ∈ s.running, s.now < call.1 + D)
    ⟨fun h => ⟨h.1, fun began again hr => h.2 (began, again) hr⟩,
      fun h => ⟨h.due, fun call hr => h.brief call.1 call.2 hr⟩⟩

/-- Calls start and end in time. -/
def Prompt (L D : ℕ) (s : Alarm) (a : Act) (_ : Alarm) : Prop :=
  a = .tick → Awake L D s

variable {s t : Alarm} {a : Act} {e d p L D : ℕ}

theorem step_fire_eq_some : s.step .fire = some t ↔
    (s.pending = true ∧ s.running = none ∧ s.expires ≤ s.now) ∧
      t = { s with
        pending := false
        running := some (s.now, false)
        calls := s.calls ++ [s.now] } := by
  simp only [step, Option.ite_none_right_eq_some, Option.some.injEq]
  rw [eq_comm (b := t)]

theorem step_set_eq_some {expires : ℕ} : s.step (.set expires) = some t ↔
    ∃ began, s.running = some (began, false) ∧
      t = { s with expires, pending := true, running := some (began, true) } := by
  simp only [step]
  split
  case h_1 began hrunning => simp [hrunning, eq_comm]
  case h_2 hother =>
    constructor
    · intro h
      cases h
    · rintro ⟨began, hrunning, -⟩
      exact absurd hrunning (hother began)

theorem step_finish_eq_some : s.step .finish = some t ↔
    s.running ≠ none ∧ t = { s with running := none } := by
  simp only [step, Option.ite_none_left_eq_some, Option.some.injEq, ne_eq]
  rw [eq_comm (b := t)]

/-- The entries of a list and of one more. -/
theorem getElem?_snoc {calls : List ℕ} {now k j : ℕ} (h : (calls ++ [now])[k]? = some j) :
    calls[k]? = some j ∨ k = calls.length ∧ j = now := by
  rcases Nat.lt_or_ge k calls.length with hk | hk
  · exact Or.inl (by rwa [List.getElem?_append_left hk] at h)
  · rw [List.getElem?_append_right hk, List.getElem?_singleton] at h
    split_ifs at h with hzero
    exact Or.inr ⟨by omega, (Option.some.inj h).symm⟩

/-! ## On schedule -/

/-- The timer is set to the slots `e`, `e + d`, `e + 2 * d` and so on, and no call is early. -/
structure OnSchedule (e d : ℕ) (s : Alarm) : Prop where
  early : ∀ k j, s.calls[k]? = some j → e + k * d ≤ j
  due : s.pending = true ∨ (∃ began, s.running = some (began, true)) →
    s.expires = e + s.calls.length * d
  running : ∀ began, s.running = some (began, false) →
    ∃ n, s.calls.length = n + 1 ∧ s.expires = e + n * d

theorem onSchedule_init (now : ℕ) : OnSchedule e d (init now e) where
  early _ _ h := by simp [init] at h
  due _ := by simp [init]
  running _ h := by cases h

theorem OnSchedule.step (h : OnSchedule e d s) (habs : Absolute d s a t)
    (hstep : s.step a = some t) : OnSchedule e d t := by
  cases a with
  | tick =>
    cases hstep
    exact ⟨h.early, h.due, h.running⟩
  | fire =>
    obtain ⟨⟨hpending, -, hdue⟩, rfl⟩ := step_fire_eq_some.1 hstep
    have hslot := h.due (Or.inl hpending)
    refine ⟨fun k j hk => ?_, ?_, ?_⟩
    · rcases getElem?_snoc hk with hk | ⟨rfl, rfl⟩
      · exact h.early k j hk
      · exact hslot ▸ hdue
    · rintro (hp | ⟨began, hb⟩)
      · cases hp
      · cases hb
    · exact fun began _ => ⟨s.calls.length, by simp, hslot⟩
  | set expires =>
    obtain ⟨began, hrunning, rfl⟩ := step_set_eq_some.1 hstep
    obtain ⟨n, hlength, hslot⟩ := h.running began hrunning
    refine ⟨h.early, fun _ => ?_, ?_⟩
    · have hnext : expires = s.expires + d := habs expires rfl
      show expires = e + s.calls.length * d
      rw [hnext, hslot, hlength]
      ring
    · intro began' hb
      cases hb
  | finish =>
    obtain ⟨hrunning, rfl⟩ := step_finish_eq_some.1 hstep
    refine ⟨h.early, ?_, ?_⟩
    · rintro (hp | ⟨began, hb⟩)
      · exact h.due (Or.inl hp)
      · cases hb
    · intro began hb
      cases hb
  | cancel =>
    cases hstep
    refine ⟨h.early, ?_, h.running⟩
    rintro (hp | hb)
    · cases hp
    · exact h.due (Or.inr hb)

/-- No call is late by more than `L`. -/
structure OnTime (e d L D : ℕ) (s : Alarm) : Prop where
  schedule : OnSchedule e d s
  late : ∀ k j, s.calls[k]? = some j → j ≤ e + k * d + L
  waiting : s.pending = true → s.running = none → s.now ≤ s.expires + L
  running : ∀ began again, s.running = some (began, again) →
    s.now ≤ began + D ∧ ∃ n, s.calls.length = n + 1 ∧ began ≤ e + n * d + L

theorem onTime_init {now : ℕ} (hnow : now ≤ e) : OnTime e d L D (init now e) where
  schedule := onSchedule_init now
  late _ _ h := by simp [init] at h
  waiting _ _ := by
    show now ≤ e + L
    omega
  running _ _ h := by cases h

/-- A call that is over before the next slot has not delayed it. -/
theorem OnTime.step (hperiod : L + D ≤ d) (h : OnTime e d L D s) (habs : Absolute d s a t)
    (hprompt : Prompt L D s a t) (hstep : s.step a = some t) : OnTime e d L D t := by
  have hschedule := h.schedule.step habs hstep
  cases a with
  | tick =>
    obtain ⟨hdue, hbrief⟩ := hprompt rfl
    cases hstep
    refine ⟨hschedule, h.late, fun hp hr => hdue hp hr, fun began again hr => ?_⟩
    exact ⟨hbrief began again hr, (h.running began again hr).2⟩
  | fire =>
    obtain ⟨⟨hpending, hidle, -⟩, rfl⟩ := step_fire_eq_some.1 hstep
    have hslot := h.schedule.due (Or.inl hpending)
    have hnow : s.now ≤ e + s.calls.length * d + L := hslot ▸ h.waiting hpending hidle
    refine ⟨hschedule, fun k j hk => ?_, (fun hp => by cases hp), fun began again hr => ?_⟩
    · rcases getElem?_snoc hk with hk | ⟨rfl, rfl⟩
      · exact h.late k j hk
      · exact hnow
    · obtain ⟨rfl, -⟩ : s.now = began ∧ false = again := by simpa using hr
      exact ⟨Nat.le_add_right .., s.calls.length, by simp, hnow⟩
  | set expires =>
    obtain ⟨began, hrunning, rfl⟩ := step_set_eq_some.1 hstep
    refine ⟨hschedule, h.late, (fun _ hr => by cases hr), fun began' again hr => ?_⟩
    obtain ⟨rfl, -⟩ : began = began' ∧ true = again := by simpa using hr
    exact h.running began false hrunning
  | finish =>
    obtain ⟨hrunning, rfl⟩ := step_finish_eq_some.1 hstep
    refine ⟨hschedule, h.late, fun hp _ => ?_, fun began again hr => by cases hr⟩
    obtain ⟨⟨began, again⟩, hr⟩ := Option.ne_none_iff_exists'.1 hrunning
    obtain ⟨hbrief, n, hlength, hbegan⟩ := h.running began again hr
    have hslot := h.schedule.due (Or.inl hp)
    have hnext : (n + 1) * d = n * d + d := by ring
    rw [hlength, hnext] at hslot
    show s.now ≤ s.expires + L
    omega
  | cancel =>
    cases hstep
    exact ⟨hschedule, h.late, (fun hp => by cases hp), h.running⟩

/-! ## Passing lateness on -/

/-- Calls are at least `p` apart, and the timer is set to no less. -/
structure Spaced (p : ℕ) (s : Alarm) : Prop where
  gaps : s.calls.IsChain fun i j => i + p ≤ j
  due : s.pending = true ∨ (∃ began, s.running = some (began, true)) →
    ∀ i ∈ s.calls.getLast?, i + p ≤ s.expires
  running : ∀ began again, s.running = some (began, again) →
    s.calls.getLast? = some began ∧ began ≤ s.now

theorem spaced_init (now : ℕ) : Spaced p (init now e) where
  gaps := .nil
  due _ _ h := by simp [init] at h
  running _ _ h := by cases h

theorem isChain_snoc {R : ℕ → ℕ → Prop} {calls : List ℕ} {now : ℕ} (h : calls.IsChain R)
    (hlast : ∀ i ∈ calls.getLast?, R i now) : (calls ++ [now]).IsChain R := by
  refine h.append (.singleton now) fun i hi j hj => ?_
  obtain rfl : now = j := by simpa using hj
  exact hlast i hi

theorem Spaced.step (h : Spaced p s) (hrel : Relative p s a t) (hstep : s.step a = some t) :
    Spaced p t := by
  cases a with
  | tick =>
    cases hstep
    refine ⟨h.gaps, h.due, fun began again hr => ?_⟩
    obtain ⟨hlast, hle⟩ := h.running began again hr
    exact ⟨hlast, Nat.le_succ_of_le hle⟩
  | fire =>
    obtain ⟨⟨hpending, -, hdue⟩, rfl⟩ := step_fire_eq_some.1 hstep
    refine ⟨isChain_snoc h.gaps fun i hi => (h.due (Or.inl hpending) i hi).trans hdue, ?_,
      fun began again hr => ?_⟩
    · rintro (hp | ⟨began, hb⟩)
      · cases hp
      · cases hb
    · obtain ⟨rfl, -⟩ : s.now = began ∧ false = again := by simpa using hr
      exact ⟨by simp, le_rfl⟩
  | set expires =>
    obtain ⟨began, hrunning, rfl⟩ := step_set_eq_some.1 hstep
    obtain ⟨hlast, hle⟩ := h.running began false hrunning
    refine ⟨h.gaps, fun _ i hi => ?_, fun began' again hr => ?_⟩
    · obtain rfl : began = i := by simpa [hlast] using hi
      rw [hrel expires rfl]
      exact Nat.add_le_add_right hle p
    · obtain ⟨rfl, -⟩ : began = began' ∧ true = again := by simpa using hr
      exact ⟨hlast, hle⟩
  | finish =>
    obtain ⟨-, rfl⟩ := step_finish_eq_some.1 hstep
    refine ⟨h.gaps, ?_, fun began again hr => by cases hr⟩
    rintro (hp | ⟨began, hb⟩)
    · exact h.due (Or.inl hp)
    · cases hb
  | cancel =>
    cases hstep
    refine ⟨h.gaps, ?_, h.running⟩
    rintro (hp | hb)
    · cases hp
    · exact h.due (Or.inr hb)

/-- And each is late by what its own latency and the call before it have taken. -/
structure Prompted (p L D : ℕ) (s : Alarm) : Prop where
  spaced : Spaced p s
  gaps : s.calls.IsChain fun i j => j ≤ i + p + (L + D)
  due : s.pending = true ∨ (∃ began, s.running = some (began, true)) →
    ∀ i ∈ s.calls.getLast?, s.expires ≤ i + p + D
  waiting : s.pending = true → s.running = none → s.now ≤ s.expires + L
  running : ∀ began again, s.running = some (began, again) → s.now ≤ began + D

theorem prompted_init {now : ℕ} (hnow : now ≤ e) : Prompted p L D (init now e) where
  spaced := spaced_init now
  gaps := .nil
  due _ _ h := by simp [init] at h
  waiting _ _ := by
    show now ≤ e + L
    omega
  running _ _ h := by cases h

theorem Prompted.step (hbrief : D ≤ p + L) (h : Prompted p L D s) (hrel : Relative p s a t)
    (hprompt : Prompt L D s a t) (hstep : s.step a = some t) : Prompted p L D t := by
  have hspaced := h.spaced.step hrel hstep
  cases a with
  | tick =>
    obtain ⟨hdue, hbusy⟩ := hprompt rfl
    cases hstep
    exact ⟨hspaced, h.gaps, h.due, fun hp hr => hdue hp hr, fun began again hr =>
      hbusy began again hr⟩
  | fire =>
    obtain ⟨⟨hpending, hidle, -⟩, rfl⟩ := step_fire_eq_some.1 hstep
    have hnow := h.waiting hpending hidle
    refine ⟨hspaced, isChain_snoc h.gaps fun i hi => ?_, ?_, (fun hp => by cases hp),
      fun began again hr => ?_⟩
    · have hdue := h.due (Or.inl hpending) i hi
      omega
    · rintro (hp | ⟨began, hb⟩)
      · cases hp
      · cases hb
    · obtain ⟨rfl, -⟩ : s.now = began ∧ false = again := by simpa using hr
      exact Nat.le_add_right ..
  | set expires =>
    obtain ⟨began, hrunning, rfl⟩ := step_set_eq_some.1 hstep
    obtain ⟨hlast, -⟩ := h.spaced.running began false hrunning
    have hbusy := h.running began false hrunning
    refine ⟨hspaced, h.gaps, fun _ i hi => ?_, (fun _ hr => by cases hr),
      fun began' again hr => ?_⟩
    · obtain rfl : began = i := by simpa [hlast] using hi
      have hset : expires = s.now + p := hrel expires rfl
      show expires ≤ began + p + D
      omega
    · obtain ⟨rfl, -⟩ : began = began' ∧ true = again := by simpa using hr
      exact hbusy
  | finish =>
    obtain ⟨hrunning, rfl⟩ := step_finish_eq_some.1 hstep
    refine ⟨hspaced, h.gaps, ?_, fun hp _ => ?_, fun began again hr => by cases hr⟩
    · rintro (hp | ⟨began, hb⟩)
      · exact h.due (Or.inl hp)
      · cases hb
    · obtain ⟨⟨began, again⟩, hr⟩ := Option.ne_none_iff_exists'.1 hrunning
      obtain ⟨hlast, -⟩ := h.spaced.running began again hr
      have hbusy := h.running began again hr
      have hnext := h.spaced.due (Or.inl hp) began (by simpa using hlast)
      show s.now ≤ s.expires + L
      omega
  | cancel =>
    cases hstep
    refine ⟨hspaced, h.gaps, ?_, (fun hp => by cases hp), h.running⟩
    rintro (hp | hb)
    · cases hp
    · exact h.due (Or.inr hb)

/-! ## Leaving out -/

/-- Calls are in slots of their own, and in none before theirs. -/
structure Skips (e d : ℕ) (s : Alarm) : Prop where
  grid : ∃ n, s.expires = e + n * d
  slots : s.calls.IsChain fun i j => (i - e) / d < (j - e) / d
  early : ∀ k j, s.calls[k]? = some j → e + k * d ≤ j
  due : s.pending = true ∨ (∃ began, s.running = some (began, true)) →
    e + s.calls.length * d ≤ s.expires ∧ ∀ i ∈ s.calls.getLast?, i < s.expires
  running : ∀ began again, s.running = some (began, again) →
    s.calls.getLast? = some began ∧ began ≤ s.now ∧ (again = false → s.expires ≤ began ∧
      ∃ n, s.calls.length = n + 1 ∧ e + n * d ≤ s.expires)

theorem skips_init (now : ℕ) : Skips e d (init now e) where
  grid := ⟨0, by simp [init]⟩
  slots := .nil
  early _ _ h := by simp [init] at h
  due _ := ⟨by simp [init], fun _ h => by simp [init] at h⟩
  running _ _ h := by cases h

/-- The next time on schedule is not over yet, and at least a period after the last. -/
theorem forward_bounds (hd : 0 < d) (hle : s.expires ≤ s.now) :
    s.now < s.forward d ∧ s.expires + d ≤ s.forward d ∧
      ∃ n, s.forward d = s.expires + n * d := by
  rw [forward, if_neg (Nat.not_lt.2 hle)]
  refine ⟨?_, ?_, _, rfl⟩
  · have hlt := Nat.lt_div_mul_add hd (a := s.now - s.expires)
    have hsucc : ((s.now - s.expires) / d + 1) * d = (s.now - s.expires) / d * d + d := by ring
    omega
  · exact Nat.add_le_add_left (Nat.le_mul_of_pos_left d (Nat.succ_pos _)) _

theorem Skips.step (hd : 0 < d) (h : Skips e d s) (hfor : Forwarded d s a t)
    (hstep : s.step a = some t) : Skips e d t := by
  cases a with
  | tick =>
    cases hstep
    refine ⟨h.grid, h.slots, h.early, h.due, fun began again hr => ?_⟩
    obtain ⟨hlast, hle, hset⟩ := h.running began again hr
    exact ⟨hlast, Nat.le_succ_of_le hle, hset⟩
  | fire =>
    obtain ⟨⟨hpending, -, hdue⟩, rfl⟩ := step_fire_eq_some.1 hstep
    obtain ⟨hslot, hlast⟩ := h.due (Or.inl hpending)
    refine ⟨h.grid, isChain_snoc h.slots fun i hi => ?_, fun k j hk => ?_, ?_,
      fun began again hr => ?_⟩
    · -- the last call was before this time, and now it is not
      obtain ⟨n, hn⟩ := h.grid
      have hi' := hlast i hi
      have hfirst : e + (s.calls.length - 1) * d ≤ i :=
        h.early _ i (by rwa [← List.getLast?_eq_getElem?])
      have hbefore : (i - e) / d < n := (Nat.div_lt_iff_lt_mul hd).2 (by omega)
      have hnow : n ≤ (s.now - e) / d := (Nat.le_div_iff_mul_le hd).2 (by omega)
      exact hbefore.trans_le hnow
    · rcases getElem?_snoc hk with hk | ⟨rfl, rfl⟩
      · exact h.early k j hk
      · exact hslot.trans hdue
    · rintro (hp | ⟨began, hb⟩)
      · cases hp
      · cases hb
    · obtain ⟨rfl, rfl⟩ : s.now = began ∧ false = again := by simpa using hr
      exact ⟨by simp, le_rfl, fun _ => ⟨hdue, s.calls.length, by simp, hslot⟩⟩
  | set expires =>
    obtain ⟨began, hrunning, rfl⟩ := step_set_eq_some.1 hstep
    obtain ⟨hlast, hle, hset⟩ := h.running began false hrunning
    obtain ⟨hbegan, n, hlength, hslot⟩ := hset rfl
    obtain ⟨hafter, hperiod, m, hm⟩ := forward_bounds hd (hbegan.trans hle)
    obtain rfl : expires = s.forward d := hfor expires rfl
    refine ⟨?_, h.slots, h.early, fun _ => ⟨?_, fun i hi => ?_⟩, fun began' again hr => ?_⟩
    · obtain ⟨n', hn'⟩ := h.grid
      exact ⟨n' + m, by rw [hm, hn']; ring⟩
    · show e + s.calls.length * d ≤ s.forward d
      have hnext : (n + 1) * d = n * d + d := by ring
      rw [hlength, hnext]
      omega
    · obtain rfl : began = i := by simpa [hlast] using hi
      exact hle.trans_lt hafter
    · obtain ⟨rfl, rfl⟩ : began = began' ∧ true = again := by simpa using hr
      exact ⟨hlast, hle, by simp⟩
  | finish =>
    obtain ⟨-, rfl⟩ := step_finish_eq_some.1 hstep
    refine ⟨h.grid, h.slots, h.early, ?_, fun began again hr => by cases hr⟩
    rintro (hp | ⟨began, hb⟩)
    · exact h.due (Or.inl hp)
    · cases hb
  | cancel =>
    cases hstep
    refine ⟨h.grid, h.slots, h.early, ?_, h.running⟩
    rintro (hp | hb)
    · cases hp
    · exact h.due (Or.inr hb)

/-- A call that is over before the next slot leaves out none. -/
theorem Skips.absolute (hperiod : L + D < d) (h : Skips e d s) (htime : OnTime e d L D s)
    (hfor : Forwarded d s a t) (hstep : s.step a = some t) : Absolute d s a t := by
  rintro expires rfl
  obtain ⟨began, hrunning, -⟩ := step_set_eq_some.1 hstep
  obtain ⟨-, -, hset⟩ := h.running began false hrunning
  obtain ⟨hbegan, -⟩ := hset rfl
  obtain ⟨hbrief, n, hlength, hlate⟩ := htime.running began false hrunning
  obtain ⟨n', hlength', hslot⟩ := htime.schedule.running began hrunning
  obtain rfl : n = n' := by omega
  have hnow : s.expires ≤ s.now := by
    obtain ⟨-, hle, -⟩ := h.running began false hrunning
    exact hbegan.trans hle
  rw [hfor expires rfl, forward, if_neg (Nat.not_lt.2 hnow), Nat.div_eq_of_lt (by omega)]
  ring

/-! ## Machines with a timer -/

section Clocked

variable {σ α : Type*} {machine : σ → α → Option σ} {ask : σ → Alarm → α → List Act}
  {w v : σ × Alarm}

/-- A machine and its timer : the clock ticks, or the machine makes a step, with what it asks
of the timer. -/
def clocked (machine : σ → α → Option σ) (ask : σ → Alarm → α → List Act) (w : σ × Alarm) :
    Option α → Option (σ × Alarm)
  | none => (w.2.step .tick).map fun alarm => (w.1, alarm)
  | some x =>
    (machine w.1 x).bind fun s => (exec step w.2 (ask w.1 w.2 x)).map fun alarm => (s, alarm)

theorem clocked_none (h : clocked machine ask w none = some v) :
    v.1 = w.1 ∧ w.2.step .tick = some v.2 := by
  cases h
  exact ⟨rfl, rfl⟩

theorem clocked_some {x : α} : clocked machine ask w (some x) = some v ↔
    machine w.1 x = some v.1 ∧ exec step w.2 (ask w.1 w.2 x) = some v.2 := by
  obtain ⟨s, alarm⟩ := v
  simp only [clocked, Option.bind_eq_some_iff, Option.map_eq_some_iff]
  constructor
  · rintro ⟨s', hs, alarm', halarm, heq⟩
    cases heq
    exact ⟨hs, halarm⟩
  · rintro ⟨hs, halarm⟩
    exact ⟨s, hs, alarm, halarm, rfl⟩

/-- A clock that ticks only while calls start and end in time. -/
def Punctual (L D : ℕ) (w : σ × Alarm) (x : Option α) (_ : σ × Alarm) : Prop :=
  x = none → w.2.Awake L D

instance [DecidableEq α] (L D : ℕ) (w v : σ × Alarm) (x : Option α) :
    Decidable (Punctual L D w x v) :=
  inferInstanceAs (Decidable (_ → _))

end Clocked

section Tracks

variable {P : Type*} {early : P → Bool} {f : Deferred P} {s t : Alarm}

/-- The timer of a deferred function, which has not set it again while it is at an `early`
point. -/
structure Tracks (early : P → Bool) (f : Deferred P) (s : Alarm) : Prop where
  pending : f.armed = s.pending
  idle : f.pc = none ↔ s.running = none
  fresh : ∀ p, f.pc = some p → early p = true → ∃ began, s.running = some (began, false)

theorem tracks_init (now expires : ℕ) :
    Tracks early (Deferred.idle : Deferred P).arm (init now expires) :=
  ⟨rfl, iff_of_true rfl rfl, fun p hp => by cases hp⟩

theorem Tracks.tick (h : Tracks early f s) (hstep : s.step .tick = some t) :
    Tracks early f t := by
  cases hstep
  exact ⟨h.pending, h.idle, h.fresh⟩

theorem Tracks.fire (hstep : s.step .fire = some t) (p : P) :
    Tracks early ⟨false, some p⟩ t := by
  obtain ⟨-, rfl⟩ := step_fire_eq_some.1 hstep
  exact ⟨rfl, by simp, fun _ _ _ => ⟨s.now, rfl⟩⟩

theorem Tracks.goto (h : Tracks early f s) {p q : P} (hpc : f.pc = some p)
    (hearly : early q = true → early p = true) : Tracks early (f.goto q) s := by
  refine ⟨h.pending, ?_, fun r hr hpast => ?_⟩
  · rw [← h.idle, hpc]
    simp
  · cases hr
    exact h.fresh p hpc (hearly hpast)

theorem Tracks.set {expires : ℕ} (hstep : s.step (.set expires) = some t) {q : P}
    (hearly : early q = false) : Tracks early (f.arm.goto q) t := by
  obtain ⟨began, -, rfl⟩ := step_set_eq_some.1 hstep
  refine ⟨rfl, by simp, fun r hr hpast => ?_⟩
  cases hr
  simp [hearly] at hpast

/-- It is set again by the return of the function. -/
theorem Tracks.again {expires : ℕ} {u : Alarm} (hset : s.step (.set expires) = some t)
    (hfinish : t.step .finish = some u) : Tracks early f.finish.arm u := by
  obtain ⟨began, -, rfl⟩ := step_set_eq_some.1 hset
  obtain ⟨-, rfl⟩ := step_finish_eq_some.1 hfinish
  exact ⟨rfl, by simp, fun p hp => by cases hp⟩

theorem Tracks.finish (h : Tracks early f s) (hstep : s.step .finish = some t) :
    Tracks early f.finish t := by
  obtain ⟨-, rfl⟩ := step_finish_eq_some.1 hstep
  exact ⟨h.pending, by simp, fun p hp => by cases hp⟩

theorem Tracks.cancel (h : Tracks early f s) (hstep : s.step .cancel = some t) :
    Tracks early f.disarm t := by
  cases hstep
  exact ⟨rfl, h.idle, h.fresh⟩

/-- The function starts when its timer is due. -/
theorem Tracks.fire_isSome (h : Tracks early f s) (harmed : f.armed = true)
    (hpc : f.pc = none) (hdue : s.expires ≤ s.now) : (s.step .fire).isSome = true := by
  simp [step, ← h.pending, harmed, h.idle.1 hpc, hdue]

theorem Tracks.set_isSome (h : Tracks early f s) {p : P} (hpc : f.pc = some p)
    (hearly : early p = true) (expires : ℕ) : (s.step (.set expires)).isSome = true := by
  obtain ⟨began, hrunning⟩ := h.fresh p hpc hearly
  simp [step, hrunning]

theorem Tracks.finish_isSome (h : Tracks early f s) (hpc : f.pc ≠ none) :
    (s.step .finish).isSome = true := by
  simp [step, h.idle.not.1 hpc]

end Tracks

end Alarm
