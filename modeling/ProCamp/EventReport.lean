import ProCamp.EventList

/-!
# What the consumer reports

`ktime_get` gives 64 bits, `head.current_time` keeps 32 of them, the node has 64 again;
and after the lock is released `irq_simulation_callback` takes a time other than 0 for
the sign that it has found an event. `irqReport` is what it prints.

`Recorded` is the list with the events as `timer_callback` took them, number and time,
beside the nodes that hold them. A step is `Faithful` if it reports the event it removes
and nothing else. `reports_are_exact` proves this of every run in which the times stored
fit an `int` and are not 0, and no number has wrapped around to 0;
`unfaithful_of_not_fits` that nothing less will do.
-/

namespace ProCamp

open Machine

/-- The event as `timer_callback` took it : the number, and the time from `ktime_get`. -/
structure TakenEvent where
  time : ℤ
  number : ℤ
  deriving DecidableEq

/-- Lines 128 and 134. -/
inductive EventReport where
  | event (time number : ℤ)
  | noElement
  deriving DecidableEq

/-- Lines 126 to 135, with what the loop left in `time` and `num`. -/
def irqReport (found : Option ListData) : EventReport :=
  let time := (found.map ListData.time).getD 0
  let num := (found.map ListData.number).getD 0
  if time ≠ 0 then .event time num else .noElement

/-- The loop of lines 111 to 124 on the events beside the nodes : the event of the node it
clears, and the events left. -/
def clearTaken : List ListData → List (Option TakenEvent) →
    Option TakenEvent × List (Option TakenEvent)
  | cursor :: nodes, e :: taken =>
    if cursor.number ≠ 0 then (e, none :: taken)
    else ((clearTaken nodes taken).1, e :: (clearTaken nodes taken).2)
  | _, taken => (none, taken)

/-- The list, and the event each node holds. -/
structure Recorded where
  head : HeadType
  taken : List (Option TakenEvent)

namespace Recorded

/-- The list of `n` nodes after `simple_wq_init`. -/
def init (n : ℕ) : Recorded :=
  ⟨(Events.init n).head, List.replicate n none⟩

/-- The events after `timer_callback` has numbered one `number` at `now` : it is in the
node rotated to the end, unless it was reported as overflow. -/
def record (taken : List (Option TakenEvent)) (now number : ℤ) :
    Option ℤ → List (Option TakenEvent)
  | none => taken.tail ++ [some ⟨now, number⟩]
  | some _ => taken

/-- One callback. -/
def step (s : Recorded) : EventAct → Option Recorded
  | .timer now =>
    (timerCallback s.head now).map fun r =>
      ⟨r.1, record s.taken now r.1.currentNumber r.2⟩
  | .irq => some ⟨(irqSimulationCallback s.head).1, (clearTaken s.head.nodes s.taken).2⟩

/-- What a callback owes. The producer does not store over an event. The consumer reports
the event of the node it clears, with its number and its time, and reports that there is
none exactly when no node holds one. -/
def Faithful (s : Recorded) : EventAct → Prop
  | .timer _ => s.head.nodes.head?.map ListData.number = some 0 → s.taken.head?.join = none
  | .irq =>
    (∀ e, (clearTaken s.head.nodes s.taken).1 = some e →
      irqReport (irqSimulationCallback s.head).2 = .event e.time e.number) ∧
      (irqReport (irqSimulationCallback s.head).2 = .noElement ↔ ∀ e ∈ s.taken, e = none)

/-- Where the producer finds an empty node, the time it takes is not 0 and fits an `int`,
and the number it takes is not 0. -/
def Fits (s : Recorded) : EventAct → Prop
  | .timer now =>
    s.head.nodes.head?.map ListData.number = some 0 →
      (-2 ^ 31 ≤ now ∧ now < 2 ^ 31) ∧ now ≠ 0 ∧ toInt (s.head.currentNumber + 1) ≠ 0
  | .irq => True

instance (s : Recorded) : ∀ a, Decidable (s.Fits a)
  | .timer now => inferInstanceAs (Decidable (s.head.nodes.head?.map ListData.number = some 0 →
      (-2 ^ 31 ≤ now ∧ now < 2 ^ 31) ∧ now ≠ 0 ∧ toInt (s.head.currentNumber + 1) ≠ 0))
  | .irq => isTrue trivial

/-- A node beside the event it holds. -/
inductive Holds : ListData → Option TakenEvent → Prop
  | empty : Holds ⟨0, 0⟩ none
  | event {e : TakenEvent} (htime : e.time ≠ 0) (hnumber : e.number ≠ 0) :
      Holds ⟨e.time, e.number⟩ (some e)

/-- Every node holds the event recorded for it. -/
abbrev Recording (nodes : List ListData) (taken : List (Option TakenEvent)) : Prop :=
  List.Forall₂ Holds nodes taken

variable {s t : Recorded} {nodes : List ListData} {taken : List (Option TakenEvent)}
  {nd : ListData} {e : Option TakenEvent} {now : ℤ}

/-- The events recorded do not change what the callbacks do. -/
theorem step_head (s : Recorded) (evs : Events) (h : evs.head = s.head) (a : EventAct) :
    (evs.step a).map Events.head = (s.step a).map Recorded.head := by
  cases a with
  | timer now => simp [Events.step, step, h, Function.comp_def]
  | irq => simp [Events.step, step, h]

theorem toInt_eq_iff (x : ℤ) : toInt x = x ↔ -2 ^ 31 ≤ x ∧ x < 2 ^ 31 := by
  unfold toInt
  constructor
  · intro h
    have hlo := Int.le_bmod (x := x) (m := 2 ^ 32) (by decide)
    have hhi := Int.bmod_lt (x := x) (m := 2 ^ 32) (by decide)
    omega
  · rintro ⟨hlo, hhi⟩
    exact Int.bmod_eq_of_le (by omega) (by omega)

theorem recording_init (n : ℕ) : Recording (init n).head.nodes (init n).taken := by
  show List.Forall₂ Holds (List.replicate n ⟨0, 0⟩) (List.replicate n none)
  induction n with
  | zero => exact .nil
  | succ n ih => exact .cons .empty ih

/-! ## The consumer -/

theorem Holds.number_eq_zero_iff (h : Holds nd e) : nd.number = 0 ↔ e = none := by
  cases h with
  | empty => simp
  | event htime hnumber => simpa using hnumber

theorem Recording.clear (h : Recording nodes taken) :
    Recording (clearFirst nodes).2 (clearTaken nodes taken).2 := by
  induction h with
  | nil => exact .nil
  | @cons nd e nodes taken hnd hrest ih =>
    simp only [clearFirst, clearTaken]
    split_ifs
    · exact .cons .empty hrest
    · exact .cons hnd ih

/-- The consumer reports the event it removes. -/
theorem Recording.report (h : Recording nodes taken) :
    (∀ e, (clearTaken nodes taken).1 = some e →
      irqReport (clearFirst nodes).1 = .event e.time e.number) ∧
      (irqReport (clearFirst nodes).1 = .noElement ↔ ∀ e ∈ taken, e = none) := by
  induction h with
  | nil => simp [clearTaken, clearFirst, irqReport]
  | @cons nd e nodes taken hnd hrest ih =>
    cases hnd with
    | empty => simpa [clearFirst, clearTaken] using ih
    | event htime hnumber => simp [clearFirst, clearTaken, irqReport, htime, hnumber]

/-! ## Every run -/

theorem timerCallback_overflow {rest : List ListData} (h : s.head.nodes = nd :: rest)
    (hne : nd.number ≠ 0) : s.step (.timer now) =
      some ⟨⟨s.head.nodes, toInt (s.head.currentNumber + 1), toInt now⟩, s.taken⟩ := by
  simp [step, timerCallback, h, hne, record]

theorem timerCallback_store {rest : List ListData} (h : s.head.nodes = nd :: rest)
    (hzero : nd.number = 0) : s.step (.timer now) =
      some ⟨⟨rest ++ [⟨toInt now, toInt (s.head.currentNumber + 1)⟩],
        toInt (s.head.currentNumber + 1), toInt now⟩,
        s.taken.tail ++ [some ⟨now, toInt (s.head.currentNumber + 1)⟩]⟩ := by
  simp [step, timerCallback, h, hzero, record]

/-- A callback on a list that records its events. -/
theorem recording_step {a : EventAct} (h : Recording s.head.nodes s.taken) (hfits : s.Fits a)
    (hstep : s.step a = some t) : Recording t.head.nodes t.taken ∧ s.Faithful a := by
  cases a with
  | irq =>
    obtain rfl := Option.some.inj hstep
    exact ⟨h.clear, h.report⟩
  | timer now =>
    generalize hnodes : s.head.nodes = nodes at h
    generalize htaken : s.taken = taken at h
    cases h with
    | nil => simp [step, timerCallback, hnodes] at hstep
    | @cons nd e nodes taken hnd hrest =>
      have hfaithful : s.Faithful (.timer now) := by
        simpa [Faithful, hnodes, htaken] using hnd.number_eq_zero_iff.1
      refine ⟨?_, hfaithful⟩
      by_cases hzero : nd.number = 0
      · rw [timerCallback_store hnodes hzero] at hstep
        obtain rfl := Option.some.inj hstep
        obtain ⟨hrange, htime, hnumber⟩ := hfits (by simp [hnodes, hzero])
        rw [htaken, (toInt_eq_iff now).2 hrange]
        have hlast : Holds ⟨now, toInt (s.head.currentNumber + 1)⟩
            (some ⟨now, toInt (s.head.currentNumber + 1)⟩) :=
          .event (e := ⟨now, toInt (s.head.currentNumber + 1)⟩) htime hnumber
        exact List.rel_append hrest (.cons hlast .nil)
      · rw [timerCallback_overflow hnodes hzero] at hstep
        obtain rfl := Option.some.inj hstep
        rw [hnodes, htaken]
        exact .cons hnd hrest

/-- For a list of any number of nodes and every run of the two callbacks in which each
time stored is not 0 and fits an `int`, and no number stored is 0 : the consumer reports
exactly the number and the time of the event it removes, it reports that there is none
exactly when no node holds one, and no event is lost from the list unreported. -/
theorem reports_are_exact (n : ℕ) (as : List EventAct)
    (hfits : EveryStep step (fun s a _ => s.Fits a) (init n) as) :
    EveryStep step (fun s a _ => s.Faithful a) (init n) as := by
  refine everyStep_of_invariant (I := fun s => Recording s.head.nodes s.taken) ?_
    (recording_init n) hfits
  exact fun s a t h hC hstep => recording_step h hC hstep

/-- Three events with small times, two of them taken out. -/
theorem reports_are_exact_small : EveryStep step (fun s a _ => s.Faithful a) (init 5)
    [.timer 7, .timer 8, .irq, .timer 9, .irq] :=
  reports_are_exact 5 _ (by decide)

/-- An event of the time `2 ^ 32`, a little over four seconds after boot, is cleared and
reported as none. -/
theorem event_at_wrapped_time_lost :
    ¬EveryStep step (fun s a _ => s.Faithful a) (init 5) [.timer (2 ^ 32), .irq] := by
  intro h
  obtain ⟨hreport, -⟩ := ((h _ rfl).2 _ rfl).1
  have hevent := hreport ⟨2 ^ 32, 1⟩ (by decide)
  revert hevent
  decide

/-! ## Nothing less will do -/

/-- The consumer passes over empty nodes. -/
theorem clearTaken_append {pre : List ListData} {taken : List (Option TakenEvent)}
    (hlen : pre.length = taken.length) (hempty : ∀ nd ∈ pre, nd.number = 0) (nodes : List ListData)
    (taken' : List (Option TakenEvent)) : clearTaken (pre ++ nodes) (taken ++ taken') =
      ((clearTaken nodes taken').1, taken ++ (clearTaken nodes taken').2) := by
  induction pre generalizing taken with
  | nil =>
    obtain rfl : taken = [] := by simpa using hlen.symm
    rfl
  | cons nd pre ih =>
    cases taken with
    | nil => simp at hlen
    | cons e taken =>
      have hzero : nd.number = 0 := hempty nd (by simp)
      have hlen : pre.length = taken.length := by simpa using hlen
      have ih' := ih hlen fun x hx => hempty x (by simp [hx])
      simp only [List.cons_append, clearTaken, hzero, ih', ne_eq, not_true_eq_false, if_false]

/-- A filled node stops it, whatever comes after. -/
theorem clear_append_of_filled {pre : List ListData} {taken : List (Option TakenEvent)}
    (hlen : pre.length = taken.length) (hfilled : ∃ nd ∈ pre, nd.number ≠ 0) (nodes : List ListData)
    (taken' : List (Option TakenEvent)) :
    (clearFirst (pre ++ nodes)).2 = (clearFirst pre).2 ++ nodes ∧
      (clearTaken (pre ++ nodes) (taken ++ taken')).2 = (clearTaken pre taken).2 ++ taken' ∧
      ((clearFirst pre).2.countP fun nd => nd.number ≠ 0) + 1 =
        pre.countP fun nd => nd.number ≠ 0 := by
  induction pre generalizing taken with
  | nil => simp at hfilled
  | cons nd pre ih =>
    cases taken with
    | nil => simp at hlen
    | cons e taken =>
      by_cases hzero : nd.number = 0
      · have hfilled' : ∃ nd ∈ pre, nd.number ≠ 0 := by simpa [hzero] using hfilled
        have hlen : pre.length = taken.length := by simpa using hlen
        obtain ⟨hnodes, htaken, hcount⟩ := ih hlen hfilled'
        simpa [clearFirst, clearTaken, hzero, hnodes, htaken] using hcount
      · simp [clearFirst, clearTaken, hzero]

/-- The last node holds an event the consumer cannot report. -/
structure Spoilt (s : Recorded) (pre : List ListData) (taken : List (Option TakenEvent))
    (e : TakenEvent) : Prop where
  nodes_eq : s.head.nodes = pre ++ [⟨toInt e.time, e.number⟩]
  taken_eq : s.taken = taken ++ [some e]
  recording : Recording pre taken
  not_fits : toInt e.time ≠ e.time ∨ e.time = 0 ∨ e.number = 0

/-- The consumer comes to such an event after those before it. -/
theorem Spoilt.unfaithful {pre : List ListData} {ev : TakenEvent} {k : ℕ}
    (h : s.Spoilt pre taken ev) (hk : (pre.countP fun nd => nd.number ≠ 0) = k) :
    ¬EveryStep step (fun s a _ => s.Faithful a) s (List.replicate (k + 1) .irq) := by
  induction k generalizing s pre taken with
  | zero =>
    have hempty : ∀ nd ∈ pre, nd.number = 0 := by
      simpa [List.countP_eq_zero] using hk
    intro hall
    obtain ⟨hreport, hnone⟩ := (hall _ rfl).1
    simp only [irqSimulationCallback, h.nodes_eq, h.taken_eq, Events.clearFirst_append hempty,
      clearTaken_append h.recording.length_eq hempty] at hreport hnone
    by_cases hnumber : ev.number = 0
    · have hall := hnone.1 (by simp [clearFirst, hnumber, irqReport]) (some ev) (by simp)
      simp at hall
    · have hevent := hreport ev (by simp [clearTaken, hnumber])
      by_cases htime : toInt ev.time = 0
      · simp [clearFirst, hnumber, irqReport, htime] at hevent
      · have heq : toInt ev.time = ev.time := by
          simpa [clearFirst, hnumber, irqReport, htime] using hevent
        rcases h.not_fits with hne | hzero | hzero
        · exact hne heq
        · exact htime (heq.trans hzero)
        · exact hnumber hzero
  | succ k ih =>
    have hpos : 0 < pre.countP fun nd => nd.number ≠ 0 := by omega
    have hfilled : ∃ nd ∈ pre, nd.number ≠ 0 := by simpa using List.countP_pos_iff.1 hpos
    obtain ⟨hnodes, htaken, hcount⟩ := clear_append_of_filled h.recording.length_eq hfilled
      [⟨toInt ev.time, ev.number⟩] [some ev]
    intro hall
    refine ih (s := ⟨(irqSimulationCallback s.head).1, (clearTaken s.head.nodes s.taken).2⟩)
      ⟨?_, ?_, h.recording.clear, h.not_fits⟩ (by omega) (hall _ rfl).2
    · simpa [irqSimulationCallback, h.nodes_eq] using hnodes
    · simpa [h.nodes_eq, h.taken_eq] using htaken

/-- From every state of a run that meets the condition, an event stored that does not meet
it is lost or misreported as soon as the consumer comes to it. -/
theorem unfaithful_of_not_fits {n : ℕ} {as : List EventAct}
    (hfits : EveryStep step (fun s a _ => s.Fits a) (init n) as)
    (hrun : exec step (init n) as = some s) {a : EventAct} (hnot : ¬s.Fits a)
    (hstep : s.step a = some t) :
    ∃ k, ¬EveryStep step (fun s a _ => s.Faithful a) t (List.replicate k .irq) := by
  have hrec : Recording s.head.nodes s.taken := by
    refine exec_invariant (I := fun s => Recording s.head.nodes s.taken) ?_ (recording_init n)
      hfits hrun
    exact fun s a t h hC hstep => (recording_step h hC hstep).1
  cases a with
  | irq => exact absurd trivial hnot
  | timer now =>
    obtain ⟨hhead, hbad⟩ := Classical.not_imp.1 hnot
    generalize hnodes : s.head.nodes = nodes at hrec hhead
    generalize htaken : s.taken = taken at hrec
    cases hrec with
    | nil => simp at hhead
    | @cons nd e rest taken hnd hrest =>
      rw [timerCallback_store hnodes (by simpa using hhead), htaken] at hstep
      obtain rfl := Option.some.inj hstep
      refine ⟨_, Spoilt.unfaithful ⟨rfl, rfl, hrest, ?_⟩ rfl⟩
      by_contra! hgood
      exact hbad ⟨(toInt_eq_iff now).1 hgood.1, hgood.2.1, hgood.2.2⟩

end Recorded

end ProCamp
