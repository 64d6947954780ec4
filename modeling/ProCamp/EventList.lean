import Mathlib.Algebra.Order.Ring.Int
import Mathlib.Data.List.Nodup
import Mathlib.Data.List.Perm.Basic
import Mathlib.Data.List.Range
import ProCamp.Machine

/-!
# The event list

The list of `HW9/spinlock.c` : `timer_callback` numbers an event and stores it,
`irq_simulation_callback` takes one out. The producer looks only at the first node,
fills it if its number is 0 and rotates the list; the consumer walks from the head to
the first node whose number is not 0 and clears it where it stands.

`EventInv` is the shape neither of them states : empty nodes first, then the filled
ones, their numbers increasing. From it the list is a first-in first-out store of as
many events as it has nodes (`event_list_fifo`).
-/

namespace ProCamp

open Machine

/-- Conversion to `int`. -/
def toInt (x : ℤ) : ℤ :=
  x.bmod (2 ^ 32)

/-- A node, `struct list_data_type`. -/
structure ListData where
  time : ℤ
  number : ℤ
  deriving DecidableEq

/-- The head, `struct head_type`, with the nodes linked from it. -/
structure HeadType where
  nodes : List ListData
  currentNumber : ℤ
  currentTime : ℤ
  deriving DecidableEq

/-- `timer_callback` up to its re-arm, lines 68 to 93, with `now` from `ktime_get` : the
list, and the number it reports as overflow. An empty list has no first entry. -/
def timerCallback (h : HeadType) (now : ℤ) : Option (HeadType × Option ℤ) :=
  let number := toInt (h.currentNumber + 1)
  let time := toInt now
  match h.nodes with
  | [] => none
  | cursor :: rest =>
    if cursor.number = 0 then some (⟨rest ++ [⟨time, number⟩], number, time⟩, none)
    else some (⟨cursor :: rest, number, time⟩, some number)

/-- The loop of `irq_simulation_callback`, lines 111 to 124 : the event it takes, and the
nodes. -/
def clearFirst : List ListData → Option ListData × List ListData
  | [] => (none, [])
  | cursor :: rest =>
    if cursor.number ≠ 0 then (some cursor, ⟨0, 0⟩ :: rest)
    else ((clearFirst rest).1, cursor :: (clearFirst rest).2)

/-- `irq_simulation_callback` up to its report, lines 103 to 125. -/
def irqSimulationCallback (h : HeadType) : HeadType × Option ListData :=
  ({ h with nodes := (clearFirst h.nodes).2 }, (clearFirst h.nodes).1)

/-- The list with its history. -/
structure Events where
  head : HeadType
  /-- The numbers of the events taken out. -/
  consumed : List ℤ
  /-- The numbers reported as overflow. -/
  overflowed : List ℤ

/-- A timer fires. -/
inductive EventAct where
  | timer (now : ℤ)
  | irq

namespace Events

/-- The list after `simple_wq_init` has allocated `n` nodes. -/
def init (n : ℕ) : Events :=
  ⟨⟨List.replicate n ⟨0, 0⟩, 0, 0⟩, [], []⟩

/-- One callback. -/
def step (s : Events) : EventAct → Option Events
  | .timer now =>
    (timerCallback s.head now).map fun r =>
      { s with head := r.1, overflowed := s.overflowed ++ r.2.toList }
  | .irq =>
    let r := irqSimulationCallback s.head
    some { s with head := r.1, consumed := s.consumed ++ r.2.toList.map ListData.number }

/-- The numbers stored, in list order. -/
def stored (s : Events) : List ℤ :=
  (s.head.nodes.map ListData.number).filter (· ≠ 0)

/-- The numbers issued so far. -/
def issued (s : Events) : List ℤ :=
  (List.range' 1 s.head.currentNumber.toNat).map Nat.cast

/-- Empty nodes, then filled ones. -/
structure Shape (nodes empty filled : List ListData) : Prop where
  nodes_eq : nodes = empty ++ filled
  empty_eq : ∀ nd ∈ empty, nd.number = 0
  filled_pos : ∀ nd ∈ filled, 0 < nd.number

/-- The invariant of the list of `n` nodes. -/
structure EventInv (n : ℕ) (s : Events) : Prop where
  shape : ∃ empty filled, Shape s.head.nodes empty filled
  length_eq : s.head.nodes.length = n
  nonneg : 0 ≤ s.head.currentNumber
  sorted : (s.consumed ++ s.stored).Pairwise (· < ·)
  perm : (s.consumed ++ s.stored ++ s.overflowed).Perm s.issued

variable {n : ℕ} {s t : Events}

theorem Shape.filter_eq {nodes empty filled : List ListData} (h : Shape nodes empty filled) :
    (nodes.map ListData.number).filter (· ≠ 0) = filled.map ListData.number := by
  rw [h.nodes_eq, List.map_append, List.filter_append, List.filter_eq_nil_iff.2,
    List.filter_eq_self.2, List.nil_append]
  · intro x hx
    obtain ⟨nd, hnd, rfl⟩ := List.mem_map.1 hx
    simpa using (h.filled_pos nd hnd).ne'
  · intro x hx
    obtain ⟨nd, hnd, rfl⟩ := List.mem_map.1 hx
    simpa using h.empty_eq nd hnd

theorem toInt_of_lt {x : ℤ} (h0 : 0 ≤ x) (h : x < 2 ^ 31) : toInt x = x := by
  unfold toInt
  exact Int.bmod_eq_of_le (by omega) (by omega)

/-- The consumer walks past the empty nodes. -/
theorem clearFirst_append {empty : List ListData} (hempty : ∀ nd ∈ empty, nd.number = 0)
    (nodes : List ListData) :
    clearFirst (empty ++ nodes) = ((clearFirst nodes).1, empty ++ (clearFirst nodes).2) := by
  induction empty with
  | nil => rfl
  | cons nd empty ih =>
    have hzero : nd.number = 0 := hempty nd (by simp)
    have ih' := ih fun nd' hnd' => hempty nd' (by simp [hnd'])
    simp only [List.cons_append, clearFirst, hzero, ih', ne_eq, not_true_eq_false, if_false]

theorem stored_eq {empty filled : List ListData} (h : Shape s.head.nodes empty filled) :
    s.stored = filled.map ListData.number :=
  h.filter_eq

theorem eventInv_init (n : ℕ) : EventInv n (init n) where
  shape := ⟨List.replicate n ⟨0, 0⟩, [], by simp [init], by simp, by simp⟩
  length_eq := by simp [init]
  nonneg := le_refl _
  sorted := by simp [init, stored]
  perm := by simp [init, stored, issued]

/-- A number issued is at most the current one. -/
theorem EventInv.le_currentNumber (h : EventInv n s) {k : ℤ}
    (hk : k ∈ s.consumed ++ s.stored ++ s.overflowed) : k ≤ s.head.currentNumber := by
  have hmem := h.perm.mem_iff.1 hk
  obtain ⟨m, hm, rfl⟩ := List.mem_map.1 hmem
  have hrange := List.mem_range'_1.1 hm
  omega

theorem EventInv.nodup (h : EventInv n s) : (s.consumed ++ s.stored ++ s.overflowed).Nodup := by
  refine h.perm.nodup_iff.2 (List.Nodup.map ?_ List.nodup_range')
  exact fun a b hab => by simpa using hab

/-- The number a timer issues comes after those issued before. -/
theorem issued_succ (hs : 0 ≤ s.head.currentNumber)
    (ht : t.head.currentNumber = s.head.currentNumber + 1) :
    t.issued = s.issued ++ [s.head.currentNumber + 1] := by
  have hnat : t.head.currentNumber.toNat = s.head.currentNumber.toNat + 1 := by omega
  rw [issued, issued, hnat, List.range'_1_concat, List.map_append]
  simp
  omega

/-- One callback : the producer appends the number it issues or, with every node
occupied, reports it and leaves the nodes alone; the consumer takes the smallest number
stored. -/
def FifoStep (s : Events) : EventAct → Events → Prop
  | .timer _, t =>
    t.consumed = s.consumed ∧
      if ∀ nd ∈ s.head.nodes, nd.number ≠ 0 then
        t.head.nodes = s.head.nodes ∧ t.overflowed = s.overflowed ++ [s.head.currentNumber + 1]
      else
        t.stored = s.stored ++ [s.head.currentNumber + 1] ∧ t.overflowed = s.overflowed
  | .irq, t =>
    t.overflowed = s.overflowed ∧
      match s.stored with
      | [] => t.stored = [] ∧ t.consumed = s.consumed
      | k :: rest => (∀ x ∈ rest, k < x) ∧ t.stored = rest ∧ t.consumed = s.consumed ++ [k]

/-! ## One callback -/

/-- A timer on a list with an empty node : its first node is empty. -/
theorem step_timer_fill {empty filled : List ListData} {nd : ListData} {now : ℤ}
    (hshape : Shape s.head.nodes (nd :: empty) filled)
    (hnum : toInt (s.head.currentNumber + 1) = s.head.currentNumber + 1) :
    step s (.timer now) = some { s with
      head := ⟨empty ++ (filled ++ [⟨toInt now, s.head.currentNumber + 1⟩]),
        s.head.currentNumber + 1, toInt now⟩ } := by
  have hzero : nd.number = 0 := hshape.empty_eq nd (by simp)
  simp [step, timerCallback, hshape.nodes_eq, hzero, hnum]

/-- A timer on a list without one. -/
theorem step_timer_overflow {filled : List ListData} {nd : ListData} {now : ℤ}
    (hshape : Shape s.head.nodes [] (nd :: filled))
    (hnum : toInt (s.head.currentNumber + 1) = s.head.currentNumber + 1) :
    step s (.timer now) = some { s with
      head := ⟨s.head.nodes, s.head.currentNumber + 1, toInt now⟩
      overflowed := s.overflowed ++ [s.head.currentNumber + 1] } := by
  have hne : nd.number ≠ 0 := (hshape.filled_pos nd (by simp)).ne'
  simp [step, timerCallback, hshape.nodes_eq, hne, hnum]

theorem step_irq_none {empty : List ListData} (hshape : Shape s.head.nodes empty []) :
    step s .irq = some s := by
  have hclear := clearFirst_append hshape.empty_eq []
  rw [← hshape.nodes_eq] at hclear
  have hnodes : empty = s.head.nodes := by simpa using hshape.nodes_eq.symm
  simp [step, irqSimulationCallback, hclear, clearFirst, hnodes]

theorem step_irq_take {empty rest : List ListData} {nd : ListData}
    (hshape : Shape s.head.nodes empty (nd :: rest)) :
    step s .irq = some { s with
      head := { s.head with nodes := empty ++ ⟨0, 0⟩ :: rest }
      consumed := s.consumed ++ [nd.number] } := by
  have hne : nd.number ≠ 0 := (hshape.filled_pos nd (by simp)).ne'
  have hclear := clearFirst_append hshape.empty_eq (nd :: rest)
  rw [← hshape.nodes_eq] at hclear
  simp [step, irqSimulationCallback, hclear, clearFirst, hne]

theorem EventInv.timer (h : EventInv n s) (hn : 1 ≤ n) (now : ℤ)
    (hlt : s.head.currentNumber + 1 < 2 ^ 31) :
    ∃ t, step s (.timer now) = some t ∧ EventInv n t ∧ FifoStep s (.timer now) t ∧
      t.head.currentNumber = s.head.currentNumber + 1 := by
  have hpos := h.nonneg
  have hnum : toInt (s.head.currentNumber + 1) = s.head.currentNumber + 1 :=
    toInt_of_lt (by omega) hlt
  have hlen := h.length_eq
  obtain ⟨empty, filled, hshape⟩ := h.shape
  have hstored := stored_eq hshape
  have hbound : ∀ k ∈ s.consumed ++ s.stored, k < s.head.currentNumber + 1 := by
    intro k hk
    have := h.le_currentNumber (List.mem_append_left s.overflowed hk)
    omega
  cases empty with
  | cons nd empty =>
    refine ⟨_, step_timer_fill hshape hnum, ?_⟩
    set t : Events := { s with
      head := ⟨empty ++ (filled ++ [⟨toInt now, s.head.currentNumber + 1⟩]),
        s.head.currentNumber + 1, toInt now⟩ } with ht
    have hshape' : Shape t.head.nodes empty
        (filled ++ [⟨toInt now, s.head.currentNumber + 1⟩]) := by
      refine ⟨rfl, fun x hx => hshape.empty_eq x (by simp [hx]), fun x hx => ?_⟩
      rcases List.mem_append.1 hx with hx | hx
      · exact hshape.filled_pos x hx
      · rw [List.mem_singleton.1 hx]
        show 0 < s.head.currentNumber + 1
        omega
    have hstored' : t.stored = s.stored ++ [s.head.currentNumber + 1] := by
      rw [stored_eq hshape', hstored, List.map_append]
      rfl
    have hissued : t.issued = s.issued ++ [s.head.currentNumber + 1] := issued_succ hpos rfl
    refine ⟨⟨⟨_, _, hshape'⟩, ?_, by show 0 ≤ s.head.currentNumber + 1; omega, ?_, ?_⟩,
      ⟨rfl, ?_⟩, rfl⟩
    · rw [← hlen, hshape.nodes_eq]
      simp [ht]
      omega
    · rw [hstored', ← List.append_assoc]
      exact List.pairwise_append.2 ⟨h.sorted, by simp, fun a ha b hb => by
        rw [List.mem_singleton.1 hb]
        exact hbound a ha⟩
    · rw [hstored', hissued]
      refine List.Perm.trans ?_ (h.perm.append_right _)
      simp only [List.append_assoc]
      exact (List.perm_append_comm.append_left _).append_left _
    · have hfree : ¬ ∀ x ∈ s.head.nodes, x.number ≠ 0 := fun hall =>
        hall nd (by simp [hshape.nodes_eq]) (hshape.empty_eq nd (by simp))
      rw [if_neg hfree]
      exact ⟨hstored', rfl⟩
  | nil =>
    cases filled with
    | nil =>
      rw [hshape.nodes_eq] at hlen
      simp at hlen
      omega
    | cons nd filled =>
      refine ⟨_, step_timer_overflow hshape hnum, ⟨⟨_, _, hshape⟩, hlen,
        by show 0 ≤ s.head.currentNumber + 1; omega, h.sorted, ?_⟩, ⟨rfl, ?_⟩, rfl⟩
      · rw [issued_succ hpos rfl, ← List.append_assoc]
        exact h.perm.append_right _
      · have hfull : ∀ x ∈ s.head.nodes, x.number ≠ 0 := fun x hx =>
          (hshape.filled_pos x (by simpa [hshape.nodes_eq] using hx)).ne'
        rw [if_pos hfull]
        exact ⟨rfl, rfl⟩

theorem EventInv.irq (h : EventInv n s) :
    ∃ t, step s .irq = some t ∧ EventInv n t ∧ FifoStep s .irq t ∧
      t.head.currentNumber = s.head.currentNumber := by
  have hlen := h.length_eq
  have hsorted := h.sorted
  have hperm := h.perm
  obtain ⟨empty, filled, hshape⟩ := h.shape
  have hstored := stored_eq hshape
  cases filled with
  | nil =>
    refine ⟨s, step_irq_none hshape, h, ⟨rfl, ?_⟩, rfl⟩
    rw [show s.stored = [] from hstored]
    exact ⟨rfl, rfl⟩
  | cons nd rest =>
    refine ⟨_, step_irq_take hshape, ?_⟩
    set t : Events := { s with
      head := { s.head with nodes := empty ++ ⟨0, 0⟩ :: rest }
      consumed := s.consumed ++ [nd.number] } with ht
    have hshape' : Shape t.head.nodes (empty ++ [⟨0, 0⟩]) rest := by
      refine ⟨by simp [ht], fun x hx => ?_, fun x hx => hshape.filled_pos x (by simp [hx])⟩
      rcases List.mem_append.1 hx with hx | hx
      · exact hshape.empty_eq x hx
      · rw [List.mem_singleton.1 hx]
    have hstored' : t.stored = rest.map ListData.number := stored_eq hshape'
    have happend : t.consumed ++ t.stored = s.consumed ++ s.stored := by
      rw [hstored', hstored]
      simp [ht]
    refine ⟨⟨⟨_, _, hshape'⟩, ?_, h.nonneg, ?_, ?_⟩, ⟨rfl, ?_⟩, rfl⟩
    · rw [← hlen, hshape.nodes_eq]
      simp [ht]
    · rwa [happend]
    · rw [happend]
      exact hperm
    · rw [hstored] at hsorted ⊢
      have hrest := (List.pairwise_cons.1 (List.pairwise_append.1 hsorted).2.1).1
      exact ⟨hrest, hstored', rfl⟩

/-! ## Every run -/

/-- The timers of a run. -/
def timers (as : List EventAct) : ℕ :=
  as.countP fun
    | .timer _ => true
    | .irq => false

/-- From the invariant, every run with fewer than `2^31` timers ahead is defined and
takes steps of the store only. -/
theorem EventInv.run (hn : 1 ≤ n) (as : List EventAct) (h : EventInv n s)
    (hlt : s.head.currentNumber + timers as < 2 ^ 31) :
    ∃ t, exec step s as = some t ∧ EventInv n t ∧ EveryStep step FifoStep s as := by
  induction as generalizing s with
  | nil => exact ⟨s, rfl, h, trivial⟩
  | cons a as ih =>
    obtain ⟨t, ht, hinv, hfifo, hnext⟩ : ∃ t, step s a = some t ∧ EventInv n t ∧
        FifoStep s a t ∧ t.head.currentNumber + timers as < 2 ^ 31 := by
      cases a with
      | timer now =>
        have hcount : timers (.timer now :: as) = timers as + 1 := by simp [timers]
        rw [hcount] at hlt
        push_cast at hlt
        obtain ⟨t, ht, hinv, hfifo, hcur⟩ := h.timer hn now (by omega)
        exact ⟨t, ht, hinv, hfifo, by omega⟩
      | irq =>
        have hcount : timers (.irq :: as) = timers as := by simp [timers]
        rw [hcount] at hlt
        obtain ⟨t, ht, hinv, hfifo, hcur⟩ := h.irq
        exact ⟨t, ht, hinv, hfifo, by omega⟩
    obtain ⟨u, hu, hinv', hrest⟩ := ih hinv hnext
    refine ⟨u, exec_cons_eq_some.2 ⟨t, ht, hu⟩, hinv', everyStep_cons.2 fun t' ht' => ?_⟩
    obtain rfl : t = t' := Option.some.inj (ht.symm.trans ht')
    exact ⟨hfifo, hrest⟩

/-- The list of `n ≥ 1` nodes under any callbacks with fewer than `2^31` timers : empty
nodes before filled ones with increasing numbers, the numbers consumed increasing, each
number issued consumed, stored or reported once, and every callback a step of a store of
`n` events (`FifoStep`). -/
theorem event_list_fifo (hn : 1 ≤ n) (as : List EventAct) (hlt : timers as < 2 ^ 31) :
    EveryStep step FifoStep (init n) as ∧
      ∃ s, exec step (init n) as = some s ∧ s.head.nodes.length = n ∧
        (∃ empty filled, Shape s.head.nodes empty filled ∧
          (filled.map ListData.number).Pairwise (· < ·)) ∧
        s.consumed.Pairwise (· < ·) ∧
        (s.consumed ++ s.stored ++ s.overflowed).Perm s.issued ∧
        (s.consumed ++ s.stored ++ s.overflowed).Nodup := by
  obtain ⟨s, hs, hinv, hsteps⟩ := (eventInv_init n).run hn as (by
    show (0 : ℤ) + timers as < 2 ^ 31
    omega)
  obtain ⟨empty, filled, hshape⟩ := hinv.shape
  obtain ⟨hconsumed, hstored, -⟩ := List.pairwise_append.1 hinv.sorted
  refine ⟨hsteps, s, hs, hinv.length_eq, ⟨empty, filled, hshape, ?_⟩, hconsumed, hinv.perm,
    hinv.nodup⟩
  rwa [stored_eq hshape] at hstored

/-- Two nodes and three timers : the third number overflows. -/
theorem event_list_fifo_overflow :
    ∃ s, exec step (init 2) [.timer 7, .timer 8, .timer 9, .irq] = some s ∧
      s.overflowed = [3] ∧ s.consumed = [1] ∧
      (s.consumed ++ s.stored ++ s.overflowed).Perm s.issued := by
  obtain ⟨-, s, hs, -, -, -, hperm, -⟩ :=
    event_list_fifo (n := 2) (by decide) [.timer 7, .timer 8, .timer 9, .irq] (by decide)
  obtain rfl := Option.some.inj hs
  exact ⟨_, hs, by decide, by decide, hperm⟩

end Events

end ProCamp
