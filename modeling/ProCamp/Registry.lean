import Mathlib.Data.List.Nodup
import Mathlib.Logic.Function.Basic
import ProCamp.Machine

/-!
# Registrations and their release

What is registered under each name of a type `R`. A name can be registered once at a time,
and only what is registered can be released : an action outside this is not enabled, so that
a run of `step` is a log of calls none of which is out of place.

`exec_register` and `exec_release` run a whole list of one kind of call, and
`exec_release_all` says that a list of releases leaves nothing registered if and only if
each name is released as often as it is registered.
-/

namespace Registry

open Machine

variable {R : Type*} [DecidableEq R]

/-- A call on the registry. -/
inductive Act (R : Type*) where
  | register (r : R)
  | release (r : R)

/-- Nothing is registered. -/
def empty : R → Bool :=
  fun _ => false

/-- One call. -/
def step (s : R → Bool) : Act R → Option (R → Bool)
  | .register r => if s r then none else some (Function.update s r true)
  | .release r => if s r then some (Function.update s r false) else none

variable {s t : R → Bool} {r : R} {l : List R}

theorem step_register (h : s r = false) :
    step s (.register r) = some (Function.update s r true) := by
  simp [step, h]

theorem step_release_eq_some :
    step s (.release r) = some t ↔ s r = true ∧ Function.update s r false = t := by
  simp [step]

/-- Distinct names that are not registered can be, in any order. -/
theorem exec_register (hl : l.Nodup) (hs : ∀ r ∈ l, s r = false) :
    exec step s (l.map .register) = some fun r => s r || decide (r ∈ l) := by
  induction l generalizing s with
  | nil => simp
  | cons r l ih =>
    obtain ⟨hr, hl⟩ := List.nodup_cons.1 hl
    have hrest : ∀ x ∈ l, Function.update s r true x = false := by
      intro x hx
      rw [Function.update_of_ne (ne_of_mem_of_not_mem hx hr)]
      exact hs x (List.mem_cons_of_mem _ hx)
    refine exec_cons_eq_some.2 ⟨_, step_register (hs r (by simp)), ?_⟩
    rw [ih hl hrest]
    congr 1
    ext x
    by_cases hx : x = r
    · simp [hx]
    · simp [hx]

/-- A list of names can be released if they are distinct and registered. -/
theorem exec_release : exec step s (l.map .release) = some t ↔
    l.Nodup ∧ (∀ r ∈ l, s r = true) ∧ (fun r => s r && decide (r ∉ l)) = t := by
  induction l generalizing s with
  | nil => simp
  | cons r l ih =>
    simp only [List.map_cons, exec_cons_eq_some, step_release_eq_some, ih, List.nodup_cons]
    constructor
    · rintro ⟨u, ⟨hr, rfl⟩, hl, hs, rfl⟩
      have hne : r ∉ l := fun hmem => by simpa using hs r hmem
      refine ⟨⟨hne, hl⟩, ?_, ?_⟩
      · rintro x (_ | ⟨_, hx⟩)
        · exact hr
        · simpa [ne_of_mem_of_not_mem hx hne] using hs x hx
      · ext x
        by_cases hx : x = r
        · simp [hx]
        · simp [hx]
    · rintro ⟨⟨hne, hl⟩, hs, rfl⟩
      refine ⟨_, ⟨hs r (by simp), rfl⟩, hl, ?_, ?_⟩
      · intro x hx
        rw [Function.update_of_ne (ne_of_mem_of_not_mem hx hne)]
        exact hs x (List.mem_cons_of_mem _ hx)
      · ext x
        by_cases hx : x = r
        · simp [hx]
        · simp [hx]

/-- A list of releases that leaves nothing releases each name as often as it is registered. -/
theorem exec_release_all : exec step s (l.map .release) = some empty ↔
    ∀ r, l.count r = if s r then 1 else 0 := by
  rw [exec_release]
  constructor
  · rintro ⟨hl, hs, hempty⟩ r
    have hr := congrFun hempty r
    by_cases hmem : r ∈ l
    · rw [List.count_eq_one_of_mem hl hmem, if_pos (hs r hmem)]
    · have hfree : s r = false := by simpa [hmem, empty] using hr
      rw [List.count_eq_zero_of_not_mem hmem, hfree, if_neg Bool.false_ne_true]
  · intro h
    have hmem : ∀ r ∈ l, s r = true := by
      intro r hr
      by_contra hs
      have hcount := h r
      rw [if_neg hs] at hcount
      exact List.count_eq_zero.1 hcount hr
    refine ⟨List.nodup_iff_count_le_one.2 fun r => ?_, hmem, ?_⟩
    · rw [h r]
      split <;> omega
    · ext r
      by_cases hs : s r = true
      · have hcount := h r
        rw [if_pos hs] at hcount
        have hr : r ∈ l := List.count_pos_iff.1 (by omega)
        simp [empty, hr]
      · simp [empty, hs]

/-- What has been registered can be released the other way round. -/
theorem exec_release_reverse (hl : l.Nodup) :
    exec step (fun r => decide (r ∈ l)) (l.reverse.map .release) = some empty := by
  refine exec_release_all.2 fun r => ?_
  rw [List.count_reverse, hl.count]
  simp only [decide_eq_true_eq]

theorem exec_register_empty (hl : l.Nodup) :
    exec step empty (l.map .register) = some fun r => decide (r ∈ l) := by
  rw [exec_register (s := empty) hl fun r _ => rfl]
  rfl

end Registry
