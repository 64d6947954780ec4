import Mathlib.Data.List.Basic
import Mathlib.Logic.Function.Basic

/-!
# Entries set up in turn

An array is filled from a list, one entry after the other, until an entry fails : `run` is
the error, if any, the index at which it stops, and the array. `run_spec` splits the list at
that point. Before it every entry is as its own step leaves it, behind it the array is as it
was.
-/

namespace FillUntil

variable {α β ε : Type*} {f : α → β → Option ε × β}

/-- The entries of `xs` go to the cells from `i` on. -/
def run (f : α → β → Option ε × β) : List α → ℕ → (ℕ → β) → Option ε × ℕ × (ℕ → β)
  | [], i, cells => (none, i, cells)
  | x :: xs, i, cells =>
    match f x (cells i) with
    | (some err, b) => (some err, i, Function.update cells i b)
    | (none, b) => run f xs (i + 1) (Function.update cells i b)

theorem run_of_error {x : α} {i : ℕ} {cells : ℕ → β} {err : ε} {b : β}
    (h : f x (cells i) = (some err, b)) (xs : List α) :
    run f (x :: xs) i cells = (some err, i, Function.update cells i b) := by
  simp only [run, h]

theorem run_of_ok {x : α} {i : ℕ} {cells : ℕ → β} {b : β} (h : f x (cells i) = (none, b))
    (xs : List α) : run f (x :: xs) i cells = run f xs (i + 1) (Function.update cells i b) := by
  simp only [run, h]

/-- `pre` is what of a list has been put into `cells`, from `i` on, and `post` what has not :
nothing, or it begins with the entry that has failed. -/
structure Stopped (f : α → β → Option ε × β) (i : ℕ) (cells : ℕ → β) (pre post : List α)
    (r : Option ε × ℕ × (ℕ → β)) : Prop where
  index : r.2.1 = i + pre.length
  filled : ∀ k x, pre[k]? = some x → f x (cells (i + k)) = (none, r.2.2 (i + k))
  before : ∀ j < i, r.2.2 j = cells j
  behind : ∀ j, i + pre.length < j → r.2.2 j = cells j
  failed : ∀ x ∈ post.head?, ∃ err, r.1 = some err ∧
    f x (cells (i + pre.length)) = (some err, r.2.2 (i + pre.length))
  ok : post = [] → r.1 = none

theorem run_spec (f : α → β → Option ε × β) (xs : List α) (i : ℕ) (cells : ℕ → β) :
    ∃ pre post, xs = pre ++ post ∧ Stopped f i cells pre post (run f xs i cells) := by
  induction xs generalizing i cells with
  | nil => exact ⟨[], [], rfl, rfl, by simp, fun _ _ => rfl, fun _ _ => rfl, by simp, fun _ => rfl⟩
  | cons x xs ih =>
    cases hx : f x (cells i) with
    | mk ret b =>
      cases ret with
      | some err =>
        refine ⟨[], x :: xs, rfl, ?_⟩
        rw [run_of_error hx]
        refine ⟨rfl, by simp, fun j hj => ?_, fun j hj => ?_, ?_, by simp⟩
        · exact Function.update_of_ne (by omega) _ _
        · exact Function.update_of_ne (by simp at hj; omega) _ _
        · simpa using hx
      | none =>
        obtain ⟨pre, post, rfl, h⟩ := ih (i + 1) (Function.update cells i b)
        have hcells : ∀ j, i < j → Function.update cells i b j = cells j :=
          fun j hj => Function.update_of_ne (by omega) _ _
        refine ⟨x :: pre, post, rfl, ?_⟩
        rw [run_of_ok hx]
        have hlen : i + (x :: pre).length = i + 1 + pre.length := by simp; omega
        refine ⟨by rw [h.index, hlen], ?_, fun j hj => ?_, fun j hj => ?_, fun y hy => ?_, h.ok⟩
        · rintro (_ | k) y hy
          · obtain rfl : x = y := by simpa using hy
            have hcell := h.before i (by omega)
            rw [Function.update_self] at hcell
            rw [Nat.add_zero, hx, hcell]
          · have hfilled := h.filled k y (by simpa using hy)
            rw [hcells _ (by omega)] at hfilled
            rw [show i + (k + 1) = i + 1 + k by omega, hfilled]
        · rw [h.before j (by omega)]
          exact Function.update_of_ne (by omega) _ _
        · rw [hlen] at hj
          rw [h.behind j hj, hcells j (by omega)]
        · obtain ⟨err, hret, hfailed⟩ := h.failed y hy
          rw [hcells _ (by omega)] at hfailed
          exact ⟨err, hret, by rw [hlen]; exact hfailed⟩

end FillUntil
