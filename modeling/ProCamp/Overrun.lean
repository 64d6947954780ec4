import Mathlib.Data.List.TakeDrop
import ProCamp.CyclicBuffer

/-!
# Writing past the read position

A writer that does not look at the read position may run past it. `pushed` and `smeared` are
what the contents are then, in terms of the queue alone : what moves the write position past
`N` cells or more leaves what exceeds them, and what is stored without moving it takes the
place of the oldest items (`contents_push`, `contents_smear`).
-/

namespace CyclicBuffer

variable {α : Type*} {N r w : ℕ} {q xs : List α}

/-- The queue after `xs` were written behind it : from `N` items on, it forgets `N`. -/
def pushed (N : ℕ) (q xs : List α) : List α :=
  if q.length + xs.length < N then q ++ xs else (q ++ xs).drop N

/-- The queue after `xs` were stored behind it and the write position has stayed. -/
def smeared (N : ℕ) (q xs : List α) : List α :=
  (q ++ xs).drop N ++ q.drop (q.length + xs.length - N)

theorem pushed_of_lt (h : q.length + xs.length < N) : pushed N q xs = q ++ xs :=
  if_pos h

theorem smeared_of_le (h : q.length + xs.length ≤ N) : smeared N q xs = q := by
  have hdrop : (q ++ xs).drop N = [] := List.drop_eq_nil_of_le (by simpa using h)
  rw [smeared, hdrop, Nat.sub_eq_zero_of_le h, List.drop_zero, List.nil_append]

/-- A cell that is occupied. -/
theorem store_occupied (buf : ℕ → α) (hr : r < N) (hw : w < N) (hend : w + xs.length ≤ N) {k : ℕ}
    (hk : k < dist N r w) :
    store buf w xs ((r + k) % N) = xs.getD (k + N - dist N r w) (buf ((r + k) % N)) := by
  have hcell : (r + k) % N = w + (k + N - dist N r w) ∨
      (r + k) % N < w ∧ N ≤ w + (k + N - dist N r w) := by
    rcases Nat.lt_or_ge w r with h | h
    · rw [dist_of_gt h hr] at hk ⊢
      rcases Nat.lt_or_ge (r + k) N with hlt | hover
      · rw [Nat.mod_eq_of_lt hlt]
        omega
      · rw [Nat.mod_eq_sub_mod hover, Nat.mod_eq_of_lt (by omega)]
        omega
    · rw [dist_of_le h (by omega)] at hk ⊢
      rw [Nat.mod_eq_of_lt (by omega)]
      omega
  obtain hcell | ⟨hlt, hfar⟩ := hcell
  · rw [hcell, store, if_pos (Nat.le_add_right _ _), Nat.add_sub_cancel_left]
  · rw [store_of_lt buf xs hlt, List.getD_eq_default _ _ (by omega)]

theorem getElem_contents (buf : ℕ → α) {k : ℕ} (hk : k < (contents N buf r w).length) :
    (contents N buf r w)[k] = buf ((r + k) % N) := by
  simp [contents, segment]

/-- The cells that `xs` reaches after a whole round. -/
theorem getElem_append_drop {k : ℕ} (hq : q.length ≤ N) (hk : N + k < q.length + xs.length)
    (default : α) (hlt : k < ((q ++ xs).drop N).length) :
    ((q ++ xs).drop N)[k] = xs.getD (k + N - q.length) default := by
  have hxs : k + N - q.length < xs.length := by omega
  rw [List.getElem_drop, List.getElem_append_right (by omega), List.getD_eq_getElem _ _ hxs]
  congr 1
  omega

/-- `xs` is stored, and the write position stays. -/
theorem contents_smear (buf : ℕ → α) (hr : r < N) (hw : w < N) (hend : w + xs.length ≤ N) :
    contents N (store buf w xs) r w = smeared N (contents N buf r w) xs := by
  have hdist : dist N r w < N := dist_lt (by omega) r w
  unfold smeared
  refine List.ext_getElem (by simp; omega) fun k hk hk' => ?_
  rw [length_contents] at hk
  rw [getElem_contents, store_occupied buf hr hw hend hk]
  by_cases hover : N + k < dist N r w + xs.length
  · rw [List.getElem_append_left (by simpa using by omega),
      getElem_append_drop (by simpa using Nat.le_of_lt hdist) (by simpa using hover)
        (buf ((r + k) % N)),
      length_contents]
  · rw [List.getElem_append_right (by simpa using by omega), List.getElem_drop,
      getElem_contents, List.getD_eq_default _ _ (by omega)]
    congr 3
    simp
    omega

/-- `xs` is stored, and the write position moves past it. -/
theorem contents_push (buf : ℕ → α) (hr : r < N) (hw : w < N) (hend : w + xs.length ≤ N) :
    contents N (store buf w xs) r (w + xs.length) = pushed N (contents N buf r w) xs := by
  have hdist : dist N r w < N := dist_lt (by omega) r w
  unfold pushed
  rw [length_contents]
  split_ifs with hfit
  · exact contents_append buf hr hw hfit hend
  have hround : dist N r (w + xs.length) = dist N r w + xs.length - N := by
    rcases Nat.lt_or_ge w r with h | h
    · rw [dist_of_gt h hr] at hfit ⊢
      rw [dist_of_le (by omega) (by omega)]
      omega
    · rw [dist_of_le h (by omega)] at hfit ⊢
      -- `xs` fills the buffer from the read position to the end
      obtain rfl : r = 0 := by omega
      obtain hend : w + xs.length = N := by omega
      rw [hend, dist, Nat.sub_zero, Nat.add_mod_right, Nat.mod_self]
      omega
  refine List.ext_getElem (by simp [hround]) fun k hk hk' => ?_
  rw [length_contents, hround] at hk
  rw [getElem_contents, store_occupied buf hr hw hend (by omega),
    getElem_append_drop (by simpa using Nat.le_of_lt hdist) (by simpa using by omega)
      (buf ((r + k) % N)),
    length_contents]

end CyclicBuffer
