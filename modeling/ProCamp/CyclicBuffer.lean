import Mathlib.Data.List.Basic
import Mathlib.Data.List.GetD

/-!
# Cyclic buffers

A buffer of `N` cells is a function on indices of which the cells below `N` count.
`contents N buf r w` is the cyclic segment from the read position `r` to the write
position `w`. At most `N - 1` cells are occupied : `r = w` is the empty buffer.

`contents_append` and `contents_drop` say what moving a position past some cells
does, for any number of cells at once; a position may stand on `N` until it is
wrapped to `0` (`contents_wrap_left`, `contents_wrap_right`).
-/

namespace CyclicBuffer

variable {α : Type*} {N : ℕ}

/-- The `len` cells from `start` on, cyclically. -/
def segment (N : ℕ) (buf : ℕ → α) (start len : ℕ) : List α :=
  (List.range len).map fun k => buf ((start + k) % N)

/-- The number of cells from `r` to `w`, cyclically. -/
def dist (N r w : ℕ) : ℕ :=
  (w + N - r) % N

/-- The occupied cells, oldest first. -/
def contents (N : ℕ) (buf : ℕ → α) (r w : ℕ) : List α :=
  segment N buf r (dist N r w)

/-- `buf` with `xs` written from index `i` on, without wrapping. -/
def store (buf : ℕ → α) (i : ℕ) (xs : List α) (k : ℕ) : α :=
  if i ≤ k then xs.getD (k - i) (buf k) else buf k

/-- `buf` with the cells `cells` as in `new`. -/
def overlay (cells : List ℕ) (new buf : ℕ → α) (k : ℕ) : α :=
  if k ∈ cells then new k else buf k

/-! ## Segments -/

@[simp] theorem length_segment (buf : ℕ → α) (start len : ℕ) :
    (segment N buf start len).length = len := by
  simp [segment]

@[simp] theorem segment_zero (buf : ℕ → α) (start : ℕ) : segment N buf start 0 = [] :=
  rfl

theorem segment_add (buf : ℕ → α) (start a b : ℕ) :
    segment N buf start (a + b) = segment N buf start a ++ segment N buf (start + a) b := by
  simp [segment, List.range_add, Function.comp_def, Nat.add_assoc]

theorem segment_congr {buf buf' : ℕ → α} {start start' len : ℕ}
    (h : ∀ k < len, buf ((start + k) % N) = buf' ((start' + k) % N)) :
    segment N buf start len = segment N buf' start' len := by
  unfold segment
  exact List.map_congr_left fun k hk => h k (List.mem_range.1 hk)

theorem segment_mod (buf : ℕ → α) (start len : ℕ) :
    segment N buf (start % N) len = segment N buf start len :=
  segment_congr fun k _ => by rw [Nat.mod_add_mod]

/-- A segment that does not wrap is a plain range of cells. -/
theorem segment_eq_range' (buf : ℕ → α) {start len : ℕ} (h : start + len ≤ N) :
    segment N buf start len = (List.range' start len).map buf := by
  rw [segment, List.range'_eq_map_range, List.map_map]
  refine List.map_congr_left fun k hk => ?_
  rw [Nat.mod_eq_of_lt (by have := List.mem_range.1 hk; omega)]
  rfl

/-! ## Writing -/

theorem store_of_lt (buf : ℕ → α) {i k : ℕ} (xs : List α) (h : k < i) :
    store buf i xs k = buf k :=
  if_neg (by omega)

theorem store_of_ge (buf : ℕ → α) {i k : ℕ} {xs : List α} (h : i + xs.length ≤ k) :
    store buf i xs k = buf k := by
  rw [store, if_pos (by omega), List.getD_eq_default _ _ (by omega)]

theorem store_add (buf : ℕ → α) (i : ℕ) {xs : List α} {j : ℕ} (h : j < xs.length) :
    store buf i xs (i + j) = xs[j] := by
  rw [store, if_pos (by omega), Nat.add_sub_cancel_left, List.getD_eq_getElem _ _ h]

@[simp] theorem store_nil (buf : ℕ → α) (i : ℕ) : store buf i [] = buf := by
  funext k
  simp [store]

@[simp] theorem overlay_nil (new buf : ℕ → α) : overlay [] new buf = buf :=
  rfl

theorem overlay_of_not_mem {cells : List ℕ} {k : ℕ} (new buf : ℕ → α) (h : k ∉ cells) :
    overlay cells new buf k = buf k :=
  if_neg h

/-- Cells that are the same already. -/
theorem overlay_eq {cells : List ℕ} {new buf : ℕ → α} (h : ∀ k ∈ cells, buf k = new k) :
    overlay cells new buf = buf := by
  funext k
  unfold overlay
  split_ifs with hk
  · exact (h k hk).symm
  · rfl

/-- The cells a write is to are all it changes. -/
theorem overlay_store {w n : ℕ} {xs : List α} (hlen : xs.length = n) (old buf : ℕ → α) :
    overlay (List.range' w n) (store old w xs) buf = store buf w xs := by
  funext k
  unfold overlay
  split_ifs with hk
  · obtain ⟨hge, hlt⟩ := List.mem_range'_1.1 hk
    obtain ⟨j, rfl⟩ := Nat.exists_eq_add_of_le hge
    rw [store_add old w (by omega), store_add buf w (by omega)]
  · rw [List.mem_range'_1] at hk
    rcases Nat.lt_or_ge k w with hlt | hge
    · rw [store_of_lt buf xs hlt]
    · rw [store_of_ge buf (by omega)]

/-- The segment just written holds what was written. -/
theorem segment_store_self (buf : ℕ → α) {i : ℕ} {xs : List α} (h : i + xs.length ≤ N) :
    segment N (store buf i xs) i xs.length = xs := by
  refine List.ext_getElem (by simp) fun j hj hj' => ?_
  simp only [segment, List.getElem_map, List.getElem_range]
  rw [Nat.mod_eq_of_lt (by omega), store_add buf i hj']

/-- A segment keeps its cells under a write to other cells. -/
theorem segment_store_of_disjoint (buf : ℕ → α) {i start len : ℕ} {xs : List α}
    (h : ∀ k < len, (start + k) % N < i ∨ i + xs.length ≤ (start + k) % N) :
    segment N (store buf i xs) start len = segment N buf start len := by
  refine segment_congr fun k hk => ?_
  rcases h k hk with hlt | hge
  · exact store_of_lt buf xs hlt
  · exact store_of_ge buf hge

/-! ## Distances -/

theorem dist_lt (h : 0 < N) (r w : ℕ) : dist N r w < N :=
  Nat.mod_lt _ h

@[simp] theorem dist_self (r : ℕ) : dist N r r = 0 := by
  simp [dist]

theorem dist_of_le {r w : ℕ} (hrw : r ≤ w) (hw : w - r < N) : dist N r w = w - r := by
  rw [dist, show w + N - r = w - r + N by omega, Nat.add_mod_right, Nat.mod_eq_of_lt hw]

theorem dist_of_gt {r w : ℕ} (hwr : w < r) (hr : r < N) : dist N r w = w + N - r := by
  rw [dist, Nat.mod_eq_of_lt (by omega)]

theorem dist_add_right {r w m : ℕ} (hr : r ≤ N) (h : dist N r w + m < N) :
    dist N r (w + m) = dist N r w + m := by
  unfold dist at h ⊢
  rw [show w + m + N - r = w + N - r + m by omega, Nat.add_mod,
    Nat.mod_eq_of_lt (show m < N by omega), Nat.mod_eq_of_lt h]

theorem dist_add_left {r w m : ℕ} (hr : r + m ≤ N) (h : m ≤ dist N r w) :
    dist N (r + m) w = dist N r w - m := by
  rcases Nat.eq_zero_or_pos N with rfl | hN
  · obtain rfl : m = 0 := by omega
    simp
  have hm : m < N := Nat.lt_of_le_of_lt h (dist_lt hN r w)
  unfold dist at h ⊢
  have hsplit : w + N - r = w + N - (r + m) + m := by omega
  have hx := Nat.mod_lt (w + N - (r + m)) hN
  rw [hsplit, Nat.add_mod, Nat.mod_eq_of_lt hm] at h ⊢
  rcases Nat.lt_or_ge ((w + N - (r + m)) % N + m) N with hlt | hge
  · rw [Nat.mod_eq_of_lt hlt]
    omega
  · rw [Nat.mod_eq_sub_mod hge, Nat.mod_eq_of_lt (by omega)] at h
    omega

/-! ## Contents -/

@[simp] theorem length_contents (buf : ℕ → α) (r w : ℕ) :
    (contents N buf r w).length = dist N r w :=
  length_segment _ _ _

@[simp] theorem contents_self (buf : ℕ → α) (r : ℕ) : contents N buf r r = [] := by
  simp [contents]

/-- A read position on the end is the start. -/
theorem contents_wrap_left (buf : ℕ → α) (w : ℕ) : contents N buf N w = contents N buf 0 w := by
  have hd : dist N N w = dist N 0 w := by simp [dist]
  unfold contents
  rw [hd]
  exact segment_congr fun k _ => by simp

/-- A write position on the end is the start. -/
theorem contents_wrap_right (buf : ℕ → α) {r : ℕ} (hr : r ≤ N) :
    contents N buf r N = contents N buf r 0 := by
  have hd : dist N r N = dist N r 0 := by
    unfold dist
    rw [show N + N - r = N - r + N by omega, Nat.add_mod_right, Nat.zero_add]
  rw [contents, contents, hd]

/-- Moving the read position past `m` occupied cells takes them off the front. -/
theorem contents_drop (buf : ℕ → α) {r w m : ℕ} (hr : r + m ≤ N) (h : m ≤ dist N r w) :
    contents N buf r w = (List.range' r m).map buf ++ contents N buf (r + m) w := by
  rw [contents, contents, dist_add_left hr h, ← segment_eq_range' buf hr, ← segment_add,
    Nat.add_sub_cancel' h]

/-- No cell from `w` on, as far as free cells go, is occupied. -/
theorem mod_not_mem_free {r w k m : ℕ} (hr : r < N) (hw : w < N) (hk : k < dist N r w)
    (hfree : w < r → w + m ≤ r) (hend : w + m ≤ N) :
    (r + k) % N < w ∨ w + m ≤ (r + k) % N := by
  rcases Nat.lt_or_ge w r with h | h
  · rw [dist_of_gt h hr] at hk
    rcases Nat.lt_or_ge (r + k) N with hlt | hge
    · rw [Nat.mod_eq_of_lt hlt]
      have := hfree h
      omega
    · rw [Nat.mod_eq_sub_mod hge, Nat.mod_eq_of_lt (by omega)]
      omega
  · rw [dist_of_le h (by omega)] at hk
    rw [Nat.mod_eq_of_lt (by omega)]
    omega

/-- A write that stays in the free cells leaves the contents alone. -/
theorem contents_store (buf : ℕ → α) {r w : ℕ} {xs : List α} (hr : r < N) (hw : w < N)
    (hfree : w < r → w + xs.length ≤ r) (hend : w + xs.length ≤ N) :
    contents N (store buf w xs) r w = contents N buf r w :=
  segment_store_of_disjoint buf fun _ hk => mod_not_mem_free hr hw hk hfree hend

/-- Writing into free cells and moving the write position past them puts what was
written at the back. -/
theorem contents_append (buf : ℕ → α) {r w : ℕ} {xs : List α} (hr : r < N) (hw : w < N)
    (hfit : dist N r w + xs.length < N) (hend : w + xs.length ≤ N) :
    contents N (store buf w xs) r (w + xs.length) = contents N buf r w ++ xs := by
  have hfree : w < r → w + xs.length ≤ r := by
    intro h
    rw [dist_of_gt h hr] at hfit
    omega
  rw [contents, dist_add_right (Nat.le_of_lt hr) hfit, segment_add]
  congr 1
  · exact contents_store buf hr hw hfree hend
  · have hmod : (r + dist N r w) % N = w := by
      rcases Nat.lt_or_ge w r with h | h
      · rw [dist_of_gt h hr, show r + (w + N - r) = w + N by omega, Nat.add_mod_right,
          Nat.mod_eq_of_lt hw]
      · rw [dist_of_le h (by omega), Nat.add_sub_cancel' h, Nat.mod_eq_of_lt hw]
    rw [← segment_mod, hmod]
    exact segment_store_self buf hend

end CyclicBuffer
