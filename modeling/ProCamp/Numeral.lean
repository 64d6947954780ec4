import Mathlib.Algebra.Order.Ring.Int
import Mathlib.Data.List.Induction
import Mathlib.Data.List.TakeWhile

/-!
# Numbers as text

A number in base `base`, at most 10, is written as an optional sign, at least one digit and
an optional newline. `signed` reads it; `Denotes` says what text denotes which integer, and
`signed_eq_some_iff` that the two agree.
-/

namespace Numeral

/-- `'\n'`. -/
def newline : UInt8 := 10

/-- `'+'`. -/
def plus : UInt8 := 43

/-- `'-'`. -/
def minus : UInt8 := 45

/-- `'0'` and the digits after it. -/
def isDigit (base : ℕ) (c : UInt8) : Bool :=
  48 ≤ c.toNat ∧ c.toNat < 48 + base

/-- The number the digits stand for. -/
def value (base : ℕ) (digits : List UInt8) : ℕ :=
  digits.foldl (fun v c => base * v + (c.toNat - 48)) 0

/-- Digits to the end, or to a newline at the end. -/
def unsigned (base : ℕ) (s : List UInt8) : Option ℕ :=
  let digits := s.takeWhile (isDigit base)
  let rest := s.dropWhile (isDigit base)
  if digits ≠ [] ∧ (rest = [] ∨ rest = [newline]) then some (value base digits) else none

/-- A sign, and what `unsigned` reads after it. -/
def signed (base : ℕ) : List UInt8 → Option ℤ
  | [] => none
  | c :: s =>
    if c = minus then (unsigned base s).map fun n : ℕ => -(n : ℤ)
    else if c = plus then (unsigned base s).map fun n : ℕ => (n : ℤ)
    else (unsigned base (c :: s)).map fun n : ℕ => (n : ℤ)

/-- The text of a number without a sign. -/
def DenotesUnsigned (base : ℕ) (s : List UInt8) (n : ℕ) : Prop :=
  ∃ digits, digits ≠ [] ∧ (∀ c ∈ digits, isDigit base c) ∧
    (s = digits ∨ s = digits ++ [newline]) ∧ n = value base digits

/-- The text of an integer. -/
def Denotes (base : ℕ) (s : List UInt8) (v : ℤ) : Prop :=
  ∃ t n, DenotesUnsigned base t n ∧
    ((s = t ∨ s = plus :: t) ∧ v = n ∨ s = minus :: t ∧ v = -n)

variable {base n : ℕ} {s digits : List UInt8} {v : ℤ} {c : UInt8}

theorem of_isDigit (h : isDigit base c) : c ≠ newline ∧ c ≠ plus ∧ c ≠ minus := by
  simp only [isDigit, decide_eq_true_eq] at h
  refine ⟨?_, ?_, ?_⟩ <;> rintro rfl <;> simp [newline, plus, minus] at h

theorem unsigned_eq_some_iff : unsigned base s = some n ↔ DenotesUnsigned base s n := by
  unfold unsigned DenotesUnsigned
  constructor
  · intro h
    dsimp only at h
    split_ifs at h with hread
    obtain ⟨hne, hrest⟩ := hread
    refine ⟨s.takeWhile (isDigit base), hne, List.all_eq_true.1 List.all_takeWhile, ?_,
      (Option.some.inj h).symm⟩
    have hsplit := List.takeWhile_append_dropWhile (p := isDigit base) (l := s)
    rcases hrest with hrest | hrest
    · rw [hrest, List.append_nil] at hsplit
      exact Or.inl hsplit.symm
    · rw [hrest] at hsplit
      exact Or.inr hsplit.symm
  · rintro ⟨digits, hne, hdigits, rfl | rfl, rfl⟩
    · simp [List.takeWhile_eq_self_iff.2 hdigits, List.dropWhile_eq_nil_iff.2 hdigits, hne]
    · have hnewline : isDigit base newline = false := by
        by_contra hdigit
        exact (of_isDigit (Bool.not_eq_false _ ▸ hdigit)).1 rfl
      have htake : (digits ++ [newline]).takeWhile (isDigit base) = digits := by
        rw [List.takeWhile_append_of_pos hdigits]
        simp [hnewline]
      have hdrop : (digits ++ [newline]).dropWhile (isDigit base) = [newline] := by
        rw [List.dropWhile_append_of_pos hdigits]
        simp [hnewline]
      simp [htake, hdrop, hne]

theorem DenotesUnsigned.ne_nil (h : DenotesUnsigned base s n) : s ≠ [] := by
  obtain ⟨digits, hne, -, rfl | rfl, -⟩ := h
  · exact hne
  · simp

/-- A number without a sign begins with a digit. -/
theorem DenotesUnsigned.head (h : DenotesUnsigned base (c :: s) n) : isDigit base c := by
  obtain ⟨digits, hne, hdigits, hs, -⟩ := h
  cases digits with
  | nil => exact absurd rfl hne
  | cons d digits =>
    have hc : c = d := by
      rcases hs with hs | hs
      · exact (List.cons.inj hs).1
      · exact (List.cons.inj hs).1
    exact hc ▸ hdigits d List.mem_cons_self

theorem denotes_minus_iff : Denotes base (minus :: s) v ↔
    ∃ n, DenotesUnsigned base s n ∧ v = -(n : ℤ) := by
  constructor
  · rintro ⟨t, n, ht, ⟨rfl | hs, -⟩ | ⟨hs, rfl⟩⟩
    · exact absurd rfl (of_isDigit ht.head).2.2
    · cases hs
    · exact ⟨n, (List.cons.inj hs).2 ▸ ht, rfl⟩
  · rintro ⟨n, hn, rfl⟩
    exact ⟨s, n, hn, Or.inr ⟨rfl, rfl⟩⟩

theorem denotes_plus_iff : Denotes base (plus :: s) v ↔
    ∃ n, DenotesUnsigned base s n ∧ v = (n : ℤ) := by
  constructor
  · rintro ⟨t, n, ht, ⟨rfl | hs, rfl⟩ | ⟨hs, -⟩⟩
    · exact absurd rfl (of_isDigit ht.head).2.1
    · exact ⟨n, (List.cons.inj hs).2 ▸ ht, rfl⟩
    · cases hs
  · rintro ⟨n, hn, rfl⟩
    exact ⟨s, n, hn, Or.inl ⟨Or.inr rfl, rfl⟩⟩

theorem denotes_cons_iff (hminus : c ≠ minus) (hplus : c ≠ plus) : Denotes base (c :: s) v ↔
    ∃ n, DenotesUnsigned base (c :: s) n ∧ v = (n : ℤ) := by
  constructor
  · rintro ⟨t, n, ht, ⟨rfl | hs, rfl⟩ | ⟨hs, -⟩⟩
    · exact ⟨n, ht, rfl⟩
    · exact absurd (List.cons.inj hs).1 hplus
    · exact absurd (List.cons.inj hs).1 hminus
  · rintro ⟨n, hn, rfl⟩
    exact ⟨c :: s, n, hn, Or.inl ⟨Or.inl rfl, rfl⟩⟩

theorem Denotes.ne_nil (h : Denotes base s v) : s ≠ [] := by
  obtain ⟨t, n, ht, ⟨rfl | rfl, -⟩ | ⟨rfl, -⟩⟩ := h
  · exact ht.ne_nil
  · exact List.cons_ne_nil _ _
  · exact List.cons_ne_nil _ _

/-- What is read is what the text denotes. -/
theorem signed_eq_some_iff : signed base s = some v ↔ Denotes base s v := by
  have hread : ∀ t (f : ℕ → ℤ), (unsigned base t).map f = some v ↔
      ∃ n, DenotesUnsigned base t n ∧ v = f n := by
    intro t f
    simp only [Option.map_eq_some_iff, unsigned_eq_some_iff, eq_comm]
  cases s with
  | nil => exact iff_of_false (by simp [signed]) fun h => h.ne_nil rfl
  | cons c s =>
    simp only [signed]
    split_ifs with hminus hplus
    · rw [hread, hminus, denotes_minus_iff]
    · rw [hread, hplus, denotes_plus_iff]
    · rw [hread, denotes_cons_iff hminus hplus]

/-! ## Bounds -/

theorem value_append_singleton (digits : List UInt8) (c : UInt8) :
    value base (digits ++ [c]) = base * value base digits + (c.toNat - 48) := by
  simp [value, List.foldl_append]

theorem value_lt (hdigits : ∀ c ∈ digits, isDigit base c) :
    value base digits < base ^ digits.length := by
  induction digits using List.reverseRecOn with
  | nil => simp [value]
  | append_singleton digits c ih =>
    have hc := hdigits c (by simp)
    simp only [isDigit, decide_eq_true_eq] at hc
    have hlt := ih fun d hd => hdigits d (by simp [hd])
    rw [value_append_singleton, List.length_append, List.length_singleton, Nat.pow_succ']
    calc base * value base digits + (c.toNat - 48) < base * (value base digits + 1) := by
          rw [Nat.mul_add]
          omega
      _ ≤ base * base ^ digits.length := Nat.mul_le_mul_left base hlt

theorem DenotesUnsigned.lt (h : DenotesUnsigned base s n) (hbase : 0 < base) :
    n < base ^ s.length := by
  obtain ⟨digits, -, hdigits, hs, rfl⟩ := h
  have hle : digits.length ≤ s.length := by
    rcases hs with rfl | rfl <;> simp
  exact (value_lt hdigits).trans_le (Nat.pow_le_pow_right hbase hle)

/-- Short text denotes a small integer. -/
theorem Denotes.natAbs_lt (h : Denotes base s v) (hbase : 0 < base) :
    v.natAbs < base ^ s.length := by
  obtain ⟨t, n, ht, hcase⟩ := h
  have hlt := ht.lt hbase
  have hlen : t.length ≤ s.length := by
    rcases hcase with ⟨rfl | rfl, -⟩ | ⟨rfl, -⟩ <;> simp
  have hpow := Nat.pow_le_pow_right hbase hlen
  rcases hcase with ⟨-, rfl⟩ | ⟨-, rfl⟩ <;> omega

end Numeral
