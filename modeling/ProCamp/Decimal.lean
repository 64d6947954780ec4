import Mathlib.Data.Nat.Digits.Defs
import ProCamp.Numeral

/-!
# Numbers printed

`digitsOf` writes a natural number without leading zeros and `ofInt` an integer, as `%u` and
`%d` do in base 10. What is printed denotes the number (`denotes_ofInt`), and no text denotes
two (`Denotes.unique`).
-/

namespace Numeral

variable {base n : ℕ} {s : List UInt8} {v w : ℤ}

/-- The character of a digit. -/
def digitChar (d : ℕ) : UInt8 :=
  UInt8.ofNat (48 + d)

/-- The digits of a number, without leading zeros. -/
def digitsOf (base n : ℕ) : List UInt8 :=
  if n = 0 then [digitChar 0] else (Nat.digits base n).reverse.map digitChar

/-- The text of an integer, with a sign if it is negative. -/
def ofInt (base : ℕ) (v : ℤ) : List UInt8 :=
  if v < 0 then minus :: digitsOf base v.natAbs else digitsOf base v.natAbs

theorem toNat_digitChar {d : ℕ} (hd : d < base) (hbase : base ≤ 10) :
    (digitChar d).toNat = 48 + d := by
  have hlt : 48 + d < 2 ^ 8 := by omega
  simpa [digitChar] using Nat.mod_eq_of_lt hlt

theorem isDigit_digitChar {d : ℕ} (hd : d < base) (hbase : base ≤ 10) :
    isDigit base (digitChar d) := by
  simp only [isDigit, toNat_digitChar hd hbase, decide_eq_true_eq]
  omega

/-- The digits of a number have its value. -/
theorem value_digits (hbase : base ≤ 10) {ds : List ℕ} (hds : ∀ d ∈ ds, d < base) :
    value base (ds.reverse.map digitChar) = Nat.ofDigits base ds := by
  induction ds with
  | nil => rfl
  | cons d ds ih =>
    have hd := toNat_digitChar (hds d List.mem_cons_self) hbase
    rw [List.reverse_cons, List.map_append, List.map_singleton, value_append_singleton,
      ih fun e he => hds e (List.mem_cons_of_mem d he), hd, Nat.ofDigits_cons]
    omega

theorem denotesUnsigned_digitsOf (h1 : 1 < base) (hbase : base ≤ 10) (n : ℕ) :
    DenotesUnsigned base (digitsOf base n ++ [newline]) n := by
  unfold digitsOf
  split_ifs with hzero
  · subst hzero
    refine ⟨[digitChar 0], by simp, ?_, Or.inr rfl, ?_⟩
    · simpa using isDigit_digitChar (by omega) hbase
    · simp [value, toNat_digitChar (show 0 < base by omega) hbase]
  · have hlt : ∀ d ∈ Nat.digits base n, d < base := fun d hd => Nat.digits_lt_base h1 hd
    refine ⟨(Nat.digits base n).reverse.map digitChar, ?_, ?_, Or.inr rfl, ?_⟩
    · simpa [Nat.digits_ne_nil_iff_ne_zero] using hzero
    · intro c hc
      obtain ⟨d, hd, rfl⟩ := List.mem_map.1 hc
      exact isDigit_digitChar (hlt d (List.mem_reverse.1 hd)) hbase
    · rw [value_digits hbase hlt, Nat.ofDigits_digits]

/-- What is printed, and a newline, denotes the number. -/
theorem denotes_ofInt (h1 : 1 < base) (hbase : base ≤ 10) (v : ℤ) :
    Denotes base (ofInt base v ++ [newline]) v := by
  unfold ofInt
  split_ifs with hneg
  · refine ⟨_, _, denotesUnsigned_digitsOf h1 hbase v.natAbs, Or.inr ⟨rfl, ?_⟩⟩
    omega
  · refine ⟨_, _, denotesUnsigned_digitsOf h1 hbase v.natAbs, Or.inl ⟨Or.inl rfl, ?_⟩⟩
    omega

/-- A text denotes one number at most. -/
theorem Denotes.unique (hv : Denotes base s v) (hw : Denotes base s w) : v = w :=
  Option.some.inj ((signed_eq_some_iff.2 hv).symm.trans (signed_eq_some_iff.2 hw))

/-- A number has no NUL in its text. -/
theorem Denotes.zero_notMem (h : Denotes base s v) : 0 ∉ s := by
  obtain ⟨t, n, ⟨digits, -, hdigits, ht, -⟩, hs⟩ := h
  have hzero : 0 ∉ digits := fun hmem => by
    have hdigit := hdigits 0 hmem
    simp [isDigit] at hdigit
  have hnewline : (0 : UInt8) ≠ newline := by decide
  have hplus : (0 : UInt8) ≠ plus := by decide
  have hminus : (0 : UInt8) ≠ minus := by decide
  have hzero' : 0 ∉ t := by
    rcases ht with rfl | rfl
    · exact hzero
    · simpa [hnewline] using hzero
  rcases hs with ⟨rfl | rfl, -⟩ | ⟨rfl, -⟩
  · exact hzero'
  · simpa [hplus] using hzero'
  · simpa [hminus] using hzero'

end Numeral
