import Mathlib.Data.List.Basic
import Mathlib.Data.List.GetD

/-!
# Strings in memory

A string is the bytes up to the first NUL. `cString` finds it at the start of a piece of
memory, and `strncpy` is the loop of the function : it stores as many bytes as it is told to,
of the string and then of its NUL.
-/

namespace CString

/-- The bytes up to the first NUL. -/
def cText (bytes : List UInt8) : List UInt8 :=
  bytes.takeWhile (· ≠ 0)

/-- The string at the start of some memory, if it ends there. -/
def cString (bytes : List UInt8) : Option (List UInt8) :=
  if 0 ∈ bytes then some (cText bytes) else none

/-- What `strncpy` stores. -/
def strncpy : ℕ → List UInt8 → List UInt8
  | 0, _ => []
  | _ + 1, [] => []
  | n + 1, c :: src => c :: strncpy n (if c = 0 then c :: src else src)

variable {bytes src : List UInt8} {n : ℕ}

theorem zero_notMem_cText (bytes : List UInt8) : 0 ∉ cText bytes := by
  intro h
  simpa using List.all_eq_true.1 List.all_takeWhile 0 h

theorem length_cText_le (bytes : List UInt8) : (cText bytes).length ≤ bytes.length :=
  (List.takeWhile_prefix _).length_le

theorem cText_append_cons (h : 0 ∉ bytes) (rest : List UInt8) :
    cText (bytes ++ 0 :: rest) = bytes := by
  have hall : ∀ b ∈ bytes, b ≠ 0 := fun b hb heq => h (heq ▸ hb)
  rw [cText, List.takeWhile_append_of_pos (by simpa using hall)]
  simp

/-- A NUL ends the string before it. -/
theorem cString_append_cons (h : 0 ∉ bytes) (rest : List UInt8) :
    cString (bytes ++ 0 :: rest) = some bytes := by
  rw [cString, if_pos (by simp), cText_append_cons h]

theorem cString_append_replicate (h : 0 ∉ bytes) (hn : 0 < n) :
    cString (bytes ++ List.replicate n 0) = some bytes := by
  cases n with
  | zero => exact absurd hn (Nat.lt_irrefl 0)
  | succ n => rw [List.replicate_succ, cString_append_cons h]

/-- A NUL behind some bytes ends the string they begin with. -/
theorem cText_append_singleton (bytes : List UInt8) : cText (bytes ++ [0]) = cText bytes := by
  induction bytes with
  | nil => rfl
  | cons b bytes ih =>
    by_cases hb : b = 0
    · simp [cText, hb]
    · simpa [cText, hb] using ih

theorem length_strncpy (h : 0 ∈ src) : (strncpy n src).length = n := by
  induction n generalizing src with
  | zero => rfl
  | succ n ih =>
    cases src with
    | nil => exact absurd h (List.not_mem_nil)
    | cons c src =>
      have hrest : 0 ∈ (if c = 0 then c :: src else src) := by
        split_ifs with hc
        · exact hc ▸ List.mem_cons_self
        · exact (List.mem_cons.1 h).resolve_left (Ne.symm hc)
      rw [strncpy, List.length_cons, ih hrest]

/-- Where there is room for the string, the rest is filled with NULs. -/
theorem strncpy_eq (h : 0 ∈ src) (hn : (cText src).length ≤ n) :
    strncpy n src = cText src ++ List.replicate (n - (cText src).length) 0 := by
  induction n generalizing src with
  | zero => simp [strncpy, List.length_eq_zero_iff.1 (Nat.le_zero.1 hn)]
  | succ n ih =>
    cases src with
    | nil => exact absurd h (List.not_mem_nil)
    | cons c src =>
      by_cases hc : c = 0
      · subst hc
        have hnil : cText (0 :: src) = [] := rfl
        rw [strncpy, if_pos rfl, ih h (by simp [hnil]), hnil]
        simp [List.replicate_succ]
      · have hcons : cText (c :: src) = c :: cText src := by simp [cText, hc]
        rw [hcons, List.length_cons] at hn
        rw [strncpy, if_neg hc, hcons,
          ih ((List.mem_cons.1 h).resolve_left (Ne.symm hc)) (by omega)]
        simp

end CString
