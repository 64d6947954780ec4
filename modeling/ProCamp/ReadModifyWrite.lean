import Mathlib.Algebra.GroupWithZero.Nat
import Mathlib.Data.Nat.Cast.Defs
import Mathlib.Logic.Function.Basic
import ProCamp.Machine

/-!
# Read-modify-write

A variable that several agents add to without a lock : each loads it, and stores what it has
loaded with its own amount added. A store that finds the variable changed since the load
overwrites the updates in between.

A value is kept with the updates it is made of, and `log` has every update stored. The
variable holds the sum of the updates it is made of, and these are some of those in the log,
in their order (`Shared.inv_step`). Where each store finds the variable as it was loaded they
are all of them (`Shared.updates_eq_log_step`).
-/

namespace ReadModifyWrite

open Machine

/-- A value, and the updates it is made of. -/
structure Copy (U A : Type*) where
  value : A
  updates : List U
  deriving DecidableEq

/-- The variable, what each agent has loaded, and every update stored. -/
structure Shared (ι U A : Type*) where
  cell : Copy U A
  regs : ι → Option (Copy U A)
  log : List U

/-- The two accesses of an update. -/
inductive Act (ι U : Type*) where
  | load (i : ι)
  /-- Agent `i` stores what it has loaded, updated by `u`. -/
  | store (i : ι) (u : U)

variable {ι U A : Type*} [AddMonoidWithOne A] {amount : U → ℕ}

/-- The value updated by `u`. -/
def Copy.add (amount : U → ℕ) (c : Copy U A) (u : U) : Copy U A :=
  ⟨c.value + amount u, c.updates ++ [u]⟩

/-- A value is the sum of its updates, and they are in the log, in this order. -/
structure Copy.Made (amount : U → ℕ) (log : List U) (c : Copy U A) : Prop where
  value : c.value = ((c.updates.map amount).sum : ℕ)
  sublist : c.updates.Sublist log

variable {c : Copy U A} {log : List U}

theorem Copy.Made.mono (h : c.Made amount log) (u : U) : c.Made amount (log ++ [u]) :=
  ⟨h.value, h.sublist.trans (List.sublist_append_left log [u])⟩

theorem Copy.Made.add (h : c.Made amount log) (u : U) :
    (c.add amount u).Made amount (log ++ [u]) := by
  refine ⟨?_, h.sublist.append (List.Sublist.refl [u])⟩
  simp [Copy.add, h.value]

namespace Shared

/-- The variable is 0, and nobody has loaded it. -/
def init : Shared ι U A where
  cell := ⟨0, []⟩
  regs _ := none
  log := []

/-- The variable and what is loaded of it are made of updates in the log. -/
structure Inv (amount : U → ℕ) (s : Shared ι U A) : Prop where
  cell : s.cell.Made amount s.log
  regs : ∀ i c, s.regs i = some c → c.Made amount s.log

theorem inv_init : Inv amount (init : Shared ι U A) :=
  ⟨⟨by simp [init], List.Sublist.refl _⟩, fun _ _ h => nomatch h⟩

/-- A store finds the variable as it was loaded. -/
def Undisturbed (s : Shared ι U A) : Act ι U → Shared ι U A → Prop
  | .load _, _ => True
  | .store i _, _ => s.regs i = some s.cell

variable [DecidableEq ι]

/-- One access. -/
def step (amount : U → ℕ) (s : Shared ι U A) : Act ι U → Option (Shared ι U A)
  | .load i => some { s with regs := Function.update s.regs i (some s.cell) }
  | .store i u =>
    (s.regs i).map fun c =>
      { cell := c.add amount u
        regs := Function.update s.regs i none
        log := s.log ++ [u] }

variable {s t : Shared ι U A} {a : Act ι U} {i : ι} {u : U}

theorem step_store (h : s.step amount (.store i u) = some t) : ∃ c, s.regs i = some c ∧
    t = ⟨c.add amount u, Function.update s.regs i none, s.log ++ [u]⟩ := by
  obtain ⟨c, hc, rfl⟩ := Option.map_eq_some_iff.1 h
  exact ⟨c, hc, rfl⟩

theorem inv_step (hinv : s.Inv amount) (h : s.step amount a = some t) : t.Inv amount := by
  cases a with
  | load i =>
    cases h
    refine ⟨hinv.cell, fun j c hc => ?_⟩
    by_cases hj : j = i
    · subst hj
      obtain rfl : s.cell = c := by simpa using hc
      exact hinv.cell
    · exact hinv.regs j c (by simpa [hj] using hc)
  | store i u =>
    obtain ⟨c, hc, rfl⟩ := step_store h
    refine ⟨(hinv.regs i c hc).add u, fun j d hd => ?_⟩
    by_cases hj : j = i
    · simp [hj] at hd
    · exact (hinv.regs j d (by simpa [hj] using hd)).mono u

/-- Undisturbed, no update is lost. -/
theorem updates_eq_log_step (hall : s.cell.updates = s.log) (hundisturbed : s.Undisturbed a t)
    (h : s.step amount a = some t) : t.cell.updates = t.log := by
  cases a with
  | load i =>
    cases h
    exact hall
  | store i u =>
    obtain ⟨c, hc, rfl⟩ := step_store h
    obtain rfl := Option.some.inj (hundisturbed.symm.trans hc)
    simp [Copy.add, hall]

end Shared

end ReadModifyWrite
