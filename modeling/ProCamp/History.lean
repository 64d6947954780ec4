import Mathlib.Data.List.Basic
import Mathlib.Data.Option.Basic
import ProCamp.Machine

/-!
# Histories of a shared object

Agents call the operations of an object they share. A history, its latest event first, has
the calls, and for each operation the point at which it takes effect, with its answer. It is
`Legal` where the answers are those of the object taking the operations one after the other,
and `state` is what the object has come to. What an agent has done since its last call is
`opsOf` : an operation found there takes effect between the call and whatever the agent
returns from it. `recording` keeps a history beside a machine.
-/

namespace History

/-- An object that takes one operation at a time. -/
structure Sequential (S Op Ans : Type*) where
  init : S
  next : Op → S → S
  answer : Op → S → Ans

/-- An entry of a history : an agent starts a call, or makes an operation and gets its answer.
-/
inductive Event (A C Op Ans : Type*) where
  | call (a : A) (c : C)
  | op (a : A) (o : Op) (ans : Ans)
  deriving DecidableEq

variable {A C S Op Ans : Type*}

/-- A history with the operation that agent `a` makes, if any. -/
def commit (a : A) (o : Option (Op × Ans)) (h : List (Event A C Op Ans)) :
    List (Event A C Op Ans) :=
  match o with
  | none => h
  | some (o, ans) => .op a o ans :: h

@[simp] theorem commit_none (a : A) (h : List (Event A C Op Ans)) : commit a none h = h :=
  rfl

@[simp] theorem commit_some (a : A) (o : Op) (ans : Ans) (h : List (Event A C Op Ans)) :
    commit a (some (o, ans)) h = .op a o ans :: h :=
  rfl

/-! ## The object -/

section Object

variable (O : Sequential S Op Ans)

/-- The object after the operations of a history. -/
def state : List (Event A C Op Ans) → S
  | [] => O.init
  | .call _ _ :: h => state h
  | .op _ o _ :: h => O.next o (state h)

/-- Every operation has the answer of the object as the earlier ones have left it. -/
def Legal : List (Event A C Op Ans) → Prop
  | [] => True
  | .call _ _ :: h => Legal h
  | .op _ o ans :: h => ans = O.answer o (state O h) ∧ Legal h

variable {O}

@[simp] theorem state_call (a : A) (c : C) (h : List (Event A C Op Ans)) :
    state O (.call a c :: h) = state O h :=
  rfl

theorem Legal.commit {a : A} {o : Option (Op × Ans)} {h : List (Event A C Op Ans)}
    (hlegal : Legal O h) (ho : ∀ op ans, o = some (op, ans) → ans = O.answer op (state O h)) :
    Legal O (commit a o h) := by
  cases o with
  | none => exact hlegal
  | some p => exact ⟨ho p.1 p.2 rfl, hlegal⟩

end Object

/-! ## What an agent has done -/

variable [DecidableEq A]

/-- The operations of `a` since its last call, the latest first. -/
def opsOf (a : A) : List (Event A C Op Ans) → List (Op × Ans)
  | [] => []
  | .call b _ :: h => if b = a then [] else opsOf a h
  | .op b o ans :: h => if b = a then (o, ans) :: opsOf a h else opsOf a h

/-- The last call of `a`. -/
def callOf (a : A) : List (Event A C Op Ans) → Option C
  | [] => none
  | .call b c :: h => if b = a then some c else callOf a h
  | .op _ _ _ :: h => callOf a h

variable {a b : A} {c : C} {o : Option (Op × Ans)} {h : List (Event A C Op Ans)}

@[simp] theorem opsOf_call_self : opsOf a (.call a c :: h) = [] :=
  if_pos rfl

@[simp] theorem callOf_call_self : callOf a (.call a c :: h) = some c :=
  if_pos rfl

theorem opsOf_call_of_ne (hne : b ≠ a) : opsOf a (.call b c :: h) = opsOf a h :=
  if_neg hne

theorem callOf_call_of_ne (hne : b ≠ a) : callOf a (.call b c :: h) = callOf a h :=
  if_neg hne

@[simp] theorem opsOf_commit_self : opsOf a (commit a o h) = o.toList ++ opsOf a h := by
  cases o with
  | none => rfl
  | some p => exact if_pos rfl

theorem opsOf_commit_of_ne (hne : b ≠ a) : opsOf a (commit b o h) = opsOf a h := by
  cases o with
  | none => rfl
  | some p => exact if_neg hne

@[simp] theorem callOf_commit : callOf a (commit b o h) = callOf a h := by
  cases o <;> rfl

/-! ## Keeping a history -/

section Recording

variable {σ α H : Type*} {step : σ → α → Option σ} {record : σ → α → H → H} {w v : σ × H}

/-- A step of a machine, with the history it leaves. -/
def recording (step : σ → α → Option σ) (record : σ → α → H → H) (w : σ × H) (x : α) :
    Option (σ × H) :=
  (step w.1 x).map fun s => (s, record w.1 x w.2)

theorem recording_eq_some {x : α} (hstep : recording step record w x = some v) :
    step w.1 x = some v.1 ∧ v.2 = record w.1 x w.2 := by
  obtain ⟨s, hs, rfl⟩ := Option.map_eq_some_iff.1 hstep
  exact ⟨hs, rfl⟩

variable (step record) in
/-- The machine runs as it does without its history. -/
theorem exec_recording (w : σ × H) (xs : List α) :
    (Machine.exec (recording step record) w xs).map Prod.fst = Machine.exec step w.1 xs := by
  induction xs generalizing w with
  | nil => rfl
  | cons x xs ih =>
    simp only [Machine.exec, recording]
    cases step w.1 x with
    | none => rfl
    | some s => exact ih _

end Recording

end History
