import ProCamp.Machine

/-!
# First-in first-out stores

A `Store` has operations that take items in at the back (`accepted`) and hand items
out at the front (`delivered`). A step is first-in first-out (`Store.FifoAt`) if the
items before it followed by what it accepts are what it delivers followed by the
items after it.

`Store.conserves_iff` : along a run, what was delivered followed by what is stored is
what was stored at the start followed by what was accepted, at every moment, exactly
if every step is first-in first-out. So no accepted item is lost, duplicated or
reordered, and one step that is not first-in first-out already shows.
-/

open Machine

/-- A store of items of type `β` with operations of type `α`. -/
structure Store (σ α β : Type*) where
  /-- The state after an operation. -/
  next : σ → α → σ
  /-- The items stored, oldest first. -/
  items : σ → List β
  /-- The items an operation takes in. -/
  accepted : σ → α → List β
  /-- The items an operation hands out. -/
  delivered : σ → α → List β

namespace Store

variable {σ α β : Type*} (q : Store σ α β)

/-- The state after a run. -/
def run (s : σ) (as : List α) : σ :=
  as.foldl q.next s

/-- Everything taken in along a run, in order. -/
def allAccepted : σ → List α → List β
  | _, [] => []
  | s, a :: as => q.accepted s a ++ allAccepted (q.next s a) as

/-- Everything handed out along a run, in order. -/
def allDelivered : σ → List α → List β
  | _, [] => []
  | s, a :: as => q.delivered s a ++ allDelivered (q.next s a) as

/-- The operation `a` on `s` is first-in first-out. -/
def FifoAt (s : σ) (a : α) : Prop :=
  q.items s ++ q.accepted s a = q.delivered s a ++ q.items (q.next s a)

/-- A condition on the operations of a run, each at the state it meets. -/
def Along (P : σ → α → Prop) : σ → List α → Prop
  | _, [] => True
  | s, a :: as => P s a ∧ Along P (q.next s a) as

/-- Nothing lost, duplicated or reordered by the run `as`. -/
def Conserves (s : σ) (as : List α) : Prop :=
  q.allDelivered s as ++ q.items (q.run s as) = q.items s ++ q.allAccepted s as

@[simp] theorem run_nil (s : σ) : q.run s [] = s :=
  rfl

@[simp] theorem run_cons (s : σ) (a : α) (as : List α) :
    q.run s (a :: as) = q.run (q.next s a) as :=
  rfl

theorem run_append (s : σ) (as bs : List α) :
    q.run s (as ++ bs) = q.run (q.run s as) bs :=
  List.foldl_append

theorem allDelivered_append (s : σ) (as bs : List α) :
    q.allDelivered s (as ++ bs) = q.allDelivered s as ++ q.allDelivered (q.run s as) bs := by
  induction as generalizing s with
  | nil => rfl
  | cons a as ih => simp [allDelivered, ih]

theorem along_append {P : σ → α → Prop} {s : σ} {as bs : List α} :
    q.Along P s (as ++ bs) ↔ q.Along P s as ∧ q.Along P (q.run s as) bs := by
  induction as generalizing s with
  | nil => simp [Along]
  | cons a as ih => simp [Along, ih, and_assoc]

theorem Along.mono {P Q : σ → α → Prop} {I : σ → Prop}
    (hI : ∀ s a, I s → I (q.next s a)) (h : ∀ s a, I s → P s a → Q s a) :
    ∀ {s : σ} {as : List α}, I s → q.Along P s as → q.Along Q s as
  | _, [], _, _ => trivial
  | _, _ :: _, hs, hP => ⟨h _ _ hs hP.1, Along.mono hI h (hI _ _ hs) hP.2⟩

theorem conserves_cons {s : σ} {a : α} {as : List α} (h : q.FifoAt s a) :
    q.Conserves s (a :: as) ↔ q.Conserves (q.next s a) as := by
  unfold Conserves
  rw [allDelivered, allAccepted, run_cons, List.append_assoc, ← List.append_assoc (q.items s), h,
    List.append_assoc, List.append_cancel_left_eq]

theorem fifoAt_iff_conserves (s : σ) (a : α) : q.FifoAt s a ↔ q.Conserves s [a] := by
  unfold Conserves FifoAt
  simp only [allDelivered, allAccepted, run_cons, run_nil, List.append_nil]
  exact eq_comm

/-- Steps that are first-in first-out conserve the items. -/
theorem conserves_of_along {s : σ} {as : List α} (h : q.Along q.FifoAt s as) :
    q.Conserves s as := by
  induction as generalizing s with
  | nil => simp [Conserves, allDelivered, allAccepted]
  | cons a as ih =>
    rw [q.conserves_cons h.1]
    exact ih h.2

/-- The items are conserved at every moment of a run exactly if each of its steps is
first-in first-out. -/
theorem conserves_iff {s : σ} {as : List α} :
    (∀ pre, pre <+: as → q.Conserves s pre) ↔ q.Along q.FifoAt s as := by
  constructor
  · induction as generalizing s with
    | nil => exact fun _ => trivial
    | cons a as ih =>
      intro h
      have hone : q.FifoAt s a := (q.fifoAt_iff_conserves s a).2 (h [a] ⟨as, rfl⟩)
      refine ⟨hone, ih fun pre hpre => ?_⟩
      rw [← q.conserves_cons hone]
      exact h (a :: pre) (List.cons_prefix_cons.2 ⟨rfl, hpre⟩)
  · rintro h pre ⟨post, rfl⟩
    exact q.conserves_of_along (q.along_append.1 h).1

end Store
