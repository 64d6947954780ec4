import Mathlib.Logic.Basic

/-!
# Data behind a lock

Agents share data of type `D` under a lock. What each agent is doing is its view :
`none` outside its critical section, `some P` inside it, at a point where it relies
on the assertion `P` about the data.

`Monitor.Inv` says that the lock is owned by the agent inside, that the data is `Ok`
while the lock is free, and that the assertion of the agent inside holds. A step of
one agent keeps it (`Inv.step`) as soon as the step is one of the four kinds of
`Monitor.Step`, which speak of that agent only.
-/

namespace Monitor

variable {A D : Type*} {Ok : D → Prop} {owner owner' : Option A} {d d' : D}
  {view view' : A → Option (D → Prop)}

/-- The invariant of the lock. -/
structure Inv (Ok : D → Prop) (owner : Option A) (view : A → Option (D → Prop)) (d : D) :
    Prop where
  inside_iff : ∀ a, (view a).isSome ↔ owner = some a
  free : owner = none → Ok d
  held : ∀ a P, view a = some P → P d

/-- A step of the agent `me` on the lock, its own view and the data. -/
inductive Step (Ok : D → Prop) (me : A) :
    Option A → Option (D → Prop) → D → Option A → Option (D → Prop) → D → Prop
  | outside (owner : Option A) (d : D) : Step Ok me owner none d owner none d
  | acquire {Q : D → Prop} (d : D) (h : Ok d → Q d) : Step Ok me none none d (some me) (some Q) d
  | inside {P Q : D → Prop} (owner : Option A) (d d' : D) (h : P d → Q d') :
      Step Ok me owner (some P) d owner (some Q) d'
  | release {P : D → Prop} (owner : Option A) (d : D) (h : P d → Ok d) :
      Step Ok me owner (some P) d none none d

namespace Inv

theorem owner_eq (h : Inv Ok owner view d) {a : A} {P : D → Prop} (ha : view a = some P) :
    owner = some a :=
  (h.inside_iff a).1 (by simp [ha])

/-- Two agents are not inside together. -/
theorem eq_of_inside (h : Inv Ok owner view d) {a b : A} {P Q : D → Prop}
    (ha : view a = some P) (hb : view b = some Q) : a = b :=
  Option.some.inj ((h.owner_eq ha).symm.trans (h.owner_eq hb))

theorem ok (h : Inv Ok owner view d) {a : A} {P : D → Prop} (ha : view a = some P) : P d :=
  h.held a P ha

/-- An agent whose view is `none` does not own the lock. -/
theorem owner_ne (h : Inv Ok owner view d) {a : A} (ha : view a = none) : owner ≠ some a := by
  intro hown
  simpa [ha] using (h.inside_iff a).2 hown

/-- A step of one agent keeps the invariant. -/
theorem step (me : A) (h : Inv Ok owner view d)
    (hstep : Step Ok me owner (view me) d owner' (view' me) d')
    (hframe : ∀ a, a ≠ me → view' a = view a) : Inv Ok owner' view' d' := by
  generalize hv : view me = v at hstep
  generalize hv' : view' me = v' at hstep
  have hne : ∀ {a P}, view' a = some P → a ≠ me → view a = some P :=
    fun ha hame => (hframe _ hame).symm.trans ha
  cases hstep with
  | outside =>
    refine ⟨fun a => ?_, h.free, fun a P ha => ?_⟩
    · by_cases hame : a = me
      · rw [← h.inside_iff, hame, hv, hv']
      · rw [hframe a hame, h.inside_iff]
    · refine h.held a P (hne ha ?_)
      rintro rfl
      simp [hv'] at ha
  | acquire _ hQ =>
    refine ⟨fun a => ?_, by simp, fun a P ha => ?_⟩
    · by_cases hame : a = me
      · simp [hame, hv']
      · have := h.inside_iff a
        simp only [reduceCtorEq, iff_false] at this
        rw [hframe a hame]
        exact iff_of_false this fun heq => hame (Option.some.inj heq).symm
    · by_cases hame : a = me
      · subst hame
        obtain rfl := Option.some.inj (hv'.symm.trans ha)
        exact hQ (h.free rfl)
      · have := (h.inside_iff a).1 (by simp [hne ha hame])
        simp at this
  | inside _ _ _ hPQ =>
    have hown := h.owner_eq hv
    refine ⟨fun a => ?_, by simp [hown], fun a P ha => ?_⟩
    · by_cases hame : a = me
      · simp [hame, hv', hown]
      · rw [hframe a hame, h.inside_iff]
    · by_cases hame : a = me
      · subst hame
        obtain rfl := Option.some.inj (hv'.symm.trans ha)
        exact hPQ (h.held _ _ hv)
      · exact absurd (h.eq_of_inside (hne ha hame) hv) hame
  | release _ _ hP =>
    have hnone : ∀ a, view' a = none := by
      intro a
      by_cases hame : a = me
      · rw [hame, hv']
      · rw [hframe a hame, ← Option.not_isSome_iff_eq_none, h.inside_iff, h.owner_eq hv]
        exact fun heq => hame (Option.some.inj heq).symm
    exact ⟨fun a => by simp [hnone a], fun _ => hP (h.held _ _ hv), fun a P ha => by
      simp [hnone a] at ha⟩

/-- A step outside every agent's program that respects the assertions. -/
theorem environment (h : Inv Ok owner view d) (hok : owner = none → Ok d → Ok d')
    (hheld : ∀ a P, view a = some P → P d → P d') : Inv Ok owner view d' :=
  ⟨h.inside_iff, fun hown => hok hown (h.free hown),
    fun a P ha => hheld a P ha (h.held a P ha)⟩

end Inv

end Monitor
