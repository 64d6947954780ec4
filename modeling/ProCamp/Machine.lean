import Mathlib.Data.List.Basic

/-!
# Runs of a step function

A machine is a partial step function `step : σ → α → Option σ` : `none` says that
the action is not enabled. Nondeterminism lives in the actions, so a run is a list
of actions and `exec` computes the state it ends in.

`EveryStep step P s as` says that every step the run `as` takes from `s` satisfies
`P`. An invariant is carried through a run by `exec_invariant`, under a condition on
the steps of the run, and `everyStep_of_invariant` turns an invariant into a
property of every step.

`RunsTo step next s t` is the run on which a scheduler `next` chooses each action : from
`s` it comes to a halt in `t`.
-/

namespace Machine

variable {σ α : Type*} {step : σ → α → Option σ}

/-- The state after the actions of a list, `none` if one of them is not enabled. -/
def exec (step : σ → α → Option σ) : σ → List α → Option σ
  | s, [] => some s
  | s, a :: as => (step s a).bind fun t => exec step t as

@[simp] theorem exec_nil (s : σ) : exec step s [] = some s :=
  rfl

theorem exec_cons_eq_some {s u : σ} {a : α} {as : List α} :
    exec step s (a :: as) = some u ↔ ∃ t, step s a = some t ∧ exec step t as = some u := by
  simp [exec, Option.bind_eq_some_iff]

theorem exec_singleton (s : σ) (a : α) : exec step s [a] = step s a := by
  simp [exec]

theorem exec_append (s : σ) (as bs : List α) :
    exec step s (as ++ bs) = (exec step s as).bind fun t => exec step t bs := by
  induction as generalizing s with
  | nil => rfl
  | cons a as ih =>
    simp only [List.cons_append, exec, Option.bind_assoc]
    exact congrArg _ (funext fun t => ih t)

theorem exec_append_eq_some {s u : σ} {as bs : List α} :
    exec step s (as ++ bs) = some u ↔
      ∃ t, exec step s as = some t ∧ exec step t bs = some u := by
  rw [exec_append, Option.bind_eq_some_iff]

/-- Every step the run takes satisfies `P`. -/
def EveryStep (step : σ → α → Option σ) (P : σ → α → σ → Prop) : σ → List α → Prop
  | _, [] => True
  | s, a :: as => ∀ t, step s a = some t → P s a t ∧ EveryStep step P t as

@[simp] theorem everyStep_nil (P : σ → α → σ → Prop) (s : σ) : EveryStep step P s [] :=
  trivial

theorem everyStep_cons {P : σ → α → σ → Prop} {s : σ} {a : α} {as : List α} :
    EveryStep step P s (a :: as) ↔ ∀ t, step s a = some t → P s a t ∧ EveryStep step P t as :=
  Iff.rfl

theorem everyStep_append {P : σ → α → σ → Prop} {s : σ} {as bs : List α} :
    EveryStep step P s (as ++ bs) ↔
      EveryStep step P s as ∧ ∀ t, exec step s as = some t → EveryStep step P t bs := by
  induction as generalizing s with
  | nil => simp
  | cons a as ih =>
    simp only [List.cons_append, everyStep_cons, ih, exec_cons_eq_some]
    constructor
    · intro h
      refine ⟨fun t ht => ⟨(h t ht).1, (h t ht).2.1⟩, ?_⟩
      rintro u ⟨t, ht, hu⟩
      exact (h t ht).2.2 u hu
    · rintro ⟨h, h'⟩ t ht
      exact ⟨(h t ht).1, (h t ht).2, fun u hu => h' u ⟨t, ht, hu⟩⟩

/-- `EveryStep` where the first action is enabled. -/
theorem everyStep_cons_of_step {P : σ → α → σ → Prop} {s t : σ} {a : α} {as : List α}
    (h : step s a = some t) : EveryStep step P s (a :: as) ↔ P s a t ∧ EveryStep step P t as := by
  rw [everyStep_cons]
  constructor
  · exact fun hall => hall t h
  · intro ht u hu
    obtain rfl : t = u := Option.some.inj (h.symm.trans hu)
    exact ht

theorem everyStep_cons_of_none {P : σ → α → σ → Prop} {s : σ} {a : α} (as : List α)
    (h : step s a = none) : EveryStep step P s (a :: as) := by
  intro t ht
  simp [h] at ht

/-- Whether a property holds at every step of a run can be computed by running it. -/
instance decidableEveryStep (P : σ → α → σ → Prop) [∀ s a t, Decidable (P s a t)] :
    ∀ (s : σ) (as : List α), Decidable (EveryStep step P s as)
  | _, [] => isTrue trivial
  | s, a :: as =>
    match h : step s a with
    | none => isTrue (everyStep_cons_of_none as h)
    | some t =>
      have := decidableEveryStep P t as
      decidable_of_iff _ (everyStep_cons_of_step h).symm

/-- What `EveryStep` says, step by step. -/
theorem everyStep_iff {P : σ → α → σ → Prop} {s : σ} {as : List α} :
    EveryStep step P s as ↔ ∀ pre a post t u, as = pre ++ a :: post →
      exec step s pre = some t → step t a = some u → P t a u := by
  constructor
  · rintro h pre a post t u rfl ht hu
    exact ((everyStep_append.1 h).2 t ht u hu).1
  · intro h
    induction as generalizing s with
    | nil => trivial
    | cons a as ih =>
      intro t ht
      refine ⟨h [] a as s t rfl rfl ht, ih ?_⟩
      intro pre b post u v has hu hv
      exact h (a :: pre) b post u v (by rw [has]; rfl) (exec_cons_eq_some.2 ⟨t, ht, hu⟩) hv

/-- An invariant kept by every step that meets the condition `C` holds at the end of
every run whose steps all meet it. -/
theorem exec_invariant {I : σ → Prop} {C : σ → α → σ → Prop}
    (hstep : ∀ s a t, I s → C s a t → step s a = some t → I t) {s t : σ} {as : List α}
    (hs : I s) (hC : EveryStep step C s as) (h : exec step s as = some t) : I t := by
  induction as generalizing s with
  | nil =>
    obtain rfl : s = t := by simpa using h
    exact hs
  | cons a as ih =>
    obtain ⟨u, hu, hrest⟩ := exec_cons_eq_some.1 h
    obtain ⟨hCu, hCrest⟩ := hC u hu
    exact ih (hstep s a u hs hCu hu) hCrest hrest

theorem everyStep_true (s : σ) (as : List α) : EveryStep step (fun _ _ _ => True) s as := by
  induction as generalizing s with
  | nil => trivial
  | cons a as ih => exact fun t _ => ⟨trivial, ih t⟩

/-- `exec_invariant` without a condition. -/
theorem exec_invariant_of_step {I : σ → Prop}
    (hstep : ∀ s a t, I s → step s a = some t → I t) {s t : σ} {as : List α}
    (hs : I s) (h : exec step s as = some t) : I t :=
  exec_invariant (fun s a t hI _ => hstep s a t hI) hs (everyStep_true s as) h

/-- An invariant that holds under `C` and gives `P` at each step gives `P` at every
step of a run whose steps all meet `C`. -/
theorem everyStep_of_invariant {I : σ → Prop} {C P : σ → α → σ → Prop}
    (hstep : ∀ s a t, I s → C s a t → step s a = some t → I t ∧ P s a t) {s : σ}
    {as : List α} (hs : I s) (hC : EveryStep step C s as) : EveryStep step P s as := by
  induction as generalizing s with
  | nil => trivial
  | cons a as ih =>
    intro t ht
    obtain ⟨hCt, hCrest⟩ := hC t ht
    obtain ⟨hI, hP⟩ := hstep s a t hs hCt ht
    exact ⟨hP, ih hI hCrest⟩

/-- Two properties of steps that agree wherever `I` holds, one of which keeps `I`. -/
theorem everyStep_congr {I : σ → Prop} {P Q : σ → α → σ → Prop}
    (hiff : ∀ s a t, I s → step s a = some t → (P s a t ↔ Q s a t))
    (hstep : ∀ s a t, I s → P s a t → step s a = some t → I t) {s : σ} {as : List α}
    (hs : I s) : EveryStep step P s as ↔ EveryStep step Q s as := by
  constructor
  · exact everyStep_of_invariant
      (fun s a t hI hP ht => ⟨hstep s a t hI hP ht, (hiff s a t hI ht).1 hP⟩) hs
  · refine everyStep_of_invariant (fun s a t hI hQ ht => ?_) hs
    have hP := (hiff s a t hI ht).2 hQ
    exact ⟨hstep s a t hI hP ht, hP⟩

/-- A property of the actions alone. -/
theorem everyStep_of_forall {P : α → Prop} (s : σ) {as : List α} (h : ∀ a ∈ as, P a) :
    EveryStep step (fun _ a _ => P a) s as := by
  induction as generalizing s with
  | nil => trivial
  | cons a as ih => exact fun t _ => ⟨h a (by simp), ih t fun b hb => h b (by simp [hb])⟩

theorem EveryStep.mono {P Q : σ → α → σ → Prop} (hPQ : ∀ s a t, P s a t → Q s a t) {s : σ}
    {as : List α} (h : EveryStep step P s as) : EveryStep step Q s as :=
  everyStep_of_invariant (I := fun _ => True) (fun s a t _ hP _ => ⟨trivial, hPQ s a t hP⟩)
    trivial h

theorem EveryStep.and {P Q : σ → α → σ → Prop} {s : σ} {as : List α}
    (hP : EveryStep step P s as) (hQ : EveryStep step Q s as) :
    EveryStep step (fun s a t => P s a t ∧ Q s a t) s as := by
  induction as generalizing s with
  | nil => trivial
  | cons a as ih => exact fun t ht => ⟨⟨(hP t ht).1, (hQ t ht).1⟩, ih (hP t ht).2 (hQ t ht).2⟩

/-- If a step that violates `P` leads into `S`, no step leaves `S`, and the run ends
outside it, then every step satisfies `P`. -/
theorem everyStep_of_end {S : σ → Prop} {C P : σ → α → σ → Prop}
    (hinto : ∀ s a t, C s a t → step s a = some t → P s a t ∨ S t)
    (hstay : ∀ s a t, S s → C s a t → step s a = some t → S t) {s t : σ} {as : List α}
    (hC : EveryStep step C s as) (h : exec step s as = some t) (ht : ¬S t) :
    EveryStep step P s as := by
  induction as generalizing s with
  | nil => trivial
  | cons a as ih =>
    obtain ⟨u, hu, hrest⟩ := exec_cons_eq_some.1 h
    obtain ⟨hCu, hCrest⟩ := hC u hu
    have hP : P s a u := (hinto s a u hCu hu).resolve_right fun hS =>
      ht (exec_invariant hstay hS hCrest hrest)
    exact (everyStep_cons_of_step hu).2 ⟨hP, ih hCrest hrest⟩

/-! ## Runs under a scheduler -/

/-- From `s` the machine takes the action `next` chooses, again and again, and halts in
`t`, where it chooses none. -/
inductive RunsTo (step : σ → α → Option σ) (next : σ → Option α) : σ → σ → Prop
  | halt {s : σ} (h : next s = none) : RunsTo step next s s
  | step {s t u : σ} {a : α} (h : next s = some a) (hstep : step s a = some u)
      (hrest : RunsTo step next u t) : RunsTo step next s t

/-- A scheduler leaves at most one state to halt in. -/
theorem RunsTo.unique {next : σ → Option α} {s t u : σ} (ht : RunsTo step next s t)
    (hu : RunsTo step next s u) : t = u := by
  induction ht with
  | halt h =>
    cases hu with
    | halt => rfl
    | step h' => simp [h] at h'
  | step h hstep hrest ih =>
    cases hu with
    | halt h' => simp [h] at h'
    | step h' hstep' hrest' =>
      obtain rfl := Option.some.inj (h.symm.trans h')
      obtain rfl := Option.some.inj (hstep.symm.trans hstep')
      exact ih hrest'

end Machine
