import Mathlib.Algebra.BigOperators.Group.Finset.Basic
import ProCamp.Hrt

/-!
# The works of the two tasklets

Each tasklet of `HW6/deffered/hrt.c` schedules a work and a delayed work with the handler
`my_work_handler`. `my_work3` and `my_work4` are declared for the regular tasklet, but it
schedules `my_work` and `my_work2` like the other one, and a request for a work that is
still pending is lost.

`HrtLedger` keeps, beside the module, what the tasklets have requested and which of it each
run of the handler answers. `no_lost_work_iff` : every request has a run of the handler of
its own, and the handler runs four times in all, in exactly the runs where no tasklet
schedules a work that is still pending; and the works of the tasklets are distinct in
exactly the runs where only one of them schedules any.
-/

namespace ProCamp

open Machine

/-- The module, with its requests. -/
structure HrtLedger where
  hrt : Hrt
  /-- Whose request a pending work answers. -/
  owner : HrtWork → Tasklet
  /-- How often a tasklet has scheduled a work. -/
  requests : Tasklet → HrtWork → ℕ
  /-- How often `my_work_handler` has run for such a request. -/
  served : Tasklet → HrtWork → ℕ

namespace Hrt

/-- The work that the next step schedules, and for which tasklet. -/
def requested (s : Hrt) : HrtAct → Option (Tasklet × HrtWork)
  | .tasklet k =>
    match (s.tasklets k).pc with
    | some .work => some (k, .myWork)
    | some .delayed => some (k, .myWork2)
    | none => none
  | _ => none

variable {s t : Hrt} {a : HrtAct} {k : Tasklet} {w v : HrtWork}

/-- A step that schedules a work. -/
theorem works_requested (h : s.step a = some t) (hreq : s.requested a = some (k, w)) :
    (w = .myWork ∨ w = .myWork2) ∧ ∃ d, t.works = Function.update s.works w d ∧ d.Pending ∧
      ((s.works w).Pending → d = s.works w) ∧ ((s.works w).Once → d.Once) := by
  cases step_move h with
  | work hpc =>
    simp only [requested, hpc, Option.some.injEq, Prod.mk.injEq] at hreq
    obtain ⟨rfl, rfl⟩ := hreq
    exact ⟨Or.inl rfl, _, rfl, DelayedWork.pending_queue _, DelayedWork.queue_of_pending,
      DelayedWork.Once.queue⟩
  | delayed hpc =>
    simp only [requested, hpc, Option.some.injEq, Prod.mk.injEq] at hreq
    obtain ⟨rfl, rfl⟩ := hreq
    exact ⟨Or.inr rfl, _, rfl, DelayedWork.pending_queueDelayed _,
      DelayedWork.queueDelayed_of_pending, DelayedWork.Once.queueDelayed⟩
  | _ => cases hreq

/-- A worker starts a work. -/
theorem works_worker (h : s.step (.worker w) = some t) : (s.works w).work.armed = true ∧
    t.works = Function.update s.works w ⟨(s.works w).timer, ⟨false, some ()⟩⟩ := by
  cases step_move h with
  | worker harmed => exact ⟨harmed, rfl⟩

/-- Any other step leaves each work pending or not. -/
theorem works_other (h : s.step a = some t) (hreq : s.requested a = none)
    (ha : ∀ w, a ≠ .worker w) (v : HrtWork) :
    ((t.works v).Pending ↔ (s.works v).Pending) ∧ ((s.works v).Once → (t.works v).Once) := by
  cases step_move h with
  | work hpc | delayed hpc => simp [requested, hpc] at hreq
  | worker harmed => exact absurd rfl (ha _)
  | @elapse w htimer =>
    by_cases hv : v = w
    · subst hv
      simp [DelayedWork.Pending, DelayedWork.Once, htimer]
    · simp [hv]
  | handled w =>
    by_cases hv : v = w
    · subst hv
      simp [DelayedWork.Pending, DelayedWork.Once]
    · simp [hv]
  | _ => exact ⟨Iff.rfl, id⟩

/-- A tasklet gets to its delayed work by scheduling its work. -/
theorem delayed_step (h : s.step a = some t) (hk : (t.tasklets k).pc = some .delayed) :
    (s.tasklets k).pc = some .delayed ∨ s.requested a = some (k, .myWork) := by
  cases step_move h with
  | @schedule d j hpc =>
    by_cases hj : k = j
    · subst hj
      exact Or.inl (by simpa [taskletSchedule] using hk)
    · exact Or.inl (by simpa [taskletSchedule, hj] using hk)
  | @softirq j harmed =>
    by_cases hj : k = j
    · subst hj
      simp at hk
    · exact Or.inl (by simpa [hj] using hk)
  | @work j hpc =>
    by_cases hj : k = j
    · subst hj
      exact Or.inr (by simp [requested, hpc])
    · exact Or.inl (by simpa [hj] using hk)
  | @delayed j hpc =>
    by_cases hj : k = j
    · subst hj
      simp at hk
    · exact Or.inl (by simpa [hj] using hk)
  | _ => exact Or.inl hk

theorem pc_of_requested_myWork2 (hreq : s.requested a = some (k, .myWork2)) :
    (s.tasklets k).pc = some .delayed := by
  unfold requested at hreq
  split at hreq
  case h_1 j =>
    split at hreq
    case h_1 => simp at hreq
    case h_2 hpc =>
      obtain rfl : j = k := by simpa using hreq
      exact hpc
    case h_3 => cases hreq
  case h_2 => cases hreq

end Hrt

namespace HrtLedger

/-- After `hrt_init`. -/
def init : HrtLedger where
  hrt := Hrt.init
  owner _ := .regular
  requests _ _ := 0
  served _ _ := 0

/-- Tasklet `k` schedules work `w`. -/
def request (l : HrtLedger) (k : Tasklet) (w : HrtWork) : HrtLedger :=
  { l with
    requests := Function.update l.requests k (Function.update (l.requests k) w
      (l.requests k w + 1))
    owner := if (l.hrt.works w).Pending then l.owner else Function.update l.owner w k }

/-- A worker starts work `w`. -/
def serve (l : HrtLedger) (w : HrtWork) : HrtLedger :=
  { l with
    served := Function.update l.served (l.owner w) (Function.update (l.served (l.owner w)) w
      (l.served (l.owner w) w + 1)) }

/-- One step. -/
def step (l : HrtLedger) (a : HrtAct) : Option HrtLedger :=
  (l.hrt.step a).map fun hrt =>
    match l.hrt.requested a, a with
    | some (k, w), _ => { l.request k w with hrt }
    | none, .worker w => { l.serve w with hrt }
    | none, _ => { l with hrt }

/-- The runs of `my_work_handler`. -/
def handlerRuns (l : HrtLedger) : ℕ :=
  ∑ k, ∑ w, l.served k w

/-- A run for this request is to come. -/
def owed (l : HrtLedger) (k : Tasklet) (w : HrtWork) : ℕ :=
  if (l.hrt.works w).Pending ∧ l.owner w = k then 1 else 0

/-- Every request has had a run of the handler of its own, or its work is pending for it. -/
def OwnRuns (l : HrtLedger) : Prop :=
  ∀ k w, l.requests k w = l.served k w + l.owed k w

/-- Both tasklets have run, and all queues have drained. -/
def Drained (l : HrtLedger) : Prop :=
  (∀ k, l.requests k .myWork = 1 ∧ l.requests k .myWork2 = 1) ∧ ∀ w, (l.hrt.works w).Idle

instance (l : HrtLedger) : Decidable l.OwnRuns :=
  inferInstanceAs (Decidable (∀ _ _, _))

instance (l : HrtLedger) : Decidable l.Drained :=
  inferInstanceAs (Decidable (_ ∧ _))

/-- No request is lost. -/
def NoLostWork (_ : HrtLedger) (_ : HrtAct) (m : HrtLedger) : Prop :=
  m.OwnRuns ∧ (m.Drained → m.handlerRuns = 4)

instance (l : HrtLedger) (a : HrtAct) (m : HrtLedger) : Decidable (NoLostWork l a m) :=
  inferInstanceAs (Decidable (_ ∧ (_ → _)))

/-- A tasklet does not schedule a work that is still pending. -/
def NotPending (l : HrtLedger) (a : HrtAct) (_ : HrtLedger) : Prop :=
  ∀ k w, l.hrt.requested a = some (k, w) → ¬(l.hrt.works w).Pending

/-- The two tasklets have not scheduled the same work. -/
def Apart (l : HrtLedger) : Prop :=
  ∀ j k, j ≠ k → ∀ w, l.requests j w = 0 ∨ l.requests k w = 0

/-- A tasklet schedules a work only where the other one has not scheduled any. -/
def Alone (l : HrtLedger) (a : HrtAct) (_ : HrtLedger) : Prop :=
  ∀ k w, l.hrt.requested a = some (k, w) → ∀ j, j ≠ k → ∀ v, l.requests j v = 0

/-- A tasklet schedules its work before its delayed work. -/
structure Ordered (l : HrtLedger) : Prop where
  first : ∀ k w, l.requests k w ≠ 0 → l.requests k .myWork ≠ 0
  delayed : ∀ k, (l.hrt.tasklets k).pc = some .delayed → l.requests k .myWork ≠ 0

/-- What the ledger keeps in any case. -/
structure Kept (l : HrtLedger) : Prop where
  once : ∀ w, (l.hrt.works w).Once
  /-- No other work is scheduled. -/
  unused : ∀ k w, w ≠ .myWork → w ≠ .myWork2 → l.requests k w = 0

variable {l m : HrtLedger} {a : HrtAct} {as : List HrtAct} {k : Tasklet} {w : HrtWork}

@[simp] theorem request_requests (l : HrtLedger) (k j : Tasklet) (w v : HrtWork) :
    (l.request k w).requests j v = l.requests j v + if j = k ∧ v = w then 1 else 0 := by
  by_cases hj : j = k
  · subst hj
    by_cases hv : v = w
    · simp [request, hv]
    · simp [request, hv]
  · simp [request, hj]

@[simp] theorem request_served (l : HrtLedger) (k : Tasklet) (w : HrtWork) :
    (l.request k w).served = l.served :=
  rfl

@[simp] theorem serve_requests (l : HrtLedger) (w : HrtWork) :
    (l.serve w).requests = l.requests :=
  rfl

@[simp] theorem serve_served (l : HrtLedger) (w v : HrtWork) (j : Tasklet) :
    (l.serve w).served j v = l.served j v + if j = l.owner w ∧ v = w then 1 else 0 := by
  by_cases hj : j = l.owner w
  · subst hj
    by_cases hv : v = w
    · simp [serve, hv]
    · simp [serve, hv]
  · simp [serve, hj]

/-- A step of the ledger. -/
theorem step_cases (h : l.step a = some m) : ∃ hrt, l.hrt.step a = some hrt ∧
    ((∃ k w, l.hrt.requested a = some (k, w) ∧ m = { l.request k w with hrt }) ∨
      (∃ w, l.hrt.requested a = none ∧ a = .worker w ∧ m = { l.serve w with hrt }) ∨
      (l.hrt.requested a = none ∧ (∀ w, a ≠ .worker w) ∧ m = { l with hrt })) := by
  obtain ⟨hrt, hstep, hm⟩ := Option.map_eq_some_iff.1 h
  refine ⟨hrt, hstep, ?_⟩
  split at hm
  case h_1 k w hreq => exact Or.inl ⟨k, w, hreq, hm.symm⟩
  case h_2 w hreq => exact Or.inr (Or.inl ⟨w, hreq, rfl, hm.symm⟩)
  case h_3 hne hreq => exact Or.inr (Or.inr ⟨hreq, fun w heq => hne w heq, hm.symm⟩)

theorem kept_init : Kept init :=
  ⟨fun _ h => by simp [init, Hrt.init, DelayedWork.idle] at h, fun _ _ _ _ => rfl⟩

theorem kept_step (hkept : l.Kept) (h : l.step a = some m) : m.Kept := by
  obtain ⟨hrt, hstep, ⟨k, w, hreq, rfl⟩ | ⟨w, hreq, rfl, rfl⟩ | ⟨hreq, hne, rfl⟩⟩ := step_cases h
  · obtain ⟨hw, d, hworks, -, -, honce⟩ := Hrt.works_requested hstep hreq
    refine ⟨fun v => ?_, fun j v hv hv' => ?_⟩
    · by_cases hvw : v = w
      · subst hvw
        simpa [hworks] using honce (hkept.once v)
      · simpa [hworks, hvw] using hkept.once v
    · have hvw : v ≠ w := by
        rintro rfl
        exact hw.elim hv hv'
      simpa [hvw] using hkept.unused j v hv hv'
  · obtain ⟨-, hworks⟩ := Hrt.works_worker hstep
    refine ⟨fun v => ?_, hkept.unused⟩
    by_cases hvw : v = w
    · subst hvw
      simp [hworks, DelayedWork.Once]
    · simpa [hworks, hvw] using hkept.once v
  · exact ⟨fun v => (Hrt.works_other hstep hreq hne v).2 (hkept.once v), hkept.unused⟩

/-! ## The balance of requests and runs -/

/-- A request for a work that is not pending will be answered. -/
theorem ownRuns_request (hown : l.OwnRuns) {hrt : Hrt} (hstep : l.hrt.step a = some hrt)
    (hreq : l.hrt.requested a = some (k, w)) (hidle : ¬(l.hrt.works w).Pending) :
    OwnRuns { l.request k w with hrt } := by
  obtain ⟨-, d, hworks, hpending, -, -⟩ := Hrt.works_requested hstep hreq
  intro j v
  have hbalance := hown j v
  by_cases hvw : v = w
  · subst hvw
    have hbefore : l.owed j v = 0 := by simp [owed, hidle]
    have hafter : owed { l.request k v with hrt } j v = if j = k then 1 else 0 := by
      simp [owed, request, hworks, hpending, hidle, eq_comm]
    simp only [request_requests, hafter, and_true]
    rw [hbefore] at hbalance
    simpa using hbalance
  · have howed : owed { l.request k w with hrt } j v = l.owed j v := by
      simp [owed, request, hworks, hidle, hvw]
    rw [howed]
    simpa [hvw] using hbalance

/-- A request for a work that is pending is lost. -/
theorem not_ownRuns_request (hown : l.OwnRuns) {hrt : Hrt} (hstep : l.hrt.step a = some hrt)
    (hreq : l.hrt.requested a = some (k, w)) (hpending : (l.hrt.works w).Pending) :
    ¬OwnRuns { l.request k w with hrt } := by
  obtain ⟨-, d, hworks, -, hsame, -⟩ := Hrt.works_requested hstep hreq
  intro hown'
  have hbalance := hown' k w
  have howed : owed { l.request k w with hrt } k w = l.owed k w := by
    simp [owed, request, hworks, hsame hpending, hpending]
  rw [howed] at hbalance
  simp only [request_requests, and_self, if_true] at hbalance
  have := hown k w
  rw [request_served] at hbalance
  omega

/-- A run of the handler answers the request its work was pending for. -/
theorem ownRuns_serve (hown : l.OwnRuns) (hkept : l.Kept) {hrt : Hrt}
    (hstep : l.hrt.step (.worker w) = some hrt) : OwnRuns { l.serve w with hrt } := by
  obtain ⟨harmed, hworks⟩ := Hrt.works_worker hstep
  intro j v
  have hbalance := hown j v
  by_cases hvw : v = w
  · subst hvw
    have hpending : (l.hrt.works v).Pending := Or.inr harmed
    have htimer : (l.hrt.works v).timer = false := by
      by_contra htrue
      exact hkept.once v ⟨by simpa using htrue, harmed⟩
    have hbefore : l.owed j v = if j = l.owner v then 1 else 0 := by
      simp [owed, hpending, eq_comm]
    have hafter : owed { l.serve v with hrt } j v = 0 := by
      simp [owed, hworks, DelayedWork.Pending, htimer]
    simp only [hafter, serve_served, and_true]
    rw [hbefore] at hbalance
    exact hbalance
  · have howed : owed { l.serve w with hrt } j v = l.owed j v := by
      simp [owed, serve, hworks, hvw]
    rw [howed]
    simpa [hvw] using hbalance

/-- Once all queues have drained, each request has had its run. -/
theorem handlerRuns_of_drained (hown : l.OwnRuns) (hkept : l.Kept) (hdrained : l.Drained) :
    l.handlerRuns = 4 := by
  have hserved : ∀ k w, l.served k w = l.requests k w := by
    intro k w
    have howed : l.owed k w = 0 := by simp [owed, (hdrained.2 w).not_pending]
    rw [hown k w, howed, Nat.add_zero]
  have hsum : ∀ k, ∑ w, l.served k w = 2 := by
    intro k
    have h3 := hkept.unused k .myWork3 (by decide) (by decide)
    have h4 := hkept.unused k .myWork4 (by decide) (by decide)
    obtain ⟨h1, h2⟩ := hdrained.1 k
    have huniv : (Finset.univ : Finset HrtWork) = {.myWork, .myWork2, .myWork3, .myWork4} := rfl
    simp [huniv, hserved, h1, h2, h3, h4]
  have huniv : (Finset.univ : Finset Tasklet) = {.regular, .hiPrior} := rfl
  simp [handlerRuns, hsum, huniv]

theorem noLostWork_step_iff (hown : l.OwnRuns) (hkept : l.Kept) (h : l.step a = some m) :
    NoLostWork l a m ↔ NotPending l a m := by
  have hiff : NoLostWork l a m ↔ m.OwnRuns :=
    ⟨And.left, fun hm => ⟨hm, handlerRuns_of_drained hm (kept_step hkept h)⟩⟩
  rw [hiff]
  obtain ⟨hrt, hstep, ⟨k, w, hreq, rfl⟩ | ⟨w, hreq, rfl, rfl⟩ | ⟨hreq, hne, rfl⟩⟩ := step_cases h
  · constructor
    · intro hm j v hreq' hpending
      obtain ⟨rfl, rfl⟩ := Prod.mk.inj (Option.some.inj (hreq.symm.trans hreq'))
      exact not_ownRuns_request hown hstep hreq hpending hm
    · exact fun hidle => ownRuns_request hown hstep hreq (hidle k w hreq)
  · exact iff_of_true (ownRuns_serve hown hkept hstep) fun _ _ hreq' => by simp [hreq] at hreq'
  · refine iff_of_true (fun j v => ?_) fun _ _ hreq' => by simp [hreq] at hreq'
    have howed : owed { l with hrt } j v = l.owed j v := by
      simp [owed, (Hrt.works_other hstep hreq hne v).1]
    rw [howed]
    exact hown j v

/-- In exactly the runs where no tasklet schedules a work that is still pending, every
request has a run of its own. -/
theorem own_runs_iff (as : List HrtAct) :
    EveryStep step NoLostWork init as ↔ EveryStep step NotPending init as := by
  refine everyStep_congr (I := fun l => l.OwnRuns ∧ l.Kept) ?_ ?_ ⟨?_, kept_init⟩
  · exact fun l a m hl h => noLostWork_step_iff hl.1 hl.2 h
  · exact fun l a m hl hm h => ⟨hm.1, kept_step hl.2 h⟩
  · intro k w
    simp [init, owed, Hrt.init, DelayedWork.idle_not_pending]

/-! ## The works of one tasklet and of the other -/

/-- A tasklet that has scheduled anything has scheduled `my_work`. -/
theorem request_myWork (hordered : l.Ordered) {hrt : Hrt} (hstep : l.hrt.step a = some hrt)
    (hreq : l.hrt.requested a = some (k, w)) : (l.request k w).requests k .myWork ≠ 0 := by
  rw [request_requests]
  rcases (Hrt.works_requested hstep hreq).1 with rfl | rfl
  · simp
  · have := hordered.delayed k (Hrt.pc_of_requested_myWork2 hreq)
    omega

theorem ordered_init : Ordered init :=
  ⟨fun _ _ h => absurd rfl h, fun _ hpc => nomatch hpc⟩

theorem ordered_step (hordered : l.Ordered) (h : l.step a = some m) : m.Ordered := by
  obtain ⟨hrt, hstep, ⟨k, w, hreq, rfl⟩ | ⟨w, hreq, rfl, rfl⟩ | ⟨hreq, hne, rfl⟩⟩ := step_cases h
  · have hk := request_myWork hordered hstep hreq
    refine ⟨fun j v hv => ?_, fun j hpc => ?_⟩
    · by_cases hj : j = k
      · subst hj
        exact hk
      · simpa [hj] using hordered.first j v (by simpa [hj] using hv)
    · by_cases hj : j = k
      · subst hj
        exact hk
      · rcases Hrt.delayed_step hstep hpc with hbefore | hreq'
        · simpa [hj] using hordered.delayed j hbefore
        · exact absurd (Prod.mk.inj (Option.some.inj (hreq'.symm.trans hreq))).1 hj
  · refine ⟨hordered.first, fun j hpc => ?_⟩
    exact hordered.delayed j ((Hrt.delayed_step hstep hpc).resolve_right (by simp [hreq]))
  · refine ⟨hordered.first, fun j hpc => ?_⟩
    exact hordered.delayed j ((Hrt.delayed_step hstep hpc).resolve_right (by simp [hreq]))

theorem apart_step_iff (hordered : l.Ordered) (hapart : l.Apart) (h : l.step a = some m) :
    m.Apart ↔ Alone l a m := by
  obtain ⟨hrt, hstep, ⟨k, w, hreq, rfl⟩ | ⟨w, hreq, rfl, rfl⟩ | ⟨hreq, hne, rfl⟩⟩ := step_cases h
  · constructor
    · intro hm k' w' hreq' j hj v
      obtain ⟨rfl, rfl⟩ := Prod.mk.inj (Option.some.inj (hreq.symm.trans hreq'))
      by_contra hv
      rcases hm j k hj .myWork with hnone | hnone
      · exact hordered.first j v hv (by simpa [hj] using hnone)
      · exact request_myWork hordered hstep hreq hnone
    · intro halone i j hij v
      by_cases hi : i = k
      · subst hi
        exact Or.inr (by simpa [hij.symm] using halone i w hreq j hij.symm v)
      · by_cases hj : j = k
        · subst hj
          exact Or.inl (by simpa [hi] using halone j w hreq i hi v)
        · simpa [hi, hj] using hapart i j hij v
  · exact iff_of_true hapart fun _ _ hreq' => by simp [hreq] at hreq'
  · exact iff_of_true hapart fun _ _ hreq' => by simp [hreq] at hreq'

theorem apart_iff (as : List HrtAct) :
    EveryStep step (fun _ _ m => m.Apart) init as ↔ EveryStep step Alone init as := by
  have hapart : init.Apart := fun j k hjk w => Or.inl rfl
  refine everyStep_congr (I := fun l => l.Ordered ∧ l.Apart) ?_ ?_ ⟨ordered_init, hapart⟩
  · exact fun l a m hl h => apart_step_iff hl.1 hl.2 h
  · exact fun l a m hl hm h => ⟨ordered_step hl.1 h, hm⟩

/-- In exactly the runs where no tasklet schedules a work that is still pending, every
request of a tasklet has a run of `my_work_handler` of its own, and the handler has run four
times once both tasklets have run and all queues have drained. In exactly the runs where no
tasklet schedules a work after the other one has, their works are distinct. -/
theorem no_lost_work_iff (as : List HrtAct) :
    (EveryStep step NoLostWork init as ↔ EveryStep step NotPending init as) ∧
      (EveryStep step (fun _ _ m => m.Apart) init as ↔ EveryStep step Alone init as) :=
  ⟨own_runs_iff as, apart_iff as⟩

/-- The timer runs down, and both tasklets run before a worker picks up a work. -/
def bothTasklets : List HrtAct :=
  (List.replicate 6 [HrtAct.expires, HrtAct.callback]).flatten ++
    [.callback, .callback, .softirq .regular, .tasklet .regular, .tasklet .regular,
      .softirq .hiPrior, .tasklet .hiPrior, .tasklet .hiPrior, .worker .myWork,
      .handled .myWork, .elapse .myWork2, .worker .myWork2, .handled .myWork2]

/-- The handler has run twice for four requests. -/
theorem works_merged :
    (∃ l, exec step init bothTasklets = some l ∧ l.Drained ∧ l.handlerRuns = 2) ∧
      ¬EveryStep step NoLostWork init bothTasklets := by
  have hend : (exec step init bothTasklets).map (fun l =>
      (decide l.Drained, l.handlerRuns)) = some (true, 2) := by decide +kernel
  obtain ⟨l, hl, heq⟩ := Option.map_eq_some_iff.1 hend
  simp only [Prod.mk.injEq, decide_eq_true_eq] at heq
  exact ⟨⟨l, hl, heq⟩, by decide +kernel⟩

end HrtLedger

end ProCamp
