import ProCamp.OneShot

/-!
# Two works on a queue

`HW6/deffered/simple_wq.c` : `simple_wq_init` makes a work with `x = 1` and one with `x = 2`,
where `kmalloc` gives a block, and puts each on `my_wq`, whose workers print `x` and free the
block while the module is still being loaded. `simple_wq_exit` flushes the queue and destroys
it. Where `create_workqueue` fails the module is loaded without a queue, which the flush then
reads through a null pointer.

`simple_wq_history` : however the workers interleave and whatever addresses `kmalloc` gives
again, each work is read once and freed once; the module can be unloaded if and only if it has
a queue, and then it leaves no block.
-/

namespace ProCamp

open Machine

/-- The next call of `simple_wq_init` or `simple_wq_exit`. -/
inductive WqPc where
  | createWorkqueue
  | kmalloc
  | queueWork
  | kmalloc2
  | queueWork2
  | loaded
  | flushWorkqueue
  | unloaded
  | oops
  deriving DecidableEq

/-- The variables of the module and the works. -/
structure SimpleWq where
  pc : WqPc
  /-- `my_wq` is not null. -/
  myWq : Bool
  work : Option ℕ
  work2 : Option ℕ
  works : OneShot Int32

/-- One step of the module, or of a worker. -/
inductive WqAct where
  | createWorkqueue (ok : Bool)
  | kmalloc (p : Option ℕ)
  | queueWork
  /-- A worker takes the work at `p` off the queue. -/
  | start (p : ℕ)
  /-- `my_wq_function` prints `my_work->x`. -/
  | printk (p : ℕ)
  | kfree (p : ℕ)
  /-- The module is unloaded. -/
  | exit
  /-- `flush_workqueue` returns, and `destroy_workqueue` has nothing to wait for. -/
  | flushed

namespace SimpleWq

/-- Nothing is loaded. -/
def start : SimpleWq where
  pc := .createWorkqueue
  myWq := false
  work := none
  work2 := none
  works := .empty

/-- A block with this `x`, if there is one, and then the next call. -/
def kmallocWork (x : Int32) (queue next : WqPc) (s : SimpleWq) : Option ℕ → Option SimpleWq
  | none => some { s with pc := next }
  | some p => (s.works.step (.make p x)).map fun works => { s with works, pc := queue }

/-- `queue_work`. -/
def queueWork (work : Option ℕ) (next : WqPc) (s : SimpleWq) : Option SimpleWq :=
  work.bind fun p => (s.works.step (.queue p)).map fun works => { s with works, pc := next }

/-- A step of a worker. -/
def worker (a : OneShot.Act Int32) (s : SimpleWq) : Option SimpleWq :=
  (s.works.step a).map fun works => { s with works }

/-- One step. -/
def step (s : SimpleWq) : WqAct → Option SimpleWq
  | .createWorkqueue ok =>
    if s.pc = .createWorkqueue then
      some { s with myWq := ok, pc := if ok then .kmalloc else .loaded }
    else none
  | .kmalloc p =>
    if s.pc = .kmalloc then { s with work := p }.kmallocWork 1 .queueWork .kmalloc2 p
    else if s.pc = .kmalloc2 then { s with work2 := p }.kmallocWork 2 .queueWork2 .loaded p
    else none
  | .queueWork =>
    if s.pc = .queueWork then s.queueWork s.work .kmalloc2
    else if s.pc = .queueWork2 then s.queueWork s.work2 .loaded
    else none
  | .start p => s.worker (.start p)
  | .printk p => s.worker (.read p)
  | .kfree p => s.worker (.free p)
  | .exit =>
    if s.pc = .loaded then some { s with pc := if s.myWq then .flushWorkqueue else .oops }
    else none
  | .flushed =>
    if s.pc = .flushWorkqueue ∧ s.works.Quiet then some { s with pc := .unloaded } else none

/-- `x` of the works that were made. -/
def values (s : SimpleWq) : List Int32 :=
  (s.work.map fun _ => 1).toList ++ (s.work2.map fun _ => 2).toList

/-- The work that is made and not yet queued. -/
def unqueued (s : SimpleWq) : List ℕ :=
  match s.pc with
  | .queueWork => s.work.toList
  | .queueWork2 => s.work2.toList
  | _ => []

/-- Which works there can be, and whether there is a queue. -/
def Reached (s : SimpleWq) : Prop :=
  match s.pc with
  | .createWorkqueue => s.work = none ∧ s.work2 = none
  | .kmalloc => s.myWq = true ∧ s.work = none ∧ s.work2 = none
  | .queueWork | .kmalloc2 => s.myWq = true ∧ s.work2 = none
  | .queueWork2 | .flushWorkqueue | .unloaded => s.myWq = true
  | .loaded => True
  | .oops => s.myWq = false

/-- Every work the module has made is in one place, what it has not queued yet is the work its
line is about, and when it is unloaded no work is left. -/
structure Inv (s : SimpleWq) : Prop where
  owned : s.works.Owned s.values
  made : s.works.made = s.unqueued
  reached : s.Reached
  quiet : s.pc = .unloaded → s.works.Quiet

variable {s t : SimpleWq} {as : List WqAct}

/-! ## The steps of `simple_wq_init` -/

theorem step_kmalloc {p : Option ℕ} (h : step s (.kmalloc p) = some t) :
    (s.pc = .kmalloc ∧
        { s with work := p }.kmallocWork 1 .queueWork .kmalloc2 p = some t) ∨
      (s.pc = .kmalloc2 ∧
        { s with work2 := p }.kmallocWork 2 .queueWork2 .loaded p = some t) := by
  simp only [step] at h
  split at h
  case isTrue hpc => exact Or.inl ⟨hpc, h⟩
  split at h
  case isTrue hpc => exact Or.inr ⟨hpc, h⟩
  case isFalse => cases h

theorem step_queueWork (h : step s .queueWork = some t) :
    (s.pc = .queueWork ∧ s.queueWork s.work .kmalloc2 = some t) ∨
      (s.pc = .queueWork2 ∧ s.queueWork s.work2 .loaded = some t) := by
  simp only [step] at h
  split at h
  case isTrue hpc => exact Or.inl ⟨hpc, h⟩
  split at h
  case isTrue hpc => exact Or.inr ⟨hpc, h⟩
  case isFalse => cases h

theorem kmallocWork_eq_some {x : Int32} {queue next : WqPc} {p : Option ℕ}
    (h : s.kmallocWork x queue next p = some t) :
    (t.pc = queue ∨ t.pc = next) ∧ t.myWq = s.myWq := by
  cases p with
  | none =>
    obtain rfl := Option.some.inj h
    exact ⟨Or.inr rfl, rfl⟩
  | some p =>
    obtain ⟨works, -, rfl⟩ := Option.map_eq_some_iff.1 h
    exact ⟨Or.inl rfl, rfl⟩

theorem queueWork_eq_some {work : Option ℕ} {next : WqPc}
    (h : s.queueWork work next = some t) : t.pc = next ∧ t.myWq = s.myWq := by
  obtain ⟨p, -, hqueue⟩ := Option.bind_eq_some_iff.1 h
  obtain ⟨works, -, rfl⟩ := Option.map_eq_some_iff.1 hqueue
  exact ⟨rfl, rfl⟩

/-! ## The invariant -/

theorem inv_start : Inv start :=
  ⟨OneShot.owned_empty, rfl, ⟨rfl, rfl⟩, fun h => by cases h⟩

/-- A worker leaves the variables alone, and finds no work once the queue is flushed. -/
theorem Inv.worker {a : OneShot.Act Int32} (h : Inv s) (ha : a.Works)
    (hstep : s.worker a = some t) : Inv t := by
  obtain ⟨works, hworks, rfl⟩ := Option.map_eq_some_iff.1 hstep
  have howned := h.owned.act hworks
  rw [ha.makes, List.append_nil] at howned
  exact ⟨howned, (ha.made hworks).trans h.made, h.reached,
    fun hpc => absurd ha ((h.quiet hpc).not_works hworks)⟩

/-- The first `kmalloc`. -/
theorem Inv.kmalloc {p : Option ℕ} (h : Inv s) (hpc : s.pc = .kmalloc)
    (hstep : { s with work := p }.kmallocWork 1 .queueWork .kmalloc2 p = some t) : Inv t := by
  have hreached := h.reached
  simp only [Reached, hpc] at hreached
  obtain ⟨hwq, hwork, hwork2⟩ := hreached
  have hvalues : s.values = [] := by simp [values, hwork, hwork2]
  have howned := h.owned
  have hmade := h.made
  rw [hvalues] at howned
  simp only [unqueued, hpc] at hmade
  cases p with
  | none =>
    obtain rfl := Option.some.inj hstep
    refine ⟨?_, hmade, ⟨hwq, hwork2⟩, fun hpc => by cases hpc⟩
    simpa [values, hwork2] using howned
  | some p =>
    obtain ⟨works, hworks, rfl⟩ := Option.map_eq_some_iff.1 hstep
    refine ⟨?_, ?_, ⟨hwq, hwork2⟩, fun hpc => by cases hpc⟩
    · simpa [values, hwork2, OneShot.Act.makes] using howned.act hworks
    · show works.made = [p]
      rw [OneShot.made_of_make hworks, hmade]

/-- The second. -/
theorem Inv.kmalloc2 {p : Option ℕ} (h : Inv s) (hpc : s.pc = .kmalloc2)
    (hstep : { s with work2 := p }.kmallocWork 2 .queueWork2 .loaded p = some t) : Inv t := by
  have hreached := h.reached
  simp only [Reached, hpc] at hreached
  obtain ⟨hwq, hwork2⟩ := hreached
  have howned := h.owned
  have hmade := h.made
  simp only [values, hwork2, Option.map_none, Option.toList_none, List.append_nil] at howned
  simp only [unqueued, hpc] at hmade
  cases p with
  | none =>
    obtain rfl := Option.some.inj hstep
    refine ⟨?_, hmade, trivial, fun hpc => by cases hpc⟩
    simpa [values] using howned
  | some p =>
    obtain ⟨works, hworks, rfl⟩ := Option.map_eq_some_iff.1 hstep
    refine ⟨howned.act hworks, ?_, hwq, fun hpc => by cases hpc⟩
    show works.made = [p]
    rw [OneShot.made_of_make hworks, hmade]

/-- Either `queue_work`. -/
theorem Inv.queueWork {work : Option ℕ} {n : WqPc} (h : Inv s)
    (hunqueued : s.unqueued = work.toList)
    (hnext : ∀ works, unqueued { s with works, pc := n } = [])
    (hreached : ∀ works, Reached { s with works, pc := n }) (hne : n ≠ .unloaded)
    (hstep : s.queueWork work n = some t) : Inv t := by
  obtain ⟨p, hp, hqueue⟩ := Option.bind_eq_some_iff.1 hstep
  obtain ⟨works, hworks, rfl⟩ := Option.map_eq_some_iff.1 hqueue
  have howned := h.owned.act hworks
  rw [OneShot.Act.makes, List.append_nil] at howned
  refine ⟨howned, ?_, hreached works, fun hpc => absurd hpc hne⟩
  rw [hnext]
  show works.made = []
  rw [OneShot.made_of_queue hworks, h.made, hunqueued, hp, Option.toList_some,
    List.erase_cons_head]

theorem Inv.act {a : WqAct} (h : Inv s) (hstep : step s a = some t) : Inv t := by
  have hreached := h.reached
  cases a with
  | createWorkqueue ok =>
    obtain ⟨hpc, hcreate⟩ := Option.ite_none_right_eq_some.1 hstep
    obtain rfl := Option.some.inj hcreate
    have hmade := h.made
    simp only [unqueued, hpc] at hmade
    simp only [Reached, hpc] at hreached
    cases ok with
    | true => exact ⟨h.owned, hmade, ⟨rfl, hreached⟩, fun hpc => by cases hpc⟩
    | false => exact ⟨h.owned, hmade, trivial, fun hpc => by cases hpc⟩
  | kmalloc p =>
    rcases step_kmalloc hstep with ⟨hpc, hkmalloc⟩ | ⟨hpc, hkmalloc⟩
    · exact h.kmalloc hpc hkmalloc
    · exact h.kmalloc2 hpc hkmalloc
  | queueWork =>
    rcases step_queueWork hstep with ⟨hpc, hqueue⟩ | ⟨hpc, hqueue⟩
    · simp only [Reached, hpc] at hreached
      exact h.queueWork (n := .kmalloc2) (by simp [unqueued, hpc]) (fun _ => rfl)
        (fun _ => hreached) (by simp) hqueue
    · exact h.queueWork (n := .loaded) (by simp [unqueued, hpc]) (fun _ => rfl)
        (fun _ => trivial) (by simp) hqueue
  | start p => exact h.worker (a := .start p) trivial hstep
  | printk p => exact h.worker (a := .read p) trivial hstep
  | kfree p => exact h.worker (a := .free p) trivial hstep
  | exit =>
    obtain ⟨hpc, hexit⟩ := Option.ite_none_right_eq_some.1 hstep
    obtain rfl := Option.some.inj hexit
    have hmade := h.made
    simp only [unqueued, hpc] at hmade
    cases hwq : s.myWq with
    | true => exact ⟨h.owned, hmade, rfl, fun hpc => by cases hpc⟩
    | false => exact ⟨h.owned, hmade, rfl, fun hpc => by cases hpc⟩
  | flushed =>
    obtain ⟨⟨hpc, hquiet⟩, hflushed⟩ := Option.ite_none_right_eq_some.1 hstep
    obtain rfl := Option.some.inj hflushed
    have hmade := h.made
    simp only [unqueued, hpc] at hmade
    simp only [Reached, hpc] at hreached
    exact ⟨h.owned, hmade, hreached, fun _ => hquiet⟩

theorem Inv.run (h : Inv s) (hexec : exec step s as = some t) : Inv t :=
  exec_invariant_of_step (fun _ _ _ hs ht => Inv.act hs ht) h hexec

/-! ## Unloading -/

/-- What the workers do, they do here. -/
theorem canReach_of_works (hworks : CanReach OneShot.step OneShot.Act.Works
    (fun u => u.Quiet) s.works) :
    CanReach step (fun _ => True) (fun t => ∃ works : OneShot Int32, works.Quiet ∧
      t = { s with works }) s := by
  obtain ⟨as, u, hacts, hu, hquiet⟩ := hworks
  induction as generalizing s with
  | nil =>
    obtain rfl := Option.some.inj hu
    exact .here ⟨s.works, hquiet, rfl⟩
  | cons a as ih =>
    obtain ⟨works, hworks, hrest⟩ := exec_cons_eq_some.1 hu
    have hrun := ih (s := { s with works }) (fun b hb => hacts b (List.mem_cons_of_mem _ hb)) hrest
    have ha := hacts a (List.mem_cons_self ..)
    have hworker : s.worker a = some { s with works } := by rw [worker, hworks]; rfl
    cases a with
    | make | queue => exact ha.elim
    | start p => exact .cons (a := .start p) trivial hworker hrun
    | read p => exact .cons (a := .printk p) trivial hworker hrun
    | free p => exact .cons (a := .kfree p) trivial hworker hrun

/-- `my_wq` is set once. -/
theorem myWq_of_step {a : WqAct} (hpc : s.pc ≠ .createWorkqueue) (hstep : step s a = some t) :
    t.pc ≠ .createWorkqueue ∧ t.myWq = s.myWq := by
  have hworker {b : OneShot.Act Int32} (hb : s.worker b = some t) :
      t.pc ≠ .createWorkqueue ∧ t.myWq = s.myWq := by
    obtain ⟨works, -, rfl⟩ := Option.map_eq_some_iff.1 hb
    exact ⟨hpc, rfl⟩
  cases a with
  | createWorkqueue ok => exact absurd (Option.ite_none_right_eq_some.1 hstep).1 hpc
  | kmalloc p =>
    rcases step_kmalloc hstep with ⟨-, hkmalloc⟩ | ⟨-, hkmalloc⟩
    · obtain ⟨hnext | hnext, hwq⟩ := kmallocWork_eq_some hkmalloc
      · exact ⟨by simp [hnext], hwq⟩
      · exact ⟨by simp [hnext], hwq⟩
    · obtain ⟨hnext | hnext, hwq⟩ := kmallocWork_eq_some hkmalloc
      · exact ⟨by simp [hnext], hwq⟩
      · exact ⟨by simp [hnext], hwq⟩
  | queueWork =>
    rcases step_queueWork hstep with ⟨-, hqueue⟩ | ⟨-, hqueue⟩
    · obtain ⟨hnext, hwq⟩ := queueWork_eq_some hqueue
      exact ⟨by simp [hnext], hwq⟩
    · obtain ⟨hnext, hwq⟩ := queueWork_eq_some hqueue
      exact ⟨by simp [hnext], hwq⟩
  | start p => exact hworker hstep
  | printk p => exact hworker hstep
  | kfree p => exact hworker hstep
  | exit =>
    obtain ⟨-, hexit⟩ := Option.ite_none_right_eq_some.1 hstep
    obtain rfl := Option.some.inj hexit
    refine ⟨?_, rfl⟩
    show (if s.myWq then WqPc.flushWorkqueue else .oops) ≠ .createWorkqueue
    split <;> simp
  | flushed =>
    obtain ⟨-, hflushed⟩ := Option.ite_none_right_eq_some.1 hstep
    obtain rfl := Option.some.inj hflushed
    exact ⟨by simp, rfl⟩

/-- A loaded module can be unloaded if and only if it has a queue. -/
theorem Inv.canUnload_iff (h : Inv s) (hpc : s.pc = .loaded) :
    CanReach step (fun _ => True) (fun t => t.pc = .unloaded) s ↔ s.myWq = true := by
  constructor
  · rintro ⟨as, t, -, hexec, ht⟩
    have hsame : t.pc ≠ .createWorkqueue ∧ t.myWq = s.myWq :=
      exec_invariant_of_step (I := fun u => u.pc ≠ .createWorkqueue ∧ u.myWq = s.myWq)
        (fun u a v hu hv => ⟨(myWq_of_step hu.1 hv).1, (myWq_of_step hu.1 hv).2.trans hu.2⟩)
        ⟨by simp [hpc], rfl⟩ hexec
    have hreached := (h.run hexec).reached
    simp only [Reached, ht] at hreached
    exact hsame.2 ▸ hreached
  · intro hwq
    have hdrains := (OneShot.drains h.owned).mono fun u hu => hu.2
    refine (canReach_of_works hdrains).trans ?_
    rintro _ ⟨works, hquiet, rfl⟩
    refine .cons (a := .exit) trivial (if_pos hpc) ?_
    rw [if_pos hwq]
    exact .cons (a := .flushed) trivial (if_pos ⟨rfl, hquiet⟩) (.here rfl)

/-- In every run, whatever `kmalloc` and `create_workqueue` return and however the workers
interleave with the module : none reads or frees a block that is not there; what is printed
and what is still to be printed are together the values of the works that were made; an
unloaded module has printed them all, and left no block; and a loaded one can be unloaded if
and only if it has a queue, else the flush stops the kernel. -/
theorem simpleWq_history (h : exec step start as = some t) :
    t.works.fault = false ∧
      (t.works.done ++ t.works.unread.filterMap t.works.mem).Perm t.values ∧
      (t.pc = .unloaded → t.works.done.Perm t.values ∧ ∀ p, t.works.mem p = none) ∧
      (t.pc = .loaded →
        (CanReach step (fun _ => True) (fun u => u.pc = .unloaded) t ↔ t.myWq = true)) ∧
      (t.pc = .oops → t.myWq = false) := by
  have hinv := inv_start.run h
  refine ⟨hinv.owned.fault, hinv.owned.read, fun hpc => ?_, hinv.canUnload_iff, fun hpc => ?_⟩
  · have hmade := hinv.made
    simp only [unqueued, hpc] at hmade
    exact hinv.owned.of_quiet (hinv.quiet hpc) hmade
  · have hreached := hinv.reached
    simpa only [Reached, hpc] using hreached

/-- The first work is freed before the second is made, at the same address. -/
def sameBlock : List WqAct :=
  [.createWorkqueue true, .kmalloc (some 8), .queueWork, .start 8, .printk 8, .kfree 8,
    .kmalloc (some 8), .queueWork, .exit, .start 8, .printk 8, .kfree 8, .flushed]

theorem sameBlock_history : ∃ t, exec step start sameBlock = some t ∧
    t.works.done.Perm [1, 2] ∧ ∀ p, t.works.mem p = none := by
  obtain ⟨t, ht, hends⟩ : ∃ t, exec step start sameBlock = some t ∧
      (t.pc, t.values) = (.unloaded, [1, 2]) := Option.map_eq_some_iff.1 (by decide +kernel)
  obtain ⟨hpc, hvalues⟩ := Prod.mk.inj hends
  exact ⟨t, ht, hvalues ▸ (simpleWq_history ht).2.2.1 hpc⟩

end SimpleWq

end ProCamp
