import Mathlib.Data.List.Perm.Basic
import Mathlib.Logic.Function.Basic
import ProCamp.Progress

/-!
# Works that free themselves

A work is a block of memory with a value. It is made, then queued, then taken off its queue by a
worker, whose function reads the value and at last frees the block. The kernel may give out the
address of a freed block again. A function that reads or frees a block that is not there sets
`fault`.

`Owned` says of a state that every block is in exactly one place, and that what has been read
and what is still to be read are together the values of the works that were made. `Owned.act`
is the step lemma, `drains` the run on which every queued work is freed.
-/

/-- Works with values of a type `α`, by the addresses of their blocks. -/
structure OneShot (α : Type*) where
  mem : ℕ → Option α
  made : List ℕ
  queued : List ℕ
  /-- Their functions have not read them yet. -/
  running : List ℕ
  /-- Their functions have. -/
  freeing : List ℕ
  done : List α
  fault : Bool

namespace OneShot

open Machine

variable {α : Type*}

/-- What happens to the work at `p`. -/
inductive Act (α : Type*) where
  | make (p : ℕ) (x : α)
  | queue (p : ℕ)
  | start (p : ℕ)
  | read (p : ℕ)
  | free (p : ℕ)

/-- No works. -/
def empty : OneShot α where
  mem _ := none
  made := []
  queued := []
  running := []
  freeing := []
  done := []
  fault := false

/-- The function of the work at `p` reads its value. -/
def readWork (w : OneShot α) (p : ℕ) : OneShot α :=
  match w.mem p with
  | some x =>
    { w with running := w.running.erase p, freeing := p :: w.freeing, done := w.done ++ [x] }
  | none => { w with fault := true }

/-- It frees the block. -/
def freeWork (w : OneShot α) (p : ℕ) : OneShot α :=
  match w.mem p with
  | some _ => { w with freeing := w.freeing.erase p, mem := Function.update w.mem p none }
  | none => { w with fault := true }

/-- One step. -/
def step (w : OneShot α) : Act α → Option (OneShot α)
  | .make p x =>
    if (w.mem p).isNone then
      some { w with mem := Function.update w.mem p (some x), made := p :: w.made }
    else none
  | .queue p =>
    if p ∈ w.made then some { w with made := w.made.erase p, queued := p :: w.queued } else none
  | .start p =>
    if p ∈ w.queued then some { w with queued := w.queued.erase p, running := p :: w.running }
    else none
  | .read p => if p ∈ w.running then some (w.readWork p) else none
  | .free p => if p ∈ w.freeing then some (w.freeWork p) else none

/-- What is still to be read. -/
def unread (w : OneShot α) : List ℕ :=
  w.made ++ w.queued ++ w.running

/-- The values of the works a step makes. -/
def Act.makes : Act α → List α
  | .make _ x => [x]
  | .queue _ | .start _ | .read _ | .free _ => []

/-- What the workers do. -/
def Act.Works : Act α → Prop
  | .start _ | .read _ | .free _ => True
  | .make _ _ | .queue _ => False

/-- No function is to run, and none runs. -/
def Quiet (w : OneShot α) : Prop :=
  w.queued = [] ∧ w.running = [] ∧ w.freeing = []

instance (w : OneShot α) : Decidable w.Quiet :=
  inferInstanceAs (Decidable (_ ∧ _ ∧ _))

/-- Every block is in one place, and every value of `values` is read or to be read. -/
structure Owned (values : List α) (w : OneShot α) : Prop where
  place : ∀ p, (w.unread ++ w.freeing).count p = if (w.mem p).isSome then 1 else 0
  read : (w.done ++ w.unread.filterMap w.mem).Perm values
  fault : w.fault = false

variable {w u : OneShot α} {values : List α} {p : ℕ} {x : α}

theorem owned_empty : Owned [] (empty : OneShot α) :=
  ⟨fun _ => rfl, List.Perm.refl _, rfl⟩

/-- A block in one of the places is there. -/
theorem Owned.mem_of_mem (h : Owned values w) (hp : p ∈ w.unread ++ w.freeing) :
    ∃ x, w.mem p = some x := by
  have hcount := List.count_pos_iff.2 hp
  rw [h.place] at hcount
  split_ifs at hcount with hsome
  · exact Option.isSome_iff_exists.1 hsome
  · omega

/-- One that is not there is in none. -/
theorem Owned.not_mem (h : Owned values w) (hp : w.mem p = none) :
    p ∉ w.unread ++ w.freeing := by
  have hcount := h.place p
  rw [hp] at hcount
  exact List.count_eq_zero.1 hcount

/-- A work that goes from one place to the next, both before its value is read. -/
theorem Owned.move (h : Owned values w) (hunread : u.unread.Perm w.unread)
    (hmem : u.mem = w.mem) (hfreeing : u.freeing = w.freeing) (hdone : u.done = w.done)
    (hfault : u.fault = w.fault) : Owned values u := by
  refine ⟨fun p => ?_, ?_, hfault.trans h.fault⟩
  · rw [hfreeing, hmem, ← h.place p]
    exact (hunread.append_right _).count_eq p
  · rw [hdone, hmem]
    exact ((hunread.filterMap _).append_left _).trans h.read

theorem Owned.make (h : Owned values w) (hp : w.mem p = none) :
    Owned (values ++ [x])
      { w with mem := Function.update w.mem p (some x), made := p :: w.made } := by
  have hfree := h.not_mem hp
  have hunread : p ∉ w.unread := fun hmem => hfree (List.mem_append_left _ hmem)
  refine ⟨fun q => ?_, ?_, h.fault⟩
  · show (p :: (w.unread ++ w.freeing)).count q =
      if (Function.update w.mem p (some x) q).isSome then 1 else 0
    by_cases hq : q = p
    · subst hq
      rw [List.count_cons_self, List.count_eq_zero.2 hfree, Function.update_self]
      rfl
    · rw [List.count_cons_of_ne (Ne.symm hq), h.place, Function.update_of_ne hq]
  · show (w.done ++ (p :: w.unread).filterMap (Function.update w.mem p (some x))).Perm _
    have hsame : w.unread.filterMap (Function.update w.mem p (some x)) =
        w.unread.filterMap w.mem :=
      List.filterMap_congr fun q hq =>
        Function.update_of_ne (ne_of_mem_of_not_mem hq hunread) _ _
    rw [List.filterMap_cons_some (Function.update_self ..), hsame]
    have hread := h.read.append_right [x]
    rw [List.append_assoc] at hread
    exact ((List.perm_append_singleton _ _).symm.append_left _).trans hread

theorem Owned.readWork (h : Owned values w) (hp : p ∈ w.running) :
    Owned values (w.readWork p) := by
  obtain ⟨x, hx⟩ := h.mem_of_mem (p := p) (by simp [unread, hp])
  have hperm : w.unread.Perm (p :: (w.made ++ w.queued ++ w.running.erase p)) :=
    ((List.perm_cons_erase hp).append_left _).trans List.perm_middle
  simp only [OneShot.readWork, hx]
  refine ⟨fun q => ?_, ?_, h.fault⟩
  · show ((w.made ++ w.queued ++ w.running.erase p) ++ p :: w.freeing).count q = _
    rw [← h.place q]
    exact (List.perm_middle.trans (hperm.symm.append_right w.freeing)).count_eq q
  · show ((w.done ++ [x]) ++ (w.made ++ w.queued ++ w.running.erase p).filterMap w.mem).Perm _
    have hread := hperm.filterMap w.mem
    rw [List.filterMap_cons_some hx] at hread
    rw [List.append_assoc]
    exact (hread.symm.append_left _).trans h.read

theorem Owned.freeWork (h : Owned values w) (hp : p ∈ w.freeing) :
    Owned values (w.freeWork p) := by
  obtain ⟨x, hx⟩ := h.mem_of_mem (List.mem_append_right _ hp)
  have hperm : (w.unread ++ w.freeing).Perm (p :: (w.unread ++ w.freeing.erase p)) :=
    ((List.perm_cons_erase hp).append_left _).trans List.perm_middle
  have hcount : (w.unread ++ w.freeing.erase p).count p = 0 := by
    have hone := h.place p
    rw [hperm.count_eq, List.count_cons_self, hx] at hone
    simpa using hone
  have hunread : p ∉ w.unread := fun hmem =>
    List.count_eq_zero.1 hcount (List.mem_append_left _ hmem)
  simp only [OneShot.freeWork, hx]
  refine ⟨fun q => ?_, ?_, h.fault⟩
  · show (w.unread ++ w.freeing.erase p).count q =
      if (Function.update w.mem p none q).isSome then 1 else 0
    by_cases hq : q = p
    · rw [hq, hcount, Function.update_self]
      rfl
    · have hplace := h.place q
      rw [hperm.count_eq, List.count_cons_of_ne (Ne.symm hq)] at hplace
      rw [hplace, Function.update_of_ne hq]
  · show (w.done ++ w.unread.filterMap (Function.update w.mem p none)).Perm _
    have hsame : w.unread.filterMap (Function.update w.mem p none) =
        w.unread.filterMap w.mem :=
      List.filterMap_congr fun q hq =>
        Function.update_of_ne (ne_of_mem_of_not_mem hq hunread) _ _
    rw [hsame]
    exact h.read

/-- Every step keeps it, with the value of a work that is made. -/
theorem Owned.act {a : Act α} (h : Owned values w) (hstep : step w a = some u) :
    Owned (values ++ a.makes) u := by
  cases a with
  | make p x =>
    obtain ⟨hp, hmake⟩ := Option.ite_none_right_eq_some.1 hstep
    obtain rfl := Option.some.inj hmake
    exact h.make (Option.isNone_iff_eq_none.1 hp)
  | queue p =>
    obtain ⟨hp, hqueue⟩ := Option.ite_none_right_eq_some.1 hstep
    obtain rfl := Option.some.inj hqueue
    rw [Act.makes, List.append_nil]
    refine h.move ?_ rfl rfl rfl rfl
    refine List.Perm.append_right _ ?_
    exact List.perm_middle.trans ((List.perm_cons_erase hp).symm.append_right _)
  | start p =>
    obtain ⟨hp, hstart⟩ := Option.ite_none_right_eq_some.1 hstep
    obtain rfl := Option.some.inj hstart
    rw [Act.makes, List.append_nil]
    refine h.move ?_ rfl rfl rfl rfl
    have hqueued : (w.made ++ w.queued).Perm (p :: (w.made ++ w.queued.erase p)) :=
      ((List.perm_cons_erase hp).append_left _).trans List.perm_middle
    exact List.perm_middle.trans (hqueued.symm.append_right w.running)
  | read p =>
    obtain ⟨hp, hread⟩ := Option.ite_none_right_eq_some.1 hstep
    obtain rfl := Option.some.inj hread
    rw [Act.makes, List.append_nil]
    exact h.readWork hp
  | free p =>
    obtain ⟨hp, hfree⟩ := Option.ite_none_right_eq_some.1 hstep
    obtain rfl := Option.some.inj hfree
    rw [Act.makes, List.append_nil]
    exact h.freeWork hp

/-- The workers make no work. -/
theorem Act.Works.makes {a : Act α} (ha : a.Works) : a.makes = [] := by
  cases a with
  | make | queue => exact ha.elim
  | start | read | free => rfl

theorem Act.Works.made {a : Act α} (ha : a.Works) (hstep : step w a = some u) :
    u.made = w.made := by
  cases a with
  | make | queue => exact ha.elim
  | start p =>
    obtain ⟨-, hstart⟩ := Option.ite_none_right_eq_some.1 hstep
    obtain rfl := Option.some.inj hstart
    rfl
  | read p =>
    obtain ⟨-, hread⟩ := Option.ite_none_right_eq_some.1 hstep
    obtain rfl := Option.some.inj hread
    unfold OneShot.readWork
    split <;> rfl
  | free p =>
    obtain ⟨-, hfree⟩ := Option.ite_none_right_eq_some.1 hstep
    obtain rfl := Option.some.inj hfree
    unfold OneShot.freeWork
    split <;> rfl

theorem made_of_make (hstep : step w (.make p x) = some u) : u.made = p :: w.made := by
  obtain ⟨-, hmake⟩ := Option.ite_none_right_eq_some.1 hstep
  obtain rfl := Option.some.inj hmake
  rfl

theorem made_of_queue (hstep : step w (.queue p) = some u) : u.made = w.made.erase p := by
  obtain ⟨-, hqueue⟩ := Option.ite_none_right_eq_some.1 hstep
  obtain rfl := Option.some.inj hqueue
  rfl

theorem Quiet.not_works {a : Act α} (h : w.Quiet) (hstep : step w a = some u) : ¬a.Works := by
  obtain ⟨hqueued, hrunning, hfreeing⟩ := h
  cases a with
  | make | queue => exact id
  | start p => simp [step, hqueued] at hstep
  | read p => simp [step, hrunning] at hstep
  | free p => simp [step, hfreeing] at hstep

/-- Where all works were queued and no function is to run, no block is left and every value
has been read. -/
theorem Owned.of_quiet (h : Owned values w) (hquiet : w.Quiet) (hmade : w.made = []) :
    w.done.Perm values ∧ ∀ p, w.mem p = none := by
  obtain ⟨hqueued, hrunning, hfreeing⟩ := hquiet
  have hunread : w.unread = [] := by simp [unread, hmade, hqueued, hrunning]
  have hread := h.read
  rw [hunread, List.filterMap_nil, List.append_nil] at hread
  refine ⟨hread, fun p => ?_⟩
  have hplace := h.place p
  rw [hunread, hfreeing] at hplace
  by_contra hne
  rw [if_pos (Option.isSome_iff_ne_none.2 hne)] at hplace
  exact absurd hplace (by simp)

/-- The steps that a queued work still has to take. -/
def workLeft (w : OneShot α) : ℕ :=
  3 * w.queued.length + 2 * w.running.length + w.freeing.length

/-- The workers can run all that is queued, and make no work. -/
theorem drains (h : Owned values w) : CanReach step Act.Works
    (fun u => (Owned values u ∧ u.made = w.made) ∧ u.Quiet) w := by
  refine canReach_of_measure workLeft (I := fun u => Owned values u ∧ u.made = w.made) ?_
    ⟨h, rfl⟩
  rintro s ⟨hs, hmade⟩ hbusy
  have hkeep {a : Act α} {t : OneShot α} (ha : a.Works) (ht : step s a = some t) :
      Owned values t ∧ t.made = w.made := by
    have hact := hs.act ht
    rw [ha.makes, List.append_nil] at hact
    exact ⟨hact, (ha.made ht).trans hmade⟩
  rcases hqueued : s.queued with _ | ⟨p, queued⟩
  · rcases hrunning : s.running with _ | ⟨p, running⟩
    · rcases hfreeing : s.freeing with _ | ⟨p, freeing⟩
      · exact absurd ⟨hqueued, hrunning, hfreeing⟩ hbusy
      · obtain ⟨x, hx⟩ := hs.mem_of_mem (p := p) (by simp [hfreeing])
        have hstep : step s (.free p) = some (s.freeWork p) := if_pos (by simp [hfreeing])
        refine ⟨.free p, _, trivial, hstep, hkeep (a := .free p) trivial hstep, ?_⟩
        simp [freeWork, hx, workLeft, hfreeing]
    · obtain ⟨x, hx⟩ := hs.mem_of_mem (p := p) (by simp [unread, hrunning])
      have hstep : step s (.read p) = some (s.readWork p) := if_pos (by simp [hrunning])
      refine ⟨.read p, _, trivial, hstep, hkeep (a := .read p) trivial hstep, ?_⟩
      simp [readWork, hx, workLeft, hrunning]
      omega
  · have hstep : step s (.start p) = some _ := if_pos (by simp [hqueued])
    refine ⟨.start p, _, trivial, hstep, hkeep (a := .start p) trivial hstep, ?_⟩
    simp [workLeft, hqueued]
    omega

end OneShot
