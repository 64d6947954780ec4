import ProCamp.ButtonEvents

/-!
# Calls of the board driver that fail

A call that ends in an error should leave the device alone. `hw3_write` and
`HW3IOC_KERN_CONTROL` copy from the user before they change anything. `hw3_read` and
`HW3IOC_SETLED` also copy to the user, after they have taken the event or set the LED,
and that copy can fail.

`failing_call_keeps_iff` says that these two are all there is : the steps of a failing
call change nothing exactly if it is not a read whose copy faults, and not a
`HW3IOC_SETLED` that found the LED in another state than it was told to set. The
argument for the other calls is that of `FailingCalls` : a step that changes the device
puts its process on the way to success.
-/

namespace ProCamp

open Machine

/-- A process on its way to reporting success. -/
def Proc.Succeeding : Proc → Prop
  | .read _ (.unlock _) | .read _ (.copy _) => True
  | .write _ (.drive _) | .write _ (.unlock _) => True
  | .ioctl .controlUnlock => True
  | .ret r _ => 0 ≤ r
  | _ => False

/-- A reader that has taken the event and not returned. -/
def Proc.Taken : Proc → Prop
  | .read _ (.unlock _) | .read _ (.copy _) => True
  | _ => False

namespace Board

/-- The step `a` is one of process `i`. -/
def IsStepOf (i : ℕ) : BoardAct → Prop
  | .call j _ | .proc j _ => j = i
  | .isr _ | .probe => False

/-- The step of process `i` is not the `copy_to_user` of line 68 faulting. -/
def CopiesOut (i : ℕ) (b : Board) (a : BoardAct) : Prop :=
  ∀ stored nonblock val, a = .proc i (.fault stored) → b.procs i ≠ .read nonblock (.copy val)

/-- Where process `i` is at lines 133 and 134 of `HW3IOC_SETLED`, `led_on` and the LED have
the values it is about to give them. -/
def SetsNothing (i : ℕ) (b : Board) (a : BoardAct) : Prop :=
  ∀ x, a = .proc i x →
    (∀ val, b.procs i = .ioctl (.set val) → b.sh.dev.ledOn = truth val) ∧
      (b.procs i = .ioctl .setDrive → b.sh.dev.led = truth b.sh.dev.ledOn)

/-- `as` takes process `i` through one call, with steps of anyone else in between, and
ends in `t` with the call having returned an error. -/
structure FailingCall (i : ℕ) (as : List BoardAct) (t : Board) : Prop where
  call : ∃ c rest, as = .call i c :: rest ∧ ∀ c', BoardAct.call i c' ∉ rest
  failed : ∃ r stored, t.procs i = .ret r stored ∧ r < 0

variable {i : ℕ} {s s' : Shared} {p p' : Proc} {b t u v : Board} {a : BoardAct}

/-! ## A step that changes the device leads to success -/

theorem kept_or_succeeding_proc (h : ProcMove i b.sh (b.procs i) s' p') {x : Input}
    (hset : b.SetsNothing i (.proc i x)) : s'.dev = b.sh.dev ∨ p'.Succeeding := by
  obtain ⟨hval, hdrive⟩ := hset x rfl
  generalize hp : b.procs i = p at h
  cases h with
  | read h => cases h <;> first | exact Or.inl rfl | exact Or.inr trivial
  | write h => cases h <;> first | exact Or.inl rfl | exact Or.inr trivial
  | poll h => cases h <;> exact Or.inl rfl
  | ioctl h =>
    cases h with
    | @set val =>
      left
      show { b.sh.dev with ledOn := (truth val).1 } = b.sh.dev
      rw [← hval val hp]
    | setDrive =>
      left
      show { b.sh.dev with led := truth b.sh.dev.ledOn } = b.sh.dev
      rw [← hdrive hp]
    | control => exact Or.inr trivial
    | _ => exact Or.inl rfl

/-- A step of process `i` leaves the device alone or leads it to success. -/
theorem kept_or_succeeding (h : b.step a = some t) (ha : IsStepOf i a) (hset : b.SetsNothing i a) :
    t.sh.dev = b.sh.dev ∨ (t.procs i).Succeeding := by
  rcases step_cases h with ⟨j, c, rfl, hidle, rfl⟩ | ⟨j, x, s', p', rfl, hmove, rfl⟩ |
    ⟨level, rfl, -⟩ | ⟨rfl, -⟩
  · exact Or.inl rfl
  · obtain rfl : j = i := ha
    simpa using kept_or_succeeding_proc hmove hset
  · exact absurd ha id
  · exact absurd ha id

/-! ## What succeeds does not fail any more -/

theorem succeeding_wake : p.wake.Succeeding ↔ p.Succeeding := by
  unfold Proc.wake
  split <;> exact Iff.rfl

theorem succeeding_afterIsr : (b.afterIsr i).Succeeding ↔ (b.procs i).Succeeding := by
  unfold afterIsr
  split_ifs
  · exact succeeding_wake
  · exact Iff.rfl

theorem succeeding_proc {x : Input} (hs : (b.procs i).Succeeding)
    (hcopy : b.CopiesOut i (.proc i x)) (h : procStep i b.sh (b.procs i) x = some (s', p')) :
    p'.Succeeding := by
  generalize hp : b.procs i = p at h hs
  cases p with
  | idle | ret | poll => first | cases h | exact absurd hs id
  | read nonblock pc =>
    cases pc with
    | copy val =>
      cases x with
      | go =>
        cases h
        exact (by decide : (0 : ℤ) ≤ 2)
      | signal => cases h
      | fault stored => exact absurd hp (hcopy stored nonblock val rfl)
    | unlock val => cases readStep_move h; trivial
    | _ => exact absurd hs id
  | write count pc =>
    cases pc with
    | drive val => cases writeStep_move h; trivial
    | unlock val => cases writeStep_move h; exact Int.natCast_nonneg _
    | _ => exact absurd hs id
  | ioctl pc =>
    cases pc with
    | controlUnlock => cases ioctlStep_move h; exact Int.le_refl 0
    | _ => exact absurd hs id

theorem succeeding_step (h : b.step a = some t) (hs : (b.procs i).Succeeding)
    (hcall : ∀ c, a ≠ .call i c) (hcopy : b.CopiesOut i a) : (t.procs i).Succeeding := by
  rcases step_cases h with ⟨j, c, rfl, hidle, rfl⟩ | ⟨j, x, s', p', rfl, -, ht⟩ |
    ⟨level, rfl, -, hprocs, -⟩ | ⟨rfl, -, rfl⟩
  · have hji : i ≠ j := fun heq => hcall c (by rw [heq])
    simpa [Function.update_of_ne hji] using hs
  · by_cases hji : i = j
    · subst hji
      obtain ⟨⟨s'', p''⟩, hproc, rfl⟩ := Option.map_eq_some_iff.1 h
      simpa using succeeding_proc hs hcopy hproc
    · rw [ht]
      simpa [Function.update_of_ne hji] using hs
  · rw [hprocs]
    exact succeeding_afterIsr.2 hs
  · exact hs

/-! ## Taking the event changes the device -/

theorem taken_wake : p.wake.Taken ↔ p.Taken := by
  unfold Proc.wake
  split <;> exact Iff.rfl

theorem not_taken_start (c : Call) : ¬c.start.Taken := by
  rcases c with _ | _ | _ | ⟨_ | _ | _ | _, _⟩ <;> exact id

/-- A step of a reader that leaves the device alone does not take the event. -/
theorem not_taken_proc (hinv : EventsInv b) (hmove : ProcMove i b.sh (b.procs i) s' p')
    (hp : ¬(b.procs i).Taken) (hkept : s'.dev = b.sh.dev) : ¬p'.Taken := by
  generalize hpc : b.procs i = q at hmove hp
  cases hmove with
  | read hmove =>
    cases hmove with
    | clear =>
      obtain ⟨-, hready, -⟩ := hinv.holds.ok (a := .proc i)
        (show Proc.event (b.procs i) = some _ by rw [hpc]; rfl)
      have hflag : b.sh.dev.dataReady = true := hready
      rw [← hkept] at hflag
      cases hflag
    | unlock => exact absurd trivial hp
    | _ => exact id
  | write hmove => cases hmove <;> exact id
  | poll hmove => cases hmove <;> exact id
  | ioctl hmove => cases hmove <;> exact id

theorem not_taken_step (hinv : EventsInv b) (h : b.step a = some t) (hp : ¬(b.procs i).Taken)
    (hkept : IsStepOf i a → t.sh.dev = b.sh.dev) : ¬(t.procs i).Taken := by
  rcases step_cases h with ⟨j, c, rfl, hidle, rfl⟩ | ⟨j, x, s', p', rfl, hmove, rfl⟩ |
    ⟨level, rfl, -, hprocs, -⟩ | ⟨rfl, -, rfl⟩
  · by_cases hji : i = j
    · subst hji
      simpa using not_taken_start c
    · simpa [Function.update_of_ne hji] using hp
  · by_cases hji : i = j
    · subst hji
      simpa using not_taken_proc hinv hmove hp (hkept rfl)
    · simpa [Function.update_of_ne hji] using hp
  · rw [hprocs, afterIsr]
    split_ifs
    · exact fun h => hp (taken_wake.1 h)
    · exact hp
  · exact hp

/-- Where the device is left alone, the copy that faults and the setting of the LED are
not among the steps. -/
theorem condition_of_kept (h : b.step a = some t) (hp : ¬(b.procs i).Taken)
    (hkept : IsStepOf i a → t.sh.dev = b.sh.dev) : b.CopiesOut i a ∧ b.SetsNothing i a := by
  refine ⟨fun stored nonblock val ha hpc => hp (by rw [hpc]; trivial), ?_⟩
  rintro x rfl
  obtain ⟨⟨s', p'⟩, hproc, rfl⟩ := Option.map_eq_some_iff.1 h
  have hdev : s'.dev = b.sh.dev := hkept rfl
  refine ⟨fun val hpc => ?_, fun hpc => ?_⟩
  · rw [hpc] at hproc
    cases ioctlStep_move hproc
    rw [← hdev]
  · rw [hpc] at hproc
    cases ioctlStep_move hproc
    rw [← hdev]
    rfl

/-! ## Failing calls -/

/-- In every reachable state, the steps of a call that fails leave `led_on`, `btn_on`,
`control`, `data_ready` and the LED as they were, whatever others do in between, if and
only if the call is not a read whose `copy_to_user` faults, and, if it is a
`HW3IOC_SETLED` that gets as far as line 133, `led_on` and the LED have the value it asks
for already. -/
theorem failing_call_keeps_iff {pre as : List BoardAct} (hreach : exec step init pre = some b)
    (hrun : exec step b as = some t) (hcall : FailingCall i as t) :
    EveryStep step (fun u a v => IsStepOf i a → v.sh.dev = u.sh.dev) b as ↔
      EveryStep step (fun u a _ => u.CopiesOut i a ∧ u.SetsNothing i a) b as := by
  obtain ⟨⟨c, rest, rfl, hrest⟩, r, stored, hret, hneg⟩ := hcall
  have hinv : EventsInv b :=
    exec_invariant_of_step (fun u a v hu hstep => hu.step hstep) eventsInv_init hreach
  constructor
  · obtain ⟨u, hu, -⟩ := exec_cons_eq_some.1 hrun
    have hstart : ¬(b.procs i).Taken := by
      rcases (callStep_eq hu).1 with hpc | ⟨r, stored, hpc⟩ <;> rw [hpc] <;> exact id
    exact everyStep_of_invariant (I := fun u => EventsInv u ∧ ¬(u.procs i).Taken)
      (fun u a v hu hkept hstep => ⟨⟨hu.1.step hstep, not_taken_step hu.1 hstep hu.2 hkept⟩,
        condition_of_kept hstep hu.2 hkept⟩) ⟨hinv, hstart⟩
  · intro hcond
    obtain ⟨u, hu, hrun⟩ := exec_cons_eq_some.1 hrun
    obtain ⟨-, rfl⟩ := callStep_eq hu
    refine (everyStep_cons_of_step hu).2 ⟨fun _ => rfl, ?_⟩
    -- the rest begins no other call, and ends in a state where this one has failed
    have hno : ∀ a ∈ rest, ∀ c', a ≠ .call i c' := fun a ha c' heq => hrest c' (heq ▸ ha)
    refine everyStep_of_end (S := fun u => (u.procs i).Succeeding) (fun u a v hC hstep => ?_)
      (fun u a v hs hC hstep => succeeding_step hstep hs hC.2 hC.1.1)
      (((everyStep_cons_of_step hu).1 hcond).2.and (everyStep_of_forall _ hno)) hrun ?_
    · by_cases ha : IsStepOf i a
      · exact (kept_or_succeeding hstep ha hC.1.2).imp_left fun h _ => h
      · exact Or.inl fun h => absurd h ha
    · rw [hret]
      exact Int.not_le.2 hneg

/-- Where nobody else takes a step, a call whose steps change nothing changes nothing. -/
theorem dev_eq_of_kept {as : List BoardAct}
    (hkept : EveryStep step (fun u a v => IsStepOf i a → v.sh.dev = u.sh.dev) b as)
    (hown : ∀ a ∈ as, IsStepOf i a) (hrun : exec step b as = some t) : t.sh.dev = b.sh.dev :=
  exec_invariant (I := fun u => u.sh.dev = b.sh.dev)
    (fun _ _ _ hu hC _ => (hC.1 hC.2).trans hu) rfl (hkept.and (everyStep_of_forall b hown)) hrun

/-- One interrupt with the button released, from entry to exit. -/
def releaseRun : List BoardAct :=
  List.replicate 7 (.isr 0)

/-- A read that takes the event and faults copying it out. -/
def faultingRead : List BoardAct :=
  .call 0 (.read true) :: (List.replicate 5 (.proc 0 .go) ++ [.proc 0 (.fault 0)])

/-- `-EFAULT`, and the event is gone. -/
theorem faulting_read_takes_event :
    ∃ b t, exec step init releaseRun = some b ∧ exec step b faultingRead = some t ∧
      FailingCall 0 faultingRead t ∧ b.sh.dev.dataReady = true ∧ t.sh.dev.dataReady = false ∧
      ¬EveryStep step (fun u a v => IsStepOf 0 a → v.sh.dev = u.sh.dev) b faultingRead := by
  have hbefore : (exec step init releaseRun).map (fun b => b.sh.dev.dataReady) = some true := by
    decide +kernel
  have hafter : (exec step init (releaseRun ++ faultingRead)).map
      (fun t => (t.procs 0, t.sh.dev.dataReady)) = some (.ret (-14) .none, false) := by
    decide +kernel
  obtain ⟨b, hb, hready⟩ := Option.map_eq_some_iff.1 hbefore
  obtain ⟨t, ht, heq⟩ := Option.map_eq_some_iff.1 hafter
  simp only [Prod.mk.injEq] at heq
  obtain ⟨b', hb', hrun⟩ := exec_append_eq_some.1 ht
  obtain rfl := Option.some.inj (hb.symm.trans hb')
  refine ⟨b, t, hb, hrun, ⟨⟨_, _, rfl, by simp⟩, _, _, heq.1, by decide⟩, hready, heq.2, ?_⟩
  intro hkept
  have hown : ∀ a ∈ faultingRead, IsStepOf 0 a := by
    simp [faultingRead, IsStepOf, List.replicate]
  have hdev := congrArg Hw3.dataReady (dev_eq_of_kept hkept hown hrun)
  rw [hready, heq.2] at hdev
  cases hdev

/-- A write of text that is no number. -/
theorem failing_call_keeps_invalid_write :
    ∃ t, exec step init [.call 0 (.write (Vector.replicate 10 120) 1), .proc 0 .go] = some t ∧
      t.procs 0 = .ret (-22) .none ∧
      EveryStep step (fun u a v => IsStepOf 0 a → v.sh.dev = u.sh.dev) init
        [.call 0 (.write (Vector.replicate 10 120) 1), .proc 0 .go] := by
  have hend : (exec step init [.call 0 (.write (Vector.replicate 10 120) 1), .proc 0 .go]).map
      (fun t => t.procs 0) = some (.ret (-22) .none) := by decide +kernel
  obtain ⟨t, ht, hret⟩ := Option.map_eq_some_iff.1 hend
  have hreach : exec step init [] = some init := rfl
  have hcall : FailingCall 0 [.call 0 (.write (Vector.replicate 10 120) 1), .proc 0 .go] t :=
    ⟨⟨_, _, rfl, by simp⟩, _, _, hret, by decide⟩
  refine ⟨t, ht, hret, (failing_call_keeps_iff hreach ht hcall).2 ?_⟩
  intro u hu
  obtain rfl := Option.some.inj (show some _ = some u from hu)
  refine ⟨⟨?_, ?_⟩, fun v _ => ⟨⟨?_, ?_⟩, trivial⟩⟩
  · exact fun _ _ _ h => nomatch h
  · exact fun _ h => nomatch h
  · simp [CopiesOut]
  · exact fun _ _ => ⟨fun _ h => (nomatch h), fun h => (nomatch h)⟩

end Board

end ProCamp
