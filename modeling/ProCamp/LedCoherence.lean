import ProCamp.Hw3

/-!
# The LED and its shadow

`hw3->led_on` is meant to be the level of `led_gpio` : `hw3_write` drives the pin only
where the two would differ. The handler and `hw3_ioctl` change both under `hw3->lock`.
The last statement of `hw3_probe` drives the pin low, without the lock and without
`led_on`, when the other three can already run.

`led_coherent` : the two agree whenever the lock is free, in every run where that
statement finds `led_on` clear or the holder of the lock about to drive the pin.
`write_then_probe_store` is a run where it does not.
-/

namespace ProCamp

open Machine

/-- `led_on` is 0 or 1. -/
def Hw3.IsBit (d : Hw3) : Prop :=
  d.ledOn = 0 ∨ d.ledOn = 1

/-- The pin is at the level `led_on` says. -/
def Hw3.Coherent (d : Hw3) : Prop :=
  d.led = d.ledOn

theorem Hw3.Coherent.isBit {d : Hw3} (h : d.Coherent) : d.IsBit := by
  unfold IsBit
  rw [← h]
  exact d.led.2

theorem truth_coe (v : Bit) : truth v.1 = v := by
  rcases v with ⟨v, rfl | rfl⟩ <;> rfl

/-- Driving the pin to `led_on` makes the two agree. -/
theorem Hw3.IsBit.coherent {d : Hw3} (h : d.IsBit) : (d.gpiodSetValue d.ledOn).Coherent :=
  congrArg Subtype.val (truth_coe ⟨d.ledOn, h⟩)

theorem xor_one_isBit {v : Int32} (h : v = 0 ∨ v = 1) : v ^^^ 1 = 0 ∨ v ^^^ 1 = 1 := by
  rcases h with rfl | rfl <;> decide

/-! ## What each program point relies on -/

/-- The handler's. -/
def Isr.led : Isr → Option (Hw3 → Prop)
  | .idle | .lock | .wake => none
  | .ready | .sample | .unlock => some Hw3.Coherent
  | .test => some fun d => d.IsBit ∧ (d.Coherent ∨ d.btnOn ≠ 0 ∧ d.control ≠ 0)
  | .toggle | .drive => some Hw3.IsBit

/-- A process's. -/
def Proc.led : Proc → Option (Hw3 → Prop)
  | .read _ .test | .read _ .release | .read _ .take | .read _ (.clear _)
  | .read _ (.unlock _) => some Hw3.Coherent
  | .write _ (.test val) => some fun d => d.Coherent ∨ d.ledOn ≠ val
  | .write _ (.set _) => some fun _ => True
  | .write _ (.drive val) => some fun d => d.ledOn = val
  | .write _ (.unlock val) => some fun d => d.Coherent ∧ d.ledOn = val
  | .poll (.test _) | .poll (.unlock _ _) => some Hw3.Coherent
  | .ioctl (.set _) => some fun _ => True
  | .ioctl .setDrive => some Hw3.IsBit
  | .ioctl .setUnlock | .ioctl .get | .ioctl (.getUnlock _) | .ioctl (.control _)
  | .ioctl .controlUnlock => some Hw3.Coherent
  | .idle | .ret _ _ | .read _ .lock | .read _ (.wait _) | .read _ (.copy _)
  | .write _ (.copy _) | .write _ (.lock _) | .poll .wait | .poll (.lock _)
  | .poll (.polled _ _) | .ioctl (.setGet _) | .ioctl (.setLock _) | .ioctl .getLock
  | .ioctl (.put _) | .ioctl (.controlGet _) | .ioctl (.controlLock _) => none

/-- The pin and its shadow behind `hw3->lock`. -/
def ledReliance : Reliance Hw3 where
  data := Shared.dev
  Ok := Hw3.Coherent
  isr := Isr.led
  proc := Proc.led
  proc_wake p := by
    unfold Proc.wake
    split <;> rfl
  proc_outside p hp := by
    cases hp with
    | idle => rfl
    | ret => rfl
    | start c => rcases c with _ | _ | _ | ⟨_ | _ | _ | _, _⟩ <;> rfl
  isr_idle := rfl
  data_lock _ _ := rfl

variable {i : ℕ} {s s' : Shared} {p' : Proc} {b t : Board}

theorem led_read {nonblock : Bool} {pc : ReadPc} (h : ReadMove i nonblock s pc s' p') :
    ledReliance.Keeps (.proc i) s (Proc.led (.read nonblock pc)) s' p'.led := by
  cases h with
  | acquire hfree => exact ledReliance.keeps_acquire hfree fun _ => id
  | found | empty | take => exact .inside _ _ _ id
  | clear => exact .inside _ _ _ id
  | again hnb => exact ledReliance.keeps_release fun _ => id
  | release hnb => exact ledReliance.keeps_release fun _ => id
  | unlock => exact ledReliance.keeps_release fun _ => id
  | _ => exact .outside _ _

theorem led_write {count : ℕ} {pc : WritePc} (h : WriteMove i count s pc s' p') :
    ledReliance.Keeps (.proc i) s (Proc.led (.write count pc)) s' p'.led := by
  cases h with
  | acquire hfree => exact ledReliance.keeps_acquire hfree fun _ => Or.inl
  | differs hne => exact .inside _ _ _ fun _ => trivial
  | skip heq => exact .inside _ _ _ fun hor => ⟨hor.resolve_right (not_not.2 heq), heq⟩
  | set => exact .inside _ _ _ fun _ => rfl
  | @drive val =>
    refine .inside _ _ _ fun hval => ⟨?_, hval⟩
    refine Hw3.IsBit.coherent ?_
    show s.dev.ledOn = 0 ∨ s.dev.ledOn = 1
    rw [show s.dev.ledOn = val from hval]
    exact val.2
  | unlock => exact ledReliance.keeps_release fun _ => And.left
  | _ => exact .outside _ _

theorem led_poll {pc : PollPc} (h : PollMove i s pc s' p') :
    ledReliance.Keeps (.proc i) s (Proc.led (.poll pc)) s' p'.led := by
  cases h with
  | acquire hfree => exact ledReliance.keeps_acquire hfree fun _ => id
  | test => exact .inside _ _ _ id
  | unlock => exact ledReliance.keeps_release fun _ => id
  | _ => exact .outside _ _

theorem led_ioctl {pc : IoctlPc} (h : IoctlMove i s pc s' p') :
    ledReliance.Keeps (.proc i) s (Proc.led (.ioctl pc)) s' p'.led := by
  cases h with
  | setLock hfree => exact ledReliance.keeps_acquire hfree fun _ _ => trivial
  | getLock hfree => exact ledReliance.keeps_acquire hfree fun _ => id
  | controlLock hfree => exact ledReliance.keeps_acquire hfree fun _ => id
  | @set val => exact .inside _ _ _ fun _ => (truth val).2
  | setDrive => exact .inside _ _ _ Hw3.IsBit.coherent
  | get => exact .inside _ _ _ id
  | control => exact .inside _ _ _ id
  | setUnlock | getUnlock | controlUnlock => exact ledReliance.keeps_release fun _ => id
  | _ => exact .outside _ _

theorem led_isr {level : Int32} {pc pc' : Isr} (h : IsrMove s level pc s' pc') :
    ledReliance.Keeps .isr s pc.led s' pc'.led := by
  cases h with
  | acquire hfree => exact ledReliance.keeps_acquire hfree fun _ => id
  | ready => exact .inside _ _ _ id
  | sample => exact .inside _ _ _ fun hcoh : s.dev.Coherent => ⟨hcoh.isBit, Or.inl hcoh⟩
  | toggles hbtn => exact .inside _ _ _ And.left
  | skips hbtn => exact .inside _ _ _ fun hor => hor.2.resolve_right hbtn
  | toggle => exact .inside _ _ _ xor_one_isBit
  | drive => exact .inside _ _ _ Hw3.IsBit.coherent
  | unlock => exact ledReliance.keeps_release fun _ => id
  | enter | wake => exact .outside _ _

/-! ## The store of `hw3_probe` -/

/-- The handler drives the pin before it releases the lock, whatever happens; before it has
sampled the button that is not settled. -/
def Isr.Drives (d : Hw3) : Isr → Prop
  | .toggle | .drive => True
  | .test => d.btnOn ≠ 0 ∧ d.control ≠ 0
  | _ => False

/-- The process drives the pin before it releases the lock. -/
def Proc.Drives (d : Hw3) : Proc → Prop
  | .write _ (.test val) => d.ledOn ≠ val
  | .write _ (.set _) | .write _ (.drive _) => True
  | .ioctl (.set _) | .ioctl .setDrive => True
  | _ => False

/-- `a` drives the pin before it releases the lock. -/
def Board.Drives (b : Board) : LockHolder → Prop
  | .isr => b.isr.Drives b.sh.dev
  | .proc i => (b.procs i).Drives b.sh.dev

/-- The store of `hw3_probe` finds `led_on` clear or the holder of the lock about to
drive the pin. -/
def Board.QuietProbe (b : Board) : BoardAct → Prop
  | .probe => b.sh.dev.ledOn = 0 ∨ ∃ a, b.Drives a
  | _ => True

theorem coherent_gpiodSetValue_zero {d : Hw3} (h : d.ledOn = 0) :
    (d.gpiodSetValue 0).Coherent :=
  h.symm

/-- The store keeps what the handler relies on. -/
theorem Isr.led_probe {pc : Isr} {d : Hw3} {P : Hw3 → Prop} (hpc : pc.led = some P)
    (hquiet : d.ledOn = 0 ∨ pc.Drives d) (h : P d) : P (d.gpiodSetValue 0) := by
  cases pc with
  | idle | lock | wake => cases hpc
  | ready | sample | unlock =>
    cases hpc
    exact coherent_gpiodSetValue_zero (hquiet.resolve_right id)
  | test => cases hpc; exact ⟨h.1, hquiet.imp coherent_gpiodSetValue_zero id⟩
  | toggle | drive => cases hpc; exact h

theorem Proc.led_probe {p : Proc} {d : Hw3} {P : Hw3 → Prop} (hpc : p.led = some P)
    (hquiet : d.ledOn = 0 ∨ p.Drives d) (h : P d) : P (d.gpiodSetValue 0) := by
  cases p with
  | idle | ret => cases hpc
  | read nonblock pc =>
    cases pc <;> cases hpc <;> exact coherent_gpiodSetValue_zero (hquiet.resolve_right id)
  | write count pc =>
    cases pc with
    | copy | lock => cases hpc
    | test val => cases hpc; exact hquiet.imp coherent_gpiodSetValue_zero id
    | set val => cases hpc; trivial
    | drive val => cases hpc; exact h
    | unlock val =>
      cases hpc
      exact ⟨coherent_gpiodSetValue_zero (hquiet.resolve_right id), h.2⟩
  | poll pc =>
    cases pc <;> cases hpc <;> exact coherent_gpiodSetValue_zero (hquiet.resolve_right id)
  | ioctl pc =>
    cases pc with
    | set val => cases hpc; trivial
    | setDrive => cases hpc; exact h
    | setUnlock | get | getUnlock | control | controlUnlock =>
      cases hpc
      exact coherent_gpiodSetValue_zero (hquiet.resolve_right id)
    | _ => cases hpc

/-- Only inside its critical section is the handler about to drive the pin. -/
theorem Isr.Drives.inside {pc : Isr} {d : Hw3} (h : pc.Drives d) : pc.led.isSome := by
  cases pc with
  | test | toggle | drive => rfl
  | _ => exact h.elim

theorem Proc.Drives.inside {p : Proc} {d : Hw3} (h : p.Drives d) : p.led.isSome := by
  cases p with
  | write count pc =>
    cases pc with
    | test | set | drive => rfl
    | _ => exact h.elim
  | ioctl pc =>
    cases pc with
    | set | setDrive => rfl
    | _ => exact h.elim
  | _ => exact h.elim

theorem Board.Drives.inside {a : LockHolder} (h : b.Drives a) :
    (ledReliance.view b a).isSome := by
  cases a with
  | isr => exact Isr.Drives.inside (d := b.sh.dev) h
  | proc i => exact Proc.Drives.inside (d := b.sh.dev) h

theorem led_probe (hinv : ledReliance.Holds b) (hquiet : b.sh.dev.ledOn = 0 ∨ ∃ a, b.Drives a) :
    ledReliance.Holds
      { b with sh := { b.sh with dev := b.sh.dev.gpiodSetValue 0 }, probed := true } := by
  refine Monitor.Inv.environment (d := b.sh.dev) hinv ?_ ?_
  · intro hfree _
    refine coherent_gpiodSetValue_zero (hquiet.resolve_right ?_)
    rintro ⟨a, ha⟩
    have hown := (hinv.inside_iff a).1 ha.inside
    rw [show b.sh.lock = none from hfree] at hown
    cases hown
  · intro a P ha hP
    -- whoever drives the pin holds the lock, as `a` does
    have hdrives : b.sh.dev.ledOn = 0 ∨ b.Drives a := by
      refine hquiet.imp id ?_
      rintro ⟨c, hc⟩
      obtain ⟨Q, hQ⟩ := Option.isSome_iff_exists.1 hc.inside
      rwa [hinv.eq_of_inside ha hQ]
    cases a with
    | isr => exact Isr.led_probe ha hdrives hP
    | proc i => exact Proc.led_probe ha hdrives hP

theorem led_step {a : BoardAct} (hinv : ledReliance.Holds b) (hquiet : b.QuietProbe a)
    (hstep : b.step a = some t) : ledReliance.Holds t := by
  rcases Board.step_cases hstep with ⟨i, c, rfl, hidle, rfl⟩ | ⟨i, x, s', p', rfl, hmove, rfl⟩ |
    ⟨level, rfl, hmove, hprocs, -⟩ | ⟨rfl, -, rfl⟩
  · exact ledReliance.holds_call hinv hidle
  · refine ledReliance.holds_proc hinv ?_
    generalize b.procs i = p at hmove
    cases hmove with
    | read h => exact led_read h
    | write h => exact led_write h
    | poll h => exact led_poll h
    | ioctl h => exact led_ioctl h
  · exact ledReliance.holds_isr hinv hprocs (led_isr hmove)
  · exact led_probe hinv hquiet

/-- In every run with a quiet probe, the pin is at the level `led_on` says whenever the
lock is free, and where `hw3_write` releases it the pin is at the level just requested. -/
theorem led_coherent {as : List BoardAct}
    (hquiet : EveryStep Board.step (fun u a _ => u.QuietProbe a) Board.init as)
    (h : exec Board.step Board.init as = some b) :
    (b.sh.lock = none → (b.sh.dev.ledOn = 0 ∨ b.sh.dev.ledOn = 1) ∧
      b.sh.dev.led = b.sh.dev.ledOn) ∧
    ∀ i count val, b.procs i = .write count (.unlock val) → b.sh.dev.led = val := by
  have hinv : ledReliance.Holds b := by
    refine exec_invariant (I := ledReliance.Holds) ?_ (ledReliance.holds_init rfl) hquiet h
    exact fun u a v hu hq hstep => led_step hu hq hstep
  refine ⟨fun hfree => ?_, fun i count val hpc => ?_⟩
  · have hcoh : b.sh.dev.Coherent := hinv.free hfree
    exact ⟨hcoh.isBit, hcoh⟩
  · have hview : ledReliance.view b (.proc i) =
        some fun d : Hw3 => d.Coherent ∧ d.ledOn = val := by
      show (b.procs i).led = _
      rw [hpc]
      rfl
    obtain ⟨hcoh, hval⟩ : b.sh.dev.Coherent ∧ b.sh.dev.ledOn = val := hinv.ok hview
    exact Subtype.ext (Eq.trans hcoh hval)

/-- Process 0 writes the character `1`. -/
def writeOne : List BoardAct :=
  .call 0 (.write ((Vector.replicate 10 0).set 0 49) 2) :: List.replicate 6 (.proc 0 .go)

/-- The probe returns, then process 0 turns the LED on. -/
theorem led_coherent_probe_then_write :
    ∃ b, exec Board.step Board.init (.probe :: writeOne) = some b ∧ b.sh.dev.ledOn = 1 ∧
      b.sh.dev.led = b.sh.dev.ledOn := by
  have hend : (exec Board.step Board.init (.probe :: writeOne)).map
      (fun b => (b.sh.dev.ledOn, b.sh.lock)) = some (1, none) := by decide +kernel
  obtain ⟨b, hb, heq⟩ := Option.map_eq_some_iff.1 hend
  obtain ⟨hon, hfree⟩ := Prod.mk.injEq _ _ _ _ ▸ heq
  refine ⟨b, hb, hon, ((led_coherent ?_ hb).1 hfree).2⟩
  refine fun t ht => ⟨Or.inl rfl, ?_⟩
  have hquiet : ∀ a ∈ writeOne, ∀ u : Board, u.QuietProbe a := by
    simp [writeOne, Board.QuietProbe]
  exact (everyStep_of_forall t hquiet).mono fun u a _ ha => ha u

/-- Process 0 turns the LED on before the last store of the probe : the pin is low, and a
second write of the same value succeeds without driving it. -/
theorem write_then_probe_store :
    ∃ b, exec Board.step Board.init (writeOne ++ .probe :: writeOne.take 5) = some b ∧
      b.probed = true ∧ b.sh.lock = none ∧ b.procs 0 = .ret 2 .none ∧ b.sh.dev.ledOn = 1 ∧
      b.sh.dev.led ≠ b.sh.dev.ledOn := by
  have hend : (exec Board.step Board.init (writeOne ++ .probe :: writeOne.take 5)).map
      (fun b => (b.probed, b.sh.lock, b.procs 0, b.sh.dev.ledOn, b.sh.dev.led)) =
      some (true, none, .ret 2 .none, 1, truth 0) := by decide +kernel
  obtain ⟨b, hb, heq⟩ := Option.map_eq_some_iff.1 hend
  simp only [Prod.mk.injEq] at heq
  obtain ⟨hprobed, hfree, hret, hon, hled⟩ := heq
  refine ⟨b, hb, hprobed, hfree, hret, hon, ?_⟩
  rw [hled, hon]
  decide

end ProCamp
