import ProCamp.Hw3

/-!
# Button events

An interrupt raises `data_ready` under `hw3->lock` and wakes `hw3->wait` after it. A
reader takes the event under the lock; it sleeps only after it has queued itself and
tested `data_ready` again. A poller queues itself before it tests.

The log says what this gives (`button_events`) : an event is read at most once, with the
level of its own interrupt, a poll sees exactly the unread events, and nobody sleeps
past an event without a wake-up still to come.
-/

namespace ProCamp

open Machine

/-! ## The log -/

/-- The level of the event nobody has read yet. -/
def unread : List ButtonEvent → Option Int32
  | [] => none
  | .isr level :: _ => some level
  | .read _ _ :: _ => none
  | .poll _ _ :: log => unread log

/-- An interrupt sampled the button after the last poll of process `i`. -/
def raisedSince (i : ℕ) : List ButtonEvent → Prop
  | [] => False
  | .isr _ :: _ => True
  | .read _ _ :: log => raisedSince i log
  | .poll j _ :: log => j ≠ i ∧ raisedSince i log

/-- The character of the last event process `i` took. -/
def lastRead (i : ℕ) : List ButtonEvent → Option UInt8
  | [] => none
  | .isr _ :: log => lastRead i log
  | .read j val :: log => if j = i then some val else lastRead i log
  | .poll _ _ :: log => lastRead i log

/-- The mask process `i` computed last. -/
def lastPoll (i : ℕ) : List ButtonEvent → Option UInt32
  | [] => none
  | .isr _ :: log => lastPoll i log
  | .read _ _ :: log => lastPoll i log
  | .poll j mask :: log => if j = i then some mask else lastPoll i log

/-- What `hw3_poll` answers. -/
def pollMask (log : List ButtonEvent) : UInt32 :=
  if (unread log).isSome then epollIn ||| epollRdNorm else 0

/-- Every read took an unread event and has its level, every poll answered whether there
was one. -/
def Answered : List ButtonEvent → Prop
  | [] => True
  | .isr _ :: log => Answered log
  | .read _ val :: log => (∃ level, unread log = some level ∧ val = charOf level) ∧ Answered log
  | .poll _ mask :: log => mask = pollMask log ∧ Answered log

/-- The interrupts of a log. -/
def isrs : List ButtonEvent → ℕ
  | [] => 0
  | .isr _ :: log => isrs log + 1
  | .read _ _ :: log => isrs log
  | .poll _ _ :: log => isrs log

/-- The reads of a log. -/
def reads : List ButtonEvent → ℕ
  | [] => 0
  | .isr _ :: log => reads log
  | .read _ _ :: log => reads log + 1
  | .poll _ _ :: log => reads log

theorem Answered.of_append {post log : List ButtonEvent} (h : Answered (post ++ log)) :
    Answered log := by
  induction post with
  | nil => exact h
  | cons e post ih =>
    cases e with
    | isr level => exact ih h
    | read i val => exact ih h.2
    | poll i mask => exact ih h.2

/-- Reads never outnumber interrupts, and an unread event is an interrupt to spare. -/
theorem Answered.reads_le {log : List ButtonEvent} (h : Answered log) :
    reads log + (if (unread log).isSome then 1 else 0) ≤ isrs log := by
  induction log with
  | nil => exact Nat.le_refl 0
  | cons e log ih =>
    cases e with
    | isr level =>
      have hle := ih h
      simp only [reads, isrs, unread, Option.isSome_some, if_true]
      omega
    | read i val =>
      obtain ⟨⟨level, hlevel, -⟩, hrest⟩ := h
      have hle := ih hrest
      rw [hlevel] at hle
      simpa [reads, isrs, unread] using hle
    | poll i mask => exact ih h.2

/-- An unread event was sampled after the last read. -/
theorem isr_mem_of_unread {mid log : List ButtonEvent} {i : ℕ} {val : UInt8} {level : Int32}
    (h : unread (mid ++ .read i val :: log) = some level) : .isr level ∈ mid := by
  induction mid with
  | nil => simp [unread] at h
  | cons e mid ih =>
    cases e with
    | isr level' => simp_all [unread]
    | read j val' => simp [unread] at h
    | poll j mask => exact List.mem_cons_of_mem _ (ih h)

/-! ## What each program point relies on -/

/-- The flag, the button level and the log. -/
structure EventFlag where
  dataReady : Bool
  btnOn : Int32
  log : List ButtonEvent

/-- The flag is up exactly when an event is unread, and then `btn_on` is its level. -/
def EventFlag.Ok (d : EventFlag) : Prop :=
  d.dataReady = (unread d.log).isSome ∧ ∀ level, unread d.log = some level → d.btnOn = level

/-- The handler's. -/
def Isr.event : Isr → Option (EventFlag → Prop)
  | .idle | .lock | .wake => none
  | .sample => some fun d => d.dataReady = true
  | .ready | .test | .toggle | .drive | .unlock => some EventFlag.Ok

/-- A process's. -/
def Proc.event : Proc → Option (EventFlag → Prop)
  | .read _ .take => some fun d => d.Ok ∧ d.dataReady = true
  | .read _ (.clear val) =>
    some fun d => d.Ok ∧ d.dataReady = true ∧ val = charOf d.btnOn
  | .read _ .test | .read _ .release | .read _ (.unlock _) => some EventFlag.Ok
  | .write _ (.test _) | .write _ (.set _) | .write _ (.drive _) | .write _ (.unlock _) =>
    some EventFlag.Ok
  | .poll (.test _) | .poll (.unlock _ _) => some EventFlag.Ok
  | .ioctl (.set _) | .ioctl .setDrive | .ioctl .setUnlock | .ioctl .get
  | .ioctl (.getUnlock _) | .ioctl (.control _) | .ioctl .controlUnlock => some EventFlag.Ok
  | .idle | .ret _ _ | .read _ .lock | .read _ (.wait _) | .read _ (.copy _)
  | .write _ (.copy _) | .write _ (.lock _) | .poll .wait | .poll (.lock _)
  | .poll (.polled _ _) | .ioctl (.setGet _) | .ioctl (.setLock _) | .ioctl .getLock
  | .ioctl (.put _) | .ioctl (.controlGet _) | .ioctl (.controlLock _) => none

/-- The event flag behind `hw3->lock`. -/
def eventReliance : Reliance EventFlag where
  data s := ⟨s.dev.dataReady, s.dev.btnOn, s.log⟩
  Ok := EventFlag.Ok
  isr := Isr.event
  proc := Proc.event
  proc_wake p := by
    unfold Proc.wake
    split <;> rfl
  proc_outside p hp := by
    cases hp with
    | idle => rfl
    | ret => rfl
    | start c => rcases c with _ | _ | _ | ⟨_ | _ | _ | _, _⟩ <;> rfl
  isr_idle := rfl
  data_lock _ _ := rfl

variable {i : ℕ} {s s' : Shared} {p p' : Proc} {b t : Board}

theorem event_read {nonblock : Bool} {pc : ReadPc} (h : ReadMove i nonblock s pc s' p') :
    eventReliance.Keeps (.proc i) s (Proc.event (.read nonblock pc)) s' p'.event := by
  cases h with
  | acquire hfree => exact eventReliance.keeps_acquire hfree fun _ => id
  | found hready => exact .inside _ _ _ fun hok => ⟨hok, hready⟩
  | empty => exact .inside _ _ _ id
  | take => exact .inside _ _ _ fun hok => ⟨hok.1, hok.2, rfl⟩
  | clear => exact .inside _ _ _ fun _ => ⟨rfl, fun _ hnone => nomatch hnone⟩
  | again | release | unlock => exact eventReliance.keeps_release fun _ => id
  | _ => exact .outside _ _

theorem event_write {count : ℕ} {pc : WritePc} (h : WriteMove i count s pc s' p') :
    eventReliance.Keeps (.proc i) s (Proc.event (.write count pc)) s' p'.event := by
  cases h with
  | acquire hfree => exact eventReliance.keeps_acquire hfree fun _ => id
  | differs | skip | set | drive => exact .inside _ _ _ id
  | unlock => exact eventReliance.keeps_release fun _ => id
  | _ => exact .outside _ _

theorem event_poll {pc : PollPc} (h : PollMove i s pc s' p') :
    eventReliance.Keeps (.proc i) s (Proc.event (.poll pc)) s' p'.event := by
  cases h with
  | acquire hfree => exact eventReliance.keeps_acquire hfree fun _ => id
  | test => exact .inside _ _ _ id
  | unlock => exact eventReliance.keeps_release fun _ => id
  | _ => exact .outside _ _

theorem event_ioctl {pc : IoctlPc} (h : IoctlMove i s pc s' p') :
    eventReliance.Keeps (.proc i) s (Proc.event (.ioctl pc)) s' p'.event := by
  cases h with
  | setLock hfree | getLock hfree | controlLock hfree =>
    exact eventReliance.keeps_acquire hfree fun _ => id
  | set | setDrive | get | control => exact .inside _ _ _ id
  | setUnlock | getUnlock | controlUnlock => exact eventReliance.keeps_release fun _ => id
  | _ => exact .outside _ _

theorem event_isr {level : Int32} {pc pc' : Isr} (h : IsrMove s level pc s' pc') :
    eventReliance.Keeps .isr s pc.event s' pc'.event := by
  cases h with
  | acquire hfree => exact eventReliance.keeps_acquire hfree fun _ => id
  | ready => exact .inside _ _ _ fun _ => rfl
  | sample =>
    refine .inside _ _ _ fun hready => ⟨hready, fun level' hlevel => ?_⟩
    exact Option.some.inj hlevel
  | toggles | skips | toggle | drive => exact .inside _ _ _ id
  | unlock => exact eventReliance.keeps_release fun _ => id
  | enter | wake => exact .outside _ _

/-! ## Wake-ups -/

/-- The handler has raised the flag and not yet woken the queue. -/
def Isr.WakePending : Isr → Prop
  | .sample | .test | .toggle | .drive | .unlock | .wake => True
  | .idle | .lock | .ready => False

/-- The reader is asleep or past its last test. -/
def Proc.Sleeps : Proc → Prop
  | .read _ (.wait w) => w.Committed
  | _ => False

/-- The poller has its answer and has not been woken since it queued itself. -/
def Proc.Polled : Proc → Prop
  | .poll (.unlock _ false) | .poll (.polled _ false) => True
  | _ => False

/-- The character of the event the process took. -/
def Proc.handing : Proc → Option UInt8
  | .read _ (.unlock val) | .read _ (.copy val) => some val
  | .ret _ (.bytes (val :: _)) => some val
  | _ => none

theorem Proc.not_sleeps_wake (p : Proc) : ¬p.wake.Sleeps := by
  cases p with
  | read nonblock pc =>
    cases pc with
    | wait w => exact w.not_committed_wake
    | _ => exact id
  | poll pc => cases pc <;> exact id
  | _ => exact id

theorem Proc.not_polled_wake (p : Proc) : ¬p.wake.Polled := by
  cases p with
  | read nonblock pc => cases pc <;> exact id
  | poll pc => cases pc <;> exact id
  | _ => exact id

theorem Proc.handing_wake (p : Proc) : p.wake.handing = p.handing := by
  unfold wake
  split <;> rfl

/-- What a step of process `i` does to the flag, the log and its own part in them. -/
structure EventFrame (i : ℕ) (s s' : Shared) (p p' : Proc) : Prop where
  ready : s'.dev.dataReady = true → s.dev.dataReady = true
  sleeps : p'.Sleeps → s'.dev.dataReady = true → p.Sleeps
  polled : p'.Polled → raisedSince i s'.log → p.Polled
  raised : ∀ j, raisedSince j s'.log → raisedSince j s.log
  lastRead_ne : ∀ j, j ≠ i → lastRead j s'.log = lastRead j s.log
  handing : ∀ val, p'.handing = some val →
    lastRead i s'.log = some val ∨ p.handing = some val ∧ lastRead i s'.log = lastRead i s.log

/-- A step that leaves the flag and the log alone. -/
theorem EventFrame.of_eq (hready : s'.dev.dataReady = s.dev.dataReady) (hlog : s'.log = s.log)
    (hsleeps : p'.Sleeps → s.dev.dataReady = true → p.Sleeps) (hpolled : p'.Polled → p.Polled)
    (hhanding : p'.handing = none ∨ p'.handing = p.handing) : EventFrame i s s' p p' where
  ready h := hready ▸ h
  sleeps h h' := hsleeps h (hready ▸ h')
  polled h _ := hpolled h
  raised j h := hlog ▸ h
  lastRead_ne j _ := by rw [hlog]
  handing val h := by
    rcases hhanding with hnone | hsame
    · rw [hnone] at h
      cases h
    · exact Or.inr ⟨hsame ▸ h, by rw [hlog]⟩

theorem eventFrame_read {nonblock : Bool} {pc : ReadPc} (h : ReadMove i nonblock s pc s' p') :
    EventFrame i s s' (.read nonblock pc) p' := by
  cases h with
  | clear =>
    refine ⟨fun h => (nomatch h), fun h => h.elim, fun h => h.elim, fun j h => h, fun j hj => ?_,
      fun val h => Or.inl ?_⟩
    · exact if_neg hj.symm
    · exact (if_pos rfl).trans h
  | wait hw =>
    refine .of_eq rfl rfl (fun hsleeps hready => ?_) id (Or.inl rfl)
    exact (WaitEvent.Committed.of_step hw hsleeps).resolve_right (by simp [hready])
  | unlock | copy => exact .of_eq rfl rfl (fun h => h.elim) (fun h => h.elim) (Or.inr rfl)
  | _ => exact .of_eq rfl rfl (fun h => h.elim) (fun h => h.elim) (Or.inl rfl)

theorem eventFrame_write {count : ℕ} {pc : WritePc} (h : WriteMove i count s pc s' p') :
    EventFrame i s s' (.write count pc) p' := by
  cases h <;> exact .of_eq rfl rfl (fun h => h.elim) (fun h => h.elim) (Or.inl rfl)

theorem eventFrame_poll {pc : PollPc} (h : PollMove i s pc s' p') :
    EventFrame i s s' (.poll pc) p' := by
  cases h with
  | test =>
    exact ⟨id, fun h => h.elim, fun _ h => absurd rfl h.1, fun j h => h.2, fun j _ => rfl,
      fun val h => (nomatch h)⟩
  | @unlock mask triggered =>
    refine .of_eq rfl rfl (fun h => h.elim) (fun h => ?_) (Or.inl rfl)
    cases triggered
    · trivial
    · exact h.elim
  | _ => exact .of_eq rfl rfl (fun h => h.elim) (fun h => h.elim) (Or.inl rfl)

theorem eventFrame_ioctl {pc : IoctlPc} (h : IoctlMove i s pc s' p') :
    EventFrame i s s' (.ioctl pc) p' := by
  cases h <;> exact .of_eq rfl rfl (fun h => h.elim) (fun h => h.elim) (Or.inl rfl)

/-! ## Every run -/

/-- The log is answered, and nobody sleeps past an event or hands out another's. -/
structure EventsInv (b : Board) : Prop where
  holds : eventReliance.Holds b
  answered : Answered b.sh.log
  sleeps : ∀ i, (b.procs i).Sleeps → b.sh.dev.dataReady = true → b.isr.WakePending
  polled : ∀ i, (b.procs i).Polled → raisedSince i b.sh.log → b.isr.WakePending
  handing : ∀ i val, (b.procs i).handing = some val → lastRead i b.sh.log = some val

theorem eventsInv_init : EventsInv Board.init where
  holds := eventReliance.holds_init ⟨rfl, fun _ h => nomatch h⟩
  answered := trivial
  sleeps _ h := h.elim
  polled _ h := h.elim
  handing _ _ h := nomatch h

theorem eventFrame_call {c : Call} : EventFrame i s s p c.start := by
  rcases c with _ | _ | _ | ⟨_ | _ | _ | _, _⟩ <;>
    exact .of_eq rfl rfl (fun h => h.elim) (fun h => h.elim) (Or.inl rfl)

theorem eventFrame_proc (h : ProcMove i s p s' p') : EventFrame i s s' p p' := by
  cases h with
  | read h => exact eventFrame_read h
  | write h => exact eventFrame_write h
  | poll h => exact eventFrame_poll h
  | ioctl h => exact eventFrame_ioctl h

theorem event_proc (h : ProcMove i s p s' p') :
    eventReliance.Keeps (.proc i) s p.event s' p'.event := by
  cases h with
  | read h => exact event_read h
  | write h => exact event_write h
  | poll h => exact event_poll h
  | ioctl h => exact event_ioctl h

/-- A flag that is up is the level of the unread event. -/
theorem EventFlag.Ok.unread_eq {d : EventFlag} (h : d.Ok) (hready : d.dataReady = true) :
    unread d.log = some d.btnOn := by
  obtain ⟨level, hlevel⟩ := Option.isSome_iff_exists.1 (h.1 ▸ hready)
  rw [hlevel, h.2 level hlevel]

/-- A step of a process adds to the log what the flag says. -/
theorem answered_proc (h : ProcMove i s p s' p')
    (hview : ∀ P, p.event = some P → P (eventReliance.data s)) (hans : Answered s.log) :
    Answered s'.log := by
  cases h with
  | read h =>
    cases h with
    | clear =>
      obtain ⟨hok, hready, hval⟩ := hview _ rfl
      exact ⟨⟨s.dev.btnOn, hok.unread_eq hready, hval⟩, hans⟩
    | _ => exact hans
  | write h => cases h <;> exact hans
  | poll h =>
    cases h with
    | test hmask =>
      refine ⟨?_, hans⟩
      have hok : s.dev.dataReady = (unread s.log).isSome := (hview EventFlag.Ok rfl).1
      rw [hmask, pollMask, hok]
    | _ => exact hans
  | ioctl h => cases h <;> exact hans

/-- A step of process `i`, given what it does to the flag, the log and itself. -/
theorem EventsInv.update (hinv : EventsInv b) (hframe : EventFrame i b.sh s' (b.procs i) p')
    (hholds : eventReliance.Holds { b with sh := s', procs := Function.update b.procs i p' })
    (hans : Answered s'.log) :
    EventsInv { b with sh := s', procs := Function.update b.procs i p' } where
  holds := hholds
  answered := hans
  sleeps := by
    refine (Function.forall_update_iff _ fun _ (q : Proc) =>
      q.Sleeps → s'.dev.dataReady = true → b.isr.WakePending).2 ⟨fun hp hready => ?_, ?_⟩
    · exact hinv.sleeps i (hframe.sleeps hp hready) (hframe.ready hready)
    · exact fun j _ hj hready => hinv.sleeps j hj (hframe.ready hready)
  polled := by
    refine (Function.forall_update_iff _ fun j (q : Proc) =>
      q.Polled → raisedSince j s'.log → b.isr.WakePending).2 ⟨fun hp hraised => ?_, ?_⟩
    · exact hinv.polled i (hframe.polled hp hraised) (hframe.raised i hraised)
    · exact fun j _ hj hraised => hinv.polled j hj (hframe.raised j hraised)
  handing := by
    refine (Function.forall_update_iff _ fun j (q : Proc) =>
      ∀ val, q.handing = some val → lastRead j s'.log = some val).2 ⟨fun val hp => ?_, ?_⟩
    · rcases hframe.handing val hp with h | ⟨h, hlog⟩
      · exact h
      · exact hlog.trans (hinv.handing i val h)
    · exact fun j hj val hval => (hframe.lastRead_ne j hj).trans (hinv.handing j val hval)

/-- A step of the handler keeps the log answered and every process's last event. -/
theorem log_isr {level : Int32} {pc pc' : Isr} (h : IsrMove s level pc s' pc') :
    (Answered s.log → Answered s'.log) ∧ ∀ j, lastRead j s'.log = lastRead j s.log := by
  cases h <;> exact ⟨id, fun _ => rfl⟩

/-- The handler leaves a wake-up pending, has just woken every process, or has raised
nothing. -/
theorem wakePending_isr {level : Int32} (h : IsrMove b.sh level b.isr t.sh t.isr)
    (hprocs : t.procs = b.afterIsr) :
    t.isr.WakePending ∨ (∀ i, t.procs i = (b.procs i).wake) ∨
      ¬b.isr.WakePending ∧ t.procs = b.procs ∧ t.sh.log = b.sh.log ∧
        t.sh.dev.dataReady = b.sh.dev.dataReady := by
  generalize hpc : b.isr = pc at h
  generalize hpc' : t.isr = pc' at h
  generalize hsh : t.sh = s' at h
  cases h with
  | enter | acquire =>
    have hne : b.isr ≠ .wake := by simp [hpc]
    exact Or.inr (Or.inr ⟨id, hprocs.trans (if_neg hne), rfl, rfl⟩)
  | wake => exact Or.inr (Or.inl fun i => by rw [hprocs, Board.afterIsr, if_pos hpc])
  | _ => exact Or.inl trivial

theorem EventsInv.isr {level : Int32} (hinv : EventsInv b)
    (hmove : IsrMove b.sh level b.isr t.sh t.isr) (hprocs : t.procs = b.afterIsr) :
    EventsInv t := by
  have hholds := eventReliance.holds_isr hinv.holds hprocs (event_isr hmove)
  have hlog := log_isr hmove
  have hhanding : ∀ i, (t.procs i).handing = (b.procs i).handing := by
    intro i
    rw [hprocs, Board.afterIsr]
    split_ifs
    · exact Proc.handing_wake _
    · rfl
  refine ⟨hholds, hlog.1 hinv.answered, fun i hi hready => ?_, fun i hi hraised => ?_,
    fun i val hi => ?_⟩
  · rcases wakePending_isr hmove hprocs with hpending | hwake | ⟨hidle, hsame, -, hdata⟩
    · exact hpending
    · exact absurd (hwake i ▸ hi) (Proc.not_sleeps_wake _)
    · exact absurd (hinv.sleeps i (hsame ▸ hi) (hdata ▸ hready)) hidle
  · rcases wakePending_isr hmove hprocs with hpending | hwake | ⟨hidle, hsame, hlog, -⟩
    · exact hpending
    · exact absurd (hwake i ▸ hi) (Proc.not_polled_wake _)
    · exact absurd (hinv.polled i (hsame ▸ hi) (hlog ▸ hraised)) hidle
  · rw [hlog.2 i]
    exact hinv.handing i val (hhanding i ▸ hi)

theorem EventsInv.step {a : BoardAct} (hinv : EventsInv b) (hstep : b.step a = some t) :
    EventsInv t := by
  rcases Board.step_cases hstep with ⟨i, c, rfl, hidle, rfl⟩ | ⟨i, x, s', p', rfl, hmove, rfl⟩ |
    ⟨level, rfl, hmove, hprocs, -⟩ | ⟨rfl, -, rfl⟩
  · exact hinv.update eventFrame_call (eventReliance.holds_call hinv.holds hidle) hinv.answered
  · refine hinv.update (eventFrame_proc hmove)
      (eventReliance.holds_proc hinv.holds (event_proc hmove)) ?_
    refine answered_proc hmove (fun P hP => ?_) hinv.answered
    exact hinv.holds.ok (a := .proc i) hP
  · exact hinv.isr hmove hprocs
  · exact ⟨hinv.holds, hinv.answered, hinv.sleeps, hinv.polled, hinv.handing⟩

/-! ## What a poll returns -/

/-- The mask `hw3_poll` returns, or has returned. -/
def Proc.answer : Proc → Option UInt32
  | .poll (.unlock mask _) | .poll (.polled mask _) => some mask
  | _ => none

theorem Proc.answer_wake (p : Proc) : p.wake.answer = p.answer := by
  unfold wake
  split <;> rfl

/-- A process has a mask from its own computation, and computes no other's. -/
theorem answer_proc (h : ProcMove i s p s' p') :
    (∀ j, j ≠ i → lastPoll j s'.log = lastPoll j s.log) ∧
      ∀ mask, p'.answer = some mask → lastPoll i s'.log = some mask ∨
        p.answer = some mask ∧ lastPoll i s'.log = lastPoll i s.log := by
  cases h with
  | read h => cases h <;> exact ⟨fun _ _ => rfl, fun _ h => nomatch h⟩
  | write h => cases h <;> exact ⟨fun _ _ => rfl, fun _ h => nomatch h⟩
  | ioctl h => cases h <;> exact ⟨fun _ _ => rfl, fun _ h => nomatch h⟩
  | poll h =>
    cases h with
    | test => exact ⟨fun j hj => if_neg hj.symm, fun mask h => Or.inl ((if_pos rfl).trans h)⟩
    | unlock => exact ⟨fun _ _ => rfl, fun _ h => Or.inr ⟨h, rfl⟩⟩
    | _ => exact ⟨fun _ _ => rfl, fun _ h => nomatch h⟩

theorem lastPoll_isr {level : Int32} {pc pc' : Isr} (h : IsrMove s level pc s' pc') (j : ℕ) :
    lastPoll j s'.log = lastPoll j s.log := by
  cases h <;> rfl

/-- Every poll returns the mask it computed. -/
def PollsInv (b : Board) : Prop :=
  ∀ i mask, (b.procs i).answer = some mask → lastPoll i b.sh.log = some mask

theorem pollsInv_init : PollsInv Board.init := by
  intro i mask hmask
  cases hmask

theorem PollsInv.step {a : BoardAct} (hinv : PollsInv b) (hstep : b.step a = some t) :
    PollsInv t := by
  rcases Board.step_cases hstep with ⟨i, c, rfl, -, rfl⟩ | ⟨i, x, s', p', rfl, hmove, rfl⟩ |
    ⟨level, rfl, hmove, hprocs, -⟩ | ⟨rfl, -, rfl⟩
  · refine (Function.forall_update_iff _ fun j (q : Proc) =>
      ∀ mask, q.answer = some mask → lastPoll j b.sh.log = some mask).2 ⟨?_, fun j _ => hinv j⟩
    rcases c with _ | _ | _ | ⟨_ | _ | _ | _, _⟩ <;> exact fun _ h => nomatch h
  · obtain ⟨hothers, hself⟩ := answer_proc hmove
    refine (Function.forall_update_iff _ fun j (q : Proc) =>
      ∀ mask, q.answer = some mask → lastPoll j s'.log = some mask).2 ⟨fun mask hp => ?_, ?_⟩
    · rcases hself mask hp with hnew | ⟨hold, hsame⟩
      · exact hnew
      · exact hsame.trans (hinv i mask hold)
    · exact fun j hj mask hmask => (hothers j hj).trans (hinv j mask hmask)
  · intro i mask hmask
    rw [lastPoll_isr hmove i]
    refine hinv i mask ?_
    rw [hprocs, Board.afterIsr] at hmask
    split_ifs at hmask
    · rwa [Proc.answer_wake] at hmask
    · exact hmask
  · exact hinv

/-- What readers and pollers are promised. -/
structure ButtonEvents (b : Board) : Prop where
  /-- A reader asleep on a raised flag has a wake-up still to come. -/
  awake : ∀ i nonblock, b.procs i = .read nonblock (.wait .asleep) →
    b.sh.dev.dataReady = true → b.isr.WakePending
  /-- Two reads have an interrupt between them. -/
  one_read : ∀ post mid pre i j c d, b.sh.log = post ++ .read j d :: (mid ++ .read i c :: pre) →
    ∃ level, .isr level ∈ mid
  reads_le : reads b.sh.log ≤ isrs b.sh.log
  /-- A read takes the level of the last interrupt before it. -/
  level : ∀ post pre i c, b.sh.log = post ++ .read i c :: pre →
    ∃ level, unread pre = some level ∧ c = charOf level
  /-- A process that returned a character returned that of its last read. -/
  handed : ∀ i r c rest, b.procs i = .ret r (.bytes (c :: rest)) → lastRead i b.sh.log = some c
  /-- A poll is readable exactly when an event is unread. -/
  readable : ∀ post pre i mask, b.sh.log = post ++ .poll i mask :: pre →
    mask = if (unread pre).isSome then epollIn ||| epollRdNorm else 0
  /-- A process that returned a mask returned that of its last poll. -/
  polled : ∀ i mask triggered, b.procs i = .poll (.polled mask triggered) →
    lastPoll i b.sh.log = some mask
  /-- An event after a poll has a wake-up for it, done or still to come. -/
  woken : ∀ i mask triggered, b.procs i = .poll (.unlock mask triggered) ∨
      b.procs i = .poll (.polled mask triggered) →
    raisedSince i b.sh.log → triggered = true ∨ b.isr.WakePending

/-- In every run, whatever the number of readers and pollers. -/
theorem button_events {as : List BoardAct} (h : exec Board.step Board.init as = some b) :
    ButtonEvents b := by
  have hinv : EventsInv b :=
    exec_invariant_of_step (fun u a v hu hstep => hu.step hstep) eventsInv_init h
  have hpolls : PollsInv b :=
    exec_invariant_of_step (fun u a v hu hstep => hu.step hstep) pollsInv_init h
  refine ⟨fun i nonblock hpc hready => ?_, fun post mid pre i j c d hlog => ?_, ?_,
    fun post pre i c hlog => ?_, fun i r c rest hpc => ?_, fun post pre i mask hlog => ?_,
    fun i mask triggered hpc => ?_, fun i mask triggered hpc hraised => ?_⟩
  · exact hinv.sleeps i (by rw [hpc]; trivial) hready
  · obtain ⟨⟨level, hlevel, -⟩, -⟩ := Answered.of_append (hlog ▸ hinv.answered)
    exact ⟨level, isr_mem_of_unread hlevel⟩
  · exact Nat.le_of_add_right_le hinv.answered.reads_le
  · obtain ⟨hlevel, -⟩ := Answered.of_append (hlog ▸ hinv.answered)
    exact hlevel
  · exact hinv.handing i c (by rw [hpc]; rfl)
  · obtain ⟨hmask, -⟩ := Answered.of_append (hlog ▸ hinv.answered)
    exact hmask
  · exact hpolls i mask (by rw [hpc]; rfl)
  · cases triggered with
    | true => exact Or.inl rfl
    | false =>
      refine Or.inr (hinv.polled i ?_ hraised)
      rcases hpc with hpc | hpc <;> (rw [hpc]; trivial)

/-- Process 0 sleeps until a press, process 1 polls, process 0 reads, process 2 goes to sleep,
and the handler has sampled the release. -/
def pressRun : List BoardAct :=
  .call 0 (.read false) :: (List.replicate 7 (.proc 0 .go) ++ List.replicate 9 (.isr 1)) ++
    .call 1 .poll :: (List.replicate 4 (.proc 1 .go) ++ List.replicate 8 (.proc 0 .go)) ++
    .call 2 (.read false) :: (List.replicate 7 (.proc 2 .go) ++ List.replicate 4 (.isr 0))

/-- The poll was readable and the read got `1`, each what it logged; the sleeper has a
wake-up for the release still to come. -/
theorem button_events_press :
    ∃ b, exec Board.step Board.init pressRun = some b ∧ b.procs 0 = .ret 2 (.bytes [49, 0]) ∧
      b.procs 1 = .poll (.polled (epollIn ||| epollRdNorm) false) ∧
      b.procs 2 = .read false (.wait .asleep) ∧ b.isr.WakePending ∧
      lastRead 0 b.sh.log = some 49 ∧ lastPoll 1 b.sh.log = some (epollIn ||| epollRdNorm) ∧
      (epollIn ||| epollRdNorm =
        if (unread [.isr 1]).isSome then epollIn ||| epollRdNorm else 0) ∧
      reads b.sh.log ≤ isrs b.sh.log := by
  have hend : (exec Board.step Board.init pressRun).map
      (fun b => (b.procs 0, b.procs 1, b.procs 2, b.sh.dev.dataReady, b.sh.log)) =
      some (.ret 2 (.bytes [49, 0]), .poll (.polled (epollIn ||| epollRdNorm) false),
        .read false (.wait .asleep), true,
        [.isr 0, .read 0 49, .poll 1 (epollIn ||| epollRdNorm), .isr 1]) := by decide +kernel
  obtain ⟨b, hb, heq⟩ := Option.map_eq_some_iff.1 hend
  simp only [Prod.mk.injEq] at heq
  obtain ⟨hread, hpoll, hsleeper, hready, hlog⟩ := heq
  have hevents := button_events hb
  exact ⟨b, hb, hread, hpoll, hsleeper, hevents.awake 2 false hsleeper hready,
    hevents.handed 0 2 49 [0] hread, hevents.polled 1 _ false hpoll,
    hevents.readable [.isr 0, .read 0 49] [.isr 1] 1 _ hlog, hevents.reads_le⟩

end ProCamp
