import Mathlib.Logic.Relation
import ProCamp.DriverInvariant

/-!
# Polls of a drained ring

A frame is copied whole or not at all, and the empty ring of `buffersize` bytes has room
for `buffersize - 1`. `Polls` is a poll that no other thread gets in the way of;
`polls_polled` computes the state it leaves, and with it `platDummyWork` is what the
steps of `Driver` add up to.

The size register may hold up to `MEM_SIZE`, more than the ring ever has room for. A
frame of that kind is refused by every poll of every run (`oversized_frame_stays`), also
by those that find the ring empty, and the READY bit stays set.
-/

namespace ProCamp

open CyclicBuffer PlatDummyDevice Driver Machine

/-- The work has found no room, or has yet to look for it. -/
def Work.Refuses (size : ℕ) : Work → Prop
  | .idle _ | .lock _ | .size _ | .reject | .exit _ => True
  | .space _ n => size ≤ n
  | .put .. | .wrap .. | .unlock _ | .wake _ | .clear _ => False

namespace Driver

/-- The work goes on with its poll until it is queued again. -/
def workNext (s : Driver) : Option Act :=
  match s.work with
  | .idle _ => none
  | _ => some (.work .go)

/-- One poll, from the sampling of the flag until the work is queued again, with no step
of another thread in between. -/
def Polls (s t : Driver) : Prop :=
  (∃ last, s.work = .idle last) ∧ ∃ u, s.step (.work .go) = some u ∧ RunsTo step workNext u t

/-- The frame in the window has gone into the empty ring and the READY bit is clear. -/
structure TookFrame (s t : Driver) : Prop where
  unread : t.dev.unread = (List.range' 0 (clampSize s.io.size.toNat)).map s.io.mem
  ready : dataReady t.io.flag = false

/-- Polls change nothing any more, however many there are. -/
def Stuck (s : Driver) : Prop :=
  ∀ t, Relation.ReflTransGen Polls s t → t = { s with work := t.work }

variable {size : ℕ} {s t u : Driver} {last : PollEnd} {i : ℕ} {x : Input}

theorem Polls.unique (ht : s.Polls t) (hu : s.Polls u) : t = u := by
  obtain ⟨-, v, hv, hrest⟩ := ht
  obtain ⟨-, v', hv', hrest'⟩ := hu
  obtain rfl := Option.some.inj (hv.symm.trans hv')
  exact hrest.unique hrest'

/-! ## The state a poll leaves -/

/-- `s` after a poll that copied the frame. -/
def copied (s : Driver) (status : UInt32) (dev : PlatDummyDevice) (frame : List UInt8) : Driver :=
  { s with
    dev := dev
    io := { s.io with flag := clearReady status }
    rdMutex := none
    readers := fun i => wakeReader (s.readers i)
    work := .idle .copied
    frame := []
    frames := s.frames ++ [frame] }

/-- `s` after a poll. -/
def polled (s : Driver) : Driver :=
  if dataReady s.io.flag then
    if s.dev.fits (clampSize s.io.size.toNat) then
      s.copied s.io.flag (copyLoop s.io.mem 0 (clampSize s.io.size.toNat) s.dev)
        (s.frame ++ (List.range' 0 (clampSize s.io.size.toNat)).map s.io.mem)
    else { s with work := .idle .noSpace, rdMutex := none }
  else { s with work := .idle .noData }

/-- The poll of `PlatDummyDevice` is the poll of the step model. -/
theorem polled_eq_platDummyWork (s : Driver) :
    (s.polled.dev, s.polled.io) = s.dev.platDummyWork s.io := by
  unfold polled platDummyWork
  by_cases hready : dataReady s.io.flag
  · by_cases hfits : s.dev.fits (clampSize s.io.size.toNat)
    · simp [hready, hfits, copied]
    · simp [hready, hfits]
  · simp [hready]

/-- The way out of the critical section of a poll that copied its frame. -/
theorem runsTo_unlock {status : UInt32} (hpc : s.work = .unlock status) :
    RunsTo step workNext s { s with
      io := { s.io with flag := clearReady status }
      rdMutex := none
      readers := fun i => wakeReader (s.readers i)
      work := .idle .copied } := by
  refine .step (by simp [workNext, hpc]; rfl) (by simp [step, workStep, hpc]; rfl) ?_
  refine .step (by simp [workNext]; rfl) (by simp [step, workStep]; rfl) ?_
  refine .step (by simp [workNext]; rfl) (by simp [step, workStep]; rfl) ?_
  refine .step (by simp [workNext]; rfl) (by simp [step, workStep]; rfl) ?_
  exact .halt rfl

/-- The copy loop with `n` bytes to go. -/
theorem runsTo_put {status : UInt32} {count n : ℕ} (hpc : s.work = .put status count i)
    (hn : i + n = count) :
    RunsTo step workNext s (s.copied status (copyLoop s.io.mem i n s.dev)
      (s.frame ++ (List.range' i n).map s.io.mem)) := by
  induction n generalizing s i with
  | zero =>
    have hend : ¬i < count := by omega
    refine .step (by simp [workNext, hpc]; rfl) (by simp [step, workStep, hpc, hend]; rfl) ?_
    simpa [copied, copyLoop] using runsTo_unlock (s := { s with
      work := .unlock status, frames := s.frames ++ [s.frame], frame := [] }) rfl
  | succ n ih =>
    have hnext : i < count := by omega
    refine .step (by simp [workNext, hpc]; rfl) (by simp [step, workStep, hpc, hnext]; rfl) ?_
    refine .step (by simp [workNext]; rfl) (by simp [step, workStep]; rfl) ?_
    have hrest := ih (s := { s with
      work := .put status count (i + 1)
      dev := (s.dev.putByte (s.io.mem i)).wrapWpEq
      frame := s.frame ++ [s.io.mem i] }) rfl (by omega)
    simpa [copied, copyLoop, List.range'_succ] using hrest

/-- A poll that can take the lock runs to its end. -/
theorem polls_polled (hidle : s.work = .idle last) (hfree : s.rdMutex = none) :
    s.Polls s.polled := by
  refine ⟨⟨last, hidle⟩, ?_⟩
  by_cases hready : dataReady s.io.flag
  · refine ⟨{ s with work := .lock s.io.flag }, by simp [step, workStep, hidle, hready], ?_⟩
    refine .step (by simp [workNext]; rfl) (by simp [step, workStep, hfree]; rfl) ?_
    refine .step (by simp [workNext]; rfl) (by simp [step, workStep]; rfl) ?_
    by_cases hfits : s.dev.fits (clampSize s.io.size.toNat)
    · refine .step (by simp [workNext]; rfl) (by simp [step, workStep, hfits]; rfl) ?_
      have hrest := runsTo_put (s := { s with
        work := .put s.io.flag (clampSize s.io.size.toNat) 0
        rdMutex := some .work }) rfl (Nat.zero_add _)
      simpa [polled, hready, hfits, copied] using hrest
    · refine .step (by simp [workNext]; rfl) (by simp [step, workStep, hfits]; rfl) ?_
      refine .step (by simp [workNext]; rfl) (by simp [step, workStep]; rfl) ?_
      refine .step (by simp [workNext]; rfl) (by simp [step, workStep]; rfl) ?_
      simpa [polled, hready, hfits] using RunsTo.halt rfl
  · refine ⟨{ s with work := .exit .noData }, by simp [step, workStep, hidle, hready], ?_⟩
    refine .step (by simp [workNext]; rfl) (by simp [step, workStep]; rfl) ?_
    simpa [polled, hready] using RunsTo.halt rfl

/-! ## Frames that fit the empty ring -/

/-- A poll of the empty ring takes any frame of up to `N - 1` bytes. -/
theorem tookFrame_polled (hok : RingOk size s.dev) (hready : dataReady s.io.flag = true)
    (hempty : s.dev.rp = s.dev.wp) (hfits : clampSize s.io.size.toNat < size) :
    s.TookFrame s.polled := by
  obtain ⟨hv, rfl⟩ := hok
  have hunread : s.dev.unread = [] := by
    rw [unread, hempty, contents_self]
  have hfit : s.dev.fits (clampSize s.io.size.toNat) = true := by
    rw [hv.fits_iff, hunread]
    simpa using hfits
  have hwork := polled_eq_platDummyWork s
  have hio : s.polled.io = (s.dev.platDummyWork s.io).2 := congrArg Prod.snd hwork
  have hdev : s.polled.dev = (s.dev.platDummyWork s.io).1 := congrArg Prod.fst hwork
  refine ⟨?_, ?_⟩
  · rw [hdev, (hv.platDummyWork s.io).2, if_pos ⟨hready, hfit⟩, hunread, List.nil_append]
  · rw [hio, platDummyWork]
    simp [hready, hfit]

/-! ## Frames that never fit -/

/-- The frame in the window is larger than the ring ever has room for, and the work is
not past finding that out. -/
structure Refuses (size : ℕ) (s : Driver) : Prop where
  inv : s.Inv size
  large : size ≤ clampSize s.io.size.toNat
  work : s.work.Refuses size

theorem WorkMove.refuses (hmove : WorkMove s t) (h : s.Refuses size) :
    t.io = s.io ∧ t.dev = s.dev ∧ t.frames = s.frames ∧ t.work.Refuses size := by
  obtain ⟨hinv, hlarge, hwork⟩ := h
  cases hmove with
  | @fits status n hpc hfits =>
    obtain ⟨⟨hv, rfl⟩, -⟩ := hinv.ok (a := .work) (by rw [view, hpc]; rfl)
    have hroom := (hv.fits_iff _).1 hfits
    have hn : s.dev.buffersize ≤ n := by simpa [hpc, Work.Refuses] using hwork
    omega
  | size hpc => exact ⟨rfl, rfl, rfl, hlarge⟩
  | put hpc | copied hpc | wrap hpc | release hpc | wake hpc | clear hpc =>
    simp [hpc, Work.Refuses] at hwork
  | noData | sample | acquire | interrupted | noSpace | reject | exit =>
    exact ⟨rfl, rfl, rfl, trivial⟩

theorem refuses_step {y : Act} (h : s.Refuses size) (hstore : ∀ st, y ≠ .store st)
    (hstep : s.step y = some t) : t.Refuses size ∧ t.io = s.io ∧ t.frames = s.frames := by
  have hinv := inv_step h.inv hstep
  by_cases hwork : ∃ x, y = .work x
  · obtain ⟨x, rfl⟩ := hwork
    obtain ⟨hio, -, hframes, hpc⟩ := (workStep_move hstep).refuses h
    exact ⟨⟨hinv, hio ▸ h.large, hpc⟩, hio, hframes⟩
  · obtain ⟨hio, hpc, -, hframes⟩ := frame_of_not_work hstep (fun x hx => hwork ⟨x, hx⟩) hstore
    exact ⟨⟨hinv, hio ▸ h.large, hpc ▸ h.work⟩, hio, hframes⟩

/-- No thread can bring in a frame as large as the ring : as long as no process stores
to the window or the registers, every run leaves the registers as they are and copies
nothing. -/
theorem oversized_frame_stays {as : List Act} (h : s.Refuses size)
    (hstore : ∀ st, Act.store st ∉ as) (hrun : exec step s as = some t) :
    t.io = s.io ∧ t.frames = s.frames := by
  have hno : EveryStep step (fun _ y _ => ∀ st, y ≠ .store st) s as :=
    everyStep_of_forall s fun y hy st hst => hstore st (hst ▸ hy)
  exact (exec_invariant (I := fun u => u.Refuses size ∧ u.io = s.io ∧ u.frames = s.frames)
    (fun u y v hu hy hstep => by
      obtain ⟨hv, hio, hframes⟩ := refuses_step hu.1 hy hstep
      exact ⟨hv, hio.trans hu.2.1, hframes.trans hu.2.2⟩) ⟨h, rfl, rfl⟩ hno hrun).2

/-- Polls of a frame as large as the ring change nothing. -/
theorem stuck_of_refuses (h : s.Refuses size) (hidle : s.work = .idle last)
    (hfree : s.rdMutex = none) (hready : dataReady s.io.flag = true) : s.Stuck := by
  have hok := h.inv.free hfree
  obtain ⟨hv, rfl⟩ := hok
  have hfits : ¬s.dev.fits (clampSize s.io.size.toNat) = true := by
    rw [hv.fits_iff]
    have := h.large
    omega
  intro t ht
  suffices t = { s with work := t.work } ∧ ∃ last', t.work = .idle last' from this.1
  induction ht with
  | refl => exact ⟨rfl, last, hidle⟩
  | @tail u v _ hpoll ih =>
    obtain ⟨hu, last', hlast⟩ := ih
    have hv : v = u.polled := hpoll.unique (polls_polled hlast (by rw [hu, hfree]))
    have hpolled : u.polled = { s with work := .idle .noSpace } := by
      rw [hu]
      simp [polled, hready, hfits, hfree]
    rw [hv, hpolled]
    exact ⟨rfl, _, rfl⟩

/-! ## When a drained ring accepts the frame -/

/-- From every reachable state with a pending frame, an empty ring, a free mutex and the
work queued : the next poll runs to its end, copies the frame whole and clears the READY
bit, and the state is not one that polls leave unchanged for ever, if and only if the
size register holds at most `DUMMY_IO_BUFF_SIZE - 1`. -/
theorem drained_ring_takes_frame_iff {io : PlatIo} {as : List Act}
    (h : exec step (init dummyIoBuffSize io) as = some s) (hready : dataReady s.io.flag = true)
    (hempty : s.dev.rp = s.dev.wp) (hfree : s.rdMutex = none) (hidle : s.work = .idle last) :
    ((∃ t, s.Polls t) ∧ (∀ t, s.Polls t → s.TookFrame t) ∧ ¬s.Stuck) ↔
      s.io.size.toNat ≤ dummyIoBuffSize - 1 := by
  have hinv := inv_of_exec (show 0 < dummyIoBuffSize by decide) h
  have hclamp : s.io.size.toNat ≤ dummyIoBuffSize - 1 ↔
      clampSize s.io.size.toNat < dummyIoBuffSize := by
    unfold clampSize memSize dummyIoBuffSize
    split_ifs <;> omega
  have hpolls := polls_polled hidle hfree
  rw [hclamp]
  constructor
  · rintro ⟨-, -, hstuck⟩
    by_contra hlarge
    exact hstuck (stuck_of_refuses ⟨hinv, by omega, hidle ▸ trivial⟩ hidle hfree hready)
  · intro hsize
    have htook := tookFrame_polled (hinv.free hfree) hready hempty hsize
    refine ⟨⟨_, hpolls⟩, fun t ht => ht.unique hpolls ▸ htook, fun hstuck => ?_⟩
    have hsame := hstuck _ (Relation.ReflTransGen.single hpolls)
    have hflag : s.polled.io = s.io := by rw [hsame]
    have hclear := htook.ready
    rw [hflag, hready] at hclear
    simp at hclear

/-- A frame of `size` bytes published on a fresh device. -/
def publishRun (size : UInt32) : List Act :=
  [.store (.size size), .store (.flag platIoDataReady)]

/-- A frame of 511 bytes is copied by the next poll. -/
theorem drained_ring_takes_511 : ∃ s, exec step (init dummyIoBuffSize zeroIo) (publishRun 511) =
    some s ∧ ∀ t, s.Polls t → s.TookFrame t := by
  have hrun : exec step (init dummyIoBuffSize zeroIo) (publishRun 511) = some _ := rfl
  have hiff := drained_ring_takes_frame_iff hrun rfl rfl rfl rfl
  exact ⟨_, rfl, (hiff.2 (by decide)).2.1⟩

/-- A frame of 512 bytes, an eighth of what the window holds, is never copied. -/
theorem drained_ring_refuses_512 : ∃ s, exec step (init dummyIoBuffSize zeroIo) (publishRun 512) =
    some s ∧ s.io.size.toNat ≤ memSize ∧ dataReady s.io.flag = true ∧ s.dev.rp = s.dev.wp ∧
      s.rdMutex = none ∧ s.work = .idle .noData ∧ s.Stuck := by
  have hrun : exec step (init dummyIoBuffSize zeroIo) (publishRun 512) = some _ := rfl
  have hrefuses : Refuses dummyIoBuffSize _ :=
    ⟨inv_of_exec (by decide) hrun, by decide, trivial⟩
  exact ⟨_, rfl, by decide, rfl, rfl, rfl, rfl, stuck_of_refuses hrefuses rfl rfl rfl⟩

end Driver

end ProCamp
