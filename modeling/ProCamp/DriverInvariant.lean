import ProCamp.Driver

/-!
# The lock and the ring pointers

`rd_mutex` protects the ring. Each thread's view gives, at each line of its critical
section, what it relies on there; `Driver.Inv` is `Monitor.Inv` for these views, and
`inv_of_exec` carries it through every run. The pointers are in `[buffer, end)`
whenever the mutex is free, and inside a critical section one of them may stand on
`end` until the wrap.
-/

namespace ProCamp

open PlatDummyDevice Driver

/-- The ring between critical sections. -/
structure RingOk (size : ℕ) (d : PlatDummyDevice) : Prop where
  valid : d.Valid
  size_eq : d.buffersize = size

/-- What a reader relies on in its critical section. -/
def Reader.view (size : ℕ) : Reader → Option (PlatDummyDevice → Prop)
  | .test _ | .unlock _ | .leave _ => some (RingOk size)
  | .copy _ => some fun d => RingOk size d ∧ d.rp ≠ d.wp
  | .advance count => some fun d => RingOk size d ∧ d.rp ≠ d.wp ∧ count ≤ d.unread.length ∧
      d.rp + count ≤ size
  | .wrap _ => some fun d => d.buffersize = size ∧ d.rp ≤ size ∧ d.wp < size
  | .idle | .lock _ | .wait _ _ | .ret _ => none

/-- What a writer relies on in its critical section. -/
def Writer.view (size : ℕ) : Writer → Option (PlatDummyDevice → Prop)
  | .copy _ | .leave _ => some (RingOk size)
  | .advance count => some fun d => RingOk size d ∧ d.wp + count ≤ size
  | .wrap _ => some fun d => d.buffersize = size ∧ d.rp < size ∧ d.wp ≤ size
  | .idle | .lock _ | .ret _ => none

/-- What the delayed work relies on in its critical section. -/
def Work.view (size : ℕ) : Work → Option (PlatDummyDevice → Prop)
  | .size _ | .reject | .unlock _ => some (RingOk size)
  | .space _ n => some fun d => RingOk size d ∧ n ≤ memSize
  | .put _ count i => some fun d => RingOk size d ∧ i ≤ count ∧ count ≤ memSize ∧
      d.unread.length + (count - i) < size
  | .wrap _ count i => some fun d => d.buffersize = size ∧ d.rp < size ∧ d.wp ≤ size ∧
      i < count ∧ count ≤ memSize ∧ d.unread.length + (count - (i + 1)) < size
  | .idle _ | .lock _ | .wake _ | .clear _ | .exit _ => none

namespace Driver

variable {size : ℕ} {s t : Driver} {i : ℕ} {x : Input}

/-- The views of all threads. -/
def view (size : ℕ) (s : Driver) : Agent → Option (PlatDummyDevice → Prop)
  | .reader i => (s.readers i).view size
  | .writer i => (s.writers i).view size
  | .work => s.work.view size

/-- The invariant of `rd_mutex`. -/
def Inv (size : ℕ) (s : Driver) : Prop :=
  Monitor.Inv (RingOk size) s.rdMutex (s.view size) s.dev

theorem inv_init (hsize : 0 < size) (io : PlatIo) : (init size io).Inv size where
  inside_iff a := by cases a <;> simp [view, init, Reader.view, Writer.view, Work.view]
  free _ := ⟨valid_initDataBuffer hsize, rfl⟩
  held a P ha := by cases a <;> simp [view, init, Reader.view, Writer.view, Work.view] at ha

@[simp] theorem view_wakeReader (pc : Reader) : (wakeReader pc).view size = pc.view size := by
  cases pc <;> rfl

/-! ## Steps -/

theorem ReaderMove.monitorStep (h : ReaderMove s i t) :
    Monitor.Step (RingOk size) (.reader i) s.rdMutex ((s.readers i).view size) s.dev t.rdMutex
      ((t.readers i).view size) t.dev := by
  cases h with
  | acquire hpc hfree =>
    simpa [hpc, hfree, Reader.view] using Monitor.Step.acquire s.dev id
  | interrupted hpc => simpa [hpc, Reader.view] using Monitor.Step.outside s.rdMutex s.dev
  | empty hpc heq => simpa [hpc, Reader.view] using Monitor.Step.inside s.rdMutex s.dev s.dev id
  | found hpc hne =>
    simpa [hpc, Reader.view] using
      Monitor.Step.inside s.rdMutex s.dev s.dev fun hok => ⟨hok, hne⟩
  | release hpc => simpa [hpc, Reader.view] using Monitor.Step.release s.rdMutex s.dev id
  | wait hpc hw => simpa [hpc, Reader.view] using Monitor.Step.outside s.rdMutex s.dev
  | done hpc => simpa [hpc, Reader.view] using Monitor.Step.outside s.rdMutex s.dev
  | signalled hpc => simpa [hpc, Reader.view] using Monitor.Step.outside s.rdMutex s.dev
  | copy hpc =>
    simp only [hpc, Reader.view, setReader_readers, setReader_rdMutex, setReader_dev,
      Function.update_self]
    refine .inside s.rdMutex s.dev s.dev ?_
    rintro ⟨hok, hne⟩
    obtain ⟨hle, hend⟩ := hok.valid.readCount_le hne _
    exact ⟨hok, hne, hle, hend.trans hok.size_eq.le⟩
  | fault hpc =>
    simpa [hpc, Reader.view] using Monitor.Step.inside s.rdMutex s.dev s.dev And.left
  | advance hpc =>
    simp only [hpc, Reader.view, setReader_readers, setReader_rdMutex, Function.update_self]
    refine .inside s.rdMutex s.dev _ ?_
    rintro ⟨hok, -, -, hend⟩
    exact ⟨hok.size_eq, hend, hok.valid.wp_lt.trans_eq hok.size_eq⟩
  | wrap hpc =>
    simp only [hpc, Reader.view, setReader_readers, setReader_rdMutex, Function.update_self]
    refine .inside s.rdMutex s.dev _ ?_
    rintro ⟨rfl, hr, hw⟩
    exact ⟨valid_wrapRp hr hw, buffersize_wrapRp⟩
  | leave hpc => simpa [hpc, Reader.view] using Monitor.Step.release s.rdMutex s.dev id

theorem WriterMove.monitorStep (h : WriterMove s i x t) :
    Monitor.Step (RingOk size) (.writer i) s.rdMutex ((s.writers i).view size) s.dev t.rdMutex
      ((t.writers i).view size) t.dev := by
  cases h with
  | acquire hpc hfree =>
    simpa [hpc, hfree, Writer.view] using Monitor.Step.acquire s.dev id
  | interrupted hpc => simpa [hpc, Writer.view] using Monitor.Step.outside s.rdMutex s.dev
  | copy hpc =>
    simp only [hpc, Writer.view, setWriter_writers, setWriter_rdMutex, Function.update_self]
    refine .inside s.rdMutex s.dev _ ?_
    rintro ⟨hv, rfl⟩
    exact ⟨⟨⟨hv.rp_lt, hv.wp_lt⟩, rfl⟩, writeCount_le hv.wp_lt.le _⟩
  | fault hpc =>
    simp only [hpc, Writer.view, setWriter_writers, setWriter_rdMutex, Function.update_self]
    refine .inside s.rdMutex s.dev _ ?_
    exact fun hok => ⟨⟨hok.valid.rp_lt, hok.valid.wp_lt⟩, hok.size_eq⟩
  | advance hpc =>
    simp only [hpc, Writer.view, setWriter_writers, setWriter_rdMutex, Function.update_self]
    refine .inside s.rdMutex s.dev _ ?_
    rintro ⟨hok, hend⟩
    exact ⟨hok.size_eq, hok.valid.rp_lt.trans_eq hok.size_eq, hend⟩
  | wrap hpc =>
    simp only [hpc, Writer.view, setWriter_writers, setWriter_rdMutex, Function.update_self]
    refine .inside s.rdMutex s.dev _ ?_
    rintro ⟨rfl, hr, hw⟩
    rw [wrapWpGe_eq hw]
    exact ⟨valid_wrapWpEq hr hw, buffersize_wrapWpEq⟩
  | leave hpc => simpa [hpc, Writer.view] using Monitor.Step.release s.rdMutex s.dev id

theorem clampSize_le (n : ℕ) : clampSize n ≤ memSize := by
  unfold clampSize
  split_ifs <;> omega

theorem WorkMove.monitorStep (h : WorkMove s t) :
    Monitor.Step (RingOk size) .work s.rdMutex (s.work.view size) s.dev t.rdMutex
      (t.work.view size) t.dev := by
  cases h with
  | noData hpc | sample hpc | interrupted hpc | wake hpc | clear hpc | exit hpc =>
    simpa [hpc, Work.view] using Monitor.Step.outside s.rdMutex s.dev
  | acquire hpc hfree => simpa [hpc, hfree, Work.view] using Monitor.Step.acquire s.dev id
  | size hpc =>
    simpa [hpc, Work.view] using
      Monitor.Step.inside s.rdMutex s.dev s.dev fun hok => ⟨hok, clampSize_le _⟩
  | fits hpc hfits =>
    simp only [hpc, Work.view]
    refine .inside s.rdMutex s.dev s.dev ?_
    rintro ⟨hok, hle⟩
    have := (hok.valid.fits_iff _).1 hfits
    exact ⟨hok, Nat.zero_le _, hle, this.trans_eq hok.size_eq⟩
  | noSpace hpc =>
    simpa [hpc, Work.view] using Monitor.Step.inside s.rdMutex s.dev s.dev And.left
  | reject hpc | release hpc =>
    simpa [hpc, Work.view] using Monitor.Step.release s.rdMutex s.dev id
  | put hpc hi =>
    simp only [hpc, Work.view]
    refine .inside s.rdMutex s.dev _ ?_
    rintro ⟨⟨hv, rfl⟩, -, hcount, hfit⟩
    refine ⟨rfl, hv.rp_lt, hv.wp_lt, hi, hcount, ?_⟩
    rw [hv.unread_putByte _ (by omega), List.length_append, List.length_singleton]
    omega
  | copied hpc =>
    simpa [hpc, Work.view] using Monitor.Step.inside s.rdMutex s.dev s.dev And.left
  | wrap hpc =>
    simp only [hpc, Work.view]
    refine .inside s.rdMutex s.dev _ ?_
    rintro ⟨rfl, hr, hw, hi, hcount, hfit⟩
    refine ⟨⟨valid_wrapWpEq hr hw, buffersize_wrapWpEq⟩, hi, hcount, ?_⟩
    rwa [unread_wrapWpEq hr.le]

theorem view_eq_views : s.view size =
    views (Reader.view size) (Writer.view size) (Work.view size) s := by
  funext a
  cases a <;> rfl

/-- Every step keeps the invariant of `rd_mutex`. -/
theorem inv_step {y : Act} (h : s.Inv size) (hstep : s.step y = some t) : t.Inv size := by
  have hframe : ∀ a, y.agent ≠ some a → t.view size a = s.view size a := by
    intro a ha
    rw [view_eq_views, view_eq_views]
    exact views_frame _ _ _ view_wakeReader hstep ha
  cases y with
  | callRead i count =>
    obtain ⟨hpc, rfl⟩ := callReadStep_eq hstep
    refine Monitor.Inv.step (.reader i) h ?_ fun a ha => hframe a (by simpa [Act.agent, eq_comm])
    obtain hpc | ⟨r, hpc⟩ := hpc <;>
      simpa [view, hpc, Reader.view] using Monitor.Step.outside s.rdMutex s.dev
  | callWrite i buf =>
    obtain ⟨hpc, rfl⟩ := callWriteStep_eq hstep
    refine Monitor.Inv.step (.writer i) h ?_ fun a ha => hframe a (by simpa [Act.agent, eq_comm])
    obtain hpc | ⟨r, hpc⟩ := hpc <;>
      simpa [view, hpc, Writer.view] using Monitor.Step.outside s.rdMutex s.dev
  | reader i x =>
    exact Monitor.Inv.step (.reader i) h (readerStep_move hstep).monitorStep fun a ha =>
      hframe a (by simpa [Act.agent, eq_comm])
  | writer i x =>
    exact Monitor.Inv.step (.writer i) h (writerStep_move hstep).monitorStep fun a ha =>
      hframe a (by simpa [Act.agent, eq_comm])
  | work x =>
    exact Monitor.Inv.step .work h (workStep_move hstep).monitorStep fun a ha =>
      hframe a (by simpa [Act.agent, eq_comm])
  | store st =>
    obtain rfl : _ = t := by simpa [Driver.step] using hstep
    exact h

/-- The invariant holds in every reachable state. -/
theorem inv_of_exec (hsize : 0 < size) {io : PlatIo} {as : List Act}
    (h : Machine.exec step (init size io) as = some s) : s.Inv size :=
  Machine.exec_invariant_of_step (fun _ _ _ hI hstep => inv_step hI hstep)
    (inv_init hsize io) h

end Driver

end ProCamp
