import ProCamp.Driver
import ProCamp.RingTransfer

/-!
# The critical sections are atomic

`RingTransfer` runs whole critical sections one after the other, `Driver` the steps of
any number of threads in any order. `atomic_sections` connects the two : whenever
`rd_mutex` is free, the ring and the bytes handed to readers are those of some sequence
of whole calls. Only a copy from user space that faults has no counterpart there.

Inside a critical section the ring is that of a sequence of whole calls followed by the
part of one more that has been done. The poll reads the window while user processes may
store to it; the call it amounts to is the poll of a window with the bytes it has read.
-/

namespace ProCamp

open PlatDummyDevice Driver Machine

/-- The ring and the bytes delivered are those after some whole calls from `d₀`. -/
def Reached (d₀ : PlatDummyDevice) (r : PlatDummyDevice × List UInt8) : Prop :=
  ∃ calls, r.1 = ringStore.run d₀ calls ∧ r.2 = ringStore.allDelivered d₀ calls

/-- A poll of `count` bytes that has copied `i` of them. -/
def Copying (d₀ : PlatDummyDevice) (count i : ℕ) (r : PlatDummyDevice × List UInt8) : Prop :=
  ∃ d mem, ∃ size : UInt32, Reached d₀ (d, r.2) ∧ count = clampSize size.toNat ∧
    d.fits count = true ∧ r.1 = copyLoop mem 0 i d

variable {d₀ d : PlatDummyDevice} {bytes : List UInt8}

/-- One more whole call. -/
theorem Reached.next (h : Reached d₀ (d, bytes)) (call : RingCall) :
    Reached d₀ (ringStore.next d call, bytes ++ ringStore.delivered d call) := by
  obtain ⟨calls, rfl, rfl⟩ := h
  refine ⟨calls ++ [call], ?_, ?_⟩
  · rw [ringStore.run_append]
    rfl
  · rw [ringStore.allDelivered_append]
    simp [Store.allDelivered]

theorem Reached.read (h : Reached d₀ (d, bytes)) (hne : d.rp ≠ d.wp) (count : ℕ) :
    Reached d₀ ((d.advanceRp (d.readCount count)).wrapRp,
      bytes ++ d.copyToUser (d.readCount count)) := by
  simpa [ringStore, platDummyRead, hne] using h.next (.read count)

theorem Reached.write (h : Reached d₀ (d, bytes)) (buf : List UInt8) :
    Reached d₀ (((d.copyFromUser (buf.take (d.writeCount buf.length))).advanceWp
      (d.writeCount buf.length)).wrapWpGe, bytes) := by
  simpa [ringStore, platDummyWrite] using h.next (.write buf)

/-! ## The copy loop -/

theorem copyLoop_succ (mem : ℕ → UInt8) (i n : ℕ) (d : PlatDummyDevice) :
    copyLoop mem i (n + 1) d = ((copyLoop mem i n d).putByte (mem (i + n))).wrapWpEq := by
  induction n generalizing i d with
  | zero => rfl
  | succ n ih =>
    rw [copyLoop, ih, copyLoop, Nat.add_right_comm, Nat.add_assoc]

/-- The loop reads the window only where it copies from. -/
theorem copyLoop_congr {mem mem' : ℕ → UInt8} {i n : ℕ} (h : ∀ k < n, mem (i + k) = mem' (i + k))
    (d : PlatDummyDevice) : copyLoop mem i n d = copyLoop mem' i n d := by
  induction n with
  | zero => rfl
  | succ n ih =>
    rw [copyLoop_succ, copyLoop_succ, ih fun k hk => h k (by omega), h n (by omega)]

/-- One more byte of the window, whatever it is. -/
theorem Copying.put {count i : ℕ} (h : Copying d₀ count i (d, bytes)) (byte : UInt8) :
    Copying d₀ count (i + 1) ((d.putByte byte).wrapWpEq, bytes) := by
  obtain ⟨d', mem, size, hreach, hcount, hfits, rfl⟩ := h
  refine ⟨d', Function.update mem i byte, size, hreach, hcount, hfits, ?_⟩
  have hsame : copyLoop mem 0 i d' = copyLoop (Function.update mem i byte) 0 i d' :=
    copyLoop_congr (fun k hk => (Function.update_of_ne (by omega) _ _).symm) d'
  rw [copyLoop_succ, ← hsame, Nat.zero_add, Function.update_self]

/-- The whole loop is one poll. -/
theorem Copying.reached {count : ℕ} (h : Copying d₀ count count (d, bytes)) :
    Reached d₀ (d, bytes) := by
  obtain ⟨d', mem, size, hreach, rfl, hfits, rfl⟩ := h
  simpa [ringStore, platDummyWork, hfits] using
    hreach.next (.work ⟨mem, platIoDataReady, size⟩)

/-! ## What each line relies on -/

/-- A reader's lines. -/
def Reader.atomic (d₀ : PlatDummyDevice) :
    Reader → Option (PlatDummyDevice × List UInt8 → Prop)
  | .test _ | .unlock _ | .leave _ => some (Reached d₀)
  | .copy _ => some fun r => Reached d₀ r ∧ r.1.rp ≠ r.1.wp
  | .advance count => some fun r => Reached d₀ r ∧ r.1.rp ≠ r.1.wp ∧ ∃ c, count = r.1.readCount c
  | .wrap _ => some fun r => ∃ d bytes c, Reached d₀ (d, bytes) ∧ d.rp ≠ d.wp ∧
      r = (d.advanceRp (d.readCount c), bytes ++ d.copyToUser (d.readCount c))
  | .idle | .lock _ | .wait _ _ | .ret _ => none

/-- A writer's lines. -/
def Writer.atomic (d₀ : PlatDummyDevice) :
    Writer → Option (PlatDummyDevice × List UInt8 → Prop)
  | .copy _ | .leave _ => some (Reached d₀)
  | .advance count => some fun r => ∃ d, ∃ buf : List UInt8, Reached d₀ (d, r.2) ∧
      count = d.writeCount buf.length ∧ r.1 = d.copyFromUser (buf.take count)
  | .wrap _ => some fun r => ∃ d, ∃ buf : List UInt8, Reached d₀ (d, r.2) ∧
      r.1 = (d.copyFromUser (buf.take (d.writeCount buf.length))).advanceWp
        (d.writeCount buf.length)
  | .idle | .lock _ | .ret _ => none

/-- The lines of the delayed work. -/
def Work.atomic (d₀ : PlatDummyDevice) : Work → Option (PlatDummyDevice × List UInt8 → Prop)
  | .size _ | .reject | .unlock _ => some (Reached d₀)
  | .space _ n => some fun r => Reached d₀ r ∧ ∃ size : UInt32, n = clampSize size.toNat
  | .put _ count i => some fun r => i ≤ count ∧ Copying d₀ count i r
  | .wrap _ count i => some fun r => i < count ∧
      ∃ d byte, Copying d₀ count i (d, r.2) ∧ r.1 = d.putByte byte
  | .idle _ | .lock _ | .wake _ | .clear _ | .exit _ => none

namespace Driver

variable {size : ℕ} {s t : Driver} {i : ℕ} {x : Input}

theorem ReaderMove.atomicStep (h : ReaderMove s i t) :
    Monitor.Step (Reached d₀) (.reader i) s.rdMutex ((s.readers i).atomic d₀)
      (s.dev, s.delivered) t.rdMutex ((t.readers i).atomic d₀) (t.dev, t.delivered) := by
  cases h with
  | acquire hpc hfree =>
    simpa [hpc, hfree, Reader.atomic] using Monitor.Step.acquire (s.dev, s.delivered) id
  | interrupted hpc | wait hpc | done hpc | signalled hpc =>
    simpa [hpc, Reader.atomic] using Monitor.Step.outside s.rdMutex (s.dev, s.delivered)
  | empty hpc =>
    simpa [hpc, Reader.atomic] using Monitor.Step.inside s.rdMutex (s.dev, s.delivered) _ id
  | found hpc hne =>
    simp only [hpc, Reader.atomic, setReader_readers, Function.update_self]
    exact .inside s.rdMutex (s.dev, s.delivered) _ fun hreach => ⟨hreach, hne⟩
  | release hpc | leave hpc =>
    simpa [hpc, Reader.atomic] using Monitor.Step.release s.rdMutex (s.dev, s.delivered) id
  | copy hpc =>
    simp only [hpc, Reader.atomic, setReader_readers, Function.update_self]
    exact .inside s.rdMutex (s.dev, s.delivered) _ fun hreach => ⟨hreach.1, hreach.2, _, rfl⟩
  | fault hpc =>
    simp only [hpc, Reader.atomic, setReader_readers, Function.update_self]
    exact .inside s.rdMutex (s.dev, s.delivered) _ And.left
  | advance hpc =>
    simp only [hpc, Reader.atomic, setReader_readers, Function.update_self]
    refine .inside s.rdMutex (s.dev, s.delivered) _ ?_
    rintro ⟨hreach, hne, c, rfl⟩
    exact ⟨s.dev, s.delivered, c, hreach, hne, rfl⟩
  | wrap hpc =>
    simp only [hpc, Reader.atomic, setReader_readers, Function.update_self]
    refine .inside s.rdMutex (s.dev, s.delivered) _ ?_
    rintro ⟨d, bytes, c, hreach, hne, heq⟩
    obtain ⟨hdev, hbytes⟩ := Prod.mk.inj heq
    show Reached d₀ (s.dev.wrapRp, s.delivered)
    rw [hdev, hbytes]
    exact hreach.read hne c

theorem WriterMove.atomicStep (h : WriterMove s i x t) (hfault : ∀ stored, x ≠ .fault stored) :
    Monitor.Step (Reached d₀) (.writer i) s.rdMutex ((s.writers i).atomic d₀)
      (s.dev, s.delivered) t.rdMutex ((t.writers i).atomic d₀) (t.dev, t.delivered) := by
  cases h with
  | acquire hpc hfree =>
    simpa [hpc, hfree, Writer.atomic] using Monitor.Step.acquire (s.dev, s.delivered) id
  | interrupted hpc =>
    simpa [hpc, Writer.atomic] using Monitor.Step.outside s.rdMutex (s.dev, s.delivered)
  | @copy buf hpc =>
    simp only [hpc, Writer.atomic, setWriter_writers, Function.update_self]
    exact .inside s.rdMutex (s.dev, s.delivered) _ fun hreach => ⟨s.dev, buf, hreach, rfl, rfl⟩
  | fault => exact absurd rfl (hfault _)
  | advance hpc =>
    simp only [hpc, Writer.atomic, setWriter_writers, Function.update_self]
    refine .inside s.rdMutex (s.dev, s.delivered) _ ?_
    rintro ⟨d, buf, hreach, rfl, hdev⟩
    exact ⟨d, buf, hreach, congrArg (advanceWp · _) hdev⟩
  | wrap hpc =>
    simp only [hpc, Writer.atomic, setWriter_writers, Function.update_self]
    refine .inside s.rdMutex (s.dev, s.delivered) _ ?_
    rintro ⟨d, buf, hreach, hdev⟩
    show Reached d₀ (s.dev.wrapWpGe, s.delivered)
    rw [show s.dev = _ from hdev]
    exact hreach.write buf
  | leave hpc =>
    simpa [hpc, Writer.atomic] using Monitor.Step.release s.rdMutex (s.dev, s.delivered) id

theorem WorkMove.atomicStep (h : WorkMove s t) :
    Monitor.Step (Reached d₀) .work s.rdMutex (s.work.atomic d₀) (s.dev, s.delivered)
      t.rdMutex (t.work.atomic d₀) (t.dev, t.delivered) := by
  cases h with
  | noData hpc | sample hpc | interrupted hpc | wake hpc | clear hpc | exit hpc =>
    simpa [hpc, Work.atomic] using Monitor.Step.outside s.rdMutex (s.dev, s.delivered)
  | acquire hpc hfree =>
    simpa [hpc, hfree, Work.atomic] using Monitor.Step.acquire (s.dev, s.delivered) id
  | size hpc =>
    simp only [hpc, Work.atomic]
    exact .inside s.rdMutex (s.dev, s.delivered) _ fun hreach => ⟨hreach, s.io.size, rfl⟩
  | fits hpc hfits =>
    simp only [hpc, Work.atomic]
    refine .inside s.rdMutex (s.dev, s.delivered) _ ?_
    rintro ⟨hreach, size, rfl⟩
    exact ⟨Nat.zero_le _, s.dev, fun _ => 0, size, hreach, rfl, hfits, rfl⟩
  | noSpace hpc =>
    simp only [hpc, Work.atomic]
    exact .inside s.rdMutex (s.dev, s.delivered) _ And.left
  | reject hpc | release hpc =>
    simpa [hpc, Work.atomic] using Monitor.Step.release s.rdMutex (s.dev, s.delivered) id
  | put hpc hi =>
    simp only [hpc, Work.atomic]
    exact .inside s.rdMutex (s.dev, s.delivered) _ fun hcopy => ⟨hi, s.dev, _, hcopy.2, rfl⟩
  | copied hpc hi =>
    simp only [hpc, Work.atomic]
    refine .inside s.rdMutex (s.dev, s.delivered) _ ?_
    rintro ⟨hle, hcopy⟩
    rw [Nat.le_antisymm hle hi] at hcopy
    exact hcopy.reached
  | wrap hpc =>
    simp only [hpc, Work.atomic]
    refine .inside s.rdMutex (s.dev, s.delivered) _ ?_
    rintro ⟨hlt, d, byte, hcopy, hdev⟩
    refine ⟨hlt, ?_⟩
    show Copying d₀ _ _ (s.dev.wrapWpEq, s.delivered)
    rw [show s.dev = _ from hdev]
    exact hcopy.put byte

/-- The ring is that of whole calls, up to the part of one that is being done. -/
def AtomicInv (d₀ : PlatDummyDevice) (s : Driver) : Prop :=
  Monitor.Inv (Reached d₀) s.rdMutex
    (views (Reader.atomic d₀) (Writer.atomic d₀) (Work.atomic d₀) s) (s.dev, s.delivered)

theorem atomicInv_init (size : ℕ) (io : PlatIo) : AtomicInv (init size io).dev (init size io) where
  inside_iff a := by cases a <;> simp [views, init, Reader.atomic, Writer.atomic, Work.atomic]
  free _ := ⟨[], rfl, rfl⟩
  held a P ha := by
    cases a <;> simp [views, init, Reader.atomic, Writer.atomic, Work.atomic] at ha

theorem atomicInv_step {y : Act} (h : AtomicInv d₀ s)
    (hfault : ∀ i stored, y ≠ .writer i (.fault stored)) (hstep : s.step y = some t) :
    AtomicInv d₀ t := by
  have hframe : ∀ a, y.agent ≠ some a →
      views (Reader.atomic d₀) (Writer.atomic d₀) (Work.atomic d₀) t a =
        views (Reader.atomic d₀) (Writer.atomic d₀) (Work.atomic d₀) s a :=
    fun a ha => views_frame _ _ _ (fun pc => by cases pc <;> rfl) hstep ha
  cases y with
  | callRead i count =>
    obtain ⟨hpc, rfl⟩ := callReadStep_eq hstep
    refine Monitor.Inv.step (.reader i) h ?_ fun a ha => hframe a (by simpa [Act.agent, eq_comm])
    obtain hpc | ⟨r, hpc⟩ := hpc <;>
      simpa [views, hpc, Reader.atomic] using
        Monitor.Step.outside s.rdMutex (s.dev, s.delivered)
  | callWrite i buf =>
    obtain ⟨hpc, rfl⟩ := callWriteStep_eq hstep
    refine Monitor.Inv.step (.writer i) h ?_ fun a ha => hframe a (by simpa [Act.agent, eq_comm])
    obtain hpc | ⟨r, hpc⟩ := hpc <;>
      simpa [views, hpc, Writer.atomic] using
        Monitor.Step.outside s.rdMutex (s.dev, s.delivered)
  | reader i x =>
    exact Monitor.Inv.step (.reader i) h (readerStep_move hstep).atomicStep fun a ha =>
      hframe a (by simpa [Act.agent, eq_comm])
  | writer i x =>
    have hx : ∀ stored, x ≠ .fault stored := fun stored heq => hfault i stored (heq ▸ rfl)
    exact Monitor.Inv.step (.writer i) h ((writerStep_move hstep).atomicStep hx) fun a ha =>
      hframe a (by simpa [Act.agent, eq_comm])
  | work x =>
    exact Monitor.Inv.step .work h (workStep_move hstep).atomicStep fun a ha =>
      hframe a (by simpa [Act.agent, eq_comm])
  | store st =>
    obtain rfl : _ = t := by simpa [Driver.step] using hstep
    exact h

/-- Whenever `rd_mutex` is free, in any run of any threads without a faulting copy from
user space, the ring and the bytes delivered are those of some whole calls. -/
theorem atomic_sections {io : PlatIo} {as : List Act}
    (hfault : ∀ y ∈ as, ∀ i stored, y ≠ .writer i (.fault stored))
    (h : exec step (init size io) as = some s) (hfree : s.rdMutex = none) :
    ∃ calls, s.dev = ringStore.run (init size io).dev calls ∧
      s.delivered = ringStore.allDelivered (init size io).dev calls := by
  have hinv : AtomicInv (init size io).dev s :=
    exec_invariant (C := fun _ y _ => ∀ i stored, y ≠ .writer i (.fault stored))
      (fun _ _ _ hI hy hstep => atomicInv_step hI hy hstep) (atomicInv_init size io)
      (everyStep_of_forall _ hfault) h
  exact hinv.free hfree

end Driver

end ProCamp
