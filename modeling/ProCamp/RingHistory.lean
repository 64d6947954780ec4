import ProCamp.DriverInvariant
import ProCamp.History
import ProCamp.Overrun
import ProCamp.ShortReads

/-!
# The driver as one queue of bytes

To the programs that use it, the ring of `HW12/platform_test.c` is a queue of bytes that takes
one operation at a time (`byteQueue`). A frame goes in after the queue has been asked whether
it has room. A write goes in without : from `buffersize` bytes on the queue forgets, and a
write whose copy faults has stored over the oldest bytes, in the end with zeros.

`ring_history` : under any schedule, with any signals and faults, every call and every poll
does to this queue what it reports, at one moment between its start and its end, and readers
are handed what the queue gives, in its order.
-/

namespace ProCamp

open PlatDummyDevice Driver Machine History CyclicBuffer

/-- The operations on the queue. -/
inductive RingOp where
  /-- The oldest `count` bytes are taken. -/
  | take (count : ℕ)
  | push (bytes : List UInt8)
  /-- `bytes` are stored behind the queue and not counted. -/
  | smear (bytes : List UInt8)
  /-- Is there room for `count` bytes ? -/
  | room (count : ℕ)
  deriving DecidableEq

/-- What an operation answers. -/
inductive RingAnswer where
  | done
  | bytes (bytes : List UInt8)
  | fits (fits : Bool)
  deriving DecidableEq

/-- The queue behind a ring of `size` bytes. -/
def byteQueue (size : ℕ) : Sequential (List UInt8) RingOp RingAnswer where
  init := []
  next
    | .take count, q => q.drop count
    | .push bytes, q => pushed size q bytes
    | .smear bytes, q => smeared size q bytes
    | .room _, q => q
  answer
    | .take count, q => .bytes (q.take count)
    | .room count, q => .fits (q.length + count < size)
    | .push _, _ | .smear _, _ => .done

/-- A call, or a run of the work. -/
inductive RingRequest where
  | read (count : ℕ)
  | write (buf : List UInt8)
  /-- A run of the delayed work. -/
  | poll
  deriving DecidableEq

/-- What `plat_dummy_read` returns, with the operations it has made, the latest first. -/
inductive ReadOutcome (count : ℕ) : List (RingOp × RingAnswer) → ℤ → Prop
  | read {n : ℕ} {bytes : List UInt8} (hlen : bytes.length = n) (hle : n ≤ count)
      (hpos : 1 ≤ count → 1 ≤ n) : ReadOutcome count [(.take n, .bytes bytes)] n
  | fault : ReadOutcome count [] (-eFault)
  | signalled : ReadOutcome count [] (-eRestartSys)

/-- What `plat_dummy_write` returns. -/
inductive WriteOutcome (buf : List UInt8) : List (RingOp × RingAnswer) → ℤ → Prop
  | write {n : ℕ} (hle : n ≤ buf.length) (hpos : 1 ≤ buf.length → 1 ≤ n) :
      WriteOutcome buf [(.push (buf.take n), .done)] n
  /-- Of `n` bytes `stored` are copied, the others are zeros, and the call fails. -/
  | fault {n stored : ℕ} (hlt : stored < n) (hle : n ≤ buf.length) :
      WriteOutcome buf [(.smear (faultedCopy buf n stored), .done)] (-eFault)
  | signalled : WriteOutcome buf [] (-eRestartSys)

/-- How a poll ends. -/
inductive PollOutcome : List (RingOp × RingAnswer) → PollEnd → Prop
  | noData : PollOutcome [] .noData
  | interrupted : PollOutcome [] .interrupted
  | noSpace (n : ℕ) : PollOutcome [(.room n, .fits false)] .noSpace
  | copied (frame : List UInt8) (hle : frame.length ≤ memSize) :
      PollOutcome [(.push frame, .done), (.room frame.length, .fits true)] .copied

/-! ## The history -/

/-- A history of the queue. -/
abbrev RingHistory :=
  List (Event Agent RingRequest RingOp RingAnswer)

/-- What readers have been handed. -/
def handedOut : RingHistory → List UInt8
  | .op _ _ (.bytes bytes) :: h => handedOut h ++ bytes
  | _ :: h => handedOut h
  | [] => []

/-- What writers and polls have put in. -/
def putIn : RingHistory → List UInt8
  | .op _ (.push bytes) _ :: h => putIn h ++ bytes
  | _ :: h => putIn h
  | [] => []

/-- Whatever was stored had room. -/
def Roomy (size : ℕ) : RingHistory → Prop
  | .op _ (.push bytes) _ :: h =>
    (state (byteQueue size) h).length + bytes.length < size ∧ Roomy size h
  | .op _ (.smear bytes) _ :: h =>
    (state (byteQueue size) h).length + bytes.length ≤ size ∧ Roomy size h
  | _ :: h => Roomy size h
  | [] => True

/-- As long as there is room, the queue hands out what was put in, in its order. -/
theorem fifo_of_roomy {size : ℕ} {h : RingHistory} (hlegal : Legal (byteQueue size) h)
    (hroomy : Roomy size h) : handedOut h ++ state (byteQueue size) h = putIn h := by
  induction h with
  | nil => rfl
  | cons e h ih =>
    cases e with
    | call a c => exact ih hlegal hroomy
    | op a o ans =>
      obtain ⟨rfl, hlegal⟩ := hlegal
      cases o with
      | take n =>
        show (handedOut h ++ (state (byteQueue size) h).take n) ++
          (state (byteQueue size) h).drop n = putIn h
        rw [List.append_assoc, List.take_append_drop]
        exact ih hlegal hroomy
      | push bytes =>
        obtain ⟨hroom, hroomy⟩ := hroomy
        show handedOut h ++ pushed size (state (byteQueue size) h) bytes = putIn h ++ bytes
        rw [pushed_of_lt hroom, ← List.append_assoc, ih hlegal hroomy]
      | smear bytes =>
        obtain ⟨hroom, hroomy⟩ := hroomy
        show handedOut h ++ smeared size (state (byteQueue size) h) bytes = putIn h
        rw [smeared_of_le hroom]
        exact ih hlegal hroomy
      | room n => exact ih hlegal hroomy

/-- The operation that the next step of a reader makes. -/
def Reader.commit (d : PlatDummyDevice) : Reader → Option (RingOp × RingAnswer)
  | .advance count => some (.take count, .bytes (d.copyToUser count))
  | _ => none

/-- Of a writer. -/
def Writer.commit (d : PlatDummyDevice) : Writer → Input → Option (RingOp × RingAnswer)
  | .copy buf, .go => some (.push (buf.take (d.writeCount buf.length)), .done)
  | .copy buf, .fault stored =>
    some (.smear (faultedCopy buf (d.writeCount buf.length) stored), .done)
  | _, _ => none

/-- Of the delayed work, which has stored `frame`. -/
def Work.commit (d : PlatDummyDevice) (frame : List UInt8) : Work → Option (RingOp × RingAnswer)
  | .space _ n => some (.room n, .fits (d.fits n))
  | .put _ count i => if i < count then none else some (.push frame, .done)
  | _ => none

namespace Driver

/-- The history after a step of the delayed work. -/
def recordWork (s : Driver) (h : RingHistory) : RingHistory :=
  match s.work with
  | .idle _ => .call .work .poll :: h
  | pc => commit .work (pc.commit s.dev s.frame) h

/-- The history after an action. -/
def record (s : Driver) (y : Act) (h : RingHistory) : RingHistory :=
  match y with
  | .callRead i count => .call (.reader i) (.read count) :: h
  | .callWrite i buf => .call (.writer i) (.write buf) :: h
  | .reader i _ => commit (.reader i) ((s.readers i).commit s.dev) h
  | .writer i x => commit (.writer i) ((s.writers i).commit s.dev x) h
  | .work _ => s.recordWork h
  | .store _ => h

end Driver

/-! ## What each line relies on -/

/-- The ring holds the queue, and no frame is being stored. -/
structure Holds (d : PlatDummyDevice × List UInt8 × List UInt8) : Prop where
  unread : d.1.unread = d.2.2
  frame : d.2.1 = []

/-- A reader's lines. -/
def Reader.holds : Reader → Option (PlatDummyDevice × List UInt8 × List UInt8 → Prop)
  | .test _ | .unlock _ | .copy _ | .advance _ | .wrap _ | .leave _ => some Holds
  | .idle | .lock _ | .wait _ _ | .ret _ => none

/-- A writer's lines. -/
def Writer.holds : Writer → Option (PlatDummyDevice × List UInt8 × List UInt8 → Prop)
  | .copy _ | .wrap _ | .leave _ => some Holds
  | .advance count => some fun d => Holds (d.1.advanceWp count, d.2)
  | .idle | .lock _ | .ret _ => none

/-- The lines of the delayed work. -/
def Work.holds : Work → Option (PlatDummyDevice × List UInt8 × List UInt8 → Prop)
  | .size _ | .space _ _ | .reject | .unlock _ => some Holds
  | .put _ _ _ | .wrap _ _ _ => some fun d => d.1.unread = d.2.2 ++ d.2.1
  | .idle _ | .lock _ | .wake _ | .clear _ | .exit _ => none

namespace Driver

variable {size : ℕ} {s t : Driver} {h : RingHistory} {i : ℕ} {x : Input}

/-- The ring, the frame being stored and the queue. -/
def held (size : ℕ) (s : Driver) (h : RingHistory) :
    PlatDummyDevice × List UInt8 × List UInt8 :=
  (s.dev, s.frame, state (byteQueue size) h)

/-- Bytes taken off the queue. -/
theorem holds_advanceRp {count : ℕ} (hview : RingOk size s.dev ∧ s.dev.rp ≠ s.dev.wp ∧
      count ≤ s.dev.unread.length ∧ s.dev.rp + count ≤ size) (hholds : Holds (s.held size h)) :
    s.dev.unread.take count = s.dev.copyToUser count ∧
      (s.dev.advanceRp count).unread = (state (byteQueue size) h).drop count := by
  obtain ⟨⟨-, rfl⟩, -, hle, hend⟩ := hview
  have hlen : (s.dev.copyToUser count).length = count := by simp [copyToUser]
  have hsplit := unread_advanceRp hend hle
  have hunread : s.dev.unread = state (byteQueue s.dev.buffersize) h := hholds.unread
  constructor
  · rw [hsplit, List.take_left' hlen]
  · rw [← hunread, hsplit, List.drop_left' hlen]

theorem ReaderMove.holds (hinv : s.Inv size) (hmove : ReaderMove s i t) :
    Monitor.Step Holds (.reader i) s.rdMutex (s.readers i).holds (s.held size h) t.rdMutex
      (t.readers i).holds (t.held size (commit (.reader i) ((s.readers i).commit s.dev) h)) := by
  cases hmove with
  | acquire hpc hfree =>
    simpa [hpc, hfree, held, Reader.holds, Reader.commit] using
      Monitor.Step.acquire (s.held size h) id
  | interrupted hpc | wait hpc | done hpc | signalled hpc =>
    simpa [hpc, held, Reader.holds, Reader.commit] using
      Monitor.Step.outside s.rdMutex (s.held size h)
  | empty hpc | found hpc | copy hpc | fault hpc =>
    simpa [hpc, held, Reader.holds, Reader.commit] using
      Monitor.Step.inside s.rdMutex (s.held size h) _ id
  | release hpc | leave hpc =>
    simpa [hpc, held, Reader.holds, Reader.commit] using
      Monitor.Step.release s.rdMutex (s.held size h) id
  | advance hpc =>
    have hview := hinv.ok (a := .reader i) (by rw [view, hpc]; rfl)
    simp only [hpc, Reader.holds, Reader.commit, setReader_readers, setReader_rdMutex,
      Function.update_self]
    refine .inside s.rdMutex (s.held size h) _ fun hholds => ⟨?_, hholds.frame⟩
    exact (holds_advanceRp hview hholds).2
  | wrap hpc =>
    simp only [hpc, Reader.holds, Reader.commit, setReader_readers, setReader_rdMutex,
      Function.update_self]
    refine .inside s.rdMutex (s.held size h) _ fun hholds => ⟨?_, hholds.frame⟩
    exact unread_wrapRp.trans hholds.unread

theorem WriterMove.holds (hinv : s.Inv size) (hmove : WriterMove s i x t) :
    Monitor.Step Holds (.writer i) s.rdMutex (s.writers i).holds (s.held size h) t.rdMutex
      (t.writers i).holds
      (t.held size (commit (.writer i) ((s.writers i).commit s.dev x) h)) := by
  cases hmove with
  | acquire hpc hfree =>
    simpa [hpc, hfree, held, Writer.holds, Writer.commit] using
      Monitor.Step.acquire (s.held size h) id
  | interrupted hpc =>
    simpa [hpc, held, Writer.holds, Writer.commit] using
      Monitor.Step.outside s.rdMutex (s.held size h)
  | @copy buf hpc =>
    obtain ⟨hv, rfl⟩ := hinv.ok (a := .writer i) (by rw [view, hpc]; rfl)
    have hend := writeCount_le hv.wp_lt.le buf.length
    have hlen := length_take_writeCount (d := s.dev) buf
    simp only [hpc, Writer.holds, Writer.commit, setWriter_writers, setWriter_rdMutex,
      Function.update_self]
    refine .inside s.rdMutex (s.held s.dev.buffersize h) _ fun hholds => ⟨?_, hholds.frame⟩
    have hpush := contents_push s.dev.buffer hv.rp_lt hv.wp_lt (hlen.symm ▸ hend)
    rw [hlen] at hpush
    exact hpush.trans (congrArg (pushed _ · _) hholds.unread)
  | @fault buf stored hpc hlt =>
    obtain ⟨hv, rfl⟩ := hinv.ok (a := .writer i) (by rw [view, hpc]; rfl)
    have hend := writeCount_le hv.wp_lt.le buf.length
    have hlen := length_faultedCopy hlt (writeCount_le_count buf.length)
    simp only [hpc, Writer.holds, Writer.commit, setWriter_writers, setWriter_rdMutex,
      Function.update_self]
    refine .inside s.rdMutex (s.held s.dev.buffersize h) _ fun hholds => ⟨?_, hholds.frame⟩
    have hsmear := contents_smear s.dev.buffer hv.rp_lt hv.wp_lt (hlen.symm ▸ hend)
    exact hsmear.trans (congrArg (smeared _ · _) hholds.unread)
  | advance hpc =>
    simp only [hpc, Writer.holds, Writer.commit, setWriter_writers, setWriter_rdMutex,
      Function.update_self]
    exact .inside s.rdMutex (s.held size h) _ id
  | wrap hpc =>
    obtain ⟨rfl, hr, hw⟩ := hinv.ok (a := .writer i) (by rw [view, hpc]; rfl)
    simp only [hpc, Writer.holds, Writer.commit, setWriter_writers, setWriter_rdMutex,
      Function.update_self]
    refine .inside s.rdMutex (s.held s.dev.buffersize h) _ fun hholds => ⟨?_, hholds.frame⟩
    show s.dev.wrapWpGe.unread = _
    rw [wrapWpGe_eq hw, unread_wrapWpEq hr.le]
    exact hholds.unread
  | leave hpc =>
    simpa [hpc, held, Writer.holds, Writer.commit] using
      Monitor.Step.release s.rdMutex (s.held size h) id

theorem WorkMove.holds (hinv : s.Inv size) (hmove : WorkMove s t) :
    Monitor.Step Holds .work s.rdMutex s.work.holds (s.held size h) t.rdMutex t.work.holds
      (t.held size (s.recordWork h)) := by
  cases hmove with
  | noData hpc | sample hpc | interrupted hpc | wake hpc | clear hpc | exit hpc =>
    simpa [hpc, held, Work.holds, recordWork, Work.commit] using
      Monitor.Step.outside s.rdMutex (s.held size h)
  | acquire hpc hfree =>
    simpa [hpc, hfree, held, Work.holds, recordWork, Work.commit] using
      Monitor.Step.acquire (s.held size h) id
  | size hpc =>
    simpa [hpc, held, Work.holds, recordWork, Work.commit] using
      Monitor.Step.inside s.rdMutex (s.held size h) _ id
  | reject hpc | release hpc =>
    simpa [hpc, held, Work.holds, recordWork, Work.commit] using
      Monitor.Step.release s.rdMutex (s.held size h) id
  | noSpace hpc =>
    simp only [hpc, Work.holds, recordWork, Work.commit]
    exact .inside s.rdMutex (s.held size h) _ id
  | fits hpc =>
    simp only [hpc, Work.holds, recordWork, Work.commit]
    refine .inside s.rdMutex (s.held size h) _ fun hholds => ?_
    have hframe : s.frame = [] := hholds.frame
    show s.dev.unread = state (byteQueue size) h ++ s.frame
    rw [hframe, List.append_nil]
    exact hholds.unread
  | put hpc hi =>
    obtain ⟨⟨hv, rfl⟩, -, -, hfit⟩ := hinv.ok (a := .work) (by rw [view, hpc]; rfl)
    simp only [hpc, Work.holds, recordWork, Work.commit, if_pos hi, commit_none]
    refine .inside s.rdMutex (s.held s.dev.buffersize h) _ fun hholds => ?_
    have hunread : s.dev.unread = state (byteQueue s.dev.buffersize) h ++ s.frame := hholds
    show (s.dev.putByte _).unread = _ ++ (s.frame ++ _)
    rw [hv.unread_putByte _ (by omega), hunread, List.append_assoc]
    rfl
  | wrap hpc =>
    obtain ⟨rfl, hr, -⟩ := hinv.ok (a := .work) (by rw [view, hpc]; rfl)
    simp only [hpc, Work.holds, recordWork, Work.commit, commit_none]
    refine .inside s.rdMutex (s.held s.dev.buffersize h) _ fun hholds => ?_
    exact (unread_wrapWpEq hr.le).trans hholds
  | copied hpc hi =>
    obtain ⟨⟨hv, rfl⟩, -⟩ := hinv.ok (a := .work) (by rw [view, hpc]; rfl)
    simp only [hpc, Work.holds, recordWork, Work.commit, if_neg (Nat.not_lt.2 hi)]
    refine .inside s.rdMutex (s.held s.dev.buffersize h) _ fun hholds => ⟨?_, rfl⟩
    have hunread : s.dev.unread = state (byteQueue s.dev.buffersize) h ++ s.frame := hholds
    have hroom := hv.length_unread_lt
    rw [hunread, List.length_append] at hroom
    exact hunread.trans (pushed_of_lt hroom).symm

/-! ## The driver and its history -/

/-- One step of the driver, with its history. -/
def recorded (w : Driver × RingHistory) (y : Act) : Option (Driver × RingHistory) :=
  recording step record w y

/-- The ring holds the queue, but for what is being done. -/
def HoldsQueue (size : ℕ) (w : Driver × RingHistory) : Prop :=
  Monitor.Inv Holds w.1.rdMutex (views Reader.holds Writer.holds Work.holds w.1)
    (w.1.held size w.2)

theorem holdsQueue_init (size : ℕ) (io : PlatIo) : HoldsQueue size (init size io, []) where
  inside_iff a := by cases a <;> simp [views, init, Reader.holds, Writer.holds, Work.holds]
  free _ := ⟨unread_initDataBuffer size, rfl⟩
  held a P ha := by cases a <;> simp [views, init, Reader.holds, Writer.holds, Work.holds] at ha

theorem holdsQueue_step {w w' : Driver × RingHistory} {y : Act} (hinv : w.1.Inv size)
    (hholds : HoldsQueue size w) (hstep : recorded w y = some w') : HoldsQueue size w' := by
  obtain ⟨s, h⟩ := w
  obtain ⟨t, h'⟩ := w'
  obtain ⟨hst, rfl : h' = s.record y h⟩ := recording_eq_some hstep
  have hframe : ∀ a, y.agent ≠ some a →
      views Reader.holds Writer.holds Work.holds t a =
        views Reader.holds Writer.holds Work.holds s a :=
    fun a ha => views_frame _ _ _ (fun pc => by cases pc <;> rfl) hst ha
  cases y with
  | callRead i count =>
    obtain ⟨hpc, rfl⟩ := callReadStep_eq hst
    refine Monitor.Inv.step (.reader i) hholds ?_ fun a ha =>
      hframe a (by simpa [Act.agent, eq_comm])
    have hout : (s.readers i).holds = none := by
      obtain hpc | ⟨r, hpc⟩ := hpc <;> rw [hpc] <;> rfl
    have hin : (Reader.lock count).holds = none := rfl
    simpa [views, hout, hin, held, record] using
      Monitor.Step.outside s.rdMutex (s.held size h)
  | callWrite i buf =>
    obtain ⟨hpc, rfl⟩ := callWriteStep_eq hst
    refine Monitor.Inv.step (.writer i) hholds ?_ fun a ha =>
      hframe a (by simpa [Act.agent, eq_comm])
    have hout : (s.writers i).holds = none := by
      obtain hpc | ⟨r, hpc⟩ := hpc <;> rw [hpc] <;> rfl
    have hin : (Writer.lock buf).holds = none := rfl
    simpa [views, hout, hin, held, record] using
      Monitor.Step.outside s.rdMutex (s.held size h)
  | reader i x =>
    exact Monitor.Inv.step (.reader i) hholds ((readerStep_move hst).holds hinv) fun a ha =>
      hframe a (by simpa [Act.agent, eq_comm])
  | writer i x =>
    exact Monitor.Inv.step (.writer i) hholds ((writerStep_move hst).holds hinv) fun a ha =>
      hframe a (by simpa [Act.agent, eq_comm])
  | work x =>
    exact Monitor.Inv.step .work hholds ((workStep_move hst).holds hinv) fun a ha =>
      hframe a (by simpa [Act.agent, eq_comm])
  | store st =>
    obtain rfl : _ = t := by simpa [Driver.step] using hst
    exact hholds

/-! ## The answers -/

/-- The operation a thread is about to make has the answer of the queue. -/
theorem Reader.commit_answer (hinv : s.Inv size) (hholds : HoldsQueue size (s, h)) {op : RingOp}
    {ans : RingAnswer} (ho : (s.readers i).commit s.dev = some (op, ans)) :
    ans = (byteQueue size).answer op (state (byteQueue size) h) := by
  cases hpc : s.readers i with
  | advance count =>
    have hview := hinv.ok (a := .reader i) (by rw [view, hpc]; rfl)
    have hheld : Holds (s.held size h) :=
      hholds.held (.reader i) _ (by simp [views, hpc, Reader.holds])
    simp only [hpc, Reader.commit, Option.some.injEq, Prod.mk.injEq] at ho
    obtain ⟨rfl, rfl⟩ := ho
    have htake := (holds_advanceRp hview hheld).1
    have hunread : s.dev.unread = state (byteQueue size) h := hheld.unread
    rw [hunread] at htake
    exact congrArg RingAnswer.bytes htake.symm
  | _ => simp [hpc, Reader.commit] at ho

theorem Writer.commit_answer {q : List UInt8} {op : RingOp} {ans : RingAnswer}
    (ho : (s.writers i).commit s.dev x = some (op, ans)) : ans = (byteQueue size).answer op q := by
  unfold Writer.commit at ho
  split at ho
  case h_1 => cases ho; rfl
  case h_2 => cases ho; rfl
  case h_3 => cases ho

theorem Work.commit_answer (hinv : s.Inv size) (hholds : HoldsQueue size (s, h)) {op : RingOp}
    {ans : RingAnswer} (ho : s.work.commit s.dev s.frame = some (op, ans)) :
    ans = (byteQueue size).answer op (state (byteQueue size) h) := by
  cases hpc : s.work with
  | space status n =>
    obtain ⟨⟨hv, rfl⟩, -⟩ := hinv.ok (a := .work) (by rw [view, hpc]; rfl)
    have hheld : Holds (s.held s.dev.buffersize h) :=
      hholds.held .work _ (by simp [views, hpc, Work.holds])
    simp only [hpc, Work.commit, Option.some.injEq, Prod.mk.injEq] at ho
    obtain ⟨rfl, rfl⟩ := ho
    have hunread : s.dev.unread = state (byteQueue s.dev.buffersize) h := hheld.unread
    refine congrArg RingAnswer.fits ?_
    rw [Bool.eq_iff_iff, hv.fits_iff, hunread, decide_eq_true_eq]
  | put status count i =>
    simp only [hpc, Work.commit] at ho
    split_ifs at ho
    cases ho
    rfl
  | _ => simp [hpc, Work.commit] at ho

theorem legal_step {w w' : Driver × RingHistory} {y : Act} (hinv : w.1.Inv size)
    (hholds : HoldsQueue size w) (hlegal : Legal (byteQueue size) w.2)
    (hstep : recorded w y = some w') : Legal (byteQueue size) w'.2 := by
  obtain ⟨s, h⟩ := w
  obtain ⟨-, heq⟩ := recording_eq_some hstep
  rw [heq]
  cases y with
  | callRead | callWrite | store => exact hlegal
  | reader i x => exact hlegal.commit fun op ans ho => Reader.commit_answer hinv hholds ho
  | writer i x => exact hlegal.commit fun op ans ho => Writer.commit_answer ho
  | work x =>
    show Legal (byteQueue size) (s.recordWork h)
    unfold recordWork
    split
    · exact hlegal
    · exact hlegal.commit fun op ans ho => Work.commit_answer hinv hholds ho

end Driver

/-! ## What a call has done so far -/

/-- The operations of a read of `count` bytes, at each of its lines. -/
def Reader.Made (count : ℕ) (ops : List (RingOp × RingAnswer)) : Reader → Prop
  | .idle => True
  | .lock n | .test n | .unlock n | .wait n _ | .copy n => n = count ∧ ops = []
  | .advance n => n ≤ count ∧ (1 ≤ count → 1 ≤ n) ∧ ops = []
  | .wrap n => ReadOutcome count ops n
  | .leave r | .ret r => ReadOutcome count ops r

/-- Of a write of `buf`. -/
def Writer.Made (buf : List UInt8) (ops : List (RingOp × RingAnswer)) : Writer → Prop
  | .idle => True
  | .lock buf' | .copy buf' => buf' = buf ∧ ops = []
  | .advance n | .wrap n => WriteOutcome buf ops n
  | .leave r | .ret r => WriteOutcome buf ops r

/-- Of the delayed work, which has stored `frame`. -/
def Work.Made (frame : List UInt8) (ops : List (RingOp × RingAnswer)) : Work → Prop
  | .lock _ | .size _ => ops = []
  | .space _ n => n ≤ memSize ∧ ops = []
  | .reject => PollOutcome ops .noSpace
  | .put _ count i =>
    count ≤ memSize ∧ i ≤ count ∧ frame.length = i ∧ ops = [(.room count, .fits true)]
  | .wrap _ count i =>
    count ≤ memSize ∧ i < count ∧ frame.length = i + 1 ∧ ops = [(.room count, .fits true)]
  | .unlock _ | .wake _ | .clear _ => PollOutcome ops .copied
  | .exit last | .idle last => PollOutcome ops last

namespace Driver

variable {size : ℕ} {s t : Driver} {h : RingHistory} {i : ℕ} {x : Input}
  {ops : List (RingOp × RingAnswer)}

theorem made_wakeReader {count : ℕ} {pc : Reader} (hmade : pc.Made count ops) :
    (wakeReader pc).Made count ops := by
  cases pc <;> exact hmade

theorem ReaderMove.made {count : ℕ} (hinv : s.Inv size) (hmade : (s.readers i).Made count ops)
    (hmove : ReaderMove s i t) :
    (t.readers i).Made count (((s.readers i).commit s.dev).toList ++ ops) := by
  cases hmove with
  | acquire hpc | empty hpc | found hpc | release hpc | wait hpc | done hpc =>
    simpa [hpc, Reader.Made, Reader.commit] using hmade
  | interrupted hpc | signalled hpc =>
    simp only [hpc, Reader.Made, Reader.commit, setReader_readers, Function.update_self] at hmade ⊢
    obtain ⟨rfl, rfl⟩ := hmade
    exact .signalled
  | copy hpc =>
    obtain ⟨hok, hne⟩ := hinv.ok (a := .reader i) (by rw [view, hpc]; rfl)
    simp only [hpc, Reader.Made, Reader.commit, setReader_readers, Function.update_self] at hmade ⊢
    obtain ⟨rfl, rfl⟩ := hmade
    refine ⟨?_, fun hpos => (hok.valid.readCount_pos hne hpos).1, rfl⟩
    unfold readCount
    split_ifs <;> exact Nat.min_le_left _ _
  | fault hpc =>
    simp only [hpc, Reader.Made, Reader.commit, setReader_readers, Function.update_self] at hmade ⊢
    obtain ⟨rfl, rfl⟩ := hmade
    exact .fault
  | advance hpc =>
    simp only [hpc, Reader.Made, Reader.commit, setReader_readers, Function.update_self] at hmade ⊢
    obtain ⟨hle, hpos, rfl⟩ := hmade
    exact .read (by simp [copyToUser]) hle hpos
  | wrap hpc | leave hpc =>
    simpa [hpc, Reader.Made, Reader.commit] using hmade

theorem WriterMove.made {buf : List UInt8} (hinv : s.Inv size)
    (hmade : (s.writers i).Made buf ops) (hmove : WriterMove s i x t) :
    (t.writers i).Made buf (((s.writers i).commit s.dev x).toList ++ ops) := by
  cases hmove with
  | acquire hpc => simpa [hpc, Writer.Made, Writer.commit] using hmade
  | interrupted hpc =>
    simp only [hpc, Writer.Made, Writer.commit, setWriter_writers, Function.update_self] at hmade ⊢
    obtain ⟨rfl, rfl⟩ := hmade
    exact .signalled
  | copy hpc =>
    obtain ⟨hv, rfl⟩ := hinv.ok (a := .writer i) (by rw [view, hpc]; rfl)
    have hroom := hv.wp_lt
    simp only [hpc, Writer.Made, Writer.commit, setWriter_writers, Function.update_self] at hmade ⊢
    obtain ⟨rfl, rfl⟩ := hmade
    refine .write (writeCount_le_count _) fun hpos => ?_
    unfold writeCount bufEnd
    omega
  | fault hpc hlt =>
    simp only [hpc, Writer.Made, Writer.commit, setWriter_writers, Function.update_self] at hmade ⊢
    obtain ⟨rfl, rfl⟩ := hmade
    exact .fault hlt (writeCount_le_count _)
  | advance hpc | wrap hpc | leave hpc =>
    simpa [hpc, Writer.Made, Writer.commit] using hmade

/-- What the work has made since its last start. -/
theorem WorkMove.made (hholds : HoldsQueue size (s, h))
    (hmade : s.work.Made s.frame (opsOf .work h)) (hmove : WorkMove s t) :
    t.work.Made t.frame (opsOf .work (s.recordWork h)) := by
  cases hmove with
  | noData hpc => simpa [hpc, Work.Made, recordWork] using PollOutcome.noData
  | sample hpc => simp [hpc, Work.Made, recordWork]
  | acquire hpc | exit hpc | release hpc | wake hpc | clear hpc | reject hpc =>
    simpa [hpc, Work.Made, recordWork, Work.commit] using hmade
  | interrupted hpc =>
    simp only [hpc, Work.Made, recordWork, Work.commit, commit_none] at hmade ⊢
    rw [hmade]
    exact .interrupted
  | size hpc =>
    simp only [hpc, Work.Made, recordWork, Work.commit, commit_none] at hmade ⊢
    exact ⟨clampSize_le _, hmade⟩
  | noSpace hpc hfits =>
    simp only [hpc, Work.Made, recordWork, Work.commit, opsOf_commit_self, hfits] at hmade ⊢
    rw [hmade.2]
    exact .noSpace _
  | fits hpc hfits =>
    have hheld : Holds (s.held size h) := hholds.held .work _ (by simp [views, hpc, Work.holds])
    have hframe : s.frame = [] := hheld.frame
    simp only [hpc, Work.Made, recordWork, Work.commit, opsOf_commit_self, hfits] at hmade ⊢
    exact ⟨hmade.1, Nat.zero_le _, by rw [hframe]; rfl, by rw [hmade.2]; rfl⟩
  | put hpc hi =>
    simp only [hpc, Work.Made, recordWork, Work.commit, if_pos hi, commit_none] at hmade ⊢
    obtain ⟨hcount, -, hlen, hops⟩ := hmade
    exact ⟨hcount, hi, by rw [List.length_append, hlen]; rfl, hops⟩
  | copied hpc hi =>
    simp only [hpc, Work.Made, recordWork, Work.commit, if_neg (Nat.not_lt.2 hi),
      opsOf_commit_self] at hmade ⊢
    obtain ⟨hcount, hle, hlen, hops⟩ := hmade
    obtain rfl : _ = s.frame.length := (Nat.le_antisymm hi hle).trans hlen.symm
    rw [hops]
    exact .copied _ hcount
  | wrap hpc =>
    simp only [hpc, Work.Made, recordWork, Work.commit, commit_none] at hmade ⊢
    obtain ⟨hcount, hlt, hlen, hops⟩ := hmade
    exact ⟨hcount, hlt, hlen, hops⟩

/-- Every thread has made what its last call says, and readers have been handed what the
queue gave. -/
structure Serving (w : Driver × RingHistory) : Prop where
  reader : ∀ i, w.1.readers i = .idle ∨ ∃ count, callOf (.reader i) w.2 = some (.read count) ∧
    (w.1.readers i).Made count (opsOf (.reader i) w.2)
  writer : ∀ i, w.1.writers i = .idle ∨ ∃ buf, callOf (.writer i) w.2 = some (.write buf) ∧
    (w.1.writers i).Made buf (opsOf (.writer i) w.2)
  work : w.1.work.Made w.1.frame (opsOf .work w.2)
  delivered : w.1.delivered = handedOut w.2

theorem serving_init (size : ℕ) (io : PlatIo) : Serving (init size io, []) :=
  ⟨fun _ => Or.inl rfl, fun _ => Or.inl rfl, .noData, rfl⟩

/-! ### What a step leaves alone -/

theorem reader_frame {y : Act} (hstep : s.step y = some t) (hy : y.agent ≠ some (.reader i)) :
    t.readers i = s.readers i ∨ t.readers i = wakeReader (s.readers i) := by
  cases y with
  | callRead j count =>
    obtain ⟨-, rfl⟩ := callReadStep_eq hstep
    have hij : i ≠ j := by simpa [Act.agent, eq_comm] using hy
    exact Or.inl (Function.update_of_ne hij _ _)
  | callWrite j buf =>
    obtain ⟨-, rfl⟩ := callWriteStep_eq hstep
    exact Or.inl rfl
  | reader j x =>
    obtain ⟨-, -, -, -, -, hreaders⟩ := (readerStep_move hstep).frame
    exact Or.inl (hreaders i (by simpa [Act.agent, eq_comm] using hy))
  | writer j x =>
    obtain ⟨-, hreaders, -⟩ := (writerStep_move hstep).frame
    exact Or.inl (congrFun hreaders i)
  | work x =>
    obtain ⟨-, -, hreaders | hreaders⟩ := (workStep_move hstep).frame
    · exact Or.inl (congrFun hreaders i)
    · exact Or.inr (congrFun hreaders i)
  | store st =>
    obtain rfl : _ = t := by simpa [Driver.step] using hstep
    exact Or.inl rfl

theorem writer_frame {y : Act} (hstep : s.step y = some t) (hy : y.agent ≠ some (.writer i)) :
    t.writers i = s.writers i := by
  cases y with
  | callRead j count =>
    obtain ⟨-, rfl⟩ := callReadStep_eq hstep
    rfl
  | callWrite j buf =>
    obtain ⟨-, rfl⟩ := callWriteStep_eq hstep
    have hij : i ≠ j := by simpa [Act.agent, eq_comm] using hy
    exact Function.update_of_ne hij _ _
  | reader j x =>
    obtain ⟨-, hwriters, -⟩ := (readerStep_move hstep).frame
    exact congrFun hwriters i
  | writer j x =>
    obtain ⟨-, -, -, -, -, -, hwriters⟩ := (writerStep_move hstep).frame
    exact hwriters i (by simpa [Act.agent, eq_comm] using hy)
  | work x =>
    obtain ⟨hwriters, -⟩ := (workStep_move hstep).frame
    exact congrFun hwriters i
  | store st =>
    obtain rfl : _ = t := by simpa [Driver.step] using hstep
    rfl

theorem recordWork_frame {a : Agent} (ha : a ≠ .work) :
    opsOf a (s.recordWork h) = opsOf a h ∧ callOf a (s.recordWork h) = callOf a h := by
  unfold recordWork
  split
  · exact ⟨opsOf_call_of_ne ha.symm, callOf_call_of_ne ha.symm⟩
  · exact ⟨opsOf_commit_of_ne ha.symm, callOf_commit⟩

theorem record_frame {y : Act} {a : Agent} (ha : y.agent ≠ some a) :
    opsOf a (s.record y h) = opsOf a h ∧ callOf a (s.record y h) = callOf a h := by
  have hne : ∀ b, y.agent = some b → b ≠ a := fun b hb heq => ha (hb.trans (congrArg some heq))
  cases y with
  | callRead i count => exact ⟨opsOf_call_of_ne (hne _ rfl), callOf_call_of_ne (hne _ rfl)⟩
  | callWrite i buf => exact ⟨opsOf_call_of_ne (hne _ rfl), callOf_call_of_ne (hne _ rfl)⟩
  | reader i x => exact ⟨opsOf_commit_of_ne (hne _ rfl), callOf_commit⟩
  | writer i x => exact ⟨opsOf_commit_of_ne (hne _ rfl), callOf_commit⟩
  | work x => exact recordWork_frame (hne _ rfl).symm
  | store st => exact ⟨rfl, rfl⟩

theorem handedOut_writer {d : PlatDummyDevice} {pc : Writer} :
    handedOut (commit (.writer i) (pc.commit d x) h) = handedOut h := by
  unfold Writer.commit
  split <;> rfl

theorem handedOut_recordWork : handedOut (s.recordWork h) = handedOut h := by
  unfold recordWork Work.commit
  split
  · rfl
  · split
    · rfl
    · split_ifs <;> rfl
    · rfl

theorem delivered_step {y : Act} (hstep : s.step y = some t) (hdeliv : s.delivered = handedOut h) :
    t.delivered = handedOut (s.record y h) := by
  cases y with
  | callRead j count =>
    obtain ⟨-, rfl⟩ := callReadStep_eq hstep
    exact hdeliv
  | callWrite j buf =>
    obtain ⟨-, rfl⟩ := callWriteStep_eq hstep
    exact hdeliv
  | reader j x =>
    show t.delivered = handedOut (commit _ _ h)
    cases readerStep_move hstep with
    | advance hpc => simp [hpc, Reader.commit, handedOut, hdeliv]
    | acquire hpc | interrupted hpc | empty hpc | found hpc | release hpc | wait hpc | done hpc
    | signalled hpc | copy hpc | fault hpc | wrap hpc | leave hpc =>
      simpa [hpc, Reader.commit] using hdeliv
  | writer j x =>
    obtain ⟨-, -, -, hsame, -⟩ := (writerStep_move hstep).frame
    exact (hsame.trans hdeliv).trans handedOut_writer.symm
  | work x =>
    obtain ⟨-, hsame, -⟩ := (workStep_move hstep).frame
    exact (hsame.trans hdeliv).trans handedOut_recordWork.symm
  | store st =>
    obtain rfl : _ = t := by simpa [Driver.step] using hstep
    exact hdeliv

theorem serving_reader {y : Act} (hinv : s.Inv size) (hserving : Serving (s, h))
    (hstep : s.step y = some t) (i : ℕ) : t.readers i = .idle ∨
      ∃ count, callOf (.reader i) (s.record y h) = some (.read count) ∧
        (t.readers i).Made count (opsOf (.reader i) (s.record y h)) := by
  by_cases hy : y.agent = some (.reader i)
  · cases y with
    | callRead j count =>
      obtain rfl : j = i := by simpa [Act.agent] using hy
      obtain ⟨-, rfl⟩ := callReadStep_eq hstep
      exact Or.inr ⟨count, callOf_call_self, by simp [record, Reader.Made]⟩
    | reader j x =>
      obtain rfl : j = i := by simpa [Act.agent] using hy
      have hmove := readerStep_move hstep
      obtain hidle | ⟨count, hcall, hmade⟩ := hserving.reader j
      · cases hmove <;> simp_all
      · refine Or.inr ⟨count, callOf_commit.trans hcall, ?_⟩
        simpa [record] using hmove.made hinv hmade
    | callWrite | writer | work | store => simp [Act.agent] at hy
  · obtain ⟨hops, hcall⟩ := record_frame (s := s) (h := h) hy
    rw [hops, hcall]
    have hserved := hserving.reader i
    obtain hsame | hwake := reader_frame hstep hy
    · rw [hsame]
      exact hserved
    · rw [hwake]
      obtain hidle | ⟨count, hcalled, hmade⟩ := hserved
      · exact Or.inl (by rw [show s.readers i = .idle from hidle]; rfl)
      · exact Or.inr ⟨count, hcalled, made_wakeReader hmade⟩

theorem serving_writer {y : Act} (hinv : s.Inv size) (hserving : Serving (s, h))
    (hstep : s.step y = some t) (i : ℕ) : t.writers i = .idle ∨
      ∃ buf, callOf (.writer i) (s.record y h) = some (.write buf) ∧
        (t.writers i).Made buf (opsOf (.writer i) (s.record y h)) := by
  by_cases hy : y.agent = some (.writer i)
  · cases y with
    | callWrite j buf =>
      obtain rfl : j = i := by simpa [Act.agent] using hy
      obtain ⟨-, rfl⟩ := callWriteStep_eq hstep
      exact Or.inr ⟨buf, callOf_call_self, by simp [record, Writer.Made]⟩
    | writer j x =>
      obtain rfl : j = i := by simpa [Act.agent] using hy
      have hmove := writerStep_move hstep
      obtain hidle | ⟨buf, hcall, hmade⟩ := hserving.writer j
      · cases hmove <;> simp_all
      · refine Or.inr ⟨buf, callOf_commit.trans hcall, ?_⟩
        simpa [record] using hmove.made hinv hmade
    | callRead | reader | work | store => simp [Act.agent] at hy
  · obtain ⟨hops, hcall⟩ := record_frame (s := s) (h := h) hy
    rw [hops, hcall, writer_frame hstep hy]
    exact hserving.writer i

theorem serving_work {y : Act} (hholds : HoldsQueue size (s, h)) (hserving : Serving (s, h))
    (hstep : s.step y = some t) : t.work.Made t.frame (opsOf .work (s.record y h)) := by
  by_cases hy : y.agent = some .work
  · cases y with
    | work x => exact (workStep_move hstep).made hholds hserving.work
    | callRead | callWrite | reader | writer | store => simp [Act.agent] at hy
  · rw [(record_frame hy).1]
    cases y with
    | work x => exact absurd rfl hy
    | store st =>
      obtain rfl : _ = t := by simpa [Driver.step] using hstep
      exact hserving.work
    | callRead | callWrite | reader | writer =>
      obtain ⟨-, hwork, hframe, -⟩ := frame_of_not_work hstep (by simp) (by simp)
      rw [hwork, hframe]
      exact hserving.work

/-- The invariant of the driver and its history. -/
structure Recorded (size : ℕ) (w : Driver × RingHistory) : Prop where
  inv : w.1.Inv size
  holds : HoldsQueue size w
  legal : Legal (byteQueue size) w.2
  serving : Serving w

theorem recorded_init (hsize : 0 < size) (io : PlatIo) : Recorded size (init size io, []) :=
  ⟨inv_init hsize io, holdsQueue_init size io, trivial, serving_init size io⟩

theorem recorded_step {w w' : Driver × RingHistory} {y : Act} (hw : Recorded size w)
    (hstep : recorded w y = some w') : Recorded size w' := by
  have hholds := holdsQueue_step hw.inv hw.holds hstep
  have hlegal := legal_step hw.inv hw.holds hw.legal hstep
  obtain ⟨t, h'⟩ := w'
  obtain ⟨hst, rfl : h' = w.1.record y w.2⟩ := recording_eq_some hstep
  exact ⟨inv_step hw.inv hst, hholds, hlegal, serving_reader hw.inv hw.serving hst,
    serving_writer hw.inv hw.serving hst, serving_work hw.holds hw.serving hst,
    delivered_step hst hw.serving.delivered⟩

/-- The history `h` explains what the run `as` of the driver has come to. -/
structure Explained (size : ℕ) (io : PlatIo) (as : List Act) (s : Driver) (h : RingHistory) :
    Prop where
  run : exec recorded (init size io, []) as = some (s, h)
  /-- Every answer is that of the queue taking one operation after the other. -/
  legal : Legal (byteQueue size) h
  ring : s.rdMutex = none → s.dev.unread = state (byteQueue size) h
  /-- Readers have got what the queue gave, in its order. -/
  delivered : s.delivered = handedOut h
  fifo : Roomy size h → s.delivered ++ state (byteQueue size) h = putIn h
  /-- What a call has returned says which operations it has made since it started. -/
  read : ∀ i r, s.readers i = .ret r → ∃ count, callOf (.reader i) h = some (.read count) ∧
    ReadOutcome count (opsOf (.reader i) h) r
  write : ∀ i r, s.writers i = .ret r → ∃ buf, callOf (.writer i) h = some (.write buf) ∧
    WriteOutcome buf (opsOf (.writer i) h) r
  poll : ∀ last, s.work = .idle last → PollOutcome (opsOf .work h) last

/-- Under any schedule, with any signals and faults, the ring is one queue of bytes : some
history explains every run. -/
theorem ring_history (hsize : 0 < size) (io : PlatIo) (as : List Act) (s : Driver)
    (hrun : exec step (init size io) as = some s) : ∃ h, Explained size io as s h := by
  obtain ⟨⟨s, h⟩, hw, rfl⟩ :=
    Option.map_eq_some_iff.1 ((exec_recording step record (init size io, []) as).trans hrun)
  obtain ⟨-, hholds, hlegal, hserving⟩ : Recorded size (s, h) :=
    exec_invariant_of_step (fun _ _ _ => recorded_step) (recorded_init hsize io) hw
  have hdelivered : s.delivered = handedOut h := hserving.delivered
  refine ⟨h, hw, hlegal, fun hfree => (hholds.free hfree).unread, hdelivered,
    fun hroomy => hdelivered ▸ fifo_of_roomy hlegal hroomy, fun i r hret => ?_,
    fun i r hret => ?_, fun last hidle => ?_⟩
  · obtain hidle | ⟨count, hcall, hmade⟩ := hserving.reader i
    · simp [show s.readers i = .idle from hidle] at hret
    · rw [show s.readers i = .ret r from hret] at hmade
      exact ⟨count, hcall, hmade⟩
  · obtain hidle | ⟨buf, hcall, hmade⟩ := hserving.writer i
    · simp [show s.writers i = .idle from hidle] at hret
    · rw [show s.writers i = .ret r from hret] at hmade
      exact ⟨buf, hcall, hmade⟩
  · have hmade := hserving.work
    rw [show s.work = .idle last from hidle] at hmade
    exact hmade

/-- Four bytes are written to a ring of four, two of them read, and a write of three whose copy
faults after two bytes stores a zero over the third. -/
def smearRun : List Act :=
  writeRun [1, 2, 3] ++ readRun 2 ++ writeRun [4] ++
    [.callWrite 1 [7, 8, 9], .callRead 0 2, .writer 1 .go, .writer 1 (.fault 2), .writer 1 .go] ++
    List.replicate 6 (.reader 0 .go)

theorem smearRun_history :
    ∃ s, exec step (init 4 zeroIo) smearRun = some s ∧ s.delivered = [1, 2, 0, 4] ∧
      s.writers 1 = .ret (-eFault) ∧ ∃ h, Explained 4 zeroIo smearRun s h := by
  have hend : (exec step (init 4 zeroIo) smearRun).map (fun s => (s.delivered, s.writers 1)) =
      some ([1, 2, 0, 4], .ret (-eFault)) := by decide +kernel
  obtain ⟨s, hs, heq⟩ := Option.map_eq_some_iff.1 hend
  obtain ⟨hdelivered, hwriter⟩ := Prod.mk.injEq _ _ _ _ ▸ heq
  exact ⟨s, hs, hdelivered, hwriter, ring_history (by decide) _ _ s hs⟩

end Driver

end ProCamp
