import Mathlib.Data.Prod.Lex
import ProCamp.DrainedRing
import ProCamp.FileTransfer
import ProCamp.Progress

/-!
# Which files arrive

`file_transfer` says what has arrived; whether all of a file can arrive depends on its first
frame. A ring of at most `MEM_SIZE` bytes takes a file shorter than itself from wherever the
transfer stands : the sender, the poll and whoever holds `rd_mutex` only have to go on. Of a
longer file the first frame already is as long as the ring, and no byte of it is ever
copied (`transfer_completes_iff`).
-/

namespace ProCamp

open PlatDummyDevice Driver Machine

/-- The sender, the poll or a reader goes on. -/
def LinkAct.GoesOn : LinkAct → Prop
  | .send | .driver (.work .go) | .driver (.reader _ .go) => True
  | _ => False

theorem isTransfer_of_goesOn {y : LinkAct} (h : y.GoesOn) : y.IsTransfer := by
  unfold LinkAct.GoesOn at h
  split at h
  case h_1 => trivial
  case h_2 => trivial
  case h_3 => trivial
  case h_4 => exact h.elim

theorem chunks_of_length_le {file : List UInt8} (hne : file ≠ []) (h : file.length ≤ memSize) :
    chunks file = [file] := by
  rw [chunks_of_ne_nil hne, List.take_of_length_le h, List.drop_of_length_le h, chunks_nil]

namespace Link

variable {s t : Link} {size : ℕ} {io : PlatIo} {file : List UInt8} {i : ℕ}

/-! ## Files the ring has room for -/

/-- The invariant of the transfer of a file whose length `fread` can count. -/
structure Running (size : ℕ) (file : List UInt8) (s : Link) : Prop
    extends TransferInv size file s where
  check : s.snd.pc = .check → s.snd.len = s.snd.buf.length
  exited : ∀ r, s.snd.pc = .exited r → r = 0

theorem running_init (hsize : 0 < size) (hflag : dataReady io.flag = false)
    (hfile : file.length < 2 ^ 32) : (init size io file).Running size file where
  toTransferInv := transferInv_init hsize hflag
  check _ := Nat.mod_eq_of_lt hfile
  exited _ h := nomatch h

theorem running_step {y : LinkAct} (h : s.Running size file) (hy : y.IsTransfer)
    (hstep : s.step y = some t) : t.Running size file := by
  have hinv := transferInv_step h.toTransferInv hy hstep
  obtain ⟨a, rfl, -, d, -, rfl⟩ | ⟨rfl, hmove⟩ | ⟨file, rfl, -⟩ := step_cases hstep
  · exact ⟨hinv, h.check, h.exited⟩
  · refine ⟨hinv, ?_, ?_⟩
    · intro hpc
      cases hmove <;> simp_all [goto, stored]
    · intro r hpc
      cases hmove with
      | tooLong hcheck hlen => exact absurd (h.check hcheck) hlen
      | finish => exact (SenderPc.exited.inj hpc).symm
      | _ => simp_all [goto, stored]
  · exact hy.elim

/-- The poll finds the ring empty. -/
theorem TransferInv.fits (h : s.TransferInv size file) (hsize : size ≤ memSize)
    (hfile : file.length < size) {status : UInt32} {n : ℕ} (hpc : s.drv.work = .space status n) :
    s.drv.dev.fits n = true := by
  have hready := h.own.busy (by rw [hpc]; trivial)
  obtain ⟨hframe, rfl⟩ : s.drv.frame = [] ∧ n = s.published.length := by
    simpa [hpc, Work.Copies] using h.own.copies
  have hpending : s.pending = [s.published] := by simp [pending, hready, hpc, Work.copied]
  have hplan := h.plan
  rw [hpending] at hplan
  have hne : file ≠ [] := by
    rintro rfl
    simp [chunks_nil] at hplan
  rw [chunks_of_length_le hne (by omega)] at hplan
  -- the file is the one frame, and nothing was copied before it
  have hlength := congrArg List.length hplan
  simp only [List.length_append, List.length_singleton] at hlength
  have hframes : s.drv.frames = [] := List.eq_nil_of_length_eq_zero (by omega)
  have hrest : s.snd.rest = [] := List.eq_nil_of_length_eq_zero (by omega)
  obtain rfl : file = s.published := by simpa [hframes, hrest] using hplan
  have hcons : s.drv.delivered ++ s.drv.dev.unread = s.drv.frames.flatten ++ s.drv.frame :=
    h.conserved
  have hunread : s.drv.dev.unread = [] := by
    rw [hframes, hframe] at hcons
    exact (List.append_eq_nil_iff.1 hcons).2
  obtain ⟨⟨hv, rfl⟩, -⟩ := h.lock.ok (a := .work) (by rw [view, hpc]; rfl)
  rw [hv.fits_iff, hunread]
  simpa using hfile

/-! ### What is left to do -/

/-- The steps the sender has left. -/
def senderLeft (snd : SendData) : ℕ :=
  match snd.pc with
  | .check => 10 * snd.len + 3
  | .clear => 10 * snd.len + 2
  | .loop => 10 * snd.len + 1
  | .spin => 10 * snd.len
  | .copy count i => 10 * (snd.len - count) + 4 + (count - i)
  | .size _ => 10 * snd.len + 3
  | .ready => 10 * snd.len + 2
  | .exited _ => 0

/-- The frames still to be published, and the one to be copied. -/
def framesLeft (s : Link) : ℕ :=
  2 * senderLeft s.snd + if dataReady s.drv.io.flag then 1 else 0

/-- The steps of a poll until it has copied the frame. -/
def workLeft : Work → ℕ
  | .reject => 2 * memSize + 14
  | .exit _ => 2 * memSize + 13
  | .idle _ => 2 * memSize + 12
  | .lock _ => 2 * memSize + 11
  | .size _ => 2 * memSize + 10
  | .space _ _ => 2 * memSize + 9
  | .put _ count i => 2 * (count - i) + 5
  | .wrap _ count i => 2 * (count - i) + 4
  | .unlock _ => 4
  | .wake _ => 3
  | .clear _ => 2

/-- The steps of a reader until it releases the mutex. -/
def readerLeft : Reader → ℕ
  | .test _ => 5
  | .copy _ => 4
  | .advance _ => 3
  | .wrap _ => 2
  | .leave _ | .unlock _ => 1
  | .idle | .lock _ | .wait _ _ | .ret _ => 0

/-- The steps left of a reader that holds the mutex. -/
def holderLeft (d : Driver) : ℕ :=
  match d.rdMutex with
  | some (.reader i) => readerLeft (d.readers i)
  | _ => 0

/-- How far the transfer is : the frames to come, then the steps of the poll, then those of a
reader that holds the mutex. -/
def measure (s : Link) : ℕ ×ₗ ℕ ×ₗ ℕ :=
  toLex (s.framesLeft, toLex (workLeft s.drv.work, holderLeft s.drv))

theorem measure_lt_of_frames (h : t.framesLeft < s.framesLeft) : t.measure < s.measure :=
  Prod.Lex.toLex_lt_toLex.2 (Or.inl h)

theorem measure_lt_of_work (hframes : t.framesLeft = s.framesLeft)
    (h : workLeft t.drv.work < workLeft s.drv.work) : t.measure < s.measure :=
  Prod.Lex.toLex_lt_toLex.2 (Or.inr ⟨hframes, Prod.Lex.toLex_lt_toLex.2 (Or.inl h)⟩)

theorem measure_lt_of_holder (hframes : t.framesLeft = s.framesLeft)
    (hwork : t.drv.work = s.drv.work) (h : holderLeft t.drv < holderLeft s.drv) :
    t.measure < s.measure :=
  Prod.Lex.toLex_lt_toLex.2
    (Or.inr ⟨hframes, Prod.Lex.toLex_lt_toLex.2 (Or.inr ⟨by rw [hwork], h⟩)⟩)

/-- READY counts less than a step of the sender. -/
theorem framesLeft_lt (h : senderLeft t.snd < senderLeft s.snd) :
    t.framesLeft < s.framesLeft := by
  unfold framesLeft
  split_ifs <;> omega

theorem senderLeft_lt (hmove : SendMove s t) (hspin : s.snd.pc ≠ .spin) :
    senderLeft t.snd < senderLeft s.snd := by
  cases hmove with
  | tooLong hpc | check hpc | clear hpc | finish hpc | loop hpc | size hpc | ready hpc =>
    simp only [senderLeft, goto, stored, hpc]
    omega
  | spin hpc | proceed hpc => exact absurd hpc hspin
  | copy hpc hi =>
    simp only [senderLeft, stored, hpc]
    omega
  | copied hpc =>
    simp only [senderLeft, hpc]
    omega

/-- The sender goes on, but where it waits for READY to be cleared. -/
theorem TransferInv.send_progress (h : s.TransferInv size file)
    (hexit : ∀ r, s.snd.pc ≠ .exited r)
    (hspin : s.snd.pc = .spin → dataReady s.drv.io.flag = false) :
    ∃ t, s.step .send = some t ∧ t.framesLeft < s.framesLeft := by
  by_cases hpc : s.snd.pc = .spin
  · have hprep := h.own.prepares
    simp only [SendData.Prepares, hpc] at hprep
    have hcount : 0 < s.snd.count ∧ s.snd.count ≤ s.snd.len := by
      refine ⟨?_, (count_le s.snd).2⟩
      unfold SendData.count memSize
      split_ifs <;> omega
    refine ⟨s.goto (.copy s.snd.count 0), by simp [step, sendStep, hpc, hspin hpc],
      framesLeft_lt ?_⟩
    simp only [senderLeft, goto, hpc]
    omega
  · obtain ⟨t, ht⟩ : ∃ t, s.sendStep = some t := by
      unfold sendStep
      split
      case h_4 hspin' => exact absurd hspin' hpc
      case h_5 => split_ifs <;> exact ⟨_, rfl⟩
      case h_8 r hexited => exact absurd hexited (hexit r)
      all_goals exact ⟨_, rfl⟩
    exact ⟨t, ht, framesLeft_lt (senderLeft_lt (sendStep_move ht) hpc)⟩

/-- The poll of a published frame goes on, but where it waits for the mutex. -/
theorem TransferInv.work_progress (h : s.TransferInv size file) (hsize : size ≤ memSize)
    (hfile : file.length < size) (hready : dataReady s.drv.io.flag = true)
    (hfree : ∀ status, s.drv.work = .lock status → s.drv.rdMutex = none) :
    ∃ t, s.step (.driver (.work .go)) = some t ∧ t.measure < s.measure := by
  have hcase : ∃ d, s.drv.workStep .go = some d ∧
      (dataReady d.io.flag = false ∨ d.io = s.drv.io ∧ workLeft d.work < workLeft s.drv.work) := by
    cases hpc : s.drv.work with
    | idle last =>
      refine ⟨_, by simp only [workStep, hpc]; rfl, ?_⟩
      exact Or.inr ⟨rfl, by simp [hready, workLeft]⟩
    | lock status =>
      refine ⟨_, by simp only [workStep, hpc, if_pos (hfree status hpc)]; rfl, ?_⟩
      exact Or.inr ⟨rfl, by simp [workLeft]⟩
    | space status n =>
      obtain ⟨-, hle⟩ := h.lock.ok (a := .work) (by rw [view, hpc]; rfl)
      refine ⟨_, by simp only [workStep, hpc, if_pos (h.fits hsize hfile hpc)]; rfl, ?_⟩
      refine Or.inr ⟨rfl, ?_⟩
      simp only [workLeft]
      omega
    | put status count i =>
      by_cases hi : i < count
      · refine ⟨_, by simp only [workStep, hpc, if_pos hi]; rfl, ?_⟩
        exact Or.inr ⟨rfl, by simp [workLeft]⟩
      · refine ⟨_, by simp only [workStep, hpc, if_neg hi]; rfl, ?_⟩
        refine Or.inr ⟨rfl, ?_⟩
        simp only [workLeft]
        omega
    | wrap status count i =>
      obtain ⟨-, -, -, hi, -⟩ := h.lock.ok (a := .work) (by rw [view, hpc]; rfl)
      refine ⟨_, by simp only [workStep, hpc]; rfl, ?_⟩
      refine Or.inr ⟨rfl, ?_⟩
      simp only [workLeft]
      omega
    | clear status =>
      refine ⟨_, by simp only [workStep, hpc]; rfl, ?_⟩
      exact Or.inl (dataReady_clearReady status)
    | size | reject | unlock | wake | exit =>
      refine ⟨_, by simp only [workStep, hpc]; rfl, ?_⟩
      exact Or.inr ⟨rfl, by simp [workLeft]⟩
  obtain ⟨d, hd, hflag | ⟨hio, hleft⟩⟩ := hcase
  · refine ⟨{ s with drv := d }, by simp [step, Driver.step, hd], measure_lt_of_frames ?_⟩
    simp [framesLeft, hflag, hready]
  · refine ⟨{ s with drv := d }, by simp [step, Driver.step, hd], measure_lt_of_work ?_ hleft⟩
    simp only [framesLeft, hio]

/-- A reader that holds the mutex goes on. -/
theorem TransferInv.reader_progress (h : s.TransferInv size file)
    (hown : s.drv.rdMutex = some (.reader i)) :
    ∃ t, s.step (.driver (.reader i .go)) = some t ∧ t.measure < s.measure := by
  obtain ⟨d, hd, hleft⟩ : ∃ d, s.drv.readerStep i .go = some d ∧
      (d.rdMutex = none ∧ 0 < readerLeft (s.drv.readers i) ∨
        d.rdMutex = s.drv.rdMutex ∧ readerLeft (d.readers i) < readerLeft (s.drv.readers i)) := by
    have hview : (s.drv.view size (.reader i)).isSome := (h.lock.inside_iff _).2 hown
    cases hpc : s.drv.readers i with
    | idle | lock | wait | ret => simp [view, hpc, Reader.view] at hview
    | test count =>
      refine ⟨_, by simp only [readerStep, hpc]; rfl, ?_⟩
      refine Or.inr ⟨rfl, ?_⟩
      simp only [setReader_readers, Function.update_self]
      split_ifs <;> simp [readerLeft]
    | copy | advance | wrap =>
      refine ⟨_, by simp only [readerStep, hpc]; rfl, ?_⟩
      exact Or.inr ⟨rfl, by simp [readerLeft]⟩
    | unlock | leave =>
      refine ⟨_, by simp only [readerStep, hpc]; rfl, ?_⟩
      exact Or.inl ⟨rfl, by simp [readerLeft]⟩
  obtain ⟨hio, hwork, -⟩ := frame_of_not_work (y := .reader i .go) hd (by simp) (by simp)
  refine ⟨{ s with drv := d }, by simp [step, Driver.step, hd], measure_lt_of_holder ?_ hwork ?_⟩
  · simp only [framesLeft, hio]
  · rcases hleft with ⟨hnone, hpos⟩ | ⟨hsame, hlt⟩
    · simpa [holderLeft, hnone, hown] using hpos
    · simpa [holderLeft, hsame, hown] using hlt

/-- All of the file has arrived, the sender has exited and no poll is in progress. -/
structure Done (file : List UInt8) (s : Link) : Prop where
  exited : s.snd.pc = .exited 0
  clear : dataReady s.drv.io.flag = false
  arrived : s.drv.delivered ++ s.drv.dev.unread = file

/-- Without the ring full, there is always someone who brings the transfer forward. -/
theorem Running.progress (h : s.Running size file) (hsize : size ≤ memSize)
    (hfile : file.length < size)
    (hdone : ¬(s.snd.pc = .exited 0 ∧ dataReady s.drv.io.flag = false)) :
    ∃ y t, y.GoesOn ∧ s.step y = some t ∧ t.Running size file ∧ t.measure < s.measure := by
  suffices hstep : ∃ y t, y.GoesOn ∧ s.step y = some t ∧ t.measure < s.measure by
    obtain ⟨y, t, hy, ht, hlt⟩ := hstep
    exact ⟨y, t, hy, ht, running_step h (isTransfer_of_goesOn hy) ht, hlt⟩
  cases hready : dataReady s.drv.io.flag with
  | false =>
    have hexit : ∀ r, s.snd.pc ≠ .exited r := by
      intro r hpc
      obtain rfl := h.exited r hpc
      exact hdone ⟨hpc, hready⟩
    obtain ⟨t, ht, hlt⟩ := h.send_progress hexit fun _ => hready
    exact ⟨.send, t, trivial, ht, measure_lt_of_frames hlt⟩
  | true =>
    by_cases hwait : ∃ status, s.drv.work = .lock status ∧ s.drv.rdMutex ≠ none
    · obtain ⟨status, hpc, hheld⟩ := hwait
      obtain ⟨a, hown⟩ := Option.ne_none_iff_exists'.1 hheld
      have hview := (h.lock.inside_iff a).2 hown
      cases a with
      | reader i =>
        obtain ⟨t, ht, hlt⟩ := h.reader_progress hown
        exact ⟨.driver (.reader i .go), t, trivial, ht, hlt⟩
      | writer i => simp [view, h.writers i, Writer.view] at hview
      | work => simp [view, hpc, Work.view] at hview
    · obtain ⟨t, ht, hlt⟩ := h.work_progress hsize hfile hready fun status hpc => by
        simpa [hpc] using hwait
      exact ⟨.driver (.work .go), t, trivial, ht, hlt⟩

theorem Running.done (h : s.Running size file) (hexit : s.snd.pc = .exited 0)
    (hclear : dataReady s.drv.io.flag = false) : s.Done file := by
  refine ⟨hexit, hclear, ?_⟩
  have hprep := h.own.prepares
  simp only [SendData.Prepares, hexit] at hprep
  have hrest : s.snd.rest = [] := by simp [SendData.rest, hexit, hprep, chunks_nil]
  have hidle : ¬s.drv.work.Busy := fun hb => by simpa [hclear] using h.own.busy hb
  have hcons : s.drv.delivered ++ s.drv.dev.unread = s.drv.frames.flatten ++ s.drv.frame :=
    h.conserved
  have hplan := h.plan
  simp only [pending, hclear, hrest, List.append_nil, Bool.false_and, Bool.false_eq_true,
    if_false] at hplan
  rw [hcons, frame_eq_nil_of_not_busy h.own hidle, ← hplan, flatten_chunks, List.append_nil]

theorem Running.canReach_done (h : s.Running size file) (hsize : size ≤ memSize)
    (hfile : file.length < size) : CanReach step LinkAct.GoesOn (Done file) s :=
  (canReach_of_measure measure (fun _ hs hdone => hs.progress hsize hfile hdone) h).mono
    fun _ ht => ht.1.done ht.2.1 ht.2.2

/-! ## Files it has not -/

/-- No frame of the file has been copied, and no poll is about to. -/
structure Refused (size : ℕ) (file : List UInt8) (s : Link) : Prop
    extends TransferInv size file s where
  frames : s.drv.frames = []
  work : s.drv.work.Refuses size

/-- The frame a poll finds is the first of the file. -/
theorem Refused.published_eq (h : s.Refused size file) (hbusy : s.drv.work.Busy) :
    s.published = file.take memSize := by
  have hcopied : s.drv.work.copied = false := by
    have hwork := h.work
    cases hpc : s.drv.work <;> simp_all [Work.Refuses, Work.copied]
  have hpending : s.pending = [s.published] := by simp [pending, h.own.busy hbusy, hcopied]
  have hplan := h.plan
  rw [h.frames, hpending, List.nil_append] at hplan
  have hne : file ≠ [] := by
    rintro rfl
    simp [chunks_nil] at hplan
  rw [chunks_of_ne_nil hne] at hplan
  exact (List.cons.inj hplan).1.symm

theorem refused_work {d : Driver} (h : s.Refused size file) (hsize : size ≤ memSize)
    (hfile : size ≤ file.length) (hmove : WorkMove s.drv d) :
    d.frames = [] ∧ d.work.Refuses size := by
  have hwork := h.work
  have hframes := h.frames
  cases hmove with
  | size hpc =>
    have hbusy : s.drv.work.Busy := by rw [hpc]; trivial
    have hpublished := h.own.published (h.own.busy hbusy)
    refine ⟨hframes, ?_⟩
    show size ≤ clampSize s.drv.io.size.toNat
    rw [hpublished.clampSize_eq, h.published_eq hbusy, List.length_take]
    omega
  | fits hpc hfits =>
    obtain ⟨⟨hv, rfl⟩, -⟩ := h.lock.ok (a := .work) (by rw [view, hpc]; rfl)
    have hroom := (hv.fits_iff _).1 hfits
    rw [hpc] at hwork
    have hlarge : s.drv.dev.buffersize ≤ _ := hwork
    omega
  | put hpc | copied hpc | wrap hpc | release hpc | wake hpc | clear hpc =>
    simp [hpc, Work.Refuses] at hwork
  | noData | sample | acquire | interrupted | noSpace | reject | exit =>
    exact ⟨hframes, trivial⟩

theorem refused_step {y : LinkAct} (h : s.Refused size file) (hsize : size ≤ memSize)
    (hfile : size ≤ file.length) (hy : y.IsTransfer) (hstep : s.step y = some t) :
    t.Refused size file := by
  have hinv := transferInv_step h.toTransferInv hy hstep
  obtain ⟨a, rfl, hstore, d, hd, rfl⟩ | ⟨rfl, hmove⟩ | ⟨file, rfl, -⟩ := step_cases hstep
  · by_cases hwork : ∃ x, a = .work x
    · obtain ⟨x, rfl⟩ := hwork
      obtain ⟨hframes, hrefuses⟩ := refused_work h hsize hfile (workStep_move hd)
      exact ⟨hinv, hframes, hrefuses⟩
    · obtain ⟨-, hw, -, hframes⟩ := frame_of_not_work hd (not_exists.1 hwork) hstore
      exact ⟨hinv, hframes.trans h.frames, hw ▸ h.work⟩
  · have hdrv : t.drv = { s.drv with io := t.drv.io } := by cases hmove <;> rfl
    exact ⟨hinv, by rw [hdrv]; exact h.frames, by rw [hdrv]; exact h.work⟩
  · exact hy.elim

/-- Not a byte of the file has arrived. -/
theorem Refused.arrived (h : s.Refused size file) :
    s.drv.delivered ++ s.drv.dev.unread = [] := by
  have hcons : s.drv.delivered ++ s.drv.dev.unread = s.drv.frames.flatten ++ s.drv.frame :=
    h.conserved
  have hframe : s.drv.frame = [] := by
    have hcopies := h.own.copies
    have hwork := h.work
    cases hpc : s.drv.work <;> simp_all [Work.Refuses, Work.Copies]
  rw [hcons, h.frames, hframe]
  rfl

/-- Started with `PLAT_IO_DATA_READY` clear, the transfer of a file can be completed from every
state it comes to exactly if the file is shorter than the ring. Of any other file nothing ever
arrives. -/
theorem transfer_completes_iff (size : ℕ) (io : PlatIo) (file : List UInt8) (hpos : 0 < size)
    (hsize : size ≤ memSize) (hflag : dataReady io.flag = false) :
    ((∀ as s, (∀ y ∈ as, y.IsTransfer) → exec step (init size io file) as = some s →
      CanReach step LinkAct.GoesOn (Done file) s) ↔ file.length < size) ∧
    (size ≤ file.length → ∀ as s, (∀ y ∈ as, y.IsTransfer) →
      exec step (init size io file) as = some s → s.drv.delivered ++ s.drv.dev.unread = []) := by
  have hrefused : size ≤ file.length → ∀ as s, (∀ y ∈ as, y.IsTransfer) →
      exec step (init size io file) as = some s → s.drv.delivered ++ s.drv.dev.unread = [] := by
    intro hfile as s has hs
    have hinit : (init size io file).Refused size file :=
      ⟨transferInv_init hpos hflag, rfl, trivial⟩
    exact (exec_invariant (C := fun _ y _ => y.IsTransfer)
      (fun _ _ _ hI hy hstep => refused_step hI hsize hfile hy hstep) hinit
      (everyStep_of_forall _ has) hs).arrived
  refine ⟨⟨fun hcan => ?_, fun hfile as s has hs => ?_⟩, hrefused⟩
  · by_contra hlong
    obtain ⟨as, t, hgo, ht, hdone⟩ := hcan [] _ (by simp) rfl
    have htransfer : ∀ y ∈ as, y.IsTransfer := fun y hy => isTransfer_of_goesOn (hgo y hy)
    have hnone := hrefused (by omega) as t htransfer ht
    rw [hdone.arrived] at hnone
    simp [hnone] at hlong
    omega
  · have hrunning : s.Running size file := exec_invariant (C := fun _ y _ => y.IsTransfer)
      (fun _ _ _ hI hy hstep => running_step hI hy hstep)
      (running_init hpos hflag (by unfold memSize at hsize; omega)) (everyStep_of_forall _ has) hs
    exact hrunning.canReach_done hsize hfile

/-- The ring of the driver : a file of 511 bytes can arrive, one of 512 bytes cannot. -/
theorem transfer_completes_dummyIoBuffSize :
    CanReach step LinkAct.GoesOn (Done (List.replicate 511 0x41))
      (init dummyIoBuffSize zeroIo (List.replicate 511 0x41)) ∧
    ∀ as s, (∀ y ∈ as, y.IsTransfer) →
      exec step (init dummyIoBuffSize zeroIo (List.replicate 512 0x41)) as = some s →
      s.drv.delivered ++ s.drv.dev.unread = [] := by
  have hsize : dummyIoBuffSize ≤ memSize := by decide
  constructor
  · have hiff := (transfer_completes_iff dummyIoBuffSize zeroIo (List.replicate 511 0x41)
      (by decide) hsize dataReady_zero).1
    exact hiff.2 (by rw [List.length_replicate]; decide) [] _ (by simp) rfl
  · exact (transfer_completes_iff dummyIoBuffSize zeroIo (List.replicate 512 0x41)
      (by decide) hsize dataReady_zero).2 (by rw [List.length_replicate]; decide)

end Link

end ProCamp
