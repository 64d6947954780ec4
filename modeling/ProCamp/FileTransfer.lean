import ProCamp.DriverInvariant
import ProCamp.FrameOwnership

/-!
# Sending one file

One process sends a file while polls and reads run at any time. The file is cut into
`chunks` of at most `MEM_SIZE` bytes; `TransferInv.plan` says that the frames copied
whole, the frame published and not copied yet, and what the sender has still to publish
are these chunks in order. `TransferInv.conserved` says that what readers got followed
by what is unread is the frames copied whole followed by the part of a frame the copy
loop has stored. Together they give the file (`file_transfer`).

A chunk that never fits the ring stays pending : this is a statement about what has
arrived, not that everything arrives.
-/

namespace ProCamp

open PlatDummyDevice Driver Machine

/-- The frames a file is sent in. -/
def chunks : List UInt8 → List (List UInt8)
  | [] => []
  | b :: file => (b :: file).take memSize :: chunks ((b :: file).drop memSize)
termination_by file => file.length
decreasing_by
  rw [List.length_drop, List.length_cons, memSize]
  omega

theorem chunks_nil : chunks [] = [] := by
  rw [chunks]

theorem chunks_of_ne_nil {file : List UInt8} (h : file ≠ []) :
    chunks file = file.take memSize :: chunks (file.drop memSize) := by
  cases file with
  | nil => exact absurd rfl h
  | cons b file => rw [chunks]

theorem flatten_chunks (file : List UInt8) : (chunks file).flatten = file := by
  induction file using chunks.induct with
  | case1 => simp [chunks_nil]
  | case2 b file ih =>
    rw [chunks_of_ne_nil (by simp), List.flatten_cons, ih, List.take_append_drop]

/-- The poll has copied the whole frame and has not cleared READY yet. -/
def Work.copied : Work → Bool
  | .unlock _ | .wake _ | .clear _ => true
  | _ => false

/-- What the sender has not published yet. -/
def SendData.rest (snd : SendData) : List (List UInt8) :=
  match snd.pc with
  | .size _ | .ready => snd.chunk :: chunks snd.buf
  | _ => chunks snd.buf

/-- Steps of the sender, polls and reads : no second process and no write. -/
def LinkAct.IsTransfer : LinkAct → Prop
  | .start _ => False
  | .driver (.callWrite ..) => False
  | _ => True

namespace Driver

variable {size : ℕ} {s t : Driver} {i : ℕ} {x : Input}

/-- What readers got and what is unread is what the polls copied. -/
def Conserved (s : Driver) : Prop :=
  s.delivered ++ s.dev.unread = s.frames.flatten ++ s.frame

theorem ReaderMove.conserved (h : ReaderMove s i t) (hinv : s.Inv size) (hs : s.Conserved) :
    t.Conserved := by
  unfold Conserved at hs ⊢
  cases h with
  | advance hpc =>
    obtain ⟨hok, -, hle, hend⟩ := hinv.ok (a := .reader i) (by rw [view, hpc]; rfl)
    rw [unread_advanceRp (hend.trans hok.size_eq.ge) hle] at hs
    simpa using hs
  | wrap hpc => simpa [unread_wrapRp] using hs
  | _ => exact hs

theorem WorkMove.conserved (h : WorkMove s t) (hinv : s.Inv size) (hs : s.Conserved) :
    t.Conserved := by
  unfold Conserved at hs ⊢
  cases h with
  | @put status count i hpc hi =>
    obtain ⟨⟨hv, rfl⟩, -, -, hfit⟩ := hinv.ok (a := .work) (by rw [view, hpc]; rfl)
    rw [hv.unread_putByte (s.io.mem i) (by omega), ← List.append_assoc, hs, List.append_assoc]
  | copied hpc hi => simpa using hs
  | wrap hpc =>
    obtain ⟨hsize, hr, -⟩ := hinv.ok (a := .work) (by rw [view, hpc]; rfl)
    rwa [unread_wrapWpEq (hsize ▸ hr.le)]
  | _ => exact hs

/-- Without writers, every step conserves the bytes. -/
theorem conserved_step {y : Act} (hinv : s.Inv size) (hs : s.Conserved)
    (hwriters : ∀ i, s.writers i = .idle) (hstep : s.step y = some t)
    (hwrite : ∀ i buf, y ≠ .callWrite i buf) : t.Conserved ∧ ∀ i, t.writers i = .idle := by
  cases y with
  | callRead i count =>
    obtain ⟨-, rfl⟩ := callReadStep_eq hstep
    exact ⟨hs, hwriters⟩
  | callWrite i buf => exact absurd rfl (hwrite i buf)
  | reader i x =>
    have hmove := readerStep_move hstep
    exact ⟨hmove.conserved hinv hs, hmove.frame.2.1 ▸ hwriters⟩
  | writer i x =>
    have hmove := writerStep_move hstep
    cases hmove <;> simp_all
  | work x =>
    have hmove := workStep_move hstep
    exact ⟨hmove.conserved hinv hs, hmove.frame.1 ▸ hwriters⟩
  | store st =>
    obtain rfl : _ = t := by simpa [Driver.step] using hstep
    exact ⟨hs, hwriters⟩

end Driver

namespace Link

variable {s t : Link} {size : ℕ} {io : PlatIo} {file : List UInt8}

/-- The frame published and not copied yet. -/
def pending (s : Link) : List (List UInt8) :=
  if dataReady s.drv.io.flag && !s.drv.work.copied then [s.published] else []

/-- The invariant of one transfer of `file`. -/
structure TransferInv (size : ℕ) (file : List UInt8) (s : Link) : Prop where
  lock : s.drv.Inv size
  own : s.OwnInv
  fresh : s.Fresh
  writers : ∀ i, s.drv.writers i = .idle
  conserved : s.drv.Conserved
  plan : chunks file = s.drv.frames ++ s.pending ++ s.snd.rest

theorem transferInv_init (hsize : 0 < size) (hflag : dataReady io.flag = false) :
    (init size io file).TransferInv size file where
  lock := inv_init hsize io
  own := ownInv_init hflag
  fresh _ := hflag
  writers _ := rfl
  conserved := by simp [Conserved, init, Driver.init, unread_initDataBuffer]
  plan := by simp [init, Driver.init, pending, hflag, SendData.rest, SendData.start]

/-- A step of the poll moves the published frame to the copied ones when its loop ends,
and changes nothing else of the plan. -/
theorem plan_work {d : Driver} (h : s.OwnInv) (hmove : WorkMove s.drv d) :
    d.frames ++ pending { s with drv := d } = s.drv.frames ++ s.pending := by
  have hbusy := h.busy
  have hcopies := h.copies
  cases hmove with
  | @copied status count i hpc hi =>
    have hready := hbusy (by rw [hpc]; trivial)
    rw [hpc] at hcopies
    obtain ⟨hframe, hcount, -⟩ := hcopies
    rw [List.take_of_length_le (hcount ▸ hi)] at hframe
    simp [pending, hready, hpc, Work.copied, hframe]
  | clear hpc => simp [pending, hpc, Work.copied]
  | _ => simp_all [pending, Work.copied]

theorem plan_send (h : s.OwnInv) (hfresh : s.Fresh) (hmove : SendMove s t) :
    t.drv.frames ++ t.pending ++ t.snd.rest = s.drv.frames ++ s.pending ++ s.snd.rest := by
  have hprep := h.prepares
  cases hmove with
  | clear hpc =>
    simp [pending, stored, PlatIo.store, hfresh (Or.inr hpc), SendData.rest, hpc]
  | @copied count i hpc hi =>
    simp only [SendData.Prepares, hpc] at hprep
    obtain ⟨hlen, hne, hcount, -⟩ := hprep
    have hbuf : s.snd.buf ≠ [] := by
      rintro hnil
      simp [hnil] at hlen
      exact hne hlen
    have htake : s.snd.buf.take count = s.snd.buf.take memSize := by
      rw [hcount, SendData.count]
      split_ifs with hmax
      · rfl
      · rw [List.take_of_length_le hlen.ge, List.take_of_length_le (by omega)]
    have hdrop : s.snd.buf.drop count = s.snd.buf.drop memSize := by
      rw [hcount, SendData.count]
      split_ifs with hmax
      · rfl
      · rw [List.drop_of_length_le hlen.ge, List.drop_of_length_le (by omega)]
    have hrest : s.snd.rest = chunks s.snd.buf := by simp [SendData.rest, hpc]
    rw [hrest, chunks_of_ne_nil hbuf]
    simp [pending, SendData.rest, htake, hdrop]
  | ready hpc =>
    simp only [SendData.Prepares, hpc] at hprep
    have hidle : ¬s.drv.work.Busy := fun hb => by simpa [hprep.2.1] using h.busy hb
    have hcopied : s.drv.work.copied = false := by
      cases hwork : s.drv.work <;> simp_all [Work.copied, Work.Busy]
    have hready : dataReady (s.drv.io.store (.flag platIoDataReady)).flag = true :=
      dataReady_platIoDataReady
    simp [pending, stored, hprep.2.1, hready, hcopied, SendData.rest, hpc]
  | _ => simp_all [pending, goto, stored, PlatIo.store, SendData.rest]

theorem transferInv_step {y : LinkAct} (h : s.TransferInv size file) (hy : y.IsTransfer)
    (hstep : s.step y = some t) : t.TransferInv size file := by
  have hstart : ∀ file, y ≠ .start file := by
    rintro file rfl
    exact hy
  have hown := ownInv_step h.own (fun _ hpc => h.fresh (Or.inr hpc)) hstep
  have hfresh := fresh_step h.fresh hstart hstep
  obtain ⟨a, rfl, hstore, d, hd, rfl⟩ | ⟨rfl, hmove⟩ | ⟨file, rfl, -⟩ := step_cases hstep
  · obtain ⟨hcons, hwriters⟩ := conserved_step h.lock h.conserved h.writers hd (by
      rintro i buf rfl
      exact hy)
    refine ⟨inv_step h.lock hd, hown, hfresh, hwriters, hcons, h.plan.trans ?_⟩
    by_cases hwork : ∃ x, a = .work x
    · obtain ⟨x, rfl⟩ := hwork
      rw [← plan_work h.own (workStep_move hd)]
    · obtain ⟨hio, hw, -, hframes⟩ := frame_of_not_work hd (not_exists.1 hwork) hstore
      simp [pending, hio, hw, hframes]
  · have hplan := h.plan.trans (plan_send h.own h.fresh hmove).symm
    have hdrv : t.drv = { s.drv with io := t.drv.io } := by cases hmove <;> rfl
    have hlock : t.drv.Inv size := by
      rw [hdrv]
      exact h.lock
    have hcons : t.drv.Conserved := by
      rw [hdrv]
      exact h.conserved
    have hwriters : ∀ i, t.drv.writers i = .idle := by
      rw [hdrv]
      exact h.writers
    exact ⟨hlock, hown, hfresh, hwriters, hcons, hplan⟩
  · exact absurd rfl (hstart file)

/-- What the copy loop has stored is the front of the pending frame. -/
theorem frame_prefix_pending (h : s.OwnInv) : s.drv.frame <+: s.pending.flatten := by
  have hbusy := h.busy
  have hcopies := h.copies
  cases hwork : s.drv.work with
  | put status count i | wrap status count i =>
    rw [hwork] at hbusy hcopies
    simp [pending, hbusy trivial, hwork, Work.copied, hcopies.1, List.take_prefix]
  | _ => simp_all [Work.Copies]

/-- A part of a frame is in the ring only while the poll holds the mutex. -/
theorem rdMutex_of_frame (hlock : s.drv.Inv size) (h : s.OwnInv) (hframe : s.drv.frame ≠ []) :
    s.drv.rdMutex = some .work := by
  have hcopies := h.copies
  cases hwork : s.drv.work with
  | put status count i => exact hlock.owner_eq (a := .work) (by rw [view, hwork]; rfl)
  | wrap status count i => exact hlock.owner_eq (a := .work) (by rw [view, hwork]; rfl)
  | _ => simp_all [Work.Copies]

theorem frame_eq_nil_of_not_busy (h : s.OwnInv) (hidle : ¬s.drv.work.Busy) :
    s.drv.frame = [] := by
  have hcopies := h.copies
  cases hwork : s.drv.work <;> simp_all [Work.Copies, Work.Busy]

/-- In every state of a transfer the bytes that have arrived are the front of the file,
and all of it once the sender has left its loop, READY is clear and no poll is in
progress. The frames copied whole are the first chunks of the file, each once and in
order; a further part of a chunk is in the ring only inside the poll's critical
section. -/
theorem file_transfer (hsize : 0 < size) (hflag : dataReady io.flag = false)
    (file : List UInt8) {as : List LinkAct} (hact : ∀ y ∈ as, y.IsTransfer)
    (h : exec step (init size io file) as = some s) :
    s.drv.delivered ++ s.drv.dev.unread <+: file ∧
      (s.snd.pc = .exited 0 → dataReady s.drv.io.flag = false → ¬s.drv.work.Busy →
        s.drv.delivered ++ s.drv.dev.unread = file) ∧
      s.drv.frames <+: chunks file ∧
      s.drv.delivered ++ s.drv.dev.unread = s.drv.frames.flatten ++ s.drv.frame ∧
      (s.drv.frame ≠ [] → s.drv.rdMutex = some .work) := by
  have hinv : s.TransferInv size file :=
    exec_invariant (C := fun _ y _ => y.IsTransfer)
      (fun _ _ _ hI hy hstep => transferInv_step hI hy hstep) (transferInv_init hsize hflag)
      (everyStep_of_forall (init size io file) hact) h
  have hcons : s.drv.delivered ++ s.drv.dev.unread = s.drv.frames.flatten ++ s.drv.frame :=
    hinv.conserved
  have hfile : file = s.drv.frames.flatten ++ (s.pending.flatten ++ s.snd.rest.flatten) := by
    rw [← flatten_chunks file, hinv.plan]
    simp
  refine ⟨?_, fun hexit hclear hidle => ?_, ?_, hcons, rdMutex_of_frame hinv.lock hinv.own⟩
  · rw [hcons, hfile, List.prefix_append_right_inj]
    exact (frame_prefix_pending hinv.own).trans (List.prefix_append _ _)
  · have hprep := hinv.own.prepares
    simp only [SendData.Prepares, hexit] at hprep
    have hrest : s.snd.rest = [] := by simp [SendData.rest, hexit, hprep, chunks_nil]
    rw [hcons, hfile, frame_eq_nil_of_not_busy hinv.own hidle, hrest]
    simp [pending, hclear]
  · rw [hinv.plan, List.append_assoc]
    exact List.prefix_append _ _

/-- A file of two bytes sent, polled and read. -/
def transferRun : List LinkAct :=
  List.replicate 9 .send ++ List.replicate 13 (.driver (.work .go)) ++ [.send] ++
    (readRun 1).map .driver

/-- After it one byte is delivered and one unread. -/
theorem file_transfer_two_bytes :
    ∃ s, exec step (init dummyIoBuffSize zeroIo [5, 6]) transferRun = some s ∧
      s.drv.delivered ++ s.drv.dev.unread = [5, 6] := by
  have hend : (exec step (init dummyIoBuffSize zeroIo [5, 6]) transferRun).map
      (fun s => (s.snd.pc, s.drv.io.flag, s.drv.work)) =
      some (.exited 0, 0, .idle .copied) := by decide +kernel
  obtain ⟨s, hs, hpc⟩ := Option.map_eq_some_iff.1 hend
  simp only [Prod.mk.injEq] at hpc
  obtain ⟨hexit, hflag, hwork⟩ := hpc
  have hact : ∀ y ∈ transferRun, y.IsTransfer := by
    simp [transferRun, readRun, LinkAct.IsTransfer]
  refine ⟨s, hs, (file_transfer (show 0 < dummyIoBuffSize by decide) dataReady_zero
    [5, 6] hact hs).2.1 hexit ?_ ?_⟩
  · rw [hflag]
    rfl
  · rw [hwork]
    exact id

end Link

end ProCamp
