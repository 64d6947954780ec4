import ProCamp.SendData

/-!
# Who owns the window

The window and the registers belong to the sender while READY is clear and no poll has
sampled it set, and to the driver otherwise. `OwnInv` follows a frame from the sender's
buffer through the window and the copy loop into the ring : at each line of the sender
and of the poll it says which part of the frame is where.

The program's first store clears READY without asking who owns the window. A process
started while the last frame of the one before is pending takes it away
(`second_run_clears_ready`). Ownership holds in exactly the runs in which every process
finds READY clear at its first store (`frame_ownership_iff`).
-/

namespace ProCamp

open PlatDummyDevice Driver Machine

/-- The poll has sampled READY set and has not ended. -/
def Work.Busy : Work → Prop
  | .idle _ | .exit _ => False
  | _ => True

/-- The sender's next step stores to the window or a register. -/
def SendData.Writes (snd : SendData) : Prop :=
  match snd.pc with
  | .clear | .size _ | .ready => True
  | .copy count i => i < count
  | _ => False

/-- The window and the size register hold the frame `p`. -/
structure Published (io : PlatIo) (p : List UInt8) : Prop where
  length_le : p.length ≤ memSize
  size_eq : io.size = UInt32.ofNat p.length
  mem_eq : ∀ i < p.length, io.mem i = p.getD i 0

/-- How far the poll has copied the frame `p` : `frame` is what the running loop has
stored, `frames` what was copied whole. -/
def Work.Copies (p frame : List UInt8) (frames : List (List UInt8)) : Work → Prop
  | .idle _ | .exit _ | .lock _ | .size _ | .reject => frame = []
  | .space _ n => frame = [] ∧ n = p.length
  | .put _ count i => frame = p.take i ∧ count = p.length ∧ i ≤ count
  | .wrap _ count i => frame = p.take (i + 1) ∧ count = p.length ∧ i < count
  | .unlock _ | .wake _ | .clear _ => frame = [] ∧ frames.getLast? = some p

/-- How far the sender has prepared its next frame. -/
def SendData.Prepares (io : PlatIo) (snd : SendData) : Prop :=
  match snd.pc with
  | .check => snd.len = snd.buf.length % 2 ^ 32
  | .clear | .loop => snd.len = snd.buf.length
  | .spin => snd.len = snd.buf.length ∧ snd.len ≠ 0
  | .copy count i => snd.len = snd.buf.length ∧ snd.len ≠ 0 ∧ count = snd.count ∧ i ≤ count ∧
      dataReady io.flag = false ∧ ∀ j < i, io.mem j = snd.buf.getD j 0
  | .size count => snd.len = snd.buf.length ∧ snd.chunk.length = count ∧ count ≤ memSize ∧
      dataReady io.flag = false ∧ ∀ j < count, io.mem j = snd.chunk.getD j 0
  | .ready => snd.len = snd.buf.length ∧ dataReady io.flag = false ∧ Published io snd.chunk
  | .exited r => r = 0 → snd.buf = []

/-- The size the poll reads off a published frame is its length. -/
theorem Published.clampSize_eq {io : PlatIo} {p : List UInt8} (h : Published io p) :
    clampSize io.size.toNat = p.length := by
  have hle := h.length_le
  have htoNat : io.size.toNat = p.length := by
    rw [h.size_eq]
    exact UInt32.toNat_ofNat_of_lt' (Nat.lt_of_le_of_lt hle (by decide))
  rw [clampSize, htoNat, if_neg (by omega)]

theorem Published.withFlag {io : PlatIo} {p : List UInt8} (h : Published io p) (flag : UInt32) :
    Published { io with flag := flag } p :=
  ⟨h.length_le, h.size_eq, h.mem_eq⟩

/-- The sender's part of the protocol does not mind READY being cleared. -/
theorem SendData.Prepares.clearReady {io : PlatIo} {snd : SendData} (h : snd.Prepares io)
    (status : UInt32) : snd.Prepares { io with flag := clearReady status } := by
  cases hpc : snd.pc with
  | copy count i =>
    simp only [SendData.Prepares, hpc] at h ⊢
    exact ⟨h.1, h.2.1, h.2.2.1, h.2.2.2.1, dataReady_clearReady _, h.2.2.2.2.2⟩
  | size count =>
    simp only [SendData.Prepares, hpc] at h ⊢
    exact ⟨h.1, h.2.1, h.2.2.1, dataReady_clearReady _, h.2.2.2.2⟩
  | ready =>
    simp only [SendData.Prepares, hpc] at h ⊢
    exact ⟨h.1, dataReady_clearReady _, h.2.2.withFlag _⟩
  | _ => simpa only [SendData.Prepares, hpc] using h

namespace Link

/-- The frame protocol between sender and driver. -/
structure OwnInv (s : Link) : Prop where
  busy : s.drv.work.Busy → dataReady s.drv.io.flag = true
  published : dataReady s.drv.io.flag = true → Published s.drv.io s.published
  copies : s.drv.work.Copies s.published s.drv.frame s.drv.frames
  prepares : s.snd.Prepares s.drv.io

/-- A process clears READY at its start only where it is clear. -/
def StartsClear (s : Link) (y : LinkAct) : Prop :=
  y = .send → s.snd.pc = .clear → dataReady s.drv.io.flag = false

/-- The sender stores to the window and the registers only while it owns them. -/
def OwnedStore (s : Link) (y : LinkAct) : Prop :=
  y = .send → s.snd.Writes → dataReady s.drv.io.flag = false ∧ ¬s.drv.work.Busy

/-- A step that ends the publication of a frame is the last of a poll that has copied
the whole frame into the ring. -/
def ClearedByPoll (s : Link) (y : LinkAct) (t : Link) : Prop :=
  dataReady s.drv.io.flag = true → dataReady t.drv.io.flag = false →
    (∃ x, y = .driver (.work x)) ∧ (∃ status, s.drv.work = .clear status) ∧
      s.drv.frames.getLast? = some s.published

variable {s t : Link} {size : ℕ} {io : PlatIo} {file : List UInt8}

theorem ownInv_init (hflag : dataReady io.flag = false) : (init size io file).OwnInv where
  busy h := h.elim
  published h := by simp [init, Driver.init, hflag] at h
  copies := rfl
  prepares := rfl

theorem count_le (snd : SendData) : snd.count ≤ memSize ∧ snd.count ≤ snd.len := by
  unfold SendData.count
  split_ifs <;> omega


/-! ## Steps of the driver -/

theorem ownInv_work {d : Driver} (h : s.OwnInv) (hmove : WorkMove s.drv d) :
    ({ s with drv := d } : Link).OwnInv := by
  have hcopies := h.copies
  cases hmove with
  | noData hpc _ | interrupted hpc | reject hpc | exit hpc =>
    rw [hpc] at hcopies
    exact ⟨fun hb => hb.elim, h.published, hcopies, h.prepares⟩
  | sample hpc hflag =>
    rw [hpc] at hcopies
    exact ⟨fun _ => hflag, h.published, hcopies, h.prepares⟩
  | acquire hpc _ | wrap hpc | release hpc | wake hpc =>
    have hready := h.busy (by rw [hpc]; trivial)
    rw [hpc] at hcopies
    exact ⟨fun _ => hready, h.published, hcopies, h.prepares⟩
  | size hpc =>
    have hready := h.busy (by rw [hpc]; trivial)
    rw [hpc] at hcopies
    exact ⟨fun _ => hready, h.published, ⟨hcopies, (h.published hready).clampSize_eq⟩, h.prepares⟩
  | fits hpc hfits =>
    have hready := h.busy (by rw [hpc]; trivial)
    rw [hpc] at hcopies
    exact ⟨fun _ => hready, h.published, ⟨by simpa using hcopies.1, hcopies.2, Nat.zero_le _⟩,
      h.prepares⟩
  | noSpace hpc hfits =>
    have hready := h.busy (by rw [hpc]; trivial)
    rw [hpc] at hcopies
    exact ⟨fun _ => hready, h.published, hcopies.1, h.prepares⟩
  | @put status count i hpc hi =>
    have hready := h.busy (by rw [hpc]; trivial)
    rw [hpc] at hcopies
    obtain ⟨hframe, hcount, -⟩ := hcopies
    refine ⟨fun _ => hready, h.published, ⟨?_, hcount, hi⟩, h.prepares⟩
    have hi' : i < s.published.length := hcount ▸ hi
    simp only
    rw [hframe, (h.published hready).mem_eq i hi', List.getD_eq_getElem _ _ hi',
      List.take_succ_eq_append_getElem hi']
  | @copied status count i hpc hi =>
    have hready := h.busy (by rw [hpc]; trivial)
    rw [hpc] at hcopies
    obtain ⟨hframe, hcount, -⟩ := hcopies
    refine ⟨fun _ => hready, h.published, ⟨rfl, ?_⟩, h.prepares⟩
    simp [hframe, List.take_of_length_le (hcount ▸ hi)]
  | clear hpc =>
    rw [hpc] at hcopies
    refine ⟨fun hb => hb.elim, fun hready => ?_, hcopies.1, h.prepares.clearReady _⟩
    simp at hready

theorem ownInv_driver {d : Driver} {y : Act} (h : s.OwnInv) (hstep : s.drv.step y = some d)
    (hstore : ∀ st, y ≠ .store st) : ({ s with drv := d } : Link).OwnInv := by
  by_cases hwork : ∃ x, y = .work x
  · obtain ⟨x, rfl⟩ := hwork
    exact ownInv_work h (workStep_move hstep)
  · obtain ⟨hio, hw, hframe, hframes⟩ := frame_of_not_work hstep (not_exists.1 hwork) hstore
    exact ⟨by simpa [hio, hw] using h.busy, by simpa [hio] using h.published,
      by simpa [hw, hframe, hframes] using h.copies, by simpa [hio] using h.prepares⟩

/-! ## Steps of the sender -/

theorem ownInv_send (h : s.OwnInv) (hmove : SendMove s t)
    (hclear : s.snd.pc = .clear → dataReady s.drv.io.flag = false) : t.OwnInv := by
  have hprep := h.prepares
  cases hmove with
  | tooLong hpc hlen => exact ⟨h.busy, h.published, h.copies, fun hr => by simp at hr⟩
  | check hpc hlen => exact ⟨h.busy, h.published, h.copies, hlen⟩
  | clear hpc =>
    simp only [SendData.Prepares, hpc] at hprep
    refine ⟨fun hb => ?_, fun hready => ?_, h.copies, hprep⟩
    · simpa [hclear hpc] using h.busy hb
    · simp [stored, PlatIo.store] at hready
  | finish hpc hlen =>
    simp only [SendData.Prepares, hpc] at hprep
    refine ⟨h.busy, h.published, h.copies, fun _ => ?_⟩
    exact List.length_eq_zero_iff.1 (hprep.symm.trans hlen)
  | loop hpc hlen =>
    simp only [SendData.Prepares, hpc] at hprep
    exact ⟨h.busy, h.published, h.copies, hprep, hlen⟩
  | spin hpc => exact h
  | proceed hpc hflag =>
    simp only [SendData.Prepares, hpc] at hprep
    exact ⟨h.busy, h.published, h.copies, hprep.1, hprep.2, rfl, Nat.zero_le _, hflag, by simp⟩
  | @copy count i hpc hi =>
    simp only [SendData.Prepares, hpc] at hprep
    obtain ⟨hlen, hne, hcount, hle, hflag, hmem⟩ := hprep
    refine ⟨h.busy, fun hready => ?_, h.copies, hlen, hne, hcount, hi, hflag, fun j hj => ?_⟩
    · simp [stored, PlatIo.store, hflag] at hready
    · simp only [stored, PlatIo.store]
      by_cases hji : j = i
      · rw [hji, Function.update_self]
      · rw [Function.update_of_ne hji, hmem j (by omega)]
  | @copied count i hpc hi =>
    simp only [SendData.Prepares, hpc] at hprep
    obtain ⟨hlen, -, hcount, hle, hflag, hmem⟩ := hprep
    obtain ⟨hmax, hle'⟩ := count_le s.snd
    have hlength : (s.snd.buf.take count).length = count := by
      rw [List.length_take]
      omega
    refine ⟨h.busy, h.published, h.copies, by simp [hlen], hlength, by omega, hflag,
      fun j hj => ?_⟩
    simp only
    rw [hmem j (by omega), List.getD_eq_getElem _ _ (by omega),
      List.getD_eq_getElem _ _ (by omega), List.getElem_take]
  | @size count hpc =>
    simp only [SendData.Prepares, hpc] at hprep
    obtain ⟨hlen, hcount, hmax, hflag, hmem⟩ := hprep
    refine ⟨h.busy, fun hready => ?_, h.copies, hlen, hflag, ?_⟩
    · simp [stored, PlatIo.store, hflag] at hready
    · exact ⟨by simpa [stored, hcount] using hmax, by simp [stored, PlatIo.store, hcount],
        by simpa [stored, PlatIo.store, hcount] using hmem⟩
  | ready hpc =>
    simp only [SendData.Prepares, hpc] at hprep
    obtain ⟨hlen, hflag, hpub⟩ := hprep
    refine ⟨fun _ => dataReady_platIoDataReady, fun _ => hpub.withFlag _, ?_, hlen⟩
    have hidle : ¬s.drv.work.Busy := fun hb => by simpa [hflag] using h.busy hb
    have hcopies := h.copies
    cases hwork : s.drv.work with
    | idle last => simpa [stored, hwork, Work.Copies] using hcopies
    | exit last => simpa [stored, hwork, Work.Copies] using hcopies
    | _ => exact absurd (by rw [hwork]; trivial) hidle

/-! ## Ownership along a run -/

theorem ownInv_step {y : LinkAct} (h : s.OwnInv) (hclear : s.StartsClear y)
    (hstep : s.step y = some t) : t.OwnInv := by
  obtain ⟨a, rfl, hstore, d, hd, rfl⟩ | ⟨rfl, hmove⟩ | ⟨file, rfl, hexit, rfl⟩ := step_cases hstep
  · exact ownInv_driver h hd hstore
  · exact ownInv_send h hmove (hclear rfl)
  · exact ⟨h.busy, h.published, h.copies, rfl⟩

theorem ownedStore_of_ownInv {y : LinkAct} (h : s.OwnInv) (hclear : s.StartsClear y) :
    s.OwnedStore y := by
  intro hy hwrites
  have hprep := h.prepares
  have hflag : dataReady s.drv.io.flag = false := by
    cases hpc : s.snd.pc with
    | clear => exact hclear hy hpc
    | copy count i => simp_all [SendData.Prepares]
    | size count => simp_all [SendData.Prepares]
    | ready => simp_all [SendData.Prepares]
    | _ => simp [SendData.Writes, hpc] at hwrites
  exact ⟨hflag, fun hb => by simpa [hflag] using h.busy hb⟩

/-- A step of the sender ends no publication, if it starts where READY is clear. -/
theorem SendMove.flag (hmove : SendMove s t)
    (hclear : s.snd.pc = .clear → dataReady s.drv.io.flag = false)
    (hs : dataReady s.drv.io.flag = true) : dataReady t.drv.io.flag = true := by
  cases hmove with
  | clear hpc => simp [hclear hpc] at hs
  | ready hpc => exact dataReady_platIoDataReady
  | _ => exact hs

theorem clearedByPoll_of_ownInv {y : LinkAct} (h : s.OwnInv) (hclear : s.StartsClear y)
    (hstep : s.step y = some t) : s.ClearedByPoll y t := by
  intro hs ht
  obtain ⟨a, rfl, hstore, d, hd, rfl⟩ | ⟨rfl, hmove⟩ | ⟨file, rfl, hexit, rfl⟩ := step_cases hstep
  · by_cases hwork : ∃ x, a = .work x
    · obtain ⟨x, rfl⟩ := hwork
      have hcopies := h.copies
      cases hmove : workStep_move hd with
      | clear hpc =>
        rw [hpc] at hcopies
        exact ⟨⟨x, rfl⟩, ⟨_, hpc⟩, hcopies.2⟩
      | _ => simp_all
    · have hio := (frame_of_not_work hd (not_exists.1 hwork) hstore).1
      simp [hio, hs] at ht
  · simp [hmove.flag (hclear rfl) hs] at ht
  · simp [hs] at ht

/-- The sender touches the window and the registers only while it owns them, and a
published frame stays published until a poll has copied it whole, in exactly the runs
in which every process finds READY clear at its first store. -/
theorem frame_ownership_iff (size : ℕ) {io : PlatIo} (hflag : dataReady io.flag = false)
    (file : List UInt8) (as : List LinkAct) :
    EveryStep step (fun s y t => s.OwnedStore y ∧ s.ClearedByPoll y t) (init size io file) as ↔
      EveryStep step (fun s y _ => s.StartsClear y) (init size io file) as := by
  constructor
  · refine EveryStep.mono ?_
    rintro s y t ⟨howned, -⟩ hy hpc
    exact (howned hy (by simp [SendData.Writes, hpc])).1
  · refine everyStep_of_invariant (I := OwnInv) (fun s y t hI hclear hstep => ?_)
      (ownInv_init hflag)
    exact ⟨ownInv_step hI hclear hstep, ownedStore_of_ownInv hI hclear,
      clearedByPoll_of_ownInv hI hclear hstep⟩

/-! ## One run and two -/

/-- Up to its first store, a process finds READY as it was at the start. -/
def Fresh (s : Link) : Prop :=
  s.snd.pc = .check ∨ s.snd.pc = .clear → dataReady s.drv.io.flag = false

/-- The driver never sets READY. -/
theorem flag_driver {d : Driver} {y : Act} (hstep : s.drv.step y = some d)
    (hstore : ∀ st, y ≠ .store st) (hflag : dataReady s.drv.io.flag = false) :
    dataReady d.io.flag = false := by
  by_cases hwork : ∃ x, y = .work x
  · obtain ⟨x, rfl⟩ := hwork
    cases workStep_move hstep with
    | clear hpc => exact dataReady_clearReady _
    | _ => exact hflag
  · rw [(frame_of_not_work hstep (not_exists.1 hwork) hstore).1, hflag]

theorem fresh_step {y : LinkAct} (h : s.Fresh) (hstart : ∀ file, y ≠ .start file)
    (hstep : s.step y = some t) : t.Fresh := by
  obtain ⟨a, rfl, hstore, d, hd, rfl⟩ | ⟨rfl, hmove⟩ | ⟨file, rfl, -⟩ := step_cases hstep
  · exact fun hpc => flag_driver hd hstore (h hpc)
  · cases hmove with
    | check hpc => exact fun _ => h (Or.inl hpc)
    | spin hpc => exact h
    | _ => simp [Fresh, goto, stored]
  · exact absurd rfl (hstart file)

/-- The process a device starts with finds READY clear. -/
theorem startsClear_of_no_start (hflag : dataReady io.flag = false) {as : List LinkAct}
    (hstart : ∀ y ∈ as, ∀ file, y ≠ .start file) :
    EveryStep step (fun s y _ => s.StartsClear y) (init size io file) as := by
  refine everyStep_of_invariant (I := Fresh) (fun s y t hI hy hstep => ?_) (fun _ => hflag)
    (everyStep_of_forall (init size io file) hstart)
  exact ⟨fresh_step hI hy hstep, fun _ hpc => hI (Or.inr hpc)⟩

/-- A file of one byte, sent by one process. -/
def sendRun : List LinkAct :=
  List.replicate 9 .send

/-- Ownership while one process sends one byte. -/
theorem frame_ownership_sendRun :
    EveryStep step (fun s y t => s.OwnedStore y ∧ s.ClearedByPoll y t)
      (init dummyIoBuffSize zeroIo [5]) sendRun :=
  (frame_ownership_iff dummyIoBuffSize dataReady_zero [5] sendRun).2
    (startsClear_of_no_start dataReady_zero (by simp [sendRun]))

/-- The process exits with its frame pending; the next one clears READY, and no poll has
copied the frame. -/
theorem second_run_clears_ready :
    ¬EveryStep step (fun s y t => s.OwnedStore y ∧ s.ClearedByPoll y t)
      (init dummyIoBuffSize zeroIo [5]) (sendRun ++ [.start [6], .send, .send]) := by
  intro h
  have hpending : (exec step (init dummyIoBuffSize zeroIo [5]) (sendRun ++ [.start [6], .send])).map
      (fun s => (s.snd.pc, dataReady s.drv.io.flag)) = some (.clear, true) := by decide +kernel
  obtain ⟨s, hs, hpc⟩ := Option.map_eq_some_iff.1 hpending
  simp only [Prod.mk.injEq] at hpc
  have hstep : s.step .send = some (s.stored (.flag 0) .loop) := by
    simp [step, sendStep, hpc.1]
  obtain ⟨howned, -⟩ := everyStep_iff.1 h (sendRun ++ [.start [6], .send]) .send [] s _
    (by simp) hs hstep
  have := (howned rfl (by simp [SendData.Writes, hpc.1])).1
  simp [hpc.2] at this

end Link

end ProCamp
