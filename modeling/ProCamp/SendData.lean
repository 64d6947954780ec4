import ProCamp.Driver

/-!
# Sending a file through the window

`HW12/send_data2.c` maps the window and the registers of the device and hands a file
over frame by frame : it waits until READY is clear, copies up to `MEM_SIZE` bytes into
the window, stores their number and sets READY. `plat_dummy_work` copies the frame and
clears READY. `Link` is one device with one sender process at a time; `LinkAct.start`
runs the program again after the last process has exited.

A file longer than an `unsigned int` can count is refused before the device is touched
(line 93).
-/

namespace ProCamp

open PlatDummyDevice Driver Machine

/-- The line the sender is about to run. -/
inductive SenderPc where
  /-- Line 93. -/
  | check
  /-- Line 119. -/
  | clear
  /-- Line 120. -/
  | loop
  /-- Line 121, and `count` of lines 124 and 125. -/
  | spin
  /-- Line 126, with `i` bytes copied, and the locals of lines 127 and 128. -/
  | copy (count i : ℕ)
  /-- Line 129. -/
  | size (count : ℕ)
  /-- Line 130. -/
  | ready
  | exited (ret : ℤ)
  deriving DecidableEq

/-- A process that runs `send_data2`. -/
structure SendData where
  pc : SenderPc
  /-- The file from `buf` on. -/
  buf : List UInt8
  /-- `len`, an `unsigned int`. -/
  len : ℕ
  /-- The chunk in the window, once it is copied. -/
  chunk : List UInt8

/-- The process once `fread` has returned : its result is cut to 32 bits. -/
def SendData.start (file : List UInt8) : SendData :=
  ⟨.check, file, file.length % 2 ^ 32, []⟩

/-- Lines 124 and 125. -/
def SendData.count (snd : SendData) : ℕ :=
  if snd.len > memSize then memSize else snd.len

/-- A device and a sender. -/
structure Link where
  drv : Driver
  snd : SendData
  /-- The frame last published with READY set. -/
  published : List UInt8

/-- One step of the device or the sender. -/
inductive LinkAct where
  /-- A step of the driver; stores come from the sender. -/
  | driver (y : Act)
  | send
  /-- The program is run again. -/
  | start (file : List UInt8)

namespace Link

/-- A device with READY clear, and a process about to send `file`. -/
def init (size : ℕ) (io : PlatIo) (file : List UInt8) : Link :=
  ⟨Driver.init size io, SendData.start file, []⟩

/-- `s` after a store of the sender, which goes on at `pc`. -/
def stored (s : Link) (st : IoStore) (pc : SenderPc) : Link :=
  { s with
    drv := { s.drv with io := s.drv.io.store st }
    snd := { s.snd with pc := pc } }

/-- `s` with the sender at `pc`. -/
def goto (s : Link) (pc : SenderPc) : Link :=
  { s with snd := { s.snd with pc := pc } }

/-- One step of the sender. -/
def sendStep (s : Link) : Option Link :=
  match s.snd.pc with
  | .check => some (s.goto (if s.snd.len ≠ s.snd.buf.length then .exited (-1) else .clear))
  | .clear => some (s.stored (.flag 0) .loop)
  | .loop => some (s.goto (if s.snd.len = 0 then .exited 0 else .spin))
  | .spin =>
    if dataReady s.drv.io.flag then some s
    else some (s.goto (.copy s.snd.count 0))
  | .copy count i =>
    if i < count then some (s.stored (.mem i (s.snd.buf.getD i 0)) (.copy count (i + 1)))
    else
      some { s with snd :=
        ⟨.size count, s.snd.buf.drop count, s.snd.len - count, s.snd.buf.take count⟩ }
  | .size count => some (s.stored (.size (UInt32.ofNat count)) .ready)
  | .ready => some { s.stored (.flag platIoDataReady) .loop with published := s.snd.chunk }
  | .exited _ => none

/-- One step of the device or the sender. -/
def step (s : Link) : LinkAct → Option Link
  | .driver (.store _) => none
  | .driver y => (s.drv.step y).map fun d => { s with drv := d }
  | .send => s.sendStep
  | .start file =>
    match s.snd.pc with
    | .exited _ => some { s with snd := SendData.start file }
    | _ => none

/-! ## What a step can do -/

/-- The steps of the sender. -/
inductive SendMove (s : Link) : Link → Prop
  | tooLong (hpc : s.snd.pc = .check) (hlen : s.snd.len ≠ s.snd.buf.length) :
      SendMove s (s.goto (.exited (-1)))
  | check (hpc : s.snd.pc = .check) (hlen : s.snd.len = s.snd.buf.length) :
      SendMove s (s.goto .clear)
  | clear (hpc : s.snd.pc = .clear) : SendMove s (s.stored (.flag 0) .loop)
  | finish (hpc : s.snd.pc = .loop) (hlen : s.snd.len = 0) : SendMove s (s.goto (.exited 0))
  | loop (hpc : s.snd.pc = .loop) (hlen : s.snd.len ≠ 0) : SendMove s (s.goto .spin)
  | spin (hpc : s.snd.pc = .spin) : SendMove s s
  | proceed (hpc : s.snd.pc = .spin) (hflag : dataReady s.drv.io.flag = false) :
      SendMove s (s.goto (.copy s.snd.count 0))
  | copy {count i : ℕ} (hpc : s.snd.pc = .copy count i) (hi : i < count) :
      SendMove s (s.stored (.mem i (s.snd.buf.getD i 0)) (.copy count (i + 1)))
  | copied {count i : ℕ} (hpc : s.snd.pc = .copy count i) (hi : count ≤ i) :
      SendMove s { s with snd :=
        ⟨.size count, s.snd.buf.drop count, s.snd.len - count, s.snd.buf.take count⟩ }
  | size {count : ℕ} (hpc : s.snd.pc = .size count) :
      SendMove s (s.stored (.size (UInt32.ofNat count)) .ready)
  | ready (hpc : s.snd.pc = .ready) :
      SendMove s { s.stored (.flag platIoDataReady) .loop with published := s.snd.chunk }

variable {s t : Link}

theorem sendStep_move (h : s.sendStep = some t) : SendMove s t := by
  unfold sendStep at h
  split at h
  case h_1 hpc =>
    cases h
    split_ifs with hlen
    · exact .tooLong hpc hlen
    · exact .check hpc (not_not.1 hlen)
  case h_2 hpc => cases h; exact .clear hpc
  case h_3 hpc =>
    cases h
    split_ifs with hlen
    · exact .finish hpc hlen
    · exact .loop hpc hlen
  case h_4 hpc =>
    split_ifs at h with hflag
    · cases h
      exact .spin hpc
    · cases h
      exact .proceed hpc (by simpa using hflag)
  case h_5 hpc =>
    split_ifs at h with hi
    · cases h
      exact .copy hpc hi
    · cases h
      exact .copied hpc (Nat.le_of_not_lt hi)
  case h_6 hpc => cases h; exact .size hpc
  case h_7 hpc => cases h; exact .ready hpc
  case h_8 => cases h

/-- A step of the link is one of the driver's own, the sender's, or a new process. -/
theorem step_cases {y : LinkAct} (h : s.step y = some t) :
    (∃ a, y = .driver a ∧ (∀ st, a ≠ .store st) ∧
      ∃ d, s.drv.step a = some d ∧ t = { s with drv := d }) ∨
    (y = .send ∧ SendMove s t) ∨
    ∃ file, y = .start file ∧ (∃ r, s.snd.pc = .exited r) ∧
      t = { s with snd := SendData.start file } := by
  cases y with
  | driver a =>
    cases a with
    | store st => simp [step] at h
    | _ =>
      obtain ⟨d, hd, rfl⟩ := Option.map_eq_some_iff.1 h
      exact Or.inl ⟨_, rfl, by simp, d, hd, rfl⟩
  | send => exact Or.inr (Or.inl ⟨rfl, sendStep_move h⟩)
  | start file =>
    simp only [step] at h
    split at h
    · rename_i r hpc
      cases h
      exact Or.inr (Or.inr ⟨file, rfl, ⟨r, hpc⟩, rfl⟩)
    · cases h

end Link

end ProCamp
