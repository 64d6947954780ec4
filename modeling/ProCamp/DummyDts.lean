import Mathlib.Data.Fintype.Basic
import Mathlib.Tactic.IntervalCases
import ProCamp.Machine
import ProCamp.PlatDummy

/-!
# Both directions through one window

`HW11/platform_test_dts.c` reads frames that `HW11/send_data.c` stores in the window of the
device, and stores `jiffies` for `HW11/read_data.c` in the same window : the first four
bytes of a frame and the outgoing word share offsets 0 to 3, and READY covers the frames
only.

Any number of processes run `send_data` and `read_data`, again and again. A byte is at
stake from when a process stores it until the poll has read it (`AtStake`), and is stale
from when a process stores it over a word until the next word (`stale`).
`directions_apart` : if no run of `plat_dummy_work_write` changes a byte at stake, and no
load meets a stale one, every byte a poll reads is the frame's and every load the last
word stored; from every other step some run is not so (`misses_of_not_apart`).
-/

set_option linter.unusedSectionVars false

namespace ProCamp

open Machine

/-- Byte `j` of a word in memory, the low byte first. -/
def wordByte (v : UInt32) (j : ℕ) : UInt8 :=
  UInt8.ofNat (v.toNat / 256 ^ j)

/-- The word in the first four bytes. -/
def loadWord (mem : ℕ → UInt8) : UInt32 :=
  UInt32.ofNat ((mem 0).toNat + 256 * ((mem 1).toNat + 256 * ((mem 2).toNat +
    256 * (mem 3).toNat)))

/-- `iowrite32` to the first four bytes. -/
def storeWord (mem : ℕ → UInt8) (v : UInt32) (j : ℕ) : UInt8 :=
  if j < 4 then wordByte v j else mem j

theorem loadWord_eq_iff {mem : ℕ → UInt8} {v : UInt32} :
    loadWord mem = v ↔ ∀ j < 4, mem j = wordByte v j := by
  have h0 := (mem 0).toNat_lt
  have h1 := (mem 1).toNat_lt
  have h2 := (mem 2).toNat_lt
  have h3 := (mem 3).toNat_lt
  have hv := v.toNat_lt
  have hbyte : ∀ j, mem j = wordByte v j ↔ (mem j).toNat = v.toNat / 256 ^ j % 256 := by
    intro j
    rw [← UInt8.toNat_inj, wordByte, UInt8.toNat_ofNat']
  have hlt : (mem 0).toNat + 256 * ((mem 1).toNat + 256 * ((mem 2).toNat +
      256 * (mem 3).toNat)) < 2 ^ 32 := by omega
  rw [← UInt32.toNat_inj, loadWord, UInt32.toNat_ofNat_of_lt' hlt]
  constructor
  · intro h j hj
    rw [hbyte]
    interval_cases j <;> omega
  · intro h
    have e0 := (hbyte 0).1 (h 0 (by omega))
    have e1 := (hbyte 1).1 (h 1 (by omega))
    have e2 := (hbyte 2).1 (h 2 (by omega))
    have e3 := (hbyte 3).1 (h 3 (by omega))
    omega

/-- The line `send_data` is about to run. -/
inductive SendDataPc where
  /-- Line 50, with `i` bytes stored. -/
  | put (i : ℕ)
  /-- Line 52. -/
  | size
  /-- Line 53. -/
  | ready
  | exited
  deriving DecidableEq

/-- The line `plat_dummy_work_read` is about to run. -/
inductive WorkReadPc where
  /-- Line 72, when its timer has run out. -/
  | idle
  /-- Lines 75 to 79. -/
  | size (status : UInt32)
  /-- Lines 81 and 82. -/
  | read (status : UInt32) (size i : ℕ)
  /-- Lines 87 and 88. -/
  | clear (status : UInt32)
  deriving DecidableEq

/-- The device, the poll and the processes `K` that send. -/
structure DummyDts (K : Type*) where
  io : PlatIo
  work : WorkReadPc
  send : K → SendDataPc
  /-- `send_data` has set READY, and no poll has cleared it. -/
  published : Bool
  /-- What `published` was when the poll sampled the flag register. -/
  polled : Bool
  /-- The last word `plat_dummy_work_write` has stored. -/
  word : Option UInt32
  /-- The offsets at which `send_data` has stored since. -/
  stale : ℕ → Bool

/-- One step of a process, of a work or of `read_data`. -/
inductive DtsAct (K : Type*) where
  /-- Process `k` runs `send_data`. -/
  | start (k : K)
  /-- The next store of process `k`. -/
  | send (k : K)
  /-- The next step of `plat_dummy_work_read`. -/
  | read
  /-- `plat_dummy_work_write`, at the time `jiffies`. -/
  | write (jiffies : UInt32)
  /-- The load of `read_data`. -/
  | load

/-- `0x41 + i`. -/
def frameByte (i : ℕ) : UInt8 :=
  UInt8.ofNat (0x41 + i)

namespace DummyDts

variable {K : Type*}

/-- A device that nothing has used yet. -/
def init (io : PlatIo) : DummyDts K where
  io := io
  work := .idle
  send _ := .exited
  published := false
  polled := false
  word := none
  stale _ := false

/-- One step of `plat_dummy_work_read`. -/
def readStep (s : DummyDts K) : DummyDts K :=
  match s.work with
  | .idle =>
    if dataReady s.io.flag then
      { s with work := .size s.io.flag, polled := s.published }
    else s
  | .size status =>
    { s with work := .read status (PlatDummyDevice.clampSize s.io.size.toNat) 0 }
  | .read status size i =>
    if i < size then { s with work := .read status size (i + 1) }
    else { s with work := .clear status }
  | .clear status =>
    { s with
      work := .idle
      io := { s.io with flag := clearReady status }
      published := false }

variable [DecidableEq K]

/-- Process `k` at `pc`. -/
def gotoSend (s : DummyDts K) (k : K) (pc : SendDataPc) : DummyDts K :=
  { s with send := Function.update s.send k pc }

/-- One store of `send_data`. -/
def sendStep (s : DummyDts K) (k : K) : Option (DummyDts K) :=
  match s.send k with
  | .put i =>
    if i < 50 then
      some { s.gotoSend k (.put (i + 1)) with
        io := { s.io with mem := Function.update s.io.mem i (frameByte i) }
        stale := Function.update s.stale i true }
    else some (s.gotoSend k .size)
  | .size => some { s.gotoSend k .ready with io := { s.io with size := 50 } }
  | .ready =>
    some { s.gotoSend k .exited with
      io := { s.io with flag := platIoDataReady }
      published := true }
  | .exited => none

/-- One step. -/
def step (s : DummyDts K) : DtsAct K → Option (DummyDts K)
  | .start k => if s.send k = .exited then some (s.gotoSend k (.put 0)) else none
  | .send k => s.sendStep k
  | .read => some s.readStep
  | .write jiffies =>
    some { s with
      io := { s.io with mem := storeWord s.io.mem jiffies }
      word := some jiffies
      stale := fun _ => false }
  | .load => some s

/-! ## What is at stake -/

end DummyDts

/-- The process has stored byte `j` of a frame it has yet to publish. -/
def SendDataPc.Stored (j : ℕ) : SendDataPc → Prop
  | .put i => j < i
  | .size | .ready => True
  | .exited => False

/-- The poll has byte `j` still to read. -/
def WorkReadPc.ToRead (j : ℕ) : WorkReadPc → Prop
  | .size _ => True
  | .read _ _ i => i ≤ j
  | .idle | .clear _ => False

instance (j : ℕ) : DecidablePred (SendDataPc.Stored j)
  | .put i => inferInstanceAs (Decidable (j < i))
  | .size | .ready => isTrue trivial
  | .exited => isFalse id

instance (j : ℕ) : DecidablePred (WorkReadPc.ToRead j)
  | .size _ => isTrue trivial
  | .read _ _ i => inferInstanceAs (Decidable (i ≤ j))
  | .idle | .clear _ => isFalse id

namespace DummyDts

section Definitions

variable {K : Type*}

/-- Byte `j` of a frame is in the window, and a poll can still read it. -/
def AtStake (s : DummyDts K) (j : ℕ) : Prop :=
  (∃ k, (s.send k).Stored j) ∨ (s.published = true ∧ s.work = .idle) ∨
    (s.polled = true ∧ s.work.ToRead j)

instance [Fintype K] (s : DummyDts K) : DecidablePred s.AtStake :=
  fun _ => inferInstanceAs (Decidable (_ ∨ _ ∨ _))

/-- A byte that a poll reads of a published frame is the frame's, and a load finds the
last word stored. -/
def Sound (s : DummyDts K) : DtsAct K → DummyDts K → Prop
  | .read, _ => s.polled = true → ∀ status size i, s.work = .read status size i → i < size →
      i < 50 ∧ s.io.mem i = frameByte i
  | .load, _ => ∀ v ∈ s.word, loadWord s.io.mem = v
  | _, _ => True

/-- A word leaves the bytes at stake as they are, and a load finds no stale byte but one
that is the same. -/
def Apart (s : DummyDts K) : DtsAct K → DummyDts K → Prop
  | .write v, _ => ∀ j < 4, s.AtStake j → wordByte v j = frameByte j
  | .load, _ => ∀ v ∈ s.word, ∀ j < 4, s.stale j = true → frameByte j = wordByte v j
  | _, _ => True

instance decidableApart [Fintype K] (s : DummyDts K) (a : DtsAct K) (t : DummyDts K) :
    Decidable (s.Apart a t) :=
  match a with
  | .write v => inferInstanceAs (Decidable (∀ j < 4, s.AtStake j → wordByte v j = frameByte j))
  | .load => Option.decidableForallMem s.word
  | .start _ | .send _ | .read => isTrue trivial

/-- The bytes at stake are the frame's. -/
structure FrameInv (s : DummyDts K) : Prop where
  stake : ∀ j < 50, s.AtStake j → s.io.mem j = frameByte j
  size_ready : ∀ k, s.send k = .ready → s.io.size = 50
  size_published : s.published = true → s.io.size = 50
  size_polled : s.polled = true → ∀ status, s.work = .size status → s.io.size = 50
  read_polled : s.polled = true → ∀ status size i, s.work = .read status size i → size = 50

/-- The bytes of the last word, but for the stale ones. -/
def WordInv (s : DummyDts K) : Prop :=
  ∀ v ∈ s.word, ∀ j < 4,
    s.io.mem j = if s.stale j = true then frameByte j else wordByte v j

end Definitions

variable {K : Type*} [DecidableEq K] {s t : DummyDts K} {a : DtsAct K} {as : List (DtsAct K)}
  {io : PlatIo}

theorem frameInv_init : (init io : DummyDts K).FrameInv where
  stake j _ h := by
    rcases h with ⟨k, hk⟩ | ⟨hp, -⟩ | ⟨hp, -⟩
    · exact hk.elim
    · cases hp
    · cases hp
  size_ready k h := nomatch h
  size_published h := nomatch h
  size_polled h := nomatch h
  read_polled h := nomatch h

theorem wordInv_init : (init io : DummyDts K).WordInv :=
  fun _ h => nomatch h

/-- A process at a new line. -/
theorem AtStake.of_gotoSend {k : K} {j : ℕ} {pc : SendDataPc} (h : (s.gotoSend k pc).AtStake j) :
    pc.Stored j ∨ s.AtStake j := by
  rcases h with ⟨l, hl⟩ | h | h
  · by_cases heq : l = k
    · left
      simpa [gotoSend, heq] using hl
    · exact Or.inr (Or.inl ⟨l, by simpa [gotoSend, heq] using hl⟩)
  · exact Or.inr (Or.inr (Or.inl h))
  · exact Or.inr (Or.inr (Or.inr h))

theorem FrameInv.gotoSend (h : s.FrameInv) {k : K} {pc : SendDataPc}
    (hstored : ∀ j < 50, pc.Stored j → (s.send k).Stored j)
    (hready : pc = .ready → s.io.size = 50) : (s.gotoSend k pc).FrameInv where
  stake j hj hstake := by
    rcases hstake.of_gotoSend with hnew | hold
    · exact h.stake j hj (Or.inl ⟨k, hstored j hj hnew⟩)
    · exact h.stake j hj hold
  size_ready l hl := by
    by_cases heq : l = k
    · exact hready (by simpa [DummyDts.gotoSend, heq] using hl)
    · exact h.size_ready l (by simpa [DummyDts.gotoSend, heq] using hl)
  size_published := h.size_published
  size_polled := h.size_polled
  read_polled := h.read_polled

/-- Storing byte `i` of a frame puts it at stake. -/
theorem FrameInv.put (h : s.FrameInv) {k : K} {i : ℕ} (hpc : s.send k = .put i)
    (stale : ℕ → Bool) :
    FrameInv { s.gotoSend k (.put (i + 1)) with
      io := { s.io with mem := Function.update s.io.mem i (frameByte i) }
      stale } where
  stake j hj hstake := by
    by_cases heq : j = i
    · simp [heq]
    · have hold : s.AtStake j := by
        rcases AtStake.of_gotoSend hstake with hnew | hold
        · refine Or.inl ⟨k, ?_⟩
          have hle : j < i + 1 := hnew
          simp only [hpc, SendDataPc.Stored]
          omega
        · exact hold
      simpa [heq] using h.stake j hj hold
  size_ready l hl := by
    by_cases heq : l = k
    · simp [DummyDts.gotoSend, heq] at hl
    · exact h.size_ready l (by simpa [DummyDts.gotoSend, heq] using hl)
  size_published := h.size_published
  size_polled := h.size_polled
  read_polled := h.read_polled

/-- A frame is published once it and its size are stored. -/
theorem FrameInv.publish (h : s.FrameInv) {k : K} (hpc : s.send k = .ready) (flag : UInt32) :
    FrameInv { s.gotoSend k .exited with
      io := { s.io with flag := flag }
      published := true } := by
  have hgoto : (s.gotoSend k .exited).FrameInv := h.gotoSend (fun _ _ h => h.elim) (by simp)
  refine ⟨fun j hj hstake => ?_, hgoto.size_ready, fun _ => h.size_ready k hpc,
    hgoto.size_polled, hgoto.read_polled⟩
  have hstored : (s.send k).Stored j := by
    rw [hpc]
    trivial
  rcases hstake with hsend | - | hpoll
  · exact hgoto.stake j hj (Or.inl hsend)
  · exact h.stake j hj (Or.inl ⟨k, hstored⟩)
  · exact hgoto.stake j hj (Or.inr (Or.inr hpoll))

theorem FrameInv.sendStep (h : s.FrameInv) {k : K} (hstep : s.sendStep k = some t) :
    t.FrameInv := by
  unfold DummyDts.sendStep at hstep
  split at hstep
  case h_1 i hpc =>
    split_ifs at hstep with hi
    · cases hstep
      exact h.put hpc _
    · cases hstep
      refine h.gotoSend (fun j hj _ => ?_) (by simp)
      rw [hpc]
      exact Nat.lt_of_lt_of_le hj (Nat.le_of_not_lt hi)
  case h_2 hpc =>
    cases hstep
    have hgoto : FrameInv { s with io := { s.io with size := 50 } } :=
      ⟨h.stake, fun _ _ => rfl, fun _ => rfl, fun _ _ _ => rfl, h.read_polled⟩
    refine hgoto.gotoSend (fun j _ _ => ?_) fun _ => rfl
    rw [hpc]
    trivial
  case h_3 hpc =>
    cases hstep
    exact h.publish hpc _
  case h_4 => cases hstep

theorem FrameInv.readStep (h : s.FrameInv) : s.readStep.FrameInv := by
  unfold DummyDts.readStep
  split
  case h_1 hpc =>
    split_ifs with hready
    · refine ⟨fun j hj hstake => ?_, h.size_ready, h.size_published, fun hp _ _ => ?_,
        fun _ _ _ _ heq => nomatch heq⟩
      · refine h.stake j hj ?_
        rcases hstake with hsend | ⟨-, hidle⟩ | ⟨hpolled, -⟩
        · exact Or.inl hsend
        · cases hidle
        · exact Or.inr (Or.inl ⟨hpolled, hpc⟩)
      · exact h.size_published hp
    · exact h
  case h_2 status hpc =>
    refine ⟨fun j hj hstake => ?_, h.size_ready, h.size_published, (fun _ _ heq => nomatch heq),
      fun hp _ size i heq => ?_⟩
    · refine h.stake j hj ?_
      rcases hstake with hsend | ⟨-, hidle⟩ | ⟨hpolled, -⟩
      · exact Or.inl hsend
      · cases hidle
      · refine Or.inr (Or.inr ⟨hpolled, ?_⟩)
        rw [hpc]
        trivial
    · have hsize := h.size_polled hp status hpc
      injection heq with _ heq
      rw [← heq, hsize]
      rfl
  case h_3 status size i hpc =>
    split_ifs with hi
    · refine ⟨fun j hj hstake => ?_, h.size_ready, h.size_published, (fun _ _ heq => nomatch heq),
        fun hp _ _ _ heq => ?_⟩
      · refine h.stake j hj ?_
        rcases hstake with hsend | ⟨-, hidle⟩ | ⟨hpolled, htoRead⟩
        · exact Or.inl hsend
        · cases hidle
        · refine Or.inr (Or.inr ⟨hpolled, ?_⟩)
          rw [hpc]
          exact Nat.le_of_succ_le htoRead
      · injection heq with _ heq
        exact heq ▸ h.read_polled hp status size i hpc
    · refine ⟨fun j hj hstake => ?_, h.size_ready, h.size_published, (fun _ _ heq => nomatch heq),
        fun _ _ _ _ heq => nomatch heq⟩
      refine h.stake j hj ?_
      rcases hstake with hsend | ⟨-, hidle⟩ | ⟨-, htoRead⟩
      · exact Or.inl hsend
      · cases hidle
      · exact htoRead.elim
  case h_4 status hpc =>
    refine ⟨fun j hj hstake => ?_, h.size_ready, (fun hp => nomatch hp),
      (fun _ _ heq => nomatch heq), fun _ _ _ _ heq => nomatch heq⟩
    refine h.stake j hj ?_
    rcases hstake with hsend | ⟨hp, -⟩ | ⟨-, htoRead⟩
    · exact Or.inl hsend
    · cases hp
    · exact htoRead.elim

/-- A word that changes no byte at stake. -/
theorem FrameInv.write (h : s.FrameInv) {v : UInt32}
    (hapart : ∀ j < 4, s.AtStake j → wordByte v j = frameByte j) (word : Option UInt32)
    (stale : ℕ → Bool) :
    FrameInv { s with io := { s.io with mem := storeWord s.io.mem v }, word, stale } where
  stake j hj hstake := by
    by_cases hlt : j < 4
    · simpa [storeWord, hlt] using hapart j hlt hstake
    · simpa [storeWord, hlt] using h.stake j hj hstake
  size_ready := h.size_ready
  size_published := h.size_published
  size_polled := h.size_polled
  read_polled := h.read_polled

theorem frameInv_step (h : s.FrameInv) (hapart : s.Apart a t) (hstep : s.step a = some t) :
    t.FrameInv := by
  cases a with
  | start k =>
    simp only [step] at hstep
    split_ifs at hstep with hpc
    cases hstep
    exact h.gotoSend (fun j _ hlt => absurd hlt (Nat.not_lt_zero j)) (by simp)
  | send k => exact h.sendStep hstep
  | read =>
    cases hstep
    exact h.readStep
  | write v =>
    cases hstep
    exact h.write hapart _ _
  | load =>
    cases hstep
    exact h

/-- A poll reads what is at stake. -/
theorem FrameInv.read_sound (h : s.FrameInv) : s.Sound .read t := by
  intro hpolled status size i hpc hi
  obtain rfl := h.read_polled hpolled status size i hpc
  refine ⟨hi, h.stake i hi (Or.inr (Or.inr ⟨hpolled, ?_⟩))⟩
  rw [hpc]
  exact le_rfl

theorem wordInv_step (h : s.WordInv) (hstep : s.step a = some t) : t.WordInv := by
  cases a with
  | start k =>
    simp only [step] at hstep
    split_ifs at hstep
    cases hstep
    exact h
  | send k =>
    simp only [step, DummyDts.sendStep] at hstep
    split at hstep
    case h_1 i hpc =>
      split_ifs at hstep
      · cases hstep
        intro v hv j hj
        by_cases heq : j = i
        · simp [heq]
        · simpa [heq] using h v hv j hj
      · cases hstep
        exact h
    case h_2 => cases hstep; exact h
    case h_3 => cases hstep; exact h
    case h_4 => cases hstep
  | read =>
    cases hstep
    unfold readStep
    split
    · split_ifs
      · exact h
      · exact h
    · exact h
    · split_ifs
      · exact h
      · exact h
    · exact h
  | write v =>
    cases hstep
    intro w hw j hj
    obtain rfl := Option.some.inj hw
    simp [storeWord, hj]
  | load =>
    cases hstep
    exact h

/-- A load is right exactly if the stale bytes are what the word has there. -/
theorem WordInv.load_sound_iff (h : s.WordInv) : s.Sound .load t ↔ s.Apart .load t := by
  refine forall₂_congr fun v hv => ?_
  rw [loadWord_eq_iff]
  refine forall₂_congr fun j hj => ?_
  rw [h v hv j hj]
  split_ifs with hstale <;> simp [hstale]

/-- What polls read of a frame and what loads find, in a run whose words leave the bytes
at stake as they are and whose loads find none that is stale. -/
theorem directions_apart (hC : EveryStep step Apart (init io : DummyDts K) as) :
    EveryStep step Sound (init io : DummyDts K) as := by
  refine everyStep_of_invariant (I := fun s => s.FrameInv ∧ s.WordInv) ?_
    ⟨frameInv_init, wordInv_init⟩ hC
  rintro s a t ⟨hframe, hword⟩ hapart hstep
  refine ⟨⟨frameInv_step hframe hapart hstep, wordInv_step hword hstep⟩, ?_⟩
  cases a with
  | read => exact hframe.read_sound
  | load => exact hword.load_sound_iff.2 hapart
  | _ => trivial

/-- A device whose window and registers are zero. -/
def blank : DummyDts Unit :=
  init ⟨fun _ => 0, 0, 0⟩

/-- A process sends the frame. -/
def frameRun : List (DtsAct Unit) :=
  .start () :: List.replicate 53 (.send ())

/-- A word is stored and loaded, a frame sent and polled, and a word stored and loaded. -/
def apartRun : List (DtsAct Unit) :=
  [.write 7, .load] ++ frameRun ++ List.replicate 54 .read ++ [.write 8, .load]

theorem directions_apart_run :
    (exec step blank apartRun).isSome ∧ EveryStep step Sound blank apartRun :=
  ⟨by decide +kernel, directions_apart (by decide +kernel)⟩

/-- A word is stored over the published frame, which the poll then samples. -/
def damagedRun : List (DtsAct Unit) :=
  frameRun ++ [.write 7, .read, .read]

/-- A frame is sent over the word. -/
def coveredRun : List (DtsAct Unit) :=
  [.write 7, .start (), .send ()]

/-- A poll that reads a byte of a word for the first byte of the frame, and a load that
finds the first byte of a frame in the word. -/
theorem directions_meet :
    ¬EveryStep step Sound blank (damagedRun ++ [.read]) ∧
      ¬EveryStep step Sound blank (coveredRun ++ [.load]) := by
  constructor
  · intro h
    have hend : (exec step blank damagedRun).map (fun s =>
        decide (s.polled = true ∧ s.work = .read 1 50 0 ∧ s.io.mem 0 = 7)) = some true := by
      decide +kernel
    obtain ⟨s, hs, heq⟩ := Option.map_eq_some_iff.1 hend
    obtain ⟨hpolled, hpc, hmem⟩ := of_decide_eq_true heq
    have hlast := (everyStep_append.1 h).2 s hs
    have hsound := ((everyStep_cons_of_step rfl).1 hlast).1 hpolled 1 50 0 hpc (by decide)
    simp [hmem, frameByte] at hsound
  · intro h
    have hend : (exec step blank coveredRun).map (fun s =>
        decide (s.word = some 7 ∧ s.io.mem 0 = 0x41)) = some true := by decide +kernel
    obtain ⟨s, hs, heq⟩ := Option.map_eq_some_iff.1 hend
    obtain ⟨hword, hmem⟩ := of_decide_eq_true heq
    have hlast := (everyStep_append.1 h).2 s hs
    have hsound := ((everyStep_cons_of_step rfl).1 hlast).1 7 hword
    have hbyte := loadWord_eq_iff.1 hsound 0 (by decide)
    rw [hmem] at hbyte
    exact absurd hbyte (by decide)

/-! ## Where they meet -/

/-- Some run from here is not sound. -/
def Misses (s : DummyDts K) : Prop :=
  ∃ bs, ¬EveryStep step Sound s bs

theorem Misses.of_step (a : DtsAct K) (hstep : s.step a = some t) (h : t.Misses) : s.Misses := by
  obtain ⟨bs, hbs⟩ := h
  exact ⟨a :: bs, fun hall => hbs ((everyStep_cons_of_step hstep).1 hall).2⟩

theorem Misses.of_read (h : s.readStep.Misses) : s.Misses :=
  .of_step .read rfl h

/-- While `published`, READY is set. -/
theorem dataReady_of_published (h : exec step (init io : DummyDts K) as = some s) :
    s.published = true → dataReady s.io.flag = true := by
  refine exec_invariant_of_step (I := fun s : DummyDts K =>
    s.published = true → dataReady s.io.flag = true) ?_ (fun hp => by cases hp) h
  intro s a t hready hstep
  cases a with
  | start k =>
    simp only [step] at hstep
    split_ifs at hstep
    cases hstep
    exact hready
  | send k =>
    simp only [step, DummyDts.sendStep] at hstep
    split at hstep
    case h_1 => split_ifs at hstep <;> cases hstep <;> exact hready
    case h_2 => cases hstep; exact hready
    case h_3 => cases hstep; exact fun _ => dataReady_platIoDataReady
    case h_4 => cases hstep
  | read =>
    cases hstep
    unfold readStep
    split
    · split_ifs <;> exact hready
    · exact hready
    · split_ifs <;> exact hready
    · exact fun hp => nomatch hp
  | write v => cases hstep; exact hready
  | load => cases hstep; exact hready

variable {j : ℕ} {k : K}

/-- The poll of a frame comes to byte `j`. -/
theorem misses_reading (hmem : s.io.mem j ≠ frameByte j) (hj : j < 50)
    (hpolled : s.polled = true) {status : UInt32} {i : ℕ} (hpc : s.work = .read status 50 i)
    (hij : i ≤ j) : s.Misses := by
  induction hd : j - i generalizing s i with
  | zero =>
    obtain rfl : i = j := by omega
    refine ⟨[.read], fun hall => hmem ?_⟩
    exact (((everyStep_cons_of_step rfl).1 hall).1 hpolled status 50 i hpc hj).2
  | succ d ih =>
    have hstep : s.readStep = { s with work := .read status 50 (i + 1) } := by
      simp only [readStep, hpc, if_pos (show i < 50 by omega)]
    refine .of_read (hstep ▸ ?_)
    exact ih hmem hpolled rfl (by omega) (by omega)

theorem misses_size (hmem : s.io.mem j ≠ frameByte j) (hj : j < 50) (hpolled : s.polled = true)
    {status : UInt32} (hpc : s.work = .size status) (hsize : s.io.size = 50) : s.Misses := by
  have hstep : s.readStep = { s with work := .read status 50 0 } := by
    simp only [readStep, hpc, hsize]
    rfl
  refine .of_read (hstep ▸ ?_)
  exact misses_reading hmem hj hpolled rfl (Nat.zero_le j)

theorem misses_published (hmem : s.io.mem j ≠ frameByte j) (hj : j < 50)
    (hpublished : s.published = true) (hready : dataReady s.io.flag = true)
    (hidle : s.work = .idle) (hsize : s.io.size = 50) : s.Misses := by
  have hstep : s.readStep = { s with work := .size s.io.flag, polled := s.published } := by
    simp only [readStep, hidle, hready, if_true]
  refine .of_read (hstep ▸ ?_)
  exact misses_size hmem hj hpublished rfl hsize

theorem gotoSend_self (s : DummyDts K) (k : K) (pc : SendDataPc) :
    (s.gotoSend k pc).send k = pc := by
  simp [DummyDts.gotoSend]

/-- The process publishes its frame, and no poll is under way. -/
theorem misses_ready (hmem : s.io.mem j ≠ frameByte j) (hj : j < 50) (hidle : s.work = .idle)
    (hpc : s.send k = .ready) (hsize : s.io.size = 50) : s.Misses := by
  refine .of_step (.send k) (by simp only [step, DummyDts.sendStep, hpc]; rfl) ?_
  exact misses_published hmem hj rfl dataReady_platIoDataReady hidle hsize

theorem misses_sendSize (hmem : s.io.mem j ≠ frameByte j) (hj : j < 50) (hidle : s.work = .idle)
    (hpc : s.send k = .size) : s.Misses := by
  refine .of_step (.send k) (by simp only [step, DummyDts.sendStep, hpc]; rfl) ?_
  exact misses_ready hmem hj hidle (gotoSend_self s k .ready) rfl

/-- The process stores the rest of its frame. -/
theorem misses_put (hmem : s.io.mem j ≠ frameByte j) (hj : j < 50) (hidle : s.work = .idle)
    {i : ℕ} (hpc : s.send k = .put i) (hij : j < i) : s.Misses := by
  induction hd : 50 - i generalizing s i with
  | zero =>
    have hlast : ¬i < 50 := by omega
    refine .of_step (.send k) (by simp only [step, DummyDts.sendStep, hpc, if_neg hlast]; rfl) ?_
    exact misses_sendSize hmem hj hidle (gotoSend_self s k .size)
  | succ d ih =>
    have hlt : i < 50 := by omega
    refine .of_step (.send k) (by simp only [step, DummyDts.sendStep, hpc, if_pos hlt]; rfl) ?_
    refine ih ?_ hidle (gotoSend_self s k (.put (i + 1))) (Nat.lt_succ_of_lt hij) (by omega)
    simpa [hij.ne] using hmem

/-- The poll that is under way has ended; the window and the processes are as they were. -/
structure PollEnded (s t : DummyDts K) : Prop where
  idle : t.work = .idle
  send : t.send = s.send
  mem : t.io.mem = s.io.mem
  size : t.io.size = s.io.size

theorem exec_read (h : s.readStep = t) {bs : List (DtsAct K)} {u : DummyDts K}
    (hrun : exec step t bs = some u) : exec step s (.read :: bs) = some u :=
  exec_cons_eq_some.2 ⟨t, congrArg some h, hrun⟩

theorem exec_poll_clear {status : UInt32} (hpc : s.work = .clear status) :
    ∃ bs t, exec step s bs = some t ∧ s.PollEnded t := by
  have hstep : s.readStep = { s with
      work := .idle
      io := { s.io with flag := clearReady status }
      published := false } := by
    simp only [readStep, hpc]
  exact ⟨[.read], _, exec_read hstep (exec_nil _), rfl, rfl, rfl, rfl⟩

theorem exec_poll_read {status : UInt32} {size i : ℕ} (hpc : s.work = .read status size i) :
    ∃ bs t, exec step s bs = some t ∧ s.PollEnded t := by
  induction hd : size - i generalizing s i with
  | zero =>
    have hstep : s.readStep = { s with work := .clear status } := by
      simp only [readStep, hpc, if_neg (show ¬i < size by omega)]
    obtain ⟨bs, t, hrun, hidle, hsend, hmem, hsize⟩ :=
      exec_poll_clear (s := { s with work := .clear status }) rfl
    exact ⟨.read :: bs, t, exec_read hstep hrun, hidle, hsend, hmem, hsize⟩
  | succ d ih =>
    have hstep : s.readStep = { s with work := .read status size (i + 1) } := by
      simp only [readStep, hpc, if_pos (show i < size by omega)]
    obtain ⟨bs, t, hrun, hidle, hsend, hmem, hsize⟩ :=
      ih (s := { s with work := .read status size (i + 1) }) rfl (by omega)
    exact ⟨.read :: bs, t, exec_read hstep hrun, hidle, hsend, hmem, hsize⟩

/-- Uninterrupted, a poll ends. -/
theorem exec_poll (s : DummyDts K) : ∃ bs t, exec step s bs = some t ∧ s.PollEnded t := by
  cases hpc : s.work with
  | idle => exact ⟨[], s, exec_nil s, hpc, rfl, rfl, rfl⟩
  | size status =>
    have hstep : s.readStep = { s with
        work := .read status (PlatDummyDevice.clampSize s.io.size.toNat) 0 } := by
      simp only [readStep, hpc]
    obtain ⟨bs, t, hrun, hidle, hsend, hmem, hsize⟩ := exec_poll_read (s := { s with
        work := .read status (PlatDummyDevice.clampSize s.io.size.toNat) 0 }) rfl
    exact ⟨.read :: bs, t, exec_read hstep hrun, hidle, hsend, hmem, hsize⟩
  | read status size i => exact exec_poll_read hpc
  | clear status => exact exec_poll_clear hpc

theorem Misses.of_exec (h : t.Misses) {bs : List (DtsAct K)} (hrun : exec step s bs = some t) :
    s.Misses := by
  obtain ⟨cs, hcs⟩ := h
  exact ⟨bs ++ cs, fun hall => hcs ((everyStep_append.1 hall).2 t hrun)⟩

/-- A byte of the frame that a process has yet to publish. -/
theorem misses_stored (hmem : s.io.mem j ≠ frameByte j) (hj : j < 50)
    (hstored : (s.send k).Stored j) (hsize : s.send k = .ready → s.io.size = 50) :
    s.Misses := by
  obtain ⟨bs, t, hrun, hended⟩ := exec_poll s
  have hmem' : t.io.mem j ≠ frameByte j := by rwa [hended.mem]
  refine Misses.of_exec ?_ hrun
  cases hpc : s.send k with
  | put i =>
    rw [hpc] at hstored
    exact misses_put hmem' hj hended.idle (by rw [hended.send, hpc]) hstored
  | size => exact misses_sendSize hmem' hj hended.idle (by rw [hended.send, hpc])
  | ready =>
    exact misses_ready hmem' hj hended.idle (by rw [hended.send, hpc])
      (hended.size.trans (hsize hpc))
  | exited => simp [hpc, SendDataPc.Stored] at hstored

/-- Some run from each byte at stake that is not the frame's has a poll that reads it. -/
theorem misses_of_stake (hmem : s.io.mem j ≠ frameByte j) (hj : j < 50) (hstake : s.AtStake j)
    (hready : s.published = true → dataReady s.io.flag = true)
    (hsend : ∀ k, s.send k = .ready → s.io.size = 50)
    (hpublished : s.published = true → s.io.size = 50)
    (hpolled : s.polled = true → ∀ status, s.work = .size status → s.io.size = 50)
    (hread : s.polled = true → ∀ status size i, s.work = .read status size i → size = 50) :
    s.Misses := by
  rcases hstake with ⟨k, hstored⟩ | ⟨hpub, hidle⟩ | ⟨hpoll, htoRead⟩
  · exact misses_stored hmem hj hstored (hsend k)
  · exact misses_published hmem hj hpub (hready hpub) hidle (hpublished hpub)
  · cases hpc : s.work with
    | idle | clear => simp [hpc, WorkReadPc.ToRead] at htoRead
    | size status => exact misses_size hmem hj hpoll hpc (hpolled hpoll status hpc)
    | read status size i =>
      obtain rfl := hread hpoll status size i hpc
      rw [hpc] at htoRead
      exact misses_reading hmem hj hpoll hpc htoRead

/-- From every step that does not keep the directions apart, some run is not sound. -/
theorem misses_of_not_apart (hC : EveryStep step Apart (init io : DummyDts K) as)
    (h : exec step (init io) as = some s) (hnot : ¬s.Apart a t) : s.Misses := by
  have hframe : s.FrameInv := by
    refine exec_invariant ?_ frameInv_init hC h
    intro s a t hframe hapart hstep
    exact frameInv_step hframe hapart hstep
  cases a with
  | start | send | read => exact absurd trivial hnot
  | load =>
    have hword : s.WordInv := by
      refine exec_invariant_of_step ?_ wordInv_init h
      intro s a t hword hstep
      exact wordInv_step hword hstep
    refine ⟨[.load], fun hall => hnot (hword.load_sound_iff.1 ?_)⟩
    exact (hall s rfl).1
  | write v =>
    obtain ⟨j, hj⟩ := not_forall.1 hnot
    obtain ⟨hlt, hj⟩ := Classical.not_imp.1 hj
    obtain ⟨hstake, hne⟩ := Classical.not_imp.1 hj
    have hready := dataReady_of_published h
    refine .of_step (.write v) rfl (misses_of_stake (j := j) ?_ (by omega) hstake hready
      hframe.size_ready hframe.size_published hframe.size_polled hframe.read_polled)
    simpa [storeWord, hlt] using hne

end DummyDts

end ProCamp
