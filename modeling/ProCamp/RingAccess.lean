import ProCamp.DriverInvariant

/-!
# The memory the driver touches

`ringAccess` and `windowAccess` list, for each step, the cells of the ring and the offsets of
the window it may touch. `step_touchesOnly` : it touches no others. They are not written, and
whatever they hold, the step is the same step. For this `withMemory` puts any other bytes
into the ring and the window.

`ring_stays_in_bounds` : the cells listed are in the ring, and the offsets in the window.
-/

namespace ProCamp

open PlatDummyDevice Machine CyclicBuffer

namespace Driver

variable {size : ℕ} {s t : Driver} {i : ℕ} {x : Input}

/-- The cells of the ring a step may read or write : those a copy to or from user space
is about, and the one `plat_dummy_work` stores to. -/
def ringAccess (s : Driver) : Act → List ℕ
  | .reader i _ =>
    match s.readers i with
    | .copy count => List.range' s.dev.rp (s.dev.readCount count)
    | .advance count => List.range' s.dev.rp count
    | _ => []
  | .writer i _ =>
    match s.writers i with
    | .copy buf => List.range' s.dev.wp (s.dev.writeCount buf.length)
    | _ => []
  | .work _ =>
    match s.work with
    | .put _ count i => if i < count then [s.dev.wp] else []
    | _ => []
  | _ => []

/-- The offsets of the window the driver may read. -/
def windowAccess (s : Driver) : Act → List ℕ
  | .work _ =>
    match s.work with
    | .put _ count i => if i < count then [i] else []
    | _ => []
  | _ => []

/-- `s` with other bytes in the ring and the window. -/
def withMemory (s : Driver) (buffer mem : ℕ → UInt8) : Driver :=
  { s with dev := { s.dev with buffer := buffer }, io := { s.io with mem := mem } }

/-- The window after a step : only user processes store to it. -/
def windowAfter (mem : ℕ → UInt8) : Act → ℕ → UInt8
  | .store (.mem offset byte) => Function.update mem offset byte
  | _ => mem

/-- The step `a` from `s` to `t` touches no cell of the ring but `ring`, and reads no offset
of the window but `window`. -/
structure TouchesOnly (s : Driver) (a : Act) (t : Driver) (ring window : List ℕ) : Prop where
  /-- Every other cell is left alone. -/
  writes : ∀ k, k ∉ ring → t.dev.buffer k = s.dev.buffer k
  /-- With any other bytes elsewhere the step is possible as well, does the same, and leaves
  those bytes as they are. -/
  reads : ∀ buffer mem, (∀ k ∈ ring, buffer k = s.dev.buffer k) →
    (∀ k ∈ window, mem k = s.io.mem k) →
    (s.withMemory buffer mem).step a =
      some (t.withMemory (overlay ring t.dev.buffer buffer) (windowAfter mem a))

theorem ringAccess_lt (h : s.Inv size) (a : Act) {k : ℕ} (hk : k ∈ s.ringAccess a) :
    k < size := by
  cases a with
  | reader i x =>
    simp only [ringAccess] at hk
    split at hk
    · rename_i count hpc
      obtain ⟨⟨hv, rfl⟩, hne⟩ := h.ok (a := .reader i) (by rw [view, hpc]; rfl)
      have := (hv.readCount_le hne count).2
      simp only [List.mem_range'_1] at hk
      omega
    · rename_i count hpc
      obtain ⟨-, -, -, hend⟩ := h.ok (a := .reader i) (by rw [view, hpc]; rfl)
      simp only [List.mem_range'_1] at hk
      omega
    · simp at hk
  | writer i x =>
    simp only [ringAccess] at hk
    split at hk
    · rename_i buf hpc
      obtain ⟨hv, rfl⟩ := h.ok (a := .writer i) (by rw [view, hpc]; rfl)
      have := writeCount_le hv.wp_lt.le buf.length
      simp only [List.mem_range'_1] at hk
      omega
    · simp at hk
  | work x =>
    simp only [ringAccess] at hk
    split at hk
    · rename_i status count i hpc
      obtain ⟨⟨hv, rfl⟩, -⟩ := h.ok (a := .work) (by rw [view, hpc]; rfl)
      split_ifs at hk with hi
      · rw [List.mem_singleton.1 hk]
        exact hv.wp_lt
      · simp at hk
    · simp at hk
  | callRead | callWrite | store => simp [ringAccess] at hk

theorem windowAccess_lt (h : s.Inv size) (a : Act) {k : ℕ} (hk : k ∈ s.windowAccess a) :
    k < memSize := by
  cases a with
  | work x =>
    simp only [windowAccess] at hk
    split at hk
    · rename_i status count i hpc
      obtain ⟨-, -, hcount, -⟩ := h.ok (a := .work) (by rw [view, hpc]; rfl)
      split_ifs at hk with hi
      · rw [List.mem_singleton.1 hk]
        omega
      · simp at hk
    · simp at hk
  | reader | writer | callRead | callWrite | store => simp [windowAccess] at hk

/-! ## No other cell and no other offset -/

variable {buffer mem : ℕ → UInt8}

/-- The pieces that move a pointer do not look at the bytes. -/
theorem wrapRp_buffer {d : PlatDummyDevice} :
    { d with buffer := buffer }.wrapRp = { d.wrapRp with buffer := buffer } := by
  unfold wrapRp bufEnd
  split_ifs <;> rfl

theorem wrapWpEq_buffer {d : PlatDummyDevice} :
    { d with buffer := buffer }.wrapWpEq = { d.wrapWpEq with buffer := buffer } := by
  unfold wrapWpEq bufEnd
  split_ifs <;> rfl

theorem wrapWpGe_buffer {d : PlatDummyDevice} :
    { d with buffer := buffer }.wrapWpGe = { d.wrapWpGe with buffer := buffer } := by
  unfold wrapWpGe bufEnd
  split_ifs <;> rfl

theorem ReaderMove.buffer_eq (h : ReaderMove s i t) : t.dev.buffer = s.dev.buffer := by
  cases h with
  | wrap hpc =>
    show s.dev.wrapRp.buffer = _
    unfold wrapRp
    split_ifs <;> rfl
  | _ => rfl

/-- A reader's step sees the cells it copies out and no others. -/
theorem readerStep_withMemory
    (hring : ∀ k ∈ s.ringAccess (.reader i x), buffer k = s.dev.buffer k)
    (h : s.readerStep i x = some t) :
    (s.withMemory buffer mem).readerStep i x = some (t.withMemory buffer mem) := by
  unfold readerStep at h ⊢
  have hsame : (s.withMemory buffer mem).readers i = s.readers i := rfl
  have hwait {count : ℕ} {w : WaitEvent} {signal : Bool}
      (h : s.readerWait i count w signal = some t) :
      (s.withMemory buffer mem).readerWait i count w signal = some (t.withMemory buffer mem) := by
    obtain ⟨r, hr, rfl⟩ := Option.map_eq_some_iff.1 h
    exact Option.map_eq_some_iff.2 ⟨r, hr, by cases r <;> rfl⟩
  rw [hsame]
  split at h
  case h_1 count hpc =>
    split_ifs at h with hfree
    cases h
    exact if_pos hfree
  case h_5 | h_6 => exact hwait h
  case h_9 count hpc =>
    cases h
    simp only [ringAccess, hpc] at hring
    have hcopied : (s.withMemory buffer mem).dev.copyToUser count = s.dev.copyToUser count :=
      List.map_congr_left hring
    rw [hcopied]
    rfl
  case h_10 count hpc =>
    cases h
    have hwrapped : (s.withMemory buffer mem).dev.wrapRp = { s.dev.wrapRp with buffer := buffer } :=
      wrapRp_buffer
    rw [hwrapped]
    rfl
  case h_12 => cases h
  all_goals cases h; rfl

/-- A writer's step sees no cell, and stores to those of its copy. -/
theorem writerStep_withMemory (h : s.writerStep i x = some t) :
    (s.withMemory buffer mem).writerStep i x = some (t.withMemory
      (overlay (s.ringAccess (.writer i x)) t.dev.buffer buffer) mem) := by
  unfold writerStep at h ⊢
  have hsame : (s.withMemory buffer mem).writers i = s.writers i := rfl
  rw [hsame]
  split at h
  case h_1 buf hpc =>
    split_ifs at h with hfree
    cases h
    simp only [ringAccess, hpc, overlay_nil]
    exact if_pos hfree
  case h_3 buf hpc =>
    cases h
    have hlen := length_take_writeCount (d := s.dev) buf
    simp only [ringAccess, hpc]
    rw [show PlatDummyDevice.buffer _ = store s.dev.buffer s.dev.wp _ from rfl,
      overlay_store hlen]
    rfl
  case h_4 buf stored hpc =>
    split_ifs at h with hlt
    cases h
    have hlen := length_faultedCopy hlt (writeCount_le_count buf.length)
    simp only [ringAccess, hpc]
    rw [show PlatDummyDevice.buffer _ = store s.dev.buffer s.dev.wp _ from rfl,
      overlay_store hlen]
    exact if_pos hlt
  case h_6 count hpc =>
    cases h
    have hwrapped : (s.withMemory buffer mem).dev.wrapWpGe =
        { s.dev.wrapWpGe with buffer := buffer } := wrapWpGe_buffer
    simp only [ringAccess, hpc, overlay_nil]
    rw [hwrapped]
    rfl
  case h_8 => cases h
  case h_2 hpc | h_5 hpc | h_7 hpc =>
    cases h
    simp only [ringAccess, hpc, overlay_nil]
    rfl

/-- A step of the work sees the byte of the window it stores, and stores to one cell. -/
theorem workStep_withMemory
    (hwindow : ∀ k ∈ s.windowAccess (.work x), mem k = s.io.mem k) (h : s.workStep x = some t) :
    (s.withMemory buffer mem).workStep x = some (t.withMemory
      (overlay (s.ringAccess (.work x)) t.dev.buffer buffer) mem) := by
  unfold workStep at h ⊢
  have hsame : (s.withMemory buffer mem).work = s.work := rfl
  rw [hsame]
  split at h
  case h_2 status hpc =>
    split_ifs at h with hfree
    cases h
    simp only [ringAccess, hpc, overlay_nil]
    exact if_pos hfree
  case h_7 status count i hpc =>
    split_ifs at h with hi
    · cases h
      simp only [windowAccess, hpc, if_pos hi] at hwindow
      have hbyte : (s.withMemory buffer mem).io.mem i = s.io.mem i :=
        hwindow i (List.mem_singleton_self i)
      simp only [ringAccess, hpc, if_pos hi, hbyte]
      rw [show PlatDummyDevice.buffer _ = store s.dev.buffer s.dev.wp _ from rfl,
        show [s.dev.wp] = List.range' s.dev.wp 1 from rfl,
        overlay_store (show [s.io.mem i].length = 1 from rfl)]
      rfl
    · cases h
      simp only [ringAccess, hpc, if_neg hi, overlay_nil]
      rfl
  case h_8 status count i hpc =>
    cases h
    have hwrapped : (s.withMemory buffer mem).dev.wrapWpEq =
        { s.dev.wrapWpEq with buffer := buffer } := wrapWpEq_buffer
    simp only [ringAccess, hpc, overlay_nil]
    rw [hwrapped]
    rfl
  case h_13 => cases h
  all_goals
    cases h
    simp only [ringAccess, *, overlay_nil]
    rfl

/-- The accesses listed are the only ones. -/
theorem step_touchesOnly {a : Act} (h : s.step a = some t) :
    s.TouchesOnly a t (s.ringAccess a) (s.windowAccess a) := by
  have hreads : ∀ buffer mem, (∀ k ∈ s.ringAccess a, buffer k = s.dev.buffer k) →
      (∀ k ∈ s.windowAccess a, mem k = s.io.mem k) →
      (s.withMemory buffer mem).step a = some (t.withMemory
        (overlay (s.ringAccess a) t.dev.buffer buffer) (windowAfter mem a)) := by
    intro buffer mem hring hwindow
    cases a with
    | callRead i count =>
      obtain ⟨hpc, rfl⟩ := callReadStep_eq h
      simp only [ringAccess, overlay_nil, step, callReadStep]
      rw [show (s.withMemory buffer mem).readers i = s.readers i from rfl]
      obtain hpc | ⟨r, hpc⟩ := hpc <;> rw [hpc] <;> rfl
    | callWrite i buf =>
      obtain ⟨hpc, rfl⟩ := callWriteStep_eq h
      simp only [ringAccess, overlay_nil, step, callWriteStep]
      rw [show (s.withMemory buffer mem).writers i = s.writers i from rfl]
      obtain hpc | ⟨r, hpc⟩ := hpc <;> rw [hpc] <;> rfl
    | reader i x =>
      have hmove := readerStep_move h
      rw [hmove.buffer_eq, overlay_eq hring]
      exact readerStep_withMemory hring h
    | writer i x => exact writerStep_withMemory h
    | work x => exact workStep_withMemory hwindow h
    | store st =>
      obtain rfl : _ = t := by simpa [step] using h
      cases st <;> rfl
  refine ⟨fun k hk => ?_, hreads⟩
  have hsame := (hreads s.dev.buffer s.io.mem (fun _ _ => rfl) fun _ _ => rfl).symm.trans h
  have hbuffer := congrArg (fun u => u.dev.buffer k) (Option.some.inj hsame)
  exact hbuffer.symm.trans (overlay_of_not_mem _ _ hk)

/-- For every ring of at least two bytes and every run, with any counts, register
values, signals and faults : outside the critical sections, and where a poll tests
the space, both pointers are in `[buffer, end)` and `spacefree` is `N - 1` less the
distance from `rp` to `wp`, in `[0, N - 1]`; and every step touches only cells of the ring
and offsets of the window that are within its bounds. -/
theorem ring_stays_in_bounds (hsize : 2 ≤ size) (io : PlatIo) (as : List Act)
    (h : Machine.exec step (init size io) as = some s) :
    (s.rdMutex = none ∨ (∃ status n, s.work = .space status n) →
      s.dev.rp < size ∧ s.dev.wp < size ∧
        s.dev.spacefree = size - 1 - ((s.dev.wp : ℤ) - s.dev.rp) % size ∧
        0 ≤ s.dev.spacefree ∧ s.dev.spacefree ≤ size - 1) ∧
      ∀ a t, s.step a = some t → s.TouchesOnly a t (s.ringAccess a) (s.windowAccess a) ∧
        (∀ k ∈ s.ringAccess a, k < size) ∧ ∀ k ∈ s.windowAccess a, k < memSize := by
  have hinv := inv_of_exec (by omega) h
  refine ⟨fun hout => ?_, fun a t hstep => ⟨step_touchesOnly hstep,
    fun k => ringAccess_lt hinv a, fun k => windowAccess_lt hinv a⟩⟩
  have hok : RingOk size s.dev := by
    obtain hfree | ⟨status, n, hpc⟩ := hout
    · exact hinv.free hfree
    · obtain ⟨hok, -⟩ := hinv.ok (a := .work) (by rw [view, hpc]; rfl)
      exact hok
  obtain ⟨hv, rfl⟩ := hok
  exact ⟨hv.rp_lt, hv.wp_lt, hv.spacefree_eq, hv.spacefree_nonneg, by
    have := hv.spacefree_lt
    omega⟩

/-- A ring of four bytes after a write of three; and a write of two then, whose copy stores to
the last cell. -/
theorem ring_stays_in_bounds_after_write :
    ∃ s u t, Machine.exec step (init 4 zeroIo) (writeRun [1, 2, 3]) = some s ∧
      s.dev.rp < 4 ∧ s.dev.wp < 4 ∧
      s.dev.spacefree = (4 : ℕ) - 1 - ((s.dev.wp : ℤ) - s.dev.rp) % (4 : ℕ) ∧
      Machine.exec step s [.callWrite 0 [7, 8], .writer 0 .go] = some u ∧
      u.step (.writer 0 .go) = some t ∧ u.TouchesOnly (.writer 0 .go) t [3] [] := by
  have hfree : (Machine.exec step (init 4 zeroIo) (writeRun [1, 2, 3])).map
      (fun s => s.rdMutex) = some none := by decide +kernel
  have hcells : (Machine.exec step (init 4 zeroIo)
      (writeRun [1, 2, 3] ++ [.callWrite 0 [7, 8], .writer 0 .go])).map
      (fun u => (u.ringAccess (.writer 0 .go), (u.step (.writer 0 .go)).isSome)) =
      some ([3], true) := by decide +kernel
  obtain ⟨s, hs, hfree⟩ := Option.map_eq_some_iff.1 hfree
  obtain ⟨u, hu, hcells⟩ := Option.map_eq_some_iff.1 hcells
  obtain ⟨hring, hsome⟩ := Prod.mk.injEq _ _ _ _ ▸ hcells
  obtain ⟨t, ht⟩ := Option.isSome_iff_exists.1 hsome
  obtain ⟨s', hs', hsu⟩ := exec_append_eq_some.1 hu
  obtain rfl : s' = s := Option.some.inj (hs'.symm.trans hs)
  obtain ⟨hr, hw, hspace, -⟩ := (ring_stays_in_bounds (by decide) _ _ hs).1 (Or.inl hfree)
  obtain ⟨htouches, -, -⟩ := (ring_stays_in_bounds (by decide) _ _ hu).2 _ t ht
  exact ⟨s', u, t, hs, hr, hw, hspace, hsu, ht, hring ▸ htouches⟩

end Driver

end ProCamp
