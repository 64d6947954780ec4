import Mathlib.Algebra.Order.Ring.Int
import Mathlib.Tactic.SplitIfs
import ProCamp.Machine

/-!
# The dump of a window

`HW12/mmap.c` maps the window of a device and prints its bytes, `MAX_STRING` in a row. One
pointer advances through both loops, and the only way out is the comparison of line 91,
which comes after the byte has been read.

`dump_reads` : what the loops read is the window and the byte behind it, in order and each
byte once, for every window and every width of a row. A window that ends at the last
address but one has no byte left to stop at, and the loops never return
(`dump_never_returns`).
-/

namespace ProCamp

open Machine

/-- `struct my_device`. -/
structure MyDevice where
  memBase : UInt32
  memSize : UInt32

/-- `my_devices`. -/
def myDevices : List MyDevice :=
  [⟨0x9f200000, 0x1000⟩, ⟨0x9f210000, 0x1000⟩]

/-- The command line, and the results of the calls before the loops. -/
structure MmapCalls where
  argc : ℤ
  /-- `atoi(argv[1])`, in an `unsigned int`. -/
  atoi : UInt32
  /-- `open`, in an `unsigned int`. -/
  fd : UInt32
  /-- `mmap`, at the size and the offset of a device. -/
  mmap : UInt32 → UInt32 → UInt32

/-- Lines 63 to 86 of `main` : what it returns, or the device it is about to dump. -/
def MmapCalls.main (c : MmapCalls) : Except ℤ MyDevice :=
  if c.argc ≠ 2 then .error (-1)
  else
    match myDevices[c.atoi.toNat]? with
    | none => .error (-1)
    | some d =>
      if c.fd < 0 then .error (-1)
      else
        let memAddr := c.mmap d.memSize d.memBase
        if memAddr = 0 then .error (-1) else .ok { d with memBase := memAddr }

/-- An `unsigned int` is never negative, so a file that cannot be opened is dumped as well. -/
theorem MmapCalls.main_fd (c : MmapCalls) (fd : UInt32) : { c with fd }.main = c.main := by
  have hfd : ∀ x : UInt32, ¬x < 0 := fun x => by simp [UInt32.lt_iff_toNat_lt]
  simp [main, hfd]

/-- Where the loops are. -/
inductive DumpPc where
  /-- Line 88, and `i=0` of line 89. -/
  | row
  /-- `i <MAX_STRING` of line 89. -/
  | test
  /-- Line 90. -/
  | print
  /-- Line 91. -/
  | check
  /-- Line 93 has returned. -/
  | returned
  deriving DecidableEq

/-- The loops under way, with their variables. -/
structure Dump where
  pc : DumpPc
  memAddr : UInt32
  i : UInt32
  /-- The addresses read, in order. -/
  reads : List UInt32

namespace Dump

/-- Before the loops; `i` is not initialised. -/
def start (d : MyDevice) (i : UInt32) : Dump :=
  ⟨.row, d.memBase, i, []⟩

/-- One step of the loops. -/
def step (d : MyDevice) (maxString : ℕ) (s : Dump) (_ : Unit) : Option Dump :=
  match s.pc with
  | .row => some { s with pc := .test, i := 0 }
  | .test => some { s with pc := if s.i.toNat < maxString then .print else .row }
  | .print =>
    some { s with pc := .check, memAddr := s.memAddr + 1, reads := s.reads ++ [s.memAddr] }
  | .check =>
    some (if s.memAddr > d.memBase + d.memSize then { s with pc := .returned }
      else { s with pc := .test, i := s.i + 1 })
  | .returned => none

/-- The loops go on until they return. -/
def next (s : Dump) : Option Unit :=
  if s.pc = .returned then none else some ()

/-- The first `n` addresses of a window. -/
def addresses (d : MyDevice) (n : ℕ) : List UInt32 :=
  (List.range n).map fun k => d.memBase + UInt32.ofNat k

/-- The loops read the window, each address once and in order, and return. -/
def ReadsWindow (d : MyDevice) (maxString : ℕ) (i : UInt32) : Prop :=
  ∃ t, RunsTo (step d maxString) next (start d i) t ∧ t.reads = addresses d d.memSize.toNat

variable {d : MyDevice} {w : ℕ} {s t : Dump} {a i : UInt32} {reads : List UInt32}

theorem length_addresses (d : MyDevice) (n : ℕ) : (addresses d n).length = n := by
  simp [addresses]

theorem addresses_succ (d : MyDevice) (n : ℕ) :
    addresses d (n + 1) = addresses d n ++ [d.memBase + UInt32.ofNat n] := by
  simp [addresses, List.range_succ]

/-- An address in or right behind a window that does not wrap. -/
theorem toNat_address {n : ℕ} (h : d.memBase.toNat + n < 2 ^ 32) :
    (d.memBase + UInt32.ofNat n).toNat = d.memBase.toNat + n := by
  rw [UInt32.toNat_add, UInt32.toNat_ofNat', Nat.add_mod_mod, Nat.mod_eq_of_lt h]

theorem address_succ (d : MyDevice) (n : ℕ) :
    d.memBase + UInt32.ofNat n + 1 = d.memBase + UInt32.ofNat (n + 1) := by
  rw [UInt32.add_assoc, UInt32.ofNat_add]
  rfl

/-! ## One byte -/

/-- From the start of a row the first byte of it is next. -/
theorem runsTo_row (hw : 0 < w) (h : RunsTo (step d w) next ⟨.print, a, 0, reads⟩ t) :
    RunsTo (step d w) next ⟨.row, a, i, reads⟩ t := by
  refine .step rfl rfl (.step rfl ?_ h)
  simp [step, hw]

/-- A byte after which the loops go on : the next byte is in the same row or in a new one. -/
theorem runsTo_print (hw : 0 < w) (hle : a + 1 ≤ d.memBase + d.memSize) (i : UInt32)
    (reads : List UInt32) :
    ∃ i', ∀ t, RunsTo (step d w) next ⟨.print, a + 1, i', reads ++ [a]⟩ t →
      RunsTo (step d w) next ⟨.print, a, i, reads⟩ t := by
  have hcheck : step d w ⟨.check, a + 1, i, reads ++ [a]⟩ () =
      some ⟨.test, a + 1, i + 1, reads ++ [a]⟩ := by
    simp [step, UInt32.not_lt.2 hle]
  by_cases hi : (i + 1).toNat < w
  · refine ⟨i + 1, fun t h => .step rfl rfl (.step rfl hcheck (.step rfl ?_ h))⟩
    simp only [step, if_pos hi]
  · refine ⟨0, fun t h => .step rfl rfl (.step rfl hcheck (.step rfl ?_
      (runsTo_row (i := i + 1) hw h)))⟩
    simp only [step, if_neg hi]

/-- A byte after which they return. -/
theorem runsTo_last (hlt : d.memBase + d.memSize < a + 1) :
    RunsTo (step d w) next ⟨.print, a, i, reads⟩ ⟨.returned, a + 1, i, reads ++ [a]⟩ := by
  refine .step rfl rfl (.step rfl ?_ (.halt rfl))
  simp [step, hlt]

/-! ## The whole dump -/

/-- The comparison of line 91 after the byte `n` of a window that does not wrap. -/
theorem end_lt_iff {n : ℕ} (hn : d.memBase.toNat + (n + 1) < 2 ^ 32)
    (hend : d.memBase.toNat + d.memSize.toNat < 2 ^ 32) :
    d.memBase + d.memSize < d.memBase + UInt32.ofNat n + 1 ↔ d.memSize.toNat < n + 1 := by
  have hsize := toNat_address hend
  rw [UInt32.ofNat_toNat] at hsize
  rw [address_succ, UInt32.lt_iff_toNat_lt, hsize, toNat_address hn]
  omega

/-- With `n` bytes of the window read and `k` to go. -/
theorem runsTo_window (hw : 0 < w) {k n : ℕ} (hn : n + k = d.memSize.toNat)
    (hend : d.memBase.toNat + d.memSize.toNat + 1 < 2 ^ 32) (i : UInt32) :
    ∃ t, RunsTo (step d w) next ⟨.print, d.memBase + UInt32.ofNat n, i, addresses d n⟩ t ∧
      t.reads = addresses d (d.memSize.toNat + 1) := by
  induction k generalizing n i with
  | zero =>
    subst hn
    refine ⟨_, runsTo_last ?_, (addresses_succ d _).symm⟩
    exact (end_lt_iff hend (by omega)).2 (Nat.lt_succ_self _)
  | succ k ih =>
    have hle : d.memBase + UInt32.ofNat n + 1 ≤ d.memBase + d.memSize := by
      rw [← UInt32.not_lt, end_lt_iff (by omega) (by omega)]
      omega
    obtain ⟨i', hnext⟩ := runsTo_print hw hle i (addresses d n)
    obtain ⟨t, ht, hreads⟩ := ih (n := n + 1) (by omega) i'
    rw [← address_succ, addresses_succ] at ht
    exact ⟨t, hnext t ht, hreads⟩

/-- What the loops read : the window and the byte behind it. -/
theorem dump_reads (hw : 0 < w) (hend : d.memBase.toNat + d.memSize.toNat + 1 < 2 ^ 32)
    (i : UInt32) : ∃ t, RunsTo (step d w) next (start d i) t ∧
      t.reads = addresses d (d.memSize.toNat + 1) := by
  obtain ⟨t, ht, hreads⟩ := runsTo_window (n := 0) hw (Nat.zero_add _) hend 0
  refine ⟨t, runsTo_row hw ?_, hreads⟩
  simpa [addresses] using ht

/-- Behind a window that ends at the last address but one the pointer wraps. -/
theorem dump_never_returns (hend : d.memBase.toNat + d.memSize.toNat + 1 = 2 ^ 32)
    (hs : s.pc ≠ .returned) : ¬RunsTo (step d w) next s t := by
  intro h
  induction h with
  | halt h => simp [next, hs] at h
  | @step s t u _ hnext hstep hrest ih =>
    refine ih ?_
    unfold step at hstep
    split at hstep
    case h_1 => cases hstep; simp
    case h_2 => cases hstep; dsimp only; split_ifs <;> simp
    case h_3 => cases hstep; simp
    case h_4 =>
      have hmax : ¬s.memAddr > d.memBase + d.memSize := by
        have hlast := toNat_address (d := d) (n := d.memSize.toNat) (by omega)
        rw [UInt32.ofNat_toNat] at hlast
        have := s.memAddr.toNat_lt
        rw [gt_iff_lt, UInt32.lt_iff_toNat_lt, hlast]
        omega
      rw [if_neg hmax] at hstep
      cases hstep
      simp
    case h_5 => cases hstep

/-- For every window that does not wrap, wherever it is mapped, and every
width of a row, the loops do not read it as they should : they read the byte behind it as
well, or never return. -/
theorem never_reads_window (d : MyDevice) (w : ℕ) (i : UInt32)
    (hend : d.memBase.toNat + d.memSize.toNat < 2 ^ 32) (hw : 1 ≤ w) : ¬ReadsWindow d w i := by
  rintro ⟨t, ht, hreads⟩
  rcases Nat.lt_or_ge (d.memBase.toNat + d.memSize.toNat + 1) (2 ^ 32) with hlt | hge
  · obtain ⟨u, hu, hmore⟩ := dump_reads hw hlt i
    rw [ht.unique hu, hmore] at hreads
    simpa [length_addresses] using congrArg List.length hreads
  · exact dump_never_returns (by omega) (by simp [start]) ht

/-- The window of a device, at an address `mmap` may return. -/
theorem never_reads_window_page : ¬ReadsWindow ⟨0xb6f00000, 0x1000⟩ 40 0 :=
  never_reads_window _ _ _ (by decide) (by decide)

/-- The dump of a page reads the byte behind the page. -/
theorem dump_reads_behind_page :
    (∃ t, RunsTo (step ⟨0xb6f00000, 0x1000⟩ 40) next (start ⟨0xb6f00000, 0x1000⟩ 0) t ∧
      0xb6f01000 ∈ t.reads) ∧ ¬ReadsWindow ⟨0xb6f00000, 0x1000⟩ 40 0 := by
  obtain ⟨t, ht, hreads⟩ := dump_reads (d := ⟨0xb6f00000, 0x1000⟩) (w := 40) (by decide)
    (by decide) 0
  have hlast : 0xb6f01000 ∈ t.reads := by
    rw [hreads]
    exact List.mem_map.2 ⟨0x1000, List.mem_range.2 (by decide), by decide⟩
  refine ⟨⟨t, ht, hlast⟩, ?_⟩
  rintro ⟨u, hu, hwindow⟩
  rw [hu.unique ht, hreads] at hwindow
  simpa [length_addresses] using congrArg List.length hwindow

end Dump

end ProCamp
