import Mathlib.Data.Nat.Basic
import Mathlib.Logic.Function.Basic
import Mathlib.Tactic.Ring
import ProCamp.Kernel

/-!
# Two areas mapped to user space

The module of `HW8/mmap.c` : `mymmap_init` allocates `NPAGES` pages with `kmalloc` and as
many with `vmalloc` and fills both with a pattern, `mmap_mmap` accepts a mapping of the
one at file page offset `NPAGES` and of the other at 0, and `vm_fault` hands out a page
at a time.

Memory is the `int` at each kernel virtual address that is a multiple of 4. A page is
the frame of kernel virtual addresses it is reached at, which is what `virt_to_page` and
`vmalloc_to_page` find from an address. The kernel's promises about the two allocations
are the fields of `InitCalls`.

`mapped_contents_iff` : the process reads the pattern, from pages of the right area,
exactly in the mappings at offset 0. At offset `NPAGES` the fault handler adds the file
page to the area instead of the page of the mapping, and leaves the area.
-/

namespace ProCamp

/-- `PAGE_SIZE`, a power of 2 that holds an `int`. -/
structure PageSize where
  shift : ℕ
  two_le : 2 ≤ shift

namespace PageSize

variable (ps : PageSize)

/-- `PAGE_SIZE`. -/
def size : ℕ :=
  2 ^ ps.shift

/-- `(x + PAGE_SIZE - 1) & PAGE_MASK`. -/
def roundUp (x : ℕ) : ℕ :=
  (x + ps.size - 1) / ps.size * ps.size

theorem size_pos : 0 < ps.size :=
  Nat.two_pow_pos _

theorem four_dvd_size : 4 ∣ ps.size :=
  Nat.pow_dvd_pow 2 ps.two_le

theorem le_roundUp (x : ℕ) : x ≤ ps.roundUp x := by
  have hpos := ps.size_pos
  have hmod := Nat.div_add_mod (x + ps.size - 1) ps.size
  have hlt := Nat.mod_lt (x + ps.size - 1) hpos
  rw [Nat.mul_comm] at hmod
  unfold roundUp
  omega

theorem roundUp_lt (x : ℕ) : ps.roundUp x < x + ps.size := by
  have hpos := ps.size_pos
  have hle := Nat.div_mul_le_self (x + ps.size - 1) ps.size
  unfold roundUp
  omega

end PageSize

/-- `NPAGES`. -/
def npages : ℕ := 16

/-- The `int` at each address. -/
abbrev Memory :=
  ℕ → UInt32

/-- What the calls of `mymmap_init` return. -/
structure InitCalls (ps : PageSize) where
  kmalloc : Option ℕ
  vmalloc : Option ℕ
  allocChrdevRegion : ℤ
  cdevAdd : ℤ
  /-- `vmalloc` returns whole pages. -/
  aligned : ∀ v, vmalloc = some v → ps.size ∣ v
  /-- The two allocations are apart. -/
  apart : ∀ k v, kmalloc = some k → vmalloc = some v →
    k + (npages + 2) * ps.size ≤ v ∨ v + npages * ps.size ≤ k

/-- The two areas of the module. -/
structure MmapAreas where
  kmallocArea : ℕ
  vmallocArea : ℕ

variable {ps : PageSize}

/-- `area[i] = (hi << 16) + i` and `area[i + 1] = (0xbeef << 16) + i`. -/
def storePair (area : ℕ) (hi : UInt32) (i : ℕ) (mem : Memory) : Memory :=
  Function.update
    (Function.update mem (area + 4 * i) ((hi <<< 16) + UInt32.ofNat i))
    (area + 4 * (i + 1)) (((0xbeef : UInt32) <<< 16) + UInt32.ofNat i)

namespace MmapAreas

/-- Lines 214 to 219, the first `rounds` rounds. The `int` that counts them stays below
the number of `int`s in an area. -/
def fill (m : MmapAreas) : ℕ → Memory → Memory
  | 0, mem => mem
  | rounds + 1, mem =>
    storePair m.kmallocArea 0xdead (2 * rounds)
      (storePair m.vmallocArea 0xaffe (2 * rounds) (m.fill rounds mem))

end MmapAreas

/-- `NPAGES * PAGE_SIZE / sizeof(int)`. -/
def areaInts (ps : PageSize) : ℕ :=
  npages * ps.size / 4

/-- `mymmap_init` : its error, or the areas and the memory it leaves. -/
def mymmapInit (calls : InitCalls ps) (mem : Memory) : Except ℤ (MmapAreas × Memory) :=
  match calls.kmalloc with
  | none => .error (-eNoMem)
  | some kmallocPtr =>
    match calls.vmalloc with
    | none => .error (-eNoMem)
    | some vmallocArea =>
      if calls.allocChrdevRegion < 0 then .error calls.allocChrdevRegion
      else if calls.cdevAdd < 0 then .error calls.cdevAdd
      else
        let m : MmapAreas := ⟨ps.roundUp kmallocPtr, vmallocArea⟩
        .ok (m, m.fill ((areaInts ps + 1) / 2) mem)

/-- `struct vm_area_struct`, of whole pages. -/
structure Vma (ps : PageSize) where
  vmStart : ℕ
  vmEnd : ℕ
  vmPgoff : ℕ
  start_dvd : ps.size ∣ vmStart
  end_dvd : ps.size ∣ vmEnd
  start_lt : vmStart < vmEnd

/-- The length of the mapping. -/
def Vma.length (vma : Vma ps) : ℕ :=
  vma.vmEnd - vma.vmStart

/-- `mmap_kmem`. -/
def mmapKmem (vma : Vma ps) : ℤ :=
  if vma.length > npages * ps.size then -eIo else 0

/-- `mmap_vmem`. -/
def mmapVmem (vma : Vma ps) : ℤ :=
  if vma.length > npages * ps.size then -eIo else 0

/-- `mmap_mmap`. -/
def mmapMmap (vma : Vma ps) : ℤ :=
  if vma.vmPgoff = 0 then mmapVmem vma
  else if vma.vmPgoff = npages then mmapKmem vma
  else -eIo

/-- `struct page`, by the frame of kernel virtual addresses it is reached at. -/
structure Page where
  frame : ℕ
  deriving DecidableEq

/-- `virt_to_page`. -/
def virtToPage (ps : PageSize) (address : ℕ) : Page :=
  ⟨address / ps.size⟩

/-- `vmalloc_to_page`. -/
def vmallocToPage (ps : PageSize) (address : ℕ) : Page :=
  ⟨address / ps.size⟩

/-- `vm_fault` : its result and the `vmf->page` it leaves. -/
def vmFault (m : MmapAreas) (vma : Vma ps) (pgoff : ℕ) : ℤ × Option Page :=
  let page :=
    if vma.vmPgoff = npages then some (virtToPage ps (m.kmallocArea + ps.size * pgoff)) else none
  let page :=
    if vma.vmPgoff = 0 then some (vmallocToPage ps (m.vmallocArea + ps.size * pgoff)) else page
  (0, page)

/-- `vmf->pgoff` of a fault at `address`. -/
def Vma.faultPgoff (vma : Vma ps) (address : ℕ) : ℕ :=
  vma.vmPgoff + (address - vma.vmStart) / ps.size

/-- The page a fault at index `j` of the mapping is resolved with. -/
def faultedPage (m : MmapAreas) (vma : Vma ps) (j : ℕ) : Option Page :=
  (vmFault m vma (vma.faultPgoff (vma.vmStart + 4 * j))).2

/-- The `int` the process then reads there. -/
def userWord (m : MmapAreas) (mem : Memory) (vma : Vma ps) (j : ℕ) : Option UInt32 :=
  (faultedPage m vma j).map fun page =>
    mem (page.frame * ps.size + (vma.vmStart + 4 * j) % ps.size)

/-- The pattern of an area at index `j`. -/
def word (base : UInt32) (j : ℕ) : UInt32 :=
  if j % 2 = 0 then base + UInt32.ofNat j else 0xbeef0000 + UInt32.ofNat (j - 1)

/-- The area a mapping is of, and what it holds at even indices. -/
def MmapAreas.mapped (m : MmapAreas) (vma : Vma ps) : ℕ × UInt32 :=
  if vma.vmPgoff = 0 then (m.vmallocArea, 0xaffe0000) else (m.kmallocArea, 0xdead0000)

/-- The page is one of the `NPAGES` pages from `area`. -/
def InArea (ps : PageSize) (area : ℕ) (page : Page) : Prop :=
  area ≤ page.frame * ps.size ∧ (page.frame + 1) * ps.size ≤ area + npages * ps.size

/-- At each index of the mapping the process reads the pattern, on a page of the area. -/
def MappedContents (m : MmapAreas) (mem : Memory) (vma : Vma ps) : Prop :=
  ∀ j, j < vma.length / 4 →
    userWord m mem vma j = some (word (m.mapped vma).2 j) ∧
      ∃ page, faultedPage m vma j = some page ∧ InArea ps (m.mapped vma).1 page

variable {m : MmapAreas} {mem mem' : Memory} {vma : Vma ps} {area other : ℕ} {hi : UInt32}

/-! ## The fill loop -/

theorem storePair_even (area : ℕ) (hi : UInt32) (i : ℕ) (mem : Memory) :
    storePair area hi i mem (area + 4 * i) = (hi <<< 16) + UInt32.ofNat i := by
  unfold storePair
  rw [Function.update_of_ne (by omega), Function.update_self]

theorem storePair_odd (area : ℕ) (hi : UInt32) (i : ℕ) (mem : Memory) :
    storePair area hi i mem (area + 4 * (i + 1)) = 0xbeef0000 + UInt32.ofNat i := by
  unfold storePair
  rw [Function.update_self]
  rfl

theorem storePair_of_ne {i address : ℕ} (h : address ≠ area + 4 * i)
    (h' : address ≠ area + 4 * (i + 1)) : storePair area hi i mem address = mem address := by
  unfold storePair
  rw [Function.update_of_ne h', Function.update_of_ne h]

/-- The first `n` `int`s of an area hold its pattern. -/
def Filled (area : ℕ) (hi : UInt32) (n : ℕ) (mem : Memory) : Prop :=
  ∀ j, j < n → mem (area + 4 * j) = word (hi <<< 16) j

/-- A round adds two `int`s to its own area. -/
theorem Filled.storePair_self {rounds : ℕ} (h : Filled area hi (2 * rounds) mem) :
    Filled area hi (2 * (rounds + 1)) (storePair area hi (2 * rounds) mem) := by
  intro j hj
  obtain hlt | rfl | rfl : j < 2 * rounds ∨ j = 2 * rounds ∨ j = 2 * rounds + 1 := by omega
  · rw [storePair_of_ne (by omega) (by omega), h j hlt]
  · rw [storePair_even, word, if_pos (by omega)]
  · rw [storePair_odd, word, if_neg (by omega), Nat.add_sub_cancel]

/-- It leaves an area apart from it alone. -/
theorem Filled.storePair_other {n i : ℕ} (h : Filled area hi n mem) {hi' : UInt32}
    (hapart : area + 4 * n ≤ other ∨ other + 4 * (i + 2) ≤ area) :
    Filled area hi n (storePair other hi' i mem) := by
  intro j hj
  rw [storePair_of_ne (by omega) (by omega), h j hj]

/-- The areas do not share an `int`. -/
def MmapAreas.Apart (m : MmapAreas) (n : ℕ) : Prop :=
  m.vmallocArea + 4 * n ≤ m.kmallocArea ∨ m.kmallocArea + 4 * n ≤ m.vmallocArea

theorem filled_fill {rounds n : ℕ} (hapart : m.Apart n) (hn : 2 * rounds ≤ n) (mem : Memory) :
    Filled m.vmallocArea 0xaffe (2 * rounds) (m.fill rounds mem) ∧
      Filled m.kmallocArea 0xdead (2 * rounds) (m.fill rounds mem) := by
  unfold MmapAreas.Apart at hapart
  induction rounds with
  | zero => exact ⟨fun j hj => by omega, fun j hj => by omega⟩
  | succ rounds ih =>
    obtain ⟨hv, hk⟩ := ih (by omega)
    refine ⟨hv.storePair_self.storePair_other (by omega), ?_⟩
    exact (hk.storePair_other (by omega)).storePair_self

/-! ## The areas of a loaded module -/

theorem areaInts_eq (ps : PageSize) : 4 * areaInts ps = npages * ps.size := by
  unfold areaInts
  exact Nat.mul_div_cancel' (Nat.dvd_mul_left_of_dvd ps.four_dvd_size _)

/-- What `mymmap_init` leaves when it succeeds. -/
theorem mymmapInit_ok {calls : InitCalls ps} (h : mymmapInit calls mem = .ok (m, mem')) :
    ps.size ∣ m.vmallocArea ∧ ps.size ∣ m.kmallocArea ∧
      Filled m.vmallocArea 0xaffe (areaInts ps) mem' ∧
      Filled m.kmallocArea 0xdead (areaInts ps) mem' := by
  unfold mymmapInit at h
  split at h
  · cases h
  case h_2 kmallocPtr hkmalloc =>
    split at h
    · cases h
    case h_2 vmallocArea hvmalloc =>
      split_ifs at h
      cases h
      have hints := areaInts_eq ps
      have heven : 2 * ((areaInts ps + 1) / 2) = areaInts ps := by
        obtain ⟨k, hk⟩ := ps.four_dvd_size
        have : areaInts ps = 16 * k := by
          rw [areaInts, npages, hk, ← Nat.mul_assoc]
          omega
        omega
      have hapart : MmapAreas.Apart ⟨ps.roundUp kmallocPtr, vmallocArea⟩ (areaInts ps) := by
        have hle := ps.le_roundUp kmallocPtr
        have hlt := ps.roundUp_lt kmallocPtr
        have hsum : (npages + 2) * ps.size = npages * ps.size + 2 * ps.size := Nat.add_mul ..
        have := calls.apart _ _ hkmalloc hvmalloc
        unfold MmapAreas.Apart
        simp only
        omega
      have hfill := filled_fill hapart (Nat.le_of_eq heven) mem
      rw [heven] at hfill
      exact ⟨calls.aligned _ hvmalloc, Dvd.intro_left _ rfl, hfill⟩

/-! ## Faults -/

/-- A mapping that `mmap_mmap` accepts is of one of the areas, and not longer. -/
theorem mmapMmap_eq_zero (h : mmapMmap vma = 0) :
    (vma.vmPgoff = 0 ∨ vma.vmPgoff = npages) ∧ vma.length ≤ npages * ps.size := by
  unfold mmapMmap mmapVmem mmapKmem at h
  split_ifs at h with hzero hlen hpages hlen
  · cases h
  · exact ⟨Or.inl hzero, by omega⟩
  · cases h
  · exact ⟨Or.inr hpages, by omega⟩
  · cases h

/-- The page of the mapping that index `j` is on. -/
theorem faultPgoff_index (vma : Vma ps) (j : ℕ) :
    vma.faultPgoff (vma.vmStart + 4 * j) = vma.vmPgoff + 4 * j / ps.size := by
  rw [Vma.faultPgoff, Nat.add_sub_cancel_left]

/-- At offset 0 the fault handler resolves a page of the mapping with the page of the
vmalloc area at the same distance. -/
theorem faultedPage_zero (hzero : vma.vmPgoff = 0) (halign : ps.size ∣ m.vmallocArea) (j : ℕ) :
    ∃ page, faultedPage m vma j = some page ∧
      page.frame * ps.size = m.vmallocArea + 4 * j / ps.size * ps.size := by
  obtain ⟨w, hw⟩ := halign
  refine ⟨vmallocToPage ps (m.vmallocArea + ps.size * (4 * j / ps.size)), ?_, ?_⟩
  · simp [faultedPage, vmFault, faultPgoff_index, hzero]
  · rw [vmallocToPage, hw, ← Nat.mul_add, Nat.mul_div_cancel_left _ ps.size_pos]
    ring

/-- At offset `NPAGES` it resolves every page with one past the end of the kmalloc area. -/
theorem faultedPage_npages (hpages : vma.vmPgoff = npages) (halign : ps.size ∣ m.kmallocArea)
    (j : ℕ) :
    ∃ page, faultedPage m vma j = some page ∧
      page.frame * ps.size =
        m.kmallocArea + npages * ps.size + 4 * j / ps.size * ps.size := by
  obtain ⟨w, hw⟩ := halign
  refine ⟨virtToPage ps (m.kmallocArea + ps.size * (npages + 4 * j / ps.size)), ?_, ?_⟩
  · simp [faultedPage, vmFault, faultPgoff_index, hpages, npages]
  · rw [virtToPage, hw, ← Nat.mul_add, Nat.mul_div_cancel_left _ ps.size_pos]
    ring

/-- An index of a mapping no longer than the area is one of the area. -/
theorem index_lt (hlen : vma.length ≤ npages * ps.size) {j : ℕ} (hj : j < vma.length / 4) :
    j < areaInts ps ∧ (4 * j / ps.size + 1) * ps.size ≤ npages * ps.size := by
  have hints := areaInts_eq ps
  have hlt : 4 * j < npages * ps.size := by omega
  have hpage : 4 * j / ps.size < npages := by
    rw [Nat.div_lt_iff_lt_mul ps.size_pos]
    exact hlt
  exact ⟨by omega, Nat.mul_le_mul_right _ hpage⟩

theorem mappedContents_of_zero (hzero : vma.vmPgoff = 0)
    (hlen : vma.length ≤ npages * ps.size) (halign : ps.size ∣ m.vmallocArea)
    (hfill : Filled m.vmallocArea 0xaffe (areaInts ps) mem) : MappedContents m mem vma := by
  intro j hj
  obtain ⟨hint, hend⟩ := index_lt hlen hj
  obtain ⟨page, hpage, hframe⟩ := faultedPage_zero (m := m) hzero halign j
  have hmapped : m.mapped vma = (m.vmallocArea, 0xaffe0000) := if_pos hzero
  rw [hmapped]
  refine ⟨?_, page, hpage, ?_⟩
  · obtain ⟨c, hc⟩ := vma.start_dvd
    have hoff : (vma.vmStart + 4 * j) % ps.size = 4 * j % ps.size := by
      rw [hc, Nat.mul_add_mod]
    have haddr : page.frame * ps.size + (vma.vmStart + 4 * j) % ps.size =
        m.vmallocArea + 4 * j := by
      rw [hoff, hframe, Nat.add_assoc, Nat.div_add_mod']
    rw [userWord, hpage, Option.map_some, haddr, hfill j hint]
    rfl
  · unfold InArea
    rw [Nat.add_mul] at hend ⊢
    omega

theorem not_mappedContents_of_npages (hpages : vma.vmPgoff = npages)
    (halign : ps.size ∣ m.kmallocArea) : ¬MappedContents m mem vma := by
  intro h
  have hpos := ps.size_pos
  have hwhole : ps.size ≤ vma.length := by
    have hdvd : ps.size ∣ vma.length := Nat.dvd_sub vma.end_dvd vma.start_dvd
    exact Nat.le_of_dvd (Nat.sub_pos_of_lt vma.start_lt) hdvd
  have hfirst : 0 < vma.length / 4 := by
    have := Nat.le_of_dvd hpos ps.four_dvd_size
    omega
  obtain ⟨page, hpage, hframe⟩ := faultedPage_npages (m := m) hpages halign 0
  obtain ⟨-, page', hpage', -, hend⟩ := h 0 hfirst
  obtain rfl : page = page' := Option.some.inj (hpage.symm.trans hpage')
  have hmapped : m.mapped vma = (m.kmallocArea, 0xdead0000) := by
    rw [MmapAreas.mapped, if_neg (by rw [hpages]; decide)]
  rw [hmapped, Nat.add_mul] at hend
  simp only at hend
  omega

/-- For every page size and every mapping that is accepted, the process reads the pattern
of the area at every index, from pages of that area, exactly if the mapping is at file page
offset 0. -/
theorem mapped_contents_iff {calls : InitCalls ps} (hinit : mymmapInit calls mem = .ok (m, mem'))
    (hmap : mmapMmap vma = 0) : MappedContents m mem' vma ↔ vma.vmPgoff = 0 := by
  obtain ⟨hvalign, hkalign, hvfill, -⟩ := mymmapInit_ok hinit
  obtain ⟨hoff, hlen⟩ := mmapMmap_eq_zero hmap
  constructor
  · intro h
    rcases hoff with hzero | hpages
    · exact hzero
    · exact absurd h (not_mappedContents_of_npages hpages hkalign)
  · intro hzero
    exact mappedContents_of_zero hzero hlen hvalign hvfill

/-- Pages of 4 KiB. -/
def page4k : PageSize :=
  ⟨12, by decide⟩

/-- Every call succeeds, with the areas far apart. -/
def loadCalls : InitCalls page4k where
  kmalloc := some 0x1000
  vmalloc := some 0x100000
  allocChrdevRegion := 0
  cdevAdd := 0
  aligned v h := by
    cases h
    decide
  apart k v hk hv := by
    cases hk
    cases hv
    decide

/-- A mapping of two pages. -/
def twoPages (pgoff : ℕ) : Vma page4k :=
  ⟨0x8000, 0xa000, pgoff, by decide, by decide, by decide⟩

/-- Two pages of the vmalloc area. -/
theorem mapped_contents_vmalloc :
    ∃ m mem', mymmapInit loadCalls (fun _ => 0) = .ok (m, mem') ∧
      MappedContents m mem' (twoPages 0) := by
  have hinit : mymmapInit loadCalls (fun _ => 0) = .ok (⟨0x1000, 0x100000⟩, _) := rfl
  exact ⟨_, _, hinit, (mapped_contents_iff hinit rfl).2 rfl⟩

/-- Two pages of the kmalloc area : `mmap_mmap` accepts the mapping, and its first fault
hands out the page after the area. -/
theorem kmalloc_mapping_leaves_area :
    ∃ m mem', mymmapInit loadCalls (fun _ => 0) = .ok (m, mem') ∧
      mmapMmap (twoPages npages) = 0 ∧ ¬MappedContents m mem' (twoPages npages) ∧
      ∃ page, faultedPage m (twoPages npages) 0 = some page ∧
        ¬InArea page4k m.kmallocArea page := by
  refine ⟨⟨0x1000, 0x100000⟩, _, rfl, by decide, ?_, ⟨17⟩, rfl, ?_⟩
  · exact not_mappedContents_of_npages rfl (by decide)
  · unfold InArea
    decide

end ProCamp
