import ProCamp.Machine
import ProCamp.Mmap

/-!
# Faults after a mapping is split

The kernel cuts a mapping where an `munmap` or an `mprotect` begins or ends inside it. The
part above the cut gets the page offset of its first page, `vm_pgoff + k` for a cut at page
`k`, and the same `vm_ops`; the parts stay apart, as areas with a `close` method are not
merged.

`vm_fault` tells the two areas of the module apart by the `vm_pgoff` of the part. In a
mapping at offset 0, that is 0 in the part with the first page only. `fault_after_split_iff`
says that a fault in any other part returns 0 without a page.
-/

namespace ProCamp

open Machine

variable {ps : PageSize}

namespace Vma

/-- The address is in the area. -/
def Contains (vma : Vma ps) (address : ℕ) : Prop :=
  vma.vmStart ≤ address ∧ address < vma.vmEnd

/-- `split_vma` where the page begins inside the area. -/
def splitAt (page : ℕ) (vma : Vma ps) : List (Vma ps) :=
  if h : vma.vmStart < page * ps.size ∧ page * ps.size < vma.vmEnd then
    [{ vma with
        vmEnd := page * ps.size
        end_dvd := Nat.dvd_mul_left ..
        start_lt := h.1 },
      { vma with
        vmStart := page * ps.size
        vmPgoff := vma.vmPgoff + (page * ps.size - vma.vmStart) / ps.size
        start_dvd := Nat.dvd_mul_left ..
        start_lt := h.2 }]
  else [vma]

end Vma

/-- A call on the pages from `first` to before `last`. -/
inductive MapAct where
  | munmap (first last : ℕ)
  | mprotect (first last : ℕ)

/-- The areas cut where the page begins. -/
def splitAreas (page : ℕ) (areas : List (Vma ps)) : List (Vma ps) :=
  areas.flatMap (Vma.splitAt page)

/-- The areas left of a mapping after a call. -/
def mapStep (areas : List (Vma ps)) : MapAct → Option (List (Vma ps))
  | .mprotect first last => some (splitAreas last (splitAreas first areas))
  | .munmap first last =>
    some ((splitAreas last (splitAreas first areas)).filter fun v =>
      ¬(first * ps.size ≤ v.vmStart ∧ v.vmEnd ≤ last * ps.size))

/-- `v` is what is left of a part of `vma`. -/
structure SubArea (vma v : Vma ps) : Prop where
  start_le : vma.vmStart ≤ v.vmStart
  end_le : v.vmEnd ≤ vma.vmEnd
  pgoff : v.vmPgoff = vma.vmPgoff + (v.vmStart - vma.vmStart) / ps.size

/-- A fault at the address gets the page it would have got before `vma` was split, and does
not report success without one. -/
def FaultsAsBefore (m : MmapAreas) (vma v : Vma ps) (address : ℕ) : Prop :=
  vmFault m v (v.faultPgoff address) = vmFault m vma (vma.faultPgoff address) ∧
    ((vmFault m v (v.faultPgoff address)).1 = 0 → (vmFault m v (v.faultPgoff address)).2.isSome)

variable {m : MmapAreas} {vma v w : Vma ps} {areas : List (Vma ps)} {page address : ℕ}

/-! ## Splitting -/

theorem SubArea.refl (vma : Vma ps) : SubArea vma vma :=
  ⟨le_rfl, le_rfl, by simp⟩

/-- Distances between pages add up. -/
theorem div_add_div_pages {a b c : ℕ} (ha : ps.size ∣ a) (hb : ps.size ∣ b) (hab : a ≤ b)
    (hbc : b ≤ c) : (b - a) / ps.size + (c - b) / ps.size = (c - a) / ps.size := by
  obtain ⟨k, hk⟩ := Nat.dvd_sub hb ha
  have hsum : c - a = ps.size * k + (c - b) := by omega
  rw [hsum, hk, Nat.mul_add_div ps.size_pos, Nat.mul_div_cancel_left _ ps.size_pos]

theorem SubArea.splitAt (h : SubArea vma v) (hw : w ∈ v.splitAt page) : SubArea vma w := by
  obtain ⟨hstart, hend, hpgoff⟩ := h
  unfold Vma.splitAt at hw
  split_ifs at hw with hinside
  · rcases List.mem_pair.1 hw with rfl | rfl
    · exact ⟨hstart, hinside.2.le.trans hend, hpgoff⟩
    · refine ⟨hstart.trans hinside.1.le, hend, ?_⟩
      rw [hpgoff, Nat.add_assoc, div_add_div_pages vma.start_dvd v.start_dvd hstart hinside.1.le]
  · rw [List.mem_singleton.1 hw]
    exact ⟨hstart, hend, hpgoff⟩

/-- Cutting an area leaves every address in one of its parts. -/
theorem exists_mem_splitAt (page : ℕ) (v : Vma ps) (address : ℕ) :
    (∃ w ∈ v.splitAt page, w.Contains address) ↔ v.Contains address := by
  unfold Vma.splitAt
  split_ifs with hinside
  · simp only [List.mem_cons, List.not_mem_nil, or_false, exists_eq_or_imp, exists_eq_left,
      Vma.Contains]
    omega
  · simp

theorem exists_mem_splitAreas (page : ℕ) (areas : List (Vma ps)) (address : ℕ) :
    (∃ w ∈ splitAreas page areas, w.Contains address) ↔ ∃ v ∈ areas, v.Contains address := by
  simp only [splitAreas, List.mem_flatMap]
  constructor
  · rintro ⟨w, ⟨v, hv, hw⟩, hx⟩
    exact ⟨v, hv, (exists_mem_splitAt page v address).1 ⟨w, hw, hx⟩⟩
  · rintro ⟨v, hv, hx⟩
    obtain ⟨w, hw, hx'⟩ := (exists_mem_splitAt page v address).2 hx
    exact ⟨w, ⟨v, hv, hw⟩, hx'⟩

/-- No part lies across the cut, and a part stays a part of what was cut. -/
theorem of_mem_splitAt (hw : w ∈ v.splitAt page) :
    ¬(w.vmStart < page * ps.size ∧ page * ps.size < w.vmEnd) ∧
      v.vmStart ≤ w.vmStart ∧ w.vmEnd ≤ v.vmEnd := by
  unfold Vma.splitAt at hw
  split_ifs at hw with hinside
  · rcases List.mem_pair.1 hw with rfl | rfl <;> simp only <;> omega
  · rw [List.mem_singleton.1 hw]
    exact ⟨hinside, le_rfl, le_rfl⟩

/-- Unmapping takes out the addresses it is about. -/
theorem exists_mem_munmap (first last : ℕ) (areas : List (Vma ps)) (address : ℕ) :
    (∃ v ∈ (splitAreas last (splitAreas first areas)).filter fun v =>
      ¬(first * ps.size ≤ v.vmStart ∧ v.vmEnd ≤ last * ps.size), v.Contains address) ↔
      (∃ v ∈ areas, v.Contains address) ∧
        ¬(first * ps.size ≤ address ∧ address < last * ps.size) := by
  rw [← exists_mem_splitAreas first areas address,
    ← exists_mem_splitAreas last (splitAreas first areas) address]
  -- a part is in the range as soon as one of its addresses is
  have hpart : ∀ v ∈ splitAreas last (splitAreas first areas), v.Contains address →
      ((first * ps.size ≤ v.vmStart ∧ v.vmEnd ≤ last * ps.size) ↔
        first * ps.size ≤ address ∧ address < last * ps.size) := by
    rintro v hv ⟨hlo, hhi⟩
    obtain ⟨u, hu, hv⟩ := List.mem_flatMap.1 hv
    obtain ⟨w, -, hu⟩ := List.mem_flatMap.1 hu
    obtain ⟨hlast, hstart, hend⟩ := of_mem_splitAt hv
    obtain ⟨hfirst, -⟩ := of_mem_splitAt hu
    omega
  constructor
  · rintro ⟨v, hv, hx⟩
    obtain ⟨hv, hkeep⟩ := List.mem_filter.1 hv
    exact ⟨⟨v, hv, hx⟩, fun hin => by simp [(hpart v hv hx).2 hin] at hkeep⟩
  · rintro ⟨⟨v, hv, hx⟩, hout⟩
    refine ⟨v, List.mem_filter.2 ⟨hv, ?_⟩, hx⟩
    exact decide_eq_true fun hin => hout ((hpart v hv hx).1 hin)

theorem subArea_splitAreas (h : ∀ v ∈ areas, SubArea vma v) :
    ∀ w ∈ splitAreas page areas, SubArea vma w := by
  intro w hw
  obtain ⟨v, hv, hw⟩ := List.mem_flatMap.1 hw
  exact (h v hv).splitAt hw

theorem subArea_mapStep {act : MapAct} {areas' : List (Vma ps)} (h : ∀ v ∈ areas, SubArea vma v)
    (hstep : mapStep areas act = some areas') : ∀ v ∈ areas', SubArea vma v := by
  have hsplit : ∀ first last, ∀ v ∈ splitAreas last (splitAreas first areas), SubArea vma v :=
    fun _ _ => subArea_splitAreas (subArea_splitAreas h)
  cases act with
  | mprotect first last =>
    obtain rfl := Option.some.inj hstep
    exact hsplit first last
  | munmap first last =>
    obtain rfl := Option.some.inj hstep
    exact fun v hv => hsplit first last v (List.mem_filter.1 hv).1

/-- A call leaves an address mapped unless it is an unmapping about it. -/
theorem exists_mem_mapStep {act : MapAct} {areas' : List (Vma ps)}
    (hstep : mapStep areas act = some areas') (address : ℕ) :
    (∃ v ∈ areas', v.Contains address) ↔ (∃ v ∈ areas, v.Contains address) ∧
      ∀ first last, act = .munmap first last →
        ¬(first * ps.size ≤ address ∧ address < last * ps.size) := by
  cases act with
  | mprotect first last =>
    obtain rfl := Option.some.inj hstep
    rw [exists_mem_splitAreas, exists_mem_splitAreas]
    simp
  | munmap first last =>
    obtain rfl := Option.some.inj hstep
    rw [exists_mem_munmap]
    refine and_congr_right fun _ => ⟨?_, fun hall => hall first last rfl⟩
    rintro hout _ _ ⟨⟩
    exact hout

/-- After a run, an address is mapped if it was and no unmapping was about it. -/
theorem exists_mem_exec {as : List MapAct} {areas' : List (Vma ps)}
    (hrun : exec mapStep areas as = some areas') (address : ℕ) :
    (∃ v ∈ areas', v.Contains address) ↔ (∃ v ∈ areas, v.Contains address) ∧
      ∀ first last, .munmap first last ∈ as →
        ¬(first * ps.size ≤ address ∧ address < last * ps.size) := by
  induction as generalizing areas with
  | nil =>
    obtain rfl := Option.some.inj hrun
    simp
  | cons act as ih =>
    obtain ⟨u, hu, hrest⟩ := exec_cons_eq_some.1 hrun
    rw [ih hrest, exists_mem_mapStep hu, and_assoc]
    refine and_congr_right fun _ => ?_
    simp only [List.mem_cons, or_imp, forall_and, eq_comm]

/-! ## Faults -/

/-- The page of the file a fault is at does not depend on the splitting. -/
theorem SubArea.faultPgoff (h : SubArea vma v) (hx : v.Contains address) :
    v.faultPgoff address = vma.faultPgoff address := by
  rw [Vma.faultPgoff, Vma.faultPgoff, h.pgoff, Nat.add_assoc,
    div_add_div_pages vma.start_dvd v.start_dvd h.start_le hx.1]

/-- Of the parts of a mapping at offset 0, only the one with its first page is at offset 0,
and none is at `NPAGES`. -/
theorem SubArea.vmPgoff_iff (h : SubArea vma v) (hzero : vma.vmPgoff = 0)
    (hlen : vma.length ≤ npages * ps.size) :
    (v.vmPgoff = 0 ↔ v.vmStart = vma.vmStart) ∧ v.vmPgoff ≠ npages := by
  have hpos := ps.size_pos
  have hlt := v.start_lt
  have hend := h.end_le
  obtain ⟨k, hk⟩ := Nat.dvd_sub v.start_dvd vma.start_dvd
  have hpgoff : v.vmPgoff = k := by
    rw [h.pgoff, hzero, hk, Nat.zero_add, Nat.mul_div_cancel_left _ hpos]
  have hstart := h.start_le
  constructor
  · rw [hpgoff]
    constructor
    · rintro rfl
      omega
    · intro heq
      rw [heq, Nat.sub_self] at hk
      exact (Nat.mul_eq_zero.1 hk.symm).resolve_left hpos.ne'
  · rintro hn
    rw [hpgoff] at hn
    rw [hn, Nat.mul_comm] at hk
    unfold Vma.length at hlen
    omega

theorem faultsAsBefore_iff (h : SubArea vma v) (hzero : vma.vmPgoff = 0)
    (hlen : vma.length ≤ npages * ps.size) (hx : v.Contains address) :
    FaultsAsBefore m vma v address ↔ v.vmStart = vma.vmStart := by
  obtain ⟨hfirst, hpages⟩ := h.vmPgoff_iff hzero hlen
  rw [← hfirst, FaultsAsBefore, h.faultPgoff hx]
  by_cases hv : v.vmPgoff = 0
  · simp [vmFault, hv, hzero]
  · simp [vmFault, hv, hpages]

/-- For a mapping accepted at offset 0 and any sequence of partial unmappings and
protection changes : the addresses still mapped are those no unmapping was about, and a
fault at one of them gets the page it would have got before if and only if the part it is
in begins with the first page of the mapping. -/
theorem fault_after_split_iff (m : MmapAreas) (hmap : mmapMmap vma = 0) (hzero : vma.vmPgoff = 0)
    {as : List MapAct} (hrun : exec mapStep [vma] as = some areas) (address : ℕ) :
    ((∃ v ∈ areas, v.Contains address) ↔ vma.Contains address ∧ ∀ first last,
      .munmap first last ∈ as → ¬(first * ps.size ≤ address ∧ address < last * ps.size)) ∧
      ∀ v ∈ areas, v.Contains address →
        (FaultsAsBefore m vma v address ↔ v.vmStart = vma.vmStart) := by
  have hsub : ∀ v ∈ areas, SubArea vma v := by
    refine exec_invariant_of_step (I := fun areas => ∀ v ∈ areas, SubArea vma v) ?_ ?_ hrun
    · exact fun areas act areas' h hstep => subArea_mapStep h hstep
    · intro v hv
      rw [List.mem_singleton.1 hv]
      exact SubArea.refl vma
  refine ⟨by simpa using exists_mem_exec hrun address, fun v hv hx => ?_⟩
  exact faultsAsBefore_iff (hsub v hv) hzero (mmapMmap_eq_zero hmap).2 hx

/-- One page of the vmalloc area, of the mapping of two. -/
def onePage (start pgoff : ℕ) (hstart : page4k.size ∣ start) : Vma page4k :=
  ⟨start, start + page4k.size, pgoff, hstart, Nat.dvd_add hstart dvd_rfl,
    Nat.lt_add_of_pos_right page4k.size_pos⟩

/-- Of two pages the second is unmapped; the first faults as before. -/
theorem fault_after_split_first :
    exec mapStep [twoPages 0] [.munmap 9 10] = some [onePage 0x8000 0 (by decide)] ∧
      FaultsAsBefore ⟨0x1000, 0x100000⟩ (twoPages 0) (onePage 0x8000 0 (by decide)) 0x8abc := by
  have hmap : mmapMmap (twoPages 0) = 0 := rfl
  have hrun : exec mapStep [twoPages 0] [.munmap 9 10] = some [onePage 0x8000 0 (by decide)] := rfl
  obtain ⟨-, hfaults⟩ := fault_after_split_iff ⟨0x1000, 0x100000⟩ hmap rfl hrun 0x8abc
  refine ⟨hrun, (hfaults _ (List.mem_singleton.2 rfl) ?_).2 rfl⟩
  unfold Vma.Contains
  decide

/-- The first is unmapped, or only its protection is changed : a fault in the second is at
page offset 1, and returns 0 without a page. -/
theorem second_page_lost :
    mmapMmap (twoPages 0) = 0 ∧
      exec mapStep [twoPages 0] [.munmap 8 9] = some [onePage 0x9000 1 (by decide)] ∧
      exec mapStep [twoPages 0] [.mprotect 8 9] =
        some [onePage 0x8000 0 (by decide), onePage 0x9000 1 (by decide)] ∧
      (onePage 0x9000 1 (by decide)).Contains 0x9000 ∧
      vmFault ⟨0x1000, 0x100000⟩ (onePage 0x9000 1 (by decide)) 1 = (0, none) ∧
      ¬FaultsAsBefore ⟨0x1000, 0x100000⟩ (twoPages 0) (onePage 0x9000 1 (by decide)) 0x9000 := by
  have hlost : vmFault ⟨0x1000, 0x100000⟩ (onePage 0x9000 1 (by decide)) 1 = (0, none) := rfl
  refine ⟨rfl, rfl, rfl, ?_, hlost, fun h => ?_⟩
  · unfold Vma.Contains
    decide
  · exact Bool.false_ne_true (h.2 rfl)

end ProCamp
