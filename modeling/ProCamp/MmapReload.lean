import ProCamp.Machine
import ProCamp.Mmap
import ProCamp.Registry

/-!
# Loading and unloading the two areas

`HW8/mmap.c` over a history of loads and unloads. `mymmap_init` gives back what it has got
where a later call fails, marks the pages of the kmalloc area reserved and fills both areas;
`mmap_exit` clears the mark of the pages of both and frees them. Meanwhile others mark pages
of their own and write to memory. A module with a file that is open is not unloaded.

`mmap_reload` : the log of the module's calls gives back nothing that it has not got, and
leaves everything with a loaded module and nothing without one; the marks are those of the
others and of whole pages in the block of the loaded module; and memory that no load was given
is as the others leave it.
-/

namespace ProCamp

open Machine Registry

/-- What `mymmap_init` gets. -/
inductive MmapResource where
  /-- The block at `kmalloc_ptr`. -/
  | kmalloc (kmallocPtr : ℕ)
  | vmalloc (vmallocArea : ℕ)
  | region
  | cdev
  deriving DecidableEq

/-- The memory, and which frames have a reserved page. -/
structure MmapWorld where
  mem : Memory
  reserved : ℕ → Bool

/-- The module, where it is loaded : `kmalloc_ptr` and the areas. -/
structure MmapHost where
  world : MmapWorld
  loaded : Option (ℕ × MmapAreas)
  /-- The calls that have got something or given it back. -/
  log : List (Act MmapResource)

/-- What happens to the host of the module. -/
inductive MmapHostAct (ps : PageSize) where
  | load (calls : InitCalls ps)
  | unload
  /-- Others set or clear the mark of a page. -/
  | mark (frame : ℕ) (reserved : Bool)
  /-- Others, or a process in a mapping, write to memory. -/
  | write (address : ℕ) (value : UInt32)

variable {ps : PageSize}

/-- `SetPageReserved` or `ClearPageReserved` in a loop over the first `k` pages of an area. -/
def markPages (ps : PageSize) (area : ℕ) (b : Bool) : ℕ → (ℕ → Bool) → ℕ → Bool
  | 0, reserved => reserved
  | k + 1, reserved =>
    Function.update (markPages ps area b k reserved) (virtToPage ps (area + k * ps.size)).frame b

/-- Lines 243 to 246. -/
def clearPages (ps : PageSize) (m : MmapAreas) : ℕ → (ℕ → Bool) → ℕ → Bool
  | 0, reserved => reserved
  | k + 1, reserved =>
    Function.update
      (Function.update (clearPages ps m k reserved)
        (vmallocToPage ps (m.vmallocArea + k * ps.size)).frame false)
      (virtToPage ps (m.kmallocArea + k * ps.size)).frame false

/-- The calls of `mymmap_init` that get something or give it back. -/
def mmapInitActs (calls : InitCalls ps) : List (Act MmapResource) :=
  match calls.kmalloc with
  | none => []
  | some kmallocPtr =>
    .register (.kmalloc kmallocPtr) ::
      match calls.vmalloc with
      | none => [.release (.kmalloc kmallocPtr)]
      | some vmallocArea =>
        .register (.vmalloc vmallocArea) ::
          if calls.allocChrdevRegion < 0 then
            [.release (.vmalloc vmallocArea), .release (.kmalloc kmallocPtr)]
          else
            .register .region ::
              if calls.cdevAdd < 0 then
                [.release .region, .release (.vmalloc vmallocArea),
                  .release (.kmalloc kmallocPtr)]
              else [.register .cdev]

/-- Those of `mmap_exit`. -/
def mmapExitActs (kmallocPtr : ℕ) (m : MmapAreas) : List (Act MmapResource) :=
  [.release .cdev, .release .region, .release (.vmalloc m.vmallocArea),
    .release (.kmalloc kmallocPtr)]

/-- The frame is of one of the first `k` pages from `area`. -/
def InFrames (ps : PageSize) (area k frame : ℕ) : Prop :=
  area / ps.size ≤ frame ∧ frame < area / ps.size + k

instance (area k frame : ℕ) : Decidable (InFrames ps area k frame) :=
  inferInstanceAs (Decidable (_ ∧ _))

/-- The module's areas have the frame. -/
def MmapAreas.HasFrame (ps : PageSize) (m : MmapAreas) (frame : ℕ) : Prop :=
  InFrames ps m.kmallocArea npages frame ∨ InFrames ps m.vmallocArea npages frame

instance (m : MmapAreas) (frame : ℕ) : Decidable (m.HasFrame ps frame) :=
  inferInstanceAs (Decidable (_ ∨ _))

/-- No page that the kernel gives out is reserved. -/
def MmapAreas.Unmarked (ps : PageSize) (m : MmapAreas) (reserved : ℕ → Bool) : Prop :=
  ∀ k < npages, reserved (m.kmallocArea / ps.size + k) = false ∧
    reserved (m.vmallocArea / ps.size + k) = false

instance (m : MmapAreas) (reserved : ℕ → Bool) : Decidable (m.Unmarked ps reserved) :=
  inferInstanceAs (Decidable (∀ k < npages, _))

namespace MmapHost

/-- No load yet. -/
def start (world : MmapWorld) : MmapHost where
  world := world
  loaded := none
  log := []

/-- `mymmap_init`. -/
def mymmapInit (calls : InitCalls ps) (s : MmapHost) : MmapHost :=
  match ProCamp.mymmapInit calls s.world.mem with
  | .error _ => { s with log := s.log ++ mmapInitActs calls }
  | .ok (m, mem) =>
    { s with
      world := ⟨mem, markPages ps m.kmallocArea true npages s.world.reserved⟩
      loaded := calls.kmalloc.map (·, m)
      log := s.log ++ mmapInitActs calls }

/-- `mmap_exit`. -/
def mmapExit (ps : PageSize) (kmallocPtr : ℕ) (m : MmapAreas) (s : MmapHost) : MmapHost where
  world := { s.world with reserved := clearPages ps m npages s.world.reserved }
  loaded := none
  log := s.log ++ mmapExitActs kmallocPtr m

/-- The pages that `mymmap_init` gets are not reserved. -/
def Fresh (calls : InitCalls ps) (s : MmapHost) : Prop :=
  ∀ r ∈ (ProCamp.mymmapInit calls s.world.mem).toOption, r.1.Unmarked ps s.world.reserved

instance (calls : InitCalls ps) (s : MmapHost) : Decidable (s.Fresh calls) :=
  inferInstanceAs (Decidable (∀ r ∈ (ProCamp.mymmapInit calls s.world.mem).toOption, _))

/-- The page is the module's. -/
def Owns (ps : PageSize) (s : MmapHost) (frame : ℕ) : Prop :=
  ∃ l ∈ s.loaded, l.2.HasFrame ps frame

instance (s : MmapHost) (frame : ℕ) : Decidable (s.Owns ps frame) :=
  inferInstanceAs (Decidable (∃ l ∈ s.loaded, _))

end MmapHost

namespace MmapWorld

/-- What others do. -/
def others (w : MmapWorld) : MmapHostAct ps → MmapWorld
  | .mark frame reserved => { w with reserved := Function.update w.reserved frame reserved }
  | .write address value => { w with mem := Function.update w.mem address value }
  | .load _ | .unload => w

end MmapWorld

namespace MmapHost

/-- One step. Others leave the marks of the module's pages alone. -/
def step (s : MmapHost) : MmapHostAct ps → Option MmapHost
  | .load calls =>
    if s.loaded.isNone ∧ s.Fresh calls then some (s.mymmapInit calls) else none
  | .unload => s.loaded.map fun l => s.mmapExit ps l.1 l.2
  | .mark frame reserved =>
    if s.Owns ps frame then none
    else some { s with
      world := { s.world with reserved := Function.update s.world.reserved frame reserved } }
  | .write address value =>
    some { s with world := { s.world with mem := Function.update s.world.mem address value } }

/-- What a loaded module has got, in order. -/
def resources (l : ℕ × MmapAreas) : List MmapResource :=
  [.kmalloc l.1, .vmalloc l.2.vmallocArea, .region, .cdev]

/-- What a log without a mistake leaves. -/
def registered (s : MmapHost) (r : MmapResource) : Bool :=
  s.loaded.any fun l => decide (r ∈ resources l)

/-- A page of the kmalloc area, where the module is loaded. -/
def Marks (ps : PageSize) (s : MmapHost) (frame : ℕ) : Prop :=
  ∃ l ∈ s.loaded, InFrames ps l.2.kmallocArea npages frame

instance (s : MmapHost) (frame : ℕ) : Decidable (s.Marks ps frame) :=
  inferInstanceAs (Decidable (∃ l ∈ s.loaded, _))

end MmapHost

/-- The whole page is in the block at `kmallocPtr`. -/
def InBlock (ps : PageSize) (kmallocPtr frame : ℕ) : Prop :=
  kmallocPtr ≤ frame * ps.size ∧ (frame + 1) * ps.size ≤ kmallocPtr + (npages + 2) * ps.size

/-- A load is given the memory at an address. -/
def InitCalls.Given (calls : InitCalls ps) (address : ℕ) : Prop :=
  (∃ k ∈ calls.kmalloc, k ≤ address ∧ address < k + (npages + 2) * ps.size) ∨
    ∃ v ∈ calls.vmalloc, v ≤ address ∧ address < v + npages * ps.size

variable {calls : InitCalls ps} {m : MmapAreas} {mem mem' : Memory} {area k frame address : ℕ}
  {b : Bool} {reserved : ℕ → Bool} {w : MmapWorld} {s t : MmapHost}

/-! ## The loops over the pages -/

theorem virtToPage_frame (ps : PageSize) (area k : ℕ) :
    (virtToPage ps (area + k * ps.size)).frame = area / ps.size + k :=
  Nat.add_mul_div_right _ _ ps.size_pos

theorem vmallocToPage_frame (ps : PageSize) (area k : ℕ) :
    (vmallocToPage ps (area + k * ps.size)).frame = area / ps.size + k :=
  Nat.add_mul_div_right _ _ ps.size_pos

theorem not_inFrames_zero : ¬InFrames ps area 0 frame := by
  unfold InFrames
  omega

theorem inFrames_succ :
    InFrames ps area (k + 1) frame ↔ InFrames ps area k frame ∨ frame = area / ps.size + k := by
  unfold InFrames
  omega

theorem markPages_apply : markPages ps area b k reserved frame =
    if InFrames ps area k frame then b else reserved frame := by
  induction k with
  | zero => rw [markPages, if_neg not_inFrames_zero]
  | succ k ih =>
    rw [markPages, Function.update_apply, virtToPage_frame, ih]
    by_cases hlast : frame = area / ps.size + k
    · rw [if_pos hlast, if_pos (inFrames_succ.2 (Or.inr hlast))]
    · rw [if_neg hlast]
      simp only [inFrames_succ, hlast, or_false]

theorem clearPages_apply : clearPages ps m k reserved frame =
    if InFrames ps m.kmallocArea k frame ∨ InFrames ps m.vmallocArea k frame then false
    else reserved frame := by
  induction k with
  | zero => rw [clearPages, if_neg (not_or.2 ⟨not_inFrames_zero, not_inFrames_zero⟩)]
  | succ k ih =>
    rw [clearPages, Function.update_apply, Function.update_apply, virtToPage_frame,
      vmallocToPage_frame, ih]
    by_cases hk : frame = m.kmallocArea / ps.size + k
    · rw [if_pos hk, if_pos (Or.inl (inFrames_succ.2 (Or.inr hk)))]
    by_cases hv : frame = m.vmallocArea / ps.size + k
    · rw [if_neg hk, if_pos hv, if_pos (Or.inr (inFrames_succ.2 (Or.inr hv)))]
    · rw [if_neg hk, if_neg hv]
      simp only [inFrames_succ, hk, hv, or_false]

theorem MmapAreas.Unmarked.hasFrame (h : m.Unmarked ps reserved) (hframe : m.HasFrame ps frame) :
    reserved frame = false := by
  rcases hframe with ⟨hle, hlt⟩ | ⟨hle, hlt⟩
  · have hk := (h (frame - m.kmallocArea / ps.size) (by omega)).1
    rwa [Nat.add_sub_cancel' hle] at hk
  · have hv := (h (frame - m.vmallocArea / ps.size) (by omega)).2
    rwa [Nat.add_sub_cancel' hle] at hv

/-! ## A load -/

theorem fill_of_not_mem {rounds : ℕ}
    (hk : address < m.kmallocArea ∨ m.kmallocArea + 4 * (2 * rounds) ≤ address)
    (hv : address < m.vmallocArea ∨ m.vmallocArea + 4 * (2 * rounds) ≤ address) :
    m.fill rounds mem address = mem address := by
  induction rounds with
  | zero => rfl
  | succ rounds ih =>
    rw [MmapAreas.fill, storePair_of_ne (by omega) (by omega),
      storePair_of_ne (by omega) (by omega), ih (by omega) (by omega)]

/-- A load that succeeds. -/
theorem mymmapInit_eq_ok (h : mymmapInit calls mem = .ok (m, mem')) :
    ∃ kmallocPtr, calls.kmalloc = some kmallocPtr ∧ m.kmallocArea = ps.roundUp kmallocPtr ∧
      calls.vmalloc = some m.vmallocArea ∧ mem' = m.fill ((areaInts ps + 1) / 2) mem ∧
      mmapInitActs calls = (MmapHost.resources (kmallocPtr, m)).map .register := by
  unfold mymmapInit at h
  split at h
  · cases h
  case h_2 kmallocPtr hkmalloc =>
    split at h
    · cases h
    case h_2 vmallocArea hvmalloc =>
      split_ifs at h with hregion hcdev
      cases h
      refine ⟨kmallocPtr, hkmalloc, rfl, hvmalloc, rfl, ?_⟩
      simp only [mmapInitActs, hkmalloc, hvmalloc, if_neg hregion, if_neg hcdev]
      rfl

/-- One that fails gives back what it has got, the latest first. -/
theorem mymmapInit_eq_error {err : ℤ} (h : mymmapInit calls mem = .error err) :
    ∃ l : List MmapResource, l.Nodup ∧
      mmapInitActs calls = l.map .register ++ l.reverse.map .release := by
  unfold mymmapInit at h
  split at h
  case h_1 hkmalloc =>
    simp only [mmapInitActs, hkmalloc]
    exact ⟨[], List.nodup_nil, rfl⟩
  case h_2 kmallocPtr hkmalloc =>
    split at h
    case h_1 hvmalloc =>
      simp only [mmapInitActs, hkmalloc, hvmalloc]
      exact ⟨[.kmalloc kmallocPtr], by simp, rfl⟩
    case h_2 vmallocArea hvmalloc =>
      split_ifs at h with hregion hcdev
      · simp only [mmapInitActs, hkmalloc, hvmalloc, if_pos hregion]
        exact ⟨[.kmalloc kmallocPtr, .vmalloc vmallocArea], by simp, rfl⟩
      · simp only [mmapInitActs, hkmalloc, hvmalloc, if_neg hregion, if_pos hcdev]
        exact ⟨[.kmalloc kmallocPtr, .vmalloc vmallocArea, .region], by simp, rfl⟩

/-- Each round of the fill loop stores two `int`s in either area. -/
theorem two_mul_rounds (ps : PageSize) : 4 * (2 * ((areaInts ps + 1) / 2)) = npages * ps.size := by
  have hints := areaInts_eq ps
  obtain ⟨k, hk⟩ := ps.four_dvd_size
  have hsixteen : areaInts ps = 16 * k := by
    rw [areaInts, npages, hk, ← Nat.mul_assoc]
    omega
  omega

theorem mymmapInit_mem (h : mymmapInit calls mem = .ok (m, mem'))
    (haddress : ¬calls.Given address) : mem' address = mem address := by
  obtain ⟨kmallocPtr, hkmalloc, harea, hvmalloc, rfl, -⟩ := mymmapInit_eq_ok h
  have hrounds := two_mul_rounds ps
  have hle := ps.le_roundUp kmallocPtr
  have hlt := ps.roundUp_lt kmallocPtr
  have hsum : (npages + 2) * ps.size = npages * ps.size + 2 * ps.size := Nat.add_mul ..
  have hk : ¬(kmallocPtr ≤ address ∧ address < kmallocPtr + (npages + 2) * ps.size) :=
    fun hk => haddress (Or.inl ⟨kmallocPtr, hkmalloc, hk⟩)
  have hv : ¬(m.vmallocArea ≤ address ∧ address < m.vmallocArea + npages * ps.size) :=
    fun hv => haddress (Or.inr ⟨m.vmallocArea, hvmalloc, hv⟩)
  exact fill_of_not_mem (by omega) (by omega)


/-! ## The history -/

namespace MmapHost

theorem nodup_resources (l : ℕ × MmapAreas) : (resources l).Nodup := by
  simp [resources]

theorem registered_of_none (h : s.loaded = none) : s.registered = empty := by
  funext r
  simp [registered, h, empty]

theorem registered_of_some {l : ℕ × MmapAreas} (h : s.loaded = some l) :
    s.registered = fun r => decide (r ∈ resources l) := by
  funext r
  simp [registered, h]

/-- What a run leaves, where `w` is what the others alone would have left. -/
structure Tracks (ps : PageSize) (w : MmapWorld) (s : MmapHost) : Prop where
  log : exec Registry.step empty s.log = some s.registered
  reserved : ∀ frame, s.world.reserved frame = (w.reserved frame || decide (s.Marks ps frame))
  apart : ∀ frame, s.Owns ps frame → w.reserved frame = false
  inBlock : ∀ l ∈ s.loaded, ∀ frame, InFrames ps l.2.kmallocArea npages frame → InBlock ps l.1 frame

theorem tracks_start (ps : PageSize) (w : MmapWorld) : Tracks ps w (start w) where
  log := rfl
  reserved frame := by simp [start, Marks]
  apart frame := by simp [start, Owns]
  inBlock l hl := by simp [start] at hl

/-- The pages of an area that is rounded up are in its block. -/
theorem inBlock_of_inFrames {kmallocPtr : ℕ}
    (h : InFrames ps (ps.roundUp kmallocPtr) npages frame) : InBlock ps kmallocPtr frame := by
  obtain ⟨hle, hlt⟩ := h
  have hround := ps.le_roundUp kmallocPtr
  have hround' := ps.roundUp_lt kmallocPtr
  have hdiv : ps.roundUp kmallocPtr / ps.size * ps.size = ps.roundUp kmallocPtr :=
    Nat.div_mul_cancel (Dvd.intro_left _ rfl)
  have hlow := Nat.mul_le_mul_right ps.size hle
  have hhigh := Nat.mul_le_mul_right ps.size (Nat.succ_le_of_lt hlt)
  rw [hdiv] at hlow
  rw [Nat.add_mul, hdiv] at hhigh
  have hsum : (npages + 2) * ps.size = npages * ps.size + 2 * ps.size := Nat.add_mul ..
  exact ⟨by omega, by rw [Nat.succ_eq_add_one] at hhigh; omega⟩

theorem Tracks.load (h : Tracks ps w s) (hs : s.loaded = none) (hfresh : s.Fresh calls) :
    Tracks ps w (s.mymmapInit calls) := by
  have hlog := h.log
  rw [registered_of_none hs] at hlog
  have hworld : ∀ frame, s.world.reserved frame = w.reserved frame := fun frame => by
    simp [h.reserved, Marks, hs]
  unfold mymmapInit
  split
  case h_1 err hinit =>
    obtain ⟨l, hl, hacts⟩ := mymmapInit_eq_error hinit
    refine ⟨?_, h.reserved, h.apart, h.inBlock⟩
    show exec Registry.step empty (s.log ++ mmapInitActs calls) = some s.registered
    rw [registered_of_none hs, hacts, exec_append, hlog, Option.bind_some, exec_append,
      exec_register_empty hl, Option.bind_some, exec_release_reverse hl]
  case h_2 m mem hinit =>
    obtain ⟨kmallocPtr, hkmalloc, harea, -, -, hacts⟩ := mymmapInit_eq_ok hinit
    have hunmarked : m.Unmarked ps s.world.reserved := hfresh (m, mem) (by rw [hinit]; rfl)
    rw [hkmalloc]
    refine ⟨?_, fun frame => ?_, ?_, ?_⟩
    · show exec Registry.step empty (s.log ++ mmapInitActs calls) = _
      rw [registered_of_some rfl, hacts, exec_append, hlog, Option.bind_some,
        exec_register_empty (nodup_resources _)]
    · show markPages ps m.kmallocArea true npages s.world.reserved frame = _
      rw [markPages_apply, hworld]
      by_cases hframe : InFrames ps m.kmallocArea npages frame
      · rw [if_pos hframe]
        simp [Marks, hframe]
      · rw [if_neg hframe]
        simp [Marks, hframe]
    · rintro frame ⟨l, hl, hframe⟩
      obtain rfl := Option.some.inj hl
      rw [← hworld]
      exact hunmarked.hasFrame hframe
    · rintro l hl frame hframe
      obtain rfl := Option.some.inj hl
      exact inBlock_of_inFrames (harea ▸ hframe)

theorem Tracks.unload (h : Tracks ps w s) {l : ℕ × MmapAreas} (hs : s.loaded = some l) :
    Tracks ps w (s.mmapExit ps l.1 l.2) := by
  have hlog := h.log
  rw [registered_of_some hs] at hlog
  refine ⟨?_, fun frame => ?_, fun frame => by simp [mmapExit, Owns], fun l hl => ?_⟩
  · show exec Registry.step empty (s.log ++ mmapExitActs l.1 l.2) = some empty
    rw [exec_append, hlog]
    exact exec_release_reverse (nodup_resources l)
  · show clearPages ps l.2 npages s.world.reserved frame = _
    rw [clearPages_apply, h.reserved]
    by_cases hframe : InFrames ps l.2.kmallocArea npages frame ∨
        InFrames ps l.2.vmallocArea npages frame
    · rw [if_pos hframe, h.apart frame ⟨l, hs, hframe⟩]
      simp [mmapExit, Marks]
    · have hmarks : ¬s.Marks ps frame := by
        rintro ⟨l', hl', hmarked⟩
        obtain rfl := Option.some.inj (hs.symm.trans hl')
        exact hframe (Or.inl hmarked)
      rw [if_neg hframe, decide_eq_false hmarks]
      simp [mmapExit, Marks]
  · simp [mmapExit] at hl

theorem Tracks.act {a : MmapHostAct ps} (h : Tracks ps w s) (hstep : s.step a = some t) :
    Tracks ps (w.others a) t := by
  cases a with
  | load calls =>
    obtain ⟨⟨hs, hfresh⟩, hload⟩ := Option.ite_none_right_eq_some.1 hstep
    obtain rfl := Option.some.inj hload
    exact h.load (Option.isNone_iff_eq_none.1 hs) hfresh
  | unload =>
    obtain ⟨l, hs, rfl⟩ := Option.map_eq_some_iff.1 hstep
    exact h.unload hs
  | mark frame b =>
    obtain ⟨howns, hmark⟩ := Option.ite_none_left_eq_some.1 hstep
    obtain rfl := Option.some.inj hmark
    refine ⟨h.log, fun frame' => ?_, fun frame' hframe => ?_, h.inBlock⟩
    · show Function.update s.world.reserved frame b frame' =
        (Function.update w.reserved frame b frame' || decide (s.Marks ps frame'))
      by_cases hframe : frame' = frame
      · have hmarks : ¬s.Marks ps frame := fun ⟨l, hl, hmarked⟩ => howns ⟨l, hl, Or.inl hmarked⟩
        rw [hframe, Function.update_self, Function.update_self, decide_eq_false hmarks,
          Bool.or_false]
      · rw [Function.update_of_ne hframe, Function.update_of_ne hframe]
        exact h.reserved frame'
    · have hne : frame' ≠ frame := fun heq => howns (heq ▸ hframe)
      exact (Function.update_of_ne hne _ _).trans (h.apart frame' hframe)
  | write address value =>
    obtain rfl := Option.some.inj hstep
    exact ⟨h.log, h.reserved, h.apart, h.inBlock⟩

theorem Tracks.run {as : List (MmapHostAct ps)} (h : Tracks ps w s)
    (hexec : exec step s as = some t) : Tracks ps (as.foldl MmapWorld.others w) t := by
  induction as generalizing s w with
  | nil =>
    obtain rfl := Option.some.inj hexec
    exact h
  | cons a as ih =>
    obtain ⟨u, hu, hrest⟩ := exec_cons_eq_some.1 hexec
    exact ih (h.act hu) hrest

/-- A step leaves memory that the module is not given as the others do. -/
theorem step_mem {a : MmapHostAct ps} (hstep : s.step a = some t)
    (hgiven : ∀ calls, a = .load calls → ¬calls.Given address)
    (hmem : s.world.mem address = w.mem address) :
    t.world.mem address = (w.others a).mem address := by
  cases a with
  | load calls =>
    obtain ⟨-, hload⟩ := Option.ite_none_right_eq_some.1 hstep
    obtain rfl := Option.some.inj hload
    unfold mymmapInit
    split
    · exact hmem
    case h_2 m mem hinit => exact (mymmapInit_mem hinit (hgiven calls rfl)).trans hmem
  | unload =>
    obtain ⟨l, -, rfl⟩ := Option.map_eq_some_iff.1 hstep
    exact hmem
  | mark frame b =>
    obtain ⟨-, hmark⟩ := Option.ite_none_left_eq_some.1 hstep
    obtain rfl := Option.some.inj hmark
    exact hmem
  | write address' value =>
    obtain rfl := Option.some.inj hstep
    show Function.update s.world.mem address' value address =
      Function.update w.mem address' value address
    by_cases haddress : address = address'
    · rw [haddress, Function.update_self, Function.update_self]
    · rw [Function.update_of_ne haddress, Function.update_of_ne haddress, hmem]

theorem exec_mem {as : List (MmapHostAct ps)} (hexec : exec step s as = some t)
    (hgiven : ∀ calls, .load calls ∈ as → ¬calls.Given address)
    (hmem : s.world.mem address = w.mem address) :
    t.world.mem address = (as.foldl MmapWorld.others w).mem address := by
  induction as generalizing s w with
  | nil =>
    obtain rfl := Option.some.inj hexec
    exact hmem
  | cons a as ih =>
    obtain ⟨u, hu, hrest⟩ := exec_cons_eq_some.1 hexec
    have hu' := step_mem hu (fun calls hcalls => hgiven calls (by simp [hcalls])) hmem
    exact ih hrest (fun calls hcalls => hgiven calls (List.mem_cons_of_mem _ hcalls)) hu'

/-- Over every history of loads, of which any call may fail, and unloads, with others marking
pages and writing to memory in between : the log of the module's calls gives back only what it
has got, and leaves the four resources of the loaded module and nothing without one; a page is
marked where the others have marked it, or it is in the kmalloc area of the loaded module, and
then it is whole in the block that is given back to `kfree`; and memory that no load was given
is as the others alone leave it. -/
theorem mmap_reload {w : MmapWorld} {as : List (MmapHostAct ps)} {t : MmapHost}
    (h : exec step (start w) as = some t) :
    exec Registry.step empty t.log = some t.registered ∧
      (∀ frame, t.world.reserved frame =
        ((as.foldl MmapWorld.others w).reserved frame || decide (t.Marks ps frame))) ∧
      (∀ l ∈ t.loaded, ∀ frame, InFrames ps l.2.kmallocArea npages frame → InBlock ps l.1 frame) ∧
      ∀ address, (∀ calls, .load calls ∈ as → ¬calls.Given address) →
        t.world.mem address = (as.foldl MmapWorld.others w).mem address := by
  have htracks := (tracks_start ps w).run h
  exact ⟨htracks.log, htracks.reserved, htracks.inBlock, fun address hgiven =>
    exec_mem h hgiven rfl⟩

/-- A load whose `cdev_add` fails, one that does not, and an unload, while others mark a page
and write to memory. -/
def reloadActs : List (MmapHostAct page4k) :=
  [.load { loadCalls with cdevAdd := -12 }, .mark 50 true, .load loadCalls, .write 200 1, .unload]

theorem reloadActs_reload :
    ∃ t, exec step (start ⟨fun _ => 0, fun _ => false⟩) reloadActs = some t ∧
      exec Registry.step empty t.log = some t.registered ∧ t.world.reserved 50 = true := by
  obtain ⟨t, ht, -⟩ : ∃ t, exec step (start ⟨fun _ => 0, fun _ => false⟩) reloadActs = some t ∧
      t.loaded.isNone = true := Option.map_eq_some_iff.1 (by decide +kernel)
  obtain ⟨hlog, hreserved, -, -⟩ := mmap_reload ht
  exact ⟨t, ht, hlog, (hreserved 50).trans (by simp [reloadActs, MmapWorld.others])⟩

end MmapHost

end ProCamp
