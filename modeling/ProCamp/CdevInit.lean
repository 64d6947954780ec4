import Mathlib.Data.List.Range
import ProCamp.DummyCdev
import ProCamp.Registry

/-!
# Registering the dummy devices

`dummy_cdev_init` registers a region of device numbers, a cdev for each device and a class,
and cleans up by hand where a call fails. `initActs` is the log of these calls : a log that
releases what is not registered does not run to its end in `Registry`.

`all_or_nothing_iff` says when all of them are left registered or none. A device that is not
there stops the loop with the 0 of an earlier call in `ret`; a cdev added before the loop
stops stays added; and two cdevs are deleted after a failing `class_create`, of however many
there are.
-/

namespace ProCamp

open Machine Registry

/-- What `dummy_cdev_init` registers. -/
inductive Resource where
  | region
  | cdev (i : ℕ)
  | dummyClass
  deriving DecidableEq

namespace DummyCdevs

/-- What is registered. -/
def registered (m : DummyCdevs) : Resource → Bool
  | .region => m.region
  | .cdev i => m.added i
  | .dummyClass => m.dummyClass

/-- The region, a cdev for each of `n` devices, and the class. -/
def resources (n : ℕ) : Resource → Bool
  | .region => true
  | .cdev i => decide (i < n)
  | .dummyClass => true

/-- How many cdevs the loop of `dummy_cdev_init` adds, with `k` devices to go, the next one
`i`. -/
def devicesAdded (getDevice : ℕ → Option ℕ) (cdevAdd : ℕ → ℤ) : ℕ → ℕ → ℕ
  | 0, _ => 0
  | k + 1, i =>
    if (getDevice i).isNone then 0
    else if cdevAdd i ≠ 0 then 0
    else devicesAdded getDevice cdevAdd k (i + 1) + 1

/-- The calls of `dummy_cdev_init` that register or release something. -/
def initActs (n : ℕ) (getDevice : ℕ → Option ℕ) (c : CdevInitCalls) : List (Act Resource) :=
  if c.region < 0 then []
  else
    let added := devicesAdded getDevice c.cdevAdd n 0
    .register .region :: ((List.range added).map .cdev).map .register ++
      if added < n then [.release .region]
      else match c.classCreate with
      | some _ => [.cdev 0, .cdev 1, .region].map .release
      | none => [.register .dummyClass]

/-- What `dummy_cdev_exit` releases, in order. -/
def exitReleases (n : ℕ) : List Resource :=
  .dummyClass :: (List.range n).map .cdev ++ [.region]

/-- `dummy_cdev_exit` releases what is registered, each once, and leaves nothing. -/
def ReleasedByExit (n : ℕ) (m : DummyCdevs) : Prop :=
  (∀ r, (exitReleases n).count r = if m.registered r then 1 else 0) ∧
    (dummyCdevExit n m).registered = empty

/-- `dummy_cdev_init` releases only what it has registered, and returns 0 with everything
registered and for `dummy_cdev_exit` to release, or an error with nothing registered. -/
def AllOrNothing (n : ℕ) (getDevice : ℕ → Option ℕ) (c : CdevInitCalls) (m : DummyCdevs) :
    Prop :=
  let r := dummyCdevInit n getDevice c m
  exec step m.registered (initActs n getDevice c) = some r.2.registered ∧
    (r.1 = 0 ∧ r.2.registered = resources n ∧ ReleasedByExit n r.2 ∨
      r.1 < 0 ∧ r.2.registered = empty)

/-- The calls of `dummy_cdev_init` go so that its clean-up is right. -/
def CleansUp (n : ℕ) (getDevice : ℕ → Option ℕ) (c : CdevInitCalls) : Prop :=
  c.region < 0 ∨
    (0 < n ∧ (getDevice 0).isSome ∧ c.cdevAdd 0 < 0) ∨
    (∀ i < n, (getDevice i).isSome ∧ c.cdevAdd i = 0) ∧ (c.classCreate = none ∨ n = 2)

variable {n k i : ℕ} {ret : ℤ} {getDevice : ℕ → Option ℕ} {cdevAdd : ℕ → ℤ} {c : CdevInitCalls}
  {m : DummyCdevs}

/-! ## The loop -/

theorem devicesAdded_le (getDevice : ℕ → Option ℕ) (cdevAdd : ℕ → ℤ) (k i : ℕ) :
    devicesAdded getDevice cdevAdd k i ≤ k := by
  induction k generalizing i with
  | zero => exact le_rfl
  | succ k ih =>
    unfold devicesAdded
    split_ifs
    · exact Nat.zero_le _
    · exact Nat.zero_le _
    · exact Nat.succ_le_succ (ih (i + 1))

/-- The loop goes on past a device that is there and whose cdev can be added. -/
theorem of_lt_devicesAdded {j : ℕ} (h : j < devicesAdded getDevice cdevAdd k i) :
    (getDevice (i + j)).isSome ∧ cdevAdd (i + j) = 0 := by
  induction k generalizing i j with
  | zero => exact absurd h (Nat.not_lt_zero j)
  | succ k ih =>
    unfold devicesAdded at h
    split_ifs at h with hdev hadd
    · exact absurd h (Nat.not_lt_zero j)
    · exact absurd h (Nat.not_lt_zero j)
    · cases j with
      | zero => exact ⟨by simpa [Option.isSome_iff_ne_none] using hdev, not_not.1 hadd⟩
      | succ j =>
        rw [← Nat.succ_add_eq_add_succ]
        exact ih (Nat.lt_of_succ_lt_succ h)

/-- It stops at another. -/
theorem devicesAdded_stop (h : devicesAdded getDevice cdevAdd k i < k) :
    (getDevice (i + devicesAdded getDevice cdevAdd k i)).isSome →
      cdevAdd (i + devicesAdded getDevice cdevAdd k i) ≠ 0 := by
  induction k generalizing i with
  | zero => exact absurd h (Nat.not_lt_zero _)
  | succ k ih =>
    unfold devicesAdded at h ⊢
    split_ifs at h ⊢ with hdev hadd
    · intro hsome
      simp [Option.isNone_iff_eq_none.1 hdev] at hsome
    · exact fun _ => hadd
    · rw [← Nat.succ_add_eq_add_succ]
      exact ih (Nat.lt_of_succ_lt_succ h)

theorem devicesAdded_eq_iff : devicesAdded getDevice cdevAdd n 0 = n ↔
    ∀ i < n, (getDevice i).isSome ∧ cdevAdd i = 0 := by
  constructor
  · intro h i hi
    rw [← h] at hi
    simpa using of_lt_devicesAdded hi
  · intro h
    refine le_antisymm (devicesAdded_le getDevice cdevAdd n 0) (Nat.le_of_not_lt fun hlt => ?_)
    have hstop := devicesAdded_stop hlt
    rw [Nat.zero_add] at hstop
    exact hstop (h _ hlt).1 (h _ hlt).2

/-- A loop that cannot add the first cdev adds none. -/
theorem devicesAdded_eq_zero (hadd : cdevAdd 0 ≠ 0) : devicesAdded getDevice cdevAdd n 0 = 0 := by
  by_contra hpos
  have hzero := (of_lt_devicesAdded (Nat.pos_of_ne_zero hpos)).2
  rw [Nat.zero_add] at hzero
  exact hadd hzero

/-- What the loop ends with. -/
theorem initLoop_fst (getDevice : ℕ → Option ℕ) (cdevAdd : ℕ → ℤ) (k i : ℕ) (ret : ℤ)
    (m : DummyCdevs) : (initLoop getDevice cdevAdd k i ret m).1 =
    if devicesAdded getDevice cdevAdd k i < k then
      if (getDevice (i + devicesAdded getDevice cdevAdd k i)).isNone then
        some (if devicesAdded getDevice cdevAdd k i = 0 then ret else 0)
      else some (cdevAdd (i + devicesAdded getDevice cdevAdd k i))
    else none := by
  induction k generalizing i ret m with
  | zero => rfl
  | succ k ih =>
    by_cases hdev : (getDevice i).isNone
    · simp [initLoop, devicesAdded, hdev]
    · by_cases hadd : cdevAdd i = 0
      · have hnext : i + (devicesAdded getDevice cdevAdd k (i + 1) + 1) =
            i + 1 + devicesAdded getDevice cdevAdd k (i + 1) := by omega
        simp [initLoop, devicesAdded, hdev, hadd, ih, hnext]
      · simp [initLoop, devicesAdded, hdev, hadd]

theorem registered_added (m : DummyCdevs) (myDevice : ℕ → Option ℕ) (i : ℕ) :
    { m with myDevice, added := Function.update m.added i true }.registered =
      Function.update m.registered (.cdev i) true := by
  ext r
  cases r with
  | cdev j => simp [registered, Function.update_apply]
  | _ => rfl

/-- What the loop leaves registered. -/
theorem registered_initLoop (r : Resource) :
    (initLoop getDevice cdevAdd k i ret m).2.registered r = (m.registered r ||
      decide (r ∈ (List.range' i (devicesAdded getDevice cdevAdd k i)).map .cdev)) := by
  induction k generalizing i ret m with
  | zero => simp [initLoop, devicesAdded]
  | succ k ih =>
    by_cases hdev : (getDevice i).isNone
    · simp [initLoop, devicesAdded, hdev]
      rfl
    · by_cases hadd : cdevAdd i = 0
      · simp only [initLoop, devicesAdded, hdev, hadd, List.range'_succ, List.map_cons,
          Bool.false_eq_true, if_false, ne_eq, not_true_eq_false]
        rw [ih, registered_added]
        by_cases hr : r = .cdev i
        · simp [hr]
        · simp [hr, beq_eq_false_iff_ne.2 hr]
      · simp [initLoop, devicesAdded, hdev, hadd]
        rfl

/-- The region and the first `d` cdevs. -/
def partly (d : ℕ) : Resource → Bool
  | .region => true
  | .cdev i => decide (i < d)
  | .dummyClass => false

theorem or_mem_range (d : ℕ) :
    (fun r => partly 0 r || decide (r ∈ (List.range d).map .cdev)) = partly d := by
  ext r
  cases r <;> simp [partly]

theorem nodup_cdevs (n : ℕ) : ((List.range n).map Resource.cdev).Nodup :=
  List.nodup_range.map fun _ _ h => Resource.cdev.inj h

/-- The log of `dummy_cdev_init` up to the end of the loop. -/
theorem exec_registerLoop (added : ℕ) : exec step empty
    (.register .region :: ((List.range added).map .cdev).map .register) = some (partly added) := by
  have hregion : Function.update empty Resource.region true = partly 0 := by
    ext r
    cases r <;> simp [partly, empty]
  refine exec_cons_eq_some.2 ⟨_, step_register rfl, ?_⟩
  rw [hregion, exec_register (nodup_cdevs added) (by simp [partly]), or_mem_range]

/-- Where the loop leaves the module. -/
theorem initLoop_partly (hm : m.registered = partly 0) :
    (initLoop getDevice cdevAdd n 0 ret m).2.registered =
      partly (devicesAdded getDevice cdevAdd n 0) := by
  rw [← or_mem_range, List.range_eq_range', ← hm]
  exact funext fun r => registered_initLoop r

/-! ## The clean-up -/

theorem registered_region (m : DummyCdevs) (region : Bool) :
    { m with region }.registered = Function.update m.registered .region region := by
  ext r
  cases r <;> rfl

theorem registered_class (m : DummyCdevs) :
    { m with dummyClass := true }.registered = Function.update m.registered .dummyClass true := by
  ext r
  cases r <;> rfl

theorem registered_major (m : DummyCdevs) (major : ℕ) :
    (if m.dummyMajor ≠ 0 then m else { m with dummyMajor := major }).registered =
      m.registered := by
  split <;> rfl

theorem partly_of_region (hm : m.registered = empty) :
    { m with region := true }.registered = partly 0 := by
  rw [registered_region, hm]
  ext r
  cases r <;> simp [partly, empty]

/-- The region is the only thing the clean-up of the loop releases. -/
theorem release_region_eq_empty_iff (d : ℕ) :
    Function.update (partly d) .region false = empty ↔ d = 0 := by
  constructor
  · intro h
    have hadded := congrFun h (.cdev 0)
    simpa [partly, empty] using hadded
  · rintro rfl
    ext r
    cases r <;> simp [partly, empty]

/-- `dummy_cdev_init` once the region is allocated. -/
theorem dummyCdevInit_eq (n : ℕ) (getDevice : ℕ → Option ℕ) (hregion : ¬c.region < 0)
    (hm : m.registered = empty) :
    ∃ m' : DummyCdevs, m'.registered = partly (devicesAdded getDevice c.cdevAdd n 0) ∧
      dummyCdevInit n getDevice c m =
        if devicesAdded getDevice c.cdevAdd n 0 < n then
          (if (getDevice (devicesAdded getDevice c.cdevAdd n 0)).isNone then
              if devicesAdded getDevice c.cdevAdd n 0 = 0 then c.region else 0
            else c.cdevAdd (devicesAdded getDevice c.cdevAdd n 0), { m' with region := false })
        else match c.classCreate with
        | some err =>
          (err.1, { m' with
            region := false
            added := Function.update (Function.update m'.added 0 false) 1 false })
        | none => (0, { m' with dummyClass := true }) := by
  generalize hmajor : (if m.dummyMajor ≠ 0 then m else { m with dummyMajor := c.major }) = m₀
  have hm₀ : m₀.registered = empty := by rw [← hmajor, registered_major, hm]
  have hret := initLoop_fst getDevice c.cdevAdd n 0 c.region { m₀ with region := true }
  have hleft : (initLoop getDevice c.cdevAdd n 0 c.region { m₀ with region := true }).2.registered =
      partly (devicesAdded getDevice c.cdevAdd n 0) := initLoop_partly (partly_of_region hm₀)
  simp only [dummyCdevInit, hmajor]
  rw [if_neg hregion]
  rcases hloop : initLoop getDevice c.cdevAdd n 0 c.region { m₀ with region := true } with ⟨out, m'⟩
  rw [hloop, Nat.zero_add] at hret
  rw [hloop] at hleft
  refine ⟨m', hleft, ?_⟩
  dsimp only at hret
  rw [hret]
  by_cases hstop : devicesAdded getDevice c.cdevAdd n 0 < n
  · rw [if_pos hstop, if_pos hstop]
    by_cases hdev : (getDevice (devicesAdded getDevice c.cdevAdd n 0)).isNone
    · rw [if_pos hdev, if_pos hdev]
    · rw [if_neg hdev, if_neg hdev]
  · cases c.classCreate with
    | none => simp [hstop]
    | some err => simp [hstop]

/-! ## `dummy_cdev_exit` -/

theorem exec_exitReleases (n : ℕ) :
    exec step (resources n) ((exitReleases n).map .release) = some empty := by
  refine exec_release.2 ⟨?_, ?_, ?_⟩
  · simp [exitReleases, List.nodup_append, nodup_cdevs n]
  · rintro (_ | i | _) <;> simp [exitReleases, resources]
  · ext r
    cases r <;> simp [exitReleases, resources, empty]

theorem releasedByExit (hm : m.registered = resources n) : ReleasedByExit n m := by
  refine ⟨fun r => ?_, funext fun r => ?_⟩
  · rw [hm]
    exact exec_release_all.1 (exec_exitReleases n) r
  · cases r with
    | cdev i =>
      have hi : m.added i = decide (i < n) := congrFun hm (.cdev i)
      simp [registered, dummyCdevExit, hi, empty]
    | _ => rfl

/-! ## All or nothing -/

theorem allOrNothing_iff {m' : DummyCdevs} (hm : m.registered = empty)
    (hinit : dummyCdevInit n getDevice c m = (ret, m')) : AllOrNothing n getDevice c m ↔
      exec step empty (initActs n getDevice c) = some m'.registered ∧
        (ret = 0 ∧ m'.registered = resources n ∨ ret < 0 ∧ m'.registered = empty) := by
  simp only [AllOrNothing, hinit, hm]
  constructor
  · rintro ⟨hlog, ⟨hret, hall, -⟩ | herr⟩
    · exact ⟨hlog, Or.inl ⟨hret, hall⟩⟩
    · exact ⟨hlog, Or.inr herr⟩
  · rintro ⟨hlog, ⟨hret, hall⟩ | herr⟩
    · exact ⟨hlog, Or.inl ⟨hret, hall, releasedByExit hall⟩⟩
    · exact ⟨hlog, Or.inr herr⟩

theorem allOrNothing_of_error (hregion : c.region < 0) (hm : m.registered = empty) :
    AllOrNothing n getDevice c m := by
  have hinit : dummyCdevInit n getDevice c m =
      (c.region, if m.dummyMajor ≠ 0 then m else { m with dummyMajor := c.major }) := by
    simp only [dummyCdevInit]
    rw [if_pos hregion]
  rw [allOrNothing_iff hm hinit, registered_major, hm, initActs, if_pos hregion]
  exact ⟨rfl, Or.inr ⟨hregion, rfl⟩⟩

/-- A loop that stops early undoes only the region. -/
theorem allOrNothing_stop (hregion : ¬c.region < 0) (hm : m.registered = empty)
    (hstop : devicesAdded getDevice c.cdevAdd n 0 < n) :
    AllOrNothing n getDevice c m ↔ (getDevice 0).isSome ∧ c.cdevAdd 0 < 0 := by
  obtain ⟨m', hm', hinit⟩ := dummyCdevInit_eq n getDevice hregion hm
  rw [if_pos hstop] at hinit
  have hlog : exec step empty (initActs n getDevice c) =
      some { m' with region := false }.registered := by
    simp only [initActs]
    rw [if_neg hregion, if_pos hstop, exec_append_eq_some]
    refine ⟨_, exec_registerLoop _, exec_cons_eq_some.2 ⟨_, ?_, rfl⟩⟩
    rw [registered_region, hm', step_release_eq_some]
    exact ⟨rfl, rfl⟩
  rw [allOrNothing_iff hm hinit, hlog, registered_region, hm', release_region_eq_empty_iff]
  constructor
  · rintro ⟨-, ⟨-, hall⟩ | ⟨hret, hzero⟩⟩
    · exact absurd (congrFun hall .region) (by simp [resources])
    · rw [hzero] at hret
      by_cases hdev : (getDevice 0).isNone
      · rw [if_pos hdev, if_pos rfl] at hret
        exact absurd hret hregion
      · rw [if_neg hdev] at hret
        exact ⟨by simpa [Option.isSome_iff_ne_none] using hdev, hret⟩
  · rintro ⟨hdev, hadd⟩
    have hzero : devicesAdded getDevice c.cdevAdd n 0 = 0 := devicesAdded_eq_zero (by omega)
    refine ⟨rfl, Or.inr ⟨?_, hzero⟩⟩
    rw [hzero, if_neg (by simpa [Option.isSome_iff_ne_none] using hdev)]
    exact hadd

/-- After a failing `class_create` two cdevs are deleted. -/
theorem allOrNothing_classCreate {err : PtrErr} (hregion : ¬c.region < 0)
    (hm : m.registered = empty) (hall : devicesAdded getDevice c.cdevAdd n 0 = n)
    (herr : c.classCreate = some err) : AllOrNothing n getDevice c m ↔ n = 2 := by
  obtain ⟨m', hm', hinit⟩ := dummyCdevInit_eq n getDevice hregion hm
  simp only [hall, herr] at hm' hinit
  rw [if_neg (Nat.lt_irrefl n)] at hinit
  have hreleased : { m' with
      region := false
      added := Function.update (Function.update m'.added 0 false) 1 false }.registered =
      fun r => partly n r && decide (r ∉ [Resource.cdev 0, .cdev 1, .region]) := by
    rw [← hm']
    ext r
    cases r with
    | cdev i => by_cases h0 : i = 0 <;> by_cases h1 : i = 1 <;> simp [registered, h0, h1]
    | _ => simp [registered]
  have hlog : exec step empty (initActs n getDevice c) =
      exec step (partly n) ([Resource.cdev 0, .cdev 1, .region].map .release) := by
    simp only [initActs, hall, herr]
    rw [if_neg hregion, if_neg (Nat.lt_irrefl n), exec_append, exec_registerLoop]
    rfl
  rw [allOrNothing_iff hm hinit, hreleased, hlog, exec_release]
  constructor
  · rintro ⟨⟨-, hadded, -⟩, ⟨hzero, -⟩ | ⟨-, hnone⟩⟩
    · exact absurd hzero (Int.ne_of_lt err.2)
    · have hone : 1 < n := by simpa [partly] using hadded (.cdev 1) (by simp)
      have htwo : ¬2 < n := fun h => by simpa [partly, empty, h] using congrFun hnone (.cdev 2)
      omega
  · rintro rfl
    refine ⟨⟨by decide, by decide, rfl⟩, Or.inr ⟨err.2, ?_⟩⟩
    ext r
    rcases r with _ | i | _
    · rfl
    · rcases i with _ | _ | i
      · rfl
      · rfl
      · simp [partly, empty]
    · rfl

theorem allOrNothing_of_ok (hregion : ¬c.region < 0) (hm : m.registered = empty)
    (hall : devicesAdded getDevice c.cdevAdd n 0 = n) (hclass : c.classCreate = none) :
    AllOrNothing n getDevice c m := by
  obtain ⟨m', hm', hinit⟩ := dummyCdevInit_eq n getDevice hregion hm
  simp only [hall, hclass] at hm' hinit
  rw [if_neg (Nat.lt_irrefl n)] at hinit
  rw [allOrNothing_iff hm hinit, registered_class, hm']
  refine ⟨?_, Or.inl ⟨rfl, ?_⟩⟩
  · simp only [initActs, hall, hclass]
    rw [if_neg hregion, if_neg (Nat.lt_irrefl n), exec_append, exec_registerLoop]
    rfl
  · ext r
    cases r <;> rfl

/-- From a module with nothing registered, for every number of devices, every table of
platform devices and every outcome of the kernel's calls : `dummy_cdev_init` is all or
nothing if and only if no region is allocated, or the first device is there and its
`cdev_add` fails, or every device is there, every `cdev_add` succeeds and `class_create` does
too or the devices are two. -/
theorem all_or_nothing_iff (n : ℕ) (getDevice : ℕ → Option ℕ) (c : CdevInitCalls)
    (hm : m.registered = empty) :
    AllOrNothing n getDevice c m ↔ CleansUp n getDevice c := by
  unfold CleansUp
  by_cases hregion : c.region < 0
  · simp only [hregion, true_or, iff_true]
    exact allOrNothing_of_error hregion hm
  · rw [← devicesAdded_eq_iff]
    simp only [hregion, false_or]
    rcases (devicesAdded_le getDevice c.cdevAdd n 0).lt_or_eq with
      hstop | hall
    · rw [allOrNothing_stop hregion hm hstop]
      simp only [hstop.ne, false_and, or_false, Nat.zero_lt_of_lt hstop, true_and]
    · -- the first device is there and could be added
      have hfirst : ¬(0 < n ∧ (getDevice 0).isSome ∧ c.cdevAdd 0 < 0) := by
        rintro ⟨hpos, -, hadd⟩
        have := (devicesAdded_eq_iff.1 hall 0 hpos).2
        omega
      simp only [hfirst, false_or, hall, true_and]
      cases hclass : c.classCreate with
      | none => simpa using allOrNothing_of_ok hregion hm hall hclass
      | some err => simpa using allOrNothing_classCreate hregion hm hall hclass

/-- Every call succeeds. -/
def registerCalls : CdevInitCalls where
  region := 0
  major := 240
  cdevAdd _ := 0
  classCreate := none

theorem registered_loaded : loaded.registered = empty := by
  ext r
  cases r <;> rfl

/-- Two devices that have been probed. -/
theorem all_or_nothing_two : AllOrNothing dummyDevices some registerCalls loaded :=
  (all_or_nothing_iff dummyDevices some registerCalls registered_loaded).2
    (Or.inr (Or.inr ⟨fun _ _ => ⟨rfl, rfl⟩, Or.inl rfl⟩))

/-- Without a device the module is loaded with nothing registered; where `cdev_add` fails for
the second device, the first cdev stays added. -/
theorem init_undoes_too_little :
    ((dummyCdevInit dummyDevices (fun _ => none) registerCalls loaded).1 = 0 ∧
        (dummyCdevInit dummyDevices (fun _ => none) registerCalls loaded).2.registered = empty ∧
        ¬AllOrNothing dummyDevices (fun _ => none) registerCalls loaded) ∧
      ∃ c, c.cdevAdd 1 = -eNoMem ∧
        (dummyCdevInit dummyDevices some c loaded).1 = -eNoMem ∧
        (dummyCdevInit dummyDevices some c loaded).2.registered (.cdev 0) = true ∧
        ¬AllOrNothing dummyDevices some c loaded := by
  refine ⟨⟨rfl, ?_, fun h => ?_⟩, { registerCalls with
    cdevAdd := fun i => if i = 1 then -eNoMem else 0 }, rfl, rfl, rfl, fun h => ?_⟩
  · ext r
    cases r <;> rfl
  · have hfirst := (allOrNothing_stop (by decide) registered_loaded (by decide)).1 h
    exact Bool.false_ne_true hfirst.1
  · have hfirst := (allOrNothing_stop (by decide) registered_loaded (by decide)).1 h
    exact absurd hfirst.2 (by decide)

end DummyCdevs

end ProCamp
