import ProCamp.DummyCdev

/-!
# Devices that are gone

`plat_dummy_remove` stops the polling of a device and leaves it in `mydevs`; the kernel
then releases its memory. `dummy_cdev_init` copies what it finds in `mydevs`, and nothing
takes a device out of `dummy_cdevs` either.

`no_stale_device_iff` : the two tables hold only devices that are there, and no file
operation follows another, in exactly the histories where each device is in neither table
when it is removed. A device that shares its alias with no other is in `mydevs` as long as
it is bound (`remove_stale`), so without a second device of the same alias each remove
leaves a stale one.
-/

namespace ProCamp

open Machine

/-- Both modules, and the devices of the kernel. -/
structure DeviceTable where
  mydevs : ℕ → Option ℕ
  /-- The devices probed with success and not removed, with their alias. -/
  bound : ℕ → Option ℕ
  /-- The next device to be allocated. -/
  next : ℕ
  cdevs : DummyCdevs

/-- A call of either module's functions, or on one of the files. -/
inductive TableAct where
  | probe (c : ProbeCalls)
  | remove (d : ℕ)
  /-- `platform_cdev` is loaded anew. -/
  | load
  | init (c : CdevInitCalls)
  | exit
  /-- A call on a file of `dummy_cdevs[i]`. -/
  | file (i : ℕ) (op : FileOp)

namespace DeviceTable

/-- Both modules as they are loaded. -/
def start : DeviceTable where
  mydevs _ := none
  bound _ := none
  next := 0
  cdevs := .loaded

/-- `get_dummy_platfrom_device`. -/
def getDummyPlatfromDevice (s : DeviceTable) (devnum : ℕ) : Option ℕ :=
  s.mydevs devnum

/-- `plat_dummy_probe` of the next device, which the kernel binds if it returns 0. -/
def probeStep (n : ℕ) (s : DeviceTable) (c : ProbeCalls) : Option DeviceTable :=
  (platDummyProbe n c).map fun (ret, id) =>
    { s with
      next := s.next + 1
      mydevs := match id with
        | some id => Function.update s.mydevs id (some s.next)
        | none => s.mydevs
      bound := if ret = 0 then Function.update s.bound s.next (some c.ofAliasGetId.toNat)
        else s.bound }

/-- One call. -/
def step (n : ℕ) (s : DeviceTable) : TableAct → Option DeviceTable
  | .probe c => s.probeStep n c
  | .remove d =>
    if (s.bound d).isSome then some { s with bound := Function.update s.bound d none } else none
  | .load => some { s with cdevs := .loaded }
  | .init c =>
    some { s with cdevs := (DummyCdevs.dummyCdevInit n s.getDummyPlatfromDevice c s.cdevs).2 }
  | .exit => some { s with cdevs := s.cdevs.dummyCdevExit n }
  | .file _ _ => some s

/-- The tables hold devices that are bound, each under its alias. -/
structure Fresh (s : DeviceTable) : Prop where
  mydevs : ∀ id d, s.mydevs id = some d → s.bound d = some id
  cdevs : ∀ i d, s.cdevs.myDevice i = some d → s.bound d = some i

/-- The tables are fresh, and a file operation has followed a device that is bound. -/
def Sound (s : DeviceTable) (a : TableAct) (t : DeviceTable) : Prop :=
  t.Fresh ∧ ∀ i op d, a = .file i op → (op.run (s.cdevs.myDevice i)).device = some d →
    s.bound d = some i

/-- A device is in neither table when it is removed. -/
def RemovesUnlisted (s : DeviceTable) (a : TableAct) (_ : DeviceTable) : Prop :=
  ∀ d, a = .remove d → (∀ id, s.mydevs id ≠ some d) ∧ ∀ i, s.cdevs.myDevice i ≠ some d

/-- No device is bound before it is allocated. -/
def Numbered (s : DeviceTable) : Prop :=
  ∀ d, s.next ≤ d → s.bound d = none

variable {n : ℕ} {s t : DeviceTable} {a : TableAct} {as : List TableAct}

theorem fresh_start : Fresh start :=
  ⟨fun _ _ h => (nomatch h), fun _ _ h => nomatch h⟩

theorem numbered_start : Numbered start :=
  fun _ _ => rfl

/-- `plat_dummy_probe` publishes a device under its alias exactly if it returns 0. -/
theorem platDummyProbe_eq_some {c : ProbeCalls} {ret : ℤ} {id : Option ℕ}
    (h : platDummyProbe n c = some (ret, id)) :
    (ret = 0 ∧ id = some c.ofAliasGetId.toNat) ∨ (ret ≠ 0 ∧ id = none) := by
  have herr : ∀ err : PtrErr, err.1 ≠ 0 := fun err => Int.ne_of_lt err.2
  rcases hmem : c.ioremap0 with _ | err <;> rcases hregs : c.ioremap1 with _ | err' <;>
    simp only [platDummyProbe, hmem, hregs] at h <;> split_ifs at h <;> cases h
  all_goals first
    | exact Or.inl ⟨rfl, rfl⟩
    | exact Or.inr ⟨by decide, rfl⟩
    | exact Or.inr ⟨herr _, rfl⟩
    | exact Or.inr ⟨by omega, rfl⟩

/-- The loop of `dummy_cdev_init` leaves an entry or copies it. -/
theorem initLoop_myDevice (getDevice : ℕ → Option ℕ) (cdevAdd : ℕ → ℤ) (k i j : ℕ) (ret : ℤ)
    (m : DummyCdevs) :
    (DummyCdevs.initLoop getDevice cdevAdd k i ret m).2.myDevice j = m.myDevice j ∨
      (DummyCdevs.initLoop getDevice cdevAdd k i ret m).2.myDevice j = getDevice j := by
  induction k generalizing i ret m with
  | zero => exact Or.inl rfl
  | succ k ih =>
    have hone : Function.update m.myDevice i (getDevice i) j = m.myDevice j ∨
        Function.update m.myDevice i (getDevice i) j = getDevice j := by
      by_cases heq : j = i
      · exact Or.inr (by simp [heq])
      · exact Or.inl (by simp [heq])
    unfold DummyCdevs.initLoop
    split_ifs
    · exact hone
    · exact hone
    · rcases ih (i + 1) (cdevAdd i)
        { m with
          myDevice := Function.update m.myDevice i (getDevice i)
          added := Function.update m.added i true } with hkeep | hcopy
      · rw [hkeep]
        exact hone
      · exact Or.inr hcopy

/-- `dummy_cdev_init` leaves an entry or copies it. -/
theorem dummyCdevInit_myDevice (getDevice : ℕ → Option ℕ) (c : CdevInitCalls) (m : DummyCdevs)
    (j : ℕ) :
    (DummyCdevs.dummyCdevInit n getDevice c m).2.myDevice j = m.myDevice j ∨
      (DummyCdevs.dummyCdevInit n getDevice c m).2.myDevice j = getDevice j := by
  have hmajor : (if m.dummyMajor ≠ 0 then m else { m with dummyMajor := c.major }).myDevice j =
      m.myDevice j := by
    split_ifs <;> rfl
  simp only [DummyCdevs.dummyCdevInit]
  generalize (if m.dummyMajor ≠ 0 then m else { m with dummyMajor := c.major }) = m' at hmajor ⊢
  rw [← hmajor]
  split_ifs
  · exact Or.inl rfl
  · have hloop := initLoop_myDevice getDevice c.cdevAdd n 0 j c.region { m' with region := true }
    rcases hr : DummyCdevs.initLoop getDevice c.cdevAdd n 0 c.region { m' with region := true }
      with ⟨_ | ret, m''⟩
    · rw [hr] at hloop
      cases hclass : c.classCreate <;> exact hloop
    · rw [hr] at hloop
      exact hloop

/-! ## One call -/

/-- A probe that fails changes neither table; one that succeeds binds a new device and
publishes it under its alias. -/
theorem probeStep_cases {c : ProbeCalls} (h : s.probeStep n c = some t) :
    t.cdevs = s.cdevs ∧ t.next = s.next + 1 ∧
      ((t.mydevs = s.mydevs ∧ t.bound = s.bound) ∨
        ∃ id, t.mydevs = Function.update s.mydevs id (some s.next) ∧
          t.bound = Function.update s.bound s.next (some id)) := by
  obtain ⟨⟨ret, id⟩, hprobe, rfl⟩ := Option.map_eq_some_iff.1 h
  refine ⟨rfl, rfl, ?_⟩
  rcases platDummyProbe_eq_some hprobe with ⟨hret, rfl⟩ | ⟨hret, rfl⟩
  · exact Or.inr ⟨c.ofAliasGetId.toNat, rfl, if_pos hret⟩
  · exact Or.inl ⟨rfl, if_neg hret⟩

/-- A device that is probed is a new one. -/
theorem fresh_probeStep (hfresh : s.Fresh) (hnum : s.Numbered) {c : ProbeCalls}
    (h : s.probeStep n c = some t) : t.Fresh := by
  obtain ⟨hcdevs, -, ⟨hmydevs, hbound⟩ | ⟨id, hmydevs, hbound⟩⟩ := probeStep_cases h
  · exact ⟨by rw [hmydevs, hbound]; exact hfresh.mydevs, by rw [hcdevs, hbound]; exact hfresh.cdevs⟩
  · have hold : ∀ {d id'}, s.bound d = some id' → t.bound d = some id' := by
      intro d id' hd
      have hne : d ≠ s.next := by
        rintro rfl
        simp [hnum s.next (Nat.le_refl _)] at hd
      rw [hbound]
      simpa [hne] using hd
    refine ⟨fun id' d hd => ?_, fun i d hd => hold (hfresh.cdevs i d (hcdevs ▸ hd))⟩
    rw [hmydevs] at hd
    by_cases heq : id' = id
    · subst heq
      obtain rfl : s.next = d := by simpa using hd
      simp [hbound]
    · exact hold (hfresh.mydevs id' d (by simpa [heq] using hd))

theorem numbered_step (hnum : s.Numbered) (h : s.step n a = some t) : t.Numbered := by
  cases a with
  | probe c =>
    obtain ⟨-, hnext, ⟨-, hbound⟩ | ⟨id, -, hbound⟩⟩ := probeStep_cases h <;> intro d hd <;>
      rw [hnext] at hd <;> rw [hbound]
    · exact hnum d (Nat.le_of_succ_le hd)
    · simpa [Nat.ne_of_gt hd] using hnum d (Nat.le_of_succ_le hd)
  | remove d =>
    simp only [step] at h
    split_ifs at h
    cases h
    intro d' hd'
    by_cases heq : d' = d
    · simp [heq]
    · simpa [heq] using hnum d' hd'
  | load | init | exit | file =>
    cases h
    exact hnum

/-- A device is removed from under the tables, or not. -/
theorem fresh_remove_iff (hfresh : s.Fresh) {d : ℕ} (h : s.step n (.remove d) = some t) :
    t.Fresh ↔ (∀ id, s.mydevs id ≠ some d) ∧ ∀ i, s.cdevs.myDevice i ≠ some d := by
  simp only [step] at h
  split_ifs at h
  cases h
  constructor
  · intro ht
    refine ⟨fun id hd => ?_, fun i hd => ?_⟩
    · simpa using ht.mydevs id d hd
    · simpa using ht.cdevs i d hd
  · rintro ⟨hmydevs, hcdevs⟩
    refine ⟨fun id d' hd' => ?_, fun i d' hd' => ?_⟩
    · have hne : d' ≠ d := by
        rintro rfl
        exact hmydevs id hd'
      simpa [hne] using hfresh.mydevs id d' hd'
    · have hne : d' ≠ d := by
        rintro rfl
        exact hcdevs i hd'
      simpa [hne] using hfresh.cdevs i d' hd'

theorem fresh_step_iff (hfresh : s.Fresh) (hnum : s.Numbered) (h : s.step n a = some t) :
    t.Fresh ↔ s.RemovesUnlisted a t := by
  cases a with
  | remove d =>
    rw [fresh_remove_iff hfresh h]
    constructor
    · rintro hunlisted d' heq
      cases heq
      exact hunlisted
    · exact fun hunlisted => hunlisted d rfl
  | probe c => exact iff_of_true (fresh_probeStep hfresh hnum h) fun _ heq => nomatch heq
  | load =>
    cases h
    exact iff_of_true ⟨hfresh.mydevs, fun _ _ hd => nomatch hd⟩ fun _ heq => nomatch heq
  | init c =>
    cases h
    refine iff_of_true ⟨hfresh.mydevs, fun i d hd => ?_⟩ fun _ heq => nomatch heq
    rcases dummyCdevInit_myDevice s.getDummyPlatfromDevice c s.cdevs i with hkeep | hcopy
    · exact hfresh.cdevs i d (hkeep.symm.trans hd)
    · exact hfresh.mydevs i d (hcopy.symm.trans hd)
  | exit =>
    cases h
    exact iff_of_true ⟨hfresh.mydevs, hfresh.cdevs⟩ fun _ heq => nomatch heq
  | file i op =>
    cases h
    exact iff_of_true hfresh fun _ heq => nomatch heq

/-! ## Histories -/

/-- In exactly the histories where each device is in neither table when it is removed,
the tables hold only devices that are bound, each under its alias, and file operations
follow no other. -/
theorem no_stale_device_iff (n : ℕ) (as : List TableAct) :
    EveryStep (step n) Sound start as ↔ EveryStep (step n) RemovesUnlisted start as := by
  refine everyStep_congr (I := fun s => s.Fresh ∧ s.Numbered) ?_ ?_ ⟨fresh_start, numbered_start⟩
  · rintro s a t ⟨hfresh, hnum⟩ hstep
    rw [← fresh_step_iff hfresh hnum hstep]
    constructor
    · exact And.left
    · refine fun ht => ⟨ht, fun i op d _ hd => ?_⟩
      exact hfresh.cdevs i d (FileOp.device_run hd)
  · rintro s a t ⟨-, hnum⟩ hsound hstep
    exact ⟨hsound.1, numbered_step hnum hstep⟩

/-! ## Where an alias has one device -/

/-- The alias of a device that is bound has a device in `mydevs`. -/
def Listed (s : DeviceTable) : Prop :=
  ∀ d id, s.bound d = some id → ∃ d', s.mydevs id = some d'

theorem listed_step (hlisted : s.Listed) (h : s.step n a = some t) : t.Listed := by
  cases a with
  | probe c =>
    obtain ⟨-, -, ⟨hmydevs, hbound⟩ | ⟨id, hmydevs, hbound⟩⟩ := probeStep_cases h <;>
      intro d id' hd <;> rw [hbound] at hd <;> rw [hmydevs]
    · exact hlisted d id' hd
    · by_cases heq : id' = id
      · exact ⟨s.next, by simp [heq]⟩
      · have hne : d ≠ s.next := by
          rintro rfl
          exact heq (by simpa [eq_comm] using hd)
        simpa [heq] using hlisted d id' (by simpa [hne] using hd)
  | remove d =>
    simp only [step] at h
    split_ifs at h
    cases h
    intro d' id hd'
    by_cases heq : d' = d
    · simp [heq] at hd'
    · exact hlisted d' id (by simpa [heq] using hd')
  | load | init | exit | file =>
    cases h
    exact hlisted

theorem listed_start : Listed start :=
  fun _ _ h => nomatch h

theorem listed (h : exec (step n) start as = some s) : s.Listed := by
  refine exec_invariant_of_step ?_ listed_start h
  intro s a t hlisted hstep
  exact listed_step hlisted hstep

/-- Where no two devices that are bound share an alias, each remove leaves a device that
is gone in `mydevs`. -/
theorem remove_stale (h : exec (step n) start as = some s) (hfresh : s.Fresh)
    (halone : ∀ d d' id, s.bound d = some id → s.bound d' = some id → d' = d) {d : ℕ}
    (hstep : s.step n (.remove d) = some t) : ¬t.Fresh := by
  rw [fresh_remove_iff hfresh hstep]
  rintro ⟨hmydevs, -⟩
  obtain ⟨id, hid⟩ : ∃ id, s.bound d = some id := by
    simp only [step] at hstep
    split_ifs at hstep with hbound
    exact Option.isSome_iff_exists.1 hbound
  obtain ⟨d', hd'⟩ := listed h d id hid
  obtain rfl := halone d d' id hid (hfresh.mydevs id d' hd')
  exact hmydevs id hd'

/-- A probe in which every call succeeds. -/
def probeOk (id : ℕ) : ProbeCalls :=
  ⟨true, true, id, true, none, true, none, true⟩

/-- Both devices are probed, the files are set up, the first device is removed, and its
file is read. -/
def removeRun : List TableAct :=
  [.probe (probeOk 0), .probe (probeOk 1), .init ⟨0, 240, fun _ => 0, none⟩, .remove 0]

/-- A file operation calls a function of a device that is gone. -/
theorem removed_device_called :
    ∃ s, exec (step dummyDevices) start removeRun = some s ∧ ¬s.Fresh ∧
      FileOp.run (s.cdevs.myDevice 0) (.read false) = .call 0 ∧ s.bound 0 = none := by
  have hend : (exec (step dummyDevices) start removeRun).map (fun s =>
      decide (s.cdevs.myDevice 0 = some 0 ∧ s.bound 0 = none)) = some true := by decide +kernel
  obtain ⟨s, hs, heq⟩ := Option.map_eq_some_iff.1 hend
  obtain ⟨hdev, hbound⟩ := of_decide_eq_true heq
  refine ⟨s, hs, fun hfresh => ?_, by rw [hdev]; rfl, hbound⟩
  simpa [hbound] using hfresh.cdevs 0 0 hdev

end DeviceTable

end ProCamp
