import ProCamp.Kernel
import ProCamp.OnboardIo

/-!
# Loading the press counter again

`HW7/onboard_io/onboard_irq.c` over a history of loads and unloads : each load has variables of
its own, and what a load that fails does not take back stays in the kernel behind them.
`onboard_io_init` leaves the directory it has made, with the file of its `counter`, at every
failure, and the line of the button where `request_threaded_irq` fails.

`reload_history` : the handler only ever touches the `counter` of the module that is loaded. The
file touches one that is gone if and only if a load with it has failed, and then for ever; the
line is lost if and only if `request_threaded_irq` has failed, and no load succeeds after that.
-/

namespace ProCamp

open Machine

/-- `EBUSY`. -/
def eBusy : ℤ := 16

/-- What `debugfs_create_dir` returns. -/
inductive DebugfsDir where
  | null
  /-- An error pointer. -/
  | error
  | dentry
  deriving DecidableEq

/-- The outcomes of the kernel calls in `onboard_io_init`. -/
structure IrqInitCalls where
  /-- Were the name free. -/
  createDir : DebugfsDir
  /-- `debugfs_create_u32` makes the file. -/
  createFile : Bool
  /-- Were the line free. -/
  buttonRequest : ℤ
  buttonInput : ℤ
  irqRequest : ℤ

/-- The variables of the module. -/
structure IrqVars where
  ledGpio : ℤ
  buttonGpio : ℤ
  dir : DebugfsDir

/-- The kernel and the module, where it is loaded. -/
structure IrqHost where
  /-- The loads so far : each names the memory of its variables. -/
  loads : ℕ
  loaded : Option IrqVars
  lines : GpioLines
  /-- The load whose handler is installed. -/
  irq : Option ℕ
  /-- `myModule` of debugfs. -/
  dir : Bool
  /-- The load whose `counter` the file in it points to. -/
  file : Option ℕ

/-- What happens to the host of the module. -/
inductive IrqHostAct where
  /-- The module is loaded. -/
  | load (c : IrqInitCalls)
  /-- The module is unloaded. -/
  | unload
  /-- The button is pressed. -/
  | press
  /-- A user reads or writes the file. -/
  | access

namespace IrqHost

/-- No load yet. -/
def start (level : ℤ → Bool) : IrqHost where
  loads := 0
  loaded := none
  lines := .unused level
  irq := none
  dir := false
  file := none

/-- `debugfs_create_dir`. -/
def debugfsCreateDir (c : IrqInitCalls) (s : IrqHost) : DebugfsDir × IrqHost :=
  if s.dir then (.error, s)
  else (c.createDir, { s with dir := decide (c.createDir = .dentry) })

/-- `debugfs_create_u32`. -/
def debugfsCreateU32 (c : IrqInitCalls) (dir : DebugfsDir) (s : IrqHost) : IrqHost :=
  if dir = .dentry ∧ c.createFile = true then { s with file := some s.loads } else s

/-- `button_gpio_init`. -/
def buttonGpioInit (c : IrqInitCalls) (gpio : ℤ) (s : IrqHost) : ℤ × IrqHost :=
  let rc := if s.lines.held gpio then -eBusy else c.buttonRequest
  let lines := s.lines.request gpio rc
  if rc ≠ 0 then (rc, { s with lines })
  else if c.buttonInput ≠ 0 then (c.buttonInput, { s with lines := lines.free gpio })
  else (0, { s with lines := lines.directionInput gpio c.buttonInput })

/-- `onboard_io_init`. -/
def onboardIoInit (c : IrqInitCalls) (s : IrqHost) : ℤ × IrqHost :=
  match debugfsCreateDir c { s with loads := s.loads + 1 } with
  | (dir, s) =>
    if dir = .null then (-eNoMem, s)
    else
      match buttonGpioInit c button (debugfsCreateU32 c dir s) with
      | (rc, s) =>
        if rc ≠ 0 then (rc, s)
        else if c.irqRequest ≠ 0 then (c.irqRequest, s)
        else (0, { s with irq := some s.loads, loaded := some ⟨-1, button, dir⟩ })

/-- `onboard_io_exit`. -/
def onboardIoExit (v : IrqVars) (s : IrqHost) : IrqHost :=
  let lines := if v.ledGpio ≥ 0 then s.lines.setValue v.ledGpio false else s.lines
  let lines := if v.buttonGpio ≥ 0 then lines.free v.buttonGpio else lines
  { s with
    loaded := none
    lines
    irq := none
    dir := s.dir && !decide (v.dir = .dentry)
    file := if v.dir = .dentry then none else s.file }

/-- One step. -/
def step (s : IrqHost) : IrqHostAct → Option IrqHost
  | .load c => if s.loaded.isNone then some (s.onboardIoInit c).2 else none
  | .unload => s.loaded.map fun v => s.onboardIoExit v
  | .press | .access => some s

/-- The load whose `counter` a step touches. -/
def touches (s : IrqHost) : IrqHostAct → Option ℕ
  | .press => s.irq
  | .access => s.file
  | .load _ | .unload => none

/-- The variables of this load are there. -/
def Live (s : IrqHost) (n : ℕ) : Prop :=
  s.loaded.isSome = true ∧ n = s.loads

/-- `button_gpio_init` gets the line. -/
def GetsLine (s : IrqHost) (c : IrqInitCalls) : Prop :=
  (s.dir = true ∨ c.createDir ≠ .null) ∧ s.lines.held button = false ∧ c.buttonRequest = 0 ∧
    c.buttonInput = 0

/-- A load fails in `request_threaded_irq`. -/
def LosesLine (s : IrqHost) (a : IrqHostAct) : Prop :=
  ∃ c, a = .load c ∧ s.GetsLine c ∧ c.irqRequest ≠ 0

/-- A load makes the file and fails. -/
def LosesFile (s : IrqHost) (a : IrqHostAct) : Prop :=
  ∃ c, a = .load c ∧ s.dir = false ∧ c.createDir = .dentry ∧ c.createFile = true ∧
    ¬(s.GetsLine c ∧ c.irqRequest = 0)

variable {c : IrqInitCalls} {level : ℤ → Bool} {s t : IrqHost} {a : IrqHostAct}
  {as : List IrqHostAct}

/-- `button_gpio_init` changes nothing but the lines, and keeps the line where it returns 0. -/
theorem buttonGpioInit_cases (c : IrqInitCalls) (gpio : ℤ) (s : IrqHost) :
    ∃ rc lines, s.buttonGpioInit c gpio = (rc, { s with lines }) ∧
      (rc = 0 ∧ (s.lines.held gpio = false ∧ c.buttonRequest = 0 ∧ c.buttonInput = 0) ∧
          lines.held gpio = true ∨
        rc ≠ 0 ∧ ¬(s.lines.held gpio = false ∧ c.buttonRequest = 0 ∧ c.buttonInput = 0) ∧
          lines.held gpio = s.lines.held gpio) := by
  cases hheld : s.lines.held gpio with
  | true =>
    have hbusy : -eBusy ≠ 0 := by decide
    refine ⟨-eBusy, s.lines, ?_, Or.inr ⟨hbusy, by simp, hheld⟩⟩
    simp [buttonGpioInit, hheld, hbusy, GpioLines.request_of_ne hbusy]
  | false =>
    by_cases hrequest : c.buttonRequest = 0
    · by_cases hinput : c.buttonInput = 0
      · refine ⟨0, (s.lines.request gpio 0).directionInput gpio 0, ?_,
          Or.inl ⟨rfl, ⟨rfl, hrequest, hinput⟩, by simp⟩⟩
        simp [buttonGpioInit, hheld, hrequest, hinput]
      · refine ⟨c.buttonInput, (s.lines.request gpio 0).free gpio, ?_,
          Or.inr ⟨hinput, fun h => hinput h.2.2, by simp⟩⟩
        simp [buttonGpioInit, hheld, hrequest, hinput]
    · refine ⟨c.buttonRequest, s.lines, ?_, Or.inr ⟨hrequest, fun h => hrequest h.2.1, hheld⟩⟩
      simp [buttonGpioInit, hheld, hrequest, GpioLines.request_of_ne hrequest]

/-- What `onboard_io_init` leaves. -/
structure Loads (s : IrqHost) (c : IrqInitCalls) (rc : ℤ) (t : IrqHost) : Prop where
  loads : t.loads = s.loads + 1
  dir : t.dir = (s.dir || decide (c.createDir = .dentry))
  file : t.file = if s.dir = false ∧ c.createDir = .dentry ∧ c.createFile = true
    then some t.loads else s.file
  ok : s.GetsLine c ∧ c.irqRequest = 0 → rc = 0 ∧ t.irq = some t.loads ∧
    t.loaded = some ⟨-1, button, if s.dir then .error else c.createDir⟩
  failed : ¬(s.GetsLine c ∧ c.irqRequest = 0) → rc ≠ 0 ∧ t.irq = s.irq ∧ t.loaded = s.loaded
  held : t.lines.held button = true ↔ s.lines.held button = true ∨ s.GetsLine c

/-- Lines 148 to 153. -/
theorem debugfs_eq (c : IrqInitCalls) (s : IrqHost) :
    ∃ dir u, debugfsCreateDir c s = (dir, u) ∧ dir = (if s.dir then .error else c.createDir) ∧
      u.loads = s.loads ∧ debugfsCreateU32 c dir u = { s with
        dir := s.dir || decide (c.createDir = .dentry)
        file := if s.dir = false ∧ c.createDir = .dentry ∧ c.createFile = true
          then some s.loads else s.file } := by
  obtain ⟨loads, loaded, lines, irq, dir, file⟩ := s
  cases dir with
  | true => exact ⟨.error, _, rfl, rfl, rfl, by simp [debugfsCreateU32]⟩
  | false =>
    refine ⟨c.createDir, _, rfl, rfl, rfl, ?_⟩
    by_cases hcreate : c.createDir = .dentry <;> by_cases hfile : c.createFile = true <;>
      simp [debugfsCreateU32, hcreate, hfile]

theorem onboardIoInit_loads (c : IrqInitCalls) (s : IrqHost) :
    s.Loads c (s.onboardIoInit c).1 (s.onboardIoInit c).2 := by
  obtain ⟨dir, u, hdir, hname, hloads, hu32⟩ := debugfs_eq c { s with loads := s.loads + 1 }
  replace hname : dir = if s.dir then .error else c.createDir := hname
  by_cases hnull : dir = .null
  · obtain ⟨hfree, hcreate⟩ : s.dir = false ∧ c.createDir = .null := by
      cases hmade : s.dir <;> simp_all
    have hret : s.onboardIoInit c = (-eNoMem, { s with loads := s.loads + 1 }) := by
      obtain ⟨loads, loaded, lines, irq, dir, file⟩ := s
      obtain rfl : dir = false := hfree
      simp [onboardIoInit, debugfsCreateDir, hcreate]
    have hgets : ¬s.GetsLine c := by simp [GetsLine, hfree, hcreate]
    rw [hret]
    exact ⟨rfl, by simp [hcreate], by simp [hcreate], fun h => absurd h.1 hgets,
      fun _ => ⟨show -eNoMem ≠ 0 by decide, rfl, rfl⟩, by simp [hgets]⟩
  · have hmade : s.dir = true ∨ c.createDir ≠ .null := by
      cases hmade : s.dir <;> simp_all
    obtain ⟨rc, lines, hbutton, hcases⟩ := buttonGpioInit_cases c button (debugfsCreateU32 c dir u)
    have hret : s.onboardIoInit c =
        if rc ≠ 0 then (rc, { debugfsCreateU32 c dir u with lines })
        else if c.irqRequest ≠ 0 then (c.irqRequest, { debugfsCreateU32 c dir u with lines })
        else (0, { debugfsCreateU32 c dir u with
          lines
          irq := some (debugfsCreateU32 c dir u).loads
          loaded := some ⟨-1, button, dir⟩ }) := by
      simp only [onboardIoInit, hdir, if_neg hnull, hbutton]
    rw [hret]
    rw [hu32] at hcases ⊢
    have hgets : s.GetsLine c ↔ s.lines.held button = false ∧ c.buttonRequest = 0 ∧
        c.buttonInput = 0 := by simp [GetsLine, hmade]
    rcases hcases with ⟨rfl, hok, hheld⟩ | ⟨hrc, hfail, hheld⟩
    · rw [if_neg (by simp)]
      by_cases hirq : c.irqRequest = 0
      · rw [if_neg (by simp [hirq])]
        exact ⟨rfl, rfl, rfl, fun _ => ⟨rfl, rfl, by rw [hname]⟩,
          fun h => absurd ⟨hgets.2 hok, hirq⟩ h, iff_of_true hheld (Or.inr (hgets.2 hok))⟩
      · rw [if_pos hirq]
        exact ⟨rfl, rfl, rfl, fun h => absurd h.2 hirq, fun _ => ⟨hirq, rfl, rfl⟩,
          iff_of_true hheld (Or.inr (hgets.2 hok))⟩
    · rw [if_pos hrc]
      have hnot : ¬s.GetsLine c := fun h => hfail (hgets.1 h)
      exact ⟨rfl, rfl, rfl, fun h => absurd h.1 hnot, fun _ => ⟨hrc, rfl, rfl⟩,
        by simpa [hnot] using Bool.eq_iff_iff.1 hheld⟩

/-! ## Histories -/

/-- What holds of the kernel after a history that has lost the file, or the line, or not. -/
structure Sound (lostFile lostLine : Prop) (s : IrqHost) : Prop where
  irq : ∀ n, s.irq = some n → s.Live n
  vars : ∀ v, s.loaded = some v → v.ledGpio = -1 ∧ v.buttonGpio = button ∧ ¬lostLine ∧
    (v.dir = .dentry → ¬lostFile)
  file : ∀ n, s.file = some n → s.dir = true ∧ n ≤ s.loads ∧
    (lostFile ∨ n = s.loads ∧ ∃ v, s.loaded = some v ∧ v.dir = .dentry)
  lost : lostFile → s.dir = true ∧ ∃ n, s.file = some n ∧ ¬s.Live n
  held : s.lines.held button = true ↔ s.loaded.isSome = true ∨ lostLine

variable {lostFile lostLine : Prop}

theorem sound_start : (start level).Sound False False where
  irq _ h := by cases h
  vars _ h := by cases h
  file _ h := by cases h
  lost h := h.elim
  held := by simp [start, GpioLines.unused]

theorem losesLine_load : s.LosesLine (.load c) ↔ s.GetsLine c ∧ c.irqRequest ≠ 0 := by
  constructor
  · rintro ⟨c, heq, h⟩
    cases heq
    exact h
  · exact fun h => ⟨c, rfl, h⟩

theorem losesFile_load : s.LosesFile (.load c) ↔
    (s.dir = false ∧ c.createDir = .dentry ∧ c.createFile = true) ∧
      ¬(s.GetsLine c ∧ c.irqRequest = 0) := by
  constructor
  · rintro ⟨c, heq, hdir, hcreate, hfile, h⟩
    cases heq
    exact ⟨⟨hdir, hcreate, hfile⟩, h⟩
  · exact fun ⟨⟨hdir, hcreate, hfile⟩, h⟩ => ⟨c, rfl, hdir, hcreate, hfile, h⟩

/-- A file that is lost stays lost. -/
theorem Sound.lost_load (h : s.Sound lostFile lostLine) {rc : ℤ} (hload : s.Loads c rc t)
    (hlost : lostFile) : t.dir = true ∧ ∃ n, t.file = some n ∧ ¬t.Live n := by
  obtain ⟨hdir, n, hfile, -⟩ := h.lost hlost
  obtain ⟨-, hle, -⟩ := h.file n hfile
  refine ⟨by simp [hload.dir, hdir], n, by simp [hload.file, hdir, hfile], fun hlive => ?_⟩
  have hnew := hload.loads
  have hn := hlive.2
  omega

theorem Sound.load (h : s.Sound lostFile lostLine) (hs : s.loaded = none) {rc : ℤ}
    (hload : s.Loads c rc t) :
    t.Sound (lostFile ∨ s.LosesFile (.load c)) (lostLine ∨ s.LosesLine (.load c)) := by
  have hold (n : ℕ) (hfile : s.file = some n) : s.dir = true ∧ n ≤ t.loads ∧ lostFile := by
    obtain ⟨hdir, hle, hlost | ⟨-, v, hv, -⟩⟩ := h.file n hfile
    · exact ⟨hdir, hload.loads ▸ Nat.le_succ_of_le hle, hlost⟩
    · simp [hs] at hv
  have hheld : s.lines.held button = true ↔ lostLine := by simpa [hs] using h.held
  by_cases hok : s.GetsLine c ∧ c.irqRequest = 0
  · obtain ⟨-, hirq, hloaded⟩ := hload.ok hok
    have hkeeps : ¬lostLine := by simp [← hheld, hok.1.2.1]
    rw [or_iff_left fun hloses => (losesFile_load.1 hloses).2 hok,
      or_iff_left fun hloses => (losesLine_load.1 hloses).2 hok.2]
    refine ⟨fun n hn => ?_, fun v hv => ?_, fun n hn => ?_, h.lost_load hload, ?_⟩
    · obtain rfl : t.loads = n := by simpa [hirq] using hn
      exact ⟨by simp [hloaded], rfl⟩
    · obtain rfl : _ = v := Option.some.inj (hloaded.symm.trans hv)
      refine ⟨rfl, rfl, hkeeps, fun hdir hlost => ?_⟩
      simp [(h.lost hlost).1] at hdir
    · rw [hload.file] at hn
      split_ifs at hn with hmade
      · obtain rfl := Option.some.inj hn
        exact ⟨by simp [hload.dir, hmade.2.1], Nat.le_refl _,
          Or.inr ⟨rfl, _, hloaded, by simp [hmade.1, hmade.2.1]⟩⟩
      · obtain ⟨hdir, hle, hlost⟩ := hold n hn
        exact ⟨by simp [hload.dir, hdir], hle, Or.inl hlost⟩
    · exact iff_of_true (hload.held.2 (Or.inr hok.1)) (Or.inl (by simp [hloaded]))
  · obtain ⟨-, hirq, hloaded⟩ := hload.failed hok
    refine ⟨fun n hn => ?_, fun v hv => ?_, fun n hn => ?_, ?_, ?_⟩
    · have hlive := h.irq n (hirq ▸ hn)
      simp [Live, hs] at hlive
    · simp [hloaded, hs] at hv
    · rw [hload.file] at hn
      split_ifs at hn with hmade
      · obtain rfl := Option.some.inj hn
        exact ⟨by simp [hload.dir, hmade.2.1], Nat.le_refl _,
          Or.inl (Or.inr (losesFile_load.2 ⟨hmade, hok⟩))⟩
      · obtain ⟨hdir, hle, hlost⟩ := hold n hn
        exact ⟨by simp [hload.dir, hdir], hle, Or.inl (Or.inl hlost)⟩
    · rintro (hlost | hloses)
      · exact h.lost_load hload hlost
      · obtain ⟨hmade, -⟩ := losesFile_load.1 hloses
        refine ⟨by simp [hload.dir, hmade.2.1], t.loads, by simp [hload.file, hmade],
          fun hlive => ?_⟩
        simp [Live, hloaded, hs] at hlive
    · rw [hload.held, hheld, hloaded, hs, losesLine_load]
      simp only [Option.isSome_none, Bool.false_eq_true, false_or]
      exact or_congr_right ⟨fun hgets => ⟨hgets, fun hzero => hok ⟨hgets, hzero⟩⟩, And.left⟩

theorem Sound.unload (h : s.Sound lostFile lostLine) {v : IrqVars} (hv : s.loaded = some v) :
    (s.onboardIoExit v).Sound lostFile lostLine := by
  obtain ⟨hled, hbutton, hkeeps, hdir⟩ := h.vars v hv
  have hfreed : (s.onboardIoExit v).lines.held button = false := by
    have hpos : 0 ≤ button := by decide
    simp [onboardIoExit, hled, hbutton, hpos]
  refine ⟨(fun _ hn => by cases hn), (fun _ hv => by cases hv), fun n hn => ?_,
    fun hlost => ?_, ?_⟩
  · have hother : v.dir ≠ .dentry := fun heq => by simp [onboardIoExit, heq] at hn
    have hfile : s.file = some n := by simpa [onboardIoExit, hother] using hn
    obtain ⟨hmade, hle, hlost | ⟨-, u, hu, hdentry⟩⟩ := h.file n hfile
    · exact ⟨by simp [onboardIoExit, hmade, hother], hle, Or.inl hlost⟩
    · obtain rfl := Option.some.inj (hv.symm.trans hu)
      exact absurd hdentry hother
  · have hother : v.dir ≠ .dentry := fun heq => hdir heq hlost
    obtain ⟨hmade, n, hfile, -⟩ := h.lost hlost
    exact ⟨by simp [onboardIoExit, hmade, hother], n, by simp [onboardIoExit, hfile, hother],
      fun hlive => by cases hlive.1⟩
  · rw [hfreed]
    exact iff_of_false Bool.false_ne_true (not_or.2 ⟨Bool.false_ne_true, hkeeps⟩)

theorem Sound.step (h : s.Sound lostFile lostLine) (hstep : s.step a = some t) :
    t.Sound (lostFile ∨ s.LosesFile a) (lostLine ∨ s.LosesLine a) := by
  cases a with
  | load c =>
    obtain ⟨hs, ht⟩ := Option.ite_none_right_eq_some.1 hstep
    obtain rfl := Option.some.inj ht
    exact h.load (Option.isNone_iff_eq_none.1 hs) (onboardIoInit_loads c s)
  | unload =>
    obtain ⟨v, hv, rfl⟩ := Option.map_eq_some_iff.1 hstep
    simpa [LosesFile, LosesLine] using h.unload hv
  | press | access =>
    obtain rfl := Option.some.inj hstep
    simpa [LosesFile, LosesLine] using h

/-- A load of the history loses the file, or the line. -/
def Lost (loses : IrqHost → IrqHostAct → Prop) (s : IrqHost) (as : List IrqHostAct) : Prop :=
  ¬EveryStep IrqHost.step (fun s a _ => ¬loses s a) s as

theorem lost_cons {loses : IrqHost → IrqHostAct → Prop} (hstep : s.step a = some t) :
    Lost loses s (a :: as) ↔ loses s a ∨ Lost loses t as := by
  rw [Lost, everyStep_cons_of_step hstep, not_and_or, not_not]
  rfl

theorem Sound.exec (h : s.Sound lostFile lostLine) (hrun : exec IrqHost.step s as = some t) :
    t.Sound (lostFile ∨ Lost LosesFile s as) (lostLine ∨ Lost LosesLine s as) := by
  induction as generalizing s lostFile lostLine with
  | nil =>
    obtain rfl : s = t := by simpa using hrun
    simpa [Lost] using h
  | cons a as ih =>
    obtain ⟨u, hu, hrest⟩ := exec_cons_eq_some.1 hrun
    simpa only [lost_cons hu, or_assoc] using ih (h.step hu) hrest

/-- In every history of loads, unloads, presses and accesses to the file, whatever the kernel
calls return : the handler only ever touches the `counter` of the module that is loaded. An
access to the file touches one that is gone if and only if a load that made it has failed, at
every time after that. With no module loaded the line is held if and only if a load has failed
in `request_threaded_irq`, and every later load fails. -/
theorem reload_history (hrun : exec IrqHost.step (start level) as = some t) :
    (∀ n ∈ t.touches .press, t.Live n) ∧
      ((∃ n ∈ t.touches .access, ¬t.Live n) ↔ Lost LosesFile (start level) as) ∧
      (t.lines.held button = true ↔
        t.loaded.isSome = true ∨ Lost LosesLine (start level) as) ∧
      (Lost LosesLine (start level) as → t.loaded = none ∧ ∀ c, (t.onboardIoInit c).1 ≠ 0) := by
  have hsound := sound_start.exec hrun
  simp only [false_or] at hsound
  refine ⟨hsound.irq, ⟨?_, fun hlost => ?_⟩, hsound.held, fun hlost => ?_⟩
  · rintro ⟨n, hn, hgone⟩
    obtain ⟨-, -, hlost | ⟨heq, v, hv, -⟩⟩ := hsound.file n hn
    · exact hlost
    · exact absurd ⟨by simp [hv], heq⟩ hgone
  · exact (hsound.lost hlost).2
  · have hnone : t.loaded = none := by
      by_contra hsome
      obtain ⟨v, hv⟩ := Option.ne_none_iff_exists'.1 hsome
      exact (hsound.vars v hv).2.2.1 hlost
    refine ⟨hnone, fun c => ((onboardIoInit_loads c t).failed fun hok => ?_).1⟩
    have hheld := hsound.held.2 (Or.inr hlost)
    simp [hok.1.2.1] at hheld

/-- A load that fails in `request_threaded_irq`, an access, and a load that could succeed. -/
theorem failed_then_reload :
    ∃ t, exec IrqHost.step (start fun _ => false)
        [.load ⟨.dentry, true, 0, 0, -eInval⟩, .access, .load ⟨.dentry, true, 0, 0, 0⟩] =
          some t ∧
      Lost LosesFile (start fun _ => false)
        [.load ⟨.dentry, true, 0, 0, -eInval⟩, .access, .load ⟨.dentry, true, 0, 0, 0⟩] ∧
      t.file = some 1 ∧ t.loads = 2 ∧ t.loaded = none := by
  obtain ⟨t, hrun, hfile⟩ := Option.map_eq_some_iff.1 (by decide +kernel :
    (exec IrqHost.step (start fun _ => false)
      [.load ⟨.dentry, true, 0, 0, -eInval⟩, .access, .load ⟨.dentry, true, 0, 0, 0⟩]).map
      (fun t => (t.file, t.loads, t.loaded.isNone)) = some (some 1, 2, true))
  obtain ⟨hfile, hloads, hnone⟩ : t.file = some 1 ∧ t.loads = 2 ∧ t.loaded.isNone = true := by
    simpa using hfile
  have hloaded := Option.isNone_iff_eq_none.1 hnone
  refine ⟨t, hrun, (reload_history hrun).2.1.1 ⟨1, hfile, fun hlive => ?_⟩, hfile, hloads, hloaded⟩
  simp [Live, hloaded] at hlive

end IrqHost

end ProCamp
