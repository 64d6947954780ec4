import Mathlib.Data.Vector.Basic
import ProCamp.Hw3

/-!
# The user's buffer

A call comes with an address and a count, and has no business outside of the bytes they
name. `hw3_read` stores two bytes and `hw3_write` fetches ten whatever the count is.

For `hw3_read` the bytes each step of a call stores are counted on every run of the
driver. For `hw3_write` two calls are compared, on memories that agree on the bytes
named; `hw3Write` is a whole call that runs alone, and `writesAlone_hw3Write` says that
the steps of the driver add up to it. `honours_count_iff` is when each of the two keeps
to the count.
-/

namespace ProCamp

open Machine

/-- `WRITE_BUF_LEN`. -/
def writeBufLen : ℕ := 10

/-- `READ_BUF_LEN`. -/
def readBufLen : ℕ := 2

/-- The memory of a process : the byte at an address, `none` where nothing is mapped. -/
abbrev UserMem :=
  ℕ → Option UInt8

/-- `copy_from_user` of the `n` bytes at `buf`, `none` if it faults. -/
def UserMem.copyFromUser (m : UserMem) (buf n : ℕ) : Option (Vector UInt8 n) :=
  if ∀ k < n, (m (buf + k)).isSome then some (.ofFn fun k => (m (buf + k)).getD 0) else none

/-- The memories have the same bytes, and the same holes, in `[buf, buf + count)`. -/
def UserMem.Agree (m m' : UserMem) (buf count : ℕ) : Prop :=
  ∀ a, buf ≤ a → a < buf + count → m' a = m a

/-- `hw3_write` from start to end : the value returned and the device. -/
def hw3Write (h : Hw3) (m : UserMem) (buf count : ℕ) : ℤ × Hw3 :=
  match m.copyFromUser buf writeBufLen with
  | none => (-eFault, h)
  | some kbuf =>
    match writeValue kbuf with
    | none => (-eInval, h)
    | some val =>
      (count, if h.ledOn ≠ val then { h with ledOn := val }.gpiodSetValue val else h)

namespace Board

/-- The next step of process `i` in a `hw3_write` of the bytes at `buf`. -/
def writeNext (i : ℕ) (m : UserMem) (buf : ℕ) (b : Board) : Option BoardAct :=
  match b.procs i with
  | .write _ (.copy _) =>
    some (.proc i (if (m.copyFromUser buf writeBufLen).isSome then .go else .fault 0))
  | .write _ _ => some (.proc i .go)
  | _ => none

/-- Process `i` writes `count` bytes at `buf` while nobody else takes a step. -/
def WritesAlone (i : ℕ) (m : UserMem) (buf count : ℕ) (b t : Board) : Prop :=
  ∃ u, b.step (.call i (.write ((m.copyFromUser buf writeBufLen).getD (.replicate _ 0)) count)) =
    some u ∧ RunsTo step (writeNext i m buf) u t

/-- A write of the `count` bytes at `buf` comes out the same, in its result, `led_on` and
the LED, on every memory that has the same bytes there. -/
def WriteHonours (i : ℕ) (m : UserMem) (buf count : ℕ) (b : Board) : Prop :=
  ∀ m', m.Agree m' buf count → ∀ t t', WritesAlone i m buf count b t →
    WritesAlone i m' buf count b t' → t'.procs i = t.procs i ∧
      t'.sh.dev.ledOn = t.sh.dev.ledOn ∧ t'.sh.dev.led = t.sh.dev.led

/-- The bytes the step `a` stores for process `i`, from the start of its buffer on. A copy
that faults has not stored the last one. -/
def storedFor (i : ℕ) (b : Board) : BoardAct → List UInt8
  | .proc j x =>
    if j = i then
      match b.procs i, x with
      | .read _ (.copy val), .go => [val, 0]
      | .read _ (.copy val), .fault stored => [val].take stored
      | _, _ => []
    else []
  | _ => []

/-- A call of process `i` along `as`, with the buffer `[buf, buf + count)`, stores only
there and returns at most `count`. -/
structure ReadHonours (i buf count : ℕ) (b : Board) (as : List BoardAct) (t : Board) : Prop where
  inside : EveryStep step (fun u a _ =>
    ∀ addr ∈ List.range' buf (u.storedFor i a).length, buf ≤ addr ∧ addr < buf + count) b as
  ret : ∀ r stored, t.procs i = .ret r stored → r ≤ count

/-- At line 68 the count is at least `READ_BUF_LEN`, or the copy faults with at most
`count` bytes stored. -/
def CopyFits (i count : ℕ) (b : Board) (a : BoardAct) : Prop :=
  ∀ nonblock val, b.procs i = .read nonblock (.copy val) →
    (a = .proc i .go → readBufLen ≤ count) ∧
      ∀ stored, a = .proc i (.fault stored) → min stored 1 ≤ count

end Board

variable {m m' : UserMem} {buf n count : ℕ} {h : Hw3}

/-! ## Fetching -/

theorem copyFromUser_congr (heq : ∀ k < n, m' (buf + k) = m (buf + k)) :
    m'.copyFromUser buf n = m.copyFromUser buf n := by
  have hvec : (Vector.ofFn fun k : Fin n => (m' (buf + k)).getD 0) =
      .ofFn fun k : Fin n => (m (buf + k)).getD 0 :=
    congrArg _ (funext fun k => by rw [heq k k.isLt])
  have hmapped : (∀ k < n, (m' (buf + k)).isSome) ↔ ∀ k < n, (m (buf + k)).isSome :=
    forall₂_congr fun k hk => by rw [heq k hk]
  simp only [UserMem.copyFromUser, hvec, hmapped]

theorem copyFromUser_eq_none {k : ℕ} (hk : k < n) (hnone : m (buf + k) = none) :
    m.copyFromUser buf n = none :=
  if_neg fun hall => by simpa [hnone] using hall k hk

theorem copyFromUser_isSome (hall : ∀ k < n, (m (buf + k)).isSome) :
    ∃ kbuf, m.copyFromUser buf n = some kbuf :=
  ⟨_, if_pos hall⟩

theorem hw3Write_of_none (hcopy : m.copyFromUser buf writeBufLen = none) :
    hw3Write h m buf count = (-eFault, h) := by
  simp only [hw3Write, hcopy]

/-- Only a fetch that faults returns `-EFAULT`. -/
theorem hw3Write_ne_of_some {kbuf : Vector UInt8 writeBufLen}
    (hcopy : m.copyFromUser buf writeBufLen = some kbuf) :
    (hw3Write h m buf count).1 ≠ -eFault := by
  have hneg : (-eFault : ℤ) < 0 := by decide
  simp only [hw3Write, hcopy]
  split
  · exact (by decide : (-eInval : ℤ) ≠ -eFault)
  · simp only
    omega

/-- A whole write depends on the bytes in `[buf, buf + count)` only if these are the ten
bytes it fetches, or one of them is not mapped. -/
theorem hw3Write_honours_iff :
    (∀ m', m.Agree m' buf count → (hw3Write h m' buf count).1 = (hw3Write h m buf count).1 ∧
      (hw3Write h m' buf count).2.ledOn = (hw3Write h m buf count).2.ledOn ∧
      (hw3Write h m' buf count).2.led = (hw3Write h m buf count).2.led) ↔
      writeBufLen ≤ count ∨ ∃ k < count, m (buf + k) = none := by
  constructor
  · intro hsame
    by_contra! hnot
    obtain ⟨hshort, hmapped⟩ := hnot
    cases hcopy : m.copyFromUser buf writeBufLen with
    | some kbuf =>
      -- the byte after the buffer is not mapped in the other run
      have hret := (hsame (fun a => if a < buf + count then m a else none)
        fun a _ ha => if_pos ha).1
      rw [hw3Write_of_none (copyFromUser_eq_none hshort (by simp))] at hret
      exact hw3Write_ne_of_some hcopy hret.symm
    | none =>
      -- everything after the buffer is mapped in the other run
      have hret := (hsame (fun a => if a < buf + count then m a else some 49)
        fun a _ ha => if_pos ha).1
      have hall : ∀ k < writeBufLen, (if buf + k < buf + count then m (buf + k)
          else some 49).isSome := by
        intro k _
        by_cases hk : k < count
        · simpa [hk] using Option.isSome_iff_ne_none.2 (hmapped k hk)
        · simp [hk]
      obtain ⟨kbuf, hkbuf⟩ := copyFromUser_isSome
        (m := fun a => if a < buf + count then m a else some 49) hall
      rw [hw3Write_of_none hcopy] at hret
      exact hw3Write_ne_of_some hkbuf hret
  · intro hcond m' hagree
    have heq : m'.copyFromUser buf writeBufLen = m.copyFromUser buf writeBufLen := by
      by_cases hlong : writeBufLen ≤ count
      · exact copyFromUser_congr fun k hk => hagree _ (by omega) (by omega)
      · obtain ⟨k, hk, hnone⟩ := hcond.resolve_left hlong
        have hnone' : m' (buf + k) = none := by rw [hagree _ (by omega) (by omega), hnone]
        rw [copyFromUser_eq_none (by omega) hnone, copyFromUser_eq_none (by omega) hnone']
    simp only [hw3Write, heq, and_self]

namespace Board

variable {i : ℕ} {b t u v : Board} {a : BoardAct}

/-! ## Whole writes -/

/-- A call by a process that is in none. -/
theorem step_call (hidle : b.procs i = .idle ∨ ∃ r stored, b.procs i = .ret r stored) (c : Call) :
    b.step (.call i c) = some { b with procs := Function.update b.procs i c.start } := by
  obtain hpc | ⟨r, stored, hpc⟩ := hidle <;> simp [step, callStep, hpc]

/-- The rest of a write that has its value. -/
theorem runsTo_lock {val : Bit} (hpc : b.procs i = .write count (.lock val))
    (hfree : b.sh.lock = none) :
    RunsTo step (writeNext i m buf) b { b with
      sh := { b.sh with
        dev := if b.sh.dev.ledOn ≠ val then { b.sh.dev with ledOn := val }.gpiodSetValue val
          else b.sh.dev }
      procs := Function.update b.procs i (.ret count .none) } := by
  refine .step (by simp [writeNext, hpc]; rfl)
    (by simp [step, hpc, procStep, writeStep, Shared.acquire, hfree]; rfl) ?_
  refine .step (by simp [writeNext]; rfl) (by simp [step, procStep, writeStep]; rfl) ?_
  rcases ne_or_eq b.sh.dev.ledOn val with hne | heq
  · refine .step (by simp [writeNext, hne]; rfl) (by simp [step, procStep, writeStep, hne]; rfl) ?_
    refine .step (by simp [writeNext]; rfl) (by simp [step, procStep, writeStep]; rfl) ?_
    refine .step (by simp [writeNext]; rfl) (by simp [step, procStep, writeStep]; rfl) ?_
    simpa [hne, Shared.release, hfree] using RunsTo.halt (by simp [writeNext])
  · refine .step (by simp [writeNext, heq]; rfl) (by simp [step, procStep, writeStep, heq]; rfl) ?_
    simpa [heq, Shared.release, hfree] using RunsTo.halt (by simp [writeNext])

/-- The steps of a write that runs alone add up to `hw3Write`. -/
theorem writesAlone_hw3Write (hidle : b.procs i = .idle ∨ ∃ r stored, b.procs i = .ret r stored)
    (hfree : b.sh.lock = none) :
    WritesAlone i m buf count b { b with
      sh := { b.sh with dev := (hw3Write b.sh.dev m buf count).2 }
      procs := Function.update b.procs i (.ret (hw3Write b.sh.dev m buf count).1 .none) } := by
  refine ⟨_, step_call hidle _, ?_⟩
  cases hcopy : m.copyFromUser buf writeBufLen with
  | none =>
    refine .step (by simp [writeNext, Call.start, hcopy]; rfl)
      (by simp [step, Call.start, procStep, writeStep]; rfl) ?_
    simpa [hw3Write, hcopy] using RunsTo.halt (by simp [writeNext])
  | some kbuf =>
    refine .step (by simp [writeNext, Call.start, hcopy]; rfl)
      (by simp [step, Call.start, procStep, writeStep]; rfl) ?_
    cases hval : writeValue kbuf with
    | none => simpa [hw3Write, hcopy, hval] using RunsTo.halt (by simp [writeNext])
    | some val =>
      have hpc : Function.update b.procs i (.write count (.lock val)) i =
          .write count (.lock val) := Function.update_self _ _ _
      simpa [hw3Write, hcopy, hval] using runsTo_lock (b := { b with
        procs := Function.update b.procs i (.write count (.lock val)) }) hpc hfree

/-- A write that runs alone depends on the bytes named exactly if `hw3Write` does. -/
theorem writeHonours_iff (hidle : b.procs i = .idle ∨ ∃ r stored, b.procs i = .ret r stored)
    (hfree : b.sh.lock = none) :
    WriteHonours i m buf count b ↔ writeBufLen ≤ count ∨ ∃ k < count, m (buf + k) = none := by
  rw [← hw3Write_honours_iff (h := b.sh.dev)]
  constructor
  · intro hsame m' hagree
    obtain ⟨hret, hled⟩ := hsame m' hagree _ _ (writesAlone_hw3Write hidle hfree)
      (writesAlone_hw3Write hidle hfree)
    simp only [Function.update_self, Proc.ret.injEq, and_true] at hret
    exact ⟨hret, hled⟩
  · rintro hsame m' hagree t t' ⟨u, hu, ht⟩ ⟨u', hu', ht'⟩
    obtain ⟨hret, hled⟩ := hsame m' hagree
    obtain ⟨v, hv, hend⟩ : WritesAlone i m buf count b _ := writesAlone_hw3Write hidle hfree
    obtain ⟨v', hv', hend'⟩ : WritesAlone i m' buf count b _ := writesAlone_hw3Write hidle hfree
    obtain rfl := Option.some.inj (hu.symm.trans hv)
    obtain rfl := Option.some.inj (hu'.symm.trans hv')
    rw [ht.unique hend, ht'.unique hend']
    simpa [hret] using hled

/-! ## Reads -/

/-- Storing from the start of the buffer on stays inside if it is no more than `count`. -/
theorem forall_mem_range'_iff : (∀ addr ∈ List.range' buf n, buf ≤ addr ∧ addr < buf + count) ↔
    n ≤ count := by
  constructor
  · intro hall
    by_contra hlong
    have := hall (buf + count) (List.mem_range'_1.2 ⟨by omega, by omega⟩)
    omega
  · intro hle addr haddr
    have := List.mem_range'_1.1 haddr
    omega

/-- A read whose copy succeeds returns with the bytes it has stored, and nothing else returns
with any. -/
theorem storedFor_eq {x : Input} {r : ℤ} {bytes : List UInt8}
    (h : b.step (.proc i x) = some t) (hret : t.procs i = .ret r (.bytes bytes)) :
    b.storedFor i (.proc i x) = bytes := by
  obtain ⟨⟨s', p'⟩, hproc, rfl⟩ := Option.map_eq_some_iff.1 h
  simp only [Function.update_self] at hret
  generalize hpc : b.procs i = p at hproc
  cases p with
  | read nonblock pc =>
    cases pc with
    | copy val =>
      cases x with
      | go =>
        cases hproc
        cases hret
        simp [storedFor, hpc]
      | signal => cases hproc
      | fault stored =>
        cases hproc
        cases hret
    | _ => cases readStep_move hproc <;> cases hret
  | write count pc => cases writeStep_move hproc <;> cases hret
  | poll pc => cases pollStep_move hproc <;> cases hret
  | ioctl pc => cases ioctlStep_move hproc <;> cases hret
  | idle | ret => cases hproc

/-- A step stores at most `count` bytes exactly if it is no copy of more. -/
theorem storedFor_le_iff (b : Board) (a : BoardAct) :
    (b.storedFor i a).length ≤ count ↔ b.CopyFits i count a := by
  unfold CopyFits
  cases a with
  | proc j x =>
    by_cases hji : j = i
    · subst hji
      rcases hpc : b.procs j with _ | ⟨nonblock, pc⟩ | _ | _ | _ | _
      case read =>
        cases pc <;> cases x <;> simp_all [storedFor, readBufLen]
      all_goals simp [storedFor, hpc]
    · simp [storedFor, hji]
  | call | isr | probe => simp [storedFor]

/-- A process in `hw3_read`, or back with at most `count`. -/
def ReadPart (count : ℕ) : Proc → Prop
  | .read _ _ => True
  | .ret r _ => r ≤ count
  | _ => False

theorem readPart_wake {p : Proc} : ReadPart count p.wake ↔ ReadPart count p := by
  unfold Proc.wake
  split <;> exact Iff.rfl

theorem readPart_proc {x : Input} {s' : Shared} {p' : Proc} (hp : ReadPart count (b.procs i))
    (hfits : b.CopyFits i count (.proc i x)) (h : procStep i b.sh (b.procs i) x = some (s', p')) :
    ReadPart count p' := by
  have herr : ∀ e : ℤ, 0 ≤ e → -e ≤ count := fun e he => by omega
  generalize hpc : b.procs i = p at h hp
  cases p with
  | read nonblock pc =>
    cases pc with
    | copy val =>
      obtain ⟨hgo, -⟩ := hfits nonblock val hpc
      cases x with
      | go =>
        cases h
        exact Int.ofNat_le.2 (hgo rfl)
      | signal => cases h
      | fault stored =>
        cases h
        exact herr eFault (by decide)
    | release =>
      cases readStep_move h with
      | again => exact herr eAgain (by decide)
      | release => trivial
    | wait w =>
      cases readStep_move h with
      | signalled => exact herr eRestartSys (by decide)
      | _ => trivial
    | _ => cases readStep_move h <;> trivial
  | ret r stored => cases h
  | _ => exact absurd hp id

theorem readPart_step (h : b.step a = some t) (hp : ReadPart count (b.procs i))
    (hfits : b.CopyFits i count a) (hcall : ∀ c, a ≠ .call i c) : ReadPart count (t.procs i) := by
  rcases step_cases h with ⟨j, c, rfl, hidle, rfl⟩ | ⟨j, x, s', p', rfl, -, ht⟩ |
    ⟨level, rfl, -, hprocs, -⟩ | ⟨rfl, -, rfl⟩
  · have hji : i ≠ j := fun heq => hcall c (by rw [heq])
    simpa [Function.update_of_ne hji] using hp
  · by_cases hji : i = j
    · subst hji
      obtain ⟨⟨s'', p''⟩, hproc, rfl⟩ := Option.map_eq_some_iff.1 h
      simpa using readPart_proc hp hfits hproc
    · rw [ht]
      simpa [Function.update_of_ne hji] using hp
  · rw [hprocs, afterIsr]
    split_ifs
    · exact readPart_wake.2 hp
    · exact hp
  · exact hp

/-- A read stores inside the bytes named and returns at most their number, whatever others
do meanwhile, exactly if every copy it gets to fits. -/
theorem readHonours_iff {nonblock : Bool} {rest : List BoardAct}
    (hrun : exec step b (.call i (.read nonblock) :: rest) = some t)
    (hrest : ∀ c, BoardAct.call i c ∉ rest) :
    ReadHonours i buf count b (.call i (.read nonblock) :: rest) t ↔
      EveryStep step (fun u a _ => u.CopyFits i count a) b (.call i (.read nonblock) :: rest) := by
  have hinside : ∀ (u : Board) a, (∀ addr ∈ List.range' buf (u.storedFor i a).length,
      buf ≤ addr ∧ addr < buf + count) ↔ u.CopyFits i count a := fun u a =>
    forall_mem_range'_iff.trans (storedFor_le_iff u a)
  constructor
  · exact fun h => h.inside.mono fun u a _ => (hinside u a).1
  · intro hfits
    refine ⟨hfits.mono fun u a _ => (hinside u a).2, fun r stored hret => ?_⟩
    obtain ⟨u, hu, hexec⟩ := exec_cons_eq_some.1 hrun
    obtain ⟨-, rfl⟩ := callStep_eq hu
    have hno : ∀ a ∈ rest, ∀ c, a ≠ .call i c := fun a ha c heq => hrest c (heq ▸ ha)
    have hend := exec_invariant (I := fun u => ReadPart count (u.procs i))
      (fun u a v hu hC hstep => readPart_step hstep hu hC.1 hC.2) (by simp [Call.start, ReadPart])
      (((everyStep_cons_of_step hu).1 hfits).2.and (everyStep_of_forall _ hno)) hexec
    rw [hret] at hend
    exact hend

/-- For every state of the driver, buffer and count. A read, along any run, stores only in
`[buf, buf + count)` and returns at most `count` if and only if at line 68, where it gets
there, `count` is at least `READ_BUF_LEN` or the copy faults with at most `count` bytes
stored. A write comes out the same on all memories that agree with `m` on the bytes named
if and only if `count` is at least `WRITE_BUF_LEN` or one of these bytes is not mapped. -/
theorem honours_count_iff (b : Board) (i buf count : ℕ) :
    (∀ nonblock rest t, exec step b (.call i (.read nonblock) :: rest) = some t →
      (∀ c, BoardAct.call i c ∉ rest) →
        (ReadHonours i buf count b (.call i (.read nonblock) :: rest) t ↔ EveryStep step
          (fun u a _ => u.CopyFits i count a) b (.call i (.read nonblock) :: rest))) ∧
      ((b.procs i = .idle ∨ ∃ r stored, b.procs i = .ret r stored) → b.sh.lock = none →
        ∀ m, WriteHonours i m buf count b ↔
          writeBufLen ≤ count ∨ ∃ k < count, m (buf + k) = none) :=
  ⟨fun _ _ _ hrun hrest => readHonours_iff hrun hrest,
    fun hidle hfree _ => writeHonours_iff hidle hfree⟩

/-- A read of no bytes after one interrupt. -/
def readNothing : List BoardAct :=
  .call 0 (.read true) :: List.replicate 6 (.proc 0 .go)

/-- A read of no bytes stores two and returns `2`; a write of one byte fails if the page
ends after it. -/
theorem short_counts_ignored :
    (∃ b t, exec step init (List.replicate 7 (.isr 0)) = some b ∧
      exec step b readNothing = some t ∧ t.procs 0 = .ret 2 (.bytes [48, 0]) ∧
      ¬ReadHonours 0 0x1000 0 b readNothing t) ∧
      ¬WriteHonours 0 (fun _ => some 49) 0xfff 1 init := by
  constructor
  · have hend : (exec step init (List.replicate 7 (.isr 0) ++ readNothing)).map
        (fun t => t.procs 0) = some (.ret 2 (.bytes [48, 0])) := by decide +kernel
    obtain ⟨t, ht, hret⟩ := Option.map_eq_some_iff.1 hend
    obtain ⟨b, hb, hrun⟩ := exec_append_eq_some.1 ht
    refine ⟨b, t, hb, hrun, hret, fun h => ?_⟩
    have := h.ret 2 _ hret
    simp at this
  · rw [writeHonours_iff (Or.inl rfl) rfl]
    decide

/-- Counts of 2 and 10 are honoured. -/
theorem honours_count_full :
    (∃ b t, exec step init (List.replicate 7 (.isr 0)) = some b ∧
      exec step b readNothing = some t ∧ ReadHonours 0 0x1000 2 b readNothing t) ∧
      WriteHonours 0 (fun _ => some 49) 0xff6 10 init := by
  constructor
  · have hend : (exec step init (List.replicate 7 (.isr 0) ++ readNothing)).isSome := by
      decide +kernel
    obtain ⟨t, ht⟩ := Option.isSome_iff_exists.1 hend
    obtain ⟨b, hb, hrun⟩ := exec_append_eq_some.1 ht
    refine ⟨b, t, hb, hrun, ((honours_count_iff b 0 0x1000 2).1 _ _ _ hrun (by simp)).2 ?_⟩
    exact (everyStep_true b _).mono fun u a v _ _ _ _ => ⟨fun _ => by decide, fun _ _ => by omega⟩
  · exact ((honours_count_iff init 0 0xff6 10).2 (Or.inl rfl) rfl _).2 (Or.inl (by decide))

end Board

end ProCamp
