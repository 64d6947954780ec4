import ProCamp.DriverInvariant

/-!
# Calls that fail

A call that ends in an error has changed neither the pointers nor the unread bytes nor
the registers by its own steps, and does not keep `rd_mutex`. The argument runs
backwards : a step that does change one of them puts its thread on the way to success
(`kept_or_succeeding`), from where no step of the call leads to an error
(`succeeding_step`).

`copy_from_user` is the one exception. It stores straight into the live ring and
`plat_dummy_write` does not ask how much room there is, so a copy that faults may have
overwritten unread bytes already (`faulting_write_overwrites`), and does so with zeros
where it copied nothing. It does not if `rp` is not among the cells it was to store to
(`FaultFits`).
-/

namespace ProCamp

open PlatDummyDevice Driver Machine

/-- A thread on its way to reporting success. -/
def Reader.Succeeding : Reader → Prop
  | .wrap _ => True
  | .leave r | .ret r => 0 ≤ r
  | _ => False

/-- The same for a writer. -/
def Writer.Succeeding : Writer → Prop
  | .advance _ | .wrap _ => True
  | .leave r | .ret r => 0 ≤ r
  | _ => False

/-- The same for the delayed work, which has a frame that fits. -/
def Work.Succeeding : Work → Prop
  | .put .. | .wrap .. | .unlock _ | .wake _ | .clear _ => True
  | .exit last | .idle last => last = .copied
  | _ => False

/-- A call that has returned an error, or a run of the work that gave up. -/
def Reader.Failed : Reader → Prop
  | .ret r => r < 0
  | _ => False

/-- The same for a writer. -/
def Writer.Failed : Writer → Prop
  | .ret r => r < 0
  | _ => False

/-- A run of the work that gave up. -/
def Work.Failed : Work → Prop
  | .exit last | .idle last => last ≠ .copied
  | _ => False

namespace Driver

/-- The thread `a` is on its way to reporting success. -/
def Succeeding (s : Driver) : Agent → Prop
  | .reader i => (s.readers i).Succeeding
  | .writer i => (s.writers i).Succeeding
  | .work => s.work.Succeeding

/-- The last call of the thread `a` has failed. -/
def Failed (s : Driver) : Agent → Prop
  | .reader i => (s.readers i).Failed
  | .writer i => (s.writers i).Failed
  | .work => s.work.Failed

/-- The step `x` begins a call of the thread `a`. -/
def Begins (s : Driver) (x : Act) : Agent → Prop
  | .reader i => ∃ count, x = .callRead i count
  | .writer i => ∃ buf, x = .callWrite i buf
  | .work => (∃ y, x = .work y) ∧ ∃ last, s.work = .idle last

/-- The pointers, the unread bytes and the registers are as they were. -/
structure Kept (s t : Driver) : Prop where
  rp : t.dev.rp = s.dev.rp
  wp : t.dev.wp = s.dev.wp
  unread : t.dev.unread = s.dev.unread
  io : t.io = s.io

/-- A copy that faults was to end at or before `rp`. -/
def FaultFits (s : Driver) (x : Act) : Prop :=
  ∀ i stored buf, x = .writer i (.fault stored) → s.writers i = .copy buf →
    s.dev.wp < s.dev.rp → s.dev.wp + s.dev.writeCount buf.length ≤ s.dev.rp

/-- `as` takes the thread `a` through one call, from its first step on. -/
def OneCall (a : Agent) (s : Driver) : List Act → Prop
  | [] => False
  | x :: rest => s.Begins x a ∧
      ∀ t, s.step x = some t → EveryStep step (fun u y _ => ¬u.Begins y a) t rest

/-- What a failed call `as` of the thread `a`, from `s` to `t`, has left alone : no step
of its own changed the ring or the registers, it does not keep the mutex, and a frame
the work rejected is still published unless a process stored to the registers. -/
structure LeavesRing (a : Agent) (s : Driver) (as : List Act) (t : Driver) : Prop where
  kept : EveryStep step (fun u y v => y.agent = some a → Kept u v) s as
  rdMutex : t.rdMutex ≠ some a
  published : a = .work → (∀ st, Act.store st ∉ as) → t.io = s.io

variable {size : ℕ} {s t : Driver} {i : ℕ} {x : Input}

/-! ## A step that changes the ring leads to success -/

theorem ReaderMove.kept_or_succeeding (h : ReaderMove s i t) :
    Kept s t ∨ (t.readers i).Succeeding := by
  cases h with
  | advance hpc => exact Or.inr (by simp [Reader.Succeeding])
  | wrap hpc => exact Or.inr (by simp [Reader.Succeeding])
  | _ => exact Or.inl ⟨rfl, rfl, rfl, rfl⟩

theorem WriterMove.kept_or_succeeding (hinv : s.Inv size) (h : WriterMove s i x t)
    (hfits : s.FaultFits (.writer i x)) : Kept s t ∨ (t.writers i).Succeeding := by
  cases h with
  | acquire | interrupted | leave => exact Or.inl ⟨rfl, rfl, rfl, rfl⟩
  | copy | advance | wrap => exact Or.inr (by simp [Writer.Succeeding])
  | @fault buf stored hpc hlt =>
    obtain ⟨hv, rfl⟩ := hinv.ok (a := .writer i) (by rw [view, hpc]; rfl)
    have hend := writeCount_le hv.wp_lt.le buf.length
    have hlen := length_faultedCopy hlt (writeCount_le_count buf.length)
    refine Or.inl ⟨rfl, rfl, hv.unread_copyFromUser (hlen.symm ▸ hend) fun hrp => ?_, rfl⟩
    rw [hlen]
    exact hfits i stored buf rfl hpc hrp

theorem WorkMove.kept_or_succeeding (h : WorkMove s t) : Kept s t ∨ t.work.Succeeding := by
  cases h with
  | fits | put | copied | wrap | release | wake => exact Or.inr trivial
  | clear => exact Or.inr rfl
  | _ => exact Or.inl ⟨rfl, rfl, rfl, rfl⟩

theorem kept_or_succeeding (hinv : s.Inv size) {y : Act} (hstep : s.step y = some t)
    (hfits : s.FaultFits y) {a : Agent} (ha : y.agent = some a) : Kept s t ∨ t.Succeeding a := by
  cases y with
  | callRead i count =>
    obtain ⟨-, rfl⟩ := callReadStep_eq hstep
    exact Or.inl ⟨rfl, rfl, rfl, rfl⟩
  | callWrite i buf =>
    obtain ⟨-, rfl⟩ := callWriteStep_eq hstep
    exact Or.inl ⟨rfl, rfl, rfl, rfl⟩
  | reader i x =>
    obtain rfl := Option.some.inj ha
    exact (readerStep_move hstep).kept_or_succeeding
  | writer i x =>
    obtain rfl := Option.some.inj ha
    exact (writerStep_move hstep).kept_or_succeeding hinv hfits
  | work x =>
    obtain rfl := Option.some.inj ha
    exact (workStep_move hstep).kept_or_succeeding
  | store st => simp [Act.agent] at ha

/-! ## Success is not left before the next call -/

theorem ReaderMove.succeeding (h : ReaderMove s i t) (hs : (s.readers i).Succeeding) :
    (t.readers i).Succeeding := by
  cases h <;> simp_all [Reader.Succeeding]

theorem WriterMove.succeeding (h : WriterMove s i x t) (hs : (s.writers i).Succeeding) :
    (t.writers i).Succeeding := by
  cases h <;> simp_all [Writer.Succeeding]

theorem WorkMove.succeeding (h : WorkMove s t) (hs : s.work.Succeeding)
    (hidle : ∀ last, s.work ≠ .idle last) : t.work.Succeeding := by
  cases h <;> simp_all [Work.Succeeding]

theorem succeeding_wakeReader {pc : Reader} : (wakeReader pc).Succeeding ↔ pc.Succeeding := by
  cases pc <;> rfl

theorem succeeding_step {y : Act} (hstep : s.step y = some t) {a : Agent}
    (hbegins : ¬s.Begins y a) (hs : s.Succeeding a) : t.Succeeding a := by
  cases y with
  | callRead j count =>
    obtain ⟨-, rfl⟩ := callReadStep_eq hstep
    cases a with
    | reader i =>
      have hij : i ≠ j := by
        rintro rfl
        exact hbegins ⟨count, rfl⟩
      simpa [Succeeding, Function.update_of_ne hij] using hs
    | writer i => exact hs
    | work => exact hs
  | callWrite j buf =>
    obtain ⟨-, rfl⟩ := callWriteStep_eq hstep
    cases a with
    | reader i => exact hs
    | writer i =>
      have hij : i ≠ j := by
        rintro rfl
        exact hbegins ⟨buf, rfl⟩
      simpa [Succeeding, Function.update_of_ne hij] using hs
    | work => exact hs
  | reader j x =>
    have hmove := readerStep_move hstep
    obtain ⟨-, hwriters, hwork, -, -, hreaders⟩ := hmove.frame
    cases a with
    | reader i =>
      by_cases hij : i = j
      · subst hij
        exact hmove.succeeding hs
      · simpa [Succeeding, hreaders i hij] using hs
    | writer i => simpa [Succeeding, hwriters] using hs
    | work => simpa [Succeeding, hwork] using hs
  | writer j x =>
    have hmove := writerStep_move hstep
    obtain ⟨-, hreaders, hwork, -, -, -, hwriters⟩ := hmove.frame
    cases a with
    | reader i => simpa [Succeeding, hreaders] using hs
    | writer i =>
      by_cases hij : i = j
      · subst hij
        exact hmove.succeeding hs
      · simpa [Succeeding, hwriters i hij] using hs
    | work => simpa [Succeeding, hwork] using hs
  | work x =>
    have hmove := workStep_move hstep
    obtain ⟨hwriters, -, hreaders⟩ := hmove.frame
    cases a with
    | reader i =>
      obtain hr | hr := hreaders
      · simpa [Succeeding, hr] using hs
      · simpa [Succeeding, hr, succeeding_wakeReader] using hs
    | writer i => simpa [Succeeding, hwriters] using hs
    | work => exact hmove.succeeding hs fun last hidle => hbegins ⟨⟨x, rfl⟩, last, hidle⟩
  | store st =>
    obtain rfl : _ = t := by simpa [Driver.step] using hstep
    exact hs

theorem not_failed_of_succeeding {a : Agent} (hs : s.Succeeding a) : ¬s.Failed a := by
  cases a with
  | reader i =>
    cases hpc : s.readers i <;> simp_all [Succeeding, Failed, Reader.Succeeding, Reader.Failed]
  | writer i =>
    cases hpc : s.writers i <;> simp_all [Succeeding, Failed, Writer.Succeeding, Writer.Failed]
  | work => cases hpc : s.work <;> simp_all [Succeeding, Failed, Work.Succeeding, Work.Failed]

/-- A thread whose call has failed is outside its critical section. -/
theorem view_eq_none_of_failed {a : Agent} (h : s.Failed a) : s.view size a = none := by
  cases a with
  | reader i => cases hpc : s.readers i <;> simp_all [Failed, Reader.Failed, view, Reader.view]
  | writer i => cases hpc : s.writers i <;> simp_all [Failed, Writer.Failed, view, Writer.view]
  | work => cases hpc : s.work <;> simp_all [Failed, Work.Failed, view, Work.view]

/-! ## Failed calls -/

/-- No step of a call that fails changes the ring or the registers. -/
theorem kept_of_failed {a : Agent} {as : List Act} (hinv : s.Inv size) (hcall : OneCall a s as)
    (hrun : exec step s as = some t) (hfail : t.Failed a)
    (hfits : EveryStep step (fun u y _ => y.agent = some a → u.FaultFits y) s as) :
    EveryStep step (fun u y v => y.agent = some a → Kept u v) s as := by
  have hend : ¬t.Succeeding a := fun hs => not_failed_of_succeeding hs hfail
  cases as with
  | nil => exact absurd hcall id
  | cons y rest =>
    obtain ⟨u, hu, hrest⟩ := exec_cons_eq_some.1 hrun
    -- the rest begins no other call, so a thread that succeeds anywhere succeeds at the end
    have hno := hcall.2 u hu
    obtain ⟨hfitsy, hfitsrest⟩ := (everyStep_cons_of_step hu).1 hfits
    have hinvs : EveryStep step (fun u _ _ => u.Inv size) u rest :=
      everyStep_of_invariant (fun _ _ _ hI _ hstep => ⟨inv_step hI hstep, hI⟩)
        (inv_step hinv hu) (everyStep_true u rest)
    refine (everyStep_cons_of_step hu).2 ⟨fun ha => ?_, ?_⟩
    · refine (kept_or_succeeding hinv hu (hfitsy ha) ha).resolve_right fun hs => hend ?_
      exact exec_invariant (fun _ _ _ hs hb hstep => succeeding_step hstep hb hs) hs hno hrest
    · refine everyStep_of_end (S := fun u => u.Succeeding a) (fun u y v hC hstep => ?_)
        (fun u y v hs hC hstep => succeeding_step hstep hC.2 hs) ((hinvs.and hfitsrest).and hno)
        hrest hend
      by_cases ha : y.agent = some a
      · exact (kept_or_succeeding hC.1.1 hstep (hC.1.2 ha) ha).imp_left fun h _ => h
      · exact Or.inl fun h => absurd h ha

/-- In every reachable state, a call that ends in an error, or a poll that gives up, has
left the ring and the registers alone and does not keep the mutex, if a copy of its
own that faulted was to end at or before `rp`. -/
theorem failing_call_leaves_ring (hsize : 0 < size) {io : PlatIo} {pre as : List Act} {a : Agent}
    (hreach : exec step (init size io) pre = some s) (hcall : OneCall a s as)
    (hrun : exec step s as = some t) (hfail : t.Failed a)
    (hfits : EveryStep step (fun u y _ => y.agent = some a → u.FaultFits y) s as) :
    LeavesRing a s as t := by
  have hinv := inv_of_exec hsize hreach
  have hkept := kept_of_failed hinv hcall hrun hfail hfits
  have hinvt : t.Inv size :=
    exec_invariant_of_step (fun _ _ _ hI hstep => inv_step hI hstep) hinv hrun
  refine ⟨hkept, hinvt.owner_ne (view_eq_none_of_failed hfail), ?_⟩
  rintro rfl hstore
  have hno : EveryStep step (fun _ y _ => ∀ st, y ≠ .store st) s as :=
    everyStep_of_forall s fun y hy st hst => hstore st (hst ▸ hy)
  refine exec_invariant (I := fun u => u.io = s.io)
    (C := fun u y v => (y.agent = some .work → Kept u v) ∧ ∀ st, y ≠ .store st) ?_ rfl
    (hkept.and hno) hrun
  rintro u y v hu ⟨hwork, hst⟩ hstep
  by_cases hy : y.agent = some .work
  · rw [(hwork hy).io, hu]
  · have hne : ∀ x, y ≠ .work x := by
      rintro x rfl
      exact hy rfl
    rw [(frame_of_not_work hstep hne hst).1, hu]

/-! ## A write that faults -/

/-- One byte written and read, then 511 bytes written : `rp = 1`, `wp = 0`, ring full. -/
def fillRun : List Act :=
  writeRun [7] ++ readRun 1 ++ writeRun (List.replicate 511 5)

/-- A write whose copy faults after `stored` bytes. -/
def faultRun (buf : List UInt8) (stored : ℕ) : List Act :=
  [.callWrite 0 buf, .writer 0 .go, .writer 0 (.fault stored), .writer 0 .go]

theorem oneCall_faultRun (s : Driver) (buf : List UInt8) (stored : ℕ) :
    OneCall (.writer 0) s (faultRun buf stored) := by
  refine ⟨⟨buf, rfl⟩, fun t _ => ?_⟩
  have : ∀ y ∈ ([.writer 0 .go, .writer 0 (.fault stored), .writer 0 .go] : List Act),
      ¬∃ buf, y = .callWrite 0 buf := by simp
  exact everyStep_of_forall t this

/-- Two of three bytes copied over a full ring before the fault : the oldest unread byte is
replaced, and the call returns `-EFAULT`. -/
theorem faulting_write_overwrites :
    ∃ s t, exec step (init dummyIoBuffSize zeroIo) fillRun = some s ∧
      OneCall (.writer 0) s (faultRun [9, 9, 9] 2) ∧
      exec step s (faultRun [9, 9, 9] 2) = some t ∧ t.Failed (.writer 0) ∧
      ¬LeavesRing (.writer 0) s (faultRun [9, 9, 9] 2) t := by
  have hend : (exec step (init dummyIoBuffSize zeroIo) (fillRun ++ faultRun [9, 9, 9] 2)).map
      (fun t => t.writers 0) = some (.ret (-14)) := by decide +kernel
  have hbefore : (exec step (init dummyIoBuffSize zeroIo)
      (fillRun ++ [.callWrite 0 [9, 9, 9], .writer 0 .go])).map
      (fun u => u.dev.unread.head?) = some (some 5) := by decide +kernel
  have hafter : (exec step (init dummyIoBuffSize zeroIo)
      (fillRun ++ [.callWrite 0 [9, 9, 9], .writer 0 .go] ++ [.writer 0 (.fault 2)])).map
      (fun v => v.dev.unread.head?) = some (some 9) := by decide +kernel
  obtain ⟨t, ht, hpc⟩ := Option.map_eq_some_iff.1 hend
  obtain ⟨v, hv, hv9⟩ := Option.map_eq_some_iff.1 hafter
  obtain ⟨s, hs, hst⟩ := exec_append_eq_some.1 ht
  obtain ⟨u, hu, huv⟩ := exec_append_eq_some.1 hv
  rw [hu, Option.map_some, Option.some.injEq] at hbefore
  obtain ⟨s', hs', hsu⟩ := exec_append_eq_some.1 hu
  obtain rfl : s = s' := Option.some.inj (hs.symm.trans hs')
  obtain ⟨v', hfault, hv'⟩ := exec_cons_eq_some.1 huv
  obtain rfl : v' = v := Option.some.inj hv'
  refine ⟨s, t, hs, oneCall_faultRun s _ _, hst, by simp [Failed, Writer.Failed, hpc], ?_⟩
  intro hleaves
  have hkept := everyStep_iff.1 hleaves.kept [.callWrite 0 [9, 9, 9], .writer 0 .go]
    (.writer 0 (.fault 2)) [.writer 0 .go] u v' rfl hsu hfault rfl
  rw [hkept.unread, hbefore] at hv9
  simp at hv9

/-- Only the state before the call decides whether its copy was to end at or before `rp`. -/
theorem faultFits_faultRun {buf : List UInt8} (stored : ℕ)
    (hfits : s.dev.wp < s.dev.rp → s.dev.wp + s.dev.writeCount buf.length ≤ s.dev.rp) :
    EveryStep step (fun u y _ => y.agent = some (.writer 0) → u.FaultFits y) s
      (faultRun buf stored) := by
  intro u hu
  obtain ⟨-, rfl⟩ := callWriteStep_eq hu
  refine ⟨fun _ i n bytes h => (nomatch h), fun v hv => ⟨fun _ i n bytes h => (nomatch h), ?_⟩⟩
  have hmove : WriterMove (s.setWriter 0 (.lock buf)) 0 .go v := writerStep_move hv
  cases hmove with
  | acquire hpc hfree =>
    refine fun w _ => ⟨fun _ i n bytes h hcopy => ?_, fun w' _ =>
      ⟨fun _ i n bytes h => (nomatch h), trivial⟩⟩
    obtain ⟨rfl, rfl⟩ : i = 0 ∧ bytes = buf := by simp_all
    exact hfits
  | copy hpc | advance hpc | wrap hpc | leave hpc => simp at hpc

/-- Of a ring of eight bytes five are read, two are written up to the end, and three are
unread with `wp` at the start : a write of three that faults leaves them alone. -/
def roomRun : List Act :=
  writeRun [1, 2, 3, 4, 5, 6] ++ readRun 5 ++ writeRun [7, 8]

theorem failing_call_leaves_ring_with_room :
    ∃ s t, exec step (init 8 zeroIo) roomRun = some s ∧ s.dev.unread = [6, 7, 8] ∧
      s.dev.wp < s.dev.rp ∧ exec step s (faultRun [9, 9, 9] 2) = some t ∧
      LeavesRing (.writer 0) s (faultRun [9, 9, 9] 2) t := by
  have hroom : (exec step (init 8 zeroIo) roomRun).map
      (fun s => (s.dev.unread, s.dev.rp, s.dev.wp, s.dev.buffersize)) =
      some ([6, 7, 8], 5, 0, 8) := by decide +kernel
  have hend : (exec step (init 8 zeroIo) (roomRun ++ faultRun [9, 9, 9] 2)).map
      (fun t => t.writers 0) = some (.ret (-14)) := by decide +kernel
  obtain ⟨t, ht, hpc⟩ := Option.map_eq_some_iff.1 hend
  obtain ⟨s, hs, hst⟩ := exec_append_eq_some.1 ht
  rw [hs, Option.map_some, Option.some.injEq] at hroom
  simp only [Prod.mk.injEq] at hroom
  obtain ⟨hunread, hrp, hwp, hsize⟩ := hroom
  refine ⟨s, t, hs, hunread, by omega, hst, failing_call_leaves_ring (show 0 < 8 by decide) hs
    (oneCall_faultRun _ _ _) hst (by simp [Failed, Writer.Failed, hpc]) ?_⟩
  refine faultFits_faultRun 2 fun _ => ?_
  simp [writeCount, bufEnd, hrp, hwp, hsize]

end Driver

end ProCamp
