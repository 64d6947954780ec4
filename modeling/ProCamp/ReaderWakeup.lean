import ProCamp.DriverInvariant

/-!
# Readers asleep on data

A reader tests `rp` against `wp` outside `rd_mutex`, so a byte can arrive between its
test and its sleep. `plat_dummy_work` wakes `rwq` after it has published a frame, and
until it does a `wake_up` is pending (`Work.Waking`). The invariant `WakeInv` speaks of
committed readers, those past their last test, and not only of those asleep.

`plat_dummy_write` moves `wp` and never wakes `rwq`. It leaves a committed reader
without a wake-up unless it publishes nothing, no reader is committed, or a poll is
about to wake them anyway (`QuietWrite`).
-/

namespace ProCamp

open PlatDummyDevice Driver Machine

/-- The reader sleeps unless a `wake_up` or a signal comes. -/
def Reader.Committed : Reader → Prop
  | .wait _ w => w.Committed
  | _ => False

/-- The run of the work has begun to publish and has not woken `rwq` yet. -/
def Work.Waking : Work → Prop
  | .put .. | .wrap .. | .unlock _ | .wake _ => True
  | _ => False

namespace Driver

variable {size : ℕ} {s t : Driver} {i : ℕ} {x : Input}

/-- No reader is asleep on data without a wake-up pending. -/
def NoLostWakeup (s : Driver) : Prop :=
  (∃ i count, s.readers i = .wait count .asleep) → s.dev.rp ≠ s.dev.wp → s.work.Waking

/-- A write that moves `wp` while a reader is committed finds a wake-up pending, or
leaves `rp = wp`. -/
def QuietWrite (s : Driver) (y : Act) : Prop :=
  ∀ i count, y = .writer i .go → s.writers i = .advance count →
    (∃ j, (s.readers j).Committed) → s.dev.rp = s.dev.wp + count ∨ s.work.Waking

/-- While a reader is committed and there is data, a wake-up is pending. -/
def WakeInv (s : Driver) : Prop :=
  (∃ j, (s.readers j).Committed) → s.dev.rp ≠ s.dev.wp → s.work.Waking

theorem WakeInv.noLostWakeup (h : s.WakeInv) : s.NoLostWakeup := by
  rintro ⟨i, count, hpc⟩ hne
  refine h ⟨i, ?_⟩ hne
  rw [hpc]
  trivial

theorem wakeInv_init (io : PlatIo) : (init size io).WakeInv := by
  rintro ⟨j, hj⟩
  exact hj.elim

/-! ## Steps -/

/-- A reader becomes committed only by a test that finds the ring empty. -/
theorem ReaderMove.committed (h : ReaderMove s i t) (ht : (t.readers i).Committed) :
    (s.readers i).Committed ∨ t.dev.rp = t.dev.wp := by
  cases h with
  | @wait count w w' signal hpc hw =>
    have hw' : w'.Committed := by simpa [Reader.Committed] using ht
    refine (hw'.of_step hw).imp (fun hc => ?_) fun hcond => ?_
    · simpa [hpc, Reader.Committed] using hc
    · simpa using hcond
  | _ => simp [Reader.Committed, WaitEvent.Committed] at ht

/-- A reader moves `rp` only off data. -/
theorem ReaderMove.rp_ne (hinv : s.Inv size) (h : ReaderMove s i t)
    (ht : t.dev.rp ≠ t.dev.wp) : s.dev.rp ≠ s.dev.wp := by
  cases h with
  | advance hpc =>
    obtain ⟨-, hne, -⟩ := hinv.ok (a := .reader i) (by rw [view, hpc]; rfl)
    exact hne
  | wrap hpc =>
    obtain ⟨rfl, hr, hw⟩ := hinv.ok (a := .reader i) (by rw [view, hpc]; rfl)
    intro heq
    have hend : s.dev.rp ≠ s.dev.bufEnd := by
      unfold bufEnd
      omega
    simp only [wrapRp, if_neg hend] at ht
    exact ht heq
  | _ => exact ht

theorem wakeInv_reader (hinv : s.Inv size) (hw : s.WakeInv) (h : ReaderMove s i t) :
    t.WakeInv := by
  rintro ⟨j, hj⟩ hne
  obtain ⟨-, -, hwork, -, -, hreaders⟩ := h.frame
  rw [hwork]
  refine hw ⟨j, ?_⟩ (h.rp_ne hinv hne)
  by_cases hji : j = i
  · subst hji
    exact (h.committed hj).resolve_right hne
  · rwa [← hreaders j hji]

theorem wakeInv_writer (hinv : s.Inv size) (hw : s.WakeInv) (h : WriterMove s i x t)
    (hquiet : s.QuietWrite (.writer i x)) : t.WakeInv := by
  rintro ⟨j, hj⟩ hne
  obtain ⟨-, hreaders, hwork, -⟩ := h.frame
  rw [hreaders] at hj
  rw [hwork]
  cases h with
  | advance hpc =>
    exact (hquiet i _ rfl hpc ⟨j, hj⟩).resolve_left hne
  | wrap hpc =>
    obtain ⟨rfl, hr, hle⟩ := hinv.ok (a := .writer i) (by rw [view, hpc]; rfl)
    refine hw ⟨j, hj⟩ fun heq => hne ?_
    have hend : ¬s.dev.wp ≥ s.dev.bufEnd := by
      unfold bufEnd
      omega
    simpa only [wrapWpGe, if_neg hend] using heq
  | _ => exact hw ⟨j, hj⟩ hne

theorem committed_wakeReader (pc : Reader) : ¬(wakeReader pc).Committed := by
  cases pc with
  | wait count w => exact w.not_committed_wake
  | _ => exact id

theorem wakeInv_work (hw : s.WakeInv) (h : WorkMove s t) : t.WakeInv := by
  rintro ⟨j, hj⟩ hne
  cases h with
  | fits | put | copied | wrap | release => trivial
  | wake => exact absurd hj (committed_wakeReader _)
  | noData hpc | sample hpc | acquire hpc | interrupted hpc | size hpc | noSpace hpc
  | reject hpc | clear hpc | exit hpc =>
    have hwaking := hw ⟨j, hj⟩ hne
    rw [hpc] at hwaking
    exact hwaking.elim

theorem wakeInv_step {y : Act} (hinv : s.Inv size) (hw : s.WakeInv) (hquiet : s.QuietWrite y)
    (hstep : s.step y = some t) : t.WakeInv := by
  cases y with
  | callRead i count =>
    obtain ⟨-, rfl⟩ := callReadStep_eq hstep
    rintro ⟨j, hj⟩
    refine hw ⟨j, ?_⟩
    by_cases hji : j = i
    · subst hji
      simp [Reader.Committed] at hj
    · simpa [Function.update_of_ne hji] using hj
  | callWrite i buf =>
    obtain ⟨-, rfl⟩ := callWriteStep_eq hstep
    exact hw
  | reader i x => exact wakeInv_reader hinv hw (readerStep_move hstep)
  | writer i x => exact wakeInv_writer hinv hw (writerStep_move hstep) hquiet
  | work x => exact wakeInv_work hw (workStep_move hstep)
  | store st =>
    obtain rfl : _ = t := by simpa [Driver.step] using hstep
    exact hw

/-- In every run whose writes are quiet, no reader sleeps on data without a wake-up
pending. -/
theorem no_lost_wakeup (hsize : 0 < size) {io : PlatIo} {as : List Act}
    (hquiet : EveryStep step (fun u y _ => u.QuietWrite y) (init size io) as)
    (h : exec step (init size io) as = some s) : s.NoLostWakeup := by
  have hboth : s.Inv size ∧ s.WakeInv :=
    exec_invariant (I := fun u => u.Inv size ∧ u.WakeInv)
      (fun u y v hu hq hstep => ⟨inv_step hu.1 hstep, wakeInv_step hu.1 hu.2 hq hstep⟩)
      ⟨inv_init hsize io, wakeInv_init io⟩ hquiet h
  exact hboth.2.noLostWakeup

/-- A reader blocks on the empty ring, then a poll publishes a frame of one byte : the
wake-up is pending. -/
theorem no_lost_wakeup_poll :
    ∃ s, exec step (init dummyIoBuffSize zeroIo) (blockRun 1 ++
      [.store (.mem 0 5), .store (.size 1), .store (.flag 1)] ++
      List.replicate 5 (.work .go)) = some s ∧ s.work.Waking := by
  have hend : (exec step (init dummyIoBuffSize zeroIo) (blockRun 1 ++
      [.store (.mem 0 5), .store (.size 1), .store (.flag 1)] ++
      List.replicate 5 (.work .go))).map (fun s => (s.readers 0, s.dev.rp, s.dev.wp)) =
      some (.wait 1 .asleep, 0, 1) := by decide +kernel
  obtain ⟨s, hs, hpc⟩ := Option.map_eq_some_iff.1 hend
  simp only [Prod.mk.injEq] at hpc
  obtain ⟨hreader, hrp, hwp⟩ := hpc
  refine ⟨s, hs, no_lost_wakeup (show 0 < dummyIoBuffSize by decide) ?_ hs
    ⟨0, 1, hreader⟩ ?_⟩
  · have hact : ∀ y ∈ blockRun 1 ++ ([.store (.mem 0 5), .store (.size 1), .store (.flag 1)] ++
        List.replicate 5 (Act.work .go)), ∀ i, y ≠ .writer i .go := by
      simp [blockRun]
    rw [List.append_assoc]
    exact (everyStep_of_forall _ hact).mono fun _ _ _ hy i _ heq => absurd heq (hy i)
  · rw [hrp, hwp]
    decide

/-- A reader blocks on the empty ring, then a write of one byte returns. -/
theorem write_leaves_reader_asleep :
    ∃ s, exec step (init dummyIoBuffSize zeroIo) (blockRun 1 ++ writeRun [5]) = some s ∧
      ¬s.NoLostWakeup := by
  have hend : (exec step (init dummyIoBuffSize zeroIo) (blockRun 1 ++ writeRun [5])).map
      (fun s => (s.readers 0, s.dev.rp, s.dev.wp, s.work)) =
      some (.wait 1 .asleep, 0, 1, .idle .noData) := by decide +kernel
  obtain ⟨s, hs, hpc⟩ := Option.map_eq_some_iff.1 hend
  simp only [Prod.mk.injEq] at hpc
  obtain ⟨hreader, hrp, hwp, hwork⟩ := hpc
  refine ⟨s, hs, fun h => ?_⟩
  have hwaking := h ⟨0, 1, hreader⟩ (by rw [hrp, hwp]; decide)
  rw [hwork] at hwaking
  exact hwaking

/-- A write that is not quiet does leave a reader asleep on data, at the latest after
that reader's next step. -/
theorem lost_wakeup_of_not_quietWrite {y : Act} (hstep : s.step y = some t)
    (hquiet : ¬s.QuietWrite y) :
    ∃ as u, exec step t as = some u ∧ ¬u.NoLostWakeup := by
  simp only [QuietWrite, not_forall, not_or] at hquiet
  obtain ⟨i, count, rfl, hpc, ⟨j, hj⟩, hne, hwork⟩ := hquiet
  have ht : t = { s.setWriter i (.wrap count) with dev := s.dev.advanceWp count } := by
    simpa [Driver.step, writerStep, hpc, eq_comm] using hstep
  have hdata : t.dev.rp ≠ t.dev.wp := by simpa [ht, advanceWp] using hne
  have hidle : ¬t.work.Waking := by simpa [ht] using hwork
  have hreaders : t.readers j = s.readers j := by simp [ht]
  cases hreader : s.readers j with
  | wait c w =>
    rw [hreader] at hj hreaders
    cases w with
    | asleep => exact ⟨[], t, rfl, fun h => hidle (h ⟨j, c, hreaders⟩ hdata)⟩
    | sleep queued =>
      obtain rfl : queued = true := hj
      have hsleep : t.step (.reader j .go) = some (t.setReader j (.wait c .asleep)) := by
        simp [Driver.step, readerStep, hreaders, readerWait, WaitEvent.step]
      refine ⟨[.reader j .go], _, exec_cons_eq_some.2 ⟨_, hsleep, rfl⟩, fun h => ?_⟩
      exact hidle (h ⟨j, c, by simp⟩ hdata)
    | _ => exact hj.elim
  | _ => simp [hreader, Reader.Committed] at hj

end Driver

end ProCamp
