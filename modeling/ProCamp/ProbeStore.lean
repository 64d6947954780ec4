import ProCamp.CallProgress
import ProCamp.LedCoherence

/-!
# The last store of `hw3_probe`

`led_coherent` is about the runs in which that store is quiet : it finds `led_on` clear, or
the holder of the lock about to drive the pin. After any other store the pin and `led_on`
are apart, and whoever is inside can leave without driving it : a process does in any case,
the handler if it finds the button released. So the condition cannot be weakened
(`incoherent_of_not_quietProbe`).
-/

namespace ProCamp

open Machine

variable {i : ℕ} {s s' : Shared} {p p' : Proc} {pc pc' : Isr} {b t : Board} {as : List BoardAct}

/-- `d'` has the pin and the shadow of `d`. -/
def Hw3.SameLed (d d' : Hw3) : Prop :=
  d'.led = d.led ∧ d'.ledOn = d.ledOn

theorem Hw3.SameLed.coherent_iff {d d' : Hw3} (h : d.SameLed d') : d'.Coherent ↔ d.Coherent := by
  unfold Coherent
  rw [h.1, h.2]

/-! ## Who does not drive the pin -/

/-- A process inside that is not about to drive the pin leaves it, and does not come to be
about to. -/
theorem sameLed_of_not_drives (h : ProcMove i s p s' p') (hinside : p.event.isSome)
    (hdrives : ¬p.Drives s.dev) : s.dev.SameLed s'.dev ∧ ¬p'.Drives s'.dev := by
  cases h with
  | read hread => cases hread <;> exact ⟨⟨rfl, rfl⟩, id⟩
  | write hwrite =>
    cases hwrite with
    | differs hne => exact absurd hne hdrives
    | set | drive => exact absurd trivial hdrives
    | invalid | copy | fault | acquire => cases hinside
    | skip | unlock => exact ⟨⟨rfl, rfl⟩, id⟩
  | poll hpoll => cases hpoll <;> exact ⟨⟨rfl, rfl⟩, id⟩
  | ioctl hioctl =>
    cases hioctl with
    | set | setDrive => exact absurd trivial hdrives
    | setLock => cases hinside
    | _ => exact ⟨⟨rfl, rfl⟩, id⟩

/-- Nor does the handler, where the button is released. -/
theorem sameLed_of_not_drives_isr (h : IsrMove s 0 pc s' pc') (hinside : pc.event.isSome)
    (hdrives : ¬pc.Drives s.dev) (hlock : s.lock = some .isr) :
    s.dev.SameLed s'.dev ∧ ¬pc'.Drives s'.dev ∧ (s'.lock = none ∨ s'.lock = some .isr) := by
  cases h with
  | enter | acquire | wake => cases hinside
  | ready => exact ⟨⟨rfl, rfl⟩, id, Or.inr hlock⟩
  | sample => exact ⟨⟨rfl, rfl⟩, fun h => h.1 rfl, Or.inr hlock⟩
  | toggles hbtn => exact absurd hbtn hdrives
  | skips => exact ⟨⟨rfl, rfl⟩, id, Or.inr hlock⟩
  | toggle | drive => exact absurd trivial hdrives
  | unlock => exact ⟨⟨rfl, rfl⟩, id, Or.inl rfl⟩

/-- The store itself does not change what is about to be done. -/
theorem drives_gpiodSetValue {value : Int32} {a : LockHolder} :
    Board.Drives { b with
      sh := { b.sh with dev := b.sh.dev.gpiodSetValue value }, probed := true } a ↔
      b.Drives a := by
  cases a with
  | isr =>
    show Isr.Drives _ b.isr ↔ Isr.Drives _ b.isr
    cases b.isr <;> exact Iff.rfl
  | proc i =>
    show Proc.Drives _ (b.procs i) ↔ Proc.Drives _ (b.procs i)
    cases b.procs i with
    | write count pc => cases pc <;> exact Iff.rfl
    | ioctl pc => cases pc <;> exact Iff.rfl
    | idle | ret | read | poll => exact Iff.rfl

/-! ## The pin stays where it is until the lock is free -/

/-- The pin and `led_on` are apart, and whoever is inside is not about to drive the pin. -/
structure LedApart (b : Board) : Prop where
  inv : CallsInv b
  apart : ¬b.sh.dev.Coherent
  drives : ∀ a, b.sh.lock = some a → ¬b.Drives a

/-- Somebody goes on, and brings the unlock closer. -/
theorem LedApart.progress (h : LedApart b) (hlock : b.sh.lock ≠ none) :
    ∃ a t, a.GoesOn ∧ b.quietStep a = some t ∧ LedApart t ∧
      toLex (t.isr.left, t.holderLeft) < toLex (b.isr.left, b.holderLeft) := by
  obtain ⟨me, hme⟩ := Option.ne_none_iff_exists'.1 hlock
  have hdrives := h.drives me hme
  cases me with
  | isr =>
    have hinside : b.isr.event.isSome := (h.inv.events.holds.inside_iff .isr).2 hme
    have hne : b.isr ≠ .idle := fun hisr => by simp [hisr, Isr.event] at hinside
    have hlocks : b.isr ≠ .lock := fun hisr => by simp [hisr, Isr.event] at hinside
    obtain ⟨t, hstep, hleft⟩ := Board.isr_goes hne fun hisr => absurd hisr hlocks
    obtain ⟨hmove, -, -⟩ := Board.isrStep_move hstep
    obtain ⟨hsame, hdrives', hlock'⟩ := sameLed_of_not_drives_isr hmove hinside hdrives hme
    refine ⟨.isr 0, t, trivial, (Board.quietStep_isr hne).trans hstep,
      ⟨h.inv.step hstep, fun hcoh => h.apart (hsame.coherent_iff.1 hcoh), fun a ha => ?_⟩,
      Prod.Lex.toLex_lt_toLex.2 (Or.inl hleft)⟩
    rcases hlock' with hfree | hisr'
    · rw [hfree] at ha
      cases ha
    · rw [hisr'] at ha
      cases ha
      exact hdrives'
  | proc j =>
    have hinside : (b.procs j).event.isSome := (h.inv.events.holds.inside_iff (.proc j)).2 hme
    obtain ⟨s', p', hstep, hlock', hleft⟩ := holder_goes h.inv hme
    obtain ⟨hsame, hdrives'⟩ := sameLed_of_not_drives (procStep_move hstep) hinside hdrives
    refine ⟨.proc j .go, _, trivial, Board.step_proc hstep,
      ⟨h.inv.step (Board.step_proc hstep), fun hcoh => h.apart (hsame.coherent_iff.1 hcoh),
        fun a ha => ?_⟩,
      Prod.Lex.toLex_lt_toLex.2 (Or.inr ⟨rfl, hleft⟩)⟩
    rcases hlock' with hfree | hproc
    · rw [show s'.lock = some a from ha] at hfree
      cases hfree
    · obtain rfl : LockHolder.proc j = a := Option.some.inj (hproc.symm.trans ha)
      simpa [Board.Drives] using hdrives'

/-- After a store of the probe that is not quiet, those inside can go on until the lock is
free with the pin and its shadow apart. -/
theorem incoherent_of_not_quietProbe (hrun : exec Board.step Board.init as = some b)
    (hstep : b.step .probe = some t) (hquiet : ¬b.QuietProbe .probe) :
    CanReach Board.quietStep BoardAct.GoesOn
      (fun u => u.sh.lock = none ∧ ¬u.sh.dev.Coherent) t := by
  obtain ⟨hon, hdrives⟩ := not_or.1 hquiet
  have hinv : CallsInv b := exec_invariant_of_step (fun _ _ _ => CallsInv.step) callsInv_init hrun
  have hinv' : CallsInv t := hinv.step hstep
  obtain rfl : { b with
      sh := { b.sh with dev := b.sh.dev.gpiodSetValue 0 }, probed := true } = t := by
    simp only [Board.step] at hstep
    split_ifs at hstep
    exact Option.some.inj hstep
  have happart : LedApart { b with
      sh := { b.sh with dev := b.sh.dev.gpiodSetValue 0 }, probed := true } :=
    ⟨hinv', fun h => hon h.symm, fun a _ ha => hdrives ⟨a, drives_gpiodSetValue.1 ha⟩⟩
  refine (canReach_of_measure (fun u : Board => toLex (u.isr.left, u.holderLeft))
    (fun u hu hlock => hu.progress hlock) happart).mono ?_
  exact fun u hu => ⟨hu.2, hu.1.apart⟩

end ProCamp
