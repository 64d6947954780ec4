import Mathlib.Order.WellFounded
import ProCamp.Machine

/-!
# What a machine can come to

`CanReach step C G s` says that some run from `s`, of actions that satisfy `C`, ends in a
state that satisfies `G`. Where an invariant holds and `G` does not, an action that keeps the
invariant and lowers a measure is enough (`canReach_of_measure`).
-/

namespace Machine

variable {σ α : Type*} {step : σ → α → Option σ} {C : α → Prop} {G H I : σ → Prop} {s t : σ}
  {a : α}

/-- Some run of actions in `C` from `s` ends in a state that satisfies `G`. -/
def CanReach (step : σ → α → Option σ) (C : α → Prop) (G : σ → Prop) (s : σ) : Prop :=
  ∃ as t, (∀ a ∈ as, C a) ∧ exec step s as = some t ∧ G t

namespace CanReach

theorem here (h : G s) : CanReach step C G s :=
  ⟨[], s, by simp, rfl, h⟩

/-- After one action. -/
theorem cons (ha : C a) (h : step s a = some t) (ht : CanReach step C G t) :
    CanReach step C G s := by
  obtain ⟨as, u, hC, hu, hG⟩ := ht
  refine ⟨a :: as, u, ?_, exec_cons_eq_some.2 ⟨t, h, hu⟩, hG⟩
  simpa using ⟨ha, hC⟩

theorem mono (h : CanReach step C G s) (hGH : ∀ t, G t → H t) : CanReach step C H s := by
  obtain ⟨as, t, hC, ht, hG⟩ := h
  exact ⟨as, t, hC, ht, hGH t hG⟩

/-- On from wherever a run ends. -/
theorem trans (h : CanReach step C G s) (hGH : ∀ t, G t → CanReach step C H t) :
    CanReach step C H s := by
  obtain ⟨as, t, hC, ht, hG⟩ := h
  obtain ⟨bs, u, hC', hu, hH⟩ := hGH t hG
  refine ⟨as ++ bs, u, fun a ha => ?_, exec_append_eq_some.2 ⟨t, ht, hu⟩, hH⟩
  exact (List.mem_append.1 ha).elim (hC a) (hC' a)

end CanReach

/-- An invariant under which, short of `G`, some action of `C` lowers a measure. -/
theorem canReach_of_measure {β : Type*} [Preorder β] [WellFoundedLT β] (μ : σ → β)
    (hprogress : ∀ s, I s → ¬G s → ∃ a t, C a ∧ step s a = some t ∧ I t ∧ μ t < μ s) {s : σ}
    (hs : I s) : CanReach step C (fun t => I t ∧ G t) s := by
  induction hμ : μ s using WellFoundedLT.induction generalizing s with
  | _ m ih =>
    subst hμ
    by_cases hG : G s
    · exact .here ⟨hs, hG⟩
    obtain ⟨a, t, ha, ht, hIt, hlt⟩ := hprogress s hs hG
    exact .cons ha ht (ih (μ t) hlt hIt rfl)

end Machine
