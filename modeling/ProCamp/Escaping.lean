import Mathlib.Data.List.Infix

/-!
# Texts with escapes

A text made letter by letter : most letters are a single symbol, the others are `long`, as an
escape or a terminator is. `Escaping` asks that no long text begins like another, and that
none begins with a symbol another goes on with.

Such a text can still be read in two ways, where single letters spell a long one (`Spells`).
That is the only way : among the words with its text, one that spells no long letter of another
is the shorter of the two (`Escaping.length_le_of_ends`). So the text and the number of letters
are enough to know the word, if either of them has none to spell or spells none.

Words are compared up to a long letter `e` that nothing spells, with more text behind.
-/

variable {α β : Type*}

/-- The texts of letters, some of which are longer than a symbol. -/
structure Escaping (text : α → List β) (long : α → Prop) : Prop where
  single : ∀ a, ¬long a → ∃ c, text a = [c]
  two : ∀ a, long a → ∃ c d w, text a = c :: d :: w
  injective : ∀ a b, ¬long a → ¬long b → text a = text b → a = b
  prefixFree : ∀ a b, long a → long b → text a <+: text b → a = b
  starts : ∀ a b, long a → long b → ∀ c ∈ (text b).tail, (text a).head? ≠ some c

namespace Escaping

variable {text : α → List β} {long : α → Prop} {a b e : α} {p q : List α} {x y w : List β}

/-- Letters in a row of `p`, each a single symbol, spell `b`. -/
def Spells (text : α → List β) (long : α → Prop) (p : List α) (b : α) : Prop :=
  ∃ ls, ls <:+: p ∧ (∀ a ∈ ls, ¬long a) ∧ ls.flatMap text = text b

/-- `p` ends in `e`, which is nowhere before. -/
def Ends (e : α) (p : List α) : Prop :=
  ∃ r, p = r ++ [e] ∧ e ∉ r

theorem ends_cons (h : Ends e (a :: p)) (ha : a ≠ e) : Ends e p := by
  obtain ⟨r, heq, hr⟩ := h
  cases r with
  | nil => exact absurd (List.cons.inj heq).1 ha
  | cons b r =>
    obtain ⟨rfl, rfl⟩ := List.cons.inj heq
    exact ⟨r, rfl, fun hmem => hr (List.mem_cons_of_mem a hmem)⟩

theorem eq_singleton_of_ends (h : Ends e (e :: p)) : p = [] := by
  obtain ⟨r, heq, hr⟩ := h
  cases r with
  | nil => exact (List.cons.inj heq).2
  | cons b r => exact absurd (List.mem_cons.2 (Or.inl (List.cons.inj heq).1)) hr

theorem not_ends_nil : ¬Ends e ([] : List α) := by
  rintro ⟨r, heq, -⟩
  simp at heq

theorem Spells.mono (h : Spells text long p b) (hpq : p <:+: q) : Spells text long q b := by
  obtain ⟨ls, hls, hlong, htext⟩ := h
  exact ⟨ls, hls.trans hpq, hlong, htext⟩

/-- Symbols no long text begins with are spelled by single letters. -/
theorem spelled (h : Escaping text long) (he : long e) (hp : Ends e p)
    (hw : ∀ c ∈ w, ∀ a, long a → (text a).head? ≠ some c)
    (heq : p.flatMap text ++ x = w ++ y) :
    ∃ ls r, p = ls ++ r ∧ (∀ a ∈ ls, ¬long a) ∧ ls.flatMap text = w ∧ Ends e r ∧
      r.flatMap text ++ x = y := by
  induction w generalizing p with
  | nil => exact ⟨[], p, rfl, by simp, rfl, hp, heq⟩
  | cons c w ih =>
    cases p with
    | nil => exact absurd hp not_ends_nil
    | cons a p =>
      have ha : ¬long a := by
        intro hlong
        obtain ⟨d, _, _, hd⟩ := h.two a hlong
        have hcd : d = c := by
          rw [List.flatMap_cons, hd] at heq
          exact (List.cons.inj heq).1
        exact hw c (by simp) a hlong (by rw [hd, hcd]; rfl)
      obtain ⟨d, hd⟩ := h.single a ha
      rw [List.flatMap_cons, hd, List.append_assoc] at heq
      obtain ⟨rfl, hrest⟩ := List.cons.inj heq
      obtain ⟨ls, r, rfl, hls, hw', hr, hy⟩ :=
        ih (ends_cons hp fun hae => ha (hae ▸ he)) (fun c hc => hw c (by simp [hc])) hrest
      refine ⟨a :: ls, r, rfl, ?_, ?_, hr, hy⟩
      · simpa using ⟨ha, hls⟩
      · rw [List.flatMap_cons, hd, hw']
        rfl

/-- A single letter and what is behind it spell a long one with the same text. -/
theorem spelled_of_eq (h : Escaping text long) (he : long e) (ha : ¬long a) (hb : long b)
    (hp : Ends e (a :: p)) (heq : (a :: p).flatMap text ++ x = text b ++ y) :
    ∃ ls r, p = ls ++ r ∧ ls ≠ [] ∧ Spells text long (a :: p) b ∧ Ends e r ∧
      r.flatMap text ++ x = y := by
  obtain ⟨c, hc⟩ := h.single a ha
  obtain ⟨d, d', w, hd⟩ := h.two b hb
  rw [List.flatMap_cons, hc, hd, List.append_assoc] at heq
  obtain ⟨rfl, hrest⟩ := List.cons.inj heq
  have hw : ∀ s ∈ d' :: w, ∀ a, long a → (text a).head? ≠ some s := by
    intro s hs a hlong
    refine h.starts a b hlong hb s ?_
    rw [hd]
    exact hs
  obtain ⟨ls, r, rfl, hls, htext, hr, hy⟩ :=
    h.spelled he (ends_cons hp fun hae => ha (hae ▸ he)) hw hrest
  refine ⟨ls, r, rfl, ?_, ⟨a :: ls, ⟨[], r, rfl⟩, by simpa using ⟨ha, hls⟩, ?_⟩, hr, hy⟩
  · rintro rfl
    cases htext
  · rw [List.flatMap_cons, htext, hc, hd]
    rfl

/-- Two words with the same text, of which the first spells no long letter of the second : the
second is as long or longer, and the same if it is not longer. -/
theorem length_le_of_ends (h : Escaping text long) (he : long e)
    (hstop : ∀ r, ¬Spells text long r e) (hp : Ends e p) (hq : Ends e q)
    (hpq : ∀ b ∈ q, long b → ¬Spells text long p b)
    (heq : p.flatMap text ++ x = q.flatMap text ++ y) :
    p.length ≤ q.length ∧ (q.length ≤ p.length → p = q) ∧ x = y := by
  induction p generalizing q with
  | nil => exact absurd hp not_ends_nil
  | cons a p ih =>
    cases q with
    | nil => exact absurd hq not_ends_nil
    | cons b q =>
      by_cases hab : a = b
      · subst hab
        rw [List.flatMap_cons, List.flatMap_cons, List.append_assoc, List.append_assoc] at heq
        have hrest := List.append_cancel_left heq
        by_cases hae : a = e
        · subst hae
          obtain rfl := eq_singleton_of_ends hp
          obtain rfl := eq_singleton_of_ends hq
          exact ⟨Nat.le_refl _, fun _ => rfl, by simpa using hrest⟩
        · obtain ⟨hle, hsame, hxy⟩ := ih (ends_cons hp hae) (ends_cons hq hae)
            (fun b hb hlong hspells => hpq b (List.mem_cons_of_mem a hb) hlong
              (hspells.mono ⟨[a], [], by simp⟩)) hrest
          exact ⟨Nat.succ_le_succ hle, fun hge => by rw [hsame (Nat.le_of_succ_le_succ hge)], hxy⟩
      · by_cases hb : long b
        · by_cases ha : long a
          · -- the shorter of two long texts is the other
            rw [List.flatMap_cons, List.flatMap_cons, List.append_assoc, List.append_assoc] at heq
            rcases List.prefix_or_prefix_of_prefix (List.prefix_append _ _)
              (heq ▸ List.prefix_append _ _) with hprefix | hprefix
            · exact absurd (h.prefixFree b a hb ha hprefix).symm hab
            · exact absurd (h.prefixFree a b ha hb hprefix) hab
          · have hsplit : (b :: q).flatMap text ++ y = text b ++ (q.flatMap text ++ y) := by
              rw [List.flatMap_cons, List.append_assoc]
            obtain ⟨-, -, -, -, hspells, -⟩ := h.spelled_of_eq he ha hb hp (heq.trans hsplit)
            exact absurd hspells (hpq b (by simp) hb)
        · by_cases ha : long a
          · -- the second word spells what the first has as one letter
            rw [List.flatMap_cons, List.append_assoc] at heq
            obtain ⟨ls, r, rfl, hls, hspells, hr, hrest⟩ := h.spelled_of_eq he hb ha hq heq.symm
            have hae : a ≠ e := fun hae => hstop _ (hae ▸ hspells)
            obtain ⟨hle, -, hxy⟩ := ih (ends_cons hp hae) hr
              (fun c hc hlong hspells => hpq c (by simp [hc]) hlong
                (hspells.mono ⟨[a], [], by simp⟩)) hrest.symm
            have hpos := List.length_pos_iff.2 hls
            have hlt : (a :: p).length < (b :: (ls ++ r)).length := by
              simp only [List.length_cons, List.length_append]
              omega
            exact ⟨Nat.le_of_lt hlt, fun hge => absurd hlt (Nat.not_lt.2 hge), hxy⟩
          · obtain ⟨c, hc⟩ := h.single a ha
            obtain ⟨d, hd⟩ := h.single b hb
            refine absurd (h.injective a b ha hb ?_) hab
            rw [List.flatMap_cons, List.flatMap_cons, hc, hd] at heq
            rw [hc, hd, (List.cons.inj heq).1]

end Escaping
