import ProCamp.Decimal
import ProCamp.Escaping
import ProCamp.Machine

/-!
# Dumping uevents

`main` of `HW13/16. uevent-dump.c` : it prints each message it receives with its length, then
its bytes, those that are not printable as `[0xhh]` and a NUL with a newline behind, and then
`<END>`. A message that is longer than `buf` is cut. The length of a failing `recv` is taken as
unsigned, so that the loop goes on behind the end of `buf`; what `main` does from there on is
undefined, and there is no step for it.

A message may hold the text of an escape itself. `dump_determines_iff` : what is printed tells
what has been received if and only if no message holds both such a text and a byte that is
escaped, other than NUL. Where it holds only one of the two its length tells which, as in what
the kernel sends, which is text and NULs.
-/

namespace ProCamp.UeventDump

open Escaping Machine Numeral

/-- `BUF_SIZE`. -/
def bufSize : ℕ := 4096

/-- The bytes of a literal. -/
def literal (cs : List Char) : List UInt8 :=
  cs.map Char.toUInt8

/-- A digit as `%hhx` prints it. -/
def hexDigit (d : ℕ) : UInt8 :=
  UInt8.ofNat (if d < 10 then 48 + d else 87 + d)

/-- `%02hhx`. -/
def hex (b : UInt8) : List UInt8 :=
  [hexDigit (b.toNat / 16), hexDigit (b.toNat % 16)]

/-- Lines 35 to 41. -/
def byteText (b : UInt8) : List UInt8 :=
  if b = 0 then literal ['[', '0', 'x', '0', '0', ']'] ++ [newline]
  else if b < 33 ∨ b > 126 then literal ['[', '0', 'x'] ++ hex b ++ literal [']']
  else [b]

/-- Line 33. -/
def header (len : UInt32) : List UInt8 :=
  List.replicate 14 61 ++ literal [' ', 'R', 'e', 'c', 'e', 'i', 'v', 'e', 'd', ' '] ++
    ofInt 10 len.toBitVec.toInt ++ literal [' ', 'b', 'y', 't', 'e', 's'] ++ [newline]

/-- Line 43. -/
def endText : List UInt8 :=
  literal ['<', 'E', 'N', 'D', '>'] ++ [newline]

/-- `buf`, and what has been printed. -/
structure State where
  buf : List UInt8
  out : List UInt8

/-- `recv`, which fails or receives a message : `len` and `buf`. -/
def recv (buf : List UInt8) : Option (List UInt8) → UInt32 × List UInt8
  | none => (-1, buf)
  | some message =>
    let got := message.take bufSize
    (UInt32.ofNat got.length, got ++ buf.drop got.length)

/-- Lines 34 to 42, from `i` on : the loop reads `buf` only. -/
def printBytes (buf : List UInt8) (i : ℕ) : ℕ → Option (List UInt8)
  | 0 => some []
  | n + 1 => do
    let b ← buf[i]?
    let rest ← printBytes buf (i + 1) n
    return byteText b ++ rest

/-- Lines 31 to 43, unless the loop reads behind `buf`. -/
def step (s : State) (message : Option (List UInt8)) : Option State :=
  match recv s.buf message with
  | (len, buf) => (printBytes buf 0 len.toNat).map fun text =>
    { buf, out := s.out ++ (header len ++ text ++ endText) }

/-- `main` can receive `messages`, with something in `buf` at first, without reading behind
`buf`, and has printed `out` then. -/
def Prints (messages : List (Option (List UInt8))) (out : List UInt8) : Prop :=
  ∃ buf s, buf.length = bufSize ∧ exec step ⟨buf, []⟩ messages = some s ∧ s.out = out

/-- A byte that is printed as an escape, other than NUL. -/
def Escaped (b : UInt8) : Prop :=
  b ≠ 0 ∧ (b < 33 ∨ b > 126)

/-- A message with the text of an escape in it, and a byte that is escaped. -/
def Ambiguous (message : List UInt8) : Prop :=
  (∃ b, Escaped b ∧ byteText b <:+: message) ∧ ∃ b ∈ message, Escaped b

/-! ## The texts -/

/-- A byte, or the end of a message. -/
def letterText : Option UInt8 → List UInt8
  | some b => byteText b
  | none => endText

/-- Its text is longer than one byte. -/
def Long : Option UInt8 → Prop
  | some b => b = 0 ∨ Escaped b
  | none => True

variable {b c : UInt8} {p q : List UInt8} {ls : List (Option UInt8)}

theorem byteText_zero : byteText 0 = [91, 48, 120, 48, 48, 93, newline] := by
  decide

theorem byteText_escaped (h : Escaped b) :
    byteText b = [91, 48, 120, hexDigit (b.toNat / 16), hexDigit (b.toNat % 16), 93] := by
  rw [byteText, if_neg h.1, if_pos h.2]
  rfl

theorem byteText_single (h : ¬Long (some b)) : byteText b = [b] := by
  obtain ⟨hzero, hescaped⟩ := not_or.1 h
  rw [byteText, if_neg hzero, if_neg fun hrange => hescaped ⟨hzero, hrange⟩]

theorem endText_eq : endText = [60, 69, 78, 68, 62, newline] := by
  decide

/-- The digits are printable, and no `[` or `<`. -/
theorem hexDigit_range : ∀ d < 16, 48 ≤ hexDigit d ∧ hexDigit d ≤ 102 ∧ hexDigit d ≠ 60 ∧
    hexDigit d ≠ 91 := by
  decide

theorem hexDigit_injective : ∀ d < 16, ∀ d' < 16, hexDigit d = hexDigit d' → d = d' := by
  decide

theorem div_lt (b : UInt8) : b.toNat / 16 < 16 := by
  have hlt := b.toNat_lt
  omega

theorem mod_lt (b : UInt8) : b.toNat % 16 < 16 :=
  Nat.mod_lt _ (by omega)

theorem eq_of_hexDigits (hdiv : hexDigit (b.toNat / 16) = hexDigit (c.toNat / 16))
    (hmod : hexDigit (b.toNat % 16) = hexDigit (c.toNat % 16)) : b = c := by
  have hhigh := hexDigit_injective _ (div_lt b) _ (div_lt c) hdiv
  have hlow := hexDigit_injective _ (mod_lt b) _ (mod_lt c) hmod
  exact UInt8.toNat_inj.1 (by omega)

/-- The long texts. -/
theorem letterText_long {a : Option UInt8} (h : Long a) :
    (a = none ∧ letterText a = [60, 69, 78, 68, 62, newline]) ∨
      (a = some 0 ∧ letterText a = [91, 48, 120, 48, 48, 93, newline]) ∨
      ∃ b, a = some b ∧ Escaped b ∧ letterText a =
        [91, 48, 120, hexDigit (b.toNat / 16), hexDigit (b.toNat % 16), 93] := by
  cases a with
  | none => exact Or.inl ⟨rfl, endText_eq⟩
  | some b =>
    rcases h with rfl | hescaped
    · exact Or.inr (Or.inl ⟨rfl, byteText_zero⟩)
    · exact Or.inr (Or.inr ⟨b, rfl, hescaped, byteText_escaped hescaped⟩)

theorem letterText_single {a : Option UInt8} (h : ¬Long a) : ∃ b, a = some b ∧
    letterText a = [b] ∧ 33 ≤ b ∧ b ≤ 126 := by
  cases a with
  | none => exact absurd trivial h
  | some b =>
    refine ⟨b, rfl, byteText_single h, ?_, ?_⟩ <;> simp only [Long, Escaped] at h <;> grind

theorem escaping : Escaping letterText Long where
  single a h := by
    obtain ⟨b, -, htext, -⟩ := letterText_single h
    exact ⟨b, htext⟩
  two a h := by
    rcases letterText_long h with ⟨-, htext⟩ | ⟨-, htext⟩ | ⟨b, -, -, htext⟩ <;>
      exact ⟨_, _, _, htext⟩
  injective a b ha hb heq := by
    obtain ⟨c, rfl, hc, -⟩ := letterText_single ha
    obtain ⟨d, rfl, hd, -⟩ := letterText_single hb
    rw [hc, hd] at heq
    rw [(List.cons.inj heq).1]
  prefixFree a b ha hb hprefix := by
    rcases letterText_long ha with ⟨rfl, hta⟩ | ⟨rfl, hta⟩ | ⟨c, rfl, hc, hta⟩ <;>
      rcases letterText_long hb with ⟨rfl, htb⟩ | ⟨rfl, htb⟩ | ⟨d, rfl, hd, htb⟩ <;>
      simp only [hta, htb] at hprefix
    · rfl
    · simp at hprefix
    · simp at hprefix
    · simp at hprefix
    · rfl
    · simpa using hprefix.length_le
    · simp at hprefix
    · -- the escape of no byte but NUL has the digits of NUL
      obtain ⟨hdiv, hmod⟩ : hexDigit (c.toNat / 16) = 48 ∧ hexDigit (c.toNat % 16) = 48 := by
        simpa using hprefix
      exact absurd (eq_of_hexDigits (b := c) (c := 0) hdiv hmod) hc.1
    · obtain ⟨hdiv, hmod⟩ : hexDigit (c.toNat / 16) = hexDigit (d.toNat / 16) ∧
          hexDigit (c.toNat % 16) = hexDigit (d.toNat % 16) := by
        simpa using hprefix
      rw [eq_of_hexDigits hdiv hmod]
  starts a b ha hb c hc := by
    have hhead : (letterText a).head? = some 60 ∨ (letterText a).head? = some 91 := by
      rcases letterText_long ha with ⟨-, hta⟩ | ⟨-, hta⟩ | ⟨d, -, -, hta⟩ <;> simp [hta]
    suffices hne : c ≠ 60 ∧ c ≠ 91 by
      rintro heq
      rcases hhead with hhead | hhead <;> rw [hhead] at heq
      · exact hne.1 (Option.some.inj heq).symm
      · exact hne.2 (Option.some.inj heq).symm
    rcases letterText_long hb with ⟨-, htb⟩ | ⟨-, htb⟩ | ⟨d, -, -, htb⟩ <;> rw [htb] at hc <;>
      simp only [List.tail_cons, List.mem_cons, List.not_mem_nil, or_false] at hc
    · rcases hc with rfl | rfl | rfl | rfl | rfl <;> decide
    · rcases hc with rfl | rfl | rfl | rfl | rfl | rfl <;> decide
    · have hdiv := hexDigit_range _ (div_lt d)
      have hmod := hexDigit_range _ (mod_lt d)
      rcases hc with rfl | rfl | rfl | rfl | rfl
      · decide
      · decide
      · exact hdiv.2.2
      · exact hmod.2.2
      · decide

/-! ## What can be spelled -/

/-- Single letters are printable. -/
theorem printable_of_single (h : ∀ a ∈ ls, ¬Long a) (hc : c ∈ ls.flatMap letterText) :
    33 ≤ c ∧ c ≤ 126 := by
  obtain ⟨a, ha, hmem⟩ := List.mem_flatMap.1 hc
  obtain ⟨b, -, htext, hb⟩ := letterText_single (h a ha)
  obtain rfl : c = b := by simpa [htext] using hmem
  exact hb

/-- Nothing spells the end of a message, or a NUL : both have a newline. -/
theorem not_spells_of_newline {r : List (Option UInt8)} {a : Option UInt8}
    (h : newline ∈ letterText a) : ¬Spells letterText Long r a := by
  rintro ⟨ls, -, hlong, htext⟩
  exact absurd (printable_of_single hlong (htext ▸ h)).1 (by decide)

/-- A message, and its end. -/
def letters (p : List UInt8) : List (Option UInt8) :=
  p.map some ++ [none]

theorem ends_letters (p : List UInt8) : Ends none (letters p) :=
  ⟨_, rfl, by simp⟩

theorem flatMap_letters (p : List UInt8) :
    (letters p).flatMap letterText = p.flatMap byteText ++ endText := by
  simp [letters, List.flatMap_append, List.flatMap_map, letterText]

theorem flatMap_of_single (h : ∀ a ∈ ls, ¬Long a) :
    ls.flatMap letterText = ls.filterMap id := by
  induction ls with
  | nil => rfl
  | cons a ls ih =>
    obtain ⟨b, rfl, htext, -⟩ := letterText_single (h a (by simp))
    rw [List.flatMap_cons, htext, ih fun c hc => h c (by simp [hc])]
    rfl

/-- What spells an escape is its text. -/
theorem infix_of_spells (h : Spells letterText Long (letters p) (some b)) : byteText b <:+: p := by
  obtain ⟨ls, hls, hlong, htext⟩ := h
  have hinfix := hls.filterMap id
  rw [← flatMap_of_single hlong, htext] at hinfix
  simpa [letters, letterText, List.filterMap_append, List.filterMap_map] using hinfix

theorem not_spells_letters {a : Option UInt8}
    (h : ∀ b, a = some b → Escaped b → ¬byteText b <:+: p) (ha : Long a) :
    ¬Spells letterText Long (letters p) a := by
  rcases letterText_long ha with ⟨-, htext⟩ | ⟨-, htext⟩ | ⟨b, rfl, hb, -⟩
  · exact not_spells_of_newline (by simp [htext])
  · exact not_spells_of_newline (by simp [htext])
  · exact fun hspells => h b rfl hb (infix_of_spells hspells)

theorem letters_injective (h : letters p = letters q) : p = q := by
  have hmap : p.map some = q.map some := by simpa [letters] using h
  exact List.map_injective_iff.2 (Option.some_injective _) hmap

/-- With the length, what is printed of a message is enough to know it, unless it is ambiguous. -/
theorem eq_of_printed {x y : List UInt8} (hp : ¬Ambiguous p) (hlength : p.length = q.length)
    (heq : p.flatMap byteText ++ endText ++ x = q.flatMap byteText ++ endText ++ y) :
    p = q ∧ x = y := by
  have hlong : Long none := trivial
  have hstop (r : List (Option UInt8)) : ¬Spells letterText Long r none :=
    not_spells_of_newline (by decide)
  have hletters : (letters p).length = (letters q).length := by simp [letters, hlength]
  rw [← flatMap_letters, ← flatMap_letters] at heq
  by_cases hliteral : ∃ b, Escaped b ∧ byteText b <:+: p
  · have hescaped (b : UInt8) (hb : b ∈ p) : ¬Escaped b := fun h => hp ⟨hliteral, b, hb, h⟩
    obtain ⟨-, hsame, hyx⟩ := escaping.length_le_of_ends hlong hstop (ends_letters q)
      (ends_letters p) (fun a ha => not_spells_letters fun b hab hb => absurd hb
        (hescaped b (by simpa [letters, hab] using ha))) heq.symm
    exact ⟨(letters_injective (hsame hletters.le)).symm, hyx.symm⟩
  · obtain ⟨-, hsame, hxy⟩ := escaping.length_le_of_ends hlong hstop (ends_letters p)
      (ends_letters q) (fun a _ => not_spells_letters fun b _ hb hinfix => hliteral
        ⟨b, hb, hinfix⟩) heq
    exact ⟨letters_injective (hsame hletters.ge), hxy⟩

/-- The text of an escape is printed as it is. -/
theorem not_long_of_mem (hb : Escaped b) (hc : c ∈ byteText b) : ¬Long (some c) := by
  have hdiv := hexDigit_range _ (div_lt b)
  have hmod := hexDigit_range _ (mod_lt b)
  suffices h : 33 ≤ c ∧ c ≤ 126 by
    simp only [Long, Escaped]
    grind
  rw [byteText_escaped hb] at hc
  simp only [List.mem_cons, List.not_mem_nil, or_false] at hc
  rcases hc with rfl | rfl | rfl | rfl | rfl | rfl
  · decide
  · decide
  · decide
  · exact ⟨by grind, by grind⟩
  · exact ⟨by grind, by grind⟩
  · decide

theorem flatMap_byteText (hb : Escaped b) : (byteText b).flatMap byteText = byteText b := by
  have hsingle : ∀ a ∈ (byteText b).map some, ¬Long a := by
    simpa using fun c hc => not_long_of_mem hb hc
  simpa [List.flatMap_map, letterText] using flatMap_of_single hsingle

/-- A message with the escape at one place and the byte at the other, and the other way round. -/
theorem swap {u v w : List UInt8} (hb : Escaped b) (hc : Escaped c) :
    (u ++ byteText b ++ v ++ [c] ++ w).length = (u ++ [b] ++ v ++ byteText c ++ w).length ∧
      (u ++ byteText b ++ v ++ [c] ++ w).flatMap byteText =
        (u ++ [b] ++ v ++ byteText c ++ w).flatMap byteText ∧
      u ++ byteText b ++ v ++ [c] ++ w ≠ u ++ [b] ++ v ++ byteText c ++ w := by
  refine ⟨?_, ?_, fun heq => ?_⟩
  · simp only [List.length_append, byteText_escaped hb, byteText_escaped hc, List.length_cons,
      List.length_nil]
    omega
  · simp [List.flatMap_append, flatMap_byteText hb, flatMap_byteText hc]
  · rw [byteText_escaped hb] at heq
    obtain ⟨rfl, -⟩ : 91 = b ∧ _ := by simpa using heq
    exact absurd hb.2 (by decide)

/-- Another message is printed like an ambiguous one. -/
theorem exists_of_ambiguous (h : Ambiguous p) :
    ∃ q, q ≠ p ∧ q.length = p.length ∧ q.flatMap byteText = p.flatMap byteText := by
  obtain ⟨⟨b, hb, u, w, rfl⟩, c, hmem, hc⟩ := h
  rcases List.mem_append.1 hmem with hmem | hmem
  · rcases List.mem_append.1 hmem with hmem | hmem
    · obtain ⟨u, v, rfl⟩ := List.append_of_mem hmem
      obtain ⟨hlength, htext, hne⟩ := swap (u := u) (v := v) (w := w) hc hb
      exact ⟨u ++ byteText c ++ v ++ [b] ++ w, by simpa using hne, by simpa using hlength,
        by simpa using htext⟩
    · exact absurd (Or.inr hc) (not_long_of_mem hb hmem)
  · obtain ⟨v, w, rfl⟩ := List.append_of_mem hmem
    obtain ⟨hlength, htext, hne⟩ := swap (u := u) (v := v) (w := w) hb hc
    exact ⟨u ++ [b] ++ v ++ byteText c ++ w, by simpa using hne.symm, by simpa using hlength.symm,
      by simpa using htext.symm⟩

/-! ## Whole runs -/

/-- What is printed of a message. -/
def frame (p : List UInt8) : List UInt8 :=
  header (UInt32.ofNat p.length) ++ p.flatMap byteText ++ endText

theorem printBytes_eq {buf : List UInt8} {i n : ℕ} : printBytes buf i n =
    if i + n ≤ buf.length ∨ n = 0 then some (((buf.drop i).take n).flatMap byteText) else none := by
  induction n generalizing i with
  | zero => simp [printBytes]
  | succ n ih =>
    rcases Nat.lt_or_ge i buf.length with hi | hi
    · rw [printBytes, List.getElem?_eq_getElem hi, ih, List.drop_eq_getElem_cons hi]
      by_cases hle : i + 1 + n ≤ buf.length
      · rw [if_pos (Or.inl hle), if_pos (by omega)]
        rfl
      · rw [if_neg (by omega), if_neg (by omega)]
        rfl
    · rw [printBytes, List.getElem?_eq_none hi, if_neg (by omega)]
      rfl

variable {s t : State}

theorem step_some (hbuf : s.buf.length = bufSize) (p : List UInt8) :
    ∃ buf, buf.length = bufSize ∧
      step s (some p) = some ⟨buf, s.out ++ frame (p.take bufSize)⟩ := by
  have hle : (p.take bufSize).length ≤ bufSize := List.length_take_le _ _
  have hsize : bufSize < UInt32.size := by decide
  have hlen : (UInt32.ofNat (p.take bufSize).length).toNat = (p.take bufSize).length :=
    UInt32.toNat_ofNat_of_lt' (by omega)
  refine ⟨p.take bufSize ++ s.buf.drop (p.take bufSize).length, ?_, ?_⟩
  · rw [List.length_append, List.length_drop, hbuf]
    omega
  · rw [step, recv]
    simp only [hlen]
    rw [printBytes_eq, if_pos (Or.inl ?_)]
    · simp [frame, List.append_assoc]
    · rw [List.length_append]
      omega

theorem step_none (hbuf : s.buf.length = bufSize) : step s none = none := by
  rw [step, recv]
  simp only [printBytes_eq]
  rw [if_neg]
  · rfl
  · rw [hbuf]
    decide

/-- `main` goes on as long as `recv` does, and prints the messages one by one. -/
theorem exec_eq_some {messages : List (Option (List UInt8))} (hbuf : s.buf.length = bufSize)
    (h : exec step s messages = some t) : ∃ ps : List (List UInt8), messages = ps.map some ∧
      t.out = s.out ++ (ps.map (List.take bufSize)).flatMap frame := by
  induction messages generalizing s with
  | nil =>
    obtain rfl : s = t := by simpa using h
    exact ⟨[], rfl, by simp⟩
  | cons message messages ih =>
    obtain ⟨u, hu, hrest⟩ := exec_cons_eq_some.1 h
    cases message with
    | none =>
      rw [step_none hbuf] at hu
      cases hu
    | some p =>
      obtain ⟨buf, hlength, hstep⟩ := step_some hbuf p
      obtain rfl := Option.some.inj (hstep.symm.trans hu)
      obtain ⟨ps, rfl, hout⟩ := ih hlength hrest
      exact ⟨p :: ps, rfl, by simp [hout, List.append_assoc]⟩

theorem exec_isSome (hbuf : s.buf.length = bufSize) (ps : List (List UInt8)) :
    ∃ t, exec step s (ps.map some) = some t := by
  induction ps generalizing s with
  | nil => exact ⟨s, rfl⟩
  | cons p ps ih =>
    obtain ⟨buf, hlength, hstep⟩ := step_some hbuf p
    obtain ⟨t, ht⟩ := ih (s := ⟨buf, s.out ++ frame (p.take bufSize)⟩) hlength
    exact ⟨t, exec_cons_eq_some.2 ⟨_, hstep, ht⟩⟩

theorem prints_iff {messages : List (Option (List UInt8))} {out : List UInt8} :
    Prints messages out ↔ ∃ ps : List (List UInt8), messages = ps.map some ∧
      out = (ps.map (List.take bufSize)).flatMap frame := by
  constructor
  · rintro ⟨buf, s, hbuf, hrun, rfl⟩
    obtain ⟨ps, hps, hout⟩ := exec_eq_some hbuf hrun
    exact ⟨ps, hps, by simpa using hout⟩
  · rintro ⟨ps, rfl, rfl⟩
    obtain ⟨t, ht⟩ := exec_isSome (s := ⟨List.replicate bufSize 0, []⟩) (by simp) ps
    obtain ⟨qs, hqs, hout⟩ := exec_eq_some (by simp) ht
    obtain rfl : ps = qs := List.map_injective_iff.2 (Option.some_injective _) hqs
    exact ⟨_, t, by simp, ht, by simpa using hout⟩

/-! ## Reading it back -/

theorem append_cons_inj {u v x y : List UInt8} (hu : c ∉ u) (hv : c ∉ v)
    (h : u ++ c :: x = v ++ c :: y) : u = v ∧ x = y := by
  induction u generalizing v with
  | nil =>
    cases v with
    | nil => exact ⟨rfl, (List.cons.inj h).2⟩
    | cons d v => exact absurd (by simp [(List.cons.inj h).1]) hv
  | cons a u ih =>
    cases v with
    | nil => exact absurd (by simp [(List.cons.inj h).1]) hu
    | cons d v =>
      obtain ⟨rfl, hrest⟩ := List.cons.inj h
      obtain ⟨rfl, hxy⟩ := ih (fun hmem => hu (by simp [hmem])) (fun hmem => hv (by simp [hmem]))
        hrest
      exact ⟨rfl, hxy⟩

theorem newline_notMem_ofInt (v : ℤ) : newline ∉ ofInt 10 v := by
  have hdigits (n : ℕ) : newline ∉ digitsOf 10 n := by
    unfold digitsOf
    split_ifs
    · decide
    · intro hmem
      obtain ⟨d, hd, hchar⟩ := List.mem_map.1 hmem
      have hlt := Nat.digits_lt_base (by omega : 1 < 10) (List.mem_reverse.1 hd)
      exact (of_isDigit (isDigit_digitChar hlt (Nat.le_refl 10))).1 hchar
  unfold ofInt
  split_ifs
  · have hminus : newline ≠ minus := by decide
    simpa [hminus] using hdigits v.natAbs
  · exact hdigits v.natAbs

theorem ofInt_injective {v w : ℤ} (h : ofInt 10 v = ofInt 10 w) : v = w :=
  (denotes_ofInt (by omega) (Nat.le_refl 10) v).unique
    (h ▸ denotes_ofInt (by omega) (Nat.le_refl 10) w)

theorem toInt_len {n : ℕ} (hn : n ≤ bufSize) : (UInt32.ofNat n).toBitVec.toInt = n := by
  have hsize : bufSize < 2 ^ 31 := by decide
  rw [UInt32.toBitVec_ofNat', BitVec.toInt_eq_toNat_of_lt, BitVec.toNat_ofNat,
    Nat.mod_eq_of_lt (by omega)]
  rw [BitVec.toNat_ofNat, Nat.mod_eq_of_lt (by omega)]
  omega

/-- A header tells the length. -/
theorem header_inj {n m : ℕ} (hn : n ≤ bufSize) (hm : m ≤ bufSize) {x y : List UInt8}
    (h : header (UInt32.ofNat n) ++ x = header (UInt32.ofNat m) ++ y) : n = m ∧ x = y := by
  let line (v : ℤ) : List UInt8 := List.replicate 14 61 ++
    literal [' ', 'R', 'e', 'c', 'e', 'i', 'v', 'e', 'd', ' '] ++ ofInt 10 v ++
    literal [' ', 'b', 'y', 't', 'e', 's']
  have hline (v : ℤ) : newline ∉ line v := by
    simp only [line, List.mem_append, newline_notMem_ofInt v, or_false, not_or]
    decide
  have hsplit (len : UInt32) (x : List UInt8) :
      header len ++ x = line len.toBitVec.toInt ++ newline :: x := by
    rw [header, List.append_assoc]
    rfl
  rw [hsplit, hsplit] at h
  obtain ⟨htext, hxy⟩ := append_cons_inj (hline _) (hline _) h
  have hnumber := ofInt_injective (List.append_cancel_left (List.append_cancel_right htext))
  rw [toInt_len hn, toInt_len hm] at hnumber
  exact ⟨Int.ofNat.inj hnumber, hxy⟩

/-- Messages that are not ambiguous are the only ones that are printed like this. -/
theorem eq_of_frames {ps qs : List (List UInt8)} (hps : ∀ p ∈ ps, ¬Ambiguous p)
    (hle : ∀ p ∈ ps, p.length ≤ bufSize) (hle' : ∀ q ∈ qs, q.length ≤ bufSize)
    (h : ps.flatMap frame = qs.flatMap frame) : ps = qs := by
  have hne (p : List UInt8) (ps : List (List UInt8)) : (p :: ps).flatMap frame ≠ [] := by
    simp [frame, header]
  induction ps generalizing qs with
  | nil =>
    cases qs with
    | nil => rfl
    | cons q qs => exact absurd h.symm (hne q qs)
  | cons p ps ih =>
    cases qs with
    | nil => exact absurd h (hne p ps)
    | cons q qs =>
      simp only [List.flatMap_cons, frame, List.append_assoc] at h
      obtain ⟨hlength, hrest⟩ := header_inj (hle p (by simp)) (hle' q (by simp)) h
      simp only [← List.append_assoc] at hrest
      obtain ⟨rfl, htail⟩ := eq_of_printed (hps p (by simp)) hlength hrest
      rw [ih (fun p hp => hps p (by simp [hp])) (fun p hp => hle p (by simp [hp]))
        (fun q hq => hle' q (by simp [hq])) htail]

/-- Where `recv` fails, whatever has been received before or is received after, `main` reads
behind `buf`. For every sequence of messages, whatever `buf` holds at first, it prints one
text, which tells what has been received, up to what is cut, if and only if no message is
ambiguous. -/
theorem dump_determines_iff (ps : List (List UInt8)) :
    (∀ messages text, none ∈ messages → ¬Prints messages text) ∧
    ∃ out, (∀ text, Prints (ps.map some) text ↔ text = out) ∧
      ((∀ messages, Prints messages out → ∃ qs : List (List UInt8), messages = qs.map some ∧
          qs.map (List.take bufSize) = ps.map (List.take bufSize)) ↔
        ∀ p ∈ ps, ¬Ambiguous (p.take bufSize)) := by
  have hcut (ps : List (List UInt8)) : ∀ p ∈ ps.map (List.take bufSize), p.length ≤ bufSize := by
    simp
  refine ⟨fun messages text hnone hprints => ?_,
    (ps.map (List.take bufSize)).flatMap frame, fun text => ?_, ?_, ?_⟩
  · obtain ⟨qs, rfl, -⟩ := prints_iff.1 hprints
    simp at hnone
  · rw [prints_iff]
    constructor
    · rintro ⟨qs, hqs, rfl⟩
      rw [List.map_injective_iff.2 (Option.some_injective _) hqs]
    · rintro rfl
      exact ⟨ps, rfl, rfl⟩
  · intro hdetermines p hp hambiguous
    obtain ⟨q, hne, hlength, htext⟩ := exists_of_ambiguous hambiguous
    have hle : q.length ≤ bufSize := hlength ▸ List.length_take_le _ _
    obtain ⟨u, v, rfl⟩ := List.append_of_mem hp
    have hframe : frame q = frame (p.take bufSize) := by rw [frame, frame, hlength, htext]
    obtain ⟨qs, hqs, hsame⟩ := hdetermines ((u ++ q :: v).map some) (prints_iff.2
      ⟨_, rfl, by simp [hframe, List.take_of_length_le hle]⟩)
    rw [← List.map_injective_iff.2 (Option.some_injective _) hqs] at hsame
    refine hne ?_
    simpa [List.take_of_length_le hle] using hsame
  · intro hclear messages hprints
    obtain ⟨qs, rfl, hout⟩ := prints_iff.1 hprints
    refine ⟨qs, rfl, (eq_of_frames ?_ (hcut ps) (hcut qs) hout).symm⟩
    simpa using hclear

end ProCamp.UeventDump
