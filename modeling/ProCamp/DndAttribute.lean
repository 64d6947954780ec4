import ProCamp.CString
import ProCamp.CyclicBuffer
import ProCamp.Machine
import ProCamp.Mmap
import ProCamp.Numeral

/-!
# The `dndMode` attribute

`IOFUNCS( dndMode )` of `HW13/leds-gpio.c` : a store copies the text to `buf_dndMode`, of
three bytes, from which the attribute is shown, and the integer it denotes to `dndMode`. The
copy is as long as the text, and what `kstrtoint` returns is dropped.

The kernel calls `STORE_dndMode` with `count` bytes and a NUL behind them, in a page.

`dnd_attribute_iff` : the text shown and `dndMode` agree with what was accepted, within the
buffer, as long as each text stored is a number in base 2 and at most two bytes.
-/

namespace ProCamp

open CString CyclicBuffer Machine Numeral

variable {ps : PageSize}

/-- `LEN_MSG`. -/
def lenMsg : ℕ := 2

/-- `kstrtoint` in base 2. -/
def kstrtoint (s : List UInt8) : Option Int32 :=
  (signed 2 s).bind fun v => if -2 ^ 31 ≤ v ∧ v < 2 ^ 31 then some (Int32.ofInt v) else none

/-- The static data of the attribute. -/
structure DndAttr where
  /-- The bytes from the start of `buf_dndMode` on. -/
  mem : ℕ → UInt8
  dndMode : Int32

namespace DndAttr

/-- `sizeof(buf_dndMode)`. -/
def bufSize : ℕ := lenMsg + 1

/-- As it is loaded, with the memory behind `buf_dndMode`. -/
def loaded (mem : ℕ → UInt8) : DndAttr :=
  ⟨store mem 0 [newline, 0, 0], 0⟩

/-- What `strncpy` and the statement after it store, from the start of `buf_dndMode` on. -/
def stored (buf : List UInt8) : List UInt8 :=
  strncpy buf.length (buf ++ [0]) ++ [0]

/-- `STORE_dndMode`. -/
def storeDndMode (a : DndAttr) (buf : List UInt8) : ℤ × DndAttr :=
  (buf.length, {
    mem := store a.mem 0 (stored buf)
    dndMode := (kstrtoint (cText buf)).getD a.dndMode })

/-- `SHOW_dndMode` : what it returns and the text, if it ends in the page it is copied
to. -/
def showDndMode (ps : PageSize) (a : DndAttr) : Option (ℤ × List UInt8) :=
  (cString ((List.range ps.size).map a.mem)).map fun text => (text.length, text)

end DndAttr

/-- A call of the attribute's functions. -/
inductive DndCall where
  | showDndMode
  | storeDndMode (buf : List UInt8)

/-- The attribute, and the last text a store has accepted. -/
structure DndHistory where
  attr : DndAttr
  accepted : Option (List UInt8)

namespace DndHistory

open DndAttr

/-- Before the first call. -/
def init (mem : ℕ → UInt8) : DndHistory :=
  ⟨loaded mem, none⟩

/-- One call. A store is accepted unless it returns an error. -/
def step (ps : PageSize) (s : DndHistory) : DndCall → Option DndHistory
  | .showDndMode => some s
  | .storeDndMode buf =>
    if buf.length < ps.size then
      let (ret, attr) := s.attr.storeDndMode buf
      some ⟨attr, if ret < 0 then s.accepted else some (cText buf)⟩
    else none

/-- The text accepted is the one shown, and `dndMode` the integer it denotes. -/
def Agrees (ps : PageSize) (s : DndHistory) : Prop :=
  ∀ text, s.accepted = some text →
    s.attr.showDndMode ps = some ((text.length : ℤ), text) ∧ Denotes 2 text s.attr.dndMode.toInt

/-- A store stays inside `buf_dndMode` and refuses what is not a number, without a change;
after each call, what is shown and `dndMode` agree with what was accepted. -/
def Consistent (ps : PageSize) (s : DndHistory) : DndCall → DndHistory → Prop
  | .showDndMode, t => Agrees ps t
  | .storeDndMode buf, t =>
    (stored buf).length ≤ bufSize ∧
      ((¬∃ v, Denotes 2 (cText buf) v) → (s.attr.storeDndMode buf).1 < 0 ∧ t.attr = s.attr) ∧
      Agrees ps t

/-- The text is a number in base 2, of at most two bytes. -/
def ShortNumber : DndCall → Prop
  | .showDndMode => True
  | .storeDndMode buf => buf.length ≤ lenMsg ∧ ∃ v, Denotes 2 (cText buf) v

end DndHistory

/-! ## `kstrtoint` -/

theorem kstrtoint_eq_some_iff {s : List UInt8} {v : Int32} :
    kstrtoint s = some v ↔ Denotes 2 s v.toInt := by
  simp only [kstrtoint, Option.bind_eq_some_iff, signed_eq_some_iff]
  constructor
  · rintro ⟨w, hw, h⟩
    split_ifs at h with hrange
    obtain rfl := Option.some.inj h
    rwa [Int32.toInt_ofInt_of_le hrange.1 hrange.2]
  · intro h
    refine ⟨v.toInt, h, ?_⟩
    rw [if_pos ⟨v.le_toInt, v.toInt_lt⟩, Int32.ofInt_toInt]

namespace DndAttr

variable {a : DndAttr} {buf : List UInt8}

/-! ## One store -/

theorem length_stored (buf : List UInt8) : (stored buf).length = buf.length + 1 := by
  rw [stored, List.length_append, length_strncpy (by simp), List.length_singleton]

/-- The text and its NULs. -/
theorem stored_eq (buf : List UInt8) : ∃ rest, stored buf = cText buf ++ 0 :: rest := by
  have hlen := length_cText_le buf
  rw [stored, strncpy_eq (by simp) (by rwa [cText_append_singleton]), cText_append_singleton]
  cases h : buf.length - (cText buf).length with
  | zero => exact ⟨[], by simp⟩
  | succ n => exact ⟨List.replicate n 0 ++ [0], by simp [List.replicate_succ]⟩

/-- Memory that begins with what was stored. -/
theorem range_map_store (mem : ℕ → UInt8) (xs : List UInt8) {n : ℕ} (h : xs.length ≤ n) :
    ∃ rest, (List.range n).map (store mem 0 xs) = xs ++ rest := by
  obtain ⟨k, rfl⟩ := Nat.exists_eq_add_of_le h
  have hxs : (List.range xs.length).map (store mem 0 xs) = xs := by
    refine List.ext_getElem (by simp) fun i hi hi' => ?_
    have hstored := store_add mem 0 hi'
    rw [Nat.zero_add] at hstored
    rw [List.getElem_map, List.getElem_range, hstored]
  rw [List.range_add, List.map_append, hxs]
  exact ⟨_, rfl⟩

/-- The text stored is shown, if it fits in a page. -/
theorem showDndMode_storeDndMode (h : buf.length < ps.size) :
    (a.storeDndMode buf).2.showDndMode ps = some (((cText buf).length : ℤ), cText buf) := by
  obtain ⟨rest, hrest⟩ := range_map_store a.mem (stored buf) (n := ps.size)
    (by rw [length_stored]; omega)
  obtain ⟨nuls, hnuls⟩ := stored_eq buf
  rw [showDndMode, storeDndMode, hrest, hnuls, List.append_assoc, List.cons_append,
    cString_append_cons (zero_notMem_cText buf)]
  rfl

/-- A short number is in the range of an `int`. -/
theorem kstrtoint_isSome (hlen : buf.length ≤ lenMsg) {v : ℤ} (h : Denotes 2 (cText buf) v) :
    ∃ mode : Int32, kstrtoint (cText buf) = some mode := by
  have hsmall := h.natAbs_lt (by decide)
  have hpow : 2 ^ (cText buf).length ≤ 2 ^ lenMsg :=
    Nat.pow_le_pow_right (by decide) ((length_cText_le buf).trans hlen)
  have hlenMsg : 2 ^ lenMsg = 4 := rfl
  have hrange : -2 ^ 31 ≤ v ∧ v < 2 ^ 31 := by omega
  refine ⟨Int32.ofInt v, ?_⟩
  rw [kstrtoint, signed_eq_some_iff.2 h, Option.bind_some, if_pos hrange]

end DndAttr

namespace DndHistory

open DndAttr

variable {s t : DndHistory} {c : DndCall}

/-! ## Every history -/

theorem agrees_init (mem : ℕ → UInt8) : Agrees ps (init mem) :=
  fun _ h => nomatch h

/-- No store returns an error. -/
theorem step_storeDndMode {buf : List UInt8} (h : step ps s (.storeDndMode buf) = some t) :
    buf.length < ps.size ∧ t = ⟨(s.attr.storeDndMode buf).2, some (cText buf)⟩ := by
  have haccepted : ¬(s.attr.storeDndMode buf).1 < 0 := by simp [storeDndMode]
  simp only [step] at h
  by_cases hpage : buf.length < ps.size
  · rw [if_pos hpage, if_neg haccepted] at h
    exact ⟨hpage, (Option.some.inj h).symm⟩
  · rw [if_neg hpage] at h
    cases h

/-- One call is consistent if and only if a store is of a short number. -/
theorem consistent_iff (hs : Agrees ps s) (hstep : step ps s c = some t) :
    Consistent ps s c t ↔ ShortNumber c := by
  cases c with
  | showDndMode =>
    obtain rfl := Option.some.inj hstep
    exact iff_of_true hs trivial
  | storeDndMode buf =>
    obtain ⟨hpage, rfl⟩ := step_storeDndMode hstep
    simp only [Consistent, ShortNumber, length_stored, bufSize, Nat.add_le_add_iff_right]
    constructor
    · rintro ⟨hlen, hrefused, -⟩
      refine ⟨hlen, ?_⟩
      by_contra hnumber
      have hret := (hrefused hnumber).1
      simp only [storeDndMode] at hret
      omega
    · rintro ⟨hlen, v, hv⟩
      obtain ⟨mode, hmode⟩ := kstrtoint_isSome hlen hv
      refine ⟨hlen, fun hnumber => absurd ⟨v, hv⟩ hnumber, ?_⟩
      rintro text ⟨⟩
      refine ⟨showDndMode_storeDndMode hpage, ?_⟩
      have hdnd : (s.attr.storeDndMode buf).2.dndMode = mode := by simp [storeDndMode, hmode]
      rw [hdnd]
      exact kstrtoint_eq_some_iff.1 hmode

/-- In every history of the attribute, each call is consistent if and only if each text stored
is a number in base 2 of at most two bytes. -/
theorem dnd_attribute_iff (ps : PageSize) (mem : ℕ → UInt8) (cs : List DndCall) :
    EveryStep (step ps) (Consistent ps) (init mem) cs ↔
      EveryStep (step ps) (fun _ c _ => ShortNumber c) (init mem) cs := by
  refine everyStep_congr (I := Agrees ps) ?_ ?_ (agrees_init mem)
  · exact fun s c t hs hstep => consistent_iff hs hstep
  · intro s c t hs hcons hstep
    cases c with
    | showDndMode => exact hcons
    | storeDndMode buf => exact hcons.2.2

/-- `"5\n"` is accepted and shown, with `dndMode` as it was; `"10\n"` leaves the buffer. -/
theorem store_not_consistent :
    (¬EveryStep (step page4k) (Consistent page4k) (init fun _ => 0) [.storeDndMode [53, 10]] ∧
        ((init fun _ => 0).attr.storeDndMode [53, 10]).1 = 2 ∧
        ((init fun _ => 0).attr.storeDndMode [53, 10]).2.dndMode = 0) ∧
      ¬EveryStep (step page4k) (Consistent page4k) (init fun _ => 0)
        [.storeDndMode [49, 48, 10]] := by
  refine ⟨⟨fun h => ?_, rfl, rfl⟩, fun h => ?_⟩
  · obtain ⟨-, hrefused, -⟩ := (h _ rfl).1
    have hnumber : ¬∃ v, Denotes 2 (cText [53, 10]) v := by
      rintro ⟨v, hv⟩
      have hnone : signed 2 (cText [53, 10]) = none := by decide
      rw [signed_eq_some_iff.2 hv] at hnone
      cases hnone
    exact absurd (hrefused hnumber).1 (by decide)
  · exact absurd (h _ rfl).1.1 (by decide)

end DndHistory

end ProCamp
