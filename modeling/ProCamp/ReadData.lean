import ProCamp.CString
import ProCamp.Kernel
import ProCamp.PlatDummy

/-!
# The reader of two devices

`HW12/read_data.c` reads once from each of the two dummy devices, into one buffer that
starts out as zeros, and prints the buffer as a string after each read. What `read` leaves
in the buffer is not terminated : the string ends where the zeros begin.

`prints_own_iff` : the text printed for `dummy1` goes on with what the first read left
behind the bytes of the second.
-/

namespace ProCamp

open CString CyclicBuffer

/-- A call of `printf` : its format, and the string for the `%s` in it. -/
structure Printf where
  format : String
  arg : Option (List UInt8)

/-- The outcomes of the system calls in `main`. -/
structure ReadDataCalls where
  open0 : ℤ
  read0 : Except ℤ (List UInt8)
  open1 : ℤ
  read1 : Except ℤ (List UInt8)

namespace ReadDataCalls

/-- `sizeof(buffer)`. -/
def bufferSize : ℕ := 2 * 1024

/-- The buffer after `read`. -/
def readInto (buffer : List UInt8) : Except ℤ (List UInt8) → List UInt8
  | .ok bytes => bytes ++ buffer.drop bytes.length
  | .error _ => buffer

/-- `main` : what it returns and what it prints, unless `printf` runs past the end of the
buffer. -/
def main (c : ReadDataCalls) : Option (ℤ × List Printf) :=
  let cantOpen : Printf := ⟨"Can't open /dev/mem\n", none⟩
  let rule : Printf := ⟨"---------------------------------------------\n", none⟩
  if c.open0 < 0 then some (-1, [cantOpen])
  else
    let buffer := readInto (List.replicate bufferSize 0) c.read0
    (cString buffer).bind fun text0 =>
      let dummy0 : Printf := ⟨"dummy0 %s\n", some text0⟩
      if c.open1 < 0 then some (-1, [dummy0, rule, cantOpen])
      else
        let buffer := readInto buffer c.read1
        (cString buffer).map fun text1 => (0, [dummy0, rule, ⟨"dummy1 %s\n", some text1⟩])

/-- The bytes a read returned. -/
def returned : Except ℤ (List UInt8) → List UInt8
  | .ok bytes => bytes
  | .error _ => []

/-- A result `plat_dummy_read` can have on a ring that holds no NUL : an error, or some of
what the ring holds, from its front. -/
def FromRing (result : Except ℤ (List UInt8)) : Prop :=
  ∀ bytes, result = .ok bytes → ∃ d : PlatDummyDevice,
    d.Valid ∧ d.buffersize = dummyIoBuffSize ∧ 0 ∉ d.unread ∧ bytes <+: d.unread

/-- Both reads are of rings that hold no NUL. -/
def FromRings (c : ReadDataCalls) : Prop :=
  FromRing c.read0 ∧ FromRing c.read1

/-- What is printed for each device is what its own read returned. -/
def PrintsOwn (c : ReadDataCalls) (out : List Printf) : Prop :=
  (∀ arg, ⟨"dummy0 %s\n", arg⟩ ∈ out → arg = some (returned c.read0)) ∧
    ∀ arg, ⟨"dummy1 %s\n", arg⟩ ∈ out → arg = some (returned c.read1)

/-- The same is printed for `dummy1`. -/
def SameForDummy1 (out out' : List Printf) : Prop :=
  ∀ arg arg', ⟨"dummy1 %s\n", arg⟩ ∈ out → ⟨"dummy1 %s\n", arg'⟩ ∈ out' → arg = arg'

/-- The bytes of the first read that the second does not overwrite. -/
def leftOver (c : ReadDataCalls) : List UInt8 :=
  (returned c.read0).drop (returned c.read1).length

variable {c c' : ReadDataCalls} {bytes : List UInt8} {d d' : PlatDummyDevice}

/-! ## Reads -/

/-- What a read that finds data returns. -/
theorem fromRing_platDummyRead {count : ℕ} (hvalid : d.Valid)
    (hsize : d.buffersize = dummyIoBuffSize) (hnul : 0 ∉ d.unread)
    (h : d.platDummyRead count = some (bytes, d')) : FromRing (.ok bytes) := by
  rintro _ ⟨⟩
  exact ⟨d, hvalid, hsize, hnul, d'.unread, (hvalid.platDummyRead h).2.symm⟩

/-- Any bytes without a NUL that fit in a ring can be read from one. -/
theorem fromRing_ok_iff : FromRing (.ok bytes) ↔ 0 ∉ bytes ∧ bytes.length < dummyIoBuffSize := by
  constructor
  · intro h
    obtain ⟨d, hvalid, hsize, hnul, hpre⟩ := h bytes rfl
    rw [← hsize]
    exact ⟨fun hmem => hnul (hpre.subset hmem), hpre.length_le.trans_lt hvalid.length_unread_lt⟩
  · rintro ⟨hnul, hlen⟩ _ ⟨⟩
    -- an empty ring that the bytes are written to
    let d : PlatDummyDevice := ⟨dummyIoBuffSize, fun _ => 0, 0, 0⟩
    have hvalid : d.Valid := ⟨Nat.zero_lt_of_lt hlen, Nat.zero_lt_of_lt hlen⟩
    have hempty : d.unread = [] := contents_self _ _
    have hunread : ((d.copyFromUser bytes).advanceWp bytes.length).unread = bytes := by
      have happ := hvalid.unread_advanceWp bytes (by simpa [d] using hlen.le)
        (by simpa [hempty] using hlen)
      rwa [hempty, List.nil_append] at happ
    refine ⟨(d.copyFromUser bytes).advanceWp bytes.length, ⟨hvalid.rp_lt, ?_⟩, rfl,
      by rwa [hunread], ⟨[], by rw [hunread, List.append_nil]⟩⟩
    simpa [PlatDummyDevice.advanceWp, PlatDummyDevice.copyFromUser, d] using hlen

theorem fromRing_error (err : ℤ) : FromRing (.error err) :=
  fun _ h => nomatch h

theorem FromRing.bounds {result : Except ℤ (List UInt8)} (h : FromRing result) :
    0 ∉ returned result ∧ (returned result).length < bufferSize := by
  cases result with
  | error err => simp [returned, bufferSize]
  | ok bytes =>
    obtain ⟨hnul, hlen⟩ := fromRing_ok_iff.1 h
    exact ⟨hnul, hlen.trans (by decide)⟩

theorem readInto_eq (buffer : List UInt8) (result : Except ℤ (List UInt8)) :
    readInto buffer result = returned result ++ buffer.drop (returned result).length := by
  cases result <;> rfl

/-- The buffer after each read. -/
theorem buffers_eq (h : c.FromRings) : ∃ n0 n1, 0 < n0 ∧ 0 < n1 ∧
    readInto (List.replicate bufferSize 0) c.read0 = returned c.read0 ++ List.replicate n0 0 ∧
    readInto (returned c.read0 ++ List.replicate n0 0) c.read1 =
      (returned c.read1 ++ c.leftOver) ++ List.replicate n1 0 := by
  obtain ⟨-, hlen0⟩ := h.1.bounds
  obtain ⟨-, hlen1⟩ := h.2.bounds
  refine ⟨bufferSize - (returned c.read0).length, bufferSize - (returned c.read0).length -
    ((returned c.read1).length - (returned c.read0).length), by omega, by omega, ?_, ?_⟩
  · rw [readInto_eq, List.drop_replicate]
  · rw [readInto_eq, List.drop_append, List.drop_replicate, leftOver, List.append_assoc]

/-- What `main` prints. -/
theorem main_eq (h : c.FromRings) : ∃ ret out, c.main = some (ret, out) ∧
    (∀ arg, ⟨"dummy0 %s\n", arg⟩ ∈ out ↔ 0 ≤ c.open0 ∧ arg = some (returned c.read0)) ∧
    ∀ arg, ⟨"dummy1 %s\n", arg⟩ ∈ out ↔
      0 ≤ c.open0 ∧ 0 ≤ c.open1 ∧ arg = some (returned c.read1 ++ c.leftOver) := by
  obtain ⟨n0, n1, hn0, hn1, hbuf0, hbuf1⟩ := buffers_eq h
  have hnul0 := h.1.bounds.1
  have hnul1 : 0 ∉ returned c.read1 ++ c.leftOver := by
    rw [List.mem_append, not_or]
    exact ⟨h.2.bounds.1, fun hmem => hnul0 (List.mem_of_mem_drop hmem)⟩
  simp only [main, hbuf0, cString_append_replicate hnul0 hn0, Option.bind_some, hbuf1,
    cString_append_replicate hnul1 hn1, Option.map_some]
  split_ifs with h0 h1
  · exact ⟨_, _, rfl, by simp [not_le.2 h0], by simp [not_le.2 h0]⟩
  · exact ⟨_, _, rfl, by simp [not_lt.1 h0], by simp [not_le.2 h1]⟩
  · exact ⟨_, _, rfl, by simp [not_lt.1 h0], by simp [not_lt.1 h0, not_lt.1 h1]⟩

/-! ## The two texts -/

/-- The lines of a run, from what `main_eq` says of them. -/
theorem printsOwn_iff {out : List Printf}
    (hout0 : ∀ arg, ⟨"dummy0 %s\n", arg⟩ ∈ out ↔ 0 ≤ c.open0 ∧ arg = some (returned c.read0))
    (hout1 : ∀ arg, ⟨"dummy1 %s\n", arg⟩ ∈ out ↔
      0 ≤ c.open0 ∧ 0 ≤ c.open1 ∧ arg = some (returned c.read1 ++ c.leftOver)) :
    c.PrintsOwn out ↔ c.open0 < 0 ∨ c.open1 < 0 ∨
      (returned c.read0).length ≤ (returned c.read1).length := by
  have hown : c.leftOver = [] ↔
      (returned c.read0).length ≤ (returned c.read1).length := List.drop_eq_nil_iff
  rw [← hown]
  constructor
  · rintro ⟨-, hdummy1⟩
    by_contra! hopen
    have heq := hdummy1 _ ((hout1 _).2 ⟨hopen.1, hopen.2.1, rfl⟩)
    exact hopen.2.2 (by simpa using heq)
  · intro hcase
    refine ⟨fun arg harg => ((hout0 arg).1 harg).2, fun arg harg => ?_⟩
    obtain ⟨hopen0, hopen1, rfl⟩ := (hout1 arg).1 harg
    have hnone : c.leftOver = [] := (hcase.resolve_left (by omega)).resolve_left (by omega)
    rw [hnone, List.append_nil]

theorem sameForDummy1_iff {out out' : List Printf} (hagree : c.read1 = c'.read1)
    (hout : ∀ arg, ⟨"dummy1 %s\n", arg⟩ ∈ out ↔
      0 ≤ c.open0 ∧ 0 ≤ c.open1 ∧ arg = some (returned c.read1 ++ c.leftOver))
    (hout' : ∀ arg, ⟨"dummy1 %s\n", arg⟩ ∈ out' ↔
      0 ≤ c'.open0 ∧ 0 ≤ c'.open1 ∧ arg = some (returned c'.read1 ++ c'.leftOver)) :
    SameForDummy1 out out' ↔ (c.open0 < 0 ∨ c.open1 < 0) ∨ (c'.open0 < 0 ∨ c'.open1 < 0) ∨
      c.leftOver = c'.leftOver := by
  constructor
  · intro hsame
    by_contra! hopen
    have heq := hsame _ _ ((hout _).2 ⟨hopen.1.1, hopen.1.2, rfl⟩)
      ((hout' _).2 ⟨hopen.2.1.1, hopen.2.1.2, rfl⟩)
    rw [hagree] at heq
    exact hopen.2.2 (List.append_cancel_left (Option.some.inj heq))
  · rintro hcase arg arg' harg harg'
    obtain ⟨hopen0, hopen1, rfl⟩ := (hout arg).1 harg
    obtain ⟨hopen0', hopen1', rfl⟩ := (hout' arg').1 harg'
    have heq : c.leftOver = c'.leftOver := (hcase.resolve_left (by omega)).resolve_left (by omega)
    rw [hagree, heq]

/-- For every result of the two reads of rings without NUL : what is printed for each device
is what its own read returned if and only if a device could not be opened or the first read
returned no more bytes than the second; and two runs in which the second read returned the
same print the same for `dummy1` if and only if one of them does not get that far or they have
the same left over of the first read. -/
theorem prints_own_iff (c c' : ReadDataCalls) (h : c.FromRings) (h' : c'.FromRings)
    (hagree : c.read1 = c'.read1) :
    ∃ ret out ret' out', c.main = some (ret, out) ∧ c'.main = some (ret', out') ∧
      (c.PrintsOwn out ↔ c.open0 < 0 ∨ c.open1 < 0 ∨
        (returned c.read0).length ≤ (returned c.read1).length) ∧
      (SameForDummy1 out out' ↔ (c.open0 < 0 ∨ c.open1 < 0) ∨ (c'.open0 < 0 ∨ c'.open1 < 0) ∨
        c.leftOver = c'.leftOver) := by
  obtain ⟨ret, out, hmain, hout0, hout1⟩ := main_eq h
  obtain ⟨ret', out', hmain', -, hout1'⟩ := main_eq h'
  exact ⟨ret, out, ret', out', hmain, hmain', printsOwn_iff hout0 hout1,
    sameForDummy1_iff hagree hout1 hout1'⟩

/-- Device 1 had one byte, device 0 one or none. -/
theorem prints_own_one : ∃ ret out ret' out',
    main ⟨3, .ok [97], 3, .ok [99]⟩ = some (ret, out) ∧
      main ⟨3, .error (-eRestartSys), 3, .ok [99]⟩ = some (ret', out') ∧
      PrintsOwn ⟨3, .ok [97], 3, .ok [99]⟩ out ∧ SameForDummy1 out out' := by
  have hone : ∀ b : UInt8, b ≠ 0 → FromRing (.ok [b]) := fun b hb =>
    fromRing_ok_iff.2 ⟨by simpa using hb.symm, by simp [dummyIoBuffSize]⟩
  obtain ⟨ret, out, ret', out', hmain, hmain', hown, hsame⟩ := prints_own_iff
    ⟨3, .ok [97], 3, .ok [99]⟩ ⟨3, .error (-eRestartSys), 3, .ok [99]⟩
    ⟨hone 97 (by decide), hone 99 (by decide)⟩ ⟨fromRing_error _, hone 99 (by decide)⟩ rfl
  exact ⟨ret, out, ret', out', hmain, hmain', hown.2 (Or.inr (Or.inr le_rfl)),
    hsame.2 (Or.inr (Or.inr rfl))⟩

/-- Device 0 had two bytes, device 1 one : the second of the two is printed for `dummy1`. -/
theorem dummy1_prints_dummy0 :
    FromRings ⟨3, .ok [97, 98], 3, .ok [99]⟩ ∧
      ∃ ret out, main ⟨3, .ok [97, 98], 3, .ok [99]⟩ = some (ret, out) ∧
        ⟨"dummy1 %s\n", some [99, 98]⟩ ∈ out ∧
        ¬PrintsOwn ⟨3, .ok [97, 98], 3, .ok [99]⟩ out := by
  have hrings : FromRings ⟨3, .ok [97, 98], 3, .ok [99]⟩ :=
    ⟨fromRing_ok_iff.2 ⟨by decide, by decide⟩, fromRing_ok_iff.2 ⟨by decide, by decide⟩⟩
  obtain ⟨ret, out, hmain, -, hout1⟩ := main_eq hrings
  have hprinted := (hout1 (some [99, 98])).2 ⟨by decide, by decide, rfl⟩
  refine ⟨hrings, ret, out, hmain, hprinted, fun hown => ?_⟩
  exact absurd (hown.2 _ hprinted) (by decide)

end ReadDataCalls

end ProCamp
