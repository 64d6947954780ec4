import Mathlib.Data.Nat.Find
import ProCamp.DriverInvariant

/-!
# Draining the ring

A read returns at most the part of the unread bytes that lies in one piece, so a reader
needs several of them. `readOnce` is what one call does that runs alone on a ring with
data, and `exec_readCall` that the steps of `plat_dummy_read` do it. Each call makes
progress and hands out the front of what is unread, hence a sequence of them, with any
counts, drains the ring in order (`short_reads_drain`). With counts of at least
`buffersize` the first call takes what lies before `end` and the second the rest.
-/

namespace ProCamp

open CyclicBuffer PlatDummyDevice Driver Machine

namespace PlatDummyDevice

variable {d d' : PlatDummyDevice} {count : ℕ} {bytes : List UInt8}

theorem Valid.unread_eq_nil_iff (h : d.Valid) : d.unread = [] ↔ d.rp = d.wp := by
  constructor
  · intro hnil
    by_contra hne
    have hlen : d.unread.length = 0 := by rw [hnil]; rfl
    have hr := h.rp_lt
    have hw := h.wp_lt
    rw [unread, length_contents] at hlen
    rcases Nat.lt_or_gt_of_ne hne with hlt | hgt
    · rw [dist_of_le hlt.le (by omega)] at hlen
      omega
    · rw [dist_of_gt hgt hr] at hlen
      omega
  · intro heq
    rw [unread, heq, contents_self]

/-- What a read of a ring with data returns. -/
theorem platDummyRead_of_ne (hne : d.rp ≠ d.wp) (count : ℕ) :
    d.platDummyRead count = some (d.copyToUser (d.readCount count),
      (d.advanceRp (d.readCount count)).wrapRp) :=
  if_neg hne

theorem length_copyToUser (count : ℕ) : (d.copyToUser count).length = count := by
  simp [copyToUser]

/-- A read of a ring with data returns at least one byte and at most `count`. -/
theorem Valid.readCount_pos (h : d.Valid) (hne : d.rp ≠ d.wp) (hcount : 1 ≤ count) :
    1 ≤ d.readCount count ∧ d.readCount count ≤ count := by
  have hr := h.rp_lt
  rw [readCount, bufEnd]
  rcases Nat.lt_or_gt_of_ne hne with hlt | hgt
  · rw [if_pos hlt]
    omega
  · rw [if_neg (by omega)]
    omega

/-- A read with room for the whole ring empties it or takes everything up to `end`. -/
theorem Valid.advanceRp_large (h : d.Valid) (hcount : d.buffersize ≤ count) :
    (d.advanceRp (d.readCount count)).wrapRp.rp = (d.advanceRp (d.readCount count)).wrapRp.wp ∨
      (d.advanceRp (d.readCount count)).wrapRp.rp = 0 := by
  have hr := h.rp_lt
  have hw := h.wp_lt
  by_cases hgt : d.wp > d.rp
  · left
    have hn : d.readCount count = d.wp - d.rp := by
      rw [readCount, if_pos hgt]
      omega
    rw [hn, wrapRp, if_neg (by simp only [advanceRp, bufEnd]; omega)]
    simp only [advanceRp]
    omega
  · right
    have hn : d.readCount count = d.buffersize - d.rp := by
      rw [readCount, if_neg hgt, bufEnd]
      omega
    rw [hn, wrapRp, if_pos (by simp only [advanceRp, bufEnd]; omega)]

/-- From the start of the buffer on, it empties it. -/
theorem Valid.advanceRp_large_of_zero (h : d.Valid) (hne : d.rp ≠ d.wp) (hzero : d.rp = 0)
    (hcount : d.buffersize ≤ count) :
    (d.advanceRp (d.readCount count)).wrapRp.rp = (d.advanceRp (d.readCount count)).wrapRp.wp := by
  have hw := h.wp_lt
  have hn : d.readCount count = d.wp := by
    rw [readCount, if_pos (by omega)]
    omega
  rw [hn, wrapRp, if_neg (by simp only [advanceRp, bufEnd]; omega)]
  simp only [advanceRp]
  omega

end PlatDummyDevice

namespace Driver

/-- Reader `i` calls `plat_dummy_read`, finds data and returns. -/
def readCall (i count : ℕ) : List Act :=
  .callRead i count :: List.replicate 6 (.reader i .go)

/-- `s` after such a call; a call on the empty ring sleeps and is left out. -/
def readOnce (s : Driver) (i count : ℕ) : Driver :=
  match s.dev.platDummyRead count with
  | some (bytes, d) =>
    { s.setReader i (.ret bytes.length) with dev := d, delivered := s.delivered ++ bytes }
  | none => s

/-- `s` after the first `k` calls with the counts `c 0`, `c 1`, … -/
def readTimes (s : Driver) (i : ℕ) (c : ℕ → ℕ) : ℕ → Driver
  | 0 => s
  | k + 1 => (s.readTimes i c k).readOnce i (c k)

/-- In `n` calls reader `i` drains `s`, passing through the states `st 0`, …, `st n`. -/
structure Drains (i : ℕ) (c : ℕ → ℕ) (s : Driver) (n : ℕ) (st : ℕ → Driver) : Prop where
  start : st 0 = s
  call : ∀ k < n, exec step (st k) (readCall i (c k)) = some (st (k + 1)) ∧
    ∃ bytes, (st (k + 1)).readers i = .ret bytes.length ∧
      (st (k + 1)).delivered = (st k).delivered ++ bytes ∧
      1 ≤ bytes.length ∧ bytes.length ≤ c k
  all : (st n).delivered = s.delivered ++ s.dev.unread
  empty_iff : ∀ k ≤ n, (st k).dev.rp = (st k).dev.wp ↔
    (st k).delivered.length = s.delivered.length + s.dev.unread.length

/-- Reader `i` can call, and the mutex is free. -/
structure CanRead (size i : ℕ) (s : Driver) : Prop where
  ring : RingOk size s.dev
  rdMutex : s.rdMutex = none
  reader : s.readers i = .idle ∨ ∃ r, s.readers i = .ret r

variable {size : ℕ} {s t : Driver} {i count : ℕ} {c : ℕ → ℕ}

/-- The steps of a read that runs alone. -/
theorem exec_readCall (h : s.CanRead size i) (hne : s.dev.rp ≠ s.dev.wp) (count : ℕ) :
    exec step s (readCall i count) = some (s.readOnce i count) := by
  have hcall : s.step (.callRead i count) = some (s.setReader i (.lock count)) := by
    obtain hpc | ⟨r, hpc⟩ := h.reader <;> simp [step, callReadStep, hpc]
  refine exec_cons_eq_some.2 ⟨_, hcall, ?_⟩
  refine exec_cons_eq_some.2 ⟨_, by simp [step, readerStep, h.rdMutex]; rfl, ?_⟩
  refine exec_cons_eq_some.2 ⟨_, by simp [step, readerStep, hne]; rfl, ?_⟩
  refine exec_cons_eq_some.2 ⟨_, by simp [step, readerStep]; rfl, ?_⟩
  refine exec_cons_eq_some.2 ⟨_, by simp [step, readerStep]; rfl, ?_⟩
  refine exec_cons_eq_some.2 ⟨_, by simp [step, readerStep]; rfl, ?_⟩
  refine exec_cons_eq_some.2 ⟨_, by simp [step, readerStep]; rfl, ?_⟩
  simp [readOnce, platDummyRead_of_ne hne, length_copyToUser, setReader, h.rdMutex]

/-- What one call does. -/
theorem readOnce_spec (h : s.CanRead size i) (hne : s.dev.rp ≠ s.dev.wp) (hcount : 1 ≤ count) :
    (s.readOnce i count).CanRead size i ∧ ∃ bytes,
      (s.readOnce i count).readers i = .ret bytes.length ∧
      (s.readOnce i count).delivered = s.delivered ++ bytes ∧
      s.dev.unread = bytes ++ (s.readOnce i count).dev.unread ∧
      1 ≤ bytes.length ∧ bytes.length ≤ count := by
  obtain ⟨hv, hsize⟩ := h.ring
  have hread := platDummyRead_of_ne hne count
  obtain ⟨hv', hunread⟩ := hv.platDummyRead hread
  have hpos := hv.readCount_pos hne hcount
  have hsize' : (s.dev.advanceRp (s.dev.readCount count)).wrapRp.buffersize = size :=
    buffersize_wrapRp.trans hsize
  simp only [readOnce, hread]
  refine ⟨⟨⟨hv', hsize'⟩, h.rdMutex, Or.inr ⟨_, Function.update_self _ _ _⟩⟩, _,
    Function.update_self _ _ _, rfl, hunread, ?_⟩
  rwa [length_copyToUser]

/-- Calls that all find data. -/
theorem readTimes_spec (h : s.CanRead size i) (hc : ∀ k, 1 ≤ c k) {n : ℕ}
    (hne : ∀ k < n, (s.readTimes i c k).dev.rp ≠ (s.readTimes i c k).dev.wp) :
    (s.readTimes i c n).CanRead size i ∧
      (s.readTimes i c n).delivered ++ (s.readTimes i c n).dev.unread =
        s.delivered ++ s.dev.unread ∧
      s.delivered.length + n ≤ (s.readTimes i c n).delivered.length := by
  induction n with
  | zero => exact ⟨h, rfl, le_rfl⟩
  | succ n ih =>
    obtain ⟨hcan, htotal, hlen⟩ := ih fun k hk => hne k (by omega)
    obtain ⟨hcan', bytes, -, hdel, hunread, hpos, -⟩ := readOnce_spec hcan (hne n (by omega)) (hc n)
    refine ⟨hcan', ?_, ?_⟩
    · rw [← htotal, hunread, readTimes, hdel, List.append_assoc]
    · rw [readTimes, hdel, List.length_append]
      omega

/-- With counts of at least `buffersize`, two calls drain the ring. -/
theorem readTimes_two (h : s.CanRead size i) (hc : ∀ k, 1 ≤ c k) (hlarge : ∀ k, size ≤ c k)
    (hne0 : s.dev.rp ≠ s.dev.wp)
    (hne1 : (s.readTimes i c 1).dev.rp ≠ (s.readTimes i c 1).dev.wp) :
    (s.readTimes i c 2).dev.rp = (s.readTimes i c 2).dev.wp := by
  have h1 : (s.readTimes i c 1).CanRead size i := (readOnce_spec h hne0 (hc 0)).1
  have hzero : (s.readTimes i c 1).dev.rp = 0 := by
    have hlarge0 := h.ring.valid.advanceRp_large (h.ring.size_eq.trans_le (hlarge 0))
    rw [readTimes, readTimes, readOnce, platDummyRead_of_ne hne0] at hne1 ⊢
    exact hlarge0.resolve_left hne1
  have hempty := h1.ring.valid.advanceRp_large_of_zero hne1 hzero
    (h1.ring.size_eq.trans_le (hlarge 1))
  rw [readTimes, readOnce, platDummyRead_of_ne hne1]
  exact hempty

/-- From every reachable state with the mutex free and for every sequence of counts of at
least one : some number of calls of a reader, running one after the other with no
producer in between, drains the ring. Each returns between one byte and its count, together
they return the unread bytes in order, and the ring is empty exactly once it has returned
as many bytes as were unread. If every count is at least `buffersize`, these are at most
two calls. -/
theorem short_reads_drain (hsize : 0 < size) {io : PlatIo} {as : List Act}
    (h : exec step (init size io) as = some s) (hfree : s.rdMutex = none)
    (hreader : s.readers i = .idle ∨ ∃ r, s.readers i = .ret r) (hc : ∀ k, 1 ≤ c k) :
    ∃ n st, Drains i c s n st ∧ n ≤ s.dev.unread.length ∧ ((∀ k, size ≤ c k) → n ≤ 2) := by
  have hcan : s.CanRead size i := ⟨(inv_of_exec hsize h).free hfree, hfree, hreader⟩
  have hex : ∃ n, (s.readTimes i c n).dev.rp = (s.readTimes i c n).dev.wp := by
    -- every call that finds data takes at least one of the unread bytes
    by_contra hnone
    obtain ⟨-, htotal, hlen⟩ := readTimes_spec (n := s.dev.unread.length + 1) hcan hc
      fun k _ hk => hnone ⟨k, hk⟩
    have := congrArg List.length htotal
    simp only [List.length_append] at this
    omega
  have hbefore : ∀ k ≤ Nat.find hex, (s.readTimes i c k).CanRead size i ∧
      (s.readTimes i c k).delivered ++ (s.readTimes i c k).dev.unread =
        s.delivered ++ s.dev.unread ∧
      s.delivered.length + k ≤ (s.readTimes i c k).delivered.length := fun k hk =>
    readTimes_spec hcan hc fun j hj => Nat.find_min hex (hj.trans_le hk)
  obtain ⟨hcan', htotal, hlen⟩ := hbefore _ le_rfl
  have hnil := hcan'.ring.valid.unread_eq_nil_iff.2 (Nat.find_spec hex)
  rw [hnil, List.append_nil] at htotal
  refine ⟨Nat.find hex, s.readTimes i c, ⟨rfl, fun k hk => ?_, htotal, fun k hk => ?_⟩, ?_, ?_⟩
  · have hne := Nat.find_min hex hk
    have hcank := (hbefore k hk.le).1
    obtain ⟨-, bytes, hret, hdel, -, hpos, hle⟩ := readOnce_spec hcank hne (hc k)
    exact ⟨exec_readCall hcank hne _, bytes, hret, hdel, hpos, hle⟩
  · obtain ⟨hcank, htotalk, -⟩ := hbefore k hk
    have := congrArg List.length htotalk
    rw [← hcank.ring.valid.unread_eq_nil_iff, ← List.length_eq_zero_iff]
    simp only [List.length_append] at this
    omega
  · have := congrArg List.length htotal
    simp only [List.length_append] at this
    omega
  · intro hlarge
    by_contra hgt
    have hne0 := Nat.find_min hex (m := 0) (by omega)
    have hne1 := Nat.find_min hex (m := 1) (by omega)
    exact Nat.find_min hex (m := 2) (by omega) (readTimes_two hcan hc hlarge hne0 hne1)

/-- Four bytes, written around the end of a ring of six, read three at a time. -/
theorem short_reads_drain_wrapped : ∃ s, exec step (init 6 zeroIo)
    (writeRun [1, 2, 3, 4] ++ readRun 4 ++ writeRun [5, 6] ++ writeRun [7, 8]) = some s ∧
      s.dev.unread = [5, 6, 7, 8] ∧
      ∃ n st, Drains 0 (fun _ => 3) s n st ∧ (st n).delivered = [1, 2, 3, 4, 5, 6, 7, 8] := by
  have hrun : (exec step (init 6 zeroIo)
      (writeRun [1, 2, 3, 4] ++ readRun 4 ++ writeRun [5, 6] ++ writeRun [7, 8])).map
      (fun s => (s.dev.unread, s.delivered, s.rdMutex, s.readers 0)) =
        some ([5, 6, 7, 8], [1, 2, 3, 4], none, .ret 4) := by decide +kernel
  obtain ⟨s, hs, heq⟩ := Option.map_eq_some_iff.1 hrun
  simp only [Prod.mk.injEq] at heq
  obtain ⟨hunread, hdel, hfree, hreader⟩ := heq
  obtain ⟨n, st, hdrains, -⟩ := short_reads_drain (i := 0) (c := fun _ => 3) (by decide) hs hfree
    (Or.inr ⟨4, hreader⟩) (fun _ => by decide)
  exact ⟨s, hs, hunread, n, st, hdrains, by rw [hdrains.all, hdel, hunread]; rfl⟩

end Driver

end ProCamp
