import Mathlib.Algebra.Ring.Int.Defs
import Mathlib.Data.List.ReduceOption
import ProCamp.Kernel
import ProCamp.Machine

/-!
# Greetings

`hello_init` in `HW3/hello.c`, `HW4/hello.c` and `HW5/hello.c` prints `printAmount` greetings and
counts it down to 0. The second and the third keep the time of each in a list, where `kmalloc`
gives a node, and print the times when they are unloaded. The third has a `BUG_ON` in each of
the checks, whose texts are never null, and one at the sixth node. Nobody writes to `printAmount`
meanwhile, and the kernel is built with an `int` that wraps.

`hello_loads` : what each of the three loads with. A negative `printAmount` passes the checks
and is counted down through the whole range of `int`; the third module survives that only
where no more than five nodes are allocated.
-/

namespace ProCamp

open Machine

/-- What `hello_init` does before its loop. -/
inductive HelloCheck where
  | ret (rc : ℤ)
  | bug
  | loop
  deriving DecidableEq

/-- The variables of the modules, and the greetings that have been printed. -/
@[ext] structure Hello where
  printAmount : Int32
  bugIndicator : Int32
  /-- The times in the list. -/
  head : List ℤ
  greetings : ℕ
  /-- A `BUG_ON` has stopped the kernel. -/
  bug : Bool
  deriving DecidableEq

namespace Hello

/-- The module as it is loaded. -/
def start (printAmount : Int32) : Hello where
  printAmount := printAmount
  bugIndicator := 0
  head := []
  greetings := 0
  bug := false

/-- Lines 49 to 57 of `HW3/hello.c`, and 34 to 43 of `HW4/hello.c`. -/
def check (printAmount : Int32) : HelloCheck :=
  if printAmount > 10 then .ret (-eInval) else .loop

/-- Lines 37 to 46 of `HW5/hello.c`. -/
def checkHw5 (printAmount : Int32) : HelloCheck :=
  if printAmount ≥ 5 ∧ printAmount ≤ 10 then .bug
  else if printAmount > 10 then .bug
  else .loop

/-- Lines 60 and 61 of `HW3/hello.c`. -/
def greet (s : Hello) : Hello :=
  { s with printAmount := s.printAmount - 1, greetings := s.greetings + 1 }

/-- The loop of `HW3/hello.c`. -/
def bodyHw3 (s : Hello) (_ : Option ℤ) : Hello :=
  s.greet

/-- Lines 47 to 56 of `HW4/hello.c` : `item` is the time in the node, if there is one. -/
def bodyHw4 (s : Hello) : Option ℤ → Hello
  | some time => { s.greet with head := time :: s.head }
  | none => s.greet

/-- Lines 50 to 64 of `HW5/hello.c`. -/
def bodyHw5 (s : Hello) : Option ℤ → Hello
  | some time =>
    if s.bugIndicator = 5 then { s with bug := true }
    else { s.greet with bugIndicator := s.bugIndicator + 1, head := time :: s.head }
  | none => s.greet

/-- One turn of the loop `while (printAmount)`. -/
def step (body : Hello → Option ℤ → Hello) (s : Hello) (item : Option ℤ) : Option Hello :=
  if s.bug = true ∨ s.printAmount = 0 then none else some (body s item)

/-- `hello_init` returns 0 and leaves `t`, where `items` are the outcomes of `kmalloc`. -/
def Loads (check : Int32 → HelloCheck) (body : Hello → Option ℤ → Hello) (printAmount : Int32)
    (items : List (Option ℤ)) (t : Hello) : Prop :=
  check printAmount = .loop ∧ exec (step body) (start printAmount) items = some t ∧
    t.printAmount = 0 ∧ t.bug = false

/-- `hello_exit` : the times it prints (to the debug log in `HW5/hello.c`), and what is left in
the list. -/
def helloExit : List ℤ → List ℤ × List ℤ
  | [] => ([], [])
  | time :: head => (time :: (helloExit head).1, (helloExit head).2)

/-- How often a countdown to 0 is made. -/
def turns (printAmount : Int32) : ℕ :=
  printAmount.toUInt32.toNat

variable {body : Hello → Option ℤ → Hello} {s t : Hello} {n : Int32} {items : List (Option ℤ)}

theorem turns_eq (n : Int32) : turns n = n.toBitVec.toNat :=
  rfl

theorem turns_eq_zero : turns n = 0 ↔ n = 0 := by
  rw [turns_eq, ← Int32.toBitVec_inj, ← BitVec.toNat_inj]
  rfl

theorem turns_sub_one (hn : n ≠ 0) : turns (n - 1) + 1 = turns n := by
  have hpos : turns n ≠ 0 := fun h => hn (turns_eq_zero.1 h)
  simp only [turns_eq, Int32.toBitVec_sub, Int32.toBitVec_one] at hpos ⊢
  bv_omega

theorem helloExit_eq (head : List ℤ) : helloExit head = (head, []) := by
  induction head with
  | nil => rfl
  | cons time head ih => rw [helloExit, ih]

/-! ## The loop -/

/-- A turn of the loop counts down, and none follows a `BUG_ON`. -/
structure Counts (body : Hello → Option ℤ → Hello) : Prop where
  turn : ∀ s item, (body s item).bug = false → s.bug = false ∧
    (body s item).printAmount = s.printAmount - 1

theorem Counts.foldl (h : Counts body) (hbug : (items.foldl body s).bug = false) :
    s.bug = false := by
  induction items generalizing s with
  | nil => exact hbug
  | cons item items ih => exact (h.turn s item (ih hbug)).1

theorem Counts.exec_iff (h : Counts body) :
    (exec (step body) s items = some t ∧ t.printAmount = 0 ∧ t.bug = false) ↔
      items.length = turns s.printAmount ∧ t = items.foldl body s ∧ t.bug = false := by
  induction items generalizing s with
  | nil =>
    rw [exec_nil, List.foldl_nil, Option.some.injEq, List.length_nil, eq_comm (b := turns _),
      turns_eq_zero]
    constructor
    · rintro ⟨rfl, hzero, hbug⟩
      exact ⟨hzero, rfl, hbug⟩
    · rintro ⟨hzero, rfl, hbug⟩
      exact ⟨rfl, hzero, hbug⟩
  | cons item items ih =>
    rw [exec_cons_eq_some, List.foldl_cons, List.length_cons]
    constructor
    · rintro ⟨⟨u, hu, hrest⟩, hzero, hbug⟩
      obtain ⟨hgoes, hu⟩ := Option.ite_none_left_eq_some.1 hu
      obtain rfl := Option.some.inj hu
      obtain ⟨hlength, ht, -⟩ := ih.1 ⟨hrest, hzero, hbug⟩
      obtain ⟨-, hcount⟩ := h.turn s item (h.foldl (ht ▸ hbug))
      refine ⟨?_, ht, hbug⟩
      rw [hlength, hcount, turns_sub_one fun h => hgoes (Or.inr h)]
    · rintro ⟨hlength, ht, hbug⟩
      obtain ⟨hs, hcount⟩ := h.turn s item (h.foldl (ht ▸ hbug))
      have hne : s.printAmount ≠ 0 := fun hzero => by
        rw [turns_eq_zero.2 hzero] at hlength
        omega
      have hstep : step body s item = some (body s item) :=
        if_neg (not_or.2 ⟨by simp [hs], hne⟩)
      have hrest := turns_sub_one hne
      obtain ⟨hexec, hzero, -⟩ := ih.2 ⟨by rw [hcount]; omega, ht, hbug⟩
      exact ⟨⟨_, hstep, hexec⟩, hzero, hbug⟩

/-- What a loop leaves where it ends. -/
theorem Counts.loads_iff (h : Counts body) {check : Int32 → HelloCheck} {r : Hello}
    (hr : (items.foldl body (start n)).bug = false →
      { items.foldl body (start n) with printAmount := 0 } = r) :
    Loads check body n items t ↔ check n = .loop ∧ items.length = turns n ∧
      (items.foldl body (start n)).bug = false ∧ t = r := by
  have hzero (hend : (items.foldl body (start n)).printAmount = 0) :
      items.foldl body (start n) = { items.foldl body (start n) with printAmount := 0 } :=
    Hello.ext hend rfl rfl rfl rfl
  constructor
  · rintro ⟨hcheck, hend⟩
    obtain ⟨hlength, rfl, hbug⟩ := h.exec_iff.1 hend
    exact ⟨hcheck, hlength, hbug, (hzero hend.2.1).trans (hr hbug)⟩
  · rintro ⟨hcheck, hlength, hbug, ht⟩
    have hend := h.exec_iff.2 ⟨hlength, rfl, hbug⟩
    rw [ht, ← hr hbug, ← hzero hend.2.1]
    exact ⟨hcheck, hend⟩

theorem counts_bodyHw3 : Counts bodyHw3 :=
  ⟨fun _ _ hbug => ⟨hbug, rfl⟩⟩

theorem counts_bodyHw4 : Counts bodyHw4 := by
  refine ⟨fun s item hbug => ?_⟩
  cases item <;> exact ⟨hbug, rfl⟩

theorem counts_bodyHw5 : Counts bodyHw5 := by
  refine ⟨fun s item hbug => ?_⟩
  cases item with
  | none => exact ⟨hbug, rfl⟩
  | some time =>
    unfold bodyHw5 at hbug ⊢
    split_ifs at hbug ⊢
    exact ⟨hbug, rfl⟩

/-! ## What the loops leave -/

theorem foldl_bodyHw3 (items : List (Option ℤ)) (s : Hello) :
    (items.foldl bodyHw3 s).greetings = s.greetings + items.length ∧
    (items.foldl bodyHw3 s).head = s.head ∧
    (items.foldl bodyHw3 s).bugIndicator = s.bugIndicator ∧
    (items.foldl bodyHw3 s).bug = s.bug := by
  induction items generalizing s with
  | nil => exact ⟨rfl, rfl, rfl, rfl⟩
  | cons item items ih =>
    obtain ⟨hgreetings, hsame⟩ := ih (bodyHw3 s item)
    refine ⟨?_, hsame⟩
    rw [List.foldl_cons, hgreetings, List.length_cons]
    show s.greetings + 1 + items.length = _
    omega

theorem foldl_bodyHw4 (items : List (Option ℤ)) (s : Hello) :
    (items.foldl bodyHw4 s).greetings = s.greetings + items.length ∧
    (items.foldl bodyHw4 s).head = items.reduceOption.reverse ++ s.head ∧
    (items.foldl bodyHw4 s).bugIndicator = s.bugIndicator ∧
    (items.foldl bodyHw4 s).bug = s.bug := by
  induction items generalizing s with
  | nil => exact ⟨rfl, rfl, rfl, rfl⟩
  | cons item items ih =>
    obtain ⟨hgreetings, hhead, hindicator, hbug⟩ := ih (bodyHw4 s item)
    rw [List.foldl_cons, hgreetings, hhead, hindicator, hbug]
    cases item with
    | none => exact ⟨by simp [bodyHw4, greet]; omega, by simp [bodyHw4, greet], rfl, rfl⟩
    | some time => exact ⟨by simp [bodyHw4, greet]; omega, by simp [bodyHw4, greet], rfl, rfl⟩

theorem bugIndicator_next : ∀ k < 5, Int32.ofNat k ≠ 5 ∧
    Int32.ofNat k + 1 = Int32.ofNat (k + 1) := by
  decide

/-- The third module does as the second, up to the sixth node. -/
theorem foldl_bodyHw5 (items : List (Option ℤ)) {k : ℕ} (hk : k ≤ 5)
    (hs : s.bugIndicator = Int32.ofNat k) (hbug : s.bug = false) :
    ((items.foldl bodyHw5 s).bug = false ↔ k + items.reduceOption.length ≤ 5) ∧
      ((items.foldl bodyHw5 s).bug = false →
        (items.foldl bodyHw5 s).greetings = s.greetings + items.length ∧
        (items.foldl bodyHw5 s).head = items.reduceOption.reverse ++ s.head ∧
        (items.foldl bodyHw5 s).bugIndicator = Int32.ofNat (k + items.reduceOption.length)) := by
  induction items generalizing s k with
  | nil => exact ⟨iff_of_true hbug hk, fun _ => ⟨rfl, rfl, hs⟩⟩
  | cons item items ih =>
    rw [List.foldl_cons]
    cases item with
    | none =>
      obtain ⟨hiff, hends⟩ := ih (s := s.greet) hk hs hbug
      refine ⟨hiff, fun h => ?_⟩
      obtain ⟨hgreetings, hsame⟩ := hends h
      exact ⟨by rw [bodyHw5, hgreetings]; simp [greet]; omega, hsame⟩
    | some time =>
      rw [List.reduceOption_cons_of_some, List.length_cons]
      rcases Nat.lt_or_eq_of_le hk with hlt | rfl
      · obtain ⟨hne, hnext⟩ := bugIndicator_next k hlt
        have hbody : bodyHw5 s (some time) = { s.greet with
            bugIndicator := s.bugIndicator + 1, head := time :: s.head } :=
          if_neg (hs ▸ hne)
        obtain ⟨hiff, hends⟩ := ih (s := bodyHw5 s (some time)) hlt (by rw [hbody, ← hnext, hs])
          (by rw [hbody]; exact hbug)
        have hcount : k + 1 + items.reduceOption.length = k + (items.reduceOption.length + 1) := by
          omega
        refine ⟨hcount ▸ hiff, fun h => ?_⟩
        obtain ⟨hgreetings, hhead, hindicator⟩ := hends h
        rw [hgreetings, hhead, hindicator, hbody]
        exact ⟨by simp [greet]; omega, by simp, by rw [hcount]⟩
      · have hfive : s.bugIndicator = 5 := hs
        have hbody : (bodyHw5 s (some time)).bug = true := by
          rw [bodyHw5, if_pos hfive]
        have hstops : (items.foldl bodyHw5 (bodyHw5 s (some time))).bug ≠ false := fun h => by
          rw [counts_bodyHw5.foldl h] at hbody
          cases hbody
        exact ⟨iff_of_false hstops (by omega), fun h => absurd h hstops⟩

/-! ## Loading -/

theorem check_eq_loop : check n = .loop ↔ n ≤ 10 := by
  unfold check
  split_ifs with hn
  · exact iff_of_false (by simp) (Int32.not_le.2 hn)
  · exact iff_of_true rfl (Int32.not_lt.1 hn)

theorem checkHw5_eq_loop : checkHw5 n = .loop ↔ n < 5 := by
  have hfive : (5 : Int32).toInt = 5 := rfl
  have hten : (10 : Int32).toInt = 10 := rfl
  unfold checkHw5
  simp only [ge_iff_le, gt_iff_lt, Int32.le_iff_toInt_le, Int32.lt_iff_toInt_lt, hfive, hten]
  split_ifs with hrange hlarge
  · exact iff_of_false (by simp) (by omega)
  · exact iff_of_false (by simp) (by omega)
  · exact iff_of_true rfl (by omega)

theorem loads_bodyHw3 : Loads check bodyHw3 n items t ↔
    n ≤ 10 ∧ items.length = turns n ∧ t = ⟨0, 0, [], items.length, false⟩ := by
  obtain ⟨hgreetings, hhead, hindicator, hsame⟩ := foldl_bodyHw3 items (start n)
  have hbug : (items.foldl bodyHw3 (start n)).bug = false := hsame
  rw [counts_bodyHw3.loads_iff (r := ⟨0, 0, [], items.length, false⟩) fun _ =>
    Hello.ext rfl hindicator hhead (hgreetings.trans (Nat.zero_add _)) hbug, check_eq_loop]
  simp only [hbug, true_and]

theorem loads_bodyHw4 : Loads check bodyHw4 n items t ↔ n ≤ 10 ∧ items.length = turns n ∧
    t = ⟨0, 0, items.reduceOption.reverse, items.length, false⟩ := by
  obtain ⟨hgreetings, hhead, hindicator, hsame⟩ := foldl_bodyHw4 items (start n)
  have hbug : (items.foldl bodyHw4 (start n)).bug = false := hsame
  rw [counts_bodyHw4.loads_iff
    (r := ⟨0, 0, items.reduceOption.reverse, items.length, false⟩) fun _ => Hello.ext rfl hindicator
    (hhead.trans (List.append_nil _)) (hgreetings.trans (Nat.zero_add _)) hbug, check_eq_loop]
  simp only [hbug, true_and]

theorem loads_bodyHw5 : Loads checkHw5 bodyHw5 n items t ↔ n < 5 ∧ items.length = turns n ∧
    items.reduceOption.length ≤ 5 ∧ t = ⟨0, Int32.ofNat items.reduceOption.length,
      items.reduceOption.reverse, items.length, false⟩ := by
  obtain ⟨hiff, hends⟩ := foldl_bodyHw5 items (s := start n) (Nat.zero_le 5) rfl rfl
  rw [Nat.zero_add] at hiff hends
  rw [counts_bodyHw5.loads_iff fun hbug => ?_, checkHw5_eq_loop, hiff]
  obtain ⟨hgreetings, hhead, hindicator⟩ := hends hbug
  exact Hello.ext rfl hindicator (hhead.trans (List.append_nil _))
    (hgreetings.trans (Nat.zero_add _)) hbug

theorem turns_eq_emod (n : Int32) : (turns n : ℤ) = n.toInt % 2 ^ 32 := by
  have hlt := n.toBitVec.isLt
  have hbmod : n.toInt = (n.toBitVec.toNat : ℤ).bmod (2 ^ 32) := BitVec.toInt_eq_toNat_bmod _
  have hemod : (n.toBitVec.toNat : ℤ).bmod (2 ^ 32) % 2 ^ 32 = n.toBitVec.toNat % 2 ^ 32 :=
    Int.bmod_emod
  rw [turns_eq, hbmod, hemod]
  omega

/-- For every `printAmount` and all outcomes of `kmalloc`, a failing one giving no item : the
first two modules load with a `printAmount` of at most 10, after as many greetings as it has
turns, which for a negative one is nearly `2 ^ 32`; the second prints the times of its nodes when
it is unloaded, the latest first, and frees them all. The third loads with less than 5 and no
more than five nodes, and then is the second. -/
theorem hello_loads (n : Int32) (items : List (Option ℤ)) (t : Hello) :
    (turns n : ℤ) = n.toInt % 2 ^ 32 ∧
      (Loads check bodyHw3 n items t ↔
        n ≤ 10 ∧ items.length = turns n ∧ t = ⟨0, 0, [], items.length, false⟩) ∧
      (Loads check bodyHw4 n items t ↔ n ≤ 10 ∧ items.length = turns n ∧
        t = ⟨0, 0, items.reduceOption.reverse, items.length, false⟩) ∧
      (Loads checkHw5 bodyHw5 n items t ↔ n < 5 ∧ items.length = turns n ∧
        items.reduceOption.length ≤ 5 ∧ t = ⟨0, Int32.ofNat items.reduceOption.length,
          items.reduceOption.reverse, items.length, false⟩) ∧
      helloExit t.head = (t.head, []) :=
  ⟨turns_eq_emod n, loads_bodyHw3, loads_bodyHw4, loads_bodyHw5, helloExit_eq t.head⟩

end Hello

end ProCamp
