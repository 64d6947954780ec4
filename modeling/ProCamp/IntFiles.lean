import Mathlib.Logic.Function.Basic
import ProCamp.CString
import ProCamp.Decimal
import ProCamp.Kernel

/-!
# Files that hold an integer

`HW13/16. kobject-example.c` and `HW13/sysfs-sample-probe.c` keep `int` variables that are
read and written as text through files in sysfs. The kernel calls a store with `count` bytes
and a NUL behind them.

To their users (`FileReply`) a file shows a variable in decimal with a newline, and takes the
text of an `int`; other text is refused with an error and changes nothing. Which file shows
and stores which variable is `IntFiles`. In `kobject-example.c` two files share their
functions, which look at the name of the attribute. In `sysfs-sample-probe.c` one variable
has a file to read it and another to write it.

`kobject_replies` and `sysfsSample_replies` : every run of calls of either module gets these
replies, and what a file shows can be stored again, in any other too.
-/

namespace ProCamp

open CString Numeral

/-- The digits `kstrtoint` reads. -/
def decimalDigits (s : List UInt8) : List UInt8 :=
  let unsignedPart := match s with
    | [] => []
    | c :: t => if c = minus ∨ c = plus then t else c :: t
  unsignedPart.takeWhile (isDigit 10)

/-- `kstrtoint(s, 10, res)` : what it returns, or what it stores. -/
def kstrtointDecimal (s : List UInt8) : Except ℤ Int32 :=
  match signed 10 s with
  | some v => if -2 ^ 31 ≤ v ∧ v < 2 ^ 31 then .ok (Int32.ofInt v) else .error (-eRange)
  -- More digits than 64 bits hold are out of range before the rest is looked at.
  | none => .error (if 2 ^ 64 ≤ value 10 (decimalDigits s) then -eRange else -eInval)

/-- `sprintf(buf, "%d\n", v)`. -/
def sprintfD (v : Int32) : List UInt8 :=
  ofInt 10 v.toInt ++ [newline]

/-! ## The files -/

/-- Which variable a file shows, and which it stores. -/
structure IntFiles (F V : Type*) where
  shown : F → Option V
  stored : F → Option V

/-- A file is read or written. -/
inductive IntFileCall (F : Type*) where
  | read (f : F)
  | write (f : F) (buf : List UInt8)

/-- What a call returns, and the text it shows. -/
structure Reply where
  ret : ℤ
  text : List UInt8
  deriving DecidableEq

/-- The reply to a call where the variables are `σ`, and what they are after it. -/
inductive FileReply {F V : Type*} [DecidableEq V] (files : IntFiles F V) (σ : V → Int32) :
    IntFileCall F → Reply → (V → Int32) → Prop
  | read {f : F} {v : V} (hv : files.shown f = some v) :
      FileReply files σ (.read f) ⟨(sprintfD (σ v)).length, sprintfD (σ v)⟩ σ
  | accept {f : F} {v : V} {buf : List UInt8} {n : Int32} (hv : files.stored f = some v)
      (hn : Denotes 10 (cText buf) n.toInt) :
      FileReply files σ (.write f buf) ⟨buf.length, []⟩ (Function.update σ v n)
  | refuse {f : F} {v : V} {buf : List UInt8} {ret : ℤ} (hv : files.stored f = some v)
      (hnot : ∀ n : Int32, ¬Denotes 10 (cText buf) n.toInt) (hret : ret = -eInval ∨ ret = -eRange) :
      FileReply files σ (.write f buf) ⟨ret, []⟩ σ

/-- The replies to a run of calls. -/
inductive Replies {F V : Type*} [DecidableEq V] (files : IntFiles F V) :
    (V → Int32) → List (IntFileCall F × Reply) → (V → Int32) → Prop
  | nil (σ : V → Int32) : Replies files σ [] σ
  | cons {σ τ υ : V → Int32} {c : IntFileCall F} {r : Reply} {crs : List (IntFileCall F × Reply)}
      (h : FileReply files σ c r τ) (hrest : Replies files τ crs υ) :
      Replies files σ ((c, r) :: crs) υ

/-- What the functions of the attributes do with text : store what it denotes, or return an
error. -/
def storeInt {S : Type*} (s : S) (buf : List UInt8) (set : Int32 → S) : Reply × S :=
  match kstrtointDecimal (cText buf) with
  | .error ret => (⟨ret, []⟩, s)
  | .ok v => (⟨buf.length, []⟩, set v)

/-- What they show. -/
def showInt (v : Int32) : Reply :=
  ⟨(sprintfD v).length, sprintfD v⟩

/-- A module with such files. `none` is for a file without the function. -/
structure FileModule (F V S : Type*) where
  files : IntFiles F V
  /-- The variables, as the module keeps them. -/
  var : S → V → Int32
  loaded : S
  showOf : S → F → Option Reply
  storeOf : S → F → List UInt8 → Option (Reply × S)

namespace FileModule

variable {F V S : Type*}

/-- One call. -/
def call (m : FileModule F V S) (s : S) : IntFileCall F → Option (Reply × S)
  | .read f => (m.showOf s f).map (·, s)
  | .write f buf => m.storeOf s f buf

/-- A run of calls, with the reply to each. -/
def run (m : FileModule F V S) (s : S) :
    List (IntFileCall F) → Option (List (IntFileCall F × Reply) × S)
  | [] => some ([], s)
  | c :: cs => (m.call s c).bind fun p => (m.run p.2 cs).map fun q => ((c, p.1) :: q.1, q.2)

end FileModule

/-! ## `kobject-example.c` -/

/-- `foo`, `baz` and `bar`. -/
structure KobjectExample where
  foo : Int32
  baz : Int32
  bar : Int32

/-- The variables of the module. -/
inductive KobjectVar where
  | foo
  | baz
  | bar
  deriving DecidableEq

/-- The attributes of `attrs`. -/
inductive KobjectFile where
  | fooAttribute
  | bazAttribute
  | barAttribute
  deriving DecidableEq

namespace KobjectExample

/-- `foo_show`. -/
def fooShow (s : KobjectExample) : Reply :=
  showInt s.foo

/-- `foo_store`. -/
def fooStore (s : KobjectExample) (buf : List UInt8) : Reply × KobjectExample :=
  storeInt s buf fun v => { s with foo := v }

/-- `b_show`, for the attribute of this name. -/
def bShow (s : KobjectExample) (name : String) : Reply :=
  showInt (if name = "baz" then s.baz else s.bar)

/-- `b_store`. -/
def bStore (s : KobjectExample) (name : String) (buf : List UInt8) : Reply × KobjectExample :=
  storeInt s buf fun var => if name = "baz" then { s with baz := var } else { s with bar := var }

/-- The value of a variable. -/
def var (s : KobjectExample) : KobjectVar → Int32
  | .foo => s.foo
  | .baz => s.baz
  | .bar => s.bar

end KobjectExample

/-- The variable of each attribute. -/
def kobjectFiles : IntFiles KobjectFile KobjectVar where
  shown
    | .fooAttribute => some .foo
    | .bazAttribute => some .baz
    | .barAttribute => some .bar
  stored
    | .fooAttribute => some .foo
    | .bazAttribute => some .baz
    | .barAttribute => some .bar

/-- `kobject-example.c`, with the functions its attributes name. -/
def kobjectExample : FileModule KobjectFile KobjectVar KobjectExample where
  files := kobjectFiles
  var := KobjectExample.var
  loaded := ⟨0, 0, 0⟩
  showOf s
    | .fooAttribute => some s.fooShow
    | .bazAttribute => some (s.bShow "baz")
    | .barAttribute => some (s.bShow "bar")
  storeOf s f buf :=
    match f with
    | .fooAttribute => some (s.fooStore buf)
    | .bazAttribute => some (s.bStore "baz" buf)
    | .barAttribute => some (s.bStore "bar" buf)

/-! ## `sysfs-sample-probe.c` -/

/-- `struct sysfs_sample_data`. -/
structure SysfsSampleData where
  foo : Int32
  bar : Int32

/-- The fields of `struct sysfs_sample_data`. -/
inductive SysfsSampleVar where
  | foo
  | bar
  deriving DecidableEq

/-- The attributes of `sysfs_sample_attrs`. -/
inductive SysfsSampleFile where
  | foo
  | bar
  | baw
  deriving DecidableEq

namespace SysfsSampleData

/-- `foo_show`. -/
def fooShow (pdata : SysfsSampleData) : Reply :=
  showInt pdata.foo

/-- `foo_store`. -/
def fooStore (pdata : SysfsSampleData) (buf : List UInt8) : Reply × SysfsSampleData :=
  storeInt pdata buf fun v => { pdata with foo := v }

/-- `bar_show`. -/
def barShow (pdata : SysfsSampleData) : Reply :=
  showInt pdata.bar

/-- `baw_store`. -/
def bawStore (pdata : SysfsSampleData) (buf : List UInt8) : Reply × SysfsSampleData :=
  storeInt pdata buf fun v => { pdata with bar := v }

/-- The value of a field. -/
def var (pdata : SysfsSampleData) : SysfsSampleVar → Int32
  | .foo => pdata.foo
  | .bar => pdata.bar

end SysfsSampleData

/-- `foo` is read and written, `bar` only read, and `baw` writes what `bar` reads. -/
def sysfsSampleFiles : IntFiles SysfsSampleFile SysfsSampleVar where
  shown
    | .foo => some .foo
    | .bar => some .bar
    | .baw => none
  stored
    | .foo => some .foo
    | .bar => none
    | .baw => some .bar

/-- `sysfs-sample-probe.c`, with the functions its attributes name. -/
def sysfsSample : FileModule SysfsSampleFile SysfsSampleVar SysfsSampleData where
  files := sysfsSampleFiles
  var := SysfsSampleData.var
  loaded := ⟨0, 0⟩
  showOf pdata
    | .foo => some pdata.fooShow
    | .bar => some pdata.barShow
    | .baw => none
  storeOf pdata f buf :=
    match f with
    | .foo => some (pdata.fooStore buf)
    | .bar => none
    | .baw => some (pdata.bawStore buf)

/-! ## Text -/

theorem kstrtointDecimal_ok {s : List UInt8} {n : Int32} (h : kstrtointDecimal s = .ok n) :
    Denotes 10 s n.toInt := by
  unfold kstrtointDecimal at h
  split at h
  case h_1 v hv =>
    split_ifs at h with hrange
    cases h
    rw [Int32.toInt_ofInt_of_le hrange.1 hrange.2]
    exact signed_eq_some_iff.1 hv
  case h_2 => cases h

theorem kstrtointDecimal_error {s : List UInt8} {ret : ℤ} (h : kstrtointDecimal s = .error ret) :
    (ret = -eInval ∨ ret = -eRange) ∧ ∀ n : Int32, ¬Denotes 10 s n.toInt := by
  unfold kstrtointDecimal at h
  split at h
  case h_1 v hv =>
    split_ifs at h with hrange
    cases h
    refine ⟨Or.inr rfl, fun n hn => hrange ?_⟩
    obtain rfl := hn.unique (signed_eq_some_iff.1 hv)
    exact ⟨n.le_toInt, n.toInt_lt⟩
  case h_2 hnone =>
    cases h
    refine ⟨?_, fun n hn => ?_⟩
    · split_ifs
      · exact Or.inr rfl
      · exact Or.inl rfl
    · rw [signed_eq_some_iff.2 hn] at hnone
      cases hnone

theorem denotes_sprintfD (v : Int32) : Denotes 10 (sprintfD v) v.toInt :=
  denotes_ofInt (by decide) le_rfl _

theorem kstrtointDecimal_eq_ok_iff {s : List UInt8} {n : Int32} :
    kstrtointDecimal s = .ok n ↔ Denotes 10 s n.toInt := by
  refine ⟨kstrtointDecimal_ok, fun hn => ?_⟩
  cases h : kstrtointDecimal s with
  | error ret => exact absurd hn ((kstrtointDecimal_error h).2 n)
  | ok m => rw [Int32.toInt_inj.1 (hn.unique (kstrtointDecimal_ok h))]

/-- The kernel finds the text it was given. -/
theorem cText_sprintfD (v : Int32) : cText (sprintfD v) = sprintfD v := by
  rw [← cText_append_singleton, cText_append_cons (denotes_sprintfD v).zero_notMem]

/-! ## The replies -/

section Module

variable {F V S : Type*} [DecidableEq V] {m : FileModule F V S} {s t : S} {f g : F} {v w : V}

/-- The functions of each file are on the variables that `files` says. -/
structure FileModule.Lawful (m : FileModule F V S) : Prop where
  show_eq : ∀ s f, m.showOf s f = (m.files.shown f).map fun v => showInt (m.var s v)
  store_eq : ∀ s f v, m.files.stored f = some v → ∃ set : Int32 → S,
    (∀ buf, m.storeOf s f buf = some (storeInt s buf set)) ∧
      ∀ n, m.var (set n) = Function.update (m.var s) v n
  store_none : ∀ s f buf, m.files.stored f = none → m.storeOf s f buf = none

namespace FileModule.Lawful

theorem call_reply (h : m.Lawful) {c : IntFileCall F} {r : Reply}
    (hcall : m.call s c = some (r, t)) :
    FileReply m.files (m.var s) c r (m.var t) := by
  cases c with
  | read f =>
    rw [call, h.show_eq, Option.map_map] at hcall
    obtain ⟨v, hv, heq⟩ := Option.map_eq_some_iff.1 hcall
    cases heq
    exact .read hv
  | write f buf =>
    cases hv : m.files.stored f with
    | none =>
      rw [call, h.store_none s f buf hv] at hcall
      cases hcall
    | some v =>
      obtain ⟨set, hset, hvar⟩ := h.store_eq s f v hv
      rw [call, hset] at hcall
      unfold storeInt at hcall
      split at hcall
      case h_1 ret hret =>
        cases hcall
        obtain ⟨hcode, hnot⟩ := kstrtointDecimal_error hret
        exact .refuse hv hnot hcode
      case h_2 n hn =>
        cases hcall
        rw [hvar]
        exact .accept hv (kstrtointDecimal_ok hn)

theorem run_replies (h : m.Lawful) {cs : List (IntFileCall F)} {crs : List (IntFileCall F × Reply)}
    (hrun : m.run s cs = some (crs, t)) : Replies m.files (m.var s) crs (m.var t) := by
  induction cs generalizing s crs with
  | nil =>
    cases hrun
    exact .nil _
  | cons c cs ih =>
    obtain ⟨⟨r, u⟩, hcall, hrest⟩ := Option.bind_eq_some_iff.1 hrun
    obtain ⟨⟨crs', t'⟩, hcrs, heq⟩ := Option.map_eq_some_iff.1 hrest
    cases heq
    exact .cons (h.call_reply hcall) (ih hcrs)

/-- What a file shows can be stored in any file, which then shows the same variable. -/
theorem store_shown (h : m.Lawful) (hf : m.files.shown f = some v)
    (hg : m.files.stored g = some w) : ∃ r t, m.showOf s f = some r ∧
      m.storeOf s g r.text = some (⟨r.text.length, []⟩, t) ∧
      m.var t = Function.update (m.var s) w (m.var s v) := by
  obtain ⟨set, hset, hvar⟩ := h.store_eq s g w hg
  refine ⟨showInt (m.var s v), set (m.var s v), by rw [h.show_eq, hf]; rfl, ?_, hvar _⟩
  have hread : kstrtointDecimal (cText (sprintfD (m.var s v))) = .ok (m.var s v) := by
    rw [cText_sprintfD, kstrtointDecimal_eq_ok_iff]
    exact denotes_sprintfD _
  rw [hset, storeInt, showInt, hread]

end FileModule.Lawful

end Module

theorem kobjectExample_lawful : kobjectExample.Lawful where
  show_eq s f := by cases f <;> rfl
  store_none s f buf hnone := by cases f <;> cases hnone
  store_eq s f v hv := by
    cases f with
    | fooAttribute =>
      cases hv
      refine ⟨fun n => { s with foo := n }, fun buf => rfl, fun n => ?_⟩
      funext x
      cases x <;> rfl
    | bazAttribute =>
      cases hv
      refine ⟨fun n => { s with baz := n }, fun buf => rfl, fun n => ?_⟩
      funext x
      cases x <;> rfl
    | barAttribute =>
      cases hv
      refine ⟨fun n => { s with bar := n }, fun buf => rfl, fun n => ?_⟩
      funext x
      cases x <;> rfl

theorem sysfsSample_lawful : sysfsSample.Lawful where
  show_eq s f := by cases f <;> rfl
  store_none s f buf hnone := by
    cases f with
    | foo => cases hnone
    | bar => rfl
    | baw => cases hnone
  store_eq s f v hv := by
    cases f with
    | foo =>
      cases hv
      refine ⟨fun n => { s with foo := n }, fun buf => rfl, fun n => ?_⟩
      funext x
      cases x <;> rfl
    | bar => cases hv
    | baw =>
      cases hv
      refine ⟨fun n => { s with bar := n }, fun buf => rfl, fun n => ?_⟩
      funext x
      cases x <;> rfl

/-- Every file of `kobject-example.c` can be read and written. -/
theorem kobjectExample_run (s : KobjectExample) (cs : List (IntFileCall KobjectFile)) :
    ∃ crs t, kobjectExample.run s cs = some (crs, t) ∧ crs.map Prod.fst = cs := by
  induction cs generalizing s with
  | nil => exact ⟨[], s, rfl, rfl⟩
  | cons c cs ih =>
    obtain ⟨⟨r, u⟩, hcall⟩ : ∃ p, kobjectExample.call s c = some p := by
      rcases c with ⟨_ | _ | _⟩ | ⟨_ | _ | _, buf⟩ <;> exact ⟨_, rfl⟩
    obtain ⟨crs, t, hrun, hcs⟩ := ih u
    exact ⟨(c, r) :: crs, t, by simp [FileModule.run, hcall, hrun], by simp [hcs]⟩

/-- Any run of reads and writes of the three files gets the replies of three variables, and
what any file then shows can be stored in any. -/
theorem kobject_replies (cs : List (IntFileCall KobjectFile)) :
    ∃ crs s, kobjectExample.run kobjectExample.loaded cs = some (crs, s) ∧
      crs.map Prod.fst = cs ∧ Replies kobjectFiles (fun _ => 0) crs s.var ∧
      ∀ f g v w, kobjectFiles.shown f = some v → kobjectFiles.stored g = some w →
        ∃ r t, kobjectExample.showOf s f = some r ∧
          kobjectExample.storeOf s g r.text = some (⟨r.text.length, []⟩, t) ∧
          t.var = Function.update s.var w (s.var v) := by
  obtain ⟨crs, s, hrun, hcs⟩ := kobjectExample_run kobjectExample.loaded cs
  have hloaded : kobjectExample.var kobjectExample.loaded = fun _ => 0 := by
    funext v
    cases v <;> rfl
  have hreplies := kobjectExample_lawful.run_replies hrun
  rw [hloaded] at hreplies
  exact ⟨crs, s, hrun, hcs, hreplies, fun f g v w hf hg =>
    kobjectExample_lawful.store_shown hf hg⟩

/-- Any run of reads of `foo` and `bar` and writes of `foo` and `baw` gets the replies of two
variables, of which `bar` shows what `baw` has stored. -/
theorem sysfsSample_replies (cs : List (IntFileCall SysfsSampleFile))
    (crs : List (IntFileCall SysfsSampleFile × Reply)) (pdata : SysfsSampleData)
    (hrun : sysfsSample.run sysfsSample.loaded cs = some (crs, pdata)) :
    Replies sysfsSampleFiles (fun _ => 0) crs pdata.var ∧
      ∀ f g v w, sysfsSampleFiles.shown f = some v → sysfsSampleFiles.stored g = some w →
        ∃ r t, sysfsSample.showOf pdata f = some r ∧
          sysfsSample.storeOf pdata g r.text = some (⟨r.text.length, []⟩, t) ∧
          t.var = Function.update pdata.var w (pdata.var v) := by
  have hloaded : sysfsSample.var sysfsSample.loaded = fun _ => 0 := by
    funext v
    cases v <;> rfl
  have hreplies := sysfsSample_lawful.run_replies hrun
  rw [hloaded] at hreplies
  exact ⟨hreplies, fun f g v w hf hg => sysfsSample_lawful.store_shown hf hg⟩

/-- `42` written to `baw` and read from `bar`. -/
theorem sysfsSample_baw_bar : ∃ crs pdata, sysfsSample.run sysfsSample.loaded
      [.write .baw [52, 50, 10], .read .bar] = some (crs, pdata) ∧ pdata.bar = 42 ∧
    Replies sysfsSampleFiles (fun _ => 0) crs pdata.var ∧
      ∀ f g v w, sysfsSampleFiles.shown f = some v → sysfsSampleFiles.stored g = some w →
        ∃ r t, sysfsSample.showOf pdata f = some r ∧
          sysfsSample.storeOf pdata g r.text = some (⟨r.text.length, []⟩, t) ∧
          t.var = Function.update pdata.var w (pdata.var v) := by
  have hread : kstrtointDecimal (cText [52, 50, 10]) = .ok 42 := by decide
  have hrun : sysfsSample.run sysfsSample.loaded [.write .baw [52, 50, 10], .read .bar] =
      some ([(.write .baw [52, 50, 10], ⟨3, []⟩), (.read .bar, showInt 42)], ⟨0, 42⟩) := by
    simp only [FileModule.run, FileModule.call, sysfsSample, SysfsSampleData.bawStore, storeInt,
      hread]
    rfl
  exact ⟨_, _, hrun, rfl, sysfsSample_replies _ _ _ hrun⟩

end ProCamp
