import Mathlib.Data.List.Rotate
import ProCamp.Monitor
import ProCamp.TimerCounts

/-!
# The lifetime of the nodes

What the callbacks touch through `cursor` has to be a node that `simple_wq_init` linked
and `simple_wq_exit` has not freed, and no timer may outlive `simple_wq_exit` : `Safe`.

Two places leave that to chance. `simple_wq_init` arms its timers even if each `kmalloc`
failed, and `timer_callback` takes the first entry of the list without asking whether
there is one. `simple_wq_exit` neither stops a timer nor takes the lock. `Orderly` excludes
the two; `node_lifetime` is `Safe` in every orderly run, and `unsafe_of_not_orderly` a run
to a state that is not `Safe` from every step that is not orderly.
-/

namespace ProCamp

open Machine

namespace NodeList

variable {l : NodeList}

/-- The nodes in the list are distinct and allocated, and there is one. -/
structure Ok (l : NodeList) : Prop where
  nonempty : l.linked ≠ []
  nodup : l.linked.Nodup
  live : ∀ id ∈ l.linked, l.live id = true

/-- The list is sound, and `cursor` is a node of it. -/
def OkOnNode (l : NodeList) : Prop :=
  l.Ok ∧ l.OnNode

@[simp] theorem entry_nil : entry [] = .head :=
  rfl

@[simp] theorem entry_cons (id : ℕ) (ids : List ℕ) : entry (id :: ids) = .node id :=
  rfl

theorem entry_eq_head_or (ids : List ℕ) :
    entry ids = .head ∨ ∃ id ∈ ids, entry ids = .node id := by
  rcases ids with _ | ⟨id, ids⟩
  · exact Or.inl rfl
  · exact Or.inr ⟨id, by simp, rfl⟩

/-- The first entry of a list that is not empty is a node. -/
theorem Ok.onNode_first (h : l.Ok) : OnNode { l with cursor := l.firstEntry } := by
  rcases entry_eq_head_or l.linked with hhead | ⟨id, hid, heq⟩
  · have := h.nonempty
    rcases hlinked : l.linked with _ | ⟨id, ids⟩
    · exact absurd hlinked this
    · simp [hlinked, entry] at hhead
  · exact ⟨id, hid, heq, h.live id hid⟩

/-- The next entry is the head or a node. -/
theorem Ok.onNode_next (h : l.Ok) {c c' : Cursor} (hnext : l.nextEntry c = some c') :
    c' = .head ∨ OnNode { l with cursor := c' } := by
  have hentry : ∃ ids, ids ⊆ l.linked ∧ entry ids = c' := by
    cases c with
    | null => simp [nextEntry] at hnext
    | head => exact ⟨l.linked, fun _ h => h, Option.some.inj hnext⟩
    | node id =>
      simp only [nextEntry] at hnext
      split_ifs at hnext
      refine ⟨_, fun i hi => ?_, Option.some.inj hnext⟩
      exact (List.dropWhile_sublist _).subset (List.mem_of_mem_drop hi)
  obtain ⟨ids, hsub, rfl⟩ := hentry
  rcases entry_eq_head_or ids with hhead | ⟨id, hid, heq⟩
  · exact Or.inl hhead
  · exact Or.inr ⟨id, hsub hid, heq, h.live id (hsub hid)⟩

theorem Ok.rotateLeft (h : l.Ok) : l.rotateLeft.Ok where
  nonempty := by simpa [NodeList.rotateLeft] using h.nonempty
  nodup := List.nodup_rotate.2 h.nodup
  live id hid := h.live id (List.mem_rotate.1 hid)

theorem OnNode.rotateLeft (h : l.OnNode) : l.rotateLeft.OnNode := by
  obtain ⟨id, hid, hcursor, hlive⟩ := h
  exact ⟨id, List.mem_rotate.2 hid, hcursor, hlive⟩

theorem OnNode.deref_ne_none (h : l.OnNode) : l.deref ≠ none := by
  obtain ⟨id, -, hcursor, hlive⟩ := h
  simp [deref, hcursor, hlive]

/-- `Ok` and `OnNode` do not read what is in the nodes. -/
theorem OkOnNode.setMem (h : l.OkOnNode) (mem : ℕ → ListData) : OkOnNode { l with mem } :=
  ⟨⟨h.1.nonempty, h.1.nodup, h.1.live⟩, h.2⟩

theorem Ok.setCursor (h : l.Ok) (cursor : Cursor) : Ok { l with cursor } :=
  ⟨h.nonempty, h.nodup, h.live⟩

end NodeList

/-! ## The accesses -/

/-- The lines of `timer_callback` that touch what `cursor` points to. -/
def TimerPc.Accesses : TimerPc → Prop
  | .test | .setNumber | .setTime | .print => True
  | .number | .lock | .first | .rotate | .unlock | .rearm => False

/-- The lines of `irq_simulation_callback` that do. -/
def IrqPc.Accesses : IrqPc → Prop
  | .read | .take | .clear | .next => True
  | .lock | .first | .test | .unlock | .rearm => False

/-- What each line of `timer_callback` relies on. -/
def TimerPc.view : TimerPc → Option (NodeList → Prop)
  | .number | .lock | .rearm => none
  | .first | .unlock => some NodeList.Ok
  | .test | .setNumber | .setTime | .rotate | .print => some NodeList.OkOnNode

/-- What each line of `irq_simulation_callback` relies on. -/
def IrqPc.view : IrqPc → Option (NodeList → Prop)
  | .lock | .rearm => none
  | .first | .unlock => some NodeList.Ok
  | .test => some fun l => l.Ok ∧ (l.cursor = .head ∨ l.OnNode)
  | .read | .take | .clear | .next => some NodeList.OkOnNode

theorem TimerPc.Accesses.view {pc : TimerPc} (h : pc.Accesses) :
    pc.view = some NodeList.OkOnNode := by
  cases pc <;> first | rfl | exact h.elim

theorem IrqPc.Accesses.view {pc : IrqPc} (h : pc.Accesses) :
    pc.view = some NodeList.OkOnNode := by
  cases pc <;> first | rfl | exact h.elim

namespace EventModule

variable {s t : EventModule} {a : ModuleAct} {as : List ModuleAct}

/-- Each access through `cursor` is to a node that is in the list and allocated, and
no timer is pending when `simple_wq_exit` has returned. -/
structure Safe (s : EventModule) : Prop where
  timer : ∀ pc, s.myTimer.pc = some pc → pc.Accesses → s.list.OnNode
  irq : ∀ pc, s.irqTimer.pc = some pc → pc.Accesses → s.list.OnNode
  exit : s.exit = .returned → s.myTimer.armed = false ∧ s.irqTimer.armed = false

/-- Neither timer will touch the list or arm a timer : at most the end of the last run of
`timer_callback` is left. -/
def TimersOver (s : EventModule) : Prop :=
  s.myTimer.armed = false ∧ s.irqTimer.Idle ∧
    (s.myTimer.pc = none ∨
      (s.myTimer.pc = some .unlock ∨ s.myTimer.pc = some .rearm) ∧ s.timerTimes = 1)

instance (s : EventModule) : Decidable s.TimersOver :=
  inferInstanceAs (Decidable (_ ∧ _ ∧ _))

/-- `simple_wq_init` arms the first timer only if there is a node, and `simple_wq_exit`
begins to walk the list only when the timers are over. -/
def Orderly (s : EventModule) : ModuleAct → EventModule → Prop
  | .init _, _ => s.init = .timer → s.list.linked ≠ []
  | .exit, _ => s.exit = .first → s.TimersOver
  | _, _ => True

instance decidableOrderly (s : EventModule) (a : ModuleAct) (t : EventModule) :
    Decidable (s.Orderly a t) :=
  match a with
  | .init _ => inferInstanceAs (Decidable (_ → _ ≠ _))
  | .exit => inferInstanceAs (Decidable (_ → _))
  | .fireTimer | .fireIrq | .timer _ | .irq => isTrue trivial

/-- What each callback relies on. -/
def view (s : EventModule) : EventCallback → Option (NodeList → Prop)
  | .timer => s.myTimer.pc.bind TimerPc.view
  | .irq => s.irqTimer.pc.bind IrqPc.view

/-! ## The callbacks -/

/-- A step of `timer_callback` on the lock and the list. -/
theorem monitor_timerStep {now : ℤ} (h : s.timerStep now = some t) :
    Monitor.Step NodeList.Ok .timer s.listSpinlock (s.view .timer) s.list t.listSpinlock
      (t.view .timer) t.list := by
  cases timerStep_move h with
  | number now hpc =>
    simp only [view, hpc]
    exact .outside _ _
  | lock hpc hfree =>
    simp only [view, hpc, hfree]
    exact .acquire _ id
  | first hpc =>
    simp only [view, hpc]
    exact .inside _ _ _ fun hok => ⟨hok.setCursor _, hok.onNode_first⟩
  | empty hpc | setNumber hpc | setTime hpc =>
    simp only [view, hpc]
    exact .inside _ _ _ fun hok => hok.setMem _
  | rotate hpc =>
    simp only [view, hpc]
    exact .inside _ _ _ fun hok => ⟨hok.1.rotateLeft, hok.2.rotateLeft⟩
  | overflow hpc | print hpc =>
    simp only [view, hpc]
    exact .inside _ _ _ And.left
  | unlock hpc =>
    simp only [view, hpc]
    exact .release _ _ id
  | rearm hpc =>
    -- Armed again or not, the callback is outside.
    by_cases htimes : s.timerTimes - 1 = 0 <;> simp only [view, hpc, htimes, ne_eq, not_true,
      not_false_iff, if_true, if_false] <;> exact .outside _ _

/-- A step of `irq_simulation_callback` on the lock and the list. -/
theorem monitor_irqStep (h : s.irqStep = some t) :
    Monitor.Step NodeList.Ok .irq s.listSpinlock (s.view .irq) s.list t.listSpinlock
      (t.view .irq) t.list := by
  cases irqStep_move h with
  | lock hpc hfree =>
    simp only [view, hpc, hfree]
    exact .acquire _ id
  | first hpc =>
    simp only [view, hpc]
    exact .inside _ _ _ fun hok => ⟨hok.setCursor _, Or.inr hok.onNode_first⟩
  | last hpc =>
    simp only [view, hpc]
    exact .inside _ _ _ And.left
  | test hpc hhead =>
    simp only [view, hpc]
    exact .inside _ _ _ fun hok => ⟨hok.1, hok.2.resolve_left hhead⟩
  | found hpc | skip hpc | take hpc =>
    simp only [view, hpc]
    exact .inside _ _ _ fun hok => hok
  | clear hpc =>
    simp only [view, hpc]
    exact .inside _ _ _ fun hok => (hok.setMem _).1
  | next hpc hnext =>
    simp only [view, hpc]
    exact .inside _ _ _ fun hok => ⟨hok.1.setCursor _, hok.1.onNode_next hnext⟩
  | unlock hpc =>
    simp only [view, hpc]
    exact .release _ _ id
  | rearm hpc =>
    simp only [view, hpc]
    exact .outside _ _

/-- The frame of `timer_callback`. -/
theorem timerStep_frame {now : ℤ} (h : s.timerStep now = some t) :
    t.init = s.init ∧ t.exit = s.exit ∧ t.irqTimer = s.irqTimer := by
  cases timerStep_move h <;> exact ⟨rfl, rfl, rfl⟩

/-- The frame of `irq_simulation_callback`. -/
theorem irqStep_frame (h : s.irqStep = some t) :
    t.init = s.init ∧ t.exit = s.exit ∧ t.myTimer.pc = s.myTimer.pc := by
  cases irqStep_move h with
  | rearm hpc =>
    refine ⟨rfl, rfl, ?_⟩
    by_cases htimes : s.irqTimes - 1 = 0 <;> simp [htimes]
  | lock | first | last | test | found | skip | take | clear | next | unlock =>
    exact ⟨rfl, rfl, rfl⟩

/-- The frame of `simple_wq_exit` : it leaves the timers alone. -/
theorem exitStep_frame (h : s.exitStep = some t) :
    t.init = s.init ∧ t.myTimer = s.myTimer ∧ t.irqTimer = s.irqTimer ∧
      t.timerTimes = s.timerTimes ∧ t.listSpinlock = s.listSpinlock := by
  cases exitStep_move h <;> exact ⟨rfl, rfl, rfl, rfl, rfl⟩

/-- Once begun, `simple_wq_exit` does not begin again. -/
theorem exitStep_begun (h : s.exitStep = some t) (hexit : s.exit ≠ .loaded) :
    t.exit ≠ .loaded ∧ t.exit ≠ .first := by
  cases exitStep_move h with
  | enter hpc => exact absurd hpc hexit
  | first => exact ⟨by simp, by simp⟩
  | walk _ hpc' => exact hpc'

/-! ## The three phases -/

/-- `simple_wq_init` allocates, and nothing else runs. -/
structure Building (s : EventModule) : Prop where
  init : (∃ n, s.init = .alloc n ∧ ∀ id ∈ s.list.linked, n ≤ id) ∨ s.init = .timer
  exit : s.exit = .loaded
  idle : s.myTimer.Idle ∧ s.irqTimer.Idle
  free : s.listSpinlock = none
  nodup : s.list.linked.Nodup
  live : ∀ id ∈ s.list.linked, s.list.live id = true

/-- The timers are armed, and the callbacks run under the lock. -/
structure Running (s : EventModule) : Prop where
  init : s.init = .irq ∨ s.init = .done
  exit : s.exit = .loaded ∨ s.exit = .first ∧ s.init = .done
  lock : Monitor.Inv NodeList.Ok s.listSpinlock s.view s.list

/-- `simple_wq_exit` frees the list. -/
structure Leaving (s : EventModule) : Prop where
  init : s.init = .done
  exit : s.exit ≠ .loaded ∧ s.exit ≠ .first
  timersOver : s.TimersOver

/-- The invariant of an orderly run. -/
def Phase (s : EventModule) : Prop :=
  s.Building ∨ s.Running ∨ s.Leaving

theorem building_start : Building start :=
  ⟨Or.inl ⟨5, rfl, by simp [start]⟩, rfl, ⟨⟨rfl, rfl⟩, rfl, rfl⟩, rfl, by simp [start],
    by simp [start]⟩

theorem phase_start : Phase start :=
  Or.inl building_start

/-- `simple_wq_init` allocates one more node, or fails to. -/
theorem Building.alloc (h : s.Building) {n : ℕ} (hpc : s.init = .alloc n) {ok : Bool}
    (hstep : s.initStep ok = some t) : t.Building := by
  obtain ⟨⟨m, hm, hge⟩ | htimer, hexit, hidle, hfree, hnodup, hlive⟩ := h
  · obtain rfl : n = m := by simpa using hpc.symm.trans hm
    simp only [initStep, hpc] at hstep
    rcases n with _ | n
    · cases hstep
      exact ⟨Or.inr rfl, hexit, hidle, hfree, hnodup, hlive⟩
    · cases ok <;> cases hstep
      · exact ⟨Or.inl ⟨n, rfl, fun id hid => Nat.le_of_succ_le (hge id hid)⟩, hexit, hidle, hfree,
          hnodup, hlive⟩
      · refine ⟨Or.inl ⟨n, rfl, fun id hid => ?_⟩, hexit, hidle, hfree, ?_, fun id hid => ?_⟩
        · rcases List.mem_cons.1 hid with rfl | hid
          · exact le_rfl
          · exact Nat.le_of_succ_le (hge id hid)
        · refine List.nodup_cons.2 ⟨fun hid => ?_, hnodup⟩
          exact absurd (hge n hid) (by omega)
        · by_cases heq : id = n
          · simp [heq, addNode]
          · have hmem := (List.mem_cons.1 hid).resolve_left heq
            simpa [addNode, heq] using hlive id hmem
  · simp [hpc] at htimer

theorem Building.step (h : s.Building) (horderly : s.Orderly a t) (hstep : s.step a = some t) :
    t.Phase := by
  have hbuild := h
  obtain ⟨hinit, hexit, ⟨htimer, hirq⟩, hfree, hnodup, hlive⟩ := h
  cases a with
  | init ok =>
    rcases hinit with ⟨n, hpc, -⟩ | hpc
    · exact Or.inl (hbuild.alloc hpc hstep)
    · simp only [EventModule.step, initStep, hpc] at hstep
      cases hstep
      refine Or.inr (Or.inl
        ⟨Or.inl rfl, Or.inl hexit, ⟨fun c => ?_, fun _ => ?_, fun c P hP => ?_⟩⟩)
      · cases c <;> simp [view, htimer.2, hirq.2, hfree]
      · exact ⟨horderly hpc, hnodup, hlive⟩
      · cases c <;> simp [view, htimer.2, hirq.2] at hP
  | fireTimer => simp [EventModule.step, htimer.start_eq_none] at hstep
  | fireIrq => simp [EventModule.step, hirq.start_eq_none] at hstep
  | timer now => simp [EventModule.step, timerStep, htimer.2] at hstep
  | irq => simp [EventModule.step, irqStep, hirq.2] at hstep
  | exit =>
    simp only [EventModule.step, exitStep, hexit] at hstep
    split_ifs at hstep with hdone
    rcases hinit with ⟨n, hpc, -⟩ | hpc <;> simp [hpc] at hdone

theorem Running.step (h : s.Running) (horderly : s.Orderly a t) (hstep : s.step a = some t) :
    t.Phase := by
  obtain ⟨hinit, hexit, hlock⟩ := h
  cases a with
  | init ok =>
    rcases hinit with hpc | hpc <;> simp only [EventModule.step, initStep, hpc] at hstep <;>
      cases hstep
    have hloaded : s.exit = .loaded := by
      rcases hexit with hloaded | ⟨-, hdone⟩
      · exact hloaded
      · simp [hpc] at hdone
    exact Or.inr (Or.inl ⟨Or.inr rfl, Or.inl hloaded, hlock⟩)
  | fireTimer =>
    obtain ⟨d, hd, rfl⟩ := Option.map_eq_some_iff.1 hstep
    obtain ⟨-, hpc, rfl⟩ := Deferred.start_eq_some.1 hd
    refine Or.inr (Or.inl ⟨hinit, hexit, hlock.step .timer ?_ fun c hc => ?_⟩)
    · simpa [view, hpc, TimerPc.view] using Monitor.Step.outside s.listSpinlock s.list
    · cases c with
      | timer => exact absurd rfl hc
      | irq => rfl
  | fireIrq =>
    obtain ⟨d, hd, rfl⟩ := Option.map_eq_some_iff.1 hstep
    obtain ⟨-, hpc, rfl⟩ := Deferred.start_eq_some.1 hd
    refine Or.inr (Or.inl ⟨hinit, hexit, hlock.step .irq ?_ fun c hc => ?_⟩)
    · simpa [view, hpc, IrqPc.view] using Monitor.Step.outside s.listSpinlock s.list
    · cases c with
      | timer => rfl
      | irq => exact absurd rfl hc
  | timer now =>
    obtain ⟨hi, he, hirq⟩ := timerStep_frame hstep
    refine Or.inr (Or.inl ⟨hi ▸ hinit, he ▸ hi ▸ hexit,
      hlock.step .timer (monitor_timerStep hstep) fun c hc => ?_⟩)
    cases c with
    | timer => exact absurd rfl hc
    | irq => simp [view, hirq]
  | irq =>
    obtain ⟨hi, he, htimer⟩ := irqStep_frame hstep
    refine Or.inr (Or.inl ⟨hi ▸ hinit, he ▸ hi ▸ hexit,
      hlock.step .irq (monitor_irqStep hstep) fun c hc => ?_⟩)
    cases c with
    | timer => simp [view, htimer]
    | irq => exact absurd rfl hc
  | exit =>
    rcases hexit with hloaded | ⟨hfirst, hdone⟩
    · simp only [EventModule.step, exitStep, hloaded] at hstep
      split_ifs at hstep with hdone
      cases hstep
      exact Or.inr (Or.inl ⟨hinit, Or.inr ⟨rfl, hdone⟩, hlock⟩)
    · have hover := horderly hfirst
      obtain ⟨hi, htimer, hirq, htimes, -⟩ := exitStep_frame hstep
      refine Or.inr (Or.inr ⟨hi ▸ hdone, exitStep_begun hstep (by simp [hfirst]), ?_⟩)
      simpa only [TimersOver, htimer, hirq, htimes] using hover

theorem Leaving.step (h : s.Leaving) (hstep : s.step a = some t) : t.Phase := by
  obtain ⟨hinit, hexit, harmed, hirq, hpc⟩ := h
  refine Or.inr (Or.inr ?_)
  cases a with
  | init ok => simp [EventModule.step, initStep, hinit] at hstep
  | fireTimer => simp [EventModule.step, Deferred.start, harmed] at hstep
  | fireIrq => simp [EventModule.step, hirq.start_eq_none] at hstep
  | irq => simp [EventModule.step, irqStep, hirq.2] at hstep
  | timer now =>
    rcases hpc with hnone | ⟨hunlock | hrearm, htimes⟩
    · simp [EventModule.step, timerStep, hnone] at hstep
    · simp only [EventModule.step, timerStep, hunlock] at hstep
      cases hstep
      exact ⟨hinit, hexit, harmed, hirq, Or.inr ⟨Or.inr rfl, htimes⟩⟩
    · -- The countdown comes to zero : `my_timer` is not armed.
      simp only [EventModule.step, timerStep, hrearm, htimes] at hstep
      cases hstep
      exact ⟨hinit, hexit, harmed, hirq, Or.inl rfl⟩
  | exit =>
    obtain ⟨hi, htimer, hirqTimer, htimes, -⟩ := exitStep_frame hstep
    refine ⟨hi ▸ hinit, exitStep_begun hstep hexit.1, ?_⟩
    simpa only [TimersOver, htimer, hirqTimer, htimes] using And.intro harmed ⟨hirq, hpc⟩

theorem phase_step (h : s.Phase) (horderly : s.Orderly a t) (hstep : s.step a = some t) :
    t.Phase := by
  rcases h with h | h | h
  · exact h.step horderly hstep
  · exact h.step horderly hstep
  · exact h.step hstep

theorem Phase.safe (h : s.Phase) : s.Safe := by
  rcases h with h | h | h
  · refine ⟨fun pc hpc => ?_, fun pc hpc => ?_, fun hexit => ?_⟩
    · simp [h.idle.1.2] at hpc
    · simp [h.idle.2.2] at hpc
    · simp [h.exit] at hexit
  · refine ⟨fun pc hpc hacc => ?_, fun pc hpc hacc => ?_, fun hexit => ?_⟩
    · have hok := h.lock.held .timer NodeList.OkOnNode (by simpa [view, hpc] using hacc.view)
      exact hok.2
    · have hok := h.lock.held .irq NodeList.OkOnNode (by simpa [view, hpc] using hacc.view)
      exact hok.2
    · rcases h.exit with hpc | ⟨hpc, -⟩ <;> simp [hpc] at hexit
  · obtain ⟨harmed, hirq, htimer⟩ := h.timersOver
    refine ⟨fun pc hpc hacc => ?_, fun pc hpc => ?_, fun _ => ⟨harmed, hirq.1⟩⟩
    · rcases htimer with hnone | ⟨heq | heq, -⟩
      · simp [hnone] at hpc
      · obtain rfl := Option.some.inj (heq.symm.trans hpc)
        exact hacc.elim
      · obtain rfl := Option.some.inj (heq.symm.trans hpc)
        exact hacc.elim
    · simp [hirq.2] at hpc

theorem phase_of_orderly (hC : EveryStep step Orderly start as)
    (h : exec step start as = some s) : s.Phase := by
  refine exec_invariant ?_ phase_start hC h
  intro s a t hphase horderly hstep
  exact phase_step hphase horderly hstep

/-- In every orderly run each access through `cursor` is to a node that is in the list and
not freed, and no timer is pending when `simple_wq_exit` has returned. -/
theorem node_lifetime (hC : EveryStep step Orderly start as) (h : exec step start as = some s) :
    s.Safe :=
  (phase_of_orderly hC h).safe

/-- The run of `maximalRun`, and `simple_wq_exit` after it. -/
def unloadRun : List ModuleAct :=
  maximalRun ++ List.replicate 9 .exit

/-- The module is loaded, runs until its timers are over and is unloaded. -/
theorem node_lifetime_unload :
    ∃ s, exec step start unloadRun = some s ∧ s.exit = .returned ∧ s.Safe := by
  have hC : EveryStep step Orderly start unloadRun := by decide +kernel
  have hend : (exec step start unloadRun).map EventModule.exit = some .returned := by
    decide +kernel
  obtain ⟨s, hs, hexit⟩ := Option.map_eq_some_iff.1 hend
  exact ⟨s, hs, hexit, node_lifetime hC hs⟩

/-! ## Where it is not orderly -/

theorem not_safe_of_deref {pc : TimerPc} (hpc : s.myTimer.pc = some pc) (hacc : pc.Accesses)
    (hderef : s.list.deref = none) : ¬s.Safe :=
  fun hsafe => (hsafe.timer pc hpc hacc).deref_ne_none hderef

/-- No `kmalloc` succeeds, and `timer_callback` takes the first entry of the empty list. -/
def emptyRun : List ModuleAct :=
  List.replicate 8 (.init false) ++ .fireTimer :: List.replicate 3 (.timer 1)

/-- `simple_wq_exit` frees the node `timer_callback` is about to read. -/
def staleRun : List ModuleAct :=
  loadRun ++ .fireTimer :: List.replicate 3 (.timer 1) ++ List.replicate 6 .exit

/-- `simple_wq_exit` returns before the first timer has fired. -/
def earlyRun : List ModuleAct :=
  loadRun ++ List.replicate 9 .exit

/-- `timer_callback` reads the head in place of a node, or a node that is freed; a timer
outlives the module. -/
theorem lifetime_missed :
    (∃ s, exec step start emptyRun = some s ∧ ¬s.Safe) ∧
      (∃ s, exec step start staleRun = some s ∧ ¬s.Safe) ∧
      ∃ s, exec step start earlyRun = some s ∧ ¬s.Safe := by
  refine ⟨?_, ?_, ?_⟩
  · have hend : (exec step start emptyRun).map (fun s => (s.myTimer.pc, s.list.deref)) =
        some (some .test, none) := by decide +kernel
    obtain ⟨s, hs, heq⟩ := Option.map_eq_some_iff.1 hend
    simp only [Prod.mk.injEq] at heq
    exact ⟨s, hs, not_safe_of_deref heq.1 trivial heq.2⟩
  · have hend : (exec step start staleRun).map (fun s => (s.myTimer.pc, s.list.deref)) =
        some (some .test, none) := by decide +kernel
    obtain ⟨s, hs, heq⟩ := Option.map_eq_some_iff.1 hend
    simp only [Prod.mk.injEq] at heq
    exact ⟨s, hs, not_safe_of_deref heq.1 trivial heq.2⟩
  · have hend : (exec step start earlyRun).map (fun s => (s.exit, s.myTimer.armed)) =
        some (.returned, true) := by decide +kernel
    obtain ⟨s, hs, heq⟩ := Option.map_eq_some_iff.1 hend
    simp only [Prod.mk.injEq] at heq
    refine ⟨s, hs, fun hsafe => ?_⟩
    simpa [heq.2] using (hsafe.exit heq.1).1

/-- Some run leads to a state that is not safe. -/
def Unsafe (s : EventModule) : Prop :=
  ∃ as t, exec step s as = some t ∧ ¬t.Safe

theorem Unsafe.now (h : ¬s.Safe) : s.Unsafe :=
  ⟨[], s, rfl, h⟩

theorem Unsafe.of_exec (h : t.Unsafe) (hrun : exec step s as = some t) : s.Unsafe := by
  obtain ⟨bs, u, hu, hnot⟩ := h
  exact ⟨as ++ bs, u, exec_append_eq_some.2 ⟨t, hrun, hu⟩, hnot⟩

theorem Unsafe.of_step (a : ModuleAct) (hstep : s.step a = some t) (h : t.Unsafe) : s.Unsafe :=
  h.of_exec (exec_cons_eq_some.2 ⟨t, hstep, exec_nil t⟩)

/-! ### `simple_wq_exit` on its own -/

/-- `simple_wq_exit` at the test of its loop, on the list `ids`. -/
def exitTest (s : EventModule) (ids : List ℕ) (live : ℕ → Bool) : EventModule :=
  { s with
    exit := .test
    tmp := NodeList.entry ids.tail
    list := ⟨ids, live, s.list.mem, NodeList.entry ids⟩ }

/-- `simple_wq_exit` has freed the list. -/
def exited (s : EventModule) (live : ℕ → Bool) : EventModule :=
  { s with
    exit := .returned
    tmp := .head
    list := ⟨[], live, s.list.mem, .head⟩ }

theorem exec_exitTest_cons (s : EventModule) {id : ℕ} {ids : List ℕ} {live : ℕ → Bool}
    (hnodup : (id :: ids).Nodup) (hlive : ∀ i ∈ id :: ids, live i = true) :
    exec step (s.exitTest (id :: ids) live) (List.replicate 5 .exit) =
      some (s.exitTest ids (Function.update live id false)) := by
  obtain ⟨hnot, -⟩ := List.nodup_cons.1 hnodup
  have hnext : NodeList.nextEntry
      ⟨ids, Function.update live id false, s.list.mem, NodeList.entry ids⟩ (NodeList.entry ids) =
        some (NodeList.entry ids.tail) := by
    rcases ids with _ | ⟨id', ids⟩
    · rfl
    · have hne : id' ≠ id := fun heq => hnot (heq ▸ List.mem_cons_self)
      simp [NodeList.nextEntry, hne, hlive id' (by simp)]
  simp [exec, EventModule.step, exitStep, exitTest, NodeList.deref, hlive id (by simp),
    List.replicate, hnext]

theorem exec_exitTest (s : EventModule) (ids : List ℕ) {live : ℕ → Bool}
    (hnodup : ids.Nodup) (hlive : ∀ i ∈ ids, live i = true) :
    ∃ as live', exec step (s.exitTest ids live) as = some (s.exited live') := by
  induction ids generalizing live with
  | nil => exact ⟨[.exit], live, rfl⟩
  | cons id ids ih =>
    obtain ⟨hnot, hnodup'⟩ := List.nodup_cons.1 hnodup
    have hlive' : ∀ i ∈ ids, Function.update live id false i = true := by
      intro i hi
      have hne : i ≠ id := fun heq => hnot (heq ▸ hi)
      simpa [hne] using hlive i (List.mem_cons_of_mem _ hi)
    obtain ⟨as, live', has⟩ := ih hnodup' hlive'
    exact ⟨List.replicate 5 .exit ++ as, live',
      exec_append_eq_some.2 ⟨_, exec_exitTest_cons s hnodup hlive, has⟩⟩

/-- Uninterrupted, `simple_wq_exit` frees a list that is sound, and returns. -/
theorem exec_exit (hok : s.list.Ok) (hexit : s.exit = .first) :
    ∃ as live', exec step s (.exit :: as) = some (s.exited live') := by
  obtain ⟨id, ids, hlinked⟩ := List.exists_cons_of_ne_nil hok.nonempty
  have hnext : NodeList.nextEntry ⟨id :: ids, s.list.live, s.list.mem, .node id⟩ (.node id) =
      some (NodeList.entry ids) := by
    simp [NodeList.nextEntry, hok.live id (by simp [hlinked])]
  have hrun : exec step s (List.replicate 2 .exit) =
      some (s.exitTest (id :: ids) s.list.live) := by
    simp [exec, EventModule.step, exitStep, hexit, List.replicate, NodeList.firstEntry, hlinked,
      hnext, exitTest]
  obtain ⟨as, live', has⟩ :=
    exec_exitTest s (id :: ids) (hlinked ▸ hok.nodup) (hlinked ▸ hok.live)
  exact ⟨.exit :: as, live', exec_append_eq_some.2 ⟨_, hrun, has⟩⟩

/-! ### The callbacks after it -/

theorem unsafe_of_armed (hexit : s.exit = .returned)
    (harmed : s.myTimer.armed = true ∨ s.irqTimer.armed = true) : s.Unsafe := by
  refine .now fun hsafe => ?_
  obtain ⟨htimer, hirq⟩ := hsafe.exit hexit
  simp [htimer, hirq] at harmed

theorem not_onNode (hempty : s.list.linked = []) : ¬s.list.OnNode := by
  rintro ⟨id, hid, -⟩
  simp [hempty] at hid

theorem unsafe_of_timer (pc : TimerPc) (hempty : s.list.linked = [])
    (hpc : s.myTimer.pc = some pc) (hacc : pc.Accesses) : s.Unsafe :=
  .now fun hsafe => not_onNode hempty (hsafe.timer pc hpc hacc)

theorem unsafe_of_irq (pc : IrqPc) (hempty : s.list.linked = [])
    (hpc : s.irqTimer.pc = some pc) (hacc : pc.Accesses) : s.Unsafe :=
  .now fun hsafe => not_onNode hempty (hsafe.irq pc hpc hacc)

/-- Inside its critical section `timer_callback` goes on to touch `cursor`. -/
theorem unsafe_of_timer_inside (pc : TimerPc) {P : NodeList → Prop}
    (hempty : s.list.linked = []) (hpc : s.myTimer.pc = some pc) (hview : pc.view = some P)
    (hne : pc ≠ .unlock) : s.Unsafe := by
  cases pc with
  | number | lock | rearm => simp [TimerPc.view] at hview
  | unlock => exact absurd rfl hne
  | test | setNumber | setTime | print => exact unsafe_of_timer _ hempty hpc trivial
  | first =>
    refine .of_step (.timer 0) (by simp only [EventModule.step, timerStep, hpc]; rfl) ?_
    exact unsafe_of_timer .test hempty rfl trivial
  | rotate =>
    refine .of_step (.timer 0) (by simp only [EventModule.step, timerStep, hpc]; rfl) ?_
    exact unsafe_of_timer .print (by simp [NodeList.rotateLeft, hempty]) rfl trivial

theorem unsafe_of_timer_lock (hempty : s.list.linked = []) (hfree : s.listSpinlock = none)
    (hpc : s.myTimer.pc = some .lock) : s.Unsafe := by
  refine .of_step (.timer 0) (by simp only [EventModule.step, timerStep, hpc, hfree]; rfl) ?_
  exact unsafe_of_timer_inside .first hempty rfl rfl (by simp)

theorem unsafe_of_timer_number (hempty : s.list.linked = []) (hfree : s.listSpinlock = none)
    (hpc : s.myTimer.pc = some .number) : s.Unsafe := by
  refine .of_step (.timer 0) (by simp only [EventModule.step, timerStep, hpc]; rfl) ?_
  exact unsafe_of_timer_lock hempty hfree rfl

/-- `timer_callback` arms its timer unless the countdown is over. -/
theorem unsafe_of_timer_rearm (hexit : s.exit = .returned)
    (hpc : s.myTimer.pc = some .rearm) (htimes : s.timerTimes ≠ 1) : s.Unsafe := by
  refine .of_step (.timer 0) (by simp only [EventModule.step, timerStep, hpc]; rfl) ?_
  have hne : s.timerTimes - 1 ≠ 0 := by grind
  exact unsafe_of_armed hexit (Or.inl (by simp [hne]))

theorem unsafe_of_timer_unlock (hexit : s.exit = .returned)
    (hpc : s.myTimer.pc = some .unlock) (htimes : s.timerTimes ≠ 1) : s.Unsafe := by
  refine .of_step (.timer 0) (by simp only [EventModule.step, timerStep, hpc]; rfl) ?_
  exact unsafe_of_timer_rearm hexit rfl htimes

/-- The one run of `irq_simulation_callback` arms `my_timer`. -/
theorem unsafe_of_irq_rearm (hexit : s.exit = .returned) (htimes : s.irqTimes = 6)
    (hpc : s.irqTimer.pc = some .rearm) : s.Unsafe := by
  refine .of_step .irq (by simp only [EventModule.step, irqStep, hpc]; rfl) ?_
  have hne : s.irqTimes - 1 ≠ 0 := by
    rw [htimes]
    decide
  exact unsafe_of_armed hexit (Or.inl (by simp [hne]))

theorem unsafe_of_irq_unlock (hexit : s.exit = .returned) (htimes : s.irqTimes = 6)
    (hpc : s.irqTimer.pc = some .unlock) : s.Unsafe := by
  refine .of_step .irq (by simp only [EventModule.step, irqStep, hpc]; rfl) ?_
  exact unsafe_of_irq_rearm hexit htimes rfl

theorem unsafe_of_irq_test (hexit : s.exit = .returned) (htimes : s.irqTimes = 6)
    (hhead : s.list.cursor = .head) (hpc : s.irqTimer.pc = some .test) : s.Unsafe := by
  refine .of_step .irq (by simp only [EventModule.step, irqStep, hpc]; rfl) ?_
  exact unsafe_of_irq_unlock hexit htimes (by simp [gotoIrq, hhead])

theorem unsafe_of_irq_first (hexit : s.exit = .returned) (htimes : s.irqTimes = 6)
    (hempty : s.list.linked = []) (hpc : s.irqTimer.pc = some .first) : s.Unsafe := by
  refine .of_step .irq (by simp only [EventModule.step, irqStep, hpc]; rfl) ?_
  exact unsafe_of_irq_test hexit htimes (by simp [NodeList.firstEntry, hempty]) rfl

theorem unsafe_of_irq_lock (hexit : s.exit = .returned) (htimes : s.irqTimes = 6)
    (hempty : s.list.linked = []) (hfree : s.listSpinlock = none)
    (hpc : s.irqTimer.pc = some .lock) : s.Unsafe := by
  refine .of_step .irq (by simp only [EventModule.step, irqStep, hpc, hfree]; rfl) ?_
  exact unsafe_of_irq_first hexit htimes hempty rfl

/-- While the timers are armed the list is sound. -/
theorem Running.ok (h : s.Running) : s.list.Ok := by
  rcases howner : s.listSpinlock with _ | c
  · exact h.lock.free howner
  · obtain ⟨P, hP⟩ := Option.isSome_iff_exists.1 ((h.lock.inside_iff c).2 howner)
    have hlist := h.lock.held c P hP
    cases c with
    | timer =>
      obtain ⟨pc, -, hview⟩ := Option.bind_eq_some_iff.1 hP
      cases pc <;> simp only [TimerPc.view, reduceCtorEq, Option.some.injEq] at hview <;>
        subst hview <;> first | exact hlist | exact hlist.1
    | irq =>
      obtain ⟨pc, -, hview⟩ := Option.bind_eq_some_iff.1 hP
      cases pc <;> simp only [IrqPc.view, reduceCtorEq, Option.some.injEq] at hview <;>
        subst hview <;> first | exact hlist | exact hlist.1

/-- `irq_simulation_callback` runs when `simple_wq_exit` walks the list. -/
theorem Running.unsafe_of_irq (h : s.Running) {pc : IrqPc} (hpc : s.irqTimer.pc = some pc)
    (htimes : s.irqTimes = 6) (live : ℕ → Bool) : (s.exited live).Unsafe := by
  cases pc with
  | read | take | clear | next => exact EventModule.unsafe_of_irq _ rfl hpc trivial
  | rearm => exact unsafe_of_irq_rearm rfl htimes hpc
  | unlock => exact unsafe_of_irq_unlock rfl htimes hpc
  | test => exact unsafe_of_irq_test rfl htimes rfl hpc
  | first => exact unsafe_of_irq_first rfl htimes rfl hpc
  | lock =>
    rcases howner : s.listSpinlock with _ | _ | _
    · exact unsafe_of_irq_lock rfl htimes rfl howner hpc
    · -- It waits for `timer_callback`.
      obtain ⟨P, hP⟩ := Option.isSome_iff_exists.1 ((h.lock.inside_iff .timer).2 howner)
      obtain ⟨pc', hpc', hview⟩ := Option.bind_eq_some_iff.1 hP
      by_cases hunlock : pc' = .unlock
      · subst hunlock
        have hstep : (s.exited live).step (.timer 0) =
            some { (s.exited live).gotoTimer .rearm with listSpinlock := none } := by
          simp only [EventModule.step, timerStep, exited, hpc']
        refine .of_step (.timer 0) hstep ?_
        exact unsafe_of_irq_lock rfl htimes rfl rfl hpc
      · exact unsafe_of_timer_inside pc' rfl hpc' hview hunlock
    · have hview := (h.lock.inside_iff .irq).2 howner
      simp [view, hpc, IrqPc.view] at hview

/-- `timer_callback` runs when `simple_wq_exit` walks the list, and has more to do than
return. -/
theorem Running.unsafe_of_timer (h : s.Running) {pc : TimerPc} (hpc : s.myTimer.pc = some pc)
    (hirq : s.irqTimer.pc = none) (htimes : pc = .unlock ∨ pc = .rearm → s.timerTimes ≠ 1)
    (live : ℕ → Bool) : (s.exited live).Unsafe := by
  have hfree : pc.view = none → s.listSpinlock = none := by
    intro hview
    rcases howner : s.listSpinlock with _ | _ | _
    · rfl
    · simpa [view, hpc, hview] using (h.lock.inside_iff .timer).2 howner
    · simpa [view, hirq] using (h.lock.inside_iff .irq).2 howner
  cases pc with
  | number => exact unsafe_of_timer_number rfl (hfree rfl) hpc
  | lock => exact unsafe_of_timer_lock rfl (hfree rfl) hpc
  | unlock => exact unsafe_of_timer_unlock rfl hpc (htimes (Or.inl rfl))
  | rearm => exact unsafe_of_timer_rearm rfl hpc (htimes (Or.inr rfl))
  | first | test | setNumber | setTime | rotate | print =>
    exact unsafe_of_timer_inside _ rfl hpc rfl (by simp)

/-- `simple_wq_exit` walks the list before the timers are over. -/
theorem unsafe_of_not_over (h : s.Running) (hexit : s.exit = .first)
    (hirqTimes : s.irqTimer.pc ≠ none → s.irqTimes = 6) (hnot : ¬s.TimersOver)
    (hstep : s.step .exit = some t) : t.Unsafe := by
  obtain ⟨as, live, hrun⟩ := exec_exit h.ok hexit
  obtain ⟨t', ht', hrun⟩ := exec_cons_eq_some.1 hrun
  obtain rfl := Option.some.inj (hstep.symm.trans ht')
  -- `simple_wq_exit` runs on its own first; the lock and the timers are as before.
  refine Unsafe.of_exec ?_ hrun
  by_cases harmed : s.myTimer.armed = true ∨ s.irqTimer.armed = true
  · exact unsafe_of_armed rfl harmed
  obtain ⟨htimer, hirq⟩ := not_or.1 harmed
  simp only [Bool.not_eq_true] at htimer hirq
  rcases hpc : s.irqTimer.pc with _ | pc
  · rcases hpc' : s.myTimer.pc with _ | pc
    · exact absurd ⟨htimer, ⟨hirq, hpc⟩, Or.inl hpc'⟩ hnot
    · refine h.unsafe_of_timer hpc' hpc (fun hlast htimes => hnot ?_) live
      refine ⟨htimer, ⟨hirq, hpc⟩, Or.inr ⟨?_, htimes⟩⟩
      rwa [hpc', Option.some_inj, Option.some_inj]
  · exact h.unsafe_of_irq hpc (hirqTimes (by simp [hpc])) live

/-- `simple_wq_init` arms the timers of an empty list. -/
theorem unsafe_of_empty (h : s.Building) (hpc : s.init = .timer)
    (hempty : s.list.linked = []) (ok : Bool) (hstep : s.step (.init ok) = some t) :
    t.Unsafe := by
  simp only [EventModule.step, initStep, hpc] at hstep
  cases hstep
  refine .of_step .fireTimer (by simp only [EventModule.step, Deferred.start, Deferred.arm_armed,
    Deferred.arm_pc, h.idle.1.2]; rfl) ?_
  exact unsafe_of_timer_number hempty h.free rfl

/-- From every step that is not orderly a run leads to a state that is not safe. -/
theorem unsafe_of_not_orderly (hC : EveryStep step Orderly start as)
    (h : exec step start as = some s) (hstep : s.step a = some t) (hnot : ¬s.Orderly a t) :
    t.Unsafe := by
  have hphase := phase_of_orderly hC h
  cases a with
  | fireTimer | fireIrq | timer | irq => exact absurd trivial hnot
  | init ok =>
    obtain ⟨hpc, hempty⟩ := Classical.not_imp.1 hnot
    rcases hphase with hbuild | hrun | hleave
    · exact unsafe_of_empty hbuild hpc (not_not.1 hempty) ok hstep
    · rcases hrun.init with heq | heq <;> simp [heq] at hpc
    · simp [hleave.init] at hpc
  | exit =>
    obtain ⟨hexit, hover⟩ := Classical.not_imp.1 hnot
    rcases hphase with hbuild | hrun | hleave
    · simp [hbuild.exit] at hexit
    · refine unsafe_of_not_over hrun hexit (fun hpc => ?_) hover hstep
      have hdone : s.init = .done := by
        rcases hrun.exit with hloaded | ⟨-, hdone⟩
        · simp [hloaded] at hexit
        · exact hdone
      rcases (clock_inv h).irq.after hdone with ⟨-, -, -, htimes⟩ | ⟨-, -, -, htimes⟩ | ⟨hidle, -⟩
      · exact htimes
      · exact htimes
      · exact absurd hidle.2 hpc
    · exact absurd hexit hleave.exit.2

end EventModule

end ProCamp
