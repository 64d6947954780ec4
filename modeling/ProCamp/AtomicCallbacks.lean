import ProCamp.NodeLifetime

/-!
# The callbacks are atomic

`EventList` runs whole callbacks one after the other, `EventModule` their steps in any
order. `atomic_callbacks` connects the two : until `simple_wq_exit` walks the list, and
whenever the lock of the head is free, the list is that of some sequence of whole callbacks.
A call of `timer_callback` takes effect with its last access to the list, one of
`irq_simulation_callback` when it clears a node or comes to the end of the list.

`timer_callback` numbers its event before it takes the lock, so until it takes effect
`current_number` is one ahead of the sequence (`Numbers`).
-/

namespace ProCamp

open Machine

namespace NodeList

/-- The nodes, in list order. -/
def nodes (l : NodeList) : List ListData :=
  l.linked.map l.mem

variable {l : NodeList} {id : ℕ} {ids pre post : List ℕ}

theorem nodes_eq_cons (h : l.linked = id :: ids) : l.nodes = l.mem id :: ids.map l.mem := by
  simp [nodes, h]

/-- A store to a node leaves the others. -/
theorem map_update {mem : ℕ → ListData} {nd : ListData} (h : id ∉ ids) :
    ids.map (Function.update mem id nd) = ids.map mem := by
  refine List.map_congr_left fun i hi => Function.update_of_ne ?_ _ _
  rintro rfl
  exact h hi

theorem deref_eq_some : l.deref = some id ↔ l.cursor = .node id ∧ l.live id = true := by
  cases hcursor : l.cursor with
  | null | head => simp [deref, hcursor]
  | node id' =>
    simp only [deref, hcursor, Option.ite_none_right_eq_some, Option.some.injEq, Cursor.node.injEq]
    constructor
    · rintro ⟨hlive, rfl⟩
      exact ⟨rfl, hlive⟩
    · rintro ⟨rfl, hlive⟩
      exact ⟨hlive, rfl⟩

/-- The entry after a linked node. -/
theorem nextEntry_node {c : Cursor} (hlinked : l.linked = pre ++ id :: post)
    (hnodup : l.linked.Nodup) (hnext : l.nextEntry (.node id) = some c) : c = entry post := by
  simp only [nextEntry] at hnext
  split_ifs at hnext
  obtain rfl := Option.some.inj hnext
  have hne : ∀ i ∈ pre, decide (i ≠ id) = true := by
    intro i hi
    rw [hlinked] at hnodup
    have := (List.nodup_append.1 hnodup).2.2 i hi id (by simp)
    simpa using this
  rw [hlinked, List.dropWhile_append_of_pos hne]
  simp

end NodeList

/-! ## What each line relies on -/

/-- The list is that of whole callbacks. -/
def Agrees (d : NodeList × List ListData) : Prop :=
  d.1.linked.Nodup ∧ d.1.nodes = d.2

/-- `cursor` is the first node, with `P` of what is in it. In the sequence of whole
callbacks it is empty, and the others are as they are. -/
def Filling (P : ListData → Prop) (d : NodeList × List ListData) : Prop :=
  d.1.linked.Nodup ∧ ∃ id ids nd, d.1.linked = id :: ids ∧ d.1.cursor = .node id ∧
    d.2 = nd :: ids.map d.1.mem ∧ nd.number = 0 ∧ P (d.1.mem id)

/-- The first node has been filled and the list rotated. -/
def Rotated (time number : ℤ) (d : NodeList × List ListData) : Prop :=
  d.1.linked.Nodup ∧ ∃ nd rest, d.2 = nd :: rest ∧ nd.number = 0 ∧
    d.1.nodes = rest ++ [⟨time, number⟩]

/-- `cursor` is the entry before which every node is empty, with `P` of what is in it. -/
def Walking (P : ListData → Prop) (d : NodeList × List ListData) : Prop :=
  Agrees d ∧ ∃ pre post, d.1.linked = pre ++ post ∧ d.1.cursor = NodeList.entry post ∧
    (∀ id ∈ pre, (d.1.mem id).number = 0) ∧ ∀ id, d.1.cursor = .node id → P (d.1.mem id)

/-- The lines of `timer_callback`, for the event it numbers. -/
def TimerPc.atomic (time number : ℤ) :
    TimerPc → Option (NodeList × List ListData → Prop)
  | .number | .lock | .rearm => none
  | .first | .unlock => some Agrees
  | .test => some fun d => Agrees d ∧ d.1.cursor = d.1.firstEntry
  | .setNumber => some (Filling fun _ => True)
  | .setTime => some (Filling fun nd => nd.number = number)
  | .rotate => some (Filling fun nd => nd = ⟨time, number⟩)
  | .print => some (Rotated time number)

/-- The lines of `irq_simulation_callback`. -/
def IrqPc.atomic : IrqPc → Option (NodeList × List ListData → Prop)
  | .lock | .rearm => none
  | .first | .unlock => some Agrees
  | .test | .read => some (Walking fun _ => True)
  | .take | .clear => some (Walking fun nd => nd.number ≠ 0)
  | .next => some (Walking fun nd => nd.number = 0)

/-- `timer_callback` has fired and not yet taken effect. -/
def TimerPc.ahead : Option TimerPc → ℕ
  | none | some .unlock | some .rearm => 0
  | some _ => 1

/-- `current_number` and `current_time` beside those of the sequence. -/
def Numbers (number time : ℤ) (h : HeadType) : Option TimerPc → Prop
  | none | some .number | some .unlock | some .rearm =>
    number = h.currentNumber ∧ time = h.currentTime
  | some _ => number = toInt (h.currentNumber + 1) ∧ ∃ now, time = toInt now

/-! ## `timer_callback` -/

variable {d : NodeList × List ListData} {l : NodeList} {nodes : List ListData} {id : ℕ}
  {P Q : ListData → Prop}

/-- On the first node of a list that agrees. -/
theorem Agrees.first (h : Agrees (l, nodes)) (hcursor : l.cursor = l.firstEntry)
    (hid : l.deref = some id) :
    ∃ ids, l.linked = id :: ids ∧ nodes = l.mem id :: ids.map l.mem := by
  have hnode := (NodeList.deref_eq_some.1 hid).1
  rw [hcursor, NodeList.firstEntry] at hnode
  rcases hlinked : l.linked with _ | ⟨id', ids⟩
  · simp [hlinked] at hnode
  · rw [hlinked, NodeList.entry_cons, Cursor.node.injEq] at hnode
    subst hnode
    exact ⟨ids, rfl, h.2.symm.trans (NodeList.nodes_eq_cons hlinked)⟩

/-- Lines 83 and 84 : the first node is empty. -/
theorem Agrees.filling (h : Agrees (l, nodes)) (hcursor : l.cursor = l.firstEntry)
    (hid : l.deref = some id) (hzero : (l.mem id).number = 0) :
    Filling (fun _ => True) (l, nodes) := by
  obtain ⟨ids, hlinked, hnodes⟩ := h.first hcursor hid
  exact ⟨h.1, id, ids, l.mem id, hlinked, (NodeList.deref_eq_some.1 hid).1, hnodes, hzero, trivial⟩

/-- A store to the first node. -/
theorem Filling.store (h : Filling P (l, nodes)) (hid : l.deref = some id) {nd : ListData}
    (hQ : P (l.mem id) → Q nd) :
    Filling Q ({ l with mem := Function.update l.mem id nd }, nodes) := by
  obtain ⟨hnodup, id', ids, old, hlinked, hcursor, hnodes, hzero, hP⟩ := h
  obtain rfl : id' = id := by
    simpa using hcursor.symm.trans (NodeList.deref_eq_some.1 hid).1
  have hnot : id' ∉ ids := (List.nodup_cons.1 (hlinked ▸ hnodup)).1
  refine ⟨hnodup, id', ids, old, hlinked, hcursor, ?_, hzero, ?_⟩
  · show nodes = old :: ids.map (Function.update l.mem id' nd)
    rw [NodeList.map_update hnot]
    exact hnodes
  · simpa using hQ hP

/-- `list_rotate_left`. -/
theorem Filling.rotateLeft {time number : ℤ}
    (h : Filling (fun nd => nd = ⟨time, number⟩) (l, nodes)) :
    Rotated time number (l.rotateLeft, nodes) := by
  obtain ⟨hnodup, id, ids, nd, hlinked, -, hnodes, hzero, hnd⟩ := h
  refine ⟨List.nodup_rotate.2 hnodup, nd, ids.map l.mem, hnodes, hzero, ?_⟩
  simp only [NodeList.nodes, NodeList.rotateLeft] at hlinked hnd ⊢
  simp [hlinked, hnd]

/-- Line 86 is the last of a call that fills a node. -/
theorem Rotated.timerCallback {number now : ℤ}
    (h : Rotated (toInt now) (toInt (number + 1)) (l, nodes)) (time : ℤ) :
    timerCallback ⟨nodes, number, time⟩ now =
      some (⟨l.nodes, toInt (number + 1), toInt now⟩, none) := by
  obtain ⟨-, nd, rest, hnodes, hzero, hfilled⟩ := h
  simp only at hnodes hfilled
  simp [ProCamp.timerCallback, hnodes, hzero, hfilled]

/-- Line 81 is the last of a call that finds no empty node. -/
theorem Agrees.timerCallback (h : Agrees (l, nodes)) (hcursor : l.cursor = l.firstEntry)
    (hid : l.deref = some id) (hne : (l.mem id).number ≠ 0) (number time now : ℤ) :
    timerCallback ⟨nodes, number, time⟩ now =
      some (⟨nodes, toInt (number + 1), toInt now⟩, some (toInt (number + 1))) := by
  obtain ⟨ids, -, hnodes⟩ := h.first hcursor hid
  simp [ProCamp.timerCallback, hnodes, hne]

/-! ## `irq_simulation_callback` -/

/-- Line 111, the first entry. -/
theorem Agrees.walking (h : Agrees (l, nodes)) :
    Walking (fun _ => True) ({ l with cursor := l.firstEntry }, nodes) :=
  ⟨h, [], l.linked, rfl, rfl, by simp, fun _ _ => trivial⟩

/-- Line 113 looks at the node. -/
theorem Walking.look (h : Walking P (l, nodes)) (hid : l.deref = some id) (hQ : Q (l.mem id)) :
    Walking Q (l, nodes) := by
  obtain ⟨hagrees, pre, post, hlinked, hcursor, hzero, -⟩ := h
  refine ⟨hagrees, pre, post, hlinked, hcursor, hzero, fun id' hnode => ?_⟩
  obtain rfl : id = id' := by
    simpa using (NodeList.deref_eq_some.1 hid).1.symm.trans hnode
  exact hQ

/-- The node it stands on. -/
theorem Walking.at_node (h : Walking P (l, nodes)) (hnode : l.cursor = .node id) :
    ∃ pre post, l.linked = pre ++ id :: post ∧ (∀ i ∈ pre, (l.mem i).number = 0) ∧
      P (l.mem id) := by
  obtain ⟨-, pre, post, hlinked, hcursor, hzero, hP⟩ := h
  simp only at hlinked hcursor hzero hP
  rcases post with _ | ⟨id', post⟩
  · simp [hnode] at hcursor
  · obtain rfl : id = id' := by simpa [hnode] using hcursor
    exact ⟨pre, post, hlinked, hzero, hP id hnode⟩

/-- Line 111, the next entry, past a node that is empty. -/
theorem Walking.next (h : Walking (fun nd => nd.number = 0) (l, nodes)) {cursor : Cursor}
    (hnext : l.nextEntry l.cursor = some cursor) :
    Walking (fun _ => True) ({ l with cursor }, nodes) := by
  have hagrees := h.1
  cases hnode : l.cursor with
  | null => simp [hnode, NodeList.nextEntry] at hnext
  | head =>
    obtain rfl : l.firstEntry = cursor := by simpa [hnode, NodeList.nextEntry] using hnext
    exact hagrees.walking
  | node id =>
    obtain ⟨pre, post, hlinked, hzero, hid⟩ := h.at_node hnode
    rw [hnode] at hnext
    obtain rfl := NodeList.nextEntry_node hlinked hagrees.1 hnext
    refine ⟨hagrees, pre ++ [id], post, by simpa using hlinked, rfl, fun i hi => ?_,
      fun _ _ => trivial⟩
    rcases List.mem_append.1 hi with hi | hi
    · exact hzero i hi
    · rw [List.mem_singleton.1 hi]
      exact hid

/-- The end of the list : every node is empty, and the call takes nothing. -/
theorem Walking.clearFirst_head (h : Walking P (l, nodes)) (hhead : l.cursor = .head) :
    clearFirst nodes = (none, nodes) := by
  obtain ⟨⟨-, hnodes⟩, pre, post, hlinked, hcursor, hzero, -⟩ := h
  simp only at hnodes hlinked hcursor hzero
  rcases post with _ | ⟨id, post⟩
  · have hempty : ∀ nd ∈ nodes, nd.number = 0 := by
      intro nd hnd
      rw [← hnodes, NodeList.nodes, hlinked, List.append_nil] at hnd
      obtain ⟨id, hid, rfl⟩ := List.mem_map.1 hnd
      exact hzero id hid
    simpa [clearFirst] using Events.clearFirst_append hempty []
  · simp [hhead] at hcursor

/-- Lines 117 and 118 clear the node the call takes. -/
theorem Walking.clearFirst_node (h : Walking (fun nd => nd.number ≠ 0) (l, nodes))
    (hid : l.deref = some id) :
    clearFirst nodes =
      (some (l.mem id), NodeList.nodes { l with mem := Function.update l.mem id ⟨0, 0⟩ }) := by
  obtain ⟨hnodup, hnodes⟩ := h.1
  obtain ⟨pre, post, hlinked, hzero, hne⟩ := h.at_node (NodeList.deref_eq_some.1 hid).1
  simp only at hnodup hnodes
  have hempty : ∀ nd ∈ pre.map l.mem, nd.number = 0 := by
    intro nd hnd
    obtain ⟨i, hi, rfl⟩ := List.mem_map.1 hnd
    exact hzero i hi
  rw [hlinked, List.nodup_append, List.nodup_cons] at hnodup
  have hpre : id ∉ pre := fun hi => hnodup.2.2 id hi id (by simp) rfl
  rw [← hnodes]
  simp only [NodeList.nodes, hlinked, List.map_append, List.map_cons,
    NodeList.map_update hpre, NodeList.map_update hnodup.2.1.1, Function.update_self]
  rw [Events.clearFirst_append hempty]
  simp [clearFirst, hne]

/-! ## The whole module -/

theorem Events.timers_append (as bs : List EventAct) :
    timers (as ++ bs) = timers as + timers bs :=
  List.countP_append

namespace EventModule

variable {s t : EventModule} {a : ModuleAct} {n : ℕ} {evs : List EventAct} {e e' : Events}

/-- What each callback relies on. -/
def atomicView (s : EventModule) :
    EventCallback → Option (NodeList × List ListData → Prop)
  | .timer => s.myTimer.pc.bind (TimerPc.atomic s.currentTime s.currentNumber)
  | .irq => s.irqTimer.pc.bind IrqPc.atomic

/-- The module beside the whole callbacks `evs` on a list of `n` nodes, that lead to `e`. -/
structure Atomic (n : ℕ) (s : EventModule) (evs : List EventAct) (e : Events) : Prop where
  run : exec Events.step (Events.init n) evs = some e
  lock : Monitor.Inv Agrees s.listSpinlock s.atomicView (s.list, e.head.nodes)
  numbers : Numbers s.currentNumber s.currentTime e.head s.myTimer.pc
  count : Events.timers evs + TimerPc.ahead s.myTimer.pc = s.timerRuns

/-- One more whole callback. -/
theorem Atomic.effect (h : Atomic n s evs e) {ev : EventAct} (hstep : Events.step e ev = some e') :
    exec Events.step (Events.init n) (evs ++ [ev]) = some e' :=
  exec_append_eq_some.2 ⟨e, h.run, exec_cons_eq_some.2 ⟨e', hstep, exec_nil e'⟩⟩

/-- A step of `timer_callback` leaves the other's view. -/
theorem TimerMove.atomicView_irq (h : TimerMove s t) : t.atomicView .irq = s.atomicView .irq := by
  cases h <;> rfl

theorem IrqMove.atomicView_timer (h : IrqMove s t) :
    t.atomicView .timer = s.atomicView .timer := by
  cases h with
  | rearm hpc => by_cases htimes : s.irqTimes - 1 = 0 <;> simp [atomicView, htimes]
  | _ => rfl

/-- A step of `timer_callback` that keeps to the calls `evs`, or adds one. -/
theorem Atomic.timerStep (h : Atomic n s evs e) (hmove : TimerMove s t)
    {evs' : List EventAct} {e' : Events}
    (hrun : exec Events.step (Events.init n) evs' = some e')
    (hlock : Monitor.Step Agrees .timer s.listSpinlock (s.atomicView .timer)
      (s.list, e.head.nodes) t.listSpinlock (t.atomicView .timer) (t.list, e'.head.nodes))
    (hnumbers : Numbers t.currentNumber t.currentTime e'.head t.myTimer.pc)
    (hcount : Events.timers evs' + TimerPc.ahead t.myTimer.pc = s.timerRuns)
    (hruns : t.timerRuns = s.timerRuns) : Atomic n t evs' e' := by
  refine ⟨hrun, h.lock.step .timer hlock fun c hc => ?_, hnumbers, hruns ▸ hcount⟩
  cases c with
  | timer => exact absurd rfl hc
  | irq => exact hmove.atomicView_irq

theorem atomic_timerMove (h : Atomic n s evs e) (hmove : TimerMove s t) :
    ∃ evs' e', Atomic n t evs' e' := by
  have hnumbers := h.numbers
  have hcount := h.count
  cases hmove with
  | number now hpc =>
    simp only [hpc, Numbers, TimerPc.ahead] at hnumbers hcount
    refine ⟨evs, e, h.timerStep (.number now hpc) h.run ?_ ⟨by simp [hnumbers.1], now, rfl⟩
      hcount rfl⟩
    simp only [atomicView, hpc]
    exact .outside _ _
  | lock hpc hfree =>
    simp only [hpc, Numbers, TimerPc.ahead] at hnumbers hcount
    refine ⟨evs, e, h.timerStep (.lock hpc hfree) h.run ?_ hnumbers hcount rfl⟩
    simp only [atomicView, hpc, hfree]
    exact .acquire _ id
  | first hpc =>
    simp only [hpc, Numbers, TimerPc.ahead] at hnumbers hcount
    refine ⟨evs, e, h.timerStep (.first hpc) h.run ?_ hnumbers hcount rfl⟩
    simp only [atomicView, hpc]
    exact .inside _ _ _ fun hagrees => ⟨hagrees, rfl⟩
  | empty hpc hid hzero =>
    simp only [hpc, Numbers, TimerPc.ahead] at hnumbers hcount
    refine ⟨evs, e, h.timerStep (.empty hpc hid hzero) h.run ?_ hnumbers hcount rfl⟩
    simp only [atomicView, hpc]
    exact .inside _ _ _ fun hfirst => hfirst.1.filling hfirst.2 hid hzero
  | setNumber hpc hid =>
    simp only [hpc, Numbers, TimerPc.ahead] at hnumbers hcount
    refine ⟨evs, e, h.timerStep (.setNumber hpc hid) h.run ?_ hnumbers hcount rfl⟩
    simp only [atomicView, hpc]
    exact .inside _ _ _ fun hfill => hfill.store hid fun _ => rfl
  | setTime hpc hid =>
    simp only [hpc, Numbers, TimerPc.ahead] at hnumbers hcount
    refine ⟨evs, e, h.timerStep (.setTime hpc hid) h.run ?_ hnumbers hcount rfl⟩
    simp only [atomicView, hpc]
    exact .inside _ _ _ fun hfill => hfill.store hid fun hnumber => by rw [hnumber]; rfl
  | rotate hpc =>
    simp only [hpc, Numbers, TimerPc.ahead] at hnumbers hcount
    refine ⟨evs, e, h.timerStep (.rotate hpc) h.run ?_ hnumbers hcount rfl⟩
    simp only [atomicView, hpc]
    exact .inside _ _ _ Filling.rotateLeft
  | unlock hpc =>
    simp only [hpc, Numbers, TimerPc.ahead] at hnumbers hcount
    refine ⟨evs, e, h.timerStep (.unlock hpc) h.run ?_ hnumbers hcount rfl⟩
    simp only [atomicView, hpc]
    exact .release _ _ id
  | rearm hpc =>
    simp only [hpc, Numbers, TimerPc.ahead] at hnumbers hcount
    -- Armed again or not, the callback is over.
    by_cases htimes : s.timerTimes - 1 = 0 <;>
    · refine ⟨evs, e, h.timerStep (.rearm hpc) h.run ?_ ?_ ?_ rfl⟩
      · simp only [atomicView, hpc, htimes, ne_eq, not_true, not_false_iff, if_true, if_false]
        exact .outside _ _
      · simpa [htimes, Numbers] using hnumbers
      · simpa [htimes, TimerPc.ahead] using hcount
  | @overflow id hpc hid hne =>
    -- The call takes effect : it reports its number and leaves the nodes.
    simp only [hpc, Numbers, TimerPc.ahead] at hnumbers hcount
    obtain ⟨hnumber, now, htime⟩ := hnumbers
    obtain ⟨hagrees, hcursor⟩ := h.lock.ok (a := .timer) (by rw [atomicView, hpc]; rfl)
    have hcall :=
      hagrees.timerCallback hcursor hid hne e.head.currentNumber e.head.currentTime now
    have hstep : Events.step e (.timer now) = some { e with
        head := ⟨e.head.nodes, s.currentNumber, s.currentTime⟩
        overflowed := e.overflowed ++ [s.currentNumber] } := by
      simp only [Events.step, hcall, hnumber, htime]
      rfl
    refine ⟨_, _, h.timerStep (.overflow hpc hid hne) (h.effect hstep) ?_ ⟨rfl, rfl⟩ ?_ rfl⟩
    · simp only [atomicView, hpc]
      exact .inside _ _ _ fun hfirst => hfirst.1
    · rw [Events.timers_append]
      exact hcount
  | @print id hpc hid =>
    -- The call takes effect : its event is the last of the list.
    simp only [hpc, Numbers, TimerPc.ahead] at hnumbers hcount
    obtain ⟨hnumber, now, htime⟩ := hnumbers
    have hrot : Rotated s.currentTime s.currentNumber (s.list, e.head.nodes) :=
      h.lock.ok (a := .timer) (by rw [atomicView, hpc]; rfl)
    have hnodup := hrot.1
    rw [hnumber, htime] at hrot
    have hcall := hrot.timerCallback e.head.currentTime
    have hstep : Events.step e (.timer now) = some { e with
        head := ⟨s.list.nodes, s.currentNumber, s.currentTime⟩ } := by
      simp only [Events.step, hcall, hnumber, htime]
      simp
    refine ⟨_, _, h.timerStep (.print hpc hid) (h.effect hstep) ?_ ⟨rfl, rfl⟩ ?_ rfl⟩
    · simp only [atomicView, hpc]
      exact .inside _ _ _ fun _ => ⟨hnodup, rfl⟩
    · rw [Events.timers_append]
      exact hcount

theorem Atomic.irqStep (h : Atomic n s evs e) (hmove : IrqMove s t)
    {evs' : List EventAct} {e' : Events}
    (hrun : exec Events.step (Events.init n) evs' = some e')
    (hlock : Monitor.Step Agrees .irq s.listSpinlock (s.atomicView .irq)
      (s.list, e.head.nodes) t.listSpinlock (t.atomicView .irq) (t.list, e'.head.nodes))
    (hnumbers : Numbers s.currentNumber s.currentTime e'.head s.myTimer.pc)
    (hcount : Events.timers evs' = Events.timers evs) : Atomic n t evs' e' := by
  have htimers : t.currentNumber = s.currentNumber ∧ t.currentTime = s.currentTime ∧
      t.myTimer.pc = s.myTimer.pc ∧ t.timerRuns = s.timerRuns := by
    cases hmove with
    | rearm hpc => by_cases htimes : s.irqTimes - 1 = 0 <;> simp [htimes]
    | _ => exact ⟨rfl, rfl, rfl, rfl⟩
  obtain ⟨hnumber, htime, hpc, hruns⟩ := htimers
  refine ⟨hrun, h.lock.step .irq hlock fun c hc => ?_, ?_, ?_⟩
  · cases c with
    | timer => exact hmove.atomicView_timer
    | irq => exact absurd rfl hc
  · rwa [hnumber, htime, hpc]
  · rw [hcount, hpc, hruns]
    exact h.count

theorem atomic_irqMove (h : Atomic n s evs e) (hmove : IrqMove s t) :
    ∃ evs' e', Atomic n t evs' e' := by
  cases hmove with
  | lock hpc hfree =>
    refine ⟨evs, e, h.irqStep (.lock hpc hfree) h.run ?_ h.numbers rfl⟩
    simp only [atomicView, hpc, hfree]
    exact .acquire _ id
  | first hpc =>
    refine ⟨evs, e, h.irqStep (.first hpc) h.run ?_ h.numbers rfl⟩
    simp only [atomicView, hpc]
    exact .inside _ _ _ Agrees.walking
  | test hpc hhead =>
    refine ⟨evs, e, h.irqStep (.test hpc hhead) h.run ?_ h.numbers rfl⟩
    simp only [atomicView, hpc]
    exact .inside _ _ _ id
  | found hpc hid hne =>
    refine ⟨evs, e, h.irqStep (.found hpc hid hne) h.run ?_ h.numbers rfl⟩
    simp only [atomicView, hpc]
    exact .inside _ _ _ fun hwalk => hwalk.look hid hne
  | skip hpc hid hzero =>
    refine ⟨evs, e, h.irqStep (.skip hpc hid hzero) h.run ?_ h.numbers rfl⟩
    simp only [atomicView, hpc]
    exact .inside _ _ _ fun hwalk => hwalk.look hid hzero
  | take hpc hid =>
    refine ⟨evs, e, h.irqStep (.take hpc hid) h.run ?_ h.numbers rfl⟩
    simp only [atomicView, hpc]
    exact .inside _ _ _ id
  | next hpc hnext =>
    refine ⟨evs, e, h.irqStep (.next hpc hnext) h.run ?_ h.numbers rfl⟩
    simp only [atomicView, hpc]
    exact .inside _ _ _ fun hwalk => hwalk.next hnext
  | unlock hpc =>
    refine ⟨evs, e, h.irqStep (.unlock hpc) h.run ?_ h.numbers rfl⟩
    simp only [atomicView, hpc]
    exact .release _ _ id
  | rearm hpc =>
    refine ⟨evs, e, h.irqStep (.rearm hpc) h.run ?_ h.numbers rfl⟩
    simp only [atomicView, hpc]
    exact .outside _ _
  | last hpc hhead =>
    -- The call takes effect : it finds no event.
    have hwalk : Walking (fun _ => True) (s.list, e.head.nodes) :=
      h.lock.ok (a := .irq) (by rw [atomicView, hpc]; rfl)
    have hstep : Events.step e .irq = some e := by
      simp [Events.step, irqSimulationCallback, hwalk.clearFirst_head hhead]
    refine ⟨_, _, h.irqStep (.last hpc hhead) (h.effect hstep) ?_ h.numbers ?_⟩
    · simp only [atomicView, hpc]
      exact .inside _ _ _ And.left
    · rw [Events.timers_append]
      rfl
  | @clear id hpc hid =>
    -- The call takes effect : it takes the event of the node it clears.
    have hwalk : Walking (fun nd => nd.number ≠ 0) (s.list, e.head.nodes) :=
      h.lock.ok (a := .irq) (by rw [atomicView, hpc]; rfl)
    have hstep : Events.step e .irq = some { e with
        head := { e.head with
          nodes := NodeList.nodes
            { s.list with mem := Function.update s.list.mem id ⟨0, 0⟩ } }
        consumed := e.consumed ++ [(s.list.mem id).number] } := by
      simp [Events.step, irqSimulationCallback, hwalk.clearFirst_node hid]
    refine ⟨_, _, h.irqStep (.clear hpc hid) (h.effect hstep) ?_ h.numbers ?_⟩
    · simp only [atomicView, hpc]
      exact .inside _ _ _ fun hwalk => ⟨hwalk.1.1, rfl⟩
    · rw [Events.timers_append]
      rfl

/-! ## Every run -/

/-- `simple_wq_init` allocates, and the nodes are zeroed. -/
structure Loading (s : EventModule) : Prop where
  building : s.Building
  zeroed : ∀ id ∈ s.list.linked, s.list.mem id = ⟨0, 0⟩
  numbers : s.currentNumber = 0 ∧ s.currentTime = 0
  runs : s.timerRuns = 0

theorem loading_start : Loading start :=
  ⟨building_start, by simp [start], ⟨rfl, rfl⟩, rfl⟩

theorem Loading.alloc (h : s.Loading) {m : ℕ} (hpc : s.init = .alloc m) {ok : Bool}
    (hstep : s.initStep ok = some t) : t.Loading := by
  have hbuild := h.building.alloc hpc hstep
  obtain ⟨-, hzeroed, hnumbers, hruns⟩ := h
  simp only [initStep, hpc] at hstep
  rcases m with _ | m
  · cases hstep
    exact ⟨hbuild, hzeroed, hnumbers, hruns⟩
  · cases ok <;> cases hstep
    · exact ⟨hbuild, hzeroed, hnumbers, hruns⟩
    · refine ⟨hbuild, fun id hid => ?_, hnumbers, hruns⟩
      by_cases heq : id = m
      · simp [heq, addNode]
      · have hmem := (List.mem_cons.1 hid).resolve_left heq
        simpa [addNode, heq] using hzeroed id hmem

/-- No callback has run. -/
theorem Loading.atomic (h : s.Loading) :
    Atomic s.list.linked.length s [] (Events.init s.list.linked.length) := by
  obtain ⟨hbuild, hzeroed, hnumbers, hruns⟩ := h
  obtain ⟨htimer, hirq⟩ := hbuild.idle
  refine ⟨rfl, ⟨fun c => ?_, fun _ => ⟨hbuild.nodup, ?_⟩, fun c P hP => ?_⟩, ?_, ?_⟩
  · cases c <;> simp [atomicView, htimer.2, hirq.2, hbuild.free]
  · exact List.eq_replicate_iff.2 ⟨by simp [NodeList.nodes], fun nd hnd => by
      obtain ⟨id, hid, rfl⟩ := List.mem_map.1 hnd
      exact hzeroed id hid⟩
  · cases c <;> simp [atomicView, htimer.2, hirq.2] at hP
  · simpa [htimer.2, Numbers, Events.init] using hnumbers
  · simp [htimer.2, TimerPc.ahead, Events.timers, hruns]

/-- Before `simple_wq_exit` walks the list. -/
def Entire (s : EventModule) : Prop :=
  s.exit = .loaded ∨ s.exit = .first

/-- The invariant of every run. -/
def AtomicInv (s : EventModule) : Prop :=
  s.Entire → s.Loading ∨ (s.init = .irq ∨ s.init = .done) ∧ ∃ n evs e, Atomic n s evs e

/-- The frame of `simple_wq_init`. -/
theorem initStep_frame {ok : Bool} (h : s.initStep ok = some t) : t.exit = s.exit := by
  unfold initStep at h
  split at h
  case h_2 => cases ok <;> cases h <;> rfl
  case h_5 => cases h
  all_goals
    cases h
    rfl

/-- `simple_wq_exit` does not come back to before its walk. -/
theorem entire_of_step (hstep : s.step a = some t) (ht : t.Entire) : s.Entire := by
  cases a with
  | init ok =>
    have hexit : t.exit = s.exit := initStep_frame hstep
    rwa [Entire, hexit] at ht
  | fireTimer =>
    obtain ⟨d, -, rfl⟩ := Option.map_eq_some_iff.1 hstep
    exact ht
  | fireIrq =>
    obtain ⟨d, -, rfl⟩ := Option.map_eq_some_iff.1 hstep
    exact ht
  | timer now => rwa [Entire, (timerStep_frame hstep).2.1] at ht
  | irq => rwa [Entire, (irqStep_frame hstep).2.1] at ht
  | exit =>
    by_contra hnot
    obtain ⟨hloaded, -⟩ := not_or.1 hnot
    obtain ⟨hne, hne'⟩ := exitStep_begun hstep hloaded
    exact ht.elim hne hne'

theorem Loading.step (h : s.Loading) (hstep : s.step a = some t) :
    t.Loading ∨ (t.init = .irq ∨ t.init = .done) ∧ ∃ n evs e, Atomic n t evs e := by
  have hatomic := h.atomic
  obtain ⟨htimer, hirq⟩ := h.building.idle
  cases a with
  | init ok =>
    rcases h.building.init with ⟨m, hpc, -⟩ | hpc
    · exact Or.inl (h.alloc hpc hstep)
    · simp only [EventModule.step, initStep, hpc] at hstep
      cases hstep
      exact Or.inr ⟨Or.inl rfl, _, _, _, hatomic.run, hatomic.lock, hatomic.numbers,
        hatomic.count⟩
  | fireTimer => simp [EventModule.step, htimer.start_eq_none] at hstep
  | fireIrq => simp [EventModule.step, hirq.start_eq_none] at hstep
  | timer now => simp [EventModule.step, timerStep, htimer.2] at hstep
  | irq => simp [EventModule.step, irqStep, hirq.2] at hstep
  | exit =>
    simp only [EventModule.step, exitStep, h.building.exit] at hstep
    split_ifs at hstep with hdone
    rcases h.building.init with ⟨m, hpc, -⟩ | hpc <;> simp [hpc] at hdone

theorem Atomic.step (h : Atomic n s evs e) (hinit : s.init = .irq ∨ s.init = .done)
    (ht : t.Entire) (hstep : s.step a = some t) :
    (t.init = .irq ∨ t.init = .done) ∧ ∃ n evs e, Atomic n t evs e := by
  cases a with
  | init ok =>
    rcases hinit with hpc | hpc <;> simp only [EventModule.step, initStep, hpc] at hstep <;>
      cases hstep
    exact ⟨Or.inr rfl, _, _, _, h.run, h.lock, h.numbers, h.count⟩
  | fireTimer =>
    obtain ⟨d, hd, rfl⟩ := Option.map_eq_some_iff.1 hstep
    obtain ⟨-, hpc, rfl⟩ := Deferred.start_eq_some.1 hd
    have hnumbers := h.numbers
    have hcount := h.count
    simp only [hpc, Numbers, TimerPc.ahead] at hnumbers hcount
    refine ⟨hinit, n, evs, e, h.run, h.lock.step .timer ?_ fun c hc => ?_, hnumbers, ?_⟩
    · simpa [atomicView, hpc, TimerPc.atomic] using
        Monitor.Step.outside s.listSpinlock (s.list, e.head.nodes)
    · cases c with
      | timer => exact absurd rfl hc
      | irq => rfl
    · simp only [TimerPc.ahead, ← hcount, Nat.add_zero]
  | fireIrq =>
    obtain ⟨d, hd, rfl⟩ := Option.map_eq_some_iff.1 hstep
    obtain ⟨-, hpc, rfl⟩ := Deferred.start_eq_some.1 hd
    refine ⟨hinit, n, evs, e, h.run, h.lock.step .irq ?_ fun c hc => ?_, h.numbers, h.count⟩
    · simpa [atomicView, hpc, IrqPc.atomic] using
        Monitor.Step.outside s.listSpinlock (s.list, e.head.nodes)
    · cases c with
      | timer => rfl
      | irq => exact absurd rfl hc
  | timer now =>
    exact ⟨(timerStep_frame hstep).1 ▸ hinit, n, atomic_timerMove h (timerStep_move hstep)⟩
  | irq => exact ⟨(irqStep_frame hstep).1 ▸ hinit, n, atomic_irqMove h (irqStep_move hstep)⟩
  | exit =>
    cases exitStep_move hstep with
    | enter => exact ⟨hinit, n, evs, e, h.run, h.lock, h.numbers, h.count⟩
    | first => exact absurd ht (by simp [Entire])
    | walk _ hpc => exact (ht.elim hpc.1 hpc.2).elim

theorem atomicInv_step (h : s.AtomicInv) (hstep : s.step a = some t) : t.AtomicInv := by
  intro ht
  rcases h (entire_of_step hstep ht) with hload | ⟨hinit, n, evs, e, hatomic⟩
  · exact hload.step hstep
  · exact Or.inr (hatomic.step hinit ht hstep)

theorem atomicInv_of_exec {as : List ModuleAct} (h : exec step start as = some s) :
    s.AtomicInv :=
  exec_invariant_of_step (fun _ _ _ hI hstep => atomicInv_step hI hstep)
    (fun _ => Or.inl loading_start) h

/-- In every run, until `simple_wq_exit` walks the list, whenever the lock is free the
list is that of some whole callbacks, one of `timer_callback` for each run of it that
has taken effect. -/
theorem atomic_callbacks {as : List ModuleAct} (h : exec step start as = some s)
    (hexit : s.Entire) (hfree : s.listSpinlock = none) :
    ∃ n evs e, exec Events.step (Events.init n) evs = some e ∧ e.head.nodes = s.list.nodes ∧
      Events.timers evs + TimerPc.ahead s.myTimer.pc = s.timerRuns ∧
      Numbers s.currentNumber s.currentTime e.head s.myTimer.pc := by
  have hatomic : ∃ n evs e, Atomic n s evs e := by
    rcases atomicInv_of_exec h hexit with hload | ⟨-, hatomic⟩
    · exact ⟨_, _, _, hload.atomic⟩
    · exact hatomic
  obtain ⟨n, evs, e, hatomic⟩ := hatomic
  exact ⟨n, evs, e, hatomic.run, (hatomic.lock.free hfree).2.symm, hatomic.count, hatomic.numbers⟩

/-- A list without nodes stays so. -/
theorem nodes_of_init_zero (h : exec Events.step (Events.init 0) evs = some e) :
    e.head.nodes = [] := by
  refine exec_invariant_of_step (I := fun e => e.head.nodes = []) ?_ rfl h
  intro e ev e' hnodes hstep
  cases ev with
  | timer now => simp [Events.step, timerCallback, hnodes] at hstep
  | irq =>
    simp only [Events.step, irqSimulationCallback, hnodes, clearFirst] at hstep
    cases hstep
    rfl

/-- So until `my_timer` has run `2^31` times, the list is in the shape of `EventInv` : empty
nodes, then filled ones, their numbers increasing. -/
theorem shape_of_free {as : List ModuleAct} (h : exec step start as = some s)
    (hexit : s.Entire) (hfree : s.listSpinlock = none) (hne : s.list.linked ≠ [])
    (hruns : s.timerRuns < 2 ^ 31) :
    ∃ empty filled, Events.Shape s.list.nodes empty filled ∧
      (filled.map ListData.number).Pairwise (· < ·) := by
  obtain ⟨n, evs, e, hrun, hnodes, hcount, -⟩ := atomic_callbacks h hexit hfree
  have hn : 1 ≤ n := by
    by_contra hzero
    obtain rfl : n = 0 := by omega
    rw [nodes_of_init_zero hrun, NodeList.nodes] at hnodes
    exact hne (List.map_eq_nil_iff.1 hnodes.symm)
  have hlt : (0 : ℤ) + Events.timers evs < 2 ^ 31 := by omega
  obtain ⟨e', he', hinv, -⟩ := (Events.eventInv_init n).run hn evs hlt
  obtain rfl := Option.some.inj (hrun.symm.trans he')
  obtain ⟨empty, filled, hshape⟩ := hinv.shape
  have hsorted := (List.pairwise_append.1 hinv.sorted).2.1
  rw [Events.stored_eq hshape] at hsorted
  exact ⟨empty, filled, hnodes ▸ hshape, hsorted⟩

end EventModule

end ProCamp
