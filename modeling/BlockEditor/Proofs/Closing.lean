import BlockEditor.Proofs.Evaluation
import BlockEditor.Proofs.Events.History
import BlockEditor.Proofs.Stages

/-!
# Every gesture is closed

A run goes from gesture to gesture. Whatever is done to the blocks while one is under way, and
whether its end is refused or not, the host gets its canvas back, the group of the gesture is
closed, and what was recorded in between belongs to that group.
-/

namespace BlockEditor

variable {α : Type}

namespace Action

/-- The action ends the gesture that is under way. -/
def ends : Action α → Bool
  | .dropAt _ | .cancelDrag => true
  | _ => false

/-- The action sets the group of the events that follow. -/
def setsGroup : Action α → Bool
  | .setGroup _ => true
  | _ => false

def picksUp : Action α → Bool
  | .pickUp _ _ => true
  | _ => false

theorem exists_of_picksUp {a : Action α} (h : a.picksUp) : ∃ block heal, a = .pickUp block heal := by
  cases a with
  | pickUp block heal => exact ⟨block, heal, rfl⟩
  | _ => cases h

end Action

/-! ### What is recorded in one group -/

namespace EventLog

variable {start log : EventLog α}

/-- The events `es` were recorded in the group `g` since the start. The log may have let go of its
oldest ones in the meantime. -/
def Grows (start log : EventLog α) (g : Option GroupId) (es : List (Event α)) : Prop :=
  ∃ k ≤ start.events.toList.length + es.length, log.dropped = start.dropped + k ∧
    log.events.toList = (start.events.toList ++ es.map (Recorded.mk g)).drop k

/-- What was recorded since the start belongs to one group. -/
def InOneGroup (start log : EventLog α) : Prop :=
  ∃ g es, Grows start log (some g) es

theorem Grows.fire {g : Option GroupId} {es : List (Event α)} (h : Grows start log g es)
    (hroom : 0 < log.capacity) (hgroup : log.group = g) (e : Event α) :
    Grows start (log.fire e) g (es ++ [e]) := by
  obtain ⟨k, hk, hdropped, hes⟩ := h
  have hlength : (start.events.toList ++ es.map (Recorded.mk g)).length =
      start.events.toList.length + es.length := by simp
  have hsize : log.size = start.events.toList.length + es.length - k := by
    rw [← hlength, ← List.length_drop, ← hes, size, Queue.size_eq_length]
  have hnext : ∀ j ≤ start.events.toList.length + es.length,
      (start.events.toList ++ es.map (Recorded.mk g)).drop j ++ [⟨log.group, e⟩] =
        (start.events.toList ++ (es ++ [e]).map (Recorded.mk g)).drop j := fun j hj => by
    rw [hgroup, ← List.drop_append_of_le_length (hj.trans_eq hlength.symm), List.map_append,
      List.append_assoc, List.map_singleton]
  unfold EventLog.fire
  split
  · -- a full log holds an event, and lets go of it
    refine ⟨k + 1, by simp; omega, by rw [hdropped]; rfl, ?_⟩
    rw [Queue.toList_push, Queue.toList_pop, hes, List.drop_drop, hnext (k + 1) (by omega)]
  · refine ⟨k, by simp; omega, hdropped, ?_⟩
    rw [Queue.toList_push, hes, hnext k hk]

/-- The group that was opened at the start is still open, and all events since belong to it. -/
structure Follows (start log : EventLog α) : Prop where
  room : 0 < log.capacity
  group : log.group = some ⟨start.opened⟩
  grows : ∃ es, Grows start log (some ⟨start.opened⟩) es

theorem follows_openGroup (hroom : 0 < start.capacity) : Follows start start.openGroup where
  room := hroom
  group := rfl
  grows := ⟨[], 0, Nat.zero_le _, rfl, by simp [openGroup]⟩

theorem Follows.fire (h : Follows start log) (e : Event α) : Follows start (log.fire e) where
  room := (capacity_apply log (.fire e)).symm ▸ h.room
  group := by
    rw [← h.group]
    unfold EventLog.fire
    split <;> rfl
  grows := by
    obtain ⟨es, hes⟩ := h.grows
    exact ⟨_, hes.fire h.room h.group e⟩

theorem Follows.inOneGroup (h : Follows start log) : start.InOneGroup log.closeGroup :=
  ⟨⟨start.opened⟩, h.grows⟩

end EventLog

open Act EventLog HostRequest

variable [Scalar α]

namespace Act

variable {before : List (HostRequest α)} {G : EventLog α → Prop} {phase : DragPhase}
  {R : List (HostRequest α) → Prop} {x : BlockId}

/-- While a block is held, no other one is picked up. -/
theorem pickUp_held (block : BlockId) (heal : Bool) :
    Keeps (Stage before G (some x) phase R) (pickUp block heal) := by
  refine Tells.of_result (pickUp_keeps (X := ∅) Editor.stable_true block heal) ?_
  rintro ⟨ws, session, requests, now⟩ he
  cases session with
  | none => cases he.held
  | some s => exact he

/-- While no block is held, there is nothing to end. -/
theorem dropAt_idle (location : Point α) :
    Keeps (Stage before G none phase R) (dropAt location) := by
  refine Tells.of_result (dropAt_keeps (X := ∅) Editor.stable_true location) ?_
  rintro ⟨ws, session, requests, now⟩ he
  cases session with
  | none => exact he
  | some s => cases he.held

theorem cancelDrag_idle : Keeps (Stage before G none phase R) (cancelDrag (α := α)) := by
  refine Tells.of_result (cancelDrag_keeps (X := ∅) Editor.stable_true) ?_
  rintro ⟨ws, session, requests, now⟩ he
  cases session with
  | none => exact he
  | some s => cases he.held

end Act

namespace Editor

section Steps

variable {before : List (HostRequest α)} {G : EventLog α → Prop} {held : Option BlockId}
  {phase : DragPhase} {x : BlockId} {a : Action α}

/-- An action that neither begins nor ends a gesture leaves it where it is. -/
theorem perform_stage (hG : Unbroken G) (hends : a.ends = false) (hpicks : a.picksUp = false)
    (hset : a.setsGroup → ∀ log on, G log → G (log.setGroup on)) :
    Keeps (Stage before G held phase anything) (perform a) := by
  have hJ := stable_true (α := α)
  have calm := hJ.calm (X := ∅)
  cases a with
  | newBlock t =>
    exact discard_leads (edit_stage hG (Edit.newBlock_echoes t) (Edit.newBlock_safe (X := ∅) hJ t))
  | newPlaceholder t =>
    exact discard_leads (edit_stage hG (Edit.newPlaceholder_echoes t)
      (Edit.newPlaceholder_keeps (X := ∅) hJ t))
  | dispose b => exact edit_stage hG (Edit.dispose_echoes b) (Edit.dispose_keeps (X := ∅) hJ b)
  | setField b name value =>
    exact edit_stage hG (Edit.setField_echoes b name value)
      (Edit.setField_keeps (J := fun _ _ => True) (X := ∅) fun _ _ _ _ => trivial)
  | setPlaceholder b on =>
    exact edit_stage hG (Edit.updateBlock_echoes b _) (Edit.setPlaceholder_keeps (X := ∅) hJ b on)
  | setMovable b on =>
    exact edit_stage hG (Edit.updateBlock_echoes b _) (Edit.setMovable_keeps (X := ∅) hJ b on)
  | setInFlyout b on =>
    exact edit_stage hG (Edit.updateBlock_echoes b _) (Edit.setInFlyout_keeps (X := ∅) hJ b on)
  | setCopyOnDrag b value =>
    exact edit_stage hG (Edit.updateBlock_echoes b _) (Edit.setCopyOnDrag_keeps (X := ∅) hJ b value)
  | setTemplate c t =>
    exact discard_leads (edit_stage hG (Edit.setTemplate_echoes c t)
      (Edit.setTemplate_keeps (X := ∅) hJ c t))
  | connect c d => exact edit_stage hG (Edit.connect_echoes c d) (Edit.connect_keeps (X := ∅) hJ c d)
  | disconnect c =>
    exact edit_stage hG (Edit.disconnect_echoes c) (Edit.disconnect_safe (X := ∅) hJ c)
  | pullOut b heal =>
    exact edit_stage hG (Edit.pullOut_echoes b heal) (Edit.pullOut_keeps (X := ∅) hJ b heal)
  | respawn c =>
    exact discard_leads (edit_stage hG (Edit.respawn_echoes c) (Edit.respawn_safe (X := ∅) hJ c))
  | restore s =>
    exact discard_leads (edit_stage hG (Edit.restore_echoes s) (Edit.restore_keeps (X := ∅) hJ s))
  | moveTo b p reason =>
    exact edit_stage hG (Edit.moveTo_echoes b p reason) (Edit.moveTo_keeps calm b p reason)
  | moveBy b p reason =>
    exact edit_stage hG (Edit.moveBy_echoes b p reason) (Edit.moveBy_keeps calm b p reason)
  | moveToGrid b =>
    exact discard_leads (edit_stage hG (Edit.moveToGrid_echoes b) (Edit.moveToGrid_keeps calm b))
  | keepInView b =>
    exact discard_leads (edit_stage hG (Edit.keepInView_echoes b) (Edit.keepInView_keeps calm b))
  | setViewport v =>
    exact edit_stage hG (Edit.setViewport_echoes v) (Edit.setViewport_keeps (X := ∅) hJ v)
  | setUnits b n => exact edit_stage hG (Edit.setUnits_echoes b n) (Edit.setUnits_safe (X := ∅) hJ b n)
  | press b c => exact edit_stage hG (Edit.press_echoes b c) (Edit.press_keeps (X := ∅) hJ b c)
  | loadShape b shape =>
    exact discard_leads (edit_stage hG (Edit.loadShape_echoes b shape)
      (Edit.loadShape_keeps (X := ∅) hJ b shape))
  | refreshControls b =>
    exact edit_stage hG (Edit.refreshControls_echoes b) (Edit.refreshControls_safe (X := ∅) hJ b)
  | pickUp b heal => cases hpicks
  | dragTo p => exact discard_leads (dragTo_stage p)
  | dropAt p => cases hends
  | cancelDrag => cases hends
  | setGroup on =>
    exact Leads.modify (fun _ he => he) fun e he =>
      ⟨he.held, he.phase, he.requests, hset rfl _ on he.log⟩
  | updateTasks change => exact updateTasks_stage hG change
  | runAfterLayout =>
    exact discard_leads (runAfterLayout_rounds
      (fun _ => ⟨request_anything _, request_anything _⟩) (updateTasks_stage hG))
  | runNextTurn =>
    exact discard_leads (runNextTurn_rounds
      (fun _ => ⟨request_anything _, request_anything _⟩) (updateTasks_stage hG))

theorem perform_idle (hends : a.ends) : Keeps (Stage before G none phase anything) (perform a) := by
  cases a with
  | dropAt p => exact discard_leads (dropAt_idle p)
  | cancelDrag => exact cancelDrag_idle
  | _ => cases hends

theorem perform_ends (hG : Unbroken G) (hends : a.ends) :
    Leads (Stage before G (some x) phase anything) (perform a)
      (fun _ => Stage before (Shut G) none .idle (Released x))
      (Stage before (Shut G) none .idle (Released x)) := by
  cases a with
  | dropAt p =>
    exact Leads.bind (dropAt_stage hG p) fun _ => Leads.pure fun _ h => h
  | cancelDrag => exact cancelDrag_stage hG
  | _ => cases hends

end Steps

/-! ### Every run -/

/-- A gesture that began in the editor `start` is over. -/
structure Closed (start : Editor α) (x : BlockId) (t : Editor α) : Prop where
  phase : t.phase = .idle
  session : t.session = none
  group : t.workspace.events.group = none
  released : ∃ since, t.requests = start.requests ++ since ∧ Released x since

/-- The gesture that began in the editor `start` has a group of its own. -/
def OwnGroup (start : Editor α) (between : List (Action α)) : Prop :=
  start.workspace.events.group = none ∧ ∀ a ∈ between, a.setsGroup = false

/-- What is recorded between `start` and `t` belongs to the group of the gesture, if it has one. -/
def RecordedTogether (start : Editor α) (between : List (Action α)) (t : Editor α) : Prop :=
  OwnGroup start between → start.workspace.events.InOneGroup t.workspace.events

/-- The gesture that `pickUp` began after the actions `before` was not ended by the actions
`between`. -/
structure Underway (e : Editor α) (before : List (Action α)) (block : BlockId) (heal : Bool)
    (between : List (Action α)) : Prop where
  idle : (e.run before).session = none
  accepted : (e.run before).accepts (.pickUp block heal)
  goesOn : ∀ a ∈ between, a.ends = false

/-- How the gestures of a run begin and end. -/
structure Bracketed (e : Editor α) (actions : List (Action α)) : Prop where
  phase : (e.run actions).phase = if (e.run actions).session.isSome then .dragging else .idle
  ended : ∀ a s, a.ends → (e.run actions).session = some s → Lasts ((e.run actions).after a) →
    ∃ before block heal between, actions = before ++ .pickUp block heal :: between ∧
      Underway e before block heal between ∧
      Closed (e.run before) s.block ((e.run actions).after a) ∧
      RecordedTogether (e.run before) between ((e.run actions).after a)
  refused : ∀ block heal refusal t, (e.run actions).session = none →
    pickUp block heal (e.run actions) = .error refusal t → Lasts t →
      (t = e.run actions ∧ ∀ target, ¬Draggable (e.run actions).workspace block target) ∨
      ∃ target, Draggable (e.run actions).workspace block target ∧
        Closed (e.run actions) target t ∧ RecordedTogether (e.run actions) [] t

section Runs

variable {e start t : Editor α} {actions before between : List (Action α)} {a : Action α}
  {x : BlockId} {config : EditorConfig α} {registry : Registry}

/-- What became of the log in a gesture so far. -/
def Tallies (start : Editor α) (between : List (Action α)) (log : EventLog α) : Prop :=
  OwnGroup start between → start.workspace.events.Follows log

omit [Scalar α] in
theorem tallies_unbroken : Unbroken (Tallies start between) :=
  fun _ e h hown => (h hown).fire e

omit [Scalar α] in
theorem tallies_opens (hroom : 0 < start.workspace.events.capacity) :
    OpensTo (Tallies start []) start.workspace.events := by
  intro hown
  rw [hown.1]
  exact follows_openGroup hroom

omit [Scalar α] in
theorem Tallies.concat {log : EventLog α} (h : Tallies start between log) :
    Tallies start (between ++ [a]) log :=
  fun hown => h ⟨hown.1, fun b hb => hown.2 b (List.mem_append_left _ hb)⟩

omit [Scalar α] in
theorem Tallies.setGroup {log : EventLog α} (hset : a.setsGroup) (on : Bool) :
    Tallies start (between ++ [a]) (log.setGroup on) := by
  intro hown
  have := hown.2 a (List.mem_append_right _ (List.mem_singleton.mpr rfl))
  rw [hset] at this
  cases this

omit [Scalar α] in
theorem closed_of_stage (h : Stage start.requests (Shut (Tallies start between)) none .idle
    (Released x) t) : Closed start x t ∧ RecordedTogether start between t := by
  obtain ⟨log, htallies, hlog⟩ := h.log
  refine ⟨⟨h.phase, by simpa using h.held, by rw [hlog]; rfl, h.requests⟩, fun hown => ?_⟩
  rw [hlog]
  exact (htallies hown).inOneGroup

/-- After some actions the editor is at rest, or a gesture is under way. -/
def Placed (e : Editor α) (actions : List (Action α)) : Prop :=
  Stage [] (fun _ => True) none .idle anything (e.run actions) ∨
    ∃ before block heal between x, actions = before ++ .pickUp block heal :: between ∧
      Underway e before block heal between ∧
      Stage (e.run before).requests (Tallies (e.run before) between) (some x) .dragging anything
        (e.run actions)

/-- A run does not change how many events are kept. -/
theorem capacity_run (e : Editor α) (actions : List (Action α)) :
    (e.run actions).workspace.events.capacity = e.workspace.events.capacity := by
  induction actions generalizing e with
  | nil => rfl
  | cons a rest ih =>
    obtain ⟨script, hs, -⟩ := after_echoes e a
    have hcapacity : (e.after a).workspace.events.capacity = e.workspace.events.capacity :=
      (congrArg EventLog.capacity hs).trans (capacity_replay _ script)
    exact (ih (e.after a)).trans hcapacity

theorem after_pickUp {block : BlockId} {heal : Bool} (h : pickUp block heal e = .ok x t) :
    e.after (.pickUp block heal) = t ∧ e.accepts (.pickUp block heal) := by
  have hm : perform (.pickUp block heal) e = .ok () t := bind_eq h
  simp [after, accepts, hm]

theorem after_pickUp_refused {block : BlockId} {heal : Bool} {refusal : EditError α}
    (h : pickUp block heal e = .error refusal t) : e.after (.pickUp block heal) = t := by
  have hm : perform (.pickUp block heal) e = .error refusal t := by
    change (pickUp block heal >>= fun _ => pure ()) e = _
    simp [bind, EStateM.bind, h]
  simp [after, hm]

theorem Placed.concat (h : Placed e actions) (hforest : (e.run actions).workspace.Forest)
    (hroom : 0 < (e.run actions).workspace.events.capacity)
    (hlast : Lasts ((e.run actions).after a)) : Placed e (actions ++ [a]) := by
  have hrun : e.run (actions ++ [a]) = (e.run actions).after a := run_append e actions [a]
  have rests : ∀ {bs : List (HostRequest α)} {G R}, Stage bs G none .idle R ((e.run actions).after a) →
      Placed e (actions ++ [a]) := fun h =>
    Or.inl (hrun ▸ ⟨h.held, h.phase, ⟨_, (List.nil_append _).symm, trivial⟩, trivial⟩)
  have leads : ∀ {P Q : Editor α → Prop}, P (e.run actions) →
      Leads P (perform a) (fun _ => Q) Q → Q ((e.run actions).after a) := fun hp hl =>
    after_of_leads (hl.pre fun _ ht => ht ▸ hp) hlast
  have hset : ∀ {G : EventLog α → Prop}, (∀ (log : EventLog α) on, a.setsGroup → G (log.setGroup on)) →
      a.setsGroup → ∀ log on, G log → G (log.setGroup on) := fun h hs log on _ => h log on hs
  obtain hidle | ⟨before, block, heal, between, x, rfl, hunder, hstage⟩ := h
  · by_cases hends : a.ends = true
    · exact rests (leads hidle (perform_idle hends))
    by_cases hpicks : a.picksUp = true
    · obtain ⟨block, heal, rfl⟩ := Action.exists_of_picksUp hpicks
      have hnone : (e.run actions).session = none := by simpa using hidle.held
      have hstart := pickUp_stage tallies_unbroken hforest hnone (tallies_opens hroom) block heal
      cases hm : pickUp block heal (e.run actions) with
      | ok x t =>
        obtain ⟨hafter, haccept⟩ := after_pickUp hm
        refine Or.inr ⟨actions, block, heal, [], x, rfl, ⟨hnone, haccept, by simp⟩, ?_⟩
        rw [hrun, hafter]
        exact hstart.ok hm (hafter ▸ hlast) rfl
      | error refusal t =>
        have hafter := after_pickUp_refused hm
        rw [hafter] at rests hlast
        obtain ⟨rfl, -⟩ | ⟨target, -, hover⟩ := hstart.error hm hlast rfl
        · exact rests hidle
        · exact rests (hidle.phase ▸ hover)
    · exact rests (leads hidle (perform_stage (fun _ _ _ => trivial) (by simpa using hends)
        (by simpa using hpicks) (hset fun _ _ _ => trivial)))
  · by_cases hends : a.ends = true
    · exact rests (leads hstage (perform_ends tallies_unbroken hends))
    have hon : Stage (e.run before).requests (Tallies (e.run before) (between ++ [a])) (some x)
        .dragging anything (e.run (before ++ .pickUp block heal :: between)) :=
      ⟨hstage.held, hstage.phase, hstage.requests, hstage.log.concat⟩
    refine Or.inr ⟨before, block, heal, between ++ [a], x, by simp,
      ⟨hunder.idle, hunder.accepted, ?_⟩, hrun ▸ ?_⟩
    · intro b hb
      obtain hb | hb := List.mem_append.mp hb
      · exact hunder.goesOn b hb
      · obtain rfl := List.mem_singleton.mp hb
        simpa using hends
    by_cases hpicks : a.picksUp = true
    · obtain ⟨block', heal', rfl⟩ := Action.exists_of_picksUp hpicks
      exact leads hon (discard_leads (pickUp_held block' heal'))
    · exact leads hon (perform_stage tallies_unbroken (by simpa using hends) (by simpa using hpicks)
        (hset fun _ on hs => Tallies.setGroup hs on))

theorem run_room (hstart : create config registry = .ok e) :
    0 < (e.run actions).workspace.events.capacity := by
  rw [capacity_run, (create_eq_ok hstart).2]
  exact Nat.lt_of_lt_of_le Nat.one_pos (Nat.le_max_right _ _)

/-- Wherever a run is, it is at rest or in the midst of a gesture. -/
theorem run_placed (hone : registry.OnePlug) (hstart : create config registry = .ok e)
    (hlast : Lasts (e.run actions)) (hacyclic : e.StaysAcyclic actions) : Placed e actions := by
  induction actions using List.reverseRecOn with
  | nil =>
    obtain ⟨-, rfl⟩ := create_eq_ok hstart
    exact Or.inl ⟨rfl, rfl, ⟨[], rfl, trivial⟩, trivial⟩
  | append_singleton l a ih =>
    have hrun : e.run (l ++ [a]) = (e.run l).after a := run_append e l [a]
    rw [hrun] at hlast
    have hbefore := lasts_of_after hlast
    refine (ih hbefore fun l' hl => hacyclic l' (hl.trans (List.prefix_append _ _))).concat
      ⟨run_wired hone hstart hbefore, hacyclic l (List.prefix_append _ _)⟩ (run_room hstart) hlast

/-- Every gesture of a run is closed, whatever happens in it. -/
theorem run_bracketed (hone : registry.OnePlug) (hstart : create config registry = .ok e)
    (hlast : Lasts (e.run actions)) (hacyclic : e.StaysAcyclic actions) :
    Bracketed e actions := by
  have hplaced := run_placed hone hstart hlast hacyclic
  have hphase : (e.run actions).phase =
      if (e.run actions).session.isSome then .dragging else .idle := by
    obtain hidle | ⟨_, _, _, _, x, -, -, hstage⟩ := hplaced
    · have hnone : (e.run actions).session = none := by simpa using hidle.held
      rw [hnone]
      exact hidle.phase
    · obtain ⟨s, hs, -⟩ := Option.map_eq_some_iff.mp hstage.held
      rw [hs]
      exact hstage.phase
  refine ⟨hphase, ?ended, ?refused⟩
  case ended =>
    intro a s hends hs hafter
    obtain hidle | ⟨before, block, heal, between, x, hactions, hunder, hstage⟩ := hplaced
    · have hnone : (e.run actions).session = none := by simpa using hidle.held
      rw [hnone] at hs
      cases hs
    · obtain rfl : s.block = x := by simpa [hs] using hstage.held
      have hover := after_of_leads
        ((perform_ends tallies_unbroken hends).pre fun _ ht => ht ▸ hstage) hafter
      exact ⟨before, block, heal, between, hactions, hunder, closed_of_stage hover⟩
  case refused =>
    intro block heal refusal t hnone hm ht
    have hidle : (e.run actions).phase = .idle := by
      rw [hphase, hnone]
      rfl
    have hforest : (e.run actions).workspace.Forest :=
      ⟨run_wired hone hstart hlast, hacyclic actions (List.prefix_refl _)⟩
    obtain hnothing | ⟨target, htarget, hover⟩ := (pickUp_stage tallies_unbroken hforest hnone
      (tallies_opens (run_room hstart)) block heal).error hm ht rfl
    · exact Or.inl hnothing
    · exact Or.inr ⟨target, htarget, closed_of_stage (hidle ▸ hover)⟩

/-- The block that is held is disposed, and the drop is refused. -/
theorem run_bracketed_disposed : Bracketed (fresh (.standard : EditorConfig Int) Palette.registry)
      [.newBlock "int", .pickUp ⟨0⟩ false, .dispose ⟨0⟩] ∧
    ((fresh (.standard : EditorConfig Int) Palette.registry).run
      [.newBlock "int", .pickUp ⟨0⟩ false, .dispose ⟨0⟩]).session.isSome ∧
    ((fresh (.standard : EditorConfig Int) Palette.registry).run
      [.newBlock "int", .pickUp ⟨0⟩ false, .dispose ⟨0⟩]).accepts (.dropAt ⟨5, 5⟩) = false :=
  ⟨run_bracketed Palette.registry_onePlug (create_fresh (by decide)) (by decide +kernel)
    (staysAcyclic_of_ordered (by decide +kernel)), by decide +kernel, by decide +kernel⟩

end Runs

end Editor

end BlockEditor
