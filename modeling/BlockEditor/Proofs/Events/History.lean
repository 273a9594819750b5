import BlockEditor.Proofs.Events.Gestures
import BlockEditor.Proofs.Events.Ledger

/-!
# The history of a run

The events of a run do not depend on how many of them the log can keep. Read from the first to the
last, they give the blocks, the links and the numbers of units that the run ends with.
-/

namespace BlockEditor

variable {α : Type}

open Logged

namespace EventLog

variable {log : EventLog α} {es : List (Event α)}

/-- The log holds the latest of these events, as many as it can keep. -/
structure Holds (log : EventLog α) (es : List (Event α)) : Prop where
  history : log.history = es.drop log.dropped
  dropped : log.dropped = es.length - log.capacity

theorem size_eq (log : EventLog α) : log.size = log.history.length := by
  simp [size, history, Queue.size_eq_length]

theorem Holds.fire (h : log.Holds es) (hroom : 0 < log.capacity) (e : Event α) :
    (log.fire e).Holds (es ++ [e]) := by
  have hsize : log.size = es.length - log.dropped := by
    rw [size_eq, h.history, List.length_drop]
  have hd := h.dropped
  have hh := h.history
  unfold EventLog.history at hh
  unfold EventLog.fire
  by_cases hfull : log.size = log.capacity
  · rw [if_pos hfull]
    constructor
    · have hle : log.dropped + 1 ≤ es.length := by omega
      simp only [EventLog.history, Queue.toList_push, Queue.toList_pop, List.map_append,
        List.map_drop, hh, List.drop_drop, List.map_singleton, List.drop_append_of_le_length hle]
    · simp only [List.length_append, List.length_singleton]
      omega
  · rw [if_neg hfull]
    constructor
    · have hle : log.dropped ≤ es.length := by omega
      simp only [EventLog.history, Queue.toList_push, List.map_append, hh, List.map_singleton,
        List.drop_append_of_le_length hle]
    · simp only [List.length_append, List.length_singleton]
      omega

theorem Holds.setGroup (h : log.Holds es) (on : Bool) : (log.setGroup on).Holds es := by
  cases on with
  | true => exact ⟨h.history, h.dropped⟩
  | false => exact ⟨h.history, h.dropped⟩

theorem capacity_apply (log : EventLog α) (step : LogStep α) :
    (log.apply step).capacity = log.capacity := by
  cases step with
  | fire e =>
    simp only [apply, EventLog.fire]
    split <;> rfl
  | setGroup on => cases on <;> rfl

end EventLog

/-- The event that a step records. -/
def LogStep.event? : LogStep α → Option (Event α)
  | .fire e => some e
  | .setGroup _ => none

namespace EventLog

variable {log : EventLog α} {es : List (Event α)}

theorem capacity_replay (log : EventLog α) (script : List (LogStep α)) :
    (log.replay script).capacity = log.capacity := by
  induction script generalizing log with
  | nil => rfl
  | cons step rest ih => exact (ih _).trans (capacity_apply log step)

theorem Holds.replay (h : log.Holds es) (hroom : 0 < log.capacity) (script : List (LogStep α)) :
    (log.replay script).Holds (es ++ script.filterMap LogStep.event?) := by
  induction script generalizing log es with
  | nil => rwa [List.filterMap_nil, List.append_nil]
  | cons step rest ih =>
    have hroom' : 0 < (log.apply step).capacity := by rwa [capacity_apply]
    cases step with
    | fire e =>
      have := ih (h.fire hroom e) hroom'
      rwa [List.append_assoc, List.singleton_append] at this
    | setGroup on => exact ih (h.setGroup on) hroom'

theorem holds_withCapacity (n : Nat) : (withCapacity (α := α) n).Holds [] :=
  ⟨rfl, by simp [withCapacity]⟩

/-- A log with room for all events keeps them all. -/
theorem Holds.all (h : log.Holds es) (hroom : es.length ≤ log.capacity) :
    log.dropped = 0 ∧ log.history = es := by
  have hd : log.dropped = 0 := by
    rw [h.dropped]
    omega
  exact ⟨hd, by rw [h.history, hd, List.drop_zero]⟩

end EventLog

/-! ### Every run -/

section Runs

variable [Scalar α]

namespace Editor

theorem perform_echoes (a : Action α) : Echoes Set.univ (perform a) := by
  cases a with
  | newBlock typeName => exact (Act.edit_echoes (Edit.newBlock_echoes typeName)).discard
  | newPlaceholder typeName => exact (Act.edit_echoes (Edit.newPlaceholder_echoes typeName)).discard
  | dispose block => exact Act.edit_echoes (Edit.dispose_echoes block)
  | setField block name value => exact Act.edit_echoes (Edit.setField_echoes block name value)
  | setPlaceholder block on => exact Act.edit_echoes (Edit.updateBlock_echoes block _)
  | setMovable block on => exact Act.edit_echoes (Edit.updateBlock_echoes block _)
  | setInFlyout block on => exact Act.edit_echoes (Edit.updateBlock_echoes block _)
  | setCopyOnDrag block value => exact Act.edit_echoes (Edit.updateBlock_echoes block _)
  | setTemplate connection template =>
    exact (Act.edit_echoes (Edit.setTemplate_echoes connection template)).discard
  | connect a b => exact Act.edit_echoes (Edit.connect_echoes a b)
  | disconnect connection => exact Act.edit_echoes (Edit.disconnect_echoes connection)
  | pullOut block heal => exact Act.edit_echoes (Edit.pullOut_echoes block heal)
  | respawn connection => exact (Act.edit_echoes (Edit.respawn_echoes connection)).discard
  | restore snapshot => exact (Act.edit_echoes (Edit.restore_echoes snapshot)).discard
  | moveTo block location reason => exact Act.edit_echoes (Edit.moveTo_echoes block location reason)
  | moveBy block delta reason => exact Act.edit_echoes (Edit.moveBy_echoes block delta reason)
  | moveToGrid block => exact (Act.edit_echoes (Edit.moveToGrid_echoes block)).discard
  | keepInView block => exact (Act.edit_echoes (Edit.keepInView_echoes block)).discard
  | setViewport viewport => exact Act.edit_echoes (Edit.setViewport_echoes viewport)
  | setUnits block units => exact Act.edit_echoes (Edit.setUnits_echoes block units)
  | press block control => exact Act.edit_echoes (Edit.press_echoes block control)
  | loadShape block shape => exact (Act.edit_echoes (Edit.loadShape_echoes block shape)).discard
  | refreshControls block => exact Act.edit_echoes (Edit.refreshControls_echoes block)
  | pickUp block heal => exact (Act.pickUp_echoes block heal).discard
  | dragTo location => exact (Act.dragTo_echoes location).discard
  | dropAt location => exact (Act.dropAt_echoes location).discard
  | cancelDrag => exact Act.cancelDrag_echoes
  | setGroup on => exact Act.setGroup_echoes on
  | updateTasks change => exact Act.updateTasks_echoes change
  | runAfterLayout => exact Act.runAfterLayout_echoes.discard
  | runNextTurn => exact Act.runNextTurn_echoes.discard

theorem after_echoes (e : Editor α) (a : Action α) : ∃ script,
    log (e.after a) = (log e).replay script ∧ ∀ log', (log e).Alike log' →
      (withLog e log').after a = withLog (e.after a) (log'.replay script) := by
  cases hm : perform a e with
  | ok r t =>
    obtain ⟨script, -, ht, hs⟩ := (perform_echoes a).ok hm
    exact ⟨script, by simpa only [after, hm] using ht, fun log' hl => by
      simp only [after, hm, hs log' hl]⟩
  | error r t =>
    obtain ⟨script, -, ht, hs⟩ := (perform_echoes a).error hm
    exact ⟨script, by simpa only [after, hm] using ht, fun log' hl => by
      simp only [after, hm, hs log' hl]⟩

/-- A run leads to the same with another log, and does the same to the log. -/
theorem run_echoes (e : Editor α) (actions : List (Action α)) : ∃ script,
    ∀ log', (log e).Alike log' →
      (withLog e log').run actions = withLog (e.run actions) (log'.replay script) := by
  induction actions generalizing e with
  | nil => exact ⟨[], fun _ _ => rfl⟩
  | cons a rest ih =>
    obtain ⟨script, ht, hs⟩ := after_echoes e a
    obtain ⟨script', hs'⟩ := ih (e.after a)
    refine ⟨script ++ script', fun log' hl => ?_⟩
    have hrun : (withLog e log').run (a :: rest) =
        (withLog (e.after a) (log'.replay script)).run rest :=
      congrArg (run · rest) (hs log' hl)
    rw [hrun, EventLog.replay_append]
    refine hs' _ ?_
    rw [ht]
    exact hl.replay script

/-- The editor with an empty log that can keep `n` events, or one if `n` is 0. -/
def withRoom (e : Editor α) (n : Nat) : Editor α :=
  withLog e (EventLog.withCapacity n)

/-- These are the events of the run: however many of them the log can keep, the run is the same,
and the log then holds the latest ones. -/
def Fires (e : Editor α) (actions : List (Action α)) (es : List (Event α)) : Prop :=
  ∀ n, ∃ log, (e.withRoom n).run actions = withLog (e.run actions) log ∧
    log.capacity = max n 1 ∧ log.Holds es

/-- A run has only one list of events. -/
theorem Fires.unique {e : Editor α} {actions : List (Action α)} {es es' : List (Event α)}
    (h : e.Fires actions es) (h' : e.Fires actions es') : es = es' := by
  obtain ⟨l, hl, hcap, hes⟩ := h (max es.length es'.length)
  obtain ⟨l', hl', hcap', hes'⟩ := h' (max es.length es'.length)
  have heq : l = l' := by
    have := congrArg log (hl.symm.trans hl')
    rwa [log_withLog, log_withLog] at this
  subst heq
  rw [← (hes.all (by omega)).2, ← (hes'.all (by omega)).2]

theorem exists_fires (config : EditorConfig α) (registry : Registry) (actions : List (Action α)) :
    ∃ es, (fresh config registry).Fires actions es := by
  obtain ⟨script, hs⟩ := run_echoes (fresh config registry) actions
  refine ⟨script.filterMap LogStep.event?, fun n => ⟨_, hs _ rfl, ?_, ?_⟩⟩
  · rw [EventLog.capacity_replay]
    rfl
  · have := (EventLog.holds_withCapacity (α := α) n).replay (by simp [EventLog.withCapacity]) script
    rwa [List.nil_append] at this

end Editor

namespace Workspace

/-- The events tell what there is: read in order, they give the blocks, the links and the numbers of
units, and each change of a number of units starts from the number before. -/
structure Faithful (ws : Workspace α) (es : List (Event α)) : Prop where
  live : ∀ x : BlockId, ws.Live x ↔ (∃ t, Event.create x t ∈ es) ∧ Event.delete x ∉ es
  links : ∀ (s : ConnectionId) x, (s, x) ∈ linksAfter es ↔
    ∃ y, ws.connections[s]? = some y ∧ y.kind.isSocket ∧ ws.blockAcross s = .ok (some x)
  units : ∀ (x : BlockId) b, ws.blocks[x]? = some b → b.units = unitsAfter es x
  counted : Counted es

omit [Scalar α] in
theorem hangs_iff {ws : Workspace α} (hs : ws.Sound) {s : ConnectionId} {x : BlockId} :
    ws.graph.Hangs s x ↔
      ∃ y, ws.connections[s]? = some y ∧ y.kind.isSocket ∧ ws.blockAcross s = .ok (some x) := by
  constructor
  · rintro ⟨p, w, v, hl, hx⟩
    obtain ⟨y, hy, rfl⟩ := connection_of_wire hl.socket
    refine ⟨y, hy, hl.isSocket, ?_⟩
    rw [hs.blockAcross hy, (across_socket hy hl.isSocket).mpr ⟨p, v, hl, hx⟩]
  · rintro ⟨y, hy, hk, hx⟩
    rw [hs.blockAcross hy, Except.ok.injEq] at hx
    obtain ⟨p, v, hl, hv⟩ := (across_socket hy hk).mp hx
    exact ⟨p, y.wire, v, hl, hv⟩

omit [Scalar α] in
theorem Told.faithful {ws : Workspace α} {es : List (Event α)} (h : Told none none es ws)
    (hs : ws.Sound) : ws.Faithful es where
  live x := h.live x nofun
  links s x := (h.links s x).trans (hangs_iff hs)
  units x b hb := h.units x b nofun hb
  counted := h.counted

end Workspace

namespace Editor

open Workspace

variable {config : EditorConfig α} {registry : Registry} {e : Editor α}
  {actions : List (Action α)}

/-- Whatever is done to an editor, accepted or refused, the events of the run tell what there is in
the end. -/
theorem run_faithful (hone : registry.OnePlug) (hstart : create config registry = .ok e)
    (hlast : Lasts (e.run actions)) (hacyclic : e.StaysAcyclic actions) :
    ∃ es, e.Fires actions es ∧ (e.run actions).workspace.events.Holds es ∧
      (e.run actions).workspace.Faithful es := by
  obtain ⟨-, rfl⟩ := create_eq_ok hstart
  obtain ⟨es, hes⟩ := exists_fires config registry actions
  refine ⟨es, hes, ?_, ?_⟩
  · obtain ⟨l, hl, -, hholds⟩ := hes config.eventCapacity
    have : (fresh config registry).run actions = withLog ((fresh config registry).run actions) l := hl
    rw [this]
    exact hholds
  · -- A log that can keep all events has let go of none.
    obtain ⟨l, hl, hcap, hholds⟩ := hes es.length
    obtain ⟨hdropped, hhistory⟩ := hholds.all (by omega)
    have hacyclic' : ((fresh config registry).withRoom es.length).StaysAcyclic actions := by
      intro actions' hp
      obtain ⟨script, hs⟩ := run_echoes (fresh config registry) actions'
      have hrun : ((fresh config registry).withRoom es.length).run actions' = _ := hs _ rfl
      rw [hrun]
      exact hacyclic actions' hp
    have hstart : Steady (fun _ => Reports none none) Set.univ
        ((fresh config registry).withRoom es.length).workspace :=
      ⟨(empty_sound hone).withEvents _, empty_reports config registry es.length⟩
    have hend := run_steady stable_reports hstart (by rw [hl]; exact hlast) fun _ => hacyclic'
    rw [hl] at hend
    have htold := hend.keeps hdropped
    rw [show (withLog ((fresh config registry).run actions) l).workspace.events.history = es from
      hhistory] at htold
    refine Told.faithful ?_ ?_
    · exact htold.frame (recorded_of_eq rfl rfl) fun _ _ => Iff.rfl
    · exact hend.sound.withEvents ((fresh config registry).run actions).workspace.events

/-- A block is plugged into a container, dragged out and put back, and goes when the container
shrinks; an action in between is refused. -/
theorem run_faithful_shrink : ∃ es, Fires (fresh (.standard : EditorConfig Int) Palette.registry)
      [.newBlock "List", .newBlock "int", .setUnits ⟨0⟩ 2, .connect ⟨1⟩ ⟨3⟩, .connect ⟨1⟩ ⟨1⟩,
        .pickUp ⟨1⟩ false, .cancelDrag, .setUnits ⟨0⟩ 1] es ∧
    ((fresh (.standard : EditorConfig Int) Palette.registry).run
      [.newBlock "List", .newBlock "int", .setUnits ⟨0⟩ 2, .connect ⟨1⟩ ⟨3⟩, .connect ⟨1⟩ ⟨1⟩,
        .pickUp ⟨1⟩ false, .cancelDrag, .setUnits ⟨0⟩ 1]).workspace.events.Holds es ∧
    ((fresh (.standard : EditorConfig Int) Palette.registry).run
      [.newBlock "List", .newBlock "int", .setUnits ⟨0⟩ 2, .connect ⟨1⟩ ⟨3⟩, .connect ⟨1⟩ ⟨1⟩,
        .pickUp ⟨1⟩ false, .cancelDrag, .setUnits ⟨0⟩ 1]).workspace.Faithful es :=
  run_faithful Palette.registry_onePlug (create_fresh (by decide)) (by decide +kernel)
    (staysAcyclic_of_ordered (by decide +kernel))

end Editor

end Runs

end BlockEditor
