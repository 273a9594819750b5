import BlockEditor.Editor.Deferred
import BlockEditor.Proofs.Events.Edits

/-!
# Gestures do not depend on the log

A gesture asks the log one thing, whether a group is open.
-/

namespace BlockEditor

variable {α : Type}

open Logged

namespace Act

variable {β : Type} {S : Set (LogStep α)}

theorem edit_echoes {m : Edit α β} (h : Echoes S m) : Echoes Set.univ (edit m) := by
  intro e
  cases hm : m e.workspace with
  | ok a ws =>
    obtain ⟨script, -, -, hs⟩ := h.ok hm
    refine ⟨script, fun _ _ => trivial, fun log' hl => ?_⟩
    have hw : m (withLog e log').workspace = .ok a (withLog ws (log'.replay script)) := hs log' hl
    simp only [edit, hm, hw]
    rfl
  | error refusal ws =>
    obtain ⟨script, -, -, hs⟩ := h.error hm
    refine ⟨script, fun _ _ => trivial, fun log' hl => ?_⟩
    have hw : m (withLog e log').workspace = .error refusal (withLog ws (log'.replay script)) :=
      hs log' hl
    simp only [edit, hm, hw]
    rfl

theorem query_echoes {q : Workspace α → Answer α β}
    (h : ∀ ws log', q (withLog ws log') = q ws) : Echoes Set.univ (query q) :=
  edit_echoes (S := fires) (Echoes.query h)

theorem request_echoes (r : HostRequest α) : Echoes Set.univ (request r) :=
  Echoes.of_silent fun _ _ => rfl

theorem updateSession_echoes (f : DragSession α → DragSession α) : Echoes Set.univ (updateSession f) :=
  Echoes.of_silent fun _ _ => rfl

theorem setSession_echoes (s : DragSession α) : Echoes Set.univ (setSession s) :=
  Echoes.of_silent fun _ _ => rfl

theorem enter_echoes (phase : DragPhase) : Echoes Set.univ (enter (α := α) phase) :=
  Echoes.of_silent fun _ _ => rfl

theorem setGroup_echoes (on : Bool) : Echoes Set.univ (edit (modify fun ws =>
    { ws with events := ws.events.setGroup on }) : Act α Unit) :=
  fun _ => ⟨[.setGroup on], fun _ _ => trivial, fun _ _ => rfl⟩

/-- Whether a group is opened depends on whether one is open, and on nothing else in the log. -/
theorem ensureGroup_echoes : Echoes Set.univ (ensureGroup (α := α)) := by
  refine edit_echoes (S := Set.univ) fun ws => ?_
  cases hg : ws.events.group with
  | none =>
    refine ⟨[.setGroup true], fun _ _ => trivial, fun log' hl => ?_⟩
    have hnone : log'.group = none := by
      have hl : ws.events.group.isSome = log'.group.isSome := hl
      rw [hg] at hl
      exact Option.not_isSome_iff_eq_none.mp (by rw [← hl]; decide)
    change EStateM.Result.ok () _ = EStateM.Result.ok () _
    simp only [withLog, hnone]
    rfl
  | some g =>
    refine ⟨[], fun _ _ => trivial, fun log' hl => ?_⟩
    have hsome : log'.group.isNone = false := by
      have hl : ws.events.group.isSome = log'.group.isSome := hl
      rw [hg] at hl
      simp [Option.isNone_eq_false_iff, ← hl]
    change EStateM.Result.ok () _ = EStateM.Result.ok () _
    simp only [withLog, hsome]
    rfl

theorem workspace_withLog (e : Editor α) (log' : EventLog α) :
    (withLog e log').workspace = withLog e.workspace log' :=
  rfl

theorem activeSession_echoes : Echoes Set.univ (activeSession (α := α)) := by
  unfold activeSession
  refine Echoes.get_bind (fun _ _ => rfl) fun e => ?_
  cases e.session with
  | none => exact Echoes.throw _
  | some s => exact Echoes.pure _

theorem takeSession_echoes : Echoes Set.univ (takeSession (α := α)) :=
  activeSession_echoes.bind fun _ => Echoes.bind (Echoes.of_silent fun _ _ => rfl) fun _ =>
    Echoes.pure _

theorem updateTasks_echoes (f : TaskQueue → TaskQueue) : Echoes Set.univ (updateTasks (α := α) f) :=
  edit_echoes (S := fires) (Echoes.alter fun _ _ => rfl)

/-! ### Gestures -/

theorem clearVisuals_echoes (block : BlockId) : Echoes Set.univ (clearVisuals (α := α) block) := by
  have hrest : Echoes Set.univ (do
      request (.textWidthCache false)
      request .stopDisconnectEffect
      request .hidePreview
      request (.dragLayer block false) : Act α Unit) :=
    (request_echoes _).bind fun _ => (request_echoes _).bind fun _ => (request_echoes _).bind
      fun _ => request_echoes _
  refine Echoes.get_bind (fun _ _ => rfl) fun e => Echoes.ite (Echoes.bind ?_ fun _ => hrest) hrest
  exact Echoes.tryCatch (edit_echoes (Edit.markDragging_echoes block false)) fun _ => Echoes.pure _

theorem finishGesture_echoes : Echoes Set.univ (finishGesture (α := α)) :=
  (request_echoes _).bind fun _ => (request_echoes _).bind fun _ => setGroup_echoes false

theorem closeGesture_echoes : Echoes Set.univ (closeGesture (α := α)) :=
  finishGesture_echoes.bind fun _ => enter_echoes _

theorem makeReal_echoes (block : BlockId) (socket : Option ConnectionId) :
    Echoes Set.univ (makeReal (α := α) block socket) := by
  refine (Echoes.forM_option socket fun c => ?_).bind fun _ =>
    edit_echoes (Edit.updateBlock_echoes _ _)
  refine (query_echoes fun _ _ => rfl).bind fun y => Echoes.ite ?_ (Echoes.pure _)
  refine (query_echoes (by simp)).bind fun template => ?_
  exact (edit_echoes (Edit.updateConnection_echoes _ _)).bind fun _ => updateSession_echoes _

theorem plugBelow_echoes (b : Block α) : Echoes Set.univ (plugBelow b) := by
  unfold plugBelow
  cases b.next with
  | none => exact Echoes.pure _
  | some next => exact (query_echoes fun _ _ => rfl).bind fun _ => Echoes.pure _

theorem valueSocket_echoes (b : Block α) : Echoes Set.univ (valueSocket b) := by
  unfold valueSocket
  cases b.output with
  | none => exact Echoes.pure _
  | some output => exact (query_echoes fun _ _ => rfl).bind fun _ => Echoes.pure _

variable [Scalar α]

theorem leaveCopy_echoes (block : BlockId) (socket : ConnectionId) (snapshot : Snapshot) :
    Echoes Set.univ (leaveCopy (α := α) block socket snapshot) :=
  (edit_echoes (Edit.restore_echoes snapshot)).bind fun _ => (updateSession_echoes _).bind fun _ =>
    (edit_echoes (Edit.attach_echoes _ _)).bind fun _ => edit_echoes (Edit.updateBlock_echoes _ _)

theorem detach_echoes (block : BlockId) (heal : Bool) :
    Echoes Set.univ (detach (α := α) block heal) := by
  unfold detach
  refine (query_echoes (by simp)).bind fun keepsCopy => (query_echoes fun _ _ => rfl).bind fun b => ?_
  refine (updateSession_echoes _).bind fun _ => (valueSocket_echoes b).bind fun socket => ?_
  refine Echoes.optional (makeReal_echoes block socket) ?_
  refine (query_echoes (by simp)).bind fun parentSocket => ?_
  refine Echoes.either (plugBelow_echoes b) (Echoes.pure _) fun childPlug => ?_
  refine (updateSession_echoes _).bind fun _ => ?_
  dsimp only
  split
  · exact (edit_echoes (Edit.pullOut_echoes block heal)).bind fun _ => request_echoes _
  · refine (query_echoes (by simp)).bind fun snapshot => ?_
    refine (edit_echoes (Edit.pullOut_echoes block heal)).bind fun _ => ?_
    exact (leaveCopy_echoes block _ snapshot).bind fun _ => request_echoes _

theorem abandon_echoes (block : BlockId) : Echoes Set.univ (abandon (α := α) block) :=
  takeSession_echoes.bind fun s => (edit_echoes (Edit.rollBack_echoes s)).bind fun _ =>
    (clearVisuals_echoes block).bind fun _ => finishGesture_echoes

omit [Scalar α] in
theorem hasToDetach_echoes (block : BlockId) (heal : Bool) :
    Echoes Set.univ (hasToDetach (α := α) block heal) := by
  refine (query_echoes (by simp)).bind fun _ => Echoes.ite (Echoes.pure _) (Echoes.ite ?_ (Echoes.pure _))
  exact (query_echoes fun _ _ => rfl).bind fun _ => Echoes.pure _

theorem loosen_echoes (s : DragSession α) (heal : Bool) : Echoes Set.univ (loosen s heal) := by
  refine (hasToDetach_echoes s.block heal).bind fun _ => Echoes.ite (Echoes.pure _) ?_
  refine (setSession_echoes s).bind fun _ => Echoes.bind ?_ fun _ => takeSession_echoes
  refine Echoes.tryCatch (detach_echoes s.block heal) fun refusal => ?_
  exact (abandon_echoes s.block).bind fun _ => Echoes.throw refusal

omit [Scalar α] in
theorem requireIdle_echoes : Echoes Set.univ (requireIdle (α := α)) := by
  refine Echoes.get_bind (fun _ _ => rfl) fun e => ?_
  cases e.session with
  | none => exact Echoes.pure _
  | some s => exact Echoes.throw _

theorem takeUp_echoes (block : BlockId) (heal : Bool) : Echoes Set.univ (takeUp (α := α) block heal) := by
  unfold takeUp
  refine (query_echoes (by simp)).bind fun found => (query_echoes (by simp)).bind fun on => ?_
  refine Echoes.optional (Echoes.throw _) (ensureGroup_echoes.bind fun _ => ?_)
  refine (query_echoes (by simp)).bind fun dragged => ?_
  refine (edit_echoes (Edit.fire_echoes _)).bind fun _ => (query_echoes fun _ _ => rfl).bind fun b => ?_
  refine (request_echoes _).bind fun _ => (request_echoes _).bind fun _ => ?_
  refine (request_echoes _).bind fun _ => (loosen_echoes _ heal).bind fun s => ?_
  refine (edit_echoes (Edit.markDragging_echoes _ true)).bind fun _ => ?_
  refine (request_echoes _).bind fun _ => (setSession_echoes s).bind fun _ => ?_
  exact (enter_echoes _).bind fun _ => Echoes.pure _

theorem pickUp_echoes (block : BlockId) (heal : Bool) : Echoes Set.univ (pickUp (α := α) block heal) :=
  requireIdle_echoes.bind fun _ => takeUp_echoes block heal

theorem choose_echoes (held : Option (Candidate α)) (found : Candidate α) (delta : Point α) :
    Echoes Set.univ (choose held found delta) := by
  unfold choose
  cases held with
  | none => exact Echoes.pure _
  | some c =>
    refine (query_echoes fun _ _ => rfl).bind fun d => Echoes.get_bind (fun _ _ => rfl) fun e => ?_
    exact Echoes.ite (Echoes.pure _) (Echoes.pure _)

omit [Scalar α] in
theorem preview_echoes (block : BlockId) (c : Candidate α) : Echoes Set.univ (preview block c) := by
  unfold preview
  refine (query_echoes (by simp)).bind fun displaced => ?_
  cases displaced with
  | none => exact request_echoes _
  | some replaced => exact request_echoes _

theorem dragTo_echoes (location : Point α) : Echoes Set.univ (dragTo location) := by
  unfold dragTo
  refine activeSession_echoes.bind fun s => (edit_echoes (Edit.requireFinite_echoes _)).bind fun _ => ?_
  refine (updateSession_echoes _).bind fun _ => (request_echoes _).bind fun _ => ?_
  refine (query_echoes (by simp)).bind fun found => ?_
  cases found with
  | none =>
    refine (updateSession_echoes _).bind fun _ => ?_
    exact Echoes.optional (request_echoes _) (Echoes.pure _)
  | some found =>
    refine (choose_echoes _ found _).bind fun chosen => (updateSession_echoes _).bind fun _ => ?_
    exact Echoes.optional (preview_echoes s.block chosen) (Echoes.pure _)

theorem commit_echoes (block : BlockId) (c : Candidate α) : Echoes Set.univ (commit block c) := by
  refine (edit_echoes (Edit.connect_echoes _ _)).bind fun _ => (query_echoes fun _ _ => rfl).bind fun _ => ?_
  refine (query_echoes fun _ _ => rfl).bind fun _ => (query_echoes (by simp)).bind fun _ => ?_
  exact edit_echoes (S := fires) (Echoes.alter fun _ _ => rfl)

theorem settle_echoes (s : DragSession α) (location : Point α) : Echoes Set.univ (settle s location) := by
  unfold settle
  refine (edit_echoes (Edit.moveTo_echoes _ _ _)).bind fun _ => ?_
  have hrest : ∀ outcome, Echoes Set.univ (do
      let _ ← edit (Edit.moveToGrid s.block)
      return outcome : Act α (DragOutcome α)) := fun outcome =>
    (edit_echoes (Edit.moveToGrid_echoes s.block)).bind fun _ => Echoes.pure _
  cases s.candidate with
  | none => exact (request_echoes _).bind fun _ => (Echoes.pure _).bind hrest
  | some c => exact (commit_echoes s.block c).bind fun _ => (Echoes.pure _).bind hrest

omit [Scalar α] in
theorem draggedWith_echoes (block : BlockId) : Echoes Set.univ (draggedWith (α := α) block) := by
  unfold draggedWith
  refine Echoes.get_bind (fun e log' => ?_) fun e => ?_
  · rw [workspace_withLog, Workspace.descendants_withLog]
  · split
    · exact Echoes.pure _
    · exact Echoes.pure _

omit [Scalar α] in
theorem fireDragEnd_echoes (block : BlockId) : Echoes Set.univ (fireDragEnd (α := α) block) :=
  (draggedWith_echoes block).bind fun _ => edit_echoes (Edit.fire_echoes _)

omit [Scalar α] in
theorem followedBy_echoes {step : Act α β} {after : Act α Unit} (h : Echoes Set.univ step)
    (h' : Echoes Set.univ after) : Echoes Set.univ (followedBy step after) :=
  (Echoes.tryCatch h fun refusal => h'.bind fun _ => Echoes.throw refusal).bind fun _ =>
    h'.bind fun _ => Echoes.pure _

theorem dropAt_echoes (location : Point α) : Echoes Set.univ (dropAt location) :=
  takeSession_echoes.bind fun s => (enter_echoes _).bind fun _ => (fireDragEnd_echoes _).bind fun _ =>
    (clearVisuals_echoes _).bind fun _ => followedBy_echoes (settle_echoes s _) closeGesture_echoes

omit [Scalar α] in
theorem closeReverted_echoes (block : BlockId) : Echoes Set.univ (closeReverted (α := α) block) := by
  have hrest : Echoes Set.univ (do
      clearVisuals block
      closeGesture : Act α Unit) :=
    (clearVisuals_echoes block).bind fun _ => closeGesture_echoes
  refine Echoes.get_bind (fun _ _ => rfl) fun e => Echoes.ite ?_ hrest
  exact (fireDragEnd_echoes block).bind fun _ => hrest

theorem cancelDrag_echoes : Echoes Set.univ (cancelDrag (α := α)) :=
  takeSession_echoes.bind fun s => (enter_echoes _).bind fun _ =>
    followedBy_echoes (edit_echoes (Edit.putBack_echoes s)) (closeReverted_echoes s.block)

/-! ### Tasks -/

omit [Scalar α] in
theorem runTask_echoes (task : DeferredTask) : Echoes Set.univ (runTask (α := α) task) := by
  unfold runTask
  refine Echoes.get_bind (fun _ _ => rfl) fun e => ?_
  cases task with
  | connectionFeedback inferior root =>
    refine Echoes.ite (Echoes.pure _) ((request_echoes _).bind fun _ => ?_)
    exact (updateTasks_echoes _).bind fun _ => Echoes.pure _
  | bringToFront block =>
    exact Echoes.ite (Echoes.pure _) ((request_echoes _).bind fun _ => Echoes.pure _)

omit [Scalar α] in
theorem runTasks_echoes (tasks : List DeferredTask) : Echoes Set.univ (runTasks (α := α) tasks) :=
  (Echoes.mapM_list tasks runTask_echoes).bind fun _ => Echoes.pure _

omit [Scalar α] in
theorem runAfterLayout_echoes : Echoes Set.univ (runAfterLayout (α := α)) :=
  Echoes.get_bind (fun _ _ => rfl) fun _ => (updateTasks_echoes _).bind fun _ => runTasks_echoes _

omit [Scalar α] in
theorem runNextTurn_echoes : Echoes Set.univ (runNextTurn (α := α)) :=
  Echoes.get_bind (fun _ _ => rfl) fun _ => (updateTasks_echoes _).bind fun _ => runTasks_echoes _

end Act

end BlockEditor
