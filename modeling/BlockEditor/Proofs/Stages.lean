import BlockEditor.Proofs.Events.Edits
import BlockEditor.Proofs.Picking

/-!
# The stages of a gesture

Through a gesture the editor holds its block, opens a group of events and takes over the canvas of
the host. What it has asked of the host by then, and what became of its log, is followed from step
to step, whatever the steps do to the blocks.
-/

namespace BlockEditor

open Logged

variable {α : Type}

namespace HostRequest

/-- What a request does to the cache of text widths. -/
def textWidth? : HostRequest α → Option Bool
  | .textWidthCache on => some on
  | _ => none

/-- What a request does to resizing. -/
def resizes? : HostRequest α → Option Bool
  | .resizesEnabled on => some on
  | _ => none

/-- What a request does to the drag layer of a block. -/
def layer? (x : BlockId) : HostRequest α → Option Bool
  | .dragLayer y on => if y = x then some on else none
  | _ => none

/-- What the last of some requests that does anything does. -/
def latest (f : HostRequest α → Option Bool) (requests : List (HostRequest α)) : Option Bool :=
  (requests.filterMap f).getLast?

variable {f : HostRequest α → Option Bool} {rs : List (HostRequest α)} {r : HostRequest α}
  {on : Bool}

theorem latest_concat (h : f r = some on) : latest f (rs ++ [r]) = some on := by
  simp [latest, List.filterMap_append, h]

theorem latest_concat_of_none (h : f r = none) : latest f (rs ++ [r]) = latest f rs := by
  simp [latest, List.filterMap_append, h]

/-- The block of a drag looks at rest again. -/
structure Cleared (x : BlockId) (since : List (HostRequest α)) : Prop where
  textWidth : latest textWidth? since = some false
  layer : latest (layer? x) since = some false
  hidden : .hidePreview ∈ since

/-- The canvas was given back to the host. -/
structure Released (x : BlockId) (since : List (HostRequest α)) : Prop
    extends Cleared x since where
  resizes : latest resizes? since = some true
  disposed : .disposePreview ∈ since

variable {x : BlockId}

theorem Cleared.concat (h : Cleared x rs) (hwidth : r.textWidth? = none)
    (hlayer : r.layer? x = none) : Cleared x (rs ++ [r]) where
  textWidth := (latest_concat_of_none hwidth).trans h.textWidth
  layer := (latest_concat_of_none hlayer).trans h.layer
  hidden := List.mem_append_left _ h.hidden

end HostRequest

namespace EventLog

variable {G : EventLog α → Prop} {log : EventLog α}

/-- Whatever is recorded leaves it as it is. -/
def Unbroken (G : EventLog α → Prop) : Prop :=
  ∀ log e, G log → G (log.fire e)

theorem Unbroken.replay (hG : Unbroken G) {script : List (LogStep α)}
    (hs : ∀ step ∈ script, step ∈ fires) (h : G log) : G (log.replay script) := by
  induction script generalizing log with
  | nil => exact h
  | cons step rest ih =>
    obtain ⟨hstep, hrest⟩ := List.forall_mem_cons.mp hs
    obtain ⟨e, rfl⟩ := hstep
    exact ih hrest (hG log e h)

/-- The log that is left when the group is closed. -/
def Shut (G : EventLog α → Prop) (log : EventLog α) : Prop :=
  ∃ before, G before ∧ log = before.closeGroup

end EventLog

open EventLog HostRequest

/-- How far a gesture is: the block that is held, the phase, what was asked of the host since the
gesture began, and what became of the log. -/
structure Stage (before : List (HostRequest α)) (G : EventLog α → Prop) (held : Option BlockId)
    (phase : DragPhase) (R : List (HostRequest α) → Prop) (e : Editor α) : Prop where
  held : e.session.map (·.block) = held
  phase : e.phase = phase
  requests : ∃ since, e.requests = before ++ since ∧ R since
  log : G e.workspace.events

/-- Nothing in particular was asked of the host. -/
def anything (_ : List (HostRequest α)) : Prop :=
  True

theorem Workspace.live_of_isMovable {ws : Workspace α} {x : BlockId}
    (h : ws.isMovable x = .ok true) : ws.Live x := by
  unfold isMovable at h
  cases hn : ws.walkBound with
  | zero =>
    rw [hn] at h
    cases h
  | succ n =>
    rw [hn, isMovableWithin] at h
    cases hb : ws.blocks[x]? with
    | none =>
      rw [hb] at h
      cases h
    | some b => exact ⟨b, hb⟩

namespace Edit

variable [Scalar α]

/-- To undo a start is not refused. -/
theorem rollBack_done (s : DragSession α) :
    Leads (fun _ => True) (rollBack s) (fun _ _ => True) fun _ => False := by
  unfold rollBack
  refine Leads.bind (Q := fun _ _ => True) (Leads.tryCatch (E := fun _ => True) ?_ fun _ =>
    Leads.pure fun _ h => h) fun _ => ?_
  · refine Tells.of_result (putBack_keeps (X := ∅) (Editor.stable_true (α := α)) s) fun ws _ => ?_
    cases putBack s ws with
    | ok => trivial
    | error => trivial
  · exact Leads.forM_option _ (fun c _ => Leads.alter fun _ h => h) fun _ _ h => h

end Edit

namespace Act

/-- Whether a block that is there has to be detached is known. -/
theorem hasToDetach_answers {P : Editor α → Prop} (x : BlockId) (heal : Bool) :
    Leads (fun e => P e ∧ e.workspace.Sound ∧ e.workspace.Live x) (hasToDetach x heal)
      (fun _ e => P e ∧ e.workspace.Sound ∧ e.workspace.Live x) fun _ => False := by
  refine Tells.of_result (hasToDetach_learns (P := fun _ => True) x heal) ?_
  rintro e ⟨hp, hs, b, hb⟩
  obtain ⟨below, hbelow⟩ : ∃ below, e.workspace.nextBlock x = .ok below := by
    unfold Workspace.nextBlock
    simp only [Workspace.block_eq_ok.mpr hb, bind, Except.bind]
    cases hn : b.next with
    | none => exact ⟨none, rfl⟩
    | some n =>
      obtain ⟨y, hy, -⟩ := hs.socket hb (Workspace.mem_sockets.mpr (Or.inr hn))
      exact ⟨_, hs.blockAcross hy⟩
  have hanswer : ∃ on, hasToDetach x heal e = .ok on e := by
    unfold hasToDetach
    rw [bind_eq (query_eq (hs.parent_eq hb))]
    split
    · exact ⟨true, rfl⟩
    · cases heal with
      | false => exact ⟨false, rfl⟩
      | true =>
        rw [if_pos rfl, bind_eq (query_eq hbelow)]
        exact ⟨_, rfl⟩
  obtain ⟨on, hon⟩ := hanswer
  rw [hon]
  exact ⟨hp, hs, b, hb⟩

variable {β : Type} {before : List (HostRequest α)} {G : EventLog α → Prop} {held : Option BlockId}
  {phase : DragPhase} {R T : List (HostRequest α) → Prop} {x : BlockId} {F : Editor α → Prop}

section Steps

variable {P E : Workspace α → Prop} {Q : β → Workspace α → Prop}

/-- An edit records events, and does nothing else to the rest of the editor. -/
theorem edit_stage (hG : Unbroken G) {m : Edit α β} (h : Echoes fires m) (base : Leads P m Q E) :
    Keeps (Stage before G held phase R) (edit m) := by
  refine Tells.of_result (Leads.edit base) fun e he => ?_
  unfold edit
  cases hm : m e.workspace with
  | ok a ws =>
    obtain ⟨script, hs, hlog, -⟩ := h.ok hm
    refine ⟨he.held, he.phase, he.requests, ?_⟩
    exact (show ws.events = e.workspace.events.replay script from hlog) ▸ hG.replay hs he.log
  | error refusal ws =>
    obtain ⟨script, hs, hlog, -⟩ := h.error hm
    refine ⟨he.held, he.phase, he.requests, ?_⟩
    exact (show ws.events = e.workspace.events.replay script from hlog) ▸ hG.replay hs he.log

theorem edit_stage_ok (hG : Unbroken G) {m : Edit α β} (h : Echoes fires m)
    (base : Leads (fun _ => True) m Q fun _ => False) :
    Leads (Stage before G held phase R) (edit m) (fun _ => Stage before G held phase R) F :=
  Leads.weaken ((edit_stage hG h base).and (Leads.edit base)) (fun _ h => ⟨h, trivial⟩)
    (fun _ _ h => h.1) fun _ h => h.2.elim

theorem fire_stage (hG : Unbroken G) (event : Event α) :
    Leads (Stage before G held phase R) (edit (Edit.fire event))
      (fun _ => Stage before G held phase R) F :=
  edit_stage_ok hG (Edit.fire_echoes event) (Leads.alter (Q := fun _ _ => True) fun _ _ => trivial)

theorem request_stage {r : HostRequest α} (h : ∀ since, R since → T (since ++ [r])) :
    Leads (Stage before G held phase R) (request r) (fun _ => Stage before G held phase T) F := by
  refine Leads.modify (fun _ he => he) fun e he => ?_
  obtain ⟨since, hrequests, hR⟩ := he.requests
  refine ⟨he.held, he.phase, ⟨since ++ [r], ?_, h since hR⟩, he.log⟩
  rw [hrequests, List.append_assoc]

theorem request_anything (r : HostRequest α) :
    Leads (Stage before G held phase anything) (request r)
      (fun _ => Stage before G held phase anything) F :=
  request_stage fun _ _ => trivial

theorem updateSession_stage {f : DragSession α → DragSession α} (h : ∀ s, (f s).block = s.block) :
    Leads (Stage before G held phase R) (updateSession f) (fun _ => Stage before G held phase R) F := by
  refine Leads.modify (fun _ he => he) fun e he => ⟨?_, he.phase, he.requests, he.log⟩
  rw [← he.held, Option.map_map]
  exact congrArg (Option.map · e.session) (funext h)

theorem setSession_stage (s : DragSession α) :
    Leads (Stage before G held phase R) (setSession s)
      (fun _ => Stage before G (some s.block) phase R) F :=
  Leads.modify (fun _ he => he) fun _ he => ⟨rfl, he.phase, he.requests, he.log⟩

theorem enter_stage (phase' : DragPhase) :
    Leads (Stage before G held phase R) (enter phase') (fun _ => Stage before G held phase' R) F :=
  Leads.modify (fun _ he => he) fun _ he => ⟨he.held, rfl, he.requests, he.log⟩

/-- The session is handed out, and then no block is held. -/
theorem takeSession_stage : Leads (Stage before G (some x) phase R) (takeSession (α := α))
    (fun s e => Stage before G none phase R e ∧ s.block = x) F := by
  refine Tells.of_result (takeSession_keeps (P := fun _ => True)) ?_
  rintro ⟨ws, session, requests, now⟩ he
  cases session with
  | none => cases he.held
  | some s => exact ⟨⟨rfl, he.phase, he.requests, he.log⟩, Option.some.inj he.held⟩

/-- What comes after a session that was handed out is about the block that was held. -/
theorem takeSession_then {f : DragSession α → Act α β} {G' : EventLog α → Prop}
    {phase' : DragPhase} {R' : BlockId → List (HostRequest α) → Prop}
    (h : ∀ s, Leads (Stage before G none phase R) (f s)
      (fun _ => Stage before G' none phase' (R' s.block))
      (Stage before G' none phase' (R' s.block))) :
    Leads (Stage before G (some x) phase R) (takeSession >>= f)
      (fun _ => Stage before G' none phase' (R' x)) (Stage before G' none phase' (R' x)) :=
  Leads.bind takeSession_stage fun s =>
    (h s).frame.weaken (fun _ h => h) (fun _ _ h => h.2 ▸ h.1) fun _ h => h.2 ▸ h.1

theorem look_stage : Leads (Stage before G held phase R) (get : Act α (Editor α))
    (fun _ => Stage before G held phase R) F :=
  Leads.get fun _ h => h

theorem updateTasks_stage (hG : Unbroken G) (f : TaskQueue → TaskQueue) :
    Keeps (Stage before G held phase R) (updateTasks f : Act α Unit) :=
  edit_stage_ok hG (Echoes.alter fun _ _ => rfl) (Leads.alter (Q := fun _ _ => True) fun _ _ => trivial)

end Steps

/-! ### In the middle of a drag -/

section Middle

variable [Scalar α]

theorem dragTo_stage (location : Point α) :
    Keeps (Stage before G held phase anything) (dragTo location) :=
  dragTo_rounds (fun r => request_anything r) (fun f hf => updateSession_stage fun s => by rw [hf s])
    location

end Middle

/-! ### Letting go -/

section Ends

variable [Scalar α] (hG : Unbroken G)

include hG

theorem clearVisuals_stage (x : BlockId) :
    Leads (Stage before G held phase anything) (clearVisuals x)
      (fun _ => Stage before G held phase (Cleared x)) F := by
  have asked : Leads (Stage before G held phase anything) (do
      request (.textWidthCache false)
      request .stopDisconnectEffect
      request .hidePreview
      request (.dragLayer x false) : Act α Unit)
      (fun _ => Stage before G held phase (Cleared x)) F := by
    refine Leads.bind (request_stage (T := fun since => latest textWidth? since = some false)
      fun since _ => latest_concat rfl) fun _ => ?_
    refine Leads.bind (request_stage (T := fun since => latest textWidth? since = some false)
      fun since h => (latest_concat_of_none rfl).trans h) fun _ => ?_
    refine Leads.bind (request_stage (T := fun since => latest textWidth? since = some false ∧
      .hidePreview ∈ since) fun since h => ⟨(latest_concat_of_none rfl).trans h, by simp⟩) fun _ => ?_
    exact request_stage fun since h => ⟨(latest_concat_of_none rfl).trans h.1,
      latest_concat (if_pos rfl), List.mem_append_left _ h.2⟩
  refine look_stage.bind fun e => Leads.optional (fun _ => ?_) asked
  refine Leads.tryCatch (E := Stage before G held phase anything) ?_ fun _ => Leads.pure fun _ h => h
  exact edit_stage hG (Edit.markDragging_echoes x false)
    (Edit.markDragging_keeps Editor.quiet_true x false)

omit [Scalar α] hG in
theorem finishGesture_stage :
    Leads (Stage before G held phase (Cleared x)) (finishGesture (α := α))
      (fun _ => Stage before (Shut G) held phase (Released x)) F := by
  refine Leads.bind (request_stage (T := fun since => Cleared x since ∧ .disposePreview ∈ since)
    fun since h => ⟨h.concat rfl rfl, by simp⟩) fun _ => ?_
  refine Leads.bind (request_stage (T := Released x) fun since h =>
    ⟨h.1.concat rfl rfl, latest_concat rfl, List.mem_append_left _ h.2⟩) fun _ => ?_
  exact Leads.modify (fun _ he => he) fun e he =>
    ⟨he.held, he.phase, he.requests, e.workspace.events, he.log, rfl⟩

omit [Scalar α] hG in
theorem closeGesture_stage :
    Leads (Stage before G held phase (Cleared x)) (closeGesture (α := α))
      (fun _ => Stage before (Shut G) held .idle (Released x)) F :=
  finishGesture_stage.bind fun _ => enter_stage _

omit [Scalar α] in
theorem fireDragEnd_stage (x : BlockId) :
    Leads (Stage before G held phase R) (fireDragEnd (α := α) x)
      (fun _ => Stage before G held phase R) F := by
  refine Leads.bind (Q := fun _ => Stage before G held phase R) ?_ fun _ => fire_stage hG _
  unfold draggedWith
  refine look_stage.bind fun e => ?_
  split
  · exact Leads.pure fun _ h => h
  · exact Leads.pure fun _ h => h

/-- What a dropped block is connected to is of no account here. -/
theorem commit_stage (x : BlockId) (c : Candidate α) :
    Keeps (Stage before G held phase R) (commit x c) := by
  unfold commit
  refine Leads.bind (edit_stage hG (Edit.connect_echoes c.own c.neighbour)
    (Edit.connect_keeps (X := ∅) (Editor.stable_true (α := α)) c.own c.neighbour)) fun _ => ?_
  refine (ask_keeps _).bind fun y => (ask_keeps _).bind fun z => (ask_keeps _).bind fun root => ?_
  exact updateTasks_stage hG (·.pushAfterLayout (.connectionFeedback z.block root))

theorem settle_stage (s : DragSession α) (location : Point α) :
    Keeps (Stage before G held phase (Cleared x)) (settle s location) := by
  have calm := Editor.calm_true (α := α)
  unfold settle
  refine Leads.bind (edit_stage hG (Edit.moveTo_echoes s.block location "drag")
    (Edit.moveTo_keeps calm s.block location "drag")) fun _ => ?_
  have rest : ∀ outcome, Keeps (Stage before G held phase (Cleared x)) (do
      let _ ← edit (Edit.moveToGrid s.block)
      return outcome : Act α (DragOutcome α)) := fun outcome =>
    Leads.bind (edit_stage hG (Edit.moveToGrid_echoes s.block)
      (Edit.moveToGrid_keeps calm s.block)) fun _ => Leads.pure fun _ h => h
  cases s.candidate with
  | none =>
    refine Leads.bind (request_stage fun since h => h.concat rfl rfl) fun _ => ?_
    exact (Leads.pure fun _ h => h).bind rest
  | some c => exact (commit_stage hG s.block c).bind fun _ => (Leads.pure fun _ h => h).bind rest

/-- A drop ends the gesture, whether it is refused or not. -/
theorem dropAt_stage (location : Point α) :
    Leads (Stage before G (some x) phase anything) (dropAt location)
      (fun _ => Stage before (Shut G) none .idle (Released x))
      (Stage before (Shut G) none .idle (Released x)) := by
  unfold dropAt
  refine takeSession_then fun s => ?_
  refine (enter_stage _).bind fun _ => (fireDragEnd_stage hG _).bind fun _ => ?_
  refine (clearVisuals_stage hG _).bind fun _ => ?_
  exact followedBy_leads (settle_stage hG s _) (fun _ => closeGesture_stage) closeGesture_stage

theorem closeReverted_stage (x : BlockId) :
    Leads (Stage before G held phase anything) (closeReverted x)
      (fun _ => Stage before (Shut G) held .idle (Released x)) F := by
  have rest : Leads (Stage before G held phase anything) (do
      clearVisuals x
      closeGesture : Act α Unit) (fun _ => Stage before (Shut G) held .idle (Released x)) F :=
    (clearVisuals_stage hG x).bind fun _ => closeGesture_stage
  exact look_stage.bind fun e => Leads.optional (fun _ => fireDragEnd_stage hG x) rest

/-- So does a drag that is given up. -/
theorem cancelDrag_stage :
    Leads (Stage before G (some x) phase anything) (cancelDrag (α := α))
      (fun _ => Stage before (Shut G) none .idle (Released x))
      (Stage before (Shut G) none .idle (Released x)) := by
  unfold cancelDrag
  refine takeSession_then fun s => (enter_stage _).bind fun _ => ?_
  exact followedBy_leads (edit_stage hG (Edit.putBack_echoes s)
    (Edit.putBack_keeps (X := ∅) (Editor.stable_true (α := α)) s))
    (fun _ => closeReverted_stage hG s.block) (closeReverted_stage hG s.block)

/-! ### Starting -/

theorem abandon_stage (x : BlockId) :
    Leads (Stage before G (some x) phase anything) (abandon (α := α) x)
      (fun _ => Stage before (Shut G) none phase (Released x)) F := by
  refine Leads.bind takeSession_stage fun s => ?_
  refine Leads.bind (Q := fun _ => Stage before G none phase anything) ?_ fun _ => ?_
  · exact Leads.pre (edit_stage_ok hG (Edit.rollBack_echoes s) (Edit.rollBack_done s)) fun _ h => h.1
  · exact (clearVisuals_stage hG x).bind fun _ => finishGesture_stage

theorem makeReal_stage (x : BlockId) (socket : Option ConnectionId) :
    Keeps (Stage before G held phase anything) (makeReal (α := α) x socket) := by
  unfold makeReal
  have hJ := Editor.stable_true (α := α)
  refine Leads.bind (Q := fun _ => Stage before G held phase anything) ?_ fun _ =>
    edit_stage hG (Edit.updateBlock_echoes x _) (Edit.setPlaceholder_keeps (X := ∅) hJ x false)
  refine Leads.forM_option socket (fun c _ => ?_) fun _ _ h => h
  refine (ask_keeps _).bind fun y => Leads.ite (fun _ => ?_) fun _ => Leads.pure fun _ h => h
  refine (ask_keeps _).bind fun template => ?_
  have told := Leads.updateConnection (P := fun _ : Workspace α => True) (Q := fun _ _ => True)
    (E := fun _ => True) (c := c) (f := fun y => { y with template := some template })
    (fun _ _ _ _ _ _ _ => trivial) fun _ _ _ => trivial
  exact Leads.bind (edit_stage hG (Edit.updateConnection_echoes c _) told) fun _ =>
    updateSession_stage fun _ => rfl

theorem leaveCopy_stage (x : BlockId) (socket : ConnectionId) (snapshot : Snapshot) :
    Keeps (Stage before G held phase anything) (leaveCopy (α := α) x socket snapshot) := by
  have hJ := Editor.stable_true (α := α)
  refine Leads.bind (edit_stage hG (Edit.restore_echoes snapshot)
    (Edit.restore_keeps (X := ∅) hJ snapshot)) fun copy => ?_
  refine Leads.bind (updateSession_stage fun _ => rfl) fun _ => ?_
  refine Leads.bind (edit_stage hG (Edit.attach_echoes socket copy)
    (Edit.attach_keeps (X := ∅) hJ socket copy)) fun _ => ?_
  exact edit_stage hG (Edit.updateBlock_echoes x _) (Edit.setCopyOnDrag_keeps (X := ∅) hJ x _)

theorem detach_stage (x : BlockId) (heal : Bool) :
    Keeps (Stage before G held phase anything) (detach (α := α) x heal) := by
  have hJ := Editor.stable_true (α := α)
  have pulled : Keeps (Stage before G held phase anything) (edit (Edit.pullOut (α := α) x heal)) :=
    edit_stage hG (Edit.pullOut_echoes x heal) (Edit.pullOut_keeps (X := ∅) hJ x heal)
  unfold detach
  refine (ask_keeps _).bind fun keepsCopy => (ask_keeps _).bind fun b => ?_
  refine Leads.bind (updateSession_stage fun _ => rfl) fun _ => ?_
  refine Leads.bind (Q := fun _ => Stage before G held phase anything) ?_ fun socket => ?_
  · unfold valueSocket
    split
    · exact (ask_keeps _).bind fun _ => Leads.pure fun _ h => h
    · exact Leads.pure fun _ h => h
  refine Leads.optional (c := b.placeholder = true) (fun _ => makeReal_stage hG x socket) ?_
  refine (ask_keeps _).bind fun parentSocket => ?_
  refine Leads.either (Q := fun _ => Stage before G held phase anything) (fun _ => ?_)
    (fun _ => Leads.pure fun _ h => h) fun childPlug => ?_
  · unfold plugBelow
    split
    · exact (ask_keeps _).bind fun _ => Leads.pure fun _ h => h
    · exact Leads.pure fun _ h => h
  refine Leads.bind (updateSession_stage fun _ => rfl) fun _ => ?_
  dsimp only
  split
  · exact pulled.bind fun _ => request_anything _
  · refine (ask_keeps _).bind fun snapshot => pulled.bind fun _ => ?_
    exact (leaveCopy_stage hG x _ snapshot).bind fun _ => request_anything _

/-- A block that is there is loosened, or the gesture is over. -/
theorem loosen_stage (s : DragSession α) (heal : Bool) :
    Leads (fun e => Stage before G none phase anything e ∧ e.workspace.Sound ∧
        e.workspace.Live s.block) (loosen s heal)
      (fun s' e => Stage before G none phase anything e ∧ s'.block = s.block)
      (Stage before (Shut G) none phase (Released s.block)) := by
  unfold loosen
  refine Leads.bind (Q := fun _ => Stage before G none phase anything) ?_ fun on => ?_
  · exact (hasToDetach_answers s.block heal).weaken (fun _ h => h) (fun _ _ h => h.1)
      fun _ h => h.elim
  refine Leads.ite (fun _ => Leads.pure fun _ h => ⟨h, rfl⟩) fun _ => ?_
  refine Leads.bind (setSession_stage s) fun _ => ?_
  refine Leads.bind (Q := fun _ => Stage before G (some s.block) phase anything) ?_ fun _ =>
    takeSession_stage
  refine (detach_stage hG s.block heal).tryCatch fun refusal => ?_
  exact (abandon_stage hG s.block).bind fun _ => Leads.throw fun _ h => h

end Ends

/-! ### A start -/

section Start

variable [Scalar α] {e : Editor α} {block : BlockId} {heal : Bool}

omit [Scalar α] in
/-- What holds of the log in which a group is open. -/
def OpensTo (G : EventLog α → Prop) (log : EventLog α) : Prop :=
  G (if log.group.isNone then log.openGroup else log)

omit [Scalar α] in
theorem ensureGroup_stage (h : OpensTo G e.workspace.events) (hheld : e.session = none) :
    Leads (· = e) (ensureGroup (α := α))
      (fun _ t => Stage e.requests G none e.phase anything t ∧ e.workspace.Drifts t.workspace) F := by
  refine Leads.modify (fun _ he => he) ?_
  rintro _ rfl
  refine ⟨⟨?_, rfl, ⟨[], (List.append_nil _).symm, trivial⟩, ?_⟩, ?_⟩
  · exact congrArg (Option.map (·.block)) hheld
  · exact h
  · exact Workspace.drifts_aside _ _ _

/-- The block that a drag of `block` moves may be moved. -/
def Draggable (ws : Workspace α) (block target : BlockId) : Prop :=
  ∃ offset, ws.dragTarget block = .ok (target, offset) ∧ ws.isMovable target = .ok true

theorem Draggable.live {ws : Workspace α} {x y : BlockId} (h : Draggable ws x y) : ws.Live y :=
  h.elim fun _ h => Workspace.live_of_isMovable h.2

/-- A start that is refused does nothing if there is nothing to drag, and else the gesture is
over. -/
def Refused (G : EventLog α → Prop) (e : Editor α) (block : BlockId) (t : Editor α) : Prop :=
  (t = e ∧ ∀ target, ¬Draggable e.workspace block target) ∨
    ∃ target, Draggable e.workspace block target ∧
      Stage e.requests (Shut G) none e.phase (Released target) t

theorem markDragging_stage (hG : Unbroken G) (x : BlockId) :
    Leads (fun e => Stage before G held phase R e ∧ e.workspace.Sound ∧ e.workspace.Live x)
      (edit (Edit.markDragging x true)) (fun _ => Stage before G held phase R) F := by
  have calm := Editor.calm_true (α := α)
  have answers : Leads (fun e : Editor α => e.workspace.Sound ∧ e.workspace.Live x)
      (edit (Edit.markDragging x true)) (fun _ _ => True) fun _ => False := by
    refine Tells.each (edit_leads (Edit.markDragging_keeps calm.quiet x true)) fun t ht => ?_
    refine (edit_leads (Edit.markDragging_roams ht.1 ht.2 true)).weaken ?_ (fun _ _ _ => trivial)
      fun _ h => h
    rintro _ rfl
    exact Workspace.Drifts.refl _
  exact Leads.weaken ((edit_stage hG (Edit.markDragging_echoes x true)
    (Edit.markDragging_keeps calm.quiet x true)).and answers) (fun _ h => h) (fun _ _ h => h.1)
    fun _ h => h.2.elim

theorem takeUp_stage (hG : Unbroken G) (hforest : e.workspace.Forest)
    (hheld : e.session = none) (hopen : OpensTo G e.workspace.events) (block : BlockId)
    (heal : Bool) :
    Leads (· = e) (takeUp block heal)
      (fun target => Stage e.requests G (some target) .dragging anything)
      (Refused G e block) := by
  unfold takeUp
  have hs := hforest.sound
  have only : ∀ {x y : BlockId} {o : Point α}, e.workspace.dragTarget block = .ok (x, o) →
      e.workspace.isMovable x ≠ .ok true → ¬Draggable e.workspace block y := by
    rintro x y o hx hmovable ⟨o', hy, hon⟩
    obtain ⟨rfl, rfl⟩ := Prod.mk.inj (Except.ok.inj (hx.symm.trans hy))
    exact hmovable hon
  refine Leads.bind ((ask_tells _).refused ?_) fun found => ?_
  · rintro t ⟨rfl, hnone⟩
    exact Or.inl ⟨rfl, fun x ⟨o, hx, _⟩ => hnone _ hx⟩
  refine Leads.bind ((ask_tells _).refused ?_) fun on => ?_
  · rintro t ⟨⟨rfl, hfound⟩, hnone⟩
    exact Or.inl ⟨rfl, fun _ => only hfound (hnone true)⟩
  refine Leads.optionally (Q := fun _ t => t = e ∧ Draggable e.workspace block found.1)
    (fun hoff => Leads.throw ?_) ?_ ?_
  · rintro t ⟨⟨rfl, hfound⟩, hmovable⟩
    refine Or.inl ⟨rfl, fun _ => only hfound fun hon => ?_⟩
    obtain rfl := Except.ok.inj (hmovable.symm.trans hon)
    cases hoff
  · rintro hon t ⟨⟨rfl, hfound⟩, hmovable⟩
    obtain rfl : on = true := by simpa using hon
    exact ⟨rfl, found.2, hfound, hmovable⟩
  -- the questions that are left have answers, as the block is there
  set I : Editor α → Prop := fun t => Stage e.requests G none e.phase anything t ∧
    e.workspace.Drifts t.workspace with hI
  set c : Prop := Draggable e.workspace block found.1
  have kept : ∀ {m : Act α Unit}, Leads I m (fun _ => I) (fun _ => False) →
      Leads (fun t => I t ∧ c) m (fun _ t => I t ∧ c) (Refused G e block) :=
    fun h => h.frame.refused fun _ h => h.1.elim
  have asked : ∀ {β : Type} (q : Workspace α → Answer α β),
      (∀ t : Workspace α, t.Sound → t.Live found.1 → ∃ a, q t = .ok a) →
      Leads (fun t => I t ∧ c) (query q) (fun _ t => I t ∧ c) (Refused G e block) :=
    fun q hq => ask_answers fun t h => hq t.workspace (h.1.2.sound hs) (h.1.2.live h.2.live)
  have told : ∀ r, Leads I (request r : Act α Unit) (fun _ => I) fun _ => False := fun r =>
    Leads.and (request_anything r) (request_keeps (E := fun _ => False) r) |>.refused fun _ h => h.1
  refine Leads.bind (Q := fun _ t => I t ∧ c)
    ((ensureGroup_stage (F := fun _ => False) hopen hheld).frame.refused fun _ h => h.1.elim) fun _ => ?_
  refine (asked _ fun t ht ⟨b, hb⟩ => ?_).bind fun dragged => ?_
  · obtain ⟨l, hl, -⟩ := ht.descendants hb
    exact ⟨l, hl⟩
  refine (kept (((fire_stage (F := fun _ => False) hG _).and (edit_leads (Edit.fire_roams _))).refused
    fun _ h => h.1)).bind fun _ => ?_
  refine (asked _ fun t _ ⟨b, hb⟩ => ⟨b, Workspace.block_eq_ok.mpr hb⟩).bind fun b => ?_
  refine (kept (told _)).bind fun _ => (kept (told _)).bind fun _ => (kept (told _)).bind fun _ => ?_
  set s₀ : DragSession α := DragSession.begin found.1 b.position found.2
  refine Leads.bind (Q := fun s t => (Stage e.requests G none e.phase anything t ∧
    s.block = found.1) ∧ t.workspace.Lifted found.1) (Leads.weaken
      (P := fun t => ((Stage e.requests G none e.phase anything t ∧ t.workspace.Sound ∧
        t.workspace.Live s₀.block) ∧ Beside Workspace.Forest (· = none) t) ∧ c)
      (((loosen_stage hG s₀ heal).and (loosen_lifts s₀ heal rfl)).frame) ?_ ?_ ?_) fun s => ?_
  · rintro t ⟨⟨hstage, hd⟩, hc⟩
    exact ⟨⟨⟨hstage, hd.sound hs, hd.live hc.live⟩, hforest.drifts hd, by simpa using hstage.held⟩, hc⟩
  · exact fun s t h => ⟨h.1.1, h.1.2.1.1⟩
  · exact fun t h => Or.inr ⟨found.1, h.2, h.1.1⟩
  refine Leads.bind (Q := fun _ t => Stage e.requests G none e.phase anything t ∧
    s.block = found.1) ?_ fun _ => ?_
  · exact ((markDragging_stage (F := fun _ => False) hG found.1).frame).weaken
      (fun t h => ⟨⟨h.1.1, h.2.sound, h.2.live⟩, h.1.2⟩) (fun _ _ h => h) fun _ h => h.1.elim
  refine Leads.bind ((request_anything (F := fun _ => False) _).frame.refused fun _ h => h.1.elim)
    fun _ => ?_
  refine Leads.bind (Q := fun _ => Stage e.requests G (some found.1) e.phase anything)
    ((setSession_stage (F := fun _ => False) s).frame.weaken (fun _ h => h) (fun _ _ h => h.2 ▸ h.1)
      fun _ h => h.1.elim) fun _ => ?_
  exact (enter_stage _).bind fun _ => Leads.pure fun _ h => h

theorem pickUp_stage (hG : Unbroken G) (hforest : e.workspace.Forest)
    (hheld : e.session = none) (hopen : OpensTo G e.workspace.events) (block : BlockId)
    (heal : Bool) :
    Leads (· = e) (pickUp block heal)
      (fun target => Stage e.requests G (some target) .dragging anything)
      (Refused G e block) := by
  refine Leads.bind (Q := fun _ t => t = e) ?_ fun _ =>
    takeUp_stage hG hforest hheld hopen block heal
  refine Tells.of_result (requireIdle_keeps (X := ∅) (Editor.stable_true (α := α))) ?_
  intro t ht
  subst ht
  unfold requireIdle
  rw [bind_eq (m := get) (a := t) (t := t) rfl, hheld]
  rfl

end Start

end Act

end BlockEditor
