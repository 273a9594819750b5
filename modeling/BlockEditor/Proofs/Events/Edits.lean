import BlockEditor.Proofs.Events.Echo

/-!
# Edits do not depend on the log

Every edit does the same whatever the log holds, refused or not.
-/

namespace BlockEditor

variable {α : Type}

open Logged

namespace Echoes

variable {β γ : Type} {S : Set (LogStep α)}

theorem query {q : Workspace α → Answer α β}
    (h : ∀ ws log', q (withLog ws log') = q ws) : Echoes S (Edit.query q) := by
  refine of_silent fun ws log' => ?_
  unfold Edit.query
  rw [h]
  cases q ws <;> rfl

/-- A question, and then what depends on the answer. -/
theorem ask {q : Workspace α → Answer α β} {f : β → Edit α γ}
    (h : ∀ ws log', q (withLog ws log') = q ws) (hf : ∀ a, Echoes S (f a)) :
    Echoes S (Edit.query q >>= f) :=
  (query h).bind hf

/-- A change that has nothing to do with the log. -/
theorem alter {f : Workspace α → Workspace α}
    (h : ∀ ws log', f (withLog ws log') = withLog (f ws) log') :
    Echoes S (modify f : Edit α Unit) :=
  (Uniform.of_silent h).echoes

end Echoes

namespace Workspace

/-! ### Taking blocks out -/

theorem takeOutOne_uniform (id : BlockId) : Uniform fires fun s : Workspace α × Removal =>
    takeOutOne s id := by
  rintro ⟨ws, r⟩
  cases hb : ws.blocks[id]? with
  | none =>
    refine ⟨[], List.forall_mem_nil _, fun log' => ?_⟩
    simp only [takeOutOne, withLog, hb]
    rfl
  | some b =>
    refine ⟨[.fire (.delete id)], List.forall_mem_singleton.mpr ⟨_, rfl⟩, fun log' => ?_⟩
    simp only [takeOutOne, withLog, hb]
    rfl

theorem takeOutWithin_uniform (steps : Nat) (id : BlockId) :
    Uniform fires fun s : Workspace α × Removal => takeOutWithin steps s id := by
  induction steps generalizing id with
  | zero => exact Uniform.of_silent fun _ _ => rfl
  | succ steps ih =>
    intro s
    by_cases hid : s.1.hasBlock id
    · obtain ⟨script, hscript, hs⟩ := Uniform.foldl ih (s.1.branches id) s
      obtain ⟨script', hscript', hs'⟩ := takeOutOne_uniform id
        ((s.1.branches id).foldl (takeOutWithin steps) s)
      refine ⟨script ++ script', List.forall_mem_append.mpr ⟨hscript, hscript'⟩, fun log' => ?_⟩
      have hid' : (withLog s log').1.hasBlock id := hid
      simp only [takeOutWithin, if_pos hid, if_pos hid', EventLog.replay_append]
      rw [← hs' (log'.replay script)]
      exact congrArg (takeOutOne · id) (hs log')
    · refine ⟨[], List.forall_mem_nil _, fun log' => ?_⟩
      have hid' : ¬ (withLog s log').1.hasBlock id := hid
      simp only [takeOutWithin, if_neg hid, if_neg hid']
      rfl

theorem removeTree_uniform (id : BlockId) : Uniform fires (removeTree (α := α) · id) := by
  intro ws
  obtain ⟨script, hscript, hs⟩ := takeOutWithin_uniform ws.walkBound id (ws, Removal.empty)
  refine ⟨script, hscript, fun log' => ?_⟩
  exact congrArg (fun s : Workspace α × Removal => s.1.sweep s.2) (hs log')

end Workspace

namespace Edit

theorem fire_echoes (e : Event α) : Echoes fires (fire e) :=
  fun _ => ⟨[.fire e], List.forall_mem_singleton.mpr ⟨e, rfl⟩, fun _ _ => rfl⟩

theorem updateBlock_echoes (id : BlockId) (f : Block α → Block α) : Echoes fires (updateBlock id f) :=
  Echoes.ask (fun _ _ => rfl) fun _ => Echoes.alter fun _ _ => rfl

theorem updateConnection_echoes (id : ConnectionId) (f : Connection α → Connection α) :
    Echoes fires (updateConnection id f) :=
  Echoes.ask (fun _ _ => rfl) fun _ => Echoes.alter fun _ _ => rfl

theorem setViewport_echoes (viewport : Option (Rect α)) : Echoes fires (setViewport viewport) :=
  Echoes.alter fun _ _ => rfl

theorem setField_echoes (id : BlockId) (name value : String) :
    Echoes fires (setField (α := α) id name value) := by
  unfold setField
  refine Echoes.ask (fun _ _ => rfl) fun b => ?_
  cases setFieldAmong name value b.inputs with
  | none => exact Echoes.throw _
  | some inputs =>
    refine (updateBlock_echoes _ _).bind fun _ => ?_
    exact Echoes.ite (Echoes.alter fun _ _ => rfl) (Echoes.pure _)

theorem disposeEnd_echoes (r : Removal) (id : ConnectionId) :
    Echoes fires (disposeEnd (α := α) r id) := by
  unfold disposeEnd
  refine Echoes.ask (fun _ _ => rfl) fun found => ?_
  cases found with
  | none => exact Echoes.pure _
  | some child =>
    refine (fire_echoes _).bind fun _ ws => ?_
    obtain ⟨script, hscript, hs⟩ := Workspace.takeOutWithin_uniform ws.walkBound child (ws, r)
    refine ⟨script, hscript, fun log' _ => ?_⟩
    exact congrArg (fun s : Workspace α × Removal =>
      (EStateM.Result.ok (s.2.withConnection id) s.1 : EStateM.Result (EditError α) _ _)) (hs log')

theorem disposeInputs_echoes (inputs : List Input) : Echoes fires (disposeInputs (α := α) inputs) :=
  (Echoes.foldlM_list _ disposeEnd_echoes _).bind fun _ => Echoes.alter fun _ _ => rfl

section Layout

variable [Scalar α]

theorem requireFinite_echoes (p : Point α) : Echoes fires (requireFinite p) :=
  Echoes.ite (Echoes.pure _) (Echoes.throw _)

theorem translate_echoes (id : BlockId) (delta : Point α) : Echoes fires (translate id delta) :=
  Echoes.ite (Echoes.pure _) (Echoes.ask (by simp) fun found => Echoes.forM_list found fun _ =>
    updateBlock_echoes _ _)

theorem moveTo_echoes (id : BlockId) (location : Point α) (reason : String) :
    Echoes fires (moveTo id location reason) :=
  (requireFinite_echoes location).bind fun _ => Echoes.ask (fun _ _ => rfl) fun _ =>
    (translate_echoes id _).bind fun _ => fire_echoes _

theorem moveBy_echoes (id : BlockId) (delta : Point α) (reason : String) :
    Echoes fires (moveBy id delta reason) :=
  Echoes.ask (fun _ _ => rfl) fun _ => moveTo_echoes id _ reason

theorem bringToSocket_echoes (socket : ConnectionId) : Echoes fires (bringToSocket (α := α) socket) := by
  unfold bringToSocket
  refine Echoes.ask (fun _ _ => rfl) fun c => ?_
  cases c.target with
  | none => exact Echoes.pure _
  | some plug =>
    refine Echoes.ask (fun _ _ => rfl) fun _ => Echoes.ask (fun _ _ => rfl) fun _ => ?_
    exact Echoes.ask (fun _ _ => rfl) fun _ => translate_echoes _ _

theorem layOut_echoes (id : BlockId) : Echoes fires (layOut (α := α) id) := by
  unfold layOut
  refine Echoes.ask (fun _ _ => rfl) fun b => Echoes.get_bind (fun _ _ => rfl) fun ws => ?_
  exact (Echoes.alter fun _ _ => rfl).bind fun _ => Echoes.forM_list _ bringToSocket_echoes

theorem moveToGrid_echoes (id : BlockId) : Echoes fires (moveToGrid (α := α) id) := by
  unfold moveToGrid
  refine Echoes.get_bind (fun _ _ => rfl) fun ws => ?_
  cases ws.config.grid with
  | none => exact Echoes.pure _
  | some grid =>
    refine Echoes.ite (Echoes.pure _) (Echoes.ask (by simp) fun _ => ?_)
    refine Echoes.ite (Echoes.pure _) (Echoes.ask (fun _ _ => rfl) fun _ => ?_)
    refine Echoes.ite (Echoes.pure _) ?_
    exact (moveTo_echoes id _ _).bind fun _ => Echoes.pure _

theorem keepInView_echoes (id : BlockId) : Echoes fires (keepInView (α := α) id) := by
  unfold keepInView
  refine Echoes.get_bind (fun _ _ => rfl) fun ws => ?_
  cases ws.viewport with
  | none => exact Echoes.pure _
  | some viewport =>
    refine Echoes.ask (by simp) fun _ => ?_
    refine Echoes.ite (Echoes.pure _) (Echoes.ask (fun _ _ => rfl) fun _ => ?_)
    refine Echoes.ite (Echoes.pure _) ?_
    exact (moveTo_echoes id _ _).bind fun _ => Echoes.pure _

theorem bumpAside_echoes (id : BlockId) : Echoes fires (bumpAside (α := α) id) :=
  Echoes.get_bind (fun _ _ => rfl) fun _ => moveBy_echoes id _ _

end Layout

/-! ### Links and inputs -/

theorem unlink_echoes (id : ConnectionId) : Echoes fires (unlink (α := α) id) := by
  unfold unlink
  refine Echoes.ask (fun _ _ => rfl) fun found => ?_
  cases found with
  | none => exact Echoes.pure _
  | some link =>
    refine Echoes.ask (fun _ _ => rfl) fun _ => (updateConnection_echoes _ _).bind fun _ => ?_
    refine (updateConnection_echoes _ _).bind fun _ => ?_
    exact (Echoes.alter fun _ _ => rfl).bind fun _ => fire_echoes _

variable [Scalar α]

theorem join_echoes (socket plug : ConnectionId) (child : BlockId) :
    Echoes fires (join (α := α) socket plug child) :=
  (updateConnection_echoes _ _).bind fun _ => (updateConnection_echoes _ _).bind fun _ =>
    (Echoes.alter fun _ _ => rfl).bind fun _ => (bringToSocket_echoes socket).bind fun _ => fire_echoes _

theorem hang_echoes (socket : ConnectionId) (child : BlockId) :
    Echoes fires (hang (α := α) socket child) :=
  Echoes.ask (fun _ _ => rfl) fun _ => Echoes.ask (fun _ _ => rfl) fun _ =>
    Echoes.ite (join_echoes _ _ _) (Echoes.throw _)

theorem newConnection_echoes (block : BlockId) (kind : ConnectionKind)
    (check : Option (List String)) : Echoes fires (newConnection (α := α) block kind check) :=
  Echoes.of_silent fun _ _ => rfl

theorem mountInput_echoes (block : BlockId) (t : InputTemplate) :
    Echoes fires (mountInput (α := α) block t) := by
  unfold mountInput
  cases t.kind.connection? with
  | none => exact Echoes.pure _
  | some kind => exact (newConnection_echoes _ _ _).bind fun _ => Echoes.pure _

theorem pushInputs_echoes (id : BlockId) (ts : List InputTemplate) :
    Echoes fires (pushInputs (α := α) id ts) :=
  Echoes.ask (fun _ _ => rfl) fun _ => (Echoes.mapM_list ts (mountInput_echoes id)).bind fun _ =>
    updateBlock_echoes _ _

theorem addInput_echoes (id : BlockId) (t : InputTemplate) : Echoes fires (addInput (α := α) id t) :=
  (pushInputs_echoes id [t]).bind fun _ => layOut_echoes id

theorem removeInput_echoes (id : BlockId) (name : String) :
    Echoes fires (removeInput (α := α) id name) := by
  unfold removeInput
  refine Echoes.ask (fun _ _ => rfl) fun b => ?_
  cases b.input? name with
  | none => exact Echoes.pure _
  | some input =>
    refine (updateBlock_echoes _ _).bind fun _ => ?_
    exact (disposeInputs_echoes _).bind fun _ => layOut_echoes id

omit [Scalar α] in
theorem cutInputs_echoes (id : BlockId) (length : Nat) : Echoes fires (cutInputs (α := α) id length) :=
  Echoes.ask (fun _ _ => rfl) fun _ => (updateBlock_echoes _ _).bind fun _ => disposeInputs_echoes _

/-! ### Units and new blocks -/

theorem refreshControls_echoes (id : BlockId) : Echoes fires (refreshControls (α := α) id) :=
  Echoes.ask (fun _ _ => rfl) fun _ => (removeInput_echoes id _).bind fun _ => addInput_echoes id _

theorem resizeSlots_echoes (id : BlockId) (kind : ContainerKind) (old new : Nat) :
    Echoes fires (resizeSlots (α := α) id kind old new) := by
  refine Echoes.ite (pushInputs_echoes id _) (Echoes.ite ?_ (Echoes.pure _))
  unfold cutSlots
  refine (Echoes.query fun _ _ => rfl).bind fun b => ?_
  split
  · exact cutInputs_echoes id _
  · exact Echoes.throw _

theorem setUnits_echoes (id : BlockId) (wanted : Nat) : Echoes fires (setUnits (α := α) id wanted) := by
  refine Echoes.ask (fun _ _ => rfl) fun spec => Echoes.ask (fun _ _ => rfl) fun b => ?_
  refine (removeInput_echoes id _).bind fun _ => (removeInput_echoes id _).bind fun _ => ?_
  refine (resizeSlots_echoes id _ _ _).bind fun _ => (updateBlock_echoes _ _).bind fun _ => ?_
  refine (pushInputs_echoes id _).bind fun _ => (refreshControls_echoes id).bind fun _ => ?_
  exact Echoes.ite (fire_echoes _) (Echoes.pure _)

theorem loadShape_echoes (id : BlockId) (shape : Json) : Echoes fires (loadShape (α := α) id shape) :=
  (setUnits_echoes id _).bind fun _ => (setUnits_echoes id _).bind fun _ => Echoes.pure _

theorem mountEnd_echoes (id : BlockId) (kind : ConnectionKind) (t : Option ConnectionTemplate) :
    Echoes fires (mountEnd (α := α) id kind t) := by
  cases t with
  | none => exact Echoes.pure _
  | some t => exact (newConnection_echoes _ _ _).bind fun _ => Echoes.pure _

theorem finishContainer_echoes (id : BlockId) (spec : ContainerTemplate) :
    Echoes fires (finishContainer (α := α) id spec) := by
  unfold finishContainer initContainer registerCall
  refine Echoes.bind ?_ fun _ => Echoes.ite ?_ (Echoes.pure _)
  · exact (Echoes.forM_list _ (addInput_echoes id)).bind fun _ => setUnits_echoes id 0
  · exact Echoes.ask (fun _ _ => rfl) fun _ => Echoes.alter fun _ _ => rfl

theorem newBlock_echoes (typeName : String) : Echoes fires (newBlock (α := α) typeName) := by
  unfold newBlock
  refine Echoes.get_bind (fun _ _ => rfl) fun ws => ?_
  cases ws.registry.get? typeName with
  | none => exact Echoes.throw _
  | some d =>
    refine Echoes.bind (Echoes.of_silent fun _ _ => rfl) fun id => ?_
    refine (mountEnd_echoes id _ _).bind fun _ => (mountEnd_echoes id _ _).bind fun _ => ?_
    refine (mountEnd_echoes id _ _).bind fun _ => (Echoes.alter fun _ _ => rfl).bind fun _ => ?_
    refine (Echoes.forM_list _ (addInput_echoes id)).bind fun _ => (fire_echoes _).bind fun _ => ?_
    exact (Echoes.forM_option _ (finishContainer_echoes id)).bind fun _ => Echoes.pure _

theorem newPlaceholder_echoes (typeName : String) : Echoes fires (newPlaceholder (α := α) typeName) :=
  (newBlock_echoes typeName).bind fun _ => (updateBlock_echoes _ _).bind fun _ => Echoes.pure _

/-! ### Snapshots -/

theorem fillShape_echoes (id : BlockId) (shape : Json) : Echoes fires (fillShape (α := α) id shape) :=
  Echoes.ask (fun _ _ => rfl) fun _ =>
    Echoes.ite ((loadShape_echoes id shape).bind fun _ => Echoes.pure _) (Echoes.pure _)

theorem fillInput_echoes {template : Option Snapshot} {child : Option (Edit α BlockId)}
    (h : ∀ make, child = some make → Echoes fires make) (c : ConnectionId) :
    Echoes fires (fillInput template child c) := by
  unfold fillInput
  refine (updateConnection_echoes _ _).bind fun _ => ?_
  cases child with
  | none => exact Echoes.pure _
  | some make => exact (h make rfl).bind fun _ => hang_echoes c _

omit [Scalar α] in
theorem fillInputs_echoes {fillers : Fillers α} (id : BlockId)
    (h : ∀ (name : String) fill, fillers[name]? = some fill → ∀ c, Echoes fires (fill c)) :
    Echoes fires (fillInputs id fillers) := by
  refine Echoes.ask (fun _ _ => rfl) fun b => Echoes.forM_list _ fun i => ?_
  cases i.connection with
  | none => exact Echoes.pure _
  | some c =>
    cases hf : fillers[i.name]? with
    | none => exact Echoes.pure _
    | some fill => exact h i.name fill hf c

theorem fillNext_echoes {make : Edit α BlockId} (h : Echoes fires make) (id : BlockId) :
    Echoes fires (fillNext id make) := by
  refine Echoes.ask (fun _ _ => rfl) fun b => ?_
  cases b.next with
  | none => exact Echoes.throw _
  | some c => exact h.bind fun _ => hang_echoes c _

theorem filler_echoes {i : InputSnapshot Snapshot}
    (h : i.All fun s => ∀ on, Echoes fires (build s on : Edit α BlockId)) (c : ConnectionId) :
    Echoes fires (filler (α := α) i c) := by
  refine fillInput_echoes (fun make hm => ?_) c
  obtain ⟨s, on, hs, rfl⟩ := exists_part h hm
  exact hs on

theorem build_echoes (s : Snapshot) : ∀ on, Echoes fires (build s on : Edit α BlockId) := by
  induction s using Snapshot.induct with
  | step s hinputs hnext =>
    intro on
    rw [build_eq]
    refine (newBlock_echoes s.typeName).bind fun id => ?_
    have hrest : Echoes fires (furnish s id : Edit α BlockId) := by
      refine (Echoes.forM_option _ (fillShape_echoes id)).bind fun _ => ?_
      refine (Echoes.forM_list _ fun ⟨name, value⟩ => setField_echoes id name value).bind fun _ => ?_
      refine (updateBlock_echoes _ _).bind fun _ => Echoes.bind ?_ fun _ => Echoes.bind ?_ fun _ =>
        Echoes.pure _
      · refine fillInputs_echoes id fun name fill hf c => ?_
        obtain ⟨i, hi, rfl⟩ := exists_filler hf
        exact filler_echoes (hinputs i hi) c
      · cases hn : s.next with
        | none => exact Echoes.pure _
        | some n => exact fillNext_echoes (hnext n hn false) id
    exact Echoes.ite ((updateBlock_echoes _ _).bind fun _ => hrest) hrest

theorem restore_echoes (s : Snapshot) : Echoes fires (restore (α := α) s) :=
  build_echoes s false

theorem respawn_echoes (c : ConnectionId) : Echoes fires (respawn (α := α) c) := by
  unfold respawn
  refine Echoes.ask (fun _ _ => rfl) fun y => Echoes.ite (Echoes.pure _) ?_
  cases y.template with
  | none => exact Echoes.pure _
  | some template =>
    exact (build_echoes template true).bind fun _ => (hang_echoes c _).bind fun _ => Echoes.pure _

/-! ### Connecting and disconnecting -/

theorem disconnect_echoes (id : ConnectionId) : Echoes fires (disconnect (α := α) id) := by
  unfold disconnect
  refine Echoes.ask (fun _ _ => rfl) fun found => ?_
  cases found with
  | none => exact Echoes.pure _
  | some link =>
    exact (unlink_echoes id).bind fun _ => (respawn_echoes _).bind fun _ => Echoes.pure _

omit [Scalar α] in
theorem evict_echoes (socket : ConnectionId) : Echoes fires (evict (α := α) socket) := by
  unfold evict
  refine Echoes.ask (fun _ _ => rfl) fun y => ?_
  cases y.target with
  | none => exact Echoes.pure _
  | some plug =>
    refine Echoes.ask (fun _ _ => rfl) fun z => (unlink_echoes socket).bind fun _ => ?_
    refine Echoes.ask (fun _ _ => rfl) fun b => Echoes.ite ?_ (Echoes.pure _)
    refine Echoes.ask (by simp) fun template => ?_
    refine (Workspace.removeTree_uniform z.block).echoes.bind fun _ => ?_
    exact (updateConnection_echoes _ _).bind fun _ => Echoes.pure _

theorem plugIn_echoes (socket plug : ConnectionId) (child : BlockId) :
    Echoes fires (plugIn (α := α) socket plug child) :=
  (disconnect_echoes plug).bind fun _ => (evict_echoes socket).bind fun _ =>
    (join_echoes _ _ _).bind fun _ => Echoes.pure _

theorem resettle_echoes (below : BlockId) (orphan : Orphan) :
    Echoes fires (resettle (α := α) below orphan) := by
  unfold resettle
  refine Echoes.ask (by simp) fun home => ?_
  cases home with
  | none => exact bumpAside_echoes _
  | some socket => exact (plugIn_echoes _ _ _).bind fun _ => Echoes.pure _

theorem connect_echoes (a b : ConnectionId) : Echoes fires (connect (α := α) a b) := by
  unfold connect
  refine Echoes.ask (fun _ _ => rfl) fun fits => Echoes.ite ?_ (Echoes.throw _)
  refine Echoes.ask (fun _ _ => rfl) fun y => ?_
  split
  refine Echoes.ask (fun _ _ => rfl) fun z => Echoes.ite (Echoes.pure _) ?_
  refine Echoes.ask (fun _ _ => rfl) fun v => (plugIn_echoes _ _ _).bind fun orphan => ?_
  exact Echoes.forM_option orphan (resettle_echoes _)

theorem attach_echoes (socket : ConnectionId) (child : BlockId) :
    Echoes fires (attach (α := α) socket child) :=
  Echoes.ask (fun _ _ => rfl) fun _ => connect_echoes socket _

theorem healStack_echoes (next : ConnectionId) (above : Option ConnectionId) :
    Echoes fires (healStack (α := α) next above) := by
  unfold healStack
  refine Echoes.ask (fun _ _ => rfl) fun y => ?_
  cases y.target with
  | none => exact Echoes.pure _
  | some plug =>
    refine Echoes.ask (fun _ _ => rfl) fun z => Echoes.ask (fun _ _ => rfl) fun b => ?_
    refine Echoes.ite (Echoes.pure _) ((unlink_echoes next).bind fun _ => ?_)
    refine Echoes.forM_option above fun socket => Echoes.ask (fun _ _ => rfl) fun _ => ?_
    exact Echoes.ask (fun _ _ => rfl) fun _ => Echoes.ite (connect_echoes _ _) (Echoes.pure _)

theorem pullOut_echoes (id : BlockId) (heal : Bool) : Echoes fires (pullOut (α := α) id heal) := by
  unfold pullOut
  refine Echoes.ask (fun _ _ => rfl) fun b => ?_
  split
  · exact disconnect_echoes _
  · exact Echoes.pure _
  · refine Echoes.ask (fun _ _ => rfl) fun y => (disconnect_echoes _).bind fun _ => ?_
    exact Echoes.ite (Echoes.forM_option _ fun next => healStack_echoes next _) (Echoes.pure _)

theorem dispose_echoes (id : BlockId) : Echoes fires (dispose (α := α) id) := by
  unfold dispose
  refine Echoes.ask (by simp) fun socket => ?_
  refine (Echoes.forM_option socket unlink_echoes).bind fun _ => ?_
  refine (Workspace.removeTree_uniform id).echoes.bind fun _ => ?_
  exact Echoes.forM_option socket fun c => (respawn_echoes c).bind fun _ => Echoes.pure _

theorem setTemplate_echoes (id : ConnectionId) (template : Option Snapshot) :
    Echoes fires (setTemplate (α := α) id template) :=
  (updateConnection_echoes _ _).bind fun _ => respawn_echoes id

omit [Scalar α] in
theorem markDragging_echoes (id : BlockId) (on : Bool) : Echoes fires (markDragging (α := α) id on) :=
  Echoes.ask (by simp) fun found => Echoes.forM_list found fun _ => updateBlock_echoes _ _

theorem fillUnit_echoes (id : BlockId) (unit : Nat) : Echoes fires (fillUnit (α := α) id unit) :=
  (newBlock_echoes _).bind fun _ => Echoes.ask (fun _ _ => rfl) fun _ => attach_echoes _ _

theorem pressAdd_echoes (id : BlockId) (kind : ContainerKind) (units : Nat) :
    Echoes fires (pressAdd (α := α) id kind units) := by
  have hrest : Echoes fires (do
      setUnits id (units + 1)
      if kind = .dict then fillUnit id (units + 1) : Edit α Unit) :=
    (setUnits_echoes id _).bind fun _ => Echoes.ite (fillUnit_echoes id _) (Echoes.pure _)
  exact Echoes.ite ((Echoes.throw _).bind fun _ => hrest) hrest

theorem press_echoes (id : BlockId) (control : Control) : Echoes fires (press (α := α) id control) := by
  unfold press
  refine Echoes.ask (fun _ _ => rfl) fun kind => Echoes.ask (fun _ _ => rfl) fun shown => ?_
  refine Echoes.ite (Echoes.ask (fun _ _ => rfl) fun b => ?_) (Echoes.throw _)
  cases control with
  | add => exact pressAdd_echoes id kind b.units
  | remove => exact setUnits_echoes id _

/-! ### Putting a dragged block back -/

theorem takeBackStack_echoes (block : BlockId) (plug : ConnectionId) :
    Echoes fires (takeBackStack (α := α) block plug) := by
  unfold takeBackStack
  refine Echoes.ask (fun _ _ => rfl) fun b => ?_
  cases b.next with
  | none => exact Echoes.pure _
  | some next =>
    refine Echoes.get_bind (fun _ _ => rfl) fun ws => ?_
    exact Echoes.ite (connect_echoes plug next) (Echoes.pure _)

omit [Scalar α] in
theorem formerPlace_echoes (s : DragSession α) : Echoes fires (formerPlace s) := by
  unfold formerPlace
  refine Echoes.get_bind (fun _ _ => rfl) fun ws => ?_
  cases s.parentSocket with
  | none => exact Echoes.pure _
  | some socket =>
    dsimp only
    cases ws.connections[socket]? with
    | none => exact Echoes.pure _
    | some y => exact Echoes.ask (fun _ _ => rfl) fun _ => Echoes.pure _

theorem takePlace_echoes (s : DragSession α) : Echoes fires (takePlace s) := by
  unfold takePlace
  refine (formerPlace_echoes s).bind fun place => ?_
  cases place with
  | some ends => exact connect_echoes _ _
  | none =>
    refine Echoes.ask (by simp) fun _ => Echoes.ite ?_ (Echoes.pure _)
    exact (moveTo_echoes _ _ _).bind fun _ => (keepInView_echoes _).bind fun _ => Echoes.pure _

theorem putBack_echoes (s : DragSession α) : Echoes fires (putBack s) := by
  refine (Echoes.forM_option _ fun copy => ?_).bind fun _ => (updateBlock_echoes _ _).bind fun _ =>
    (Echoes.forM_option _ (takeBackStack_echoes s.block)).bind fun _ =>
      (takePlace_echoes s).bind fun _ => ?_
  · unfold discardCopy
    refine Echoes.get_bind (fun _ _ => rfl) fun ws => ?_
    exact Echoes.ite (dispose_echoes copy) (Echoes.pure _)
  · refine Echoes.ite (Echoes.ask (by simp) fun _ => ?_) (Echoes.pure _)
    exact Echoes.ite (updateBlock_echoes _ _) (Echoes.pure _)

omit [Scalar α] in
theorem forgetTemplate_echoes (id : ConnectionId) : Echoes fires (forgetTemplate (α := α) id) :=
  Echoes.alter fun _ _ => rfl

theorem rollBack_echoes (s : DragSession α) : Echoes fires (rollBack s) :=
  (Echoes.tryCatch (putBack_echoes s) fun _ => Echoes.pure _).bind fun _ =>
    Echoes.forM_option _ forgetTemplate_echoes

end Edit

end BlockEditor
