import BlockEditor.Proofs.Detaching
import BlockEditor.Proofs.Snapshot

/-!
# Why edits are refused

No edit asks who may be dragged, so none is refused on those grounds, and neither is a block that is
to be detached. That follows from the way in which steps are put together, whatever the workspace
holds.
-/

namespace BlockEditor

variable {α β γ σ : Type}

/-- A refusal that has nothing to do with who may be dragged. -/
class EditError.Ordinary (e : EditError α) : Prop where
  orphan : ∀ x, e ≠ .placeholderWithoutParent x
  fixed : ∀ x, e ≠ .notMovable x

namespace EditError

instance (x : BlockId) : Ordinary (α := α) (.unknownBlock x) :=
  ⟨nofun, nofun⟩

instance (c : ConnectionId) : Ordinary (α := α) (.unknownConnection c) :=
  ⟨nofun, nofun⟩

instance (typeName : String) : Ordinary (α := α) (.unknownBlockType typeName) :=
  ⟨nofun, nofun⟩

instance (x : BlockId) (name : String) : Ordinary (α := α) (.unknownInput x name) :=
  ⟨nofun, nofun⟩

instance (x : BlockId) : Ordinary (α := α) (.notVariadic x) :=
  ⟨nofun, nofun⟩

instance (x : BlockId) (c : ConnectionId) : Ordinary (α := α) (.missingConnection x c) :=
  ⟨nofun, nofun⟩

instance (c d : ConnectionId) : Ordinary (α := α) (.incompatibleConnection c d) :=
  ⟨nofun, nofun⟩

instance (x y : α) : Ordinary (α := α) (.nonFiniteLocation x y) :=
  ⟨nofun, nofun⟩

instance : Ordinary (α := α) .noActiveDrag :=
  ⟨nofun, nofun⟩

end EditError

/-- A question is refused on ordinary grounds only. -/
class Answer.Ordinary (q : Answer α β) : Prop where
  error : ∀ e, q = .error e → e.Ordinary

/-- A step is refused on ordinary grounds only. -/
class Ordinary (m : EStateM (EditError α) σ β) : Prop where
  error : ∀ s e t, m s = .error e t → e.Ordinary

/-! ### Rules -/

namespace Answer.Ordinary

instance (a : β) : Answer.Ordinary (Pure.pure a : Answer α β) :=
  ⟨nofun⟩

instance (e : EditError α) [h : e.Ordinary] : Answer.Ordinary (throw e : Answer α β) :=
  ⟨fun _ he => Except.error.inj he ▸ h⟩

theorem bind {q : Answer α β} {f : β → Answer α γ} (h : Answer.Ordinary q)
    (hf : ∀ a, Answer.Ordinary (f a)) : Answer.Ordinary (q >>= f) := by
  refine ⟨fun e he => ?_⟩
  cases hq : q with
  | error e' =>
    rw [hq] at he
    cases he
    exact h.error e hq
  | ok a =>
    rw [hq] at he
    exact (hf a).error e he

instance {q : Answer α β} {f : β → Answer α γ} [Answer.Ordinary q] [∀ a, Answer.Ordinary (f a)] :
    Answer.Ordinary (q >>= f) :=
  bind inferInstance inferInstance

instance {p : Prop} [Decidable p] {q q' : Answer α β} [Answer.Ordinary q] [Answer.Ordinary q'] :
    Answer.Ordinary (if p then q else q') := by
  split <;> infer_instance

instance {f : β → γ} {q : Answer α β} [h : Answer.Ordinary q] : Answer.Ordinary (f <$> q) := by
  refine ⟨fun e he => ?_⟩
  cases hq : q with
  | error e' =>
    rw [hq] at he
    cases he
    exact h.error e hq
  | ok a =>
    rw [hq] at he
    cases he

instance {f : β → Answer α γ} [∀ a, Answer.Ordinary (f a)] (l : List β) :
    Answer.Ordinary (l.mapM f) := by
  induction l with
  | nil =>
    rw [List.mapM_nil]
    infer_instance
  | cons a rest ih =>
    rw [List.mapM_cons]
    infer_instance

instance {f : γ → β → Answer α γ} [∀ c a, Answer.Ordinary (f c a)] (c : γ) (l : List β) :
    Answer.Ordinary (l.foldlM f c) := by
  induction l generalizing c with
  | nil => exact inferInstanceAs (Answer.Ordinary (Pure.pure c))
  | cons a rest ih =>
    rw [List.foldlM_cons]
    infer_instance

instance {f : β → Answer α Bool} [∀ a, Answer.Ordinary (f a)] (l : List β) :
    Answer.Ordinary (l.filterM f) := by
  have within : ∀ found, Answer.Ordinary (l.filterAuxM f found) := by
    induction l with
    | nil => exact fun found => inferInstanceAs (Answer.Ordinary (Pure.pure found))
    | cons a rest ih =>
      intro found
      unfold List.filterAuxM
      infer_instance
  unfold List.filterM
  infer_instance

end Answer.Ordinary

namespace Ordinary

instance (a : β) : Ordinary (Pure.pure a : EStateM (EditError α) σ β) :=
  ⟨nofun⟩

instance (e : EditError α) [h : e.Ordinary] :
    Ordinary (throw e : EStateM (EditError α) σ β) :=
  ⟨fun _ _ _ he => (EStateM.Result.error.inj he).1 ▸ h⟩

theorem bind {m : EStateM (EditError α) σ β} {f : β → EStateM (EditError α) σ γ} (h : Ordinary m)
    (hf : ∀ a, Ordinary (f a)) : Ordinary (m >>= f) := by
  refine ⟨fun s e t he => ?_⟩
  cases hm : m s with
  | error e' u =>
    rw [bind_error hm] at he
    cases he
    exact h.error s e t hm
  | ok a u =>
    rw [bind_eq hm] at he
    exact (hf a).error u e t he

instance {m : EStateM (EditError α) σ β} {f : β → EStateM (EditError α) σ γ} [Ordinary m]
    [∀ a, Ordinary (f a)] : Ordinary (m >>= f) :=
  bind inferInstance inferInstance

instance {p : Prop} [Decidable p] {m m' : EStateM (EditError α) σ β} [Ordinary m] [Ordinary m'] :
    Ordinary (if p then m else m') := by
  split <;> infer_instance

instance : Ordinary (get : EStateM (EditError α) σ σ) :=
  ⟨nofun⟩

instance (s : σ) : Ordinary (set s : EStateM (EditError α) σ PUnit) :=
  ⟨nofun⟩

instance (f : σ → σ) : Ordinary (modify f : EStateM (EditError α) σ PUnit) :=
  ⟨nofun⟩

instance (f : σ → β × σ) : Ordinary (modifyGet f : EStateM (EditError α) σ β) :=
  ⟨nofun⟩

instance {f : β → EStateM (EditError α) σ PUnit} [∀ a, Ordinary (f a)] (o : Option β) :
    Ordinary (o.forM f) := by
  cases o with
  | none => exact inferInstanceAs (Ordinary (Pure.pure ()))
  | some a => exact inferInstanceAs (Ordinary (f a))

theorem forM {f : β → EStateM (EditError α) σ PUnit} {l : List β} (h : ∀ a, Ordinary (f a)) :
    Ordinary (l.forM f) := by
  induction l with
  | nil => exact inferInstanceAs (Ordinary (Pure.pure PUnit.unit))
  | cons a rest ih => exact .bind (h a) fun _ => ih

instance {f : β → EStateM (EditError α) σ PUnit} [∀ a, Ordinary (f a)] (l : List β) :
    Ordinary (l.forM f) :=
  forM inferInstance

instance {f : β → EStateM (EditError α) σ γ} [∀ a, Ordinary (f a)] (l : List β) :
    Ordinary (l.mapM f) := by
  induction l with
  | nil =>
    rw [List.mapM_nil]
    infer_instance
  | cons a rest ih =>
    rw [List.mapM_cons]
    infer_instance

instance {f : γ → β → EStateM (EditError α) σ γ} [∀ c a, Ordinary (f c a)] (c : γ) (l : List β) :
    Ordinary (l.foldlM f c) := by
  induction l generalizing c with
  | nil => exact inferInstanceAs (Ordinary (Pure.pure c))
  | cons a rest ih =>
    rw [List.foldlM_cons]
    infer_instance

instance {q : Workspace α → Answer α β} [h : ∀ ws, Answer.Ordinary (q ws)] :
    Ordinary (Edit.query q) := by
  refine ⟨fun ws e t he => ?_⟩
  unfold Edit.query at he
  cases hq : q ws with
  | ok a =>
    rw [hq] at he
    cases he
  | error e' =>
    rw [hq] at he
    cases he
    exact (h ws).error e hq

/-- A step whose refusal is caught is refused for the reasons that the handler has. -/
theorem tryCatch {m : EStateM (EditError α) σ β} {handler : EditError α → EStateM (EditError α) σ β}
    (h : ∀ s e t, m s = .error e t → Ordinary (handler e)) : Ordinary (tryCatch m handler) := by
  refine ⟨fun s e t he => ?_⟩
  cases hm : m s with
  | ok a u =>
    rw [tryCatch_ok hm] at he
    cases he
  | error e' u =>
    rw [tryCatch_error hm] at he
    exact (h s e' u hm).error u e t he

end Ordinary

/-! ### Questions -/

namespace Workspace

variable (ws : Workspace α)

instance (x : BlockId) : Answer.Ordinary (ws.block x) := by
  unfold block
  split
  · exact inferInstanceAs (Answer.Ordinary (Pure.pure _))
  · exact inferInstanceAs (Answer.Ordinary (throw _))

instance (c : ConnectionId) : Answer.Ordinary (ws.connection c) := by
  unfold connection
  split
  · exact inferInstanceAs (Answer.Ordinary (Pure.pure _))
  · exact inferInstanceAs (Answer.Ordinary (throw _))

instance (x : BlockId) : Answer.Ordinary (ws.containerTemplate x) := by
  refine .bind inferInstance fun b => ?_
  split <;> infer_instance

instance (x : BlockId) : Answer.Ordinary (ws.containerKindOf x) := by
  refine .bind inferInstance fun b => ?_
  split <;> infer_instance

instance (c : ConnectionId) : Answer.Ordinary (ws.blockAcross c) := by
  refine .bind inferInstance fun y => ?_
  split <;> infer_instance

instance (l : List ConnectionId) : Answer.Ordinary (ws.firstTarget l) := by
  induction l with
  | nil => exact inferInstanceAs (Answer.Ordinary (Pure.pure none))
  | cons c rest ih =>
    refine .bind inferInstance fun y => ?_
    split
    · infer_instance
    · exact ih

instance (x : BlockId) : Answer.Ordinary (ws.parentSocket x) := by
  unfold parentSocket
  infer_instance

instance (x : BlockId) : Answer.Ordinary (ws.parent x) := by
  refine .bind inferInstance fun socket => ?_
  split <;> infer_instance

instance (x : BlockId) : Answer.Ordinary (ws.holdingInput x) := by
  refine .bind inferInstance fun socket => ?_
  split <;> infer_instance

instance (x : BlockId) : Answer.Ordinary (ws.children x) := by
  unfold children
  infer_instance

instance (steps : Nat) (seen : List BlockId) (x : BlockId) :
    Answer.Ordinary (ws.descendantsFrom steps seen x) := by
  induction steps generalizing seen x with
  | zero => exact inferInstanceAs (Answer.Ordinary (Pure.pure seen))
  | succ steps ih =>
    unfold descendantsFrom
    infer_instance

instance (x : BlockId) : Answer.Ordinary (ws.descendants x) := by
  unfold descendants
  infer_instance

instance (x : BlockId) : Answer.Ordinary (ws.nextBlock x) := by
  refine .bind inferInstance fun b => ?_
  split <;> infer_instance

instance (c d : ConnectionId) : Answer.Ordinary (ws.canConnect c d) := by
  unfold canConnect
  infer_instance

instance (c : ConnectionId) : Answer.Ordinary (ws.link? c) := by
  unfold link?
  infer_instance

instance (c : ConnectionId) (x : BlockId) : Answer.Ordinary (ws.plugFor c x) := by
  refine .bind inferInstance fun y => .bind inferInstance fun b => ?_
  split <;> infer_instance

instance (c : ConnectionId) [Scalar α] : Answer.Ordinary (ws.endPosition c) := by
  unfold endPosition
  infer_instance

instance (x : BlockId) : Answer.Ordinary (ws.shape x) := by
  unfold shape
  infer_instance

instance (x : BlockId) (ignore : Bool) : Answer.Ordinary (ws.stackEnd x ignore) := by
  have within : ∀ steps x, Answer.Ordinary (ws.stackEndWithin ignore steps x) := by
    intro steps
    induction steps with
    | zero => exact fun _ => inferInstanceAs (Answer.Ordinary (Pure.pure none))
    | succ steps ih =>
      refine fun x => .bind inferInstance fun b => ?_
      split
      · infer_instance
      · refine .bind inferInstance fun below => ?_
        split <;> infer_instance
  exact within ws.walkBound x

section Saving

variable {save : BlockId → Answer α Snapshot} [∀ x, Answer.Ordinary (save x)]

instance (i : Input) : Answer.Ordinary (ws.saveInput save i) := by
  unfold saveInput
  split
  · infer_instance
  · refine .bind inferInstance fun y => .bind inferInstance fun child => ?_
    split <;> infer_instance

instance (x : BlockId) : Answer.Ordinary (ws.saveNext save x) := by
  refine .bind inferInstance fun below => ?_
  split <;> infer_instance

end Saving

instance (x : BlockId) : Answer.Ordinary (ws.save x) := by
  have within : ∀ steps x, Answer.Ordinary (ws.saveWithin steps x) := by
    intro steps
    induction steps with
    | zero =>
      intro x
      unfold saveWithin
      infer_instance
    | succ steps ih =>
      intro x
      unfold saveWithin
      infer_instance
  exact within ws.walkBound x

instance (x : BlockId) (p : ConnectionId) : Answer.Ordinary (ws.onlyFit x p) := by
  unfold onlyFit fittingInputs
  refine .bind inferInstance fun found => ?_
  split <;> infer_instance

instance (c : ConnectionId) : Answer.Ordinary (ws.occupant c) := by
  refine .bind inferInstance fun child => ?_
  split <;> infer_instance

instance (x : BlockId) (p : ConnectionId) : Answer.Ordinary (ws.valueHome x p) := by
  have within : ∀ steps x, Answer.Ordinary (ws.valueHomeWithin p steps x) := by
    intro steps
    induction steps with
    | zero => exact fun _ => inferInstanceAs (Answer.Ordinary (Pure.pure none))
    | succ steps ih =>
      refine fun x => .bind inferInstance fun socket => ?_
      split
      · infer_instance
      · refine .bind inferInstance fun below => ?_
        split <;> infer_instance
  exact within ws.walkBound x

instance (x : BlockId) (p : ConnectionId) : Answer.Ordinary (ws.statementHome x p) := by
  refine .bind inferInstance fun last => ?_
  split <;> infer_instance

instance (x : BlockId) (p : ConnectionId) : Answer.Ordinary (ws.orphanHome x p) := by
  unfold orphanHome
  infer_instance

instance (x : BlockId) (b : Block α) : Answer.Ordinary (ws.rulesKeepCopy x b) := by
  refine .bind inferInstance fun above => ?_
  split <;> infer_instance

instance (x : BlockId) : Answer.Ordinary (ws.leavesCopy x) := by
  refine .bind inferInstance fun b => ?_
  split
  · infer_instance
  · split <;> infer_instance

end Workspace

/-! ### Edits -/

namespace Edit

section Basic

instance (x : BlockId) (f : Block α → Block α) : Ordinary (updateBlock x f) := by
  unfold updateBlock
  infer_instance

instance (c : ConnectionId) (f : Connection α → Connection α) : Ordinary (updateConnection c f) := by
  unfold updateConnection
  infer_instance

instance (event : Event α) : Ordinary (fire event) := by
  unfold fire
  infer_instance

instance (x : BlockId) (on : Bool) : Ordinary (setPlaceholder x on : Edit α Unit) := by
  unfold setPlaceholder
  infer_instance

instance (x : BlockId) (value : Option Bool) : Ordinary (setCopyOnDrag x value : Edit α Unit) := by
  unfold setCopyOnDrag
  infer_instance

instance (x : BlockId) (name value : String) : Ordinary (setField x name value : Edit α Unit) := by
  refine .bind inferInstance fun b => ?_
  split <;> infer_instance

instance (c : ConnectionId) : Ordinary (unlink c : Edit α Unit) := by
  refine .bind inferInstance fun link => ?_
  split <;> infer_instance

instance (r : Removal) (c : ConnectionId) : Ordinary (disposeEnd r c : Edit α Removal) := by
  refine .bind inferInstance fun child => ?_
  split <;> infer_instance

instance (inputs : List Input) : Ordinary (disposeInputs inputs : Edit α Unit) := by
  unfold disposeInputs
  infer_instance

instance (x : BlockId) (on : Bool) : Ordinary (markDragging x on : Edit α Unit) := by
  unfold markDragging
  infer_instance

end Basic

variable [Scalar α]

/-! ### Places -/

instance (p : Point α) : Ordinary (requireFinite p) := by
  unfold requireFinite
  infer_instance

instance (x : BlockId) (delta : Point α) : Ordinary (translate x delta) := by
  unfold translate
  infer_instance

instance (x : BlockId) (location : Point α) (reason : String) :
    Ordinary (moveTo x location reason) := by
  unfold moveTo
  infer_instance

instance (x : BlockId) : Ordinary (bumpAside x : Edit α Unit) := by
  unfold bumpAside moveBy
  infer_instance

instance (c : ConnectionId) : Ordinary (bringToSocket c : Edit α Unit) := by
  refine .bind inferInstance fun y => ?_
  split <;> infer_instance

instance (x : BlockId) : Ordinary (layOut x : Edit α Unit) := by
  unfold layOut
  infer_instance

/-! ### Inputs and units -/

instance (x : BlockId) (kind : ConnectionKind) (check : Option (List String)) :
    Ordinary (newConnection x kind check : Edit α ConnectionId) := by
  unfold newConnection
  infer_instance

instance (x : BlockId) (t : InputTemplate) : Ordinary (mountInput x t : Edit α Input) := by
  unfold mountInput
  split <;> infer_instance

instance (x : BlockId) (ts : List InputTemplate) : Ordinary (pushInputs x ts : Edit α Unit) := by
  unfold pushInputs
  infer_instance

instance (x : BlockId) (t : InputTemplate) : Ordinary (addInput x t : Edit α Unit) := by
  unfold addInput
  infer_instance

instance (x : BlockId) (name : String) : Ordinary (removeInput x name : Edit α Unit) := by
  refine .bind inferInstance fun b => ?_
  split <;> infer_instance

instance (x : BlockId) (length : Nat) : Ordinary (cutInputs x length : Edit α Unit) := by
  unfold cutInputs
  infer_instance

instance (x : BlockId) : Ordinary (refreshControls x : Edit α Unit) := by
  unfold refreshControls
  infer_instance

instance (x : BlockId) (kind : ContainerKind) (old new : Nat) :
    Ordinary (resizeSlots x kind old new : Edit α Unit) := by
  have cut : Ordinary (cutSlots x kind new : Edit α Unit) := by
    refine .bind inferInstance fun b => ?_
    split <;> infer_instance
  unfold resizeSlots
  infer_instance

instance (x : BlockId) (n : Nat) : Ordinary (setUnits x n : Edit α Unit) := by
  refine .bind inferInstance fun spec => .bind inferInstance fun b => ?_
  refine .bind inferInstance fun _ => .bind inferInstance fun _ => ?_
  infer_instance

instance (x : BlockId) (shape : Json) : Ordinary (fillShape x shape : Edit α Unit) := by
  unfold fillShape loadShape
  infer_instance

/-! ### New blocks -/

instance (x : BlockId) (spec : ContainerTemplate) :
    Ordinary (finishContainer x spec : Edit α Unit) := by
  unfold finishContainer initContainer registerCall
  infer_instance

instance (x : BlockId) (kind : ConnectionKind) (t : Option ConnectionTemplate) :
    Ordinary (mountEnd x kind t : Edit α (Option ConnectionId)) := by
  cases t <;> unfold mountEnd <;> infer_instance

instance (typeName : String) : Ordinary (newBlock typeName : Edit α BlockId) := by
  refine .bind inferInstance fun ws => ?_
  split
  · infer_instance
  · unfold allocateBlock
    infer_instance

instance (s p : ConnectionId) (x : BlockId) : Ordinary (join s p x : Edit α Unit) := by
  unfold join
  infer_instance

instance (c : ConnectionId) (x : BlockId) : Ordinary (hang c x : Edit α Unit) := by
  unfold hang
  infer_instance

/-! ### Snapshots -/

theorem fillInput_ordinary (template : Option Snapshot) {child : Option (Edit α BlockId)}
    (h : ∀ make, child = some make → Ordinary make) (c : ConnectionId) :
    Ordinary (fillInput template child c) := by
  refine .bind inferInstance fun _ => ?_
  cases child with
  | none => exact inferInstanceAs (Ordinary (Pure.pure ()))
  | some make =>
    have hmake := h make rfl
    exact inferInstanceAs (Ordinary (make >>= hang c))

omit [Scalar α] in
theorem fillInputs_ordinary {fillers : Fillers α} (x : BlockId)
    (h : ∀ (name : String) fill, fillers[name]? = some fill → ∀ c, Ordinary (fill c)) :
    Ordinary (fillInputs x fillers) := by
  refine .bind inferInstance fun b => .forM fun input => ?_
  split
  · next c fill _ hf => exact h input.name fill hf c
  · infer_instance

theorem fillNext_ordinary {make : Edit α BlockId} (h : Ordinary make) (x : BlockId) :
    Ordinary (fillNext x make) := by
  refine .bind inferInstance fun b => ?_
  split <;> infer_instance

theorem filler_ordinary {i : InputSnapshot Snapshot}
    (h : i.All fun s => ∀ on, Ordinary (build s on : Edit α BlockId)) (c : ConnectionId) :
    Ordinary (filler (α := α) i c) := by
  refine fillInput_ordinary _ (fun make hm => ?_) c
  obtain ⟨s, on, hs, rfl⟩ := exists_part h hm
  exact hs on

instance (s : Snapshot) (on : Bool) : Ordinary (build s on : Edit α BlockId) := by
  revert on
  induction s using Snapshot.induct with
  | step s hinputs hnext =>
    intro on
    have hfill : ∀ x, Ordinary (fillInputs x (.ofList (fillers s.inputs)) : Edit α Unit) := by
      refine fun x => fillInputs_ordinary x fun name fill hf c => ?_
      obtain ⟨i, hi, rfl⟩ := exists_filler hf
      exact filler_ordinary (hinputs i hi) c
    have hbelow : ∀ x, Ordinary ((s.next.map (build · false)).forM (fillNext x) : Edit α Unit) := by
      intro x
      cases hn : s.next with
      | none => exact inferInstanceAs (Ordinary (Pure.pure ()))
      | some n => exact fillNext_ordinary (hnext n hn false) x
    have hfields : ∀ x, Ordinary (furnish s x : Edit α BlockId) := by
      intro x
      refine .bind inferInstance fun _ => .bind inferInstance fun _ => .bind inferInstance fun _ => ?_
      unfold populate
      infer_instance
    rw [build_eq]
    refine .bind inferInstance fun x => ?_
    dsimp only
    infer_instance

instance (s : Snapshot) : Ordinary (restore s : Edit α BlockId) := by
  unfold restore
  infer_instance

instance (c : ConnectionId) : Ordinary (respawn c : Edit α (Option BlockId)) := by
  refine .bind inferInstance fun y => ?_
  split
  · infer_instance
  · split <;> infer_instance

/-! ### Links -/

instance (c : ConnectionId) : Ordinary (disconnect c : Edit α Unit) := by
  refine .bind inferInstance fun link => ?_
  split <;> infer_instance

instance (s : ConnectionId) : Ordinary (evict s : Edit α (Option Orphan)) := by
  refine .bind inferInstance fun y => ?_
  split <;> infer_instance

instance (s p : ConnectionId) (x : BlockId) : Ordinary (plugIn s p x : Edit α (Option Orphan)) := by
  unfold plugIn
  infer_instance

instance (below : BlockId) (orphan : Orphan) : Ordinary (resettle below orphan : Edit α Unit) := by
  refine .bind inferInstance fun home => ?_
  split <;> infer_instance

instance (c d : ConnectionId) : Ordinary (connect c d : Edit α Unit) := by
  refine .bind inferInstance fun fits => ?_
  split
  · refine .bind inferInstance fun y => ?_
    split
    infer_instance
  · infer_instance

instance (s : ConnectionId) (x : BlockId) : Ordinary (attach s x : Edit α Unit) := by
  unfold attach
  infer_instance

instance (next : ConnectionId) (above : Option ConnectionId) :
    Ordinary (healStack next above : Edit α Unit) := by
  refine .bind inferInstance fun y => ?_
  split <;> infer_instance

instance (x : BlockId) (heal : Bool) : Ordinary (pullOut x heal : Edit α Unit) := by
  refine .bind inferInstance fun b => ?_
  split <;> infer_instance

end Edit

/-! ### Gestures -/

namespace Act

section Basic

instance {m : Edit α β} [h : Ordinary m] : Ordinary (edit m) := by
  refine ⟨fun e refusal t he => ?_⟩
  unfold edit at he
  cases hm : m e.workspace with
  | ok a u =>
    rw [hm] at he
    cases he
  | error refusal' u =>
    rw [hm] at he
    cases he
    exact h.error _ _ _ hm

instance {q : Workspace α → Answer α β} [∀ ws, Answer.Ordinary (q ws)] : Ordinary (query q) :=
  inferInstanceAs (Ordinary (edit (Edit.query q)))

instance (r : HostRequest α) : Ordinary (request r) :=
  inferInstanceAs (Ordinary (modify _))

instance (f : DragSession α → DragSession α) : Ordinary (updateSession f) :=
  inferInstanceAs (Ordinary (modify _))

instance (s : DragSession α) : Ordinary (setSession s) :=
  inferInstanceAs (Ordinary (modify _))

instance (phase : DragPhase) : Ordinary (enter phase : Act α Unit) :=
  inferInstanceAs (Ordinary (modify _))

instance : Ordinary (takeSession : Act α (DragSession α)) := by
  have active : Ordinary (activeSession : Act α (DragSession α)) := by
    refine .bind inferInstance fun e => ?_
    split <;> infer_instance
  unfold takeSession
  infer_instance

instance (x : BlockId) (heal : Bool) : Ordinary (hasToDetach x heal : Act α Bool) := by
  unfold hasToDetach
  infer_instance

end Basic

variable [Scalar α]

instance : Ordinary (ensureGroup : Act α Unit) :=
  inferInstanceAs (Ordinary (edit (modify _)))

instance : Ordinary (finishGesture : Act α Unit) := by
  unfold finishGesture
  infer_instance

instance (x : BlockId) : Ordinary (clearVisuals x : Act α Unit) := by
  have shown : Ordinary (tryCatch (edit (Edit.markDragging x false)) fun _ => pure () : Act α Unit) :=
    .tryCatch fun _ _ _ _ => inferInstance
  unfold clearVisuals
  infer_instance

instance (s : DragSession α) : Ordinary (Edit.rollBack s) := by
  have back : Ordinary (tryCatch (Edit.putBack s) fun _ => pure ()) :=
    .tryCatch fun _ _ _ _ => inferInstance
  unfold Edit.rollBack Edit.forgetTemplate
  infer_instance

instance (x : BlockId) : Ordinary (abandon x : Act α Unit) := by
  unfold abandon
  infer_instance

instance (b : Block α) : Ordinary (valueSocket b) := by
  unfold valueSocket
  split <;> infer_instance

instance (b : Block α) : Ordinary (plugBelow b) := by
  unfold plugBelow
  split <;> infer_instance

instance (x : BlockId) (socket : Option ConnectionId) : Ordinary (makeReal x socket : Act α Unit) := by
  unfold makeReal
  infer_instance

instance (x : BlockId) (socket : ConnectionId) (snapshot : Snapshot) :
    Ordinary (leaveCopy x socket snapshot : Act α Unit) := by
  unfold leaveCopy
  infer_instance

instance (x : BlockId) (heal : Bool) (copied : Option ConnectionId) :
    Ordinary (withdraw x heal copied : Act α Unit) := by
  unfold withdraw
  cases copied <;> infer_instance

instance (x : BlockId) (heal : Bool) : Ordinary (detach x heal : Act α Unit) := by
  rw [detach_steps]
  refine .bind inferInstance fun keeps => .bind inferInstance fun b => ?_
  refine .bind inferInstance fun _ => .bind inferInstance fun socket => ?_
  infer_instance

instance (s : DragSession α) (heal : Bool) : Ordinary (loosen s heal) := by
  have hdetach : Ordinary (detach s.block heal : Act α Unit) := inferInstance
  have tried : Ordinary (tryCatch (detach s.block heal) fun refusal => do
      abandon s.block
      throw refusal : Act α Unit) := by
    refine .tryCatch fun e refusal t he => ?_
    have hrefusal := hdetach.error e refusal t he
    exact .bind inferInstance fun _ => inferInstance
  unfold loosen
  exact .bind inferInstance fun on => inferInstance

end Act

end BlockEditor
