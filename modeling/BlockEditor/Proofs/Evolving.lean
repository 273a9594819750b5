import BlockEditor.Proofs.Along
import BlockEditor.Proofs.Detaching
import BlockEditor.Proofs.Palette
import BlockEditor.Proofs.Runs
import BlockEditor.Proofs.Snapshot

/-!
# What no step of the editor touches

A workspace keeps its registry, a block keeps its type and what kind of container it is, and tasks
are only queued by a drop, run by the host or queued by it. That follows from the way in which steps
are put together, whatever the workspace holds and whether a step is refused or not. So the rules
are about any relation that is not concerned with what steps can change, and each such relation has
only to say what it is not concerned with.
-/

namespace BlockEditor

variable {α β γ : Type}

/-! ### What stays -/

namespace Registry

/-- Each definition is found under its own type. -/
def Keyed (r : Registry) : Prop :=
  ∀ typeName d, r.get? typeName = some d → d.typeName = typeName

/-- What kind of container blocks of a type are. -/
def kind? (r : Registry) (typeName : String) : Option ContainerKind :=
  ((r.get? typeName).bind (·.container)).map (·.kind)

theorem keyed_registerAll (ds : List BlockDefinition) : (empty.registerAll ds).Keyed := by
  intro typeName d hd
  rcases mem_of_registerAll ds hd with ⟨-, h⟩ | h
  · exact h
  · change (∅ : Std.ExtTreeMap String BlockDefinition)[typeName]? = some d at h
    rw [Std.ExtTreeMap.getElem?_empty] at h
    cases h

end Registry

namespace Workspace

/-- Every block is the kind of container that its type says, or none. -/
def Typed (ws : Workspace α) : Prop :=
  ∀ (x : BlockId) (b : Block α), ws.blocks[x]? = some b →
    b.container = ws.registry.kind? b.typeName

/-- The registry is the same, and blocks have stayed what they were. -/
structure Endures (ws ws' : Workspace α) : Prop where
  registry : ws'.registry = ws.registry
  typed : ws.registry.Keyed → ws.Typed → ws'.Typed

/-- And no task was queued or taken. -/
structure Evolves (ws ws' : Workspace α) : Prop extends ws.Endures ws' where
  tasks : ws'.tasks = ws.tasks

theorem Endures.rfl {ws : Workspace α} : ws.Endures ws :=
  ⟨.refl _, fun _ h => h⟩

theorem Endures.trans {ws ws' ws'' : Workspace α} (h : ws.Endures ws') (h' : ws'.Endures ws'') :
    ws.Endures ws'' := by
  refine ⟨h'.registry.trans h.registry, fun hkeyed htyped => ?_⟩
  rw [← h.registry] at hkeyed
  exact h'.typed hkeyed (h.typed (h.registry ▸ hkeyed) htyped)

/-- Blocks go or change in some other way than their type. -/
theorem Endures.of_blocks {ws ws' : Workspace α} (hregistry : ws'.registry = ws.registry)
    (hblocks : ∀ (x : BlockId) (b : Block α), ws'.blocks[x]? = some b →
      ∃ c : Block α, ws.blocks[x]? = some c ∧ c.typeName = b.typeName ∧ c.container = b.container) :
    ws.Endures ws' := by
  refine ⟨hregistry, fun _ htyped x b hb => ?_⟩
  obtain ⟨c, hc, htype, hkind⟩ := hblocks x b hb
  rw [hregistry, ← hkind, ← htype]
  exact htyped x c hc

theorem Endures.of_same {ws ws' : Workspace α} (hregistry : ws'.registry = ws.registry)
    (hblocks : ws'.blocks = ws.blocks) : ws.Endures ws' :=
  .of_blocks hregistry fun _ b hb => ⟨b, hblocks ▸ hb, .refl _, .refl _⟩

theorem Evolves.rfl {ws : Workspace α} : ws.Evolves ws :=
  ⟨.rfl, .refl _⟩

theorem Evolves.trans {ws ws' ws'' : Workspace α} (h : ws.Evolves ws') (h' : ws'.Evolves ws'') :
    ws.Evolves ws'' :=
  ⟨h.toEndures.trans h'.toEndures, h'.tasks.trans h.tasks⟩

instance : IsPreorder (Workspace α) Endures where
  refl _ := .rfl
  trans _ _ _ := .trans

instance : IsPreorder (Workspace α) Evolves where
  refl _ := .rfl
  trans _ _ _ := .trans

/-- No block is new, and a block that stays keeps its type, what kind of container it is, and
whether it is shown as dragged. -/
def OnlyAlters (ws ws' : Workspace α) : Prop :=
  ∀ (x : BlockId) (b : Block α), ws'.blocks[x]? = some b → ∃ c : Block α, ws.blocks[x]? = some c ∧
    c.typeName = b.typeName ∧ c.container = b.container ∧ c.dragging = b.dragging

theorem OnlyAlters.of_same {ws ws' : Workspace α} (h : ws'.blocks = ws.blocks) :
    ws.OnlyAlters ws' :=
  fun _ b hb => ⟨b, h ▸ hb, .refl _, .refl _, .refl _⟩

/-- The relation is not concerned with anything that a step on blocks that there are can change. -/
class Lenient (R : Workspace α → Workspace α → Prop) : Prop extends IsPreorder (Workspace α) R where
  alters : ∀ {ws ws'}, ws'.registry = ws.registry → ws'.tasks = ws.tasks →
    ws.ids.blocks ≤ ws'.ids.blocks → ws.OnlyAlters ws' → R ws ws'

/-- Nor with blocks that are made after their definition and get a new number. -/
class AdmitsNew (R : Workspace α → Workspace α → Prop) : Prop extends Lenient R where
  created : ∀ {ws ws' : Workspace α} {typeName : String} {d : BlockDefinition} {b : Block α}
    {top : List BlockId}, R ws ws' → ws.ids.blocks < ws'.ids.blocks →
    ws.registry.get? typeName = some d → b.typeName = d.typeName →
    b.container = d.container.map (·.kind) → b.dragging = false →
    R ws { ws' with blocks := ws'.blocks.insert ws.ids.nextBlock.1 b, top := top }

/-- The relation is not concerned with which blocks are shown as dragged. -/
class IgnoresFlags (R : Workspace α → Workspace α → Prop) : Prop
    extends IsPreorder (Workspace α) R where
  flags : ∀ {ws : Workspace α} {x : BlockId} {b : Block α} {on : Bool}, ws.blocks[x]? = some b →
    R ws { ws with blocks := ws.blocks.insert x { b with dragging := on } }

/-- The relation is not concerned with what waits. -/
class IgnoresTasks (R : Workspace α → Workspace α → Prop) : Prop
    extends IsPreorder (Workspace α) R where
  tasks : ∀ ws tasks, R ws { ws with tasks := tasks }

theorem Lenient.of_same {R : Workspace α → Workspace α → Prop} [Lenient R] {ws ws' : Workspace α}
    (hregistry : ws'.registry = ws.registry) (htasks : ws'.tasks = ws.tasks)
    (hids : ws.ids.blocks ≤ ws'.ids.blocks) (hblocks : ws'.blocks = ws.blocks) : R ws ws' :=
  alters hregistry htasks hids (.of_same hblocks)

instance : Lenient (Endures (α := α)) where
  alters hregistry _ _ h := .of_blocks hregistry fun x b hb => by
    obtain ⟨c, hc, htype, hkind, -⟩ := h x b hb
    exact ⟨c, hc, htype, hkind⟩

instance : IgnoresFlags (Endures (α := α)) where
  flags {ws x b on} hb := .of_blocks rfl fun y b' hb' => by
    change (ws.blocks.insert x { b with dragging := on })[y]? = some b' at hb'
    rw [Std.ExtTreeMap.getElem?_insert] at hb'
    split at hb'
    next hy =>
      rw [Std.LawfulEqCmp.compare_eq_iff_eq] at hy
      cases hy
      cases hb'
      exact ⟨b, hb, rfl, rfl⟩
    next => exact ⟨b', hb', rfl, rfl⟩

instance : IgnoresTasks (Endures (α := α)) where
  tasks _ _ := .of_same rfl rfl

/-- A block that is made after its definition is what its type says. -/
instance : AdmitsNew (Endures (α := α)) where
  created {ws ws' typeName d b top} h _ hd htype hkind _ := by
    refine ⟨h.registry, fun hkeyed htyped y c hc => ?_⟩
    change (ws'.blocks.insert ws.ids.nextBlock.1 b)[y]? = some c at hc
    rw [Std.ExtTreeMap.getElem?_insert] at hc
    split at hc
    · cases hc
      change b.container = ws'.registry.kind? b.typeName
      rw [h.registry, htype, hkeyed _ _ hd, Registry.kind?, hd, hkind]
      rfl
    · exact h.typed hkeyed htyped y c hc

instance : Lenient (Evolves (α := α)) where
  alters hregistry htasks hids h := ⟨Lenient.alters hregistry htasks hids h, htasks⟩

instance : IgnoresFlags (Evolves (α := α)) where
  flags hb := ⟨IgnoresFlags.flags hb, rfl⟩

instance : AdmitsNew (Evolves (α := α)) where
  created h hnew hd htype hkind hflag :=
    ⟨AdmitsNew.created h.toEndures hnew hd htype hkind hflag, h.tasks⟩

/-! ### Removals -/

section Removals

variable {R : Workspace α → Workspace α → Prop} [Lenient R]

theorem takeOutOne_lenient (state : Workspace α × Removal) (x : BlockId) :
    R state.1 (takeOutOne state x).1 := by
  obtain ⟨ws, r⟩ := state
  unfold takeOutOne
  dsimp only
  split
  · exact refl_of R ws
  · refine Lenient.alters rfl rfl le_rfl fun y b hb => ⟨b, ?_, rfl, rfl, rfl⟩
    dsimp only at hb
    rw [Std.ExtTreeMap.getElem?_erase] at hb
    split at hb
    · cases hb
    · exact hb

theorem takeOutWithin_lenient (steps : Nat) (state : Workspace α × Removal) (x : BlockId) :
    R state.1 (takeOutWithin steps state x).1 := by
  induction steps generalizing state x with
  | zero => exact refl_of R state.1
  | succ steps ih =>
    have hall : ∀ (l : List BlockId) (state : Workspace α × Removal),
        R state.1 (l.foldl (takeOutWithin steps) state).1 := by
      intro l
      induction l with
      | nil => exact fun state => refl_of R state.1
      | cons y rest hrest => exact fun state => trans_of R (ih state y) (hrest _)
    rw [takeOutWithin]
    split
    · exact trans_of R (hall _ state) (takeOutOne_lenient _ x)
    · exact refl_of R state.1

theorem sweep_lenient (ws : Workspace α) (r : Removal) : R ws (ws.sweep r) :=
  Lenient.of_same rfl rfl le_rfl rfl

theorem removeTree_lenient (ws : Workspace α) (x : BlockId) : R ws (ws.removeTree x) :=
  trans_of R (takeOutWithin_lenient ws.walkBound (ws, Removal.empty) x) (sweep_lenient _ _)

end Removals

end Workspace

/-- The change leaves the type of a block, what kind of container it is and whether it is shown as
dragged. -/
class Block.KeepsType (f : Block α → Block α) : Prop where
  typeName : ∀ b, (f b).typeName = b.typeName
  container : ∀ b, (f b).container = b.container
  dragging : ∀ b, (f b).dragging = b.dragging

instance (units : Block α → Nat) (inputs : Block α → List Input)
    (output previous next : Block α → Option ConnectionId)
    (placeholder movable inFlyout : Block α → Bool) (position : Block α → Point α)
    (copyOnDrag : Block α → Option Bool) :
    Block.KeepsType fun b => ⟨b.typeName, b.container, units b, inputs b, output b, previous b,
      next b, placeholder b, movable b, inFlyout b, b.dragging, position b, copyOnDrag b⟩ :=
  ⟨fun _ => rfl, fun _ => rfl, fun _ => rfl⟩

/-! ### Edits -/

namespace Along

/-- A question, and what is done if it is answered. -/
theorem ask {R : Workspace α → Workspace α → Prop} [IsPreorder (Workspace α) R]
    {q : Workspace α → Answer α β}
    {f : β → Edit α γ} (h : ∀ ws a, q ws = .ok a → R ws (ended (f a ws))) :
    Along R (Edit.query q >>= f) := by
  constructor
  intro ws
  cases hq : q ws with
  | ok a =>
    rw [bind_eq (Edit.query_eq hq)]
    exact h ws a hq
  | error e =>
    have hask : Edit.query q ws = .error e ws := by simp only [Edit.query, hq]
    rw [bind_error hask]
    exact refl_of R ws

end Along

namespace Edit

open Workspace

section Basic

variable {R : Workspace α → Workspace α → Prop}

instance [IsPreorder (Workspace α) R] {q : Workspace α → Answer α β} : Along R (query q) := by
  constructor
  intro ws
  unfold query
  cases q ws <;> exact refl_of R ws

variable [Lenient R]

instance (config : Workspace α → EditorConfig α)
    (connections : Workspace α → Std.ExtTreeMap ConnectionId (Connection α))
    (top : Workspace α → List BlockId) (procedures : Workspace α → Procedures)
    (viewport : Workspace α → Option (Rect α)) (events : Workspace α → EventLog α) :
    Along R (modify fun ws => ⟨config ws, ws.registry, ws.ids, ws.blocks, connections ws,
      top ws, procedures ws, viewport ws, events ws, ws.tasks⟩ : Edit α Unit) :=
  .modify fun _ => Lenient.of_same rfl rfl le_rfl rfl

instance (r : Removal) : Along R (modify (·.sweep r) : Edit α Unit) :=
  .modify fun ws => ws.sweep_lenient r

instance (x : BlockId) : Along R (modify (·.removeTree x) : Edit α Unit) :=
  .modify fun ws => ws.removeTree_lenient x

instance (x : BlockId) (f : Block α → Block α) [hf : Block.KeepsType f] :
    Along R (updateBlock x f) := by
  refine .ask fun ws b hb => Lenient.alters rfl rfl le_rfl fun y b' hb' => ?_
  rw [Workspace.block_eq_ok] at hb
  change (ws.blocks.insert x (f b))[y]? = some b' at hb'
  rw [Std.ExtTreeMap.getElem?_insert] at hb'
  split at hb'
  next hy =>
    rw [Std.LawfulEqCmp.compare_eq_iff_eq] at hy
    cases hy
    cases hb'
    exact ⟨b, hb, (hf.typeName b).symm, (hf.container b).symm, (hf.dragging b).symm⟩
  next => exact ⟨b', hb', rfl, rfl, rfl⟩

instance (c : ConnectionId) (f : Connection α → Connection α) :
    Along R (updateConnection c f) := by
  unfold updateConnection
  infer_instance

instance (event : Event α) : Along R (fire event) := by
  unfold fire
  infer_instance

instance (x : BlockId) (on : Bool) : Along R (setPlaceholder x on : Edit α Unit) := by
  unfold setPlaceholder
  infer_instance

instance (x : BlockId) (on : Bool) : Along R (setMovable x on : Edit α Unit) := by
  unfold setMovable
  infer_instance

instance (x : BlockId) (on : Bool) : Along R (setInFlyout x on : Edit α Unit) := by
  unfold setInFlyout
  infer_instance

instance (x : BlockId) (value : Option Bool) :
    Along R (setCopyOnDrag x value : Edit α Unit) := by
  unfold setCopyOnDrag
  infer_instance

instance (viewport : Option (Rect α)) : Along R (setViewport viewport) := by
  unfold setViewport
  infer_instance

instance (x : BlockId) (name value : String) :
    Along R (setField x name value : Edit α Unit) := by
  refine .bind inferInstance fun b => ?_
  split <;> infer_instance

instance (c : ConnectionId) : Along R (unlink c : Edit α Unit) := by
  refine .bind inferInstance fun link => ?_
  split <;> infer_instance

instance (r : Removal) (c : ConnectionId) : Along R (disposeEnd r c : Edit α Removal) := by
  refine .bind inferInstance fun child => ?_
  cases child with
  | none => infer_instance
  | some child =>
    refine .bind inferInstance fun _ => ⟨fun ws => ?_⟩
    exact Workspace.takeOutWithin_lenient ws.walkBound (ws, r) child

instance (inputs : List Input) : Along R (disposeInputs inputs : Edit α Unit) := by
  unfold disposeInputs
  infer_instance

end Basic

instance {R : Workspace α → Workspace α → Prop} [IgnoresFlags R] (x : BlockId) (on : Bool) :
    Along R (markDragging x on : Edit α Unit) := by
  have mark : ∀ y, Along R (updateBlock y fun b => { b with dragging := on }) := fun y =>
    .ask fun _ _ hb => IgnoresFlags.flags (Workspace.block_eq_ok.mp hb)
  unfold markDragging
  infer_instance

section Lenient

variable [Scalar α] {R : Workspace α → Workspace α → Prop} [Lenient R]

/-! ### Places -/

instance (p : Point α) : Along R (requireFinite p) := by
  unfold requireFinite
  infer_instance

instance (x : BlockId) (delta : Point α) : Along R (translate x delta) := by
  unfold translate
  infer_instance

instance (x : BlockId) (location : Point α) (reason : String) :
    Along R (moveTo x location reason) := by
  unfold moveTo
  infer_instance

instance (x : BlockId) (delta : Point α) (reason : String) :
    Along R (moveBy x delta reason) := by
  unfold moveBy
  infer_instance

instance (x : BlockId) : Along R (bumpAside x : Edit α Unit) := by
  unfold bumpAside
  infer_instance

instance (c : ConnectionId) : Along R (bringToSocket c : Edit α Unit) := by
  refine .bind inferInstance fun y => ?_
  split <;> infer_instance

instance (places : List (ConnectionId × Point α)) :
    Along R (modify (·.place places) : Edit α Unit) :=
  .modify fun _ => Lenient.of_same rfl rfl le_rfl rfl

instance (x : BlockId) : Along R (layOut x : Edit α Unit) := by
  unfold layOut
  infer_instance

instance (x : BlockId) : Along R (moveToGrid x : Edit α Bool) := by
  refine .bind inferInstance fun ws => ?_
  split <;> infer_instance

instance (x : BlockId) : Along R (keepInView x : Edit α Bool) := by
  refine .bind inferInstance fun ws => ?_
  split <;> infer_instance

/-! ### Inputs and units -/

instance (x : BlockId) (kind : ConnectionKind) (check : Option (List String)) :
    Along R (newConnection x kind check : Edit α ConnectionId) :=
  ⟨fun _ => Lenient.of_same rfl rfl le_rfl rfl⟩

instance (x : BlockId) (t : InputTemplate) : Along R (mountInput x t : Edit α Input) := by
  unfold mountInput
  split <;> infer_instance

instance (x : BlockId) (ts : List InputTemplate) :
    Along R (pushInputs x ts : Edit α Unit) := by
  unfold pushInputs
  infer_instance

instance (x : BlockId) (t : InputTemplate) : Along R (addInput x t : Edit α Unit) := by
  unfold addInput
  infer_instance

instance (x : BlockId) (name : String) : Along R (removeInput x name : Edit α Unit) := by
  refine .bind inferInstance fun b => ?_
  split <;> infer_instance

instance (x : BlockId) (length : Nat) : Along R (cutInputs x length : Edit α Unit) := by
  unfold cutInputs
  infer_instance

instance (x : BlockId) : Along R (refreshControls x : Edit α Unit) := by
  unfold refreshControls
  infer_instance

instance (x : BlockId) (kind : ContainerKind) (old new : Nat) :
    Along R (resizeSlots x kind old new : Edit α Unit) := by
  have cut : Along R (cutSlots x kind new : Edit α Unit) := by
    refine .bind inferInstance fun b => ?_
    split <;> infer_instance
  unfold resizeSlots
  infer_instance

instance (x : BlockId) (n : Nat) : Along R (setUnits x n : Edit α Unit) := by
  refine .bind inferInstance fun spec => .bind inferInstance fun b => ?_
  refine .bind inferInstance fun _ => .bind inferInstance fun _ => ?_
  infer_instance

instance (x : BlockId) (spec : ContainerTemplate) :
    Along R (initContainer x spec : Edit α Unit) := by
  unfold initContainer
  infer_instance

instance (x : BlockId) (shape : Json) : Along R (loadShape x shape : Edit α Nat) := by
  unfold loadShape
  infer_instance

instance (x : BlockId) (shape : Json) : Along R (fillShape x shape : Edit α Unit) := by
  unfold fillShape
  infer_instance

/-! ### New blocks -/

omit [Scalar α] in
instance : Along R (allocateBlock : Edit α BlockId) :=
  ⟨fun _ => Lenient.of_same rfl rfl (Nat.le_succ _) rfl⟩

instance (x : BlockId) (kind : ConnectionKind) (t : Option ConnectionTemplate) :
    Along R (mountEnd x kind t : Edit α (Option ConnectionId)) := by
  cases t <;> unfold mountEnd <;> infer_instance

instance (x : BlockId) (spec : ContainerTemplate) :
    Along R (finishContainer x spec : Edit α Unit) := by
  unfold finishContainer registerCall
  infer_instance

end Lenient

section New

variable {R : Workspace α → Workspace α → Prop} [AdmitsNew R]

/-- What follows on a workspace in which a number was given away still follows on it. -/
def Since (R : Workspace α → Workspace α → Prop) (start ws ws' : Workspace α) : Prop :=
  start.ids.blocks < ws.ids.blocks ∧ R start ws → start.ids.blocks < ws'.ids.blocks ∧ R start ws'

instance (start : Workspace α) : Lenient (Since R start) where
  refl _ := id
  trans _ _ _ h h' := h' ∘ h
  alters hregistry htasks hids h hstart :=
    ⟨hstart.1.trans_le hids, trans_of R hstart.2 (Lenient.alters hregistry htasks hids h)⟩

variable [Scalar α]

instance (typeName : String) : Along R (newBlock typeName : Edit α BlockId) := by
  refine .get_bind fun ws => ?_
  cases hd : ws.registry.get? typeName with
  | none => exact refl_of R ws
  | some d =>
    have made : ∀ {b : Block α}, b.typeName = d.typeName → b.container = d.container.map (·.kind) →
        b.dragging = false → Along (Since R ws) (modify fun ws' => { ws' with
          blocks := ws'.blocks.insert ws.ids.nextBlock.1 b
          top := ws'.top ++ [ws.ids.nextBlock.1] } : Edit α Unit) :=
      fun htype hkind hflag => .modify fun ws' h =>
        ⟨h.1, AdmitsNew.created h.2 h.1 hd htype hkind hflag⟩
    have allocated : (allocateBlock : Edit α BlockId) ws =
        .ok ws.ids.nextBlock.1 { ws with ids := ws.ids.nextBlock.2 } := rfl
    dsimp only
    rw [bind_eq allocated]
    refine ((?_ : Along (Since R ws) _).along { ws with ids := ws.ids.nextBlock.2 } ?_).2
    · refine .bind inferInstance fun output => .bind inferInstance fun previous => ?_
      refine .bind inferInstance fun next => ?_
      exact .bind (made rfl rfl rfl) fun _ => inferInstance
    · exact ⟨Nat.lt_succ_self _, Lenient.of_same rfl rfl (Nat.le_succ _) rfl⟩

instance (typeName : String) : Along R (newPlaceholder typeName : Edit α BlockId) := by
  unfold newPlaceholder
  infer_instance

instance (s p : ConnectionId) (x : BlockId) : Along R (join s p x : Edit α Unit) := by
  unfold join
  infer_instance

instance (c : ConnectionId) (x : BlockId) : Along R (hang c x : Edit α Unit) := by
  unfold hang
  infer_instance

/-! ### Snapshots -/

theorem fillInput_along (template : Option Snapshot) {child : Option (Edit α BlockId)}
    (h : ∀ make, child = some make → Along R make) (c : ConnectionId) :
    Along R (fillInput template child c) := by
  refine .bind inferInstance fun _ => ?_
  cases child with
  | none => exact inferInstanceAs (Along R (Pure.pure ()))
  | some make =>
    have hmake := h make rfl
    exact inferInstanceAs (Along R (make >>= hang c))

omit [Scalar α] in
theorem fillInputs_along {fillers : Fillers α} (x : BlockId)
    (h : ∀ (name : String) fill, fillers[name]? = some fill → ∀ c, Along R (fill c)) :
    Along R (fillInputs x fillers) := by
  refine .bind inferInstance fun b => .forM fun input => ?_
  split
  · next c fill _ hf => exact h input.name fill hf c
  · infer_instance

theorem fillNext_along {make : Edit α BlockId} (h : Along R make) (x : BlockId) :
    Along R (fillNext x make) := by
  refine .bind inferInstance fun b => ?_
  split <;> infer_instance

theorem filler_along {i : InputSnapshot Snapshot}
    (h : i.All fun s => ∀ on, Along R (build s on : Edit α BlockId)) (c : ConnectionId) :
    Along R (filler (α := α) i c) := by
  refine fillInput_along _ (fun make hm => ?_) c
  obtain ⟨s, on, hs, rfl⟩ := exists_part h hm
  exact hs on

instance (s : Snapshot) (on : Bool) : Along R (build s on : Edit α BlockId) := by
  induction s using Snapshot.induct generalizing on with
  | step s hinputs hnext =>
    have hfill : ∀ x, Along R (fillInputs x (.ofList (fillers s.inputs)) : Edit α Unit) := by
      refine fun x => fillInputs_along x fun name fill hf c => ?_
      obtain ⟨i, hi, rfl⟩ := exists_filler hf
      exact filler_along (hinputs i hi) c
    have hbelow : ∀ x, Along R
        ((s.next.map (build · false)).forM (fillNext x) : Edit α Unit) := by
      intro x
      cases hn : s.next with
      | none => exact inferInstanceAs (Along R (Pure.pure ()))
      | some n => exact fillNext_along (hnext n hn false) x
    have hfields : ∀ x, Along R (furnish s x : Edit α BlockId) := by
      intro x
      refine .bind inferInstance fun _ => .bind inferInstance fun _ => ?_
      refine .bind inferInstance fun _ => ?_
      unfold populate
      infer_instance
    rw [build_eq]
    refine .bind inferInstance fun x => ?_
    dsimp only
    infer_instance

instance (s : Snapshot) : Along R (restore s : Edit α BlockId) := by
  unfold restore
  infer_instance

instance (c : ConnectionId) : Along R (respawn c : Edit α (Option BlockId)) := by
  refine .bind inferInstance fun y => ?_
  split
  · infer_instance
  · split <;> infer_instance

/-! ### Links -/

instance (c : ConnectionId) : Along R (disconnect c : Edit α Unit) := by
  refine .bind inferInstance fun link => ?_
  split <;> infer_instance

instance (s : ConnectionId) : Along R (evict s : Edit α (Option Orphan)) := by
  refine .bind inferInstance fun y => ?_
  split <;> infer_instance

instance (s p : ConnectionId) (x : BlockId) :
    Along R (plugIn s p x : Edit α (Option Orphan)) := by
  unfold plugIn
  infer_instance

instance (below : BlockId) (orphan : Orphan) :
    Along R (resettle below orphan : Edit α Unit) := by
  refine .bind inferInstance fun home => ?_
  split <;> infer_instance

instance (c d : ConnectionId) : Along R (connect c d : Edit α Unit) := by
  refine .bind inferInstance fun fits => ?_
  split
  · refine .bind inferInstance fun y => ?_
    split
    infer_instance
  · infer_instance

instance (s : ConnectionId) (x : BlockId) : Along R (attach s x : Edit α Unit) := by
  unfold attach
  infer_instance

instance (next : ConnectionId) (above : Option ConnectionId) :
    Along R (healStack next above : Edit α Unit) := by
  refine .bind inferInstance fun y => ?_
  split
  · infer_instance
  · refine .bind inferInstance fun p => .bind inferInstance fun b => ?_
    split <;> infer_instance

instance (x : BlockId) (heal : Bool) : Along R (pullOut x heal : Edit α Unit) := by
  refine .bind inferInstance fun b => ?_
  split <;> infer_instance

instance (x : BlockId) : Along R (dispose x : Edit α Unit) := by
  unfold dispose
  infer_instance

instance (c : ConnectionId) (template : Option Snapshot) :
    Along R (setTemplate c template : Edit α (Option BlockId)) := by
  unfold setTemplate
  infer_instance

/-! ### Controls -/

instance (x : BlockId) (control : Control) : Along R (press x control : Edit α Unit) := by
  have add : ∀ kind units, Along R (pressAdd x kind units : Edit α Unit) := by
    intro kind units
    unfold pressAdd fillUnit
    infer_instance
  refine .bind inferInstance fun kind => .bind inferInstance fun shown => ?_
  split
  · refine .bind inferInstance fun b => ?_
    cases control <;> dsimp only <;> infer_instance
  · infer_instance

/-! ### Undoing a drag -/

instance (s : DragSession α) : Along R (putBack s) := by
  have copy : ∀ x, Along R (discardCopy x : Edit α Unit) := by
    intro x
    unfold discardCopy
    infer_instance
  have stack : ∀ x c, Along R (takeBackStack x c : Edit α Unit) := by
    refine fun x c => .bind inferInstance fun b => ?_
    split <;> infer_instance
  have former : Along R (formerPlace s) := by
    refine .bind inferInstance fun ws => ?_
    split
    · infer_instance
    · split <;> infer_instance
  have place : Along R (takePlace s) := by
    refine .bind inferInstance fun found => ?_
    split <;> infer_instance
  refine .bind inferInstance fun _ => .bind inferInstance fun _ => .bind inferInstance fun _ => ?_
  infer_instance

instance (s : DragSession α) : Along R (rollBack s) := by
  unfold rollBack forgetTemplate
  infer_instance

end New

end Edit

/-! ### Gestures -/

namespace Editor

/-- The workspaces are related, whatever becomes of the rest. -/
def Between (R : Workspace α → Workspace α → Prop) (e e' : Editor α) : Prop :=
  R e.workspace e'.workspace

instance (R : Workspace α → Workspace α → Prop) [IsPreorder (Workspace α) R] :
    IsPreorder (Editor α) (Between R) where
  refl e := refl_of R e.workspace
  trans _ _ _ h h' := trans_of R h h'

abbrev Evolves : Editor α → Editor α → Prop :=
  Between Workspace.Evolves

abbrev Endures : Editor α → Editor α → Prop :=
  Between Workspace.Endures

end Editor

namespace Act

open Editor Workspace

section Basic

variable {R : Workspace α → Workspace α → Prop} [IsPreorder (Workspace α) R]

instance {m : Edit α β} [h : Along R m] :
    Along (Between R) (edit m) := by
  constructor
  intro e
  unfold edit
  cases hm : m e.workspace with
  | ok a ws => exact h.ok hm
  | error refusal ws => exact h.error hm

instance {q : Workspace α → Answer α β} : Along (Between R) (query q) :=
  inferInstanceAs (Along (Between R) (edit (Edit.query q)))

instance (session : Editor α → Option (DragSession α)) (requests : Editor α → List (HostRequest α))
    (phase : Editor α → DragPhase) : Along (Between R)
      (modify fun e => ⟨e.workspace, session e, requests e, phase e⟩ : Act α Unit) :=
  .modify fun e => refl_of R e.workspace

instance (r : HostRequest α) : Along (Between R) (request r) := by
  unfold request
  infer_instance

instance (f : DragSession α → DragSession α) : Along (Between R) (updateSession f) := by
  unfold updateSession
  infer_instance

instance (s : DragSession α) : Along (Between R) (setSession s) := by
  unfold setSession
  infer_instance

instance (phase : DragPhase) : Along (Between R) (enter phase : Act α Unit) := by
  unfold enter
  infer_instance

instance : Along (Between R) (activeSession : Act α (DragSession α)) := by
  refine .bind inferInstance fun e => ?_
  split <;> infer_instance

instance : Along (Between R) (takeSession : Act α (DragSession α)) := by
  unfold takeSession
  infer_instance

instance : Along (Between R) (requireIdle : Act α Unit) := by
  refine .bind inferInstance fun e => ?_
  split <;> infer_instance

instance (x : BlockId) (heal : Bool) : Along (Between R) (hasToDetach x heal : Act α Bool) := by
  unfold hasToDetach
  infer_instance

instance (x : BlockId) (c : Candidate α) : Along (Between R) (preview x c) := by
  refine .bind inferInstance fun found => ?_
  split <;> infer_instance

instance (b : Block α) : Along (Between R) (valueSocket b) := by
  unfold valueSocket
  split <;> infer_instance

instance (b : Block α) : Along (Between R) (plugBelow b) := by
  unfold plugBelow
  split <;> infer_instance

instance {step : Act α β} {last : Act α Unit} [Along (Between R) step] [Along (Between R) last] :
    Along (Between R) (followedBy step last) := by
  unfold followedBy
  infer_instance

end Basic

section Tasks

variable {R : Workspace α → Workspace α → Prop} [IgnoresTasks R]

instance (f : Workspace α → TaskQueue) :
    Along (Between R) (edit (modify fun ws => { ws with tasks := f ws }) : Act α Unit) :=
  ⟨fun e => IgnoresTasks.tasks e.workspace _⟩

instance (f : TaskQueue → TaskQueue) : Along (Between R) (updateTasks f : Act α Unit) := by
  unfold updateTasks
  infer_instance

instance (task : DeferredTask) : Along (Between R) (runTask task : Act α Bool) := by
  refine .bind inferInstance fun e => ?_
  cases task <;> dsimp only <;> infer_instance

instance : Along (Between R) (runAfterLayout : Act α Nat) := by
  unfold runAfterLayout runTasks
  infer_instance

instance : Along (Between R) (runNextTurn : Act α Nat) := by
  unfold runNextTurn runTasks
  infer_instance

end Tasks

instance [Scalar α] {R : Workspace α → Workspace α → Prop} [IgnoresFlags R] (x : BlockId) :
    Along (Between R) (clearVisuals x : Act α Unit) := by
  refine .bind inferInstance fun e => .optional inferInstance fun _ => ?_
  infer_instance

variable [Scalar α] {R : Workspace α → Workspace α → Prop} [AdmitsNew R]

instance : Along (Between R) (ensureGroup : Act α Unit) := by
  unfold ensureGroup
  infer_instance

instance : Along (Between R) (finishGesture : Act α Unit) := by
  unfold finishGesture
  infer_instance

instance : Along (Between R) (closeGesture : Act α Unit) := by
  unfold closeGesture
  infer_instance

instance (x : BlockId) (socket : Option ConnectionId) :
    Along (Between R) (makeReal x socket : Act α Unit) := by
  unfold makeReal
  infer_instance

instance (x : BlockId) (socket : ConnectionId) (snapshot : Snapshot) :
    Along (Between R) (leaveCopy x socket snapshot : Act α Unit) := by
  unfold leaveCopy
  infer_instance

instance (x : BlockId) (heal : Bool) (copied : Option ConnectionId) :
    Along (Between R) (withdraw x heal copied : Act α Unit) := by
  unfold withdraw
  cases copied <;> infer_instance

instance (x : BlockId) (heal : Bool) : Along (Between R) (detach x heal : Act α Unit) := by
  rw [detach_steps]
  refine .bind inferInstance fun keeps => .bind inferInstance fun b => ?_
  refine .bind inferInstance fun _ => .bind inferInstance fun socket => ?_
  infer_instance

instance (held : Option (Candidate α)) (found : Candidate α) (delta : Point α) :
    Along (Between R) (choose held found delta) := by
  unfold choose
  split <;> infer_instance

instance (location : Point α) : Along (Between R) (dragTo location) := by
  refine .bind inferInstance fun s => .bind inferInstance fun _ => .bind inferInstance fun _ => ?_
  refine .bind inferInstance fun _ => .bind inferInstance fun found => ?_
  split <;> infer_instance

instance (x : BlockId) : Along (Between R) (fireDragEnd x : Act α Unit) := by
  have dragged : Along (Between R) (draggedWith x : Act α (List BlockId)) := by
    refine .bind inferInstance fun e => ?_
    split <;> infer_instance
  unfold fireDragEnd
  infer_instance

section Flags

variable [IgnoresFlags R]

instance (x : BlockId) : Along (Between R) (abandon x : Act α Unit) := by
  unfold abandon
  infer_instance

instance (s : DragSession α) (heal : Bool) : Along (Between R) (loosen s heal) := by
  unfold loosen
  infer_instance

instance (x : BlockId) (heal : Bool) : Along (Between R) (takeUp x heal : Act α BlockId) := by
  refine .bind inferInstance fun found => .bind inferInstance fun movable => ?_
  refine .optional inferInstance fun _ => .bind inferInstance fun _ => ?_
  refine .bind inferInstance fun _ => ?_
  refine .bind inferInstance fun _ => .bind inferInstance fun b => .bind inferInstance fun _ => ?_
  refine .bind inferInstance fun _ => .bind inferInstance fun _ => ?_
  infer_instance

instance (x : BlockId) (heal : Bool) : Along (Between R) (pickUp x heal : Act α BlockId) := by
  unfold pickUp
  infer_instance

instance : Along (Between R) (cancelDrag : Act α Unit) := by
  have close : ∀ x, Along (Between R) (closeReverted x : Act α Unit) := by
    intro x
    unfold closeReverted
    infer_instance
  unfold cancelDrag
  infer_instance

end Flags

section Drops

variable [IgnoresTasks R]

instance (x : BlockId) (c : Candidate α) : Along (Between R) (commit x c) := by
  unfold commit
  infer_instance

instance (s : DragSession α) (location : Point α) : Along (Between R) (settle s location) := by
  refine .bind inferInstance fun _ => ?_
  split <;> infer_instance

instance [IgnoresFlags R] (location : Point α) : Along (Between R) (dropAt location) := by
  unfold dropAt
  infer_instance

end Drops

end Act

/-! ### Runs -/

/-- Actions that queue tasks or have them run. -/
def Action.defers : Action α → Bool
  | .dropAt _ | .updateTasks _ | .runAfterLayout | .runNextTurn => true
  | _ => false

namespace Editor

instance {R : Editor α → Editor α → Prop} [IsPreorder (Editor α) R] {m : Act α β} [Along R m] :
    Along R (discard m) :=
  inferInstanceAs (Along R (m >>= fun _ => pure ()))

variable [Scalar α]

theorem perform_evolves {a : Action α} (h : a.defers = false) : Along Evolves (perform a) := by
  cases a with
  | dropAt | updateTasks | runAfterLayout | runNextTurn => cases h
  | _ =>
    dsimp only [perform]
    infer_instance

theorem perform_endures (a : Action α) : Along Endures (perform a) := by
  cases a <;> dsimp only [perform] <;> infer_instance

theorem after_eq (e : Editor α) (a : Action α) : e.after a = ended (perform a e) := by
  unfold after ended
  cases perform a e <;> rfl

/-- Whatever is done but for drops and what has to do with tasks, the same tasks wait. -/
theorem after_evolves (e : Editor α) {a : Action α} (h : a.defers = false) :
    e.workspace.Evolves (e.after a).workspace := by
  rw [after_eq]
  exact (perform_evolves h).along e

/-- In a run the registry stays, and every block stays what its type says. -/
theorem run_endures (e : Editor α) (actions : List (Action α)) :
    e.workspace.Endures (e.run actions).workspace := by
  induction actions generalizing e with
  | nil => exact .rfl
  | cons a rest ih =>
    have hstep := (perform_endures a).along e
    rw [← after_eq] at hstep
    exact Workspace.Endures.trans hstep (ih (e.after a))

end Editor

end BlockEditor
