import BlockEditor.Proofs.Carrying
import BlockEditor.Proofs.Closing
import BlockEditor.Proofs.Numbering

/-!
# Attached blocks sit on their sockets

A run in which only roots are moved leaves every plug on its socket. The places are compared where
nothing is rounded. On a cycle no place is right, and a walk over it has no end, so runs are those in
which no block ever hangs below itself.
-/

namespace BlockEditor

open Workspace

variable {α : Type} [Scalar α]

namespace Workspace

variable {ws : Workspace α} {x : BlockId}

/-- Whether a block hangs on another one. A block that is gone does not. -/
def hasParent (ws : Workspace α) (x : BlockId) : Bool :=
  match ws.parent x with
  | .ok (some _) => true
  | _ => false

omit [Scalar α] in
theorem Sound.loose_of_hasParent (hs : ws.Sound) (h : ws.hasParent x = false) :
    ws.graph.Loose x := by
  by_cases hx : ws.Live x
  · obtain ⟨b, hb⟩ := hx
    refine (Graph.loose_iff hs.wired).mpr fun a ha => ?_
    rw [hasParent, (hs.parent_eq_some hb).mpr ha] at h
    cases h
  · exact hs.loose_of_not_live hx

end Workspace

namespace Editor

variable {e : Editor α} {a : Action α} {actions : List (Action α)} {config : EditorConfig α}
  {registry : Registry}

/-! ### The block that is held -/

/-- The block that is held was made before. -/
def Holds (e : Editor α) : Prop :=
  ∀ s, e.session = some s → s.block.index.toNat < e.workspace.ids.blocks

/-- A block that is held was held before, or it has just been picked up. -/
theorem held_after (hforest : e.workspace.Forest) (hlast : Lasts (e.after a)) {x : BlockId}
    (hx : (e.after a).session.map (·.block) = some x) :
    e.session.map (·.block) = some x ∨ (e.after a).workspace.Live x := by
  have unbroken : EventLog.Unbroken (α := α) fun _ => True := fun _ _ _ => trivial
  obtain ⟨held, hheld⟩ : ∃ held, e.session.map (·.block) = held := ⟨_, rfl⟩
  have hstage : Stage e.requests (fun _ => True) held e.phase anything e :=
    ⟨hheld, rfl, ⟨[], (List.append_nil _).symm, trivial⟩, trivial⟩
  have leads : ∀ {P Q : Editor α → Prop}, P e → Leads P (perform a) (fun _ => Q) Q → Q (e.after a) :=
    fun hp hl => after_of_leads (hl.pre fun _ ht => ht ▸ hp) hlast
  by_cases hends : a.ends = true
  · cases held with
    | none =>
      rw [(leads hstage (perform_idle hends)).held] at hx
      cases hx
    | some y =>
      rw [(leads hstage (perform_ends unbroken hends)).held] at hx
      cases hx
  by_cases hpicks : a.picksUp = true
  · obtain ⟨block, heal, rfl⟩ := Action.exists_of_picksUp hpicks
    cases held with
    | some y =>
      left
      rw [hheld, ← (leads hstage (discard_leads (Act.pickUp_held block heal))).held, hx]
    | none =>
      have hnone : e.session = none := by simpa using hheld
      cases hm : Act.pickUp block heal e with
      | ok y t =>
        rw [(after_pickUp hm).1] at hx hlast ⊢
        obtain ⟨hl, s, hs, hy, -⟩ := (Act.pickUp_lifts block heal).ok hm hlast hforest
        rw [hs, Option.map_some, hy, Option.some.injEq] at hx
        exact Or.inr (hx ▸ hl.live)
      | error refusal t =>
        rw [after_pickUp_refused hm] at hx hlast
        rcases (Act.pickUp_stage unbroken hforest hnone trivial block heal).error hm hlast rfl with
          ⟨rfl, -⟩ | ⟨target, -, hover⟩
        · exact Or.inl hx
        · rw [hover.held] at hx
          cases hx
  · left
    rw [hheld, ← (leads hstage (perform_stage unbroken (by simpa using hends)
      (by simpa using hpicks) fun _ _ _ _ => trivial)).held, hx]

theorem Holds.after (h : e.Holds) (hforest : e.workspace.Forest) (hlast : Lasts (e.after a)) :
    (e.after a).Holds := by
  have hpredates : e.workspace.Predates (e.after a).workspace := (after_steady (X := ∅)
    (stable_predates e.workspace) ⟨hforest.sound, .refl _⟩ False.elim hlast).1.keeps
  have hsound : (e.after a).workspace.Sound := (after_steady (X := ∅) stable_true
    ⟨hforest.sound, trivial⟩ False.elim hlast).1.sound
  intro s hs
  rcases held_after hforest hlast (by rw [hs, Option.map_some]) with hheld | ⟨b, hb⟩
  · obtain ⟨s₀, hs₀, hblock⟩ := Option.map_eq_some_iff.mp hheld
    exact hblock ▸ (h s₀ hs₀).trans_le hpredates.blockCount
  · exact hsound.blockIds hb

/-! ### Moving roots only -/

/-- Whether the action moves a block by itself that hangs on another one. Whoever ends a drag moves
the block that is held. -/
def movesAttached (e : Editor α) : Action α → Bool
  | .moveTo block _ _ | .moveBy block _ _ => e.workspace.hasParent block
  | .dropAt _ | .cancelDrag => e.session.any fun s => e.workspace.hasParent s.block
  | _ => false

/-- Whether only blocks without a parent are moved by themselves, each action in its turn. -/
def movesRootsOnly (e : Editor α) : List (Action α) → Bool
  | [] => true
  | a :: rest => !e.movesAttached a && (e.after a).movesRootsOnly rest

variable [Scalar.Exact α]

/-- The block that is moved by an action hangs on nothing. -/
theorem perform_flush (a : Action α) :
    Leads (fun e => e.workspace.Plumb ∧ e.Holds ∧ e.movesAttached a = false) (perform a)
      (fun _ => Act.Within Flush) (Act.Within Flush) := by
  have edits : ∀ {β : Type} {m : Edit α β}, Leads Plumb m (fun _ => Flush) Flush →
      Leads (fun e => e.workspace.Plumb ∧ e.Holds ∧ e.movesAttached a = false) (Act.edit m)
        (fun _ => Act.Within Flush) (Act.Within Flush) :=
    fun h => (Act.edit_leads h).pre fun _ he => he.1
  have plain : ∀ {β : Type} {m : Edit α β}, Keeps Plumb m →
      Leads Plumb m (fun _ => Flush) Flush :=
    fun h => h.weaken (fun _ h => h) (fun _ _ h => h.toFlush) fun _ h => h.toFlush
  have still : ∀ {β : Type} {m : Edit α β}, Keeps Flush m →
      Leads Plumb m (fun _ => Flush) Flush :=
    fun h => h.pre fun _ h => h.toFlush
  have aside : ∀ {β : Type} {m : Act α β}, Keeps (Act.Within Flush) m →
      Leads (fun e => e.workspace.Plumb ∧ e.Holds ∧ e.movesAttached a = false) m
        (fun _ => Act.Within Flush) (Act.Within Flush) :=
    fun h => h.pre fun _ he => he.1.toFlush
  have quiet := (spatial_flush (α := α)).quiet
  have same := spatial_flush (α := α)
  cases a with
  | newBlock typeName => exact discard_leads (edits (plain (Edit.newBlock_plumb typeName)))
  | newPlaceholder typeName =>
    exact discard_leads (edits (plain (Edit.newPlaceholder_plumb typeName)))
  | dispose block => exact edits (plain (Edit.dispose_plumb block))
  | setField block name value => exact edits (still (Edit.setField_stays same block name value))
  | setPlaceholder block on => exact edits (still (Edit.setPlaceholder_stays same block on))
  | setMovable block on => exact edits (still (Edit.setMovable_stays same block on))
  | setInFlyout block on => exact edits (still (Edit.setInFlyout_stays same block on))
  | setCopyOnDrag block value => exact edits (still (Edit.setCopyOnDrag_stays same block value))
  | setTemplate c template => exact discard_leads (edits (still (Edit.setTemplate_flush c template)))
  | connect a b => exact edits (Edit.connect_flush a b)
  | disconnect c => exact edits (plain (Edit.disconnect_plumb c))
  | pullOut block heal => exact edits (Edit.pullOut_flush block heal)
  | respawn c => exact discard_leads (edits (plain (Edit.respawn_plumb c)))
  | restore snapshot => exact discard_leads (edits (plain (Edit.restore_plumb snapshot)))
  | moveTo block location reason =>
    refine Leads.pre (Act.edit_leads (Edit.moveTo_loose block location reason)) ?_
    exact fun e ⟨h, _, hmoves⟩ => ⟨h.toFlush, h.sound.loose_of_hasParent hmoves⟩
  | moveBy block delta reason =>
    refine Leads.pre (Act.edit_leads (Edit.moveBy_loose block delta reason)) ?_
    exact fun e ⟨h, _, hmoves⟩ => ⟨h.toFlush, h.sound.loose_of_hasParent hmoves⟩
  | moveToGrid block => exact discard_leads (edits (still (Edit.moveToGrid_flush block)))
  | keepInView block => exact discard_leads (edits (still (Edit.keepInView_flush block)))
  | setViewport viewport => exact edits (still (Edit.setViewport_stays same viewport))
  | setUnits block units => exact edits (plain (Edit.setUnits_plumb block units))
  | press block control => exact edits (Edit.press_flush block control)
  | loadShape block shape => exact discard_leads (edits (plain (Edit.loadShape_plumb block shape)))
  | refreshControls block => exact edits (Edit.refreshControls_flush block)
  | pickUp block heal => exact discard_leads ((Act.pickUp_flush block heal).pre fun _ h => h.1)
  | dragTo location => exact discard_leads (aside (Act.dragTo_still location))
  | dropAt location =>
    refine discard_leads ((Act.dropAt_flush location).pre ?_)
    rintro e ⟨h, -, hmoves⟩
    refine ⟨h, fun s hs => h.sound.loose_of_hasParent ?_⟩
    simpa [movesAttached, hs] using hmoves
  | cancelDrag =>
    refine Act.cancelDrag_flush.pre ?_
    rintro e ⟨h, hholds, hmoves⟩
    refine ⟨h, fun s hs => ⟨hholds s hs, h.sound.loose_of_hasParent ?_⟩⟩
    simpa [movesAttached, hs] using hmoves
  | setGroup on => exact aside (Act.edit_leads (Act.group_keeps quiet (fun _ => true) on))
  | updateTasks change => exact aside (Act.updateTasks_keeps quiet change)
  | runAfterLayout => exact discard_leads (aside (Act.runAfterLayout_keeps quiet))
  | runNextTurn => exact discard_leads (aside (Act.runNextTurn_keeps quiet))

/-- As long as only roots are moved, every plug lies on its socket. -/
theorem run_flush (h : e.workspace.Plumb) (hholds : e.Holds) (hlast : Lasts (e.run actions))
    (hacyclic : e.StaysAcyclic actions) (hroots : e.movesRootsOnly actions) :
    (e.run actions).workspace.Flush := by
  induction actions generalizing e with
  | nil => exact h.toFlush
  | cons a rest ih =>
    rw [movesRootsOnly, Bool.and_eq_true, Bool.not_eq_true'] at hroots
    have hafter : Lasts (e.after a) := lasts_of_run hlast
    have hstep : (e.after a).workspace.Flush :=
      after_of_leads ((perform_flush a).pre fun _ ht => ht ▸ ⟨h, hholds, hroots.1⟩) hafter
    exact ih ⟨hstep, hacyclic.tail.start⟩ (hholds.after ⟨h.sound, h.acyclic⟩ hafter) hlast
      hacyclic.tail hroots.2

omit [Scalar.Exact α] in
theorem empty_flush (hone : registry.OnePlug) : (Workspace.empty config registry).Flush where
  sound := empty_sound hone
  level :=
    { plugs := fun hy => by simp at hy
      flush := fun hl => by
        obtain ⟨y, hy, -⟩ := connection_of_wire hl.socket
        simp at hy }

/-- In every state of a run in which only roots are moved, linked ends lie on each other. -/
theorem run_aligns (hone : registry.OnePlug) (hstart : create config registry = .ok e)
    (hlast : Lasts (e.run actions)) (hacyclic : e.StaysAcyclic actions)
    (hroots : e.movesRootsOnly actions) {c d : ConnectionId} {y : Connection α}
    (hy : (e.run actions).workspace.connections[c]? = some y) (hd : y.target = some d) :
    ∃ place, (e.run actions).workspace.endPosition c = .ok place ∧
      (e.run actions).workspace.endPosition d = .ok place := by
  have hflush : (e.run actions).workspace.Flush := by
    obtain ⟨-, rfl⟩ := create_eq_ok hstart
    exact run_flush ⟨empty_flush hone, hacyclic.start⟩ nofun hlast hacyclic hroots
  have hs := hflush.sound
  have hac : (e.run actions).workspace.graph.Acyclic := hacyclic actions (List.prefix_refl _)
  obtain ⟨place, hplace⟩ := hs.endPosition_ok hy
  refine ⟨place, hplace, ?_⟩
  rw [← hplace]
  cases hk : y.kind.isSocket with
  | true =>
    obtain ⟨v, hl⟩ := Graph.link_of_socket hs.wired (wire_of_connection hy) hk hd
    exact (hflush.level.flush hl (Set.notMem_empty c) (hac.grounded _)).symm
  | false =>
    have hplug : y.kind.isPlug := by rw [ConnectionKind.isPlug_eq_not, hk]; rfl
    obtain ⟨w, hl⟩ := Graph.link_of_plug hs.wired (wire_of_connection hy) hplug hd
    exact hflush.level.flush hl (Set.notMem_empty d) (hac.grounded _)

/-- A sum is returned by a statement that is moved. The sum is dragged away and dropped next to where
it was, and its left number goes along. -/
def sumCarried : List (Action ℚ) :=
  [.newBlock "Return", .newBlock "BinOp", .newBlock "int", .connect ⟨3⟩ ⟨5⟩, .connect ⟨1⟩ ⟨2⟩,
    .moveTo ⟨0⟩ ⟨1 / 2, 1 / 3⟩ "paste", .pickUp ⟨1⟩ false, .dragTo ⟨100, 7⟩, .dragTo ⟨42, 2⟩,
    .dropAt ⟨42, 2⟩]

/-- The sum snaps to the statement, and the number still lies in the sum. -/
theorem run_aligns_sum :
    let ws := ((fresh (.standard : EditorConfig ℚ) Palette.registry).run sumCarried).workspace
    ws.targetOf ⟨1⟩ = some ⟨2⟩ ∧ ws.targetOf ⟨3⟩ = some ⟨5⟩ ∧
      ∃ place, ws.endPosition ⟨3⟩ = .ok place ∧ ws.endPosition ⟨5⟩ = .ok place := by
  have hnumber : ((fresh (.standard : EditorConfig ℚ) Palette.registry).run
      sumCarried).workspace.targetOf ⟨3⟩ = some ⟨5⟩ := by decide +kernel
  obtain ⟨y, hy, hd⟩ := targetOf_eq_some.mp hnumber
  exact ⟨by decide +kernel, hnumber, run_aligns Palette.registry_onePlug (create_fresh (by decide))
    (by decide +kernel) (staysAcyclic_of_ordered (by decide +kernel)) (by decide +kernel) hy hd⟩

end Editor

end BlockEditor
