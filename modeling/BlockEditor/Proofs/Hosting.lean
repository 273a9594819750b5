import BlockEditor.Proofs.Tethers
import BlockEditor.Proofs.Workspace.Ascending

/-!
# What a host can do

A host makes no placeholders of its own, apart from those that hang on what it restores. Whatever it
asks for, each of them has a parent as long as nothing is refused, and so a drag of a placeholder
finds the block that it belongs to.
-/

namespace BlockEditor

variable {α : Type}

namespace Workspace

variable {ws : Workspace α} {x : BlockId}

/-! ### The real block above -/

theorem Moored.parent (h : ws.Moored) (hmark : ws.isPlaceholder x) :
    ∃ a, ws.parent x = .ok (some a) ∧ ws.graph.Under x a := by
  obtain ⟨b, hb, -⟩ := live_of_isPlaceholder hmark
  rcases h.sound.parentSocket_cases hb with ⟨s, p, w, v, -, hl, hv⟩ | ⟨-, hloose⟩
  · have hunder : ws.graph.Under x w.block := ⟨s, p, w, v, hl, hv, rfl⟩
    exact ⟨w.block, (h.sound.parent_eq_some hb).mpr hunder, hunder⟩
  · exact absurd (h.tethered x hmark hloose) (Set.notMem_empty x)

/-- Every placeholder belongs to a real block. -/
theorem Moored.realAbove (h : ws.Moored) (hac : ws.graph.Acyclic) (hmark : ws.isPlaceholder x) :
    ∃ a, ws.realAbove x = .ok a ∧ ws.graph.Below x a ∧ ¬ ws.isPlaceholder a := by
  obtain ⟨b, hb, -⟩ := live_of_isPlaceholder hmark
  obtain ⟨way, hway, hbound⟩ := h.sound.supported.ascends hac ⟨b, hb⟩
  cases hm : ws.mover way.tail with
  | some m =>
    have hreal := List.find?_some hm
    rw [Bool.not_eq_true'] at hreal
    exact ⟨m, (hway.realAboveWithin hbound).1 m hm, hway.below_of_mem h.sound.supported m
      (List.mem_of_find?_eq_some hm), Bool.eq_false_iff.mp hreal⟩
  | none =>
    -- The way ends at a block without a parent, and that is no placeholder.
    obtain ⟨top, htop, hnone⟩ := hway.last
    obtain ⟨rest, rfl⟩ := hway.head
    rw [List.tail_cons, ← mover_of_placeholder hmark] at hm
    have hmark' : ws.isPlaceholder top := by
      simpa using List.find?_eq_none.mp hm top (List.mem_of_getLast? htop)
    obtain ⟨a, ha, -⟩ := h.parent hmark'
    rw [hnone] at ha
    cases ha

theorem dragTarget_of_dead [Scalar α] (h : ¬ ws.Live x) :
    ws.dragTarget x = .error (.unknownBlock x) := by
  have hdead : ws.block x = .error (.unknownBlock x) := by
    cases hb : ws.blocks[x]? with
    | none => rw [block, hb]
    | some b => exact (h ⟨b, hb⟩).elim
  rw [Workspace.dragTarget, hdead]
  rfl

/-- A drag of a live block has a block to move. -/
theorem Moored.dragTarget [Scalar α] (h : ws.Moored) (hac : ws.graph.Acyclic) (hl : ws.Live x) :
    ∃ target offset, ws.dragTarget x = .ok (target, offset) := by
  obtain ⟨b, hb⟩ := hl
  unfold Workspace.dragTarget
  rw [block_eq_ok.mpr hb]
  change ∃ target offset, (if !b.placeholder || ws.config.allowsDragOf b.typeName then _ else _) = _
  split
  · exact ⟨_, _, rfl⟩
  · next hlocked =>
    rw [Bool.or_eq_true, not_or, Bool.not_eq_true', Bool.not_eq_false] at hlocked
    have hmark : ws.isPlaceholder x := by
      rw [isPlaceholder, hb]
      exact hlocked.1
    obtain ⟨a, ha, hbelow, -⟩ := h.realAbove hac hmark
    obtain ⟨b', hb'⟩ := h.sound.exists_of_above hbelow
    refine ⟨a, b'.position - b.position, ?_⟩
    rw [ha]
    change (ws.block a >>= fun b' => _) = _
    rw [block_eq_ok.mpr hb']
    rfl

end Workspace

namespace Act

open Workspace

variable [Scalar α] {ws : Workspace α} {block x : BlockId} {heal : Bool} {e : Editor α}

abbrev Moors {β : Type} (m : Act α β) : Prop :=
  Leads (Within Moored) m (fun _ => Within Moored) fun _ => True

omit [Scalar α] in
theorem edit_moors {β : Type} {m : Edit α β} (h : Edit.Moors m) : Moors (edit m) :=
  edit_leads h

theorem Started.moored (h : Started ws block heal x e) (hm : ws.Moored)
    (hs : e.workspace.Sound) : e.workspace.Moored := by
  obtain ⟨offset, b, s, u, v, -, ⟨log, rfl⟩, hb, hl, hd, -⟩ := h
  have hm' : Moored { ws with events := log } := hm.drifts (drifts_aside ws log ws.tasks)
  exact ⟨hs, (hm'.tethered.loosened hm'.sound hb hl).drifts hd.toDrifts⟩

theorem pickUp_moors (hm : e.workspace.Moored) (hac : e.workspace.graph.Acyclic)
    (hroot : e.workspace.Rooted) (block : BlockId) (heal : Bool) :
    Leads (· = e) (pickUp block heal) (fun _ => Within Moored) fun _ => True := by
  have hsound := pickUp_keeps (X := ∅) (Editor.stable_true (α := α)) block heal
  have htells : Leads (· = e) (pickUp block heal) (fun target t => e.session = none ∧
      Started e.workspace block heal target t) fun _ => True :=
    Tells.weaken (pickUp_tells hm.sound hac hroot block heal) (fun _ h => h) (fun _ _ h => h)
      fun _ _ _ => trivial
  refine (hsound.and htells).weaken ?_ ?_ fun _ _ => trivial
  · rintro _ rfl
    exact ⟨⟨hm.sound, trivial⟩, rfl⟩
  · rintro target t ⟨hsteady, -, hstarted⟩
    exact hstarted.moored hm hsteady.sound

theorem commit_moors (block : BlockId) (c : Candidate α) : Moors (commit block c) := by
  unfold commit
  refine Leads.bind (edit_moors (Edit.connect_moors c.own c.neighbour)) fun _ => ?_
  have asked : ∀ {β : Type} (q : Workspace α → Answer α β), Moors (query q) :=
    fun q => (ask_keeps q).refused fun _ _ => trivial
  refine (asked _).bind fun x => (asked _).bind fun y => (asked _).bind fun root => ?_
  exact (updateTasks_keeps calm_moored.quiet (·.pushAfterLayout (.connectionFeedback y.block root))).refused
    fun _ _ => trivial

theorem settle_moors (s : DragSession α) (location : Point α) : Moors (settle s location) := by
  have calm := calm_moored (α := α)
  unfold settle
  refine Leads.bind (edit_moors (Edit.moors_of_keeps (Edit.moveTo_keeps calm s.block location "drag")))
    fun _ => ?_
  have rest : ∀ outcome, Moors (do
      let _ ← edit (Edit.moveToGrid s.block)
      return outcome : Act α (DragOutcome α)) := fun outcome =>
    Leads.bind (edit_moors (Edit.moors_of_keeps (Edit.moveToGrid_keeps calm s.block))) fun _ =>
      Leads.pure fun _ h => h
  cases s.candidate with
  | none =>
    refine (request_keeps _).bind fun _ => ?_
    exact Leads.bind (Q := fun _ => Within Moored) (Leads.pure fun _ h => h) rest
  | some c =>
    refine (commit_moors s.block c).bind fun _ => ?_
    exact Leads.bind (Q := fun _ => Within Moored) (Leads.pure fun _ h => h) rest

theorem dropAt_moors (location : Point α) : Moors (dropAt location : Act α (DragOutcome α)) := by
  have calm := calm_moored (α := α)
  unfold dropAt
  refine Leads.bind (takeSession_keeps.refused fun _ _ => trivial) fun s => ?_
  refine Leads.bind (enter_keeps _) fun _ => ?_
  refine Leads.bind ((fireDragEnd_keeps calm.quiet s.block).refused fun _ _ => trivial) fun _ => ?_
  refine Leads.bind ((clearVisuals_keeps calm.quiet s.block).refused fun _ _ => trivial) fun _ => ?_
  exact followedBy_keeps (settle_moors s _) ((closeGesture_keeps calm.quiet).refused fun _ _ => trivial)
    (closeGesture_keeps calm.quiet).anyhow

theorem cancelDrag_moors : Moors (cancelDrag : Act α Unit) := by
  have calm := calm_moored (α := α)
  unfold cancelDrag
  refine Leads.bind (takeSession_keeps.refused fun _ _ => trivial) fun s => ?_
  refine Leads.bind (enter_keeps _) fun _ => ?_
  exact followedBy_keeps (edit_moors (Edit.putBack_moors s))
    ((closeReverted_keeps calm.quiet s.block).refused fun _ _ => trivial)
    (closeReverted_keeps calm.quiet s.block).anyhow

end Act

/-- The actions that a host can ask for. It can set no marks and no templates, and a block that it
restores is a real one. -/
def Action.hosted : Action α → Bool
  | .newBlock _ | .dispose _ | .moveTo .. | .setField .. | .connect .. => true
  | .restore snapshot => !snapshot.placeholder
  | .setUnits .. | .press .. | .loadShape .. => true
  | .pickUp .. | .dragTo _ | .dropAt _ | .cancelDrag => true
  | .runAfterLayout | .runNextTurn => true
  | _ => false

namespace Editor

open Workspace Act

variable [Scalar α] {config : EditorConfig α} {registry : Registry} {e : Editor α}
  {actions : List (Action α)} {a : Action α}

/-- Whatever a host asks for, if it is granted, then every placeholder hangs on a block as before. -/
theorem perform_moors (ha : a.hosted) (hm : e.workspace.Moored)
    (hac : e.workspace.graph.Acyclic) (hroot : e.workspace.Rooted) :
    Leads (· = e) (perform a) (fun _ => Within Moored) fun _ => True := by
  have plain : ∀ {m : Act α Unit}, Moors m →
      Leads (· = e) m (fun _ => Within Moored) fun _ => True := by
    intro m h
    apply h.pre
    rintro _ rfl
    exact hm
  have sized : ∀ {β : Type} {m : Edit α β} (block : BlockId),
      Leads (fun t => t.Moored ∧ t.graph.Tame block) m (fun _ => Moored) (fun _ => True) →
      Leads (· = e) (edit m) (fun _ => Within Moored) fun _ => True := by
    intro β m block h
    apply (edit_leads h).pre
    rintro _ rfl
    exact ⟨hm, hac block⟩
  have calm := calm_moored (α := α)
  cases a with
  | newBlock typeName => exact plain (discard_leads (edit_moors (Edit.newBlock_moors typeName)))
  | dispose block => exact plain (edit_moors (Edit.dispose_moors block))
  | moveTo block location reason =>
    exact plain (edit_moors (Edit.moors_of_keeps (Edit.moveTo_keeps calm block location reason)))
  | setField block name value => exact plain (edit_moors (Edit.setField_moors block name value))
  | connect c d => exact plain (edit_moors (Edit.connect_moors c d))
  | restore snapshot =>
    have hreal : snapshot.placeholder = false := by simpa [Action.hosted] using ha
    exact plain (discard_leads (edit_moors (Edit.restore_moors hreal)))
  | setUnits block units =>
    exact sized block ((Edit.setUnits_moors block units).post fun _ _ h => h.1)
  | press block control => exact sized block (Edit.press_moors block control)
  | loadShape block shape =>
    exact (sized block (Edit.loadShape_moors block shape)).bind fun _ => Leads.pure fun _ h => h
  | pickUp block heal =>
    exact (pickUp_moors hm hac hroot block heal).bind fun _ => Leads.pure fun _ h => h
  | dragTo location =>
    exact plain (discard_leads ((dragTo_still location).refused fun _ _ => trivial))
  | dropAt location => exact plain (discard_leads (dropAt_moors location))
  | cancelDrag => exact plain cancelDrag_moors
  | runAfterLayout =>
    exact plain (discard_leads ((runAfterLayout_keeps calm.quiet).refused fun _ _ => trivial))
  | runNextTurn =>
    exact plain (discard_leads ((runNextTurn_keeps calm.quiet).refused fun _ _ => trivial))
  | _ => cases ha

theorem run_moors (hm : e.workspace.Moored) (hroot : e.workspace.Rooted)
    (hlast : Lasts (e.run actions)) (haccepted : e.Accepted actions)
    (hacyclic : e.StaysAcyclic actions) (hhosted : ∀ a ∈ actions, a.hosted) :
    (e.run actions).workspace.Moored := by
  induction actions generalizing e with
  | nil => exact hm
  | cons a rest ih =>
    have hafter : Lasts (e.after a) := lasts_of_run hlast
    have hsteady : Steady (fun _ => Rooted) Set.univ e.workspace := ⟨hm.sound, hroot⟩
    have hroot' := (after_steady stable_rooted hsteady (fun h => h.elim) hafter).1.keeps
    have hm' := after_of_accepts
      (perform_moors (hhosted a List.mem_cons_self) hm hacyclic.start hroot) haccepted.head hafter
    exact ih hm' hroot' hlast haccepted.tail hacyclic.tail fun a' ha' =>
      hhosted a' (List.mem_cons_of_mem a ha')

/-- After a run in which a host is refused nothing, every placeholder has a parent and belongs to a
real block above it. So a drag is never told that a placeholder has none. -/
theorem run_hosted (hone : registry.OnePlug) (hstart : create config registry = .ok e)
    (hlast : Lasts (e.run actions)) (haccepted : e.Accepted actions)
    (hacyclic : e.StaysAcyclic actions) (hhosted : ∀ a ∈ actions, a.hosted) :
    (∀ x, (e.run actions).workspace.isPlaceholder x →
      (∃ a, (e.run actions).workspace.parent x = .ok (some a)) ∧
      ∃ a, (e.run actions).workspace.realAbove x = .ok a ∧
        (e.run actions).workspace.graph.Below x a ∧ ¬ (e.run actions).workspace.isPlaceholder a) ∧
    ∀ x, ((e.run actions).workspace.Live x →
        ∃ target offset, (e.run actions).workspace.dragTarget x = .ok (target, offset)) ∧
      (¬ (e.run actions).workspace.Live x →
        (e.run actions).workspace.dragTarget x = .error (.unknownBlock x)) := by
  obtain ⟨-, rfl⟩ := create_eq_ok hstart
  have hempty : (fresh config registry).workspace.Moored := by
    refine ⟨empty_sound hone, fun x hmark => ?_⟩
    obtain ⟨b, hb, -⟩ := live_of_isPlaceholder hmark
    simp [fresh] at hb
  have hm := run_moors hempty (fun x hx => by cases hx) hlast haccepted hacyclic hhosted
  have hac := hacyclic actions List.prefix_rfl
  refine ⟨fun x hmark => ⟨?_, hm.realAbove hac hmark⟩, fun x =>
    ⟨fun hl => hm.dragTarget hac hl, fun hdead => dragTarget_of_dead hdead⟩⟩
  obtain ⟨a, ha, -⟩ := hm.parent hmark
  exact ⟨a, ha⟩

/-- A statement is restored that returns a number until a name takes its place. The name is dragged
away and put back, and then it is disposed. -/
def nameHosted : List (Action Int) :=
  [.restore { Snapshot.ofType "Return" with
      inputs := [("value", ⟨none, some (.ofType "int")⟩)] },
    .newBlock "Name", .connect ⟨1⟩ ⟨3⟩, .pickUp ⟨2⟩ false, .dragTo ⟨40, 40⟩, .cancelDrag,
    .dispose ⟨2⟩]

/-- The number that is there again hangs on the statement. -/
theorem run_hosted_name : ∃ a target offset,
    ((fresh (.standard : EditorConfig Int) Palette.registry).run nameHosted).workspace.parent ⟨4⟩ =
      .ok (some a) ∧
    ((fresh (.standard : EditorConfig Int) Palette.registry).run nameHosted).workspace.dragTarget
      ⟨4⟩ = .ok (target, offset) := by
  have haccepted : (fresh (.standard : EditorConfig Int) Palette.registry).Accepted nameHosted :=
    accepted_of_acceptsAll (by decide +kernel)
  have hrun := run_hosted Palette.registry_onePlug (create_fresh (by decide)) (by decide +kernel)
    haccepted (staysAcyclic_of_ordered (by decide +kernel)) (by decide)
  have hmark : ((fresh (.standard : EditorConfig Int) Palette.registry).run
      nameHosted).workspace.isPlaceholder ⟨4⟩ := by decide +kernel
  obtain ⟨b, hb, -⟩ := live_of_isPlaceholder hmark
  obtain ⟨a, ha⟩ := (hrun.1 ⟨4⟩ hmark).1
  obtain ⟨target, offset, htarget⟩ := (hrun.2 ⟨4⟩).1 ⟨b, hb⟩
  exact ⟨a, target, offset, ha, htarget⟩

end Editor

end BlockEditor
