import BlockEditor.Proofs.Containers
import BlockEditor.Proofs.Evolving

/-!
# Blocks that are no containers

What is meant for containers is declined by every other block, and nothing changes. There are two
exceptions, which ask too late or not at all: a block that is to be initialised has its fixed inputs
by the time it declines, and controls are shown by any block.
-/

namespace BlockEditor

variable {α : Type}

namespace Workspace

variable {ws : Workspace α} {x : BlockId}

/-- A live block whose type is no container. -/
def Plain (ws : Workspace α) (x : BlockId) : Prop :=
  ∃ b, ws.blocks[x]? = some b ∧ (ws.registry.get? b.typeName).bind (·.container) = none

/-- The block declines, and nothing changes. -/
structure Declines [Scalar α] (ws : Workspace α) (x : BlockId) : Prop where
  setUnits : ∀ n, Edit.setUnits x n ws = .error (.notVariadic x) ws
  press : ∀ control, Edit.press x control ws = .error (.notVariadic x) ws
  loadShape : ∀ shape, Edit.loadShape x shape ws = .error (.notVariadic x) ws
  controls : ws.controls x = .error (.notVariadic x)
  shape : ws.shape x = .error (.notVariadic x)

instance (ws : Workspace α) (x : BlockId) : Decidable (ws.Plain x) :=
  decidable_of_iff (∃ b ∈ ws.blocks[x]?, (ws.registry.get? b.typeName).bind (·.container) = none)
    Iff.rfl

theorem Plain.containerTemplate (h : ws.Plain x) :
    ws.containerTemplate x = .error (.notVariadic x) := by
  obtain ⟨b, hb, hplain⟩ := h
  unfold Workspace.containerTemplate
  rw [block_eq_ok.mpr hb]
  simp only [bind, Except.bind, hplain]
  rfl

theorem Plain.containerKindOf (h : ws.Plain x) (htyped : ws.Typed) :
    ws.containerKindOf x = .error (.notVariadic x) := by
  obtain ⟨b, hb, hplain⟩ := h
  have hkind : b.container = none := by
    rw [htyped x b hb, Registry.kind?, hplain, Option.map_none]
  unfold Workspace.containerKindOf
  rw [block_eq_ok.mpr hb]
  simp only [bind, Except.bind, hkind]
  rfl

variable [Scalar α]

theorem Plain.declines (h : ws.Plain x) (htyped : ws.Typed) : ws.Declines x := by
  have hkind := h.containerKindOf htyped
  have hask : Edit.query (·.containerKindOf x) ws = .error (.notVariadic x) ws := by
    simp only [Edit.query, hkind]
  have hresize : ∀ n, Edit.setUnits x n ws = .error (.notVariadic x) ws :=
    fun n => Edit.setUnits_of_error n h.containerTemplate
  constructor
  case setUnits => exact hresize
  case press => exact fun control => bind_error hask
  case loadShape => exact fun shape => bind_error (hresize 0)
  case controls =>
    unfold Workspace.controls
    rw [hkind]
    rfl
  case shape =>
    unfold Workspace.shape
    rw [hkind]
    rfl

/-! ### What is not declined -/

/-- What is noticed too late or not at all: the block has new inputs after it. -/
structure Overlooks (ws : Workspace α) (x : BlockId) (names : List String) : Prop where
  init : ∀ spec, Lasts (ended (Edit.initContainer x spec ws)) →
    ∃ t, Edit.initContainer x spec ws = .error (.notVariadic x) t ∧
      t.inputNames x = .ok (names ++ (Container.head spec).map (·.name))
  refresh : Lasts (ended (Edit.refreshControls x ws)) →
    ∃ t, Edit.refreshControls x ws = .ok () t ∧
      t.inputNames x = .ok (names.erase Container.controlsInput ++ [Container.controlsInput])

section Forming

variable {strict : Prop} {d : BlockDefinition} {ts : List InputTemplate} {n : Nat} {b : Block α}

omit [Scalar α] in
theorem inputNames_eq_ok (hb : ws.blocks[x]? = some b) :
    ws.inputNames x = .ok (b.inputs.map (·.name)) := by
  unfold inputNames
  rw [block_eq_ok.mpr hb]
  rfl

omit [Scalar α] in
theorem Forming.inputNames (h : Forming True x d n ts ws) :
    ws.inputNames x = .ok (ts.map (·.name)) := by
  obtain ⟨b, hb⟩ := (h.stays trivial).2
  have hnames : List.Forall₂ (fun (i : Input) (t : InputTemplate) => i.name = t.name) b.inputs ts :=
    (h.own b hb).1.inputs.imp fun _ _ hi => hi.name
  have hsame : b.inputs.map (·.name) = ts.map (·.name) :=
    List.forall₂_eq_eq_eq ▸ List.forall₂_map_left_iff.mpr (List.forall₂_map_right_iff.mpr hnames)
  rw [inputNames_eq_ok hb, hsame]

omit [Scalar α] in
theorem Forming.plain (h : Forming True x d n ts ws) (hd : d.container = none) : ws.Plain x := by
  obtain ⟨b, hb⟩ := (h.stays trivial).2
  refine ⟨b, hb, ?_⟩
  rw [(h.own b hb).1.known]
  exact hd

theorem Plain.overlooks {names : List String} (h : ws.Plain x) (hs : ws.Sound) (hshaped : ws.Shaped)
    (htame : ws.graph.Tame x) (hnames : ws.inputNames x = .ok names) : ws.Overlooks x names := by
  obtain ⟨b, hb, hplain⟩ := h
  obtain ⟨d, ts, -, hform⟩ := Forming.start True hs hshaped (fun _ => ⟨htame, b, hb⟩) hb
  have hd : d.container = none := by
    rw [(hform.own b hb).1.known] at hplain
    exact hplain
  obtain rfl : ts.map (·.name) = names := Except.ok.inj (hform.inputNames.symm.trans hnames)
  have hstays : ∀ t : Workspace α, ¬ Unformed True t := fun t h => h.2.2 trivial
  constructor
  case init =>
    intro spec hlast
    have hhead : Lasts (ended ((Container.head spec).forM (Edit.addInput x) ws)) := by
      unfold Edit.initContainer at hlast
      cases hm : (Container.head spec).forM (Edit.addInput x) ws with
      | ok _ t =>
        rw [bind_eq hm] at hlast
        exact (Edit.setUnits_shapes False x 0).lasts_of_ended hlast
      | error refusal t =>
        rw [bind_error hm] at hlast
        exact hlast
    obtain ⟨_, t, hadd, hform'⟩ := (Edit.addInputs_forms _).carried_out hstays hform hhead
    refine ⟨t, ?_, ?_⟩
    · rw [Edit.initContainer, bind_eq hadd]
      exact Edit.setUnits_of_error 0 (hform'.plain hd).containerTemplate
    · rw [hform'.inputNames, List.map_append]
  case refresh =>
    intro hlast
    obtain ⟨_, t, hshow, hform'⟩ := Edit.refreshControls_forms.carried_out hstays hform hlast
    refine ⟨t, hshow, ?_⟩
    have hname : (fun t : InputTemplate => decide (t.name = Container.controlsInput)) =
        (· == Container.controlsInput) ∘ (·.name) :=
      funext fun t => (beq_eq_decide t.name Container.controlsInput).symm
    rw [hform'.inputNames, List.map_append, hname, List.erase_eq_eraseP', List.eraseP_map]
    rfl

end Forming

end Workspace

namespace Editor

open Workspace

variable [Scalar α] {config : EditorConfig α} {ds : List BlockDefinition}
  {actions : List (Action α)} {x : BlockId}

theorem run_typed (config : EditorConfig α) (ds : List BlockDefinition)
    (actions : List (Action α)) :
    ((fresh config (Registry.empty.registerAll ds)).run actions).workspace.Typed := by
  refine (run_endures _ actions).typed (Registry.keyed_registerAll ds) fun y b hb => ?_
  rw [fresh, getElem?_blocks_empty] at hb
  cases hb

/-- In every run over whatever definitions, what is meant for containers is declined by a block of
another type. -/
theorem run_declines (hplain : ((fresh config (Registry.empty.registerAll ds)).run
      actions).workspace.Plain x) :
    let ws := ((fresh config (Registry.empty.registerAll ds)).run actions).workspace
    ws.Declines x ∧
      (ws.registry.OnePlug → ws.registry.Tidy → Lasts ws → ws.graph.Tame x →
        ∀ names, ws.inputNames x = .ok names → ws.Overlooks x names) := by
  intro ws
  refine ⟨hplain.declines (run_typed config ds actions), ?_⟩
  intro hone htidy hlast htame names hnames
  have hregistry : ws.registry = Registry.empty.registerAll ds := (run_endures _ actions).registry
  rw [hregistry] at hone htidy
  obtain ⟨hs, hshaped⟩ := run_shaped hone htidy hlast
  exact hplain.overlooks hs hshaped htame hnames

/-- A statement that holds a comprehension. -/
theorem run_declines_return :
    let ws := ((fresh (.standard : EditorConfig Int) Palette.registry).run
      [.newBlock "Return", .newBlock "ListComp", .connect ⟨1⟩ ⟨2⟩]).workspace
    ws.Plain ⟨0⟩ ∧ ws.Declines ⟨0⟩ ∧ ws.Overlooks ⟨0⟩ ["value"] := by
  intro ws
  have hplain : ws.Plain ⟨0⟩ := by decide +kernel
  obtain ⟨hdeclines, hoverlooks⟩ := run_declines hplain
  refine ⟨hplain, hdeclines, hoverlooks Palette.registry_onePlug Palette.registry_tidy ?_ ?_ _ ?_⟩
  · decide +kernel
  · exact acyclic_of_ordered (by decide +kernel) ⟨0⟩
  · rfl

/-- A number is no container. It shows controls when it is told to, and has an opening mark when it
declines to become a list. -/
theorem number_overlooks :
    let e := (fresh (.standard : EditorConfig Int) Palette.registry).run [.newBlock "int"]
    let names ws := (inputNames (α := Int) ws ⟨0⟩).toOption
    e.workspace.Plain ⟨0⟩ ∧ names e.workspace = some [""] ∧
      e.accepts (.refreshControls ⟨0⟩) ∧
      names (e.after (.refreshControls ⟨0⟩)).workspace = some ["", "controls"] ∧
      names (ended (Edit.initContainer ⟨0⟩ ⟨.list, "[", "]", none⟩ e.workspace)) =
        some ["", "open_with"] := by
  decide +kernel

end Editor

end BlockEditor
