import BlockEditor.Proofs.Container.Counts
import BlockEditor.Proofs.Resizes

/-!
# Loading a stored shape

A container takes any stored shape. It is given the number of units that the shape stands for, and
stores that number from then on. A shape that was stored of a container of the same type makes it
look like that one.
-/

namespace BlockEditor

variable {α : Type}

theorem actions_setText (fields : List Field) (value : String) :
    (fields.map (Field.setText value)).filterMap Field.action? =
      fields.filterMap Field.action? := by
  rw [List.filterMap_map]
  refine List.filterMap_congr fun f _ => ?_
  cases f <;> rfl

namespace Workspace

variable {ws : Workspace α} {x : BlockId} {kind : ContainerKind} {spec : ContainerTemplate} {n : Nat}
  {b : Block α} {B : List Input}

/-- What the inputs of a block look like. -/
def outlinesAt (ws : Workspace α) (x : BlockId) : Option (List Outline) :=
  (ws.blocks[x]?).map fun b => b.inputs.map ws.outline

/-- An input is found under its name. -/
theorem input?_of_mem {i : Input} (hn : (b.inputs.map (·.name)).Nodup) (hi : i ∈ b.inputs) :
    b.input? i.name = some i := by
  cases hj : b.input? i.name with
  | none =>
    have hmiss := List.find?_eq_none.mp hj i hi
    simp at hmiss
  | some j =>
    have hmem : j ∈ b.inputs := List.mem_of_find?_eq_some hj
    have hname : j.name = i.name := by simpa using List.find?_some hj
    rw [List.inj_on_of_nodup_map hn hmem hi hname]

/-- A container can be enlarged, and made smaller if it has more than one unit. -/
theorem Standard.controls (h : ws.Standard Palette.registry)
    (hk : (ws.blocks[x]?).bind (·.container) = some kind)
    (hn : (ws.blocks[x]?).map (·.units) = some n) :
    ws.controls x = .ok (if 1 < n then [.add, .remove] else [.add]) := by
  obtain ⟨b, d, spec, hb, -, -, -, -, houtline, hnodup⟩ :=
    h.shaped.container h.sound h.registry hk
  rw [hb] at hn hk
  obtain rfl : b.units = n := Option.some.inj hn
  have hrow : Container.rowOutline "controls"
      (if 1 < b.units then [.action .add, .action .remove] else [.action .add]) ∈
        b.inputs.map ws.outline := by
    rw [houtline, Container.outlines]
    exact List.mem_append_right _ (List.mem_cons_of_mem _ List.mem_cons_self)
  obtain ⟨i, hi, he⟩ := List.mem_map.mp hrow
  have hname : i.name = "controls" := congrArg Outline.name he
  have hfields : i.fields.map (Field.setText "") =
      if 1 < b.units then [.action .add, .action .remove] else [.action .add] :=
    congrArg Outline.fields he
  have hactions : i.actions = if 1 < b.units then [.add, .remove] else [.add] := by
    rw [Input.actions, ← actions_setText i.fields "", hfields]
    split <;> rfl
  have hfound : b.input? Container.controlsInput = some i := by
    rw [← input?_of_mem hnodup hi, hname]
    rfl
  unfold Workspace.controls
  simp only [containerKindOf_eq_ok hb hk, block_eq_ok.mpr hb, hfound, Option.map_some,
    Option.getD_some, hactions, bind, Except.bind, pure, Except.pure]

/-- The type of a container and the number of its units tell what it looks like. -/
theorem Standard.outlinesAt {r : Registry} (h : ws.Standard r)
    (hspec : ws.containerTemplate x = .ok spec) (hn : (ws.blocks[x]?).map (·.units) = some n) :
    ws.outlinesAt x = some (Container.outlines spec n) := by
  obtain ⟨b, hb, rfl⟩ := Option.map_eq_some_iff.mp hn
  obtain ⟨d, ts, hstyled, hplan⟩ := h.shaped.at_ x b hb
  obtain ⟨-, rfl⟩ := hplan.eq_plan (Edit.templateOf hspec hb hstyled)
  rw [Workspace.outlinesAt, hb, Option.map_some, hstyled.outline h.sound hb, Container.outline_plan]

theorem shape_of_units (hk : (ws.blocks[x]?).bind (·.container) = some kind)
    (hn : (ws.blocks[x]?).map (·.units) = some n) : ws.shape x = .ok (Container.shapeOf n) := by
  obtain ⟨b, hb, rfl⟩ := Option.map_eq_some_iff.mp hn
  rw [hb] at hk
  exact shape_eq_ok hb hk

/-- What a stored shape tells of the block it was stored of. -/
theorem of_shape {shape : Json} (h : ws.shape x = .ok shape) :
    ∃ b kind, ws.blocks[x]? = some b ∧ b.container = some kind ∧
      shape = Container.shapeOf b.units := by
  unfold Workspace.shape Workspace.containerKindOf at h
  obtain ⟨k, hkind, h⟩ := bind_eq_ok h
  obtain ⟨b, hb, h⟩ := bind_eq_ok h
  obtain ⟨b', hb', hkind⟩ := bind_eq_ok hkind
  rw [hb, Except.ok.injEq] at hb'
  subst hb'
  cases hk : b.container with
  | none =>
    rw [hk] at hkind
    cases hkind
  | some kind =>
    cases h
    exact ⟨b, kind, block_eq_ok.mp hb, hk, rfl⟩

end Workspace

namespace Edit

open Workspace

variable [Scalar α] {ws : Workspace α} {x : BlockId} {spec : ContainerTemplate} {n : Nat}
  {B : List Input}

/-- On the way to its units the container is emptied. -/
theorem loadShape_fits (h : ws.Fitted x spec n B) (shape : Json) :
    Leads (· = ws) (loadShape x shape)
      (fun m t => m = Container.unitsOfShape shape ∧ ∃ B', t.Fitted x spec m B') fun _ => False := by
  obtain ⟨m, hm⟩ : ∃ m, m = Container.unitsOfShape shape := ⟨_, rfl⟩
  have hcap : Container.capUnits m = m := by
    rw [hm]
    exact Nat.min_eq_left (Container.unitsOf_le _)
  unfold loadShape
  rw [← hm]
  refine Leads.bind (setUnits_refits h 0) fun _ => ?_
  refine Leads.bind (Q := fun _ t => ∃ B', t.Fitted x spec m B') ?_ fun _ => Leads.pure fun t ht => ⟨rfl, ht⟩
  refine Tells.each (setUnits_shapes False x m) fun u hu => ?_
  obtain ⟨is, made, hempty⟩ := hu
  have hfitted := hempty.fitted h
  refine (setUnits_refits hfitted m).post fun _ t ht => ?_
  obtain ⟨is', made', hfull⟩ := ht
  rw [hcap] at hfull
  exact ⟨_, hfull.fitted hfitted⟩

end Edit

namespace Editor

open Workspace

variable [Scalar α] {config : EditorConfig α} {e : Editor α} {actions : List (Action α)}
  {x : BlockId} {spec : ContainerTemplate} {n : Nat} {B : List Input} {v : Json}

/-- A stored shape is loaded: the answer is the number of units that it stands for, which the block
has from then on and stores itself. -/
structure Loads (e : Editor α) (x : BlockId) (v : Json) (t : Editor α) : Prop where
  answer : Act.edit (Edit.loadShape x v) e = .ok (Container.unitsOf (v.member? "items")) t
  units : (t.workspace.blocks[x]?).map (·.units) = some (Container.unitsOf (v.member? "items"))
  stored : t.workspace.shape x =
    .ok (.obj [("items", .num (.int (Container.unitsOf (v.member? "items"))))])

theorem after_loadShape (h : e.workspace.Fitted x spec n B)
    (hlast : Lasts (e.after (.loadShape x v))) :
    Act.edit (Edit.loadShape x v) e = .ok (Container.unitsOfShape v) (e.after (.loadShape x v)) ∧
      ∃ B', (e.after (.loadShape x v)).workspace.Fitted x spec (Container.unitsOfShape v) B' := by
  have hload := (Edit.loadShape_fits h v).edit e
  have hafter : e.after (.loadShape x v) = (Act.edit (Edit.loadShape x v)).leaves e :=
    after_discard rfl
  rw [hafter] at hlast ⊢
  unfold Act.leaves at hlast ⊢
  cases hm : Act.edit (Edit.loadShape x v) e with
  | error err t =>
    rw [hm] at hload hlast
    exact ((hload hlast).2 rfl).elim
  | ok m t =>
    rw [hm] at hload hlast
    obtain ⟨rfl, hfitted⟩ := (hload hlast).2 rfl
    exact ⟨rfl, hfitted⟩

/-- In every run over the palette a container takes every stored shape, and then stores the number
of units that the shape stands for. If the shape was stored of a container of the same type, in this
run or in another one, then the two look the same. -/
theorem run_loads (hstart : create config Palette.registry = .ok e)
    (hlast : Lasts ((e.run actions).after (.loadShape x v)))
    (hacyclic : (e.run actions).workspace.graph.Acyclic)
    (hk : (((e.run actions).workspace.blocks[x]?).bind (·.container)).isSome) :
    Container.Reads Container.unitsOf ∧
    (e.run actions).Loads x v ((e.run actions).after (.loadShape x v)) ∧
    ∀ (config' : EditorConfig α) (e' : Editor α) (actions' : List (Action α)) (y : BlockId),
      create config' Palette.registry = .ok e' → Lasts (e'.run actions') →
      ((e'.run actions').workspace.blocks[y]?).map (·.typeName) =
        ((e.run actions).workspace.blocks[x]?).map (·.typeName) →
      (e'.run actions').workspace.shape y = .ok v →
      ((e.run actions).after (.loadShape x v)).workspace.outlinesAt x =
        (e'.run actions').workspace.outlinesAt y ∧
      ((e.run actions).after (.loadShape x v)).workspace.controls x =
        (e'.run actions').workspace.controls y := by
  obtain ⟨kind, hkind⟩ := Option.isSome_iff_exists.mp hk
  obtain ⟨b, hb, -⟩ := Option.bind_eq_some_iff.mp hkind
  have hbefore := run_standard hstart (lasts_of_after hlast)
  obtain ⟨-, spec, B, -, hw⟩ :=
    run_fitted hstart (lasts_of_after hlast) hacyclic hkind (by rw [hb, Option.map_some])
  obtain ⟨hanswer, B', hfitted⟩ := after_loadShape hw hlast
  have hrun : e.run (actions ++ [.loadShape x v]) = (e.run actions).after (.loadShape x v) :=
    run_append e actions _
  have hend : ((e.run actions).after (.loadShape x v)).workspace.Standard Palette.registry := by
    rw [← hrun] at hlast ⊢
    exact run_standard hstart hlast
  generalize (e.run actions).after (.loadShape x v) = t at hanswer hfitted hend ⊢
  obtain ⟨b', hb', -, hunits⟩ := hfitted.block
  obtain ⟨d, ts, hstyled, -⟩ := hend.shaped.at_ x b' hb'
  have hkind' : b'.container = some spec.kind := by
    rw [hstyled.container, Edit.templateOf hfitted.template hb' hstyled, Option.map_some]
  have hn : (t.workspace.blocks[x]?).map (·.units) = some (Container.unitsOfShape v) := by
    rw [hb', Option.map_some, hunits]
  refine ⟨Container.reads_unitsOf, ⟨hanswer, hn, shape_of_units (by rw [hb']; exact hkind') hn⟩, ?_⟩
  intro config' e' actions' y hstart' hlast' htype hshape
  have hother := run_standard hstart' hlast'
  obtain ⟨a, kind', ha, hk', rfl⟩ := of_shape hshape
  obtain ⟨hle, htemplate⟩ : a.units ≤ 999999 ∧
      (e'.run actions').workspace.containerTemplate y = .ok spec := by
    obtain ⟨a', -, -, ha', -, -, -, hle, -⟩ :=
      hother.shaped.container hother.sound hother.registry (by rw [ha]; exact hk')
    rw [ha, Option.some.injEq] at ha'
    subst ha'
    rw [ha, hb, Option.map_some, Option.map_some, Option.some.injEq] at htype
    rw [containerTemplate_eq_ok ha, hother.registry, htype, ← hbefore.registry,
      ← containerTemplate_eq_ok hb]
    exact ⟨hle, hw.template⟩
  have hcount : Container.unitsOfShape (Container.shapeOf a.units) = a.units := by
    rw [Edit.unitsOfShape_shapeOf]
    exact Nat.min_eq_left hle
  rw [hcount] at hn
  have hunits' : ((e'.run actions').workspace.blocks[y]?).map (·.units) = some a.units := by
    rw [ha, Option.map_some]
  constructor
  · rw [hend.outlinesAt hfitted.template hn, hother.outlinesAt htemplate hunits']
  · rw [hend.controls (by rw [hb']; exact hkind') hn, hother.controls (by rw [ha]; exact hk') hunits']

/-- A comprehension of three clauses with a display in one of them. -/
def loadedSteps : List (Action Int) :=
  [.newBlock "ListComp", .setUnits ⟨0⟩ 3, .newBlock "Dict", .press ⟨1⟩ .add, .connect ⟨9⟩ ⟨11⟩]

/-- A comprehension of one clause beside a list. -/
def storedSteps : List (Action Int) :=
  [.newBlock "List", .newBlock "ListComp", .setUnits ⟨1⟩ 1]

/-- The first comprehension is loaded with what the second one stored. -/
theorem run_loads_comprehension :
    let e := (fresh .standard Palette.registry).run loadedSteps
    let e' := (fresh .standard Palette.registry).run storedSteps
    let t := e.after (.loadShape ⟨0⟩ (Container.shapeOf 1))
    Container.Reads Container.unitsOf ∧ e.Loads ⟨0⟩ (Container.shapeOf 1) t ∧
      t.workspace.outlinesAt ⟨0⟩ = e'.workspace.outlinesAt ⟨1⟩ ∧
      t.workspace.controls ⟨0⟩ = e'.workspace.controls ⟨1⟩ := by
  have hlast : Lasts (((fresh (.standard : EditorConfig Int) Palette.registry).run
      loadedSteps).after (.loadShape ⟨0⟩ (Container.shapeOf 1))) := by decide +kernel
  have hkind : (((fresh (.standard : EditorConfig Int) Palette.registry).run
      storedSteps).workspace.blocks[(⟨1⟩ : BlockId)]?).bind (·.container) =
        some (.comprehension true) := by decide +kernel
  have hloads := run_loads (create_fresh (by decide)) hlast
    (acyclic_of_ordered (by decide +kernel)) (by decide +kernel)
  refine ⟨hloads.1, hloads.2.1, hloads.2.2 .standard (fresh .standard Palette.registry) storedSteps
    ⟨1⟩ (create_fresh (by decide)) (by decide +kernel) (by decide +kernel)
    (shape_of_units hkind (by decide +kernel))⟩

end Editor

end BlockEditor
