import BlockEditor.Proofs.Evaluation
import BlockEditor.Proofs.Shapes

/-!
# The shape of a container

Whatever was done to a container before, its inputs are those of its type and its number of units,
and it takes any number of units after that.
-/

namespace BlockEditor

variable {α : Type}

/-- An input without the texts that its fields hold and with what its connection is, if it has
one. -/
structure Outline where
  name : String
  kind : InputKind
  fields : List Field
  connection : Option (Option (ConnectionKind × Option (List String)))
deriving DecidableEq

namespace Workspace

def outline (ws : Workspace α) (i : Input) : Outline where
  name := i.name
  kind := i.kind
  fields := i.fields.map (Field.setText "")
  connection := i.connection.map fun c => (ws.connections[c]?).map fun y => (y.kind, y.check)

end Workspace

namespace Container

/-- A row of fields. -/
def rowOutline (name : String) (fields : List Field) : Outline :=
  ⟨name, .dummy, fields, none⟩

def slotOutline (name : String) (fields : List Field) (check : Option (List String)) : Outline :=
  ⟨name, .value, fields, some (some (.inputValue, check))⟩

/-- A stem with a position of at least six digits. -/
def padded (stem : String) (position : Nat) : String :=
  stem ++ "_" ++ String.ofList ((Nat.toDigits 10 position).leftpad 6 '0')

/-- One unit: a clause of a comprehension, or a slot that a comma separates from the one before. -/
def unitOutline : ContainerKind → Nat → List Outline
  | .comprehension true, p =>
    [slotOutline (padded "target" p) [.label "for"] none,
      slotOutline (padded "iter" p) [.label "in"] none,
      slotOutline (padded "if" p) [.label "if"] none]
  | .comprehension false, p =>
    [slotOutline (padded "target" p) [.label "for"] none,
      slotOutline (padded "iter" p) [.label "in"] none]
  | .dict, p =>
    [slotOutline (padded "input" p) (if 1 < p then [.label ","] else [])
      (some ["dict_item", "dict_unpack"])]
  | _, p => [slotOutline (padded "input" p) (if 1 < p then [.label ","] else []) none]

def outlines (spec : ContainerTemplate) (n : Nat) : List Outline :=
  [rowOutline "open_with"
    ((if spec.kind = .call then [.text "func" ""] else []) ++ [.label spec.openWith])]
  ++ (if spec.kind.isComprehension then [slotOutline "elt" [] spec.elementCheck] else [])
  ++ (List.range' 1 n).flatMap (unitOutline spec.kind)
  ++ [rowOutline "close_with" (if spec.closeWith.isEmpty then [] else [.label spec.closeWith]),
    rowOutline "controls" (if 1 < n then [.action .add, .action .remove] else [.action .add])]

end Container

/-- What an input looks like that is made after the template. -/
def InputTemplate.outline (t : InputTemplate) : Outline where
  name := t.name
  kind := t.kind
  fields := t.fields.map (Field.setText "")
  connection := t.kind.connection?.map fun k => some (k, t.check)

namespace Container

theorem outline_unitSlots (kind : ContainerKind) (p : Nat) :
    (unitSlots kind p).map InputTemplate.outline = unitOutline kind p := by
  have hcomma : ∀ check, InputTemplate.outline ⟨slotName "input" p, .value,
      (if 1 < p then some "," else none).toList.map .label, check⟩ =
      slotOutline (padded "input" p) (if 1 < p then [.label ","] else []) check := by
    intro check
    by_cases hp : 1 < p
    · simp only [if_pos hp]
      rfl
    · simp only [if_neg hp]
      rfl
  cases kind with
  | comprehension hasCondition => cases hasCondition <;> rfl
  | _ => exact congrArg (· :: []) (hcomma _)

theorem outline_plan (spec : ContainerTemplate) (n : Nat) :
    (plan spec n).map InputTemplate.outline = outlines spec n := by
  have hhead : (head spec).map InputTemplate.outline =
      [rowOutline "open_with"
        ((if spec.kind = .call then [.text "func" ""] else []) ++ [.label spec.openWith])]
      ++ (if spec.kind.isComprehension then [slotOutline "elt" [] spec.elementCheck] else []) := by
    unfold head opening
    by_cases hcall : spec.kind = .call
    · rw [hcall]
      rfl
    · simp only [if_neg hcall]
      split <;> rfl
  have hslots : (slotsAfter spec.kind 0 n).map InputTemplate.outline =
      (List.range' 1 n).flatMap (unitOutline spec.kind) := by
    rw [slotsAfter, List.map_flatMap]
    simp only [outline_unitSlots, Nat.sub_zero, Nat.zero_add]
  have hmarks : [closing spec, controls n].map InputTemplate.outline =
      [rowOutline "close_with" (if spec.closeWith.isEmpty then [] else [.label spec.closeWith]),
        rowOutline "controls" (if 1 < n then [.action .add, .action .remove] else [.action .add])] := by
    unfold closing controls
    split <;> split <;> rfl
  rw [plan, body, List.map_append, List.map_append, hhead, hslots, hmarks, outlines]

end Container

namespace Workspace

variable {ws : Workspace α} {x : BlockId} {b : Block α} {ts : List InputTemplate}

/-- In a sound workspace an input looks like the template that it follows. -/
theorem outline_of_follows (hs : ws.Sound) (hb : ws.blocks[x]? = some b) {i : Input}
    {t : InputTemplate} (hi : i ∈ b.inputs) (h : ws.Follows i t) : ws.outline i = t.outline := by
  have hconnection : (i.connection.map fun c =>
      (ws.connections[c]?).map fun y => (y.kind, y.check)) =
        t.kind.connection?.map fun k => some (k, t.check) := by
    rcases h.plain_or_socket hs hb hi with ⟨hc, hk⟩ | ⟨c, y, hc, hy, -, hk, hcheck⟩
    · rw [hc, hk]
      rfl
    · rw [hc, hk, Option.map_some, hy, ← hcheck]
      rfl
  rw [outline, h.name, h.kind, h.fields, hconnection]
  rfl

theorem Styled.outline {d : BlockDefinition} (h : ws.Styled b d ts) (hs : ws.Sound)
    (hb : ws.blocks[x]? = some b) : b.inputs.map ws.outline = ts.map InputTemplate.outline := by
  have hall := (List.forall₂_and_left _ _).mpr ⟨fun i hi => hi, h.inputs⟩
  have hsame := hall.imp fun i t hi => outline_of_follows hs hb hi.1 hi.2
  exact List.forall₂_eq_eq_eq ▸ (List.forall₂_map_left_iff.mpr (List.forall₂_map_right_iff.mpr hsame))

theorem empty_shaped (config : EditorConfig α) {registry : Registry} (h : registry.Tidy) :
    (empty config registry).Shaped where
  tidy := h
  at_ x b hb := by
    rw [getElem?_blocks_empty] at hb
    cases hb

/-- The inputs of a container of the given kind and number of units, each under a name of its own. -/
def ContainerAt (ws : Workspace α) (x : BlockId) (kind : ContainerKind) : Prop :=
  ∃ b d spec, ws.blocks[x]? = some b ∧ Palette.registry.get? b.typeName = some d ∧
    d.container = some spec ∧ spec.kind = kind ∧ b.units ≤ 999999 ∧
    b.inputs.map ws.outline = Container.outlines spec b.units ∧ (b.inputs.map (·.name)).Nodup

theorem Shaped.container (h : ws.Shaped) (hs : ws.Sound) (hr : ws.registry = Palette.registry)
    {kind : ContainerKind} (hk : (ws.blocks[x]?).bind (·.container) = some kind) :
    ws.ContainerAt x kind := by
  obtain ⟨b, hb, hkind⟩ := Option.bind_eq_some_iff.mp hk
  obtain ⟨d, ts, hstyled, hplan⟩ := h.at_ x b hb
  rw [hstyled.container, Option.map_eq_some_iff] at hkind
  obtain ⟨spec, hd, hspec⟩ := hkind
  obtain ⟨hunits, rfl⟩ := hplan.eq_plan hd
  have houtline := hstyled.outline hs hb
  have hnames : b.inputs.map (·.name) = (Container.plan spec b.units).map (·.name) := by
    have := congrArg (List.map Outline.name) houtline
    rwa [List.map_map, List.map_map] at this
  rw [Container.outline_plan] at houtline
  refine ⟨b, d, spec, hb, ?_, hd, hspec, hunits, houtline, ?_⟩
  · rw [← hr]
    exact hstyled.known
  · rw [hnames]
    exact Container.nodup_names_plan spec b.units

end Workspace

namespace Editor

open Workspace

variable [Scalar α] {config : EditorConfig α} {e : Editor α} {actions : List (Action α)}
  {x : BlockId} {kind : ContainerKind}

/-- A container that does not hang below itself takes any number of units. -/
theorem accepts_setUnits {ws : Workspace α} {n : Nat} (hws : e.workspace = ws) (hs : ws.Sound)
    (hshaped : ws.Shaped) (hlast : Lasts (e.after (.setUnits x n))) (ht : ws.graph.Tame x)
    (hspec : ∃ spec, ws.containerTemplate x = .ok spec) : e.accepts (.setUnits x n) := by
  subst hws
  have hperform : perform (.setUnits x n) e = Act.edit (Edit.setUnits x n) e := rfl
  have hedit := (Edit.setUnits_shapes True x n).edit e
  unfold after at hlast
  unfold accepts
  rw [hperform] at hlast ⊢
  cases hm : Act.edit (Edit.setUnits x n) e with
  | ok a t => rfl
  | error refusal t =>
    rw [hm] at hlast hedit
    exact (((hedit hlast).2 ⟨hs, hshaped, fun _ => ⟨ht, hspec⟩⟩).2.2 trivial).elim

/-- In a run over definitions that fit every block is shaped after its definition. -/
theorem run_shaped {registry : Registry} (hone : registry.OnePlug) (htidy : registry.Tidy)
    (hlast : Lasts ((fresh config registry).run actions)) :
    ((fresh config registry).run actions).workspace.Sound ∧
      ((fresh config registry).run actions).workspace.Shaped := by
  have hstart : Steady (fun _ => Shaped) Set.univ (Workspace.empty config registry) :=
    ⟨empty_sound hone, empty_shaped config htidy⟩
  have hend := run_steady stable_shaped hstart hlast False.elim
  exact ⟨hend.sound, hend.keeps⟩

/-- In every run over the palette the containers have the inputs that belong to their type and
number of units, and can be given any number of units. -/
theorem run_containers (hstart : create config Palette.registry = .ok e)
    (hlast : Lasts (e.run actions)) (hacyclic : (e.run actions).workspace.graph.Acyclic)
    (hk : ((e.run actions).workspace.blocks[x]?).bind (·.container) = some kind) :
    (e.run actions).workspace.ContainerAt x kind ∧
      ∀ n, Lasts ((e.run actions).after (.setUnits x n)) →
        (e.run actions).accepts (.setUnits x n) := by
  obtain ⟨-, rfl⟩ := create_eq_ok hstart
  obtain ⟨hs, hshaped⟩ := run_shaped Palette.registry_onePlug Palette.registry_tidy hlast
  have hregistry := run_registry Palette.registry_onePlug hlast
  have hcontainer := hshaped.container hs hregistry hk
  refine ⟨hcontainer, fun n hlast' => ?_⟩
  obtain ⟨b, d, spec, hb, hd, hspec, -⟩ := hcontainer
  refine accepts_setUnits rfl hs hshaped hlast' (hacyclic x) ⟨spec, ?_⟩
  unfold Workspace.containerTemplate
  rw [block_eq_ok.mpr hb, hregistry]
  simp [hd, hspec, bind, Except.bind, pure, Except.pure]

/-- A comprehension is grown, filled and shrunk again, and one press is refused. -/
theorem run_containers_comprehension :
    let e := (fresh (.standard : EditorConfig Int) Palette.registry).run
      [.newBlock "ListComp", .setUnits ⟨0⟩ 3, .newBlock "Dict", .press ⟨1⟩ .add, .connect ⟨9⟩ ⟨11⟩,
        .press ⟨0⟩ .remove, .press ⟨1⟩ .remove]
    e.workspace.ContainerAt ⟨0⟩ (.comprehension true) ∧ e.accepts (.setUnits ⟨0⟩ 4) := by
  refine (run_containers (create_fresh (by decide)) (by decide +kernel)
    (acyclic_of_ordered (by decide +kernel)) (by decide +kernel)).imp_right fun h => h 4 ?_
  decide +kernel

end Editor

end BlockEditor
