import BlockEditor.Proofs.Containers
import BlockEditor.Proofs.Copying
import BlockEditor.Proofs.Counting
import BlockEditor.Proofs.Evaluation
import BlockEditor.Proofs.Palette
import BlockEditor.Proofs.Runs
import BlockEditor.Proofs.Whole

/-!
# Taking a snapshot and building it

A snapshot that was taken of a live block can be built again, in the same editor or in another one.
What is built has the same snapshot and as many blocks, and what was there before stays as it was.
-/

namespace BlockEditor

variable {α : Type} [Scalar α]

namespace Workspace

variable {r : Registry} {ws t : Workspace α} {id x : BlockId} {s : Snapshot}

omit [Scalar α] in
/-- Of what is not there yet nothing is missing. -/
theorem Sound.whole_old (h : ws.Sound) : ws.Whole {c | c.index.toNat < ws.ids.connections} :=
  fun _ hc _ _ _ _ _ _ _ hy => (hc (h.connectionIds hy)).elim

omit [Scalar α] in
/-- What was built without holes has the snapshot that it was built from. -/
theorem Copied.records (h : ws.Copied r s id t)
    (hwhole : t.Whole {c | c.index.toNat < ws.ids.connections}) : t.Records id s where
  tame := h.fresh.loose.tame h.standard.sound.wired
  full c y hy hbranch := by
    refine hwhole c fun hc => ?_
    have hold := h.fresh.extend.owner_old h.fresh.start (Set.notMem_empty c) hc hy
    have hnew := h.fresh.extend.branch_new h.fresh.start h.standard.sound h.fresh.new hbranch
    omega
  saved := h.saved

end Workspace

namespace Edit

open Workspace

variable {r : Registry} {s : Snapshot}

/-- A snapshot that was taken of a block is built, and not refused. -/
theorem restore_copies (hdistinct : r.Distinct) (hs : s.Genuine α r) (ws : Workspace α) :
    Leads (fun t => t = ws ∧ ws.Standard r) (restore s)
      (fun id t => ws.Copied r s id t ∧ t.Records id s) fun _ => False := by
  refine ((build_copies hdistinct s hs ws).and (build_grows stable_whole.growing s false
    {c | c.index.toNat < ws.ids.connections} ws)).weaken ?_ ?_ fun _ h => h.1
  · rintro _ ⟨rfl, h⟩
    exact ⟨⟨rfl, h⟩, rfl, h.sound, h.sound.whole_old⟩
  · exact fun id t h => ⟨h.1, h.1.records h.2.1.keeps⟩

end Edit

namespace Editor

open Workspace

variable {config : EditorConfig α} {e : Editor α} {actions : List (Action α)} {b : BlockId}
  {s : Snapshot}

/-- From the snapshot a block is built anew, with `n` blocks in all. Its snapshot is the same again,
and what was there before is as it was. -/
structure Rebuilds (e : Editor α) (s : Snapshot) (n : Nat) (root : BlockId) (t : Editor α) : Prop where
  built : Act.edit (Edit.restore s) e = .ok root t
  saved : t.workspace.save root = .ok s
  size : ∃ l, t.workspace.descendants root = .ok l ∧ l.length = n
  new : ¬ e.workspace.Live root
  blocks : ∀ (x : BlockId) b, e.workspace.blocks[x]? = some b → t.workspace.blocks[x]? = some b
  connections : ∀ (c : ConnectionId) y, e.workspace.connections[c]? = some y →
    t.workspace.connections[c]? = some y

theorem run_standard (hstart : create config Palette.registry = .ok e)
    (hlast : Lasts (e.run actions)) : (e.run actions).workspace.Standard Palette.registry := by
  obtain ⟨-, rfl⟩ := create_eq_ok hstart
  obtain ⟨hs, hshaped⟩ := run_shaped Palette.registry_onePlug Palette.registry_tidy hlast
  exact ⟨hs, hshaped, run_registry Palette.registry_onePlug hlast⟩

/-- A run in which nothing is refused leaves no input without its placeholder. -/
theorem run_records (hstart : create config Palette.registry = .ok e) (hlast : Lasts (e.run actions))
    (haccepted : e.Accepted actions) (hacyclic : (e.run actions).workspace.graph.Acyclic)
    (hs : (e.run actions).workspace.save b = .ok s) : (e.run actions).workspace.Records b s := by
  obtain ⟨-, rfl⟩ := create_eq_ok hstart
  have hstart' : Steady Whole ∅ (Workspace.empty config Palette.registry) :=
    ⟨empty_sound Palette.registry_onePlug, fun c _ x b' i y hb' => by
      rw [getElem?_blocks_empty] at hb'
      cases hb'⟩
  have hend := run_accepted stable_whole hstart' hlast False.elim haccepted
  exact ⟨hacyclic b, fun c _ _ _ => hend.keeps c (Set.notMem_empty c), hs⟩

theorem after_restore (u : Editor α) (s : Snapshot) :
    u.after (.restore s) = (Act.edit (Edit.restore s)).leaves u :=
  after_discard rfl

theorem rebuilds_of_records {ws : Workspace α} {u : Editor α} (hw : ws.Standard Palette.registry)
    (hs : ws.Records b s) {l : List BlockId} (hl : ws.descendants b = .ok l)
    (hu : u.workspace.Standard Palette.registry) (hlast : Lasts (u.after (.restore s))) :
    ∃ root t, u.Rebuilds s l.length root t := by
  have hrestore := (Edit.restore_copies Palette.registry_distinct ⟨ws, b, hw, hs⟩ u.workspace).edit u
  rw [after_restore] at hlast
  unfold Act.leaves at hlast
  cases hm : Act.edit (Edit.restore s) u with
  | error err t =>
    rw [hm] at hrestore hlast
    exact ((hrestore hlast).2 ⟨rfl, hu⟩).elim
  | ok root t =>
    rw [hm] at hrestore hlast
    obtain ⟨hcopied, hrecords⟩ := (hrestore hlast).2 ⟨rfl, hu⟩
    obtain ⟨l', hl', hlen'⟩ := hrecords.descendants hcopied.standard Palette.registry_distinct
    obtain ⟨l₀, hl₀, hlen⟩ := hs.descendants hw Palette.registry_distinct
    rw [hl, Except.ok.injEq] at hl₀
    subst hl₀
    refine ⟨root, t, hm, hcopied.saved, ⟨l', hl', hlen'.trans hlen.symm⟩, fun hold => ?_,
      fun x b hb => ?_, fun c y hy => ?_⟩
    · obtain ⟨b', hb'⟩ := hold
      have hlt := hu.sound.blockIds hb'
      have hle := hcopied.fresh.new
      omega
    · exact hcopied.fresh.extend.block hu.sound hb
    · exact hcopied.fresh.extend.connection hu.sound hy (Set.notMem_empty c)

/-- Of a live block in an acyclic state a snapshot can be taken, if nothing was refused on the way
to the state. The snapshot can be built in every editor of the palette. -/
theorem restore_save (hstart : create config Palette.registry = .ok e)
    (hlast : Lasts (e.run actions)) (haccepted : e.Accepted actions)
    (hacyclic : (e.run actions).workspace.graph.Acyclic) (hb : (e.run actions).workspace.Live b) :
    ∃ s l, (e.run actions).workspace.save b = .ok s ∧
      (e.run actions).workspace.descendants b = .ok l ∧
      ∀ (config' : EditorConfig α) (e' : Editor α) (actions' : List (Action α)),
        create config' Palette.registry = .ok e' →
        Lasts ((e'.run actions').after (.restore s)) →
        ∃ root t, (e'.run actions').Rebuilds s l.length root t := by
  have hw := run_standard hstart hlast
  obtain ⟨s, hs⟩ := hw.sound.save_ok hb
  have hrecords := run_records hstart hlast haccepted hacyclic hs
  obtain ⟨l, hl, -⟩ := hrecords.descendants hw Palette.registry_distinct
  refine ⟨s, l, hs, hl, fun config' e' actions' hstart' hlast' => ?_⟩
  exact rebuilds_of_records hw hrecords hl (run_standard hstart' (lasts_of_after hlast')) hlast'

/-- A function whose body holds a list and a sum. A slot of the list has a placeholder; the sum has
taken the place of another one. -/
def functionSteps : List (Action Int) :=
  [.newBlock "FunctionDef", .newBlock "Assign", .newBlock "Return", .newBlock "List",
    .setUnits ⟨3⟩ 2, .newBlock "BinOp", .newBlock "int", .connect ⟨2⟩ ⟨3⟩, .connect ⟨4⟩ ⟨6⟩,
    .connect ⟨5⟩ ⟨8⟩, .setTemplate ⟨9⟩ (some (.placeholderOfType "int")),
    .setTemplate ⟨7⟩ (some (.placeholderOfType "Name")), .connect ⟨7⟩ ⟨11⟩, .connect ⟨12⟩ ⟨14⟩,
    .setField ⟨5⟩ "value" "7", .setCopyOnDrag ⟨4⟩ (some true)]

def functionBuilt : Editor Int :=
  (fresh .standard Palette.registry).run functionSteps

/-- The function is built again beside itself, and in an empty editor. -/
theorem restore_save_function : ∃ s l, functionBuilt.workspace.save ⟨0⟩ = .ok s ∧
    functionBuilt.workspace.descendants ⟨0⟩ = .ok l ∧
    (∃ root t, functionBuilt.Rebuilds s l.length root t) ∧
    ∃ root t, (fresh (.standard : EditorConfig Int) Palette.registry).Rebuilds s l.length root t := by
  have hstart : create (.standard : EditorConfig Int) Palette.registry =
      .ok (fresh .standard Palette.registry) := create_fresh (by decide)
  have hlive : functionBuilt.workspace.Live ⟨0⟩ := by
    refine Option.isSome_iff_exists.mp ?_
    decide +kernel
  have haccepted : (fresh (.standard : EditorConfig Int) Palette.registry).Accepted functionSteps :=
    accepted_of_acceptsAll (by decide +kernel)
  obtain ⟨s, l, hs, hl, hbuild⟩ := restore_save hstart (by decide +kernel) haccepted
    (acyclic_of_ordered (by decide +kernel)) hlive
  have hsaved : (functionBuilt.workspace.save ⟨0⟩).toOption.getD default = s := by
    rw [functionBuilt, hs]
    rfl
  refine ⟨s, l, hs, hl, hbuild _ _ functionSteps hstart ?_, hbuild _ _ [] hstart ?_⟩
  · rw [← hsaved]
    decide +kernel
  · rw [← hsaved]
    decide +kernel

end Editor

end BlockEditor
