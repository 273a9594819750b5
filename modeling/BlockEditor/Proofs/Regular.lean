import BlockEditor.Proofs.Coherence

/-!
# Regular workspaces

A workspace is regular if it is coherent, no block has two plugs, and its ids are numbers that have
been handed out. That is what is asked of a workspace where no run is spoken of; every run that
starts with a registry of such blocks ends in one.
-/

namespace BlockEditor

variable {α : Type}

namespace Workspace

variable {ws : Workspace α} {id : BlockId} {b : Block α}

structure Regular (ws : Workspace α) : Prop where
  coherent : ws.Coherent
  onePlug : ∀ (x : BlockId) (b : Block α), ws.blocks[x]? = some b →
    b.output = none ∨ b.previous = none
  blockIds : ∀ (x : BlockId) (b : Block α), ws.blocks[x]? = some b →
    x.index.toNat < ws.ids.blocks
  connectionIds : ∀ (c : ConnectionId) (y : Connection α), ws.connections[c]? = some y →
    c.index.toNat < ws.ids.connections
  registry : ws.registry.OnePlug

namespace Coherent

theorem nodup_connections (h : ws.Coherent) (hb : ws.blocks[id]? = some b) :
    b.connections.Nodup := by
  refine List.nodup_iff_count_le_one.mpr fun c => ?_
  by_cases hc : c ∈ b.connections
  · obtain ⟨y, hy, rfl⟩ := h.listed id b hb c hc
    obtain ⟨b', hb', hcount, -⟩ := h.owned c y hy
    rw [hb, Option.some.injEq] at hb'
    subst hb'
    exact Nat.le_of_eq hcount
  · rw [List.count_eq_zero_of_not_mem hc]
    exact Nat.zero_le 1

/-- The kind of a connection is the one that its place asks for. -/
theorem kind (h : ws.Coherent) (hb : ws.blocks[id]? = some b) {r : Role} (hr : r ∈ b.roles) :
    ∃ y, ws.connections[r.1]? = some y ∧ y.block = id ∧ some y.kind = r.2 := by
  have hnodup := h.nodup_connections hb
  rw [← b.map_fst_roles] at hnodup
  have hmem : r.1 ∈ b.connections := by
    rw [← b.map_fst_roles]
    exact List.mem_map_of_mem hr
  obtain ⟨y, hy, rfl⟩ := h.listed id b hb r.1 hmem
  obtain ⟨b', hb', -, hrole⟩ := h.owned r.1 y hy
  rw [hb, Option.some.injEq] at hb'
  subst hb'
  have heq := List.inj_on_of_nodup_map hnodup hrole hr rfl
  exact ⟨y, hy, rfl, congrArg Prod.snd heq⟩

/-- A plug is where a plug is asked for. -/
theorem plug (h : ws.Coherent) {c : ConnectionId} {y : Connection α}
    (hy : ws.connections[c]? = some y) (hk : y.kind.isPlug) (hb : ws.blocks[y.block]? = some b) :
    b.output = some c ∨ b.previous = some c := by
  obtain ⟨b', hb', -, hrole⟩ := h.owned c y hy
  rw [hb, Option.some.injEq] at hb'
  subst hb'
  rcases mem_roles.mp hrole with ⟨hc, -⟩ | ⟨hc, -⟩ | ⟨-, hn⟩ | ⟨i, -, -, hi⟩
  · exact Or.inl hc
  · exact Or.inr hc
  · rw [Option.some.inj hn] at hk
    cases hk
  · rw [ConnectionKind.isPlug_eq_not, InputKind.isSocket_of_connection? hi.symm] at hk
    cases hk

theorem furnished (h : ws.Coherent) : ws.Furnished where
  socket {x b c} hb hc := by
    rcases mem_sockets.mp hc with ⟨i, hi, hic⟩ | hn
    · obtain ⟨y, hy, hyx, hk⟩ := h.kind hb (r := (c, i.kind.connection?))
        (mem_roles.mpr (Or.inr (Or.inr (Or.inr ⟨i, hi, hic, rfl⟩))))
      exact ⟨y, hy, hyx, InputKind.isSocket_of_connection? hk.symm⟩
    · obtain ⟨y, hy, hyx, hk⟩ := h.kind hb (r := (c, some .nextStatement))
        (mem_roles.mpr (Or.inr (Or.inr (Or.inl ⟨hn, rfl⟩))))
      exact ⟨y, hy, hyx, by rw [Option.some.inj hk]; rfl⟩
  target {c d y} hy ht := by
    obtain ⟨z, hz, -⟩ := h.linked c d y hy ht
    obtain ⟨b, hb, -⟩ := h.owned d z hz
    exact ⟨z, hz, b, hb⟩

end Coherent

namespace Regular

/-- The graph of a regular workspace is sound. -/
theorem sound (h : ws.Regular) : ws.Sound where
  wired :=
    { listed := fun {x l r} hl hr => by
        obtain ⟨b, hb, rfl⟩ := block_of_ends hl
        obtain ⟨y, hy, hyb, hk⟩ := h.coherent.kind hb hr
        exact ⟨y.wire, wire_of_connection hy, hyb, hk⟩
      owned := fun {c w} hw => by
        obtain ⟨y, hy, rfl⟩ := connection_of_wire hw
        obtain ⟨b, hb, -, hr⟩ := h.coherent.owned c y hy
        exact ⟨b.roles, ends_of_block hb, hr⟩
      once := fun {x l} hl => by
        obtain ⟨b, hb, rfl⟩ := block_of_ends hl
        rw [b.map_fst_roles]
        exact h.coherent.nodup_connections hb
      onePlug := fun {c d w v} hw hv hblock hk hk' => by
        obtain ⟨y, hy, rfl⟩ := connection_of_wire hw
        obtain ⟨z, hz, rfl⟩ := connection_of_wire hv
        obtain ⟨b, hb, -⟩ := h.coherent.owned c y hy
        have hc := h.coherent.plug hy hk hb
        have hd := h.coherent.plug hz hk' ((show y.block = z.block from hblock) ▸ hb)
        rcases h.onePlug _ b hb with hnone | hnone <;> simp_all
      joined := fun {c w d} hw ht => by
        obtain ⟨y, hy, rfl⟩ := connection_of_wire hw
        obtain ⟨z, hz, hzt, hk, hfits, hne⟩ := h.coherent.linked c d y hy ht
        exact ⟨z.wire, wire_of_connection hz, hzt, hk, hfits, hne⟩ }
  blockIds := h.blockIds _ _
  connectionIds := h.connectionIds _ _
  registry := h.registry

end Regular

theorem Sound.regular (h : ws.Sound) (htop : ws.Topped) : ws.Regular where
  coherent := h.coherent htop
  onePlug x b hb := by
    cases ho : b.output with
    | none => exact Or.inl rfl
    | some c =>
      cases hp : b.previous with
      | none => exact Or.inr rfl
      | some d =>
        obtain ⟨y, hy, hyb, hk⟩ := h.listed hb (r := (c, some .outputValue))
          (mem_roles.mpr (Or.inl ⟨ho, rfl⟩))
        obtain ⟨z, hz, hzb, hk'⟩ := h.listed hb (r := (d, some .previousStatement))
          (mem_roles.mpr (Or.inr (Or.inl ⟨hp, rfl⟩)))
        have hy' : y.wire.kind.isPlug := by
          rw [show y.wire.kind = _ from Option.some.inj hk]
          rfl
        have hz' : z.wire.kind.isPlug := by
          rw [show z.wire.kind = _ from Option.some.inj hk']
          rfl
        have hcd : c = d := h.wired.onePlug (wire_of_connection hy) (wire_of_connection hz)
          (hyb.trans hzb.symm) hy' hz'
        subst hcd
        rw [hy, Option.some.injEq] at hz
        subst hz
        rw [hk] at hk'
        cases hk'
  blockIds _ _ hb := h.blockIds hb
  connectionIds _ _ hy := h.connectionIds hy
  registry := h.registry

end Workspace

namespace Editor

variable [Scalar α] {config : EditorConfig α} {registry : Registry} {e : Editor α}
  {actions : List (Action α)}

/-- Whatever is done to an editor, its workspace is regular. -/
theorem run_regular (hone : registry.OnePlug) (hstart : create config registry = .ok e)
    (hlast : Lasts (e.run actions)) (hacyclic : e.StaysAcyclic actions) :
    (e.run actions).workspace.Regular := by
  obtain ⟨hs, htop⟩ := run_sound hone hstart hlast hacyclic
  exact hs.regular htop

end Editor

end BlockEditor
