import BlockEditor.Proofs.Graph.Height
import BlockEditor.Proofs.Graph.Tree
import BlockEditor.Workspace.Tree

/-!
# The graph of a workspace

A workspace is sound if its graph is wired and its ids are numbers that have been handed out. In a
sound workspace no question about what exists is refused, and the answers speak of the graph.
-/

namespace BlockEditor

variable {α : Type}

def Input.role? (i : Input) : Option Role :=
  i.connection.map (·, i.kind.connection?)

/-- The ends of a block, with the kinds that their places ask for. -/
def Block.roles (b : Block α) : List Role :=
  b.output.toList.map (·, some .outputValue) ++ b.previous.toList.map (·, some .previousStatement)
    ++ b.next.toList.map (·, some .nextStatement) ++ b.inputs.filterMap Input.role?

def Connection.wire (c : Connection α) : Wire :=
  ⟨c.block, c.kind, c.check, c.target⟩

/-- No definition asks for two plugs. -/
def Registry.OnePlug (r : Registry) : Prop :=
  ∀ typeName d, r.get? typeName = some d → d.output = none ∨ d.previous = none

theorem Block.map_fst_roles (b : Block α) : b.roles.map Prod.fst = b.connections := by
  simp only [roles, connections, List.map_append, List.map_map, List.map_filterMap]
  congr 1
  · simp only [Function.comp_def, List.map_id']
  · congr 1
    funext i
    cases h : i.connection <;> simp [Input.role?, h]

namespace Workspace

variable {ws : Workspace α} {id : BlockId} {c d : ConnectionId} {b : Block α}
  {x y : Connection α}

def graph (ws : Workspace α) : Graph where
  ends b := (ws.blocks[b]?).map Block.roles
  wire c := (ws.connections[c]?).map Connection.wire

def isPlaceholder (ws : Workspace α) (id : BlockId) : Bool :=
  (ws.blocks[id]?).any (·.placeholder)

structure Sound (ws : Workspace α) : Prop where
  wired : ws.graph.Wired
  blockIds : ∀ {id : BlockId} {b}, ws.blocks[id]? = some b → id.index.toNat < ws.ids.blocks
  connectionIds : ∀ {c : ConnectionId} {x}, ws.connections[c]? = some x → c.index.toNat < ws.ids.connections
  registry : ws.registry.OnePlug

/-! ### Blocks and connections -/

theorem ends_of_block (h : ws.blocks[id]? = some b) : ws.graph.ends id = some b.roles := by
  simp [graph, h]

theorem wire_of_connection (h : ws.connections[c]? = some x) : ws.graph.wire c = some x.wire := by
  simp [graph, h]

theorem connection_of_wire {w : Wire} (h : ws.graph.wire c = some w) :
    ∃ x, ws.connections[c]? = some x ∧ x.wire = w := by
  simpa [graph] using h

theorem block_of_ends {l : List Role} (h : ws.graph.ends id = some l) :
    ∃ b, ws.blocks[id]? = some b ∧ b.roles = l := by
  simpa [graph] using h

theorem block_eq_ok : ws.block id = .ok b ↔ ws.blocks[id]? = some b := by
  unfold block
  cases ws.blocks[id]? <;> simp

theorem connection_eq_ok : ws.connection c = .ok x ↔ ws.connections[c]? = some x := by
  unfold connection
  cases ws.connections[c]? <;> simp

theorem getElem?_insert (blocks : Std.ExtTreeMap BlockId (Block α)) (id x : BlockId) (b : Block α) :
    (blocks.insert id b)[x]? = if x = id then some b else blocks[x]? := by
  simp only [Std.ExtTreeMap.getElem?_insert, Std.LawfulEqCmp.compare_eq_iff_eq]
  exact ite_congr (propext eq_comm) (fun _ => rfl) fun _ => rfl

theorem hasBlock_iff : ws.hasBlock id ↔ ∃ b, ws.blocks[id]? = some b := by
  rw [← Option.isSome_iff_exists, hasBlock, ← Std.ExtTreeMap.contains_eq_isSome_getElem?]

theorem mem_plugs : c ∈ b.plugs ↔ b.output = some c ∨ b.previous = some c := by
  simp [Block.plugs]

theorem mem_sockets : c ∈ b.sockets ↔ (∃ i ∈ b.inputs, i.connection = some c) ∨ b.next = some c := by
  simp [Block.sockets]

theorem mem_roles {r : Role} : r ∈ b.roles ↔
    (b.output = some r.1 ∧ r.2 = some .outputValue) ∨
    (b.previous = some r.1 ∧ r.2 = some .previousStatement) ∨
    (b.next = some r.1 ∧ r.2 = some .nextStatement) ∨
    ∃ i ∈ b.inputs, i.connection = some r.1 ∧ r.2 = i.kind.connection? := by
  obtain ⟨c, k⟩ := r
  simp only [Block.roles, Input.role?, List.mem_append, List.mem_map, Option.mem_toList,
    List.mem_filterMap, Option.map_eq_some_iff, Prod.mk.injEq, or_assoc]
  grind

theorem InputKind.isSocket_of_connection? {k : InputKind} {m : ConnectionKind}
    (h : k.connection? = some m) : m.isSocket := by
  cases k <;> cases h <;> rfl

namespace Sound

/-- A block exists for every connection, and lists it. -/
theorem owner (h : ws.Sound) (hx : ws.connections[c]? = some x) :
    ∃ b, ws.blocks[x.block]? = some b ∧ (c, some x.kind) ∈ b.roles := by
  obtain ⟨l, hl, hr⟩ := h.wired.owned (wire_of_connection hx)
  obtain ⟨b, hb, rfl⟩ := block_of_ends hl
  exact ⟨b, hb, hr⟩

/-- A block that hangs on another exists. -/
theorem exists_lower (h : ws.Sound) {a z : BlockId} (hu : ws.graph.Under a z) :
    ∃ b, ws.blocks[a]? = some b := by
  obtain ⟨⟨l, hl⟩, -⟩ := hu.live h.wired
  obtain ⟨b, hb, -⟩ := block_of_ends hl
  exact ⟨b, hb⟩

/-- So does the block it hangs on. -/
theorem exists_upper (h : ws.Sound) {a z : BlockId} (hu : ws.graph.Under a z) :
    ∃ b, ws.blocks[z]? = some b := by
  obtain ⟨-, l, hl⟩ := hu.live h.wired
  obtain ⟨b, hb, -⟩ := block_of_ends hl
  exact ⟨b, hb⟩

theorem listed (h : ws.Sound) (hb : ws.blocks[id]? = some b) {r : Role} (hr : r ∈ b.roles) :
    ∃ x, ws.connections[r.1]? = some x ∧ x.block = id ∧ some x.kind = r.2 := by
  obtain ⟨w, hw, hwb, hwk⟩ := h.wired.listed (ends_of_block hb) hr
  obtain ⟨x, hx, rfl⟩ := connection_of_wire hw
  exact ⟨x, hx, hwb, hwk⟩

theorem plug (h : ws.Sound) (hb : ws.blocks[id]? = some b) (hc : c ∈ b.plugs) :
    ∃ x, ws.connections[c]? = some x ∧ x.block = id ∧ x.kind.isPlug := by
  rcases mem_plugs.mp hc with hc | hc
  · obtain ⟨x, hx, hxb, hk⟩ := h.listed hb (r := (c, some .outputValue))
      (mem_roles.mpr (Or.inl ⟨hc, rfl⟩))
    exact ⟨x, hx, hxb, by rw [Option.some.inj hk]; rfl⟩
  · obtain ⟨x, hx, hxb, hk⟩ := h.listed hb (r := (c, some .previousStatement))
      (mem_roles.mpr (Or.inr (Or.inl ⟨hc, rfl⟩)))
    exact ⟨x, hx, hxb, by rw [Option.some.inj hk]; rfl⟩

theorem socket (h : ws.Sound) (hb : ws.blocks[id]? = some b) (hc : c ∈ b.sockets) :
    ∃ x, ws.connections[c]? = some x ∧ x.block = id ∧ x.kind.isSocket := by
  rcases mem_sockets.mp hc with ⟨i, hi, hc⟩ | hc
  · obtain ⟨x, hx, hxb, hk⟩ := h.listed hb (r := (c, i.kind.connection?))
      (mem_roles.mpr (Or.inr (Or.inr (Or.inr ⟨i, hi, hc, rfl⟩))))
    exact ⟨x, hx, hxb, InputKind.isSocket_of_connection? hk.symm⟩
  · obtain ⟨x, hx, hxb, hk⟩ := h.listed hb (r := (c, some .nextStatement))
      (mem_roles.mpr (Or.inr (Or.inr (Or.inl ⟨hc, rfl⟩))))
    exact ⟨x, hx, hxb, by rw [Option.some.inj hk]; rfl⟩

theorem mem_plugs_of (h : ws.Sound) (hx : ws.connections[c]? = some x) (hk : x.kind.isPlug)
    (hb : ws.blocks[x.block]? = some b) : c ∈ b.plugs := by
  obtain ⟨b', hb', hr⟩ := h.owner hx
  rw [hb] at hb'
  cases hb'
  rw [mem_plugs]
  rcases mem_roles.mp hr with ⟨hc, -⟩ | ⟨hc, -⟩ | ⟨-, hn⟩ | ⟨i, -, -, hi⟩
  · exact Or.inl hc
  · exact Or.inr hc
  · rw [Option.some.inj hn] at hk
    cases hk
  · have := InputKind.isSocket_of_connection? hi.symm
    rw [ConnectionKind.isPlug_eq_not, this] at hk
    cases hk

theorem mem_sockets_of (h : ws.Sound) (hx : ws.connections[c]? = some x) (hk : x.kind.isSocket)
    (hb : ws.blocks[x.block]? = some b) : c ∈ b.sockets := by
  obtain ⟨b', hb', hr⟩ := h.owner hx
  rw [hb] at hb'
  cases hb'
  rw [mem_sockets]
  rcases mem_roles.mp hr with ⟨-, hn⟩ | ⟨-, hn⟩ | ⟨hc, -⟩ | ⟨i, hi, hc, -⟩
  · rw [Option.some.inj hn] at hk
    cases hk
  · rw [Option.some.inj hn] at hk
    cases hk
  · exact Or.inr hc
  · exact Or.inl ⟨i, hi, hc⟩

end Sound

end Workspace

end BlockEditor
