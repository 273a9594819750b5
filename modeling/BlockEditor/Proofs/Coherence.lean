import BlockEditor.Proofs.Evaluation

/-!
# Coherence

What every reachable workspace satisfies: blocks and connections list each other, links go both
ways, parents and children agree, and the top blocks are those without a parent. Each edit keeps
this if no block comes to hang below itself.
-/

namespace BlockEditor

variable {α : Type}

namespace Workspace

variable {ws ws' : Workspace α} {id x : BlockId}

/-- The top blocks are the live blocks that hang on nothing, each listed once. -/
structure Topped (ws : Workspace α) : Prop where
  nodup : ws.top.Nodup
  mem : ∀ x : BlockId, x ∈ ws.top ↔ ws.Live x ∧ ws.graph.Loose x

namespace Topped

theorem congr (h : ws.Topped) (htop : ws'.top = ws.top) (hlive : ∀ x, ws'.Live x ↔ ws.Live x)
    (hloose : ∀ x, ws'.graph.Loose x ↔ ws.graph.Loose x) : ws'.Topped where
  nodup := by
    rw [htop]
    exact h.nodup
  mem x := by rw [htop, hlive, hloose, h.mem]

theorem shifts {S : BlockId → Prop} (h : ws.Topped) (hstep : ws.Shifts S ws') : ws'.Topped := by
  refine h.congr hstep.top (fun x => ⟨?_, hstep.live⟩) fun x => by rw [hstep.graph]
  rintro ⟨b, hb⟩
  obtain ⟨b', hb', -⟩ := hstep.symm_block hb
  exact ⟨b', hb'⟩

theorem insert {b b' : Block α} (h : ws.Topped) (hb : ws.blocks[id]? = some b)
    (hr : b'.roles = b.roles) : Topped { ws with blocks := ws.blocks.insert id b' } := by
  refine h.congr rfl (fun x => ?_) fun x => by rw [graph_insert hb hr]
  simp only [Live, Std.ExtTreeMap.getElem?_insert, Std.LawfulEqCmp.compare_eq_iff_eq]
  by_cases hx : id = x
  · subst hx
    simp [hb]
  · simp [hx]

/-- A block that loses its parent becomes a top block, the last one unless it was one already. -/
theorem cuts {s p : ConnectionId} {child : BlockId} (h : ws.Topped) (hs : ws.Sound)
    (hstep : ws.Cuts s p child ws') : ws'.Topped := by
  obtain ⟨w, v, hl, rfl⟩ := hstep.link
  have hnot : v.block ∉ ws.top := by
    intro hmem
    have hloose := ((h.mem v.block).mp hmem).2
    exact hloose.not_under hs.wired hl.under
  have htop : ws'.top = ws.top ++ [v.block] := by
    rw [hstep.rest]
    simp [hnot]
  have hlive : ws.Live v.block := hs.exists_lower hl.under
  constructor
  · rw [htop]
    exact List.nodup_append.mpr ⟨h.nodup, by simp, fun a ha b hb => by
      rw [List.mem_singleton.mp hb]
      rintro rfl
      exact hnot ha⟩
  · intro x
    rw [htop, List.mem_append, List.mem_singleton, h.mem, hstep.graph,
      Graph.loose_cut hs.wired hl, Live, Live, hstep.blocks]
    constructor
    · rintro (⟨hx, hxl⟩ | rfl)
      · exact ⟨hx, Or.inl hxl⟩
      · exact ⟨hlive, Or.inr rfl⟩
    · rintro ⟨hx, hxl | rfl⟩
      · exact Or.inl ⟨hx, hxl⟩
      · exact Or.inr rfl

/-- A block that gets a parent is a top block no more. -/
theorem ties {s p : ConnectionId} {child : BlockId} (h : ws.Topped) (hstep : ws.Ties s p child ws') :
    ws'.Topped := by
  obtain ⟨w, v, hm, -, -, rfl⟩ := hstep.mates
  have htop : ws'.top = ws.top.filter (· ≠ v.block) := by rw [hstep.rest]
  constructor
  · rw [htop]
    exact h.nodup.filter _
  · intro x
    rw [htop, List.mem_filter, h.mem, hstep.graph, Graph.loose_tie hm, Live, Live, hstep.blocks,
      and_assoc]
    simp

theorem loses {keep gone : List Input} {R : List BlockId} (h : ws.Topped) (hs : ws.Sound)
    (hstep : ws.Loses id keep gone R ws') (hl : ws.Seals gone R) : ws'.Topped := by
  constructor
  · rw [hstep.top]
    exact h.nodup.filter _
  · intro x
    rw [hstep.top, List.mem_filter, h.mem, decide_eq_true_eq]
    by_cases hx : x ∈ R
    · simp [hx, not_live (hstep.lost x hx)]
    · have hlive : ws'.Live x ↔ ws.Live x := by
        rw [Live, Live, hstep.kept x hx]
        simp
      rw [hlive, hstep.loose hs hl hx]
      exact ⟨fun h => h.1, fun h => ⟨h, hx⟩⟩

theorem pushes [Scalar α] {ts : List InputTemplate} {is : List Input} {l : List NewEnd} (h : ws.Topped)
    (hs : ws.Sound) (hstep : ws.Pushes id ts is l ws') : ws'.Topped := by
  refine h.congr ?_ (fun x => ?_) fun x => hstep.loose hs
  · rw [hstep.rest]
  · rw [Live, Live, hstep.blocks]
    simp

theorem raises [Scalar α] {d : BlockDefinition} {b : Block α} (h : ws.Topped) (hs : ws.Sound)
    (hd : d.output = none ∨ d.previous = none) (hstep : ws.Raises d id b ws') : ws'.Topped := by
  have hnot : id ∉ ws.top := fun hmem => not_live (hstep.dead hs) ((h.mem id).mp hmem).1
  constructor
  · rw [hstep.top]
    exact List.nodup_append.mpr ⟨h.nodup, by simp, fun a ha b hb => by
      rw [List.mem_singleton.mp hb]
      rintro rfl
      exact hnot ha⟩
  · intro x
    rw [hstep.top, List.mem_append, List.mem_singleton]
    by_cases hx : x = id
    · subst hx
      exact ⟨fun _ => ⟨hstep.live, hstep.loose_self hs hd⟩, fun _ => Or.inr rfl⟩
    · have hlive : ws'.Live x ↔ ws.Live x := by rw [Live, Live, hstep.blocks, if_neg hx]
      rw [h.mem, hlive, hstep.loose hs hd]
      exact ⟨fun h => h.resolve_right hx, Or.inl⟩

end Topped

variable [Scalar α]

omit [Scalar α] in
theorem coarse_topped : Coarse (α := α) Topped where
  units hb h := h.insert hb rfl
  events h := h.congr rfl (fun _ => Iff.rfl) fun _ => Iff.rfl
  procedures h := h.congr rfl (fun _ => Iff.rfl) fun _ => Iff.rfl

theorem fine_topped (id : BlockId) : Fine (α := α) True id Topped where
  shifts _ hstep h := h.shifts hstep
  sheds hs ht hstep h := by
    obtain ⟨R, hl, hseals⟩ := hstep
    exact h.loses hs hl (hseals (ht trivial)).1
  pushes hs hstep h _ := h.pushes hs hstep

theorem newBlock_topped (typeName : String) :
    Leads (fun ws : Workspace α => ws.Sound ∧ ws.Topped) (Edit.newBlock typeName)
      (fun id t => Good True id Topped t ∧ t.Live id) fun t => t.Sound ∧ t.Topped :=
  coarse_topped.newBlock fine_topped (fun hs hd hr h => h.raises hs hd hr) typeName

theorem stable_topped : Stable (α := α) True fun _ => Topped where
  mono _ h := h
  shifts _ hstep h := h.shifts hstep.toShifts
  decorate _ hb he h := h.insert hb (Block.roles_of_core he)
  field _ hb hf h := coarse_topped.procedures
    (h.insert hb (by simp only [Block.roles, Edit.roles_setField hf]))
  side h := h.congr rfl (fun _ => Iff.rfl) fun _ => Iff.rfl
  note _ h := coarse_topped.events h
  group h := coarse_topped.events h
  template _ ht hr h := by
    refine h.congr (by rw [hr]) (fun x => ?_) fun x => by rw [graph_template ht (by rw [hr])]
    rw [hr]
    exact Iff.rfl
  cuts hs hstep h := h.cuts hs hstep
  ties _ hstep h := h.ties hstep
  prunes hs _ hl hseals h := h.loses hs hl hseals
  fill _ _ h := h
  newBlock typeName := (newBlock_topped typeName).weaken (fun _ h => h) (fun _ _ h => h.1.keeps)
    fun _ h => h.2
  setUnits id n := (coarse_topped.setUnits (fine_topped id) n).weaken (fun _ h => ⟨h.1, h.2.2, h.2.1⟩)
    (fun _ _ h => h.1.keeps) fun _ h => h.2
  refreshControls id := (Edit.refreshControls_keeps (fine_topped id).handles).weaken
    (fun _ h => ⟨h.1, h.2.2, h.2.1⟩) (fun _ _ h => h.1.keeps) fun _ h => h.keeps

omit [Scalar α] in
theorem empty_topped (config : EditorConfig α) (registry : Registry) :
    (empty config registry).Topped where
  nodup := List.nodup_nil
  mem x := by simp [empty, Live]

/-- No top block hangs on anything. This is kept even where a block hangs below itself. -/
def Rooted (ws : Workspace α) : Prop :=
  ∀ x ∈ ws.top, ws.Live x ∧ ws.graph.Loose x

namespace Rooted

omit [Scalar α]

theorem old (h : ws.Rooted) (hs : ws.Sound) : ∀ x ∈ ws.top, x.index.toNat < ws.ids.blocks := by
  intro x hx
  obtain ⟨b, hb⟩ := (h x hx).1
  exact hs.blockIds hb

theorem congr (h : ws.Rooted) (htop : ws'.top = ws.top) (hlive : ∀ x, ws.Live x → ws'.Live x)
    (hgraph : ws'.graph = ws.graph) : ws'.Rooted := by
  intro x hx
  rw [htop] at hx
  rw [hgraph]
  exact ⟨hlive x (h x hx).1, (h x hx).2⟩

theorem insert {b b' : Block α} (h : ws.Rooted) (hb : ws.blocks[id]? = some b)
    (hr : b'.roles = b.roles) : Rooted { ws with blocks := ws.blocks.insert id b' } := by
  refine h.congr rfl (fun x => ?_) (graph_insert hb hr)
  rintro ⟨b₀, hb₀⟩
  by_cases hx : x = id
  · exact ⟨b', by change (ws.blocks.insert id b')[x]? = _; rw [getElem?_insert, if_pos hx]⟩
  · exact ⟨b₀, by change (ws.blocks.insert id b')[x]? = _; rw [getElem?_insert, if_neg hx, hb₀]⟩

theorem cuts {s p : ConnectionId} {child : BlockId} (h : ws.Rooted) (hs : ws.Sound)
    (hstep : ws.Cuts s p child ws') : ws'.Rooted := by
  obtain ⟨w, v, hl, rfl⟩ := hstep.link
  intro x hx
  rw [hstep.graph, Graph.loose_cut hs.wired hl, Live, hstep.blocks]
  have hmem : x ∈ ws.top ∨ x = v.block := by
    rw [hstep.rest] at hx
    dsimp only at hx
    split at hx
    · exact Or.inl hx
    · simpa using hx
  rcases hmem with hx | rfl
  · exact ⟨(h x hx).1, Or.inl (h x hx).2⟩
  · exact ⟨hs.exists_lower hl.under, Or.inr rfl⟩

theorem ties {s p : ConnectionId} {child : BlockId} (h : ws.Rooted)
    (hstep : ws.Ties s p child ws') : ws'.Rooted := by
  obtain ⟨w, v, hm, -, -, rfl⟩ := hstep.mates
  intro x hx
  rw [show ws'.top = ws.top.filter (· ≠ v.block) by rw [hstep.rest], List.mem_filter,
    decide_eq_true_eq] at hx
  rw [hstep.graph, Graph.loose_tie hm, Live, hstep.blocks]
  exact ⟨(h x hx.1).1, (h x hx.1).2, hx.2⟩

theorem loses {keep gone : List Input} {R : List BlockId} (h : ws.Rooted) (hs : ws.Sound)
    (hstep : ws.Loses id keep gone R ws') : ws'.Rooted := by
  intro x hx
  rw [hstep.top, List.mem_filter, decide_eq_true_eq] at hx
  obtain ⟨⟨b, hb⟩, hloose⟩ := h x hx.1
  refine ⟨⟨_, by rw [hstep.kept x hx.2, hb]; rfl⟩, ?_⟩
  exact (Graph.loose_iff (hstep.sound hs).wired).mpr fun a hu =>
    hloose.not_under hs.wired (hstep.under hs hu)

theorem pushes [Scalar α] {ts : List InputTemplate} {is : List Input} {l : List NewEnd}
    (h : ws.Rooted) (hs : ws.Sound) (hstep : ws.Pushes id ts is l ws') : ws'.Rooted := by
  intro x hx
  rw [hstep.rest] at hx
  obtain ⟨⟨b, hb⟩, hloose⟩ := h x hx
  exact ⟨⟨_, by rw [hstep.blocks, hb]; rfl⟩, (hstep.loose hs).mpr hloose⟩

theorem raises [Scalar α] {d : BlockDefinition} {b : Block α} (h : ws.Rooted) (hs : ws.Sound)
    (hd : d.output = none ∨ d.previous = none) (hstep : ws.Raises d id b ws') : ws'.Rooted := by
  intro x hx
  rw [hstep.top, List.mem_append, List.mem_singleton] at hx
  by_cases hid : x = id
  · subst hid
    exact ⟨hstep.live, hstep.loose_self hs hd⟩
  · obtain ⟨⟨b₀, hb₀⟩, hloose⟩ := h x (hx.resolve_right hid)
    exact ⟨⟨b₀, by rw [hstep.blocks, if_neg hid, hb₀]⟩, (hstep.loose hs hd).mpr hloose⟩

end Rooted

omit [Scalar α] in
theorem coarse_rooted : Coarse (α := α) Rooted where
  units hb h := h.insert hb rfl
  events h := h.congr rfl (fun _ h => h) rfl
  procedures h := h.congr rfl (fun _ h => h) rfl

theorem fine_rooted (id : BlockId) : Fine (α := α) False id Rooted where
  shifts _ hstep h := h.congr hstep.top (fun _ => hstep.live) hstep.graph
  sheds hs _ hstep h := by
    obtain ⟨R, hl, -⟩ := hstep
    exact h.loses hs hl
  pushes hs hstep h _ := h.pushes hs hstep

theorem stable_rooted : Stable (α := α) False fun _ => Rooted where
  mono _ h := h
  shifts _ hstep h := h.congr hstep.top (fun _ => hstep.live) hstep.graph
  decorate _ hb he h := h.insert hb (Block.roles_of_core he)
  field _ hb hf h := coarse_rooted.procedures
    (h.insert hb (by simp only [Block.roles, Edit.roles_setField hf]))
  side h := h.congr rfl (fun _ h => h) rfl
  note _ h := coarse_rooted.events h
  group h := coarse_rooted.events h
  template _ ht hr h := by
    refine h.congr (by rw [hr]) (fun x => ?_) (graph_template ht (by rw [hr]))
    rw [hr]
    exact id
  cuts hs hstep h := h.cuts hs hstep
  ties _ hstep h := h.ties hstep
  prunes hs _ hl _ h := h.loses hs hl
  fill _ _ h := h
  newBlock typeName := (coarse_rooted.newBlock fine_rooted (fun hs hd hr h => h.raises hs hd hr)
    typeName).weaken (fun _ h => h) (fun _ _ h => h.1.keeps) fun _ h => h.2
  setUnits id n := (coarse_rooted.setUnits (fine_rooted id) n).weaken (fun _ h => ⟨h.1, h.2.2, h.2.1⟩)
    (fun _ _ h => h.1.keeps) fun _ h => h.2
  refreshControls id := (Edit.refreshControls_keeps (fine_rooted id).handles).weaken
    (fun _ h => ⟨h.1, h.2.2, h.2.1⟩) (fun _ _ h => h.1.keeps) fun _ h => h.keeps

/-- Blocks and connections, links, parents and children, and the top blocks agree. -/
structure Coherent (ws : Workspace α) : Prop where
  /-- A connection is listed by one live block, once, in a place for its kind. -/
  owned : ∀ (c : ConnectionId) (y : Connection α), ws.connections[c]? = some y →
    ∃ b, ws.blocks[y.block]? = some b ∧ b.connections.count c = 1 ∧ (c, some y.kind) ∈ b.roles
  listed : ∀ (x : BlockId) (b : Block α), ws.blocks[x]? = some b → ∀ c ∈ b.connections,
    ∃ y, ws.connections[c]? = some y ∧ y.block = x
  linked : ∀ (c d : ConnectionId) (y : Connection α), ws.connections[c]? = some y →
    y.target = some d → ∃ z, ws.connections[d]? = some z ∧ z.target = some c ∧
      z.kind = y.kind.opposite ∧ y.fits z ∧ z.block ≠ y.block
  parents : ∀ x : BlockId, ws.Live x →
    ws.parent x = .ok none ∨ ∃ a, ws.parent x = .ok (some a) ∧ ws.Live a
  children : ∀ a : BlockId, ws.Live a → ∃ kids, ws.children a = .ok kids ∧ kids.Nodup ∧
    ∀ x, x ∈ kids ↔ ws.parent x = .ok (some a)
  top : ws.top.Nodup ∧ ∀ x, x ∈ ws.top ↔ ws.parent x = .ok none

omit [Scalar α] in
theorem Sound.coherent (h : ws.Sound) (htop : ws.Topped) : ws.Coherent where
  owned c y hy := by
    obtain ⟨b, hb, hr⟩ := h.owner hy
    have hmem : c ∈ b.connections := by
      rw [← b.map_fst_roles]
      exact List.mem_map_of_mem hr
    exact ⟨b, hb, by rw [(h.nodup_connections hb).count, if_pos hmem], hr⟩
  listed x b hb c hc := h.connection_of_mem hb hc
  linked c d y hy ht := h.target hy ht
  parents x hx := by
    obtain ⟨b, hb⟩ := hx
    cases hp : ws.parent x with
    | error e =>
      rw [h.parent_eq hb] at hp
      cases hp
    | ok o =>
      cases o with
      | none => exact Or.inl rfl
      | some a =>
        have hu := (h.parent_eq_some hb).mp hp
        exact Or.inr ⟨a, rfl, h.exists_upper hu⟩
  children a ha := by
    obtain ⟨b, hb⟩ := ha
    refine ⟨_, h.children hb, h.nodup_children hb, fun x => ?_⟩
    rw [h.mem_children hb]
    constructor
    · intro hu
      obtain ⟨b', hb'⟩ := h.exists_lower hu
      exact (h.parent_eq_some hb').mpr hu
    · intro hp
      obtain ⟨b', hb'⟩ := live_of_parent hp
      exact (h.parent_eq_some hb').mp hp
  top := by
    refine ⟨htop.nodup, fun x => ?_⟩
    rw [htop.mem]
    constructor
    · rintro ⟨⟨b, hb⟩, hx⟩
      exact (h.parent_eq_none hb).mpr hx
    · intro hp
      obtain ⟨b, hb⟩ := live_of_parent hp
      exact ⟨⟨b, hb⟩, (h.parent_eq_none hb).mp hp⟩

end Workspace

namespace Editor

open Workspace

variable [Scalar α] {config : EditorConfig α} {registry : Registry} {e : Editor α}
  {actions : List (Action α)}

/-- The workspace of an editor after a run is sound, and its list of top blocks is right. -/
theorem run_sound (hone : registry.OnePlug) (hstart : create config registry = .ok e)
    (hlast : Lasts (e.run actions)) (hacyclic : e.StaysAcyclic actions) :
    (e.run actions).workspace.Sound ∧ (e.run actions).workspace.Topped := by
  obtain ⟨-, rfl⟩ := create_eq_ok hstart
  have h : Steady (fun _ => Topped) Set.univ (Workspace.empty config registry) :=
    ⟨empty_sound hone, empty_topped config registry⟩
  have hend := run_steady stable_topped h hlast fun _ => hacyclic
  exact ⟨hend.sound, hend.keeps⟩

/-- After a run no top block hangs on anything, whether blocks hang below themselves or not. -/
theorem run_rooted (hone : registry.OnePlug) (hstart : create config registry = .ok e)
    (hlast : Lasts (e.run actions)) : (e.run actions).workspace.Rooted := by
  obtain ⟨-, rfl⟩ := create_eq_ok hstart
  have h : Steady (fun _ => Rooted) Set.univ (Workspace.empty config registry) :=
    ⟨empty_sound hone, fun x hx => by cases hx⟩
  exact (run_steady stable_rooted h hlast fun h => h.elim).keeps

/-- Whatever is done to an editor, accepted or refused, its workspace is coherent, as long as ids
last and no block hangs below itself. -/
theorem run_coherent (hone : registry.OnePlug) (hstart : create config registry = .ok e)
    (hlast : Lasts (e.run actions)) (hacyclic : e.StaysAcyclic actions) :
    (e.run actions).workspace.Coherent := by
  obtain ⟨hs, htop⟩ := run_sound hone hstart hlast hacyclic
  exact hs.coherent htop

/-- Two blocks are plugged into one, a container is grown, an action is refused, and the upper
block is taken away with what hangs on it. -/
theorem run_coherent_palette : ((fresh (.standard : EditorConfig Int) Palette.registry).run
    [.newBlock "BinOp", .newBlock "int", .newBlock "List", .connect ⟨1⟩ ⟨3⟩, .setUnits ⟨2⟩ 2,
      .connect ⟨0⟩ ⟨2⟩, .newBlock "int", .connect ⟨2⟩ ⟨4⟩, .dispose ⟨0⟩]).workspace.Coherent :=
  run_coherent Palette.registry_onePlug (create_fresh (by decide)) (by decide +kernel)
    (staysAcyclic_of_ordered (by decide +kernel))

end Editor

end BlockEditor
