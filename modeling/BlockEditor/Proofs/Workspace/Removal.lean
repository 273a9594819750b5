import BlockEditor.Proofs.Workspace.Shifts
import BlockEditor.Proofs.Workspace.Taken

/-!
# Removing blocks and ends

Removing a block or the inputs of one prunes the graph: some ends go, and with them whatever hangs
below. What was linked to an end that goes is free.
-/

namespace BlockEditor

variable {α : Type}

namespace Workspace

variable {ws ws' : Workspace α} {id x a : BlockId} {c s : ConnectionId} {b : Block α}
  {r : Removal} {extra : List ConnectionId} {L R : List BlockId} {keep gone : List Input}

/-! ### Sweeping -/

theorem getElem?_clear (freed : List ConnectionId)
    (m : Std.ExtTreeMap ConnectionId (Connection α)) (c : ConnectionId) :
    (freed.foldl clearTarget m)[c]? =
      if c ∈ freed then (m[c]?).map fun y : Connection α => { y with target := none }
      else m[c]? := by
  induction freed generalizing m with
  | nil => simp
  | cons d rest ih =>
    rw [List.foldl_cons, ih, clearTarget, Std.ExtTreeMap.getElem?_modify]
    simp only [Std.LawfulEqCmp.compare_eq_iff_eq, List.mem_cons]
    by_cases hd : d = c
    · subst hd
      by_cases hr : d ∈ rest
      · cases m[d]? <;> simp [hr]
      · simp [hr]
    · have hc : ¬ c = d := fun h => hd h.symm
      simp [hd, hc]

theorem getElem?_eraseAll (l : List ConnectionId)
    (m : Std.ExtTreeMap ConnectionId (Connection α)) (c : ConnectionId) :
    (l.foldl (fun m d => m.erase d) m)[c]? = if c ∈ l then none else m[c]? := by
  induction l generalizing m with
  | nil => simp
  | cons d rest ih =>
    rw [List.foldl_cons, ih, Std.ExtTreeMap.getElem?_erase]
    simp only [Std.LawfulEqCmp.compare_eq_iff_eq, List.mem_cons]
    by_cases hr : c ∈ rest
    · simp [hr]
    · by_cases hd : d = c
      · simp [hd]
      · have hc : ¬ c = d := fun h => hd h.symm
        simp [hr, hd, hc]

/-- An end is freed if it is linked to one that goes. -/
theorem sweep_connections
    (sym : ∀ (c d : ConnectionId) (x : Connection α), ws.connections[c]? = some x →
      x.target = some d → ∃ y, ws.connections[d]? = some y ∧ y.target = some c) :
    (ws.sweep r).connections[c]? = if c ∈ r.connections then none
      else (ws.connections[c]?).map fun y : Connection α =>
        { y with target := y.target.filter fun d => !decide (d ∈ r.connections) } := by
  simp only [sweep, getElem?_eraseAll, getElem?_clear]
  by_cases hc : c ∈ r.connections
  · rw [if_pos hc, if_pos hc]
  · rw [if_neg hc, if_neg hc]
    cases hy : ws.connections[c]? with
    | none => simp
    | some y =>
      have hmem : c ∈ r.connections.filterMap (fun d => (ws.connections[d]?).bind (·.target)) ↔
          ∃ d ∈ r.connections, y.target = some d := by
        rw [List.mem_filterMap]
        constructor
        · rintro ⟨d, hd, ht⟩
          obtain ⟨z, hz, hzt⟩ := Option.bind_eq_some_iff.mp ht
          obtain ⟨y', hy', hyt⟩ := sym d c z hz hzt
          rw [hy] at hy'
          cases hy'
          exact ⟨d, hd, hyt⟩
        · rintro ⟨d, hd, ht⟩
          obtain ⟨z, hz, hzt⟩ := sym c d y hy ht
          exact ⟨d, hd, by rw [hz]; exact hzt⟩
      by_cases hm : ∃ d ∈ r.connections, y.target = some d
      · obtain ⟨d, hd, ht⟩ := hm
        rw [if_pos (hmem.mpr ⟨d, hd, ht⟩)]
        have hf : (y.target.filter fun d => !decide (d ∈ r.connections)) = none := by
          simp [ht, hd]
        rw [Option.map_some, Option.map_some, hf]
      · rw [if_neg fun h => hm (hmem.mp h)]
        have hf : (y.target.filter fun d => !decide (d ∈ r.connections)) = y.target := by
          cases ht : y.target with
          | none => rfl
          | some d =>
            have hd : d ∉ r.connections := fun hd => hm ⟨d, hd, ht⟩
            simp [hd]
        rw [Option.map_some, hf]

/-! ### What is lost -/

/-- An end goes because it is asked for, or because its block goes. -/
def dead (ws : Workspace α) (extra : List ConnectionId) (R : List BlockId) (c : ConnectionId) :
    Bool :=
  decide (c ∈ extra) || (ws.connections[c]?).any fun x => decide (x.block ∈ R)

theorem dead_iff {y : Connection α} (hy : ws.connections[c]? = some y) :
    ws.dead extra R c ↔ c ∈ extra ∨ y.block ∈ R := by
  simp [dead, hy]

/-- The inputs `gone` of a block are removed, and with them the blocks `R`. -/
structure Loses (ws : Workspace α) (id : BlockId) (keep gone : List Input) (R : List BlockId)
    (ws' : Workspace α) : Prop where
  live : ws.Live id
  parts : ∀ b, ws.blocks[id]? = some b → ∃ l₁ l₂, b.inputs = l₁ ++ gone ++ l₂ ∧ keep = l₁ ++ l₂
  lost : ∀ x ∈ R, ws'.blocks[x]? = none
  kept : ∀ x : BlockId, x ∉ R →
    ws'.blocks[x]? = (ws.blocks[x]?).map fun b => if x = id then { b with inputs := keep } else b
  connections : ∀ c : ConnectionId, ws'.connections[c]? =
    if ws.dead (gone.filterMap (·.connection)) R c then none
    else (ws.connections[c]?).map fun y =>
      { y with target := y.target.filter (!ws.dead (gone.filterMap (·.connection)) R ·) }
  top : ws'.top = ws.top.filter fun x => decide (x ∉ R)
  procedures : ws'.procedures.calls =
    ws.procedures.calls.filter fun call => !(decide (call.2 ∈ R) && ws.isCallAt call.2)
  /-- Each block that goes is reported once. -/
  told : ∃ es : List (Event α), ws'.events = es.foldl EventLog.fire ws.events ∧
    es.filterMap Event.deleted? = R ∧
    ∀ e ∈ es, (∃ x, e = .delete x) ∨
      ∃ s a, e = .disconnect s a ∧ s ∈ gone.filterMap (·.connection) ∧ ws.across s = some a
  nodup : R.Nodup
  ordered : ws.graph.Tame id → ws.graph.ChildrenFirst R
  rest : ws' = { ws with
    blocks := ws'.blocks
    connections := ws'.connections
    top := ws'.top
    procedures := ws'.procedures
    events := ws'.events }
  /-- What goes hangs on an end that goes, if it hangs on anything. -/
  hangs : ∀ {s p w v}, ws.graph.Link s p w v → v.block ∈ R →
    ws.dead (gone.filterMap (·.connection)) R s
  below : ∀ x ∈ R, ws.Branch id x

/-- Whatever hangs on an end that goes does go. -/
def Seals (ws : Workspace α) (gone : List Input) (R : List BlockId) : Prop :=
  ∀ {s p w v}, ws.graph.Link s p w v → ws.dead (gone.filterMap (·.connection)) R s → v.block ∈ R

theorem dead_iff_wire {w : Wire} (hw : ws.graph.wire c = some w) :
    ws.dead extra R c ↔ c ∈ extra ∨ w.block ∈ R := by
  obtain ⟨y, hy, rfl⟩ := connection_of_wire hw
  exact dead_iff hy

theorem filter_middle {β γ : Type} [DecidableEq γ] (f : β → γ) {l m n : List β}
    (h : ((l ++ m ++ n).map f).Nodup) :
    (l ++ m ++ n).filter (fun x => !decide (f x ∈ m.map f)) = l ++ n := by
  rw [List.map_append, List.map_append, List.append_assoc, List.nodup_append] at h
  obtain ⟨-, hmn, hl⟩ := h
  obtain ⟨-, -, hm⟩ := List.nodup_append.mp hmn
  have keepl : l.filter (fun x => !decide (f x ∈ m.map f)) = l := by
    refine List.filter_eq_self.mpr fun x hx => ?_
    have : f x ∉ m.map f := fun hf =>
      hl _ (List.mem_map_of_mem hx) _ (List.mem_append_left _ hf) rfl
    simpa using this
  have keepn : n.filter (fun x => !decide (f x ∈ m.map f)) = n := by
    refine List.filter_eq_self.mpr fun x hx => ?_
    have : f x ∉ m.map f := fun hf => hm _ hf _ (List.mem_map_of_mem hx) rfl
    simpa using this
  have dropm : m.filter (fun x => !decide (f x ∈ m.map f)) = [] := by
    refine List.filter_eq_nil_iff.mpr fun x hx => ?_
    simpa using ⟨x, hx, rfl⟩
  rw [List.filter_append, List.filter_append, keepl, dropm, keepn, List.append_nil]

namespace Loses

/-- The inputs that go are sockets of the block. -/
theorem socket (h : ws.Loses id keep gone R ws') (hs : ws.Sound)
    (hc : c ∈ gone.filterMap (·.connection)) :
    ∃ y, ws.connections[c]? = some y ∧ y.block = id ∧ y.kind.isSocket := by
  obtain ⟨b, hb⟩ := h.live
  obtain ⟨l₁, l₂, hi, -⟩ := h.parts b hb
  refine hs.socket hb (mem_sockets.mpr (Or.inl ?_))
  obtain ⟨i, hi', hic⟩ := List.mem_filterMap.mp hc
  exact ⟨i, by simp [hi, hi'], hic⟩

/-- An end that goes belongs to the block or to one that goes. -/
theorem owner_of_dead (h : ws.Loses id keep gone R ws') (hs : ws.Sound)
    (hd : ws.dead (gone.filterMap (·.connection)) R c) :
    ∃ y, ws.connections[c]? = some y ∧ (y.block = id ∨ y.block ∈ R) := by
  unfold dead at hd
  rw [Bool.or_eq_true, decide_eq_true_eq, Option.any_eq_true] at hd
  rcases hd with hc | ⟨y, hy, hR⟩
  · obtain ⟨y, hy, hyb, -⟩ := h.socket hs hc
    exact ⟨y, hy, Or.inl hyb⟩
  · exact ⟨y, hy, Or.inr (of_decide_eq_true hR)⟩

theorem roles (h : ws.Loses id keep gone R ws') (hs : ws.Sound) (hb : ws.blocks[id]? = some b)
    (hid : id ∉ R) : Block.roles { b with inputs := keep } =
      b.roles.filter fun r => !ws.dead (gone.filterMap (·.connection)) R r.1 := by
  obtain ⟨l₁, l₂, hi, hk⟩ := h.parts b hb
  have hfst : (gone.filterMap Input.role?).map Prod.fst = gone.filterMap (·.connection) := by
    rw [List.map_filterMap]
    congr 1
    funext i
    cases hc : i.connection <;> simp [Input.role?, hc]
  have hdead : ∀ r ∈ b.roles, ws.dead (gone.filterMap (·.connection)) R r.1 =
      decide (r.1 ∈ (gone.filterMap Input.role?).map Prod.fst) := by
    intro r hr
    obtain ⟨y, hy, hyb, -⟩ := hs.listed hb hr
    rw [Bool.eq_iff_iff, dead_iff hy, hyb, hfst]
    simp [hid]
  have hnodup := hs.wired.once (ends_of_block hb)
  rw [List.filter_congr fun r hr => by rw [hdead r hr]]
  have hroles : b.roles = b.output.toList.map (·, some .outputValue) ++
      b.previous.toList.map (·, some .previousStatement) ++
      b.next.toList.map (·, some .nextStatement) ++ l₁.filterMap Input.role? ++
      gone.filterMap Input.role? ++ l₂.filterMap Input.role? := by
    rw [Block.roles, hi, List.filterMap_append, List.filterMap_append, ← List.append_assoc,
      ← List.append_assoc]
  rw [hroles] at hnodup ⊢
  rw [filter_middle Prod.fst hnodup, Block.roles, hk, List.filterMap_append, ← List.append_assoc]

theorem graph (h : ws.Loses id keep gone R ws') (hs : ws.Sound) :
    ws'.graph = ws.graph.prune (ws.dead (gone.filterMap (·.connection)) R)
      fun x => decide (x ∈ R) := by
  have hends : ∀ x, ws'.graph.ends x = (ws.graph.prune
      (ws.dead (gone.filterMap (·.connection)) R) fun x => decide (x ∈ R)).ends x := by
    intro x
    by_cases hx : x ∈ R
    · simp [Workspace.graph, Graph.prune, h.lost x hx, hx]
    · simp only [Workspace.graph, Graph.prune, h.kept x hx, hx, decide_false, Bool.false_eq_true,
        if_false, Option.map_map]
      cases hb : ws.blocks[x]? with
      | none => rfl
      | some b =>
        simp only [Option.map_some, Function.comp_apply, Option.some.injEq]
        by_cases he : x = id
        · subst he
          rw [if_pos rfl]
          exact h.roles hs hb hx
        · rw [if_neg he, eq_comm, List.filter_eq_self]
          intro r hr
          obtain ⟨y, hy, hyb, -⟩ := hs.listed hb hr
          have hd : ¬ ws.dead (gone.filterMap (·.connection)) R r.1 := by
            rw [dead_iff hy, hyb]
            rintro (hc | hc)
            · obtain ⟨z, hz, hzb, -⟩ := h.socket hs hc
              rw [hy] at hz
              cases hz
              exact he (hyb.symm.trans hzb)
            · exact hx hc
          simpa using hd
  have hwire : ∀ c, ws'.graph.wire c = (ws.graph.prune
      (ws.dead (gone.filterMap (·.connection)) R) fun x => decide (x ∈ R)).wire c := by
    intro c
    simp only [Workspace.graph, Graph.prune, h.connections]
    by_cases hd : ws.dead (gone.filterMap (·.connection)) R c
    · simp [hd]
    · simp only [hd, Bool.false_eq_true, if_false, Option.map_map]
      rfl
  exact congrArg₂ Graph.mk (funext hends) (funext hwire)

theorem old (h : ws.Loses id keep gone R ws') (hb : ws'.blocks[x]? = some b) :
    x ∉ R ∧ ∃ b₀, ws.blocks[x]? = some b₀ ∧ b = if x = id then { b₀ with inputs := keep } else b₀ := by
  have hx : x ∉ R := fun hx => by
    rw [h.lost x hx] at hb
    cases hb
  rw [h.kept x hx, Option.map_eq_some_iff] at hb
  obtain ⟨b₀, hb₀, rfl⟩ := hb
  exact ⟨hx, b₀, hb₀, rfl⟩

theorem old_connection (h : ws.Loses id keep gone R ws') {y : Connection α}
    (hy : ws'.connections[c]? = some y) :
    ws.dead (gone.filterMap (·.connection)) R c = false ∧ ∃ y₀, ws.connections[c]? = some y₀ ∧
      y = { y₀ with target := y₀.target.filter (!ws.dead (gone.filterMap (·.connection)) R ·) } := by
  rw [h.connections] at hy
  by_cases hd : ws.dead (gone.filterMap (·.connection)) R c
  · simp [hd] at hy
  · rw [if_neg hd, Option.map_eq_some_iff] at hy
    obtain ⟨y₀, hy₀, rfl⟩ := hy
    exact ⟨by simpa using hd, y₀, hy₀, rfl⟩

theorem ids (h : ws.Loses id keep gone R ws') : ws'.ids = ws.ids := by
  rw [h.rest]

theorem registry (h : ws.Loses id keep gone R ws') : ws'.registry = ws.registry := by
  rw [h.rest]

theorem sound (h : ws.Loses id keep gone R ws') (hs : ws.Sound) : ws'.Sound where
  wired := by
    rw [h.graph hs]
    exact hs.wired.prune fun c w hw hb => (dead_iff_wire hw).mpr (Or.inr (by simpa using hb))
  blockIds hb := by
    obtain ⟨-, b₀, hb₀, -⟩ := h.old hb
    rw [h.ids]
    exact hs.blockIds hb₀
  connectionIds hx := by
    obtain ⟨-, y₀, hy₀, -⟩ := h.old_connection hx
    rw [h.ids]
    exact hs.connectionIds hy₀
  registry := by
    rw [h.registry]
    exact hs.registry

/-- A plug goes only with its block. -/
theorem plug_lost (h : ws.Loses id keep gone R ws') (hs : ws.Sound) {w : Wire}
    (hw : ws.graph.wire c = some w) (hk : w.kind.isPlug)
    (hd : ws.dead (gone.filterMap (·.connection)) R c) : w.block ∈ R := by
  refine ((dead_iff_wire hw).mp hd).resolve_left fun hc => ?_
  obtain ⟨y, hy, -, hk'⟩ := h.socket hs hc
  obtain ⟨z, hz, rfl⟩ := connection_of_wire hw
  rw [hy] at hz
  cases hz
  rw [ConnectionKind.isPlug_eq_not, Connection.wire, hk'] at hk
  cases hk

theorem loose (h : ws.Loses id keep gone R ws') (hs : ws.Sound) (hl : ws.Seals gone R)
    (hx : x ∉ R) : ws'.graph.Loose x ↔ ws.graph.Loose x := by
  rw [h.graph hs]
  refine Graph.loose_prune hs.wired ?_ ?_ (by simpa using hx)
  · intro c w hw hd hk
    simpa using h.plug_lost hs hw hk hd
  · intro s p w v hlink hd
    simpa using hl hlink hd

theorem under (h : ws.Loses id keep gone R ws') (hs : ws.Sound) (hu : ws'.graph.Under a x) :
    ws.graph.Under a x := by
  rw [h.graph hs] at hu
  exact Graph.under_of_prune hu

/-- A link stays if its lower block does. -/
theorem link_of_kept {p : ConnectionId} {w v : Wire} (h : ws.Loses id keep gone R ws')
    (hs : ws.Sound) (hl : ws.Seals gone R) (hlink : ws.graph.Link s p w v) (hv : v.block ∉ R) :
    ∃ v', ws'.graph.Link s p w v' ∧ v'.block = v.block := by
  have hsocket : ws.dead (gone.filterMap (·.connection)) R s = false :=
    Bool.eq_false_iff.mpr fun hd => hv (hl hlink hd)
  have hplug : ws.dead (gone.filterMap (·.connection)) R p = false :=
    Bool.eq_false_iff.mpr fun hd => hv (h.plug_lost hs hlink.plug (hlink.isPlug hs.wired) hd)
  rw [h.graph hs]
  exact ⟨_, hlink.prune hsocket hplug, rfl⟩

/-- Whoever stays still hangs on what it hung on. -/
theorem under_of_live (h : ws.Loses id keep gone R ws') (hs : ws.Sound) (hl : ws.Seals gone R)
    (hu : ws.graph.Under a x) (ha : ws'.Live a) : ws'.graph.Under a x := by
  obtain ⟨b, hb⟩ := ha
  obtain ⟨haR, -⟩ := h.old hb
  obtain ⟨s, p, w, v, hlink, rfl, rfl⟩ := hu
  obtain ⟨v', hlink', hv'⟩ := h.link_of_kept hs hl hlink haR
  exact ⟨s, p, w, v', hlink', hv', rfl⟩

/-- What stays below a block was below it, and all between them stays. -/
theorem branch_of_live {r : BlockId} (h : ws.Loses id keep gone R ws') (hs : ws.Sound)
    (hl : ws.Seals gone R) (hx : ws.Branch r x) (hlive : ws'.Live x) : ws'.Branch r x := by
  rcases hx with rfl | hx
  · exact Or.inl rfl
  · induction hx using Relation.TransGen.head_induction_on with
    | single hu => exact Or.inr (.single (h.under_of_live hs hl hu hlive))
    | @head y z hu _ ih =>
      have hyz := h.under_of_live hs hl hu hlive
      obtain ⟨b, hb⟩ := (h.sound hs).exists_upper hyz
      rcases ih ⟨b, hb⟩ with rfl | hbelow
      · exact Or.inr (.single hyz)
      · exact Or.inr (.head hyz hbelow)

end Loses

/-! ### Walks through a block with fewer inputs -/

/-- The workspace with other inputs listed by a block. -/
def setInputs (ws : Workspace α) (id : BlockId) (b : Block α) (inputs : List Input) :
    Workspace α :=
  { ws with blocks := ws.blocks.insert id { b with inputs := inputs } }

theorem getElem?_setInputs {inputs : List Input} :
    (ws.setInputs id b inputs).blocks[x]? =
      if x = id then some { b with inputs := inputs } else ws.blocks[x]? := by
  simp only [setInputs, Std.ExtTreeMap.getElem?_insert, Std.LawfulEqCmp.compare_eq_iff_eq]
  by_cases h : x = id
  · simp [h]
  · have h' : ¬ id = x := fun h' => h h'.symm
    simp [h, h']

theorem setInputs_self (hb : ws.blocks[id]? = some b) : ws.setInputs id b b.inputs = ws := by
  have h : (ws.setInputs id b b.inputs).blocks = ws.blocks := by
    refine Std.ExtTreeMap.ext_getElem? fun x => ?_
    rw [getElem?_setInputs]
    by_cases h : x = id
    · rw [if_pos h, h, hb]
    · rw [if_neg h]
  change { ws with blocks := (ws.setInputs id b b.inputs).blocks } = ws
  rw [h]

theorem Sound.mem_branches (hs : ws.Sound) : a ∈ ws.branches x ↔ ws.graph.Under a x := by
  unfold branches
  cases hb : ws.blocks[x]? with
  | none =>
    have hc : ws.children x = .error (.unknownBlock x) := by
      simp [Workspace.children, Workspace.block, hb, bind, Except.bind]
    rw [hc]
    constructor
    · intro h
      cases h
    · intro h
      obtain ⟨b, hb'⟩ := hs.exists_upper h
      rw [hb] at hb'
      cases hb'
  | some b =>
    rw [hs.children hb]
    exact hs.mem_children hb

theorem branches_setInputs_of_ne (hx : x ≠ id) :
    (ws.setInputs id b keep).branches x = ws.branches x := by
  have hb : (ws.setInputs id b keep).block x = ws.block x := by
    unfold Workspace.block
    rw [getElem?_setInputs, if_neg hx]
  have hk : (ws.setInputs id b keep).children x = ws.children x := by
    unfold Workspace.children
    rw [hb]
    rfl
  unfold branches
  rw [hk]

theorem branches_setInputs (hs : ws.Sound) (hb : ws.blocks[id]? = some b)
    (hk : keep.Sublist b.inputs) (h : a ∈ (ws.setInputs id b keep).branches x) :
    ws.graph.Under a x := by
  by_cases hx : x = id
  · subst hx
    have hsub : ∀ c ∈ Block.sockets { b with inputs := keep }, c ∈ b.sockets := by
      intro c hc
      rw [mem_sockets] at hc ⊢
      exact hc.imp_left fun ⟨i, hi, hic⟩ => ⟨i, hk.subset hi, hic⟩
    have hm : (Block.sockets { b with inputs := keep }).mapM (ws.setInputs x b keep).blockAcross =
        .ok ((Block.sockets { b with inputs := keep }).map ws.across) := by
      refine mapM_eq_ok fun c hc => ?_
      obtain ⟨y, hy, -⟩ := hs.socket hb (hsub c hc)
      exact hs.blockAcross hy
    have hc : (ws.setInputs x b keep).children x =
        .ok ((Block.sockets { b with inputs := keep }).filterMap ws.across) := by
      unfold Workspace.children
      have hb' : (ws.setInputs x b keep).block x = .ok { b with inputs := keep } :=
        block_eq_ok.mpr (by rw [getElem?_setInputs, if_pos rfl])
      simp [hb', hm, bind, Except.bind, pure, Except.pure, List.filterMap_map]
    rw [branches, hc] at h
    obtain ⟨c, hc', hca⟩ := List.mem_filterMap.mp h
    exact (hs.mem_children hb).mp (List.mem_filterMap.mpr ⟨c, hsub c hc', hca⟩)
  · rw [branches_setInputs_of_ne hx] at h
    exact hs.mem_branches.mp h

/-! ### Removals -/

theorem mem_connections : c ∈ b.connections ↔ b.output = some c ∨ b.previous = some c ∨
    b.next = some c ∨ ∃ i ∈ b.inputs, i.connection = some c := by
  simp [Block.connections]

theorem Sound.connection_of_mem (hs : ws.Sound) (hb : ws.blocks[x]? = some b)
    (hc : c ∈ b.connections) : ∃ y, ws.connections[c]? = some y ∧ y.block = x := by
  rw [← b.map_fst_roles] at hc
  obtain ⟨r, hr, rfl⟩ := List.mem_map.mp hc
  obtain ⟨y, hy, hyb, -⟩ := hs.listed hb hr
  exact ⟨y, hy, hyb⟩

theorem Sound.mem_connections_of (hs : ws.Sound) {y : Connection α}
    (hy : ws.connections[c]? = some y) : ∃ b, ws.blocks[y.block]? = some b ∧ c ∈ b.connections := by
  obtain ⟨b, hb, hr⟩ := hs.owner hy
  refine ⟨b, hb, ?_⟩
  rw [← b.map_fst_roles]
  exact List.mem_map_of_mem hr

/-- An end is listed by its block, and by no other. -/
theorem Sound.listed_iff (hs : ws.Sound) :
    (∃ b, ws.blocks[x]? = some b ∧ c ∈ b.connections) ↔
      ∃ y, ws.connections[c]? = some y ∧ y.block = x := by
  constructor
  · rintro ⟨b, hb, hc⟩
    exact hs.connection_of_mem hb hc
  · rintro ⟨y, hy, rfl⟩
    exact hs.mem_connections_of hy

section Inputs

variable {l₁ l₂ : List Input} (hi : b.inputs = l₁ ++ gone ++ l₂) (hk : keep = l₁ ++ l₂)

include hi hk

/-- The ends of a block are those of the inputs that go, and those it keeps. -/
theorem mem_connections_split : c ∈ b.connections ↔
    c ∈ gone.filterMap (·.connection) ∨ c ∈ Block.connections { b with inputs := keep } := by
  simp only [mem_connections, hi, hk, List.mem_append, List.mem_filterMap]
  grind

theorem listed_setInputs (hb : ws.blocks[id]? = some b)
    (hc : c ∉ gone.filterMap (·.connection)) :
    (∃ b', (ws.setInputs id b keep).blocks[x]? = some b' ∧ c ∈ b'.connections) ↔
      ∃ b', ws.blocks[x]? = some b' ∧ c ∈ b'.connections := by
  rw [getElem?_setInputs]
  by_cases hx : x = id
  · simp [hx, hb, mem_connections_split hi hk, hc]
  · simp [hx]

/-- A walk marks the ends of all that goes. -/
theorem Taken.marks (h : Taken (ws.setInputs id b keep) extra ws' r L) (hs : ws.Sound)
    (hb : ws.blocks[id]? = some b)
    (hextra : ∀ c, c ∈ extra ↔ c ∈ gone.filterMap (·.connection)) :
    c ∈ r.connections ↔ ws.dead (gone.filterMap (·.connection)) L c := by
  rw [h.ends, hextra]
  by_cases hc : c ∈ gone.filterMap (·.connection)
  · simp [dead, hc]
  · simp only [listed_setInputs hi hk hb hc, hs.listed_iff]
    cases hy : ws.connections[c]? with
    | none => simp [dead, hc, hy]
    | some y => simp [dead_iff hy, hc]

end Inputs

theorem isCallAt_setInputs (hb : ws.blocks[id]? = some b) :
    (ws.setInputs id b keep).isCallAt x = ws.isCallAt x := by
  rw [isCallAt, getElem?_setInputs]
  by_cases hx : x = id
  · rw [if_pos hx, isCallAt, hx, hb]
    rfl
  · rw [if_neg hx, isCallAt]

theorem mem_blockIds : x ∈ ws.blockIds ↔ ws.Live x := by
  rw [blockIds, Std.ExtTreeMap.mem_keys, Live, ← Option.isSome_iff_exists,
    ← Std.ExtTreeMap.contains_eq_isSome_getElem?, Std.ExtTreeMap.contains_iff_mem]

theorem length_blockIds : ws.blockIds.length = ws.blockCount :=
  Std.ExtTreeMap.length_keys

/-- What is left of a tree is no higher than there are blocks left. -/
theorem Sound.shallow_without {t : Workspace α} (hs : ws.Sound)
    (hl : ∀ x, x ∉ L → ws.Live x → t.Live x) (ht : ws.graph.Tame x) :
    (ws.graph.without L).Shallow t.walkBound x := by
  have htame : (ws.graph.without L).Tame x := ht.mono fun _ _ => Graph.under_of_without
  have hlive : ∀ a l, (ws.graph.without L).ends a = some l → a ∈ t.blockIds := by
    intro a l ha
    obtain ⟨haL, l', hl'⟩ := Graph.without_ends ha
    obtain ⟨b, hb, -⟩ := block_of_ends hl'
    exact mem_blockIds.mpr (hl a haL ⟨b, hb⟩)
  have h := htame.shallow (hs.wired.without L) hlive
  rwa [length_blockIds] at h

/-- What a walk has taken out is lost once its ends are swept away. -/
theorem Taken.loses (hs : ws.Sound) (hb : ws.blocks[id]? = some b)
    (parts : ∃ l₁ l₂, b.inputs = l₁ ++ gone ++ l₂ ∧ keep = l₁ ++ l₂)
    (h : Taken (ws.setInputs id b keep) extra ws' r L)
    (hextra : ∀ c, c ∈ extra ↔ c ∈ gone.filterMap (·.connection))
    (told : ∃ es : List (Event α), ws'.events = es.foldl EventLog.fire ws.events ∧
      es.filterMap Event.deleted? = L ∧
      ∀ e ∈ es, (∃ x, e = .delete x) ∨
        ∃ s a, e = .disconnect s a ∧ s ∈ gone.filterMap (·.connection) ∧ ws.across s = some a)
    (hangs : ∀ {s p w v}, ws.graph.Link s p w v → v.block ∈ L →
      s ∈ gone.filterMap (·.connection) ∨ w.block ∈ L)
    (below : ∀ x ∈ L, ws.Branch id x)
    (ordered : ws.graph.Tame id → ws.graph.ChildrenFirst L) :
    ws.Loses id keep gone L (ws'.sweep r) := by
  have hconn : ws'.connections = ws.connections := h.connections
  obtain ⟨l₁, l₂, hi, hk⟩ := parts
  have hlist : ∀ c, c ∈ r.connections ↔ ws.dead (gone.filterMap (·.connection)) L c :=
    fun c => h.marks hi hk hs hb hextra
  have hdec : ∀ c, decide (c ∈ r.connections) = ws.dead (gone.filterMap (·.connection)) L c :=
    fun c => by rw [Bool.eq_iff_iff, decide_eq_true_iff, hlist]
  have hblocks : ∀ x : BlockId, (ws'.sweep r).blocks[x]? = if x ∈ L then none
      else (ws.setInputs id b keep).blocks[x]? := h.blocks
  exact {
    live := ⟨b, hb⟩
    parts := fun b' hb' => by
      rw [hb] at hb'
      cases hb'
      exact ⟨l₁, l₂, hi, hk⟩
    lost := fun x hx => by rw [hblocks, if_pos hx]
    kept := fun x hx => by
      rw [hblocks, if_neg hx, getElem?_setInputs]
      by_cases hxid : x = id
      · simp [hxid, hb]
      · simp [hxid]
    connections := fun c => by
      rw [sweep_connections, hconn]
      · simp only [hdec]
        simp only [hlist]
      · intro c d y hy ht
        rw [hconn] at hy ⊢
        obtain ⟨z, hz, hzt, -⟩ := hs.target hy ht
        exact ⟨z, hz, hzt⟩
    top := by
      have : ws'.top = ws.top := by rw [h.rest]; rfl
      simp only [sweep, this]
      refine List.filter_congr fun x _ => ?_
      have hmem : r.blocks.contains x = decide (x ∈ L) := by
        rw [Bool.eq_iff_iff, Std.ExtTreeSet.contains_iff_mem, h.mem, decide_eq_true_iff]
      simp [hmem]
    procedures := by
      refine h.procedures.trans (List.filter_congr fun call _ => ?_)
      rw [isCallAt_setInputs hb]
    told := told
    nodup := h.nodup
    ordered := ordered
    rest := by
      simp only [sweep]
      rw [h.rest]
      rfl
    hangs := fun hl hv => (dead_iff_wire hl.socket).mpr (hangs hl hv)
    below := below }

/-- Removing a loose block takes what hangs below it along. -/
theorem Sound.removeTree (hs : ws.Sound) (hb : ws.blocks[id]? = some b)
    (hl : ws.graph.Loose id) : ∃ R, ws.Loses id b.inputs [] R (ws.removeTree id) ∧ ws.Seals [] R := by
  have hg : ∀ x, ∀ a ∈ ws.branches x, ws.graph.Under a x := fun x a => hs.mem_branches.mp
  obtain ⟨L, hgoes⟩ := Taken.within hg ws.walkBound (ws, Removal.empty) id [] (Taken.start ws)
  have hreach : Taken.Reaches ws ws.graph [] ws.walkBound id :=
    { live := ⟨b, hb⟩
      found := fun x _ a ha => ⟨hs.mem_branches.mpr ha, hs.exists_lower ha⟩
      shallow := fun _ => hs.shallow_without (fun _ _ h => h) (hl.tame hs.wired) }
  have hordered : ws.graph.ChildrenFirst L := (hgoes.clears (by simpa using hreach) (.nil _)).2
  have hnot : ∀ {s p w v}, ws.graph.Link s p w v → v.block ≠ id := by
    rintro s p w v hlink rfl
    have := hl p v hlink.plug rfl (hlink.isPlug hs.wired)
    rw [hlink.up hs.wired] at this
    cases this
  have hr : ws.removeTree id = (takeOutWithin ws.walkBound (ws, Removal.empty) id).1.sweep
      (takeOutWithin ws.walkBound (ws, Removal.empty) id).2 := rfl
  have ht' : Taken (ws.setInputs id b b.inputs) []
      (takeOutWithin ws.walkBound (ws, Removal.empty) id).1
      (takeOutWithin ws.walkBound (ws, Removal.empty) id).2 L := by
    rw [setInputs_self hb]
    exact hgoes.taken
  rw [hr]
  refine ⟨L, Taken.loses hs hb ⟨b.inputs, [], by simp, by simp⟩ ht' (by simp)
    ⟨L.map .delete, hgoes.events, EventLog.filterMap_deleted L, by simp +contextual⟩ ?_
    (fun x hx => hgoes.branch hx) fun _ => hordered, ?_⟩
  · intro s p w v hlink hv
    obtain ⟨y, hy, hu⟩ := (hgoes.parents _ hv).resolve_left fun hv =>
      hnot hlink (List.mem_singleton.mp hv)
    have hw : w.block = y := Graph.under_unique hs.wired hlink.under hu
    exact Or.inr (hw ▸ hy)
  · intro s p w v hlink hd
    have hw : w.block ∈ L := by simpa using (dead_iff_wire hlink.socket).mp hd
    exact hordered.closed hw hlink.under

theorem getElem?_takeOutOne (state : Workspace α × Removal) (id : BlockId) :
    (takeOutOne state id).1.blocks[id]? = none := by
  obtain ⟨t, r⟩ := state
  cases hb : t.blocks[id]? with
  | none =>
    simp only [takeOutOne, hb]
  | some b =>
    simp only [takeOutOne, hb]
    exact Std.ExtTreeMap.getElem?_erase_self

/-- A block that is removed is gone. -/
theorem not_live_removeTree (ws : Workspace α) (id : BlockId) : ¬ (ws.removeTree id).Live id := by
  intro hlive
  change (takeOutWithin ws.walkBound (ws, Removal.empty) id).1.Live id at hlive
  rw [walkBound, takeOutWithin] at hlive
  split at hlive
  · obtain ⟨b, hb⟩ := hlive
    rw [getElem?_takeOutOne] at hb
    cases hb
  · next habsent => exact habsent (hasBlock_iff.mpr hlive)

/-- Some inputs of a block have been emptied: what was plugged into the ends `extra` is taken out. -/
structure Emptied (ws : Workspace α) (id : BlockId) (start : Workspace α)
    (extra : List ConnectionId) (t : Workspace α) (r : Removal) (L : List BlockId) : Prop where
  taken : Taken start extra t r L
  told : ∃ es : List (Event α), t.events = es.foldl EventLog.fire ws.events ∧
    es.filterMap Event.deleted? = L ∧
    ∀ e ∈ es, (∃ x, e = .delete x) ∨
      ∃ s a, e = .disconnect s a ∧ s ∈ extra ∧ ws.across s = some a
  below : ∀ x ∈ L, ws.graph.Below x id
  parents : ∀ x ∈ L, (∃ s ∈ extra, ws.across s = some x) ∨ ∃ y ∈ L, ws.graph.Under x y
  ordered : ws.graph.Tame id →
    ws.graph.ChildrenFirst L ∧ ∀ s ∈ extra, ∀ a, ws.across s = some a → a ∈ L

namespace Emptied

variable {t : Workspace α}

theorem start (ws : Workspace α) (id : BlockId) (b : Block α) (keep : List Input) :
    Emptied ws id (ws.setInputs id b keep) [] (ws.setInputs id b keep) Removal.empty [] where
  taken := Taken.start _
  told := ⟨[], rfl, rfl, by simp⟩
  below x hx := by cases hx
  parents x hx := by cases hx
  ordered _ := ⟨.nil _, fun s hs => by cases hs⟩

theorem across (h : Emptied ws id (ws.setInputs id b keep) extra t r L) :
    t.blockAcross c = ws.blockAcross c := by
  unfold Workspace.blockAcross Workspace.connection
  rw [h.taken.connections]
  rfl

theorem skip (h : Emptied ws id (ws.setInputs id b keep) extra t r L) (hc : ws.across c = none) :
    Emptied ws id (ws.setInputs id b keep) (c :: extra) t (r.withConnection c) L where
  taken := h.taken.withEnd c
  told := by
    obtain ⟨es, he, hd, hes⟩ := h.told
    refine ⟨es, he, hd, fun e hm => (hes e hm).imp_right ?_⟩
    rintro ⟨s, a, rfl, hs, ha⟩
    exact ⟨s, a, rfl, List.mem_cons_of_mem c hs, ha⟩
  below := h.below
  parents x hx := (h.parents x hx).imp_left fun ⟨s, hs, ha⟩ => ⟨s, List.mem_cons_of_mem c hs, ha⟩
  ordered ht := by
    obtain ⟨hc', hs'⟩ := h.ordered ht
    refine ⟨hc', fun s hs a ha => ?_⟩
    rcases List.mem_cons.mp hs with rfl | hs
    · rw [hc] at ha
      cases ha
    · exact hs' s hs a ha

theorem takeOut (h : Emptied ws id (ws.setInputs id b keep) extra t r L) (hs : ws.Sound)
    (hb : ws.blocks[id]? = some b) (hk : keep.Sublist b.inputs)
    (hc : c ∈ b.sockets) (ha : ws.across c = some a) :
    ∃ L', Emptied ws id (ws.setInputs id b keep) (c :: extra)
      ({ t with events := t.events.fire (.disconnect c a) }.takeOut r a).1
      (({ t with events := t.events.fire (.disconnect c a) }.takeOut r a).2.withConnection c) L' := by
  have hu : ws.graph.Under a id :=
    (hs.mem_children hb).mp (List.mem_filterMap.mpr ⟨c, hc, ha⟩)
  have hg : ∀ x, ∀ a ∈ (ws.setInputs id b keep).branches x, ws.graph.Under a x :=
    fun x a => branches_setInputs hs hb hk
  have hlive : ∀ x, ws.Live x → (ws.setInputs id b keep).Live x := by
    rintro x ⟨b', hb'⟩
    rw [Live, getElem?_setInputs]
    by_cases hx : x = id
    · exact ⟨_, if_pos hx⟩
    · exact ⟨b', by rw [if_neg hx, hb']⟩
  obtain ⟨L', hgoes⟩ := Taken.within hg
    ({ t with events := t.events.fire (.disconnect c a) } : Workspace α).walkBound
    ({ t with events := t.events.fire (.disconnect c a) }, r) a L (h.taken.fired (.disconnect c a))
  refine ⟨L ++ L', hgoes.taken.withEnd c, ?_, ?_, ?_, ?_⟩
  · obtain ⟨es, hes, hd, hmem⟩ := h.told
    refine ⟨es ++ .disconnect c a :: L'.map .delete, ?_, ?_, ?_⟩
    · rw [List.foldl_append, List.foldl_cons, ← hes]
      exact hgoes.events
    · rw [List.filterMap_append, hd, List.filterMap_cons_none rfl, EventLog.filterMap_deleted]
    · intro e he'
      rcases List.mem_append.mp he' with he' | he'
      · refine (hmem e he').imp_right ?_
        rintro ⟨s, y, rfl, hs, hy⟩
        exact ⟨s, y, rfl, List.mem_cons_of_mem c hs, hy⟩
      · rcases List.mem_cons.mp he' with rfl | he'
        · exact Or.inr ⟨c, a, rfl, List.mem_cons_self, ha⟩
        · obtain ⟨x, -, rfl⟩ := List.mem_map.mp he'
          exact Or.inl ⟨x, rfl⟩
  · intro x hx
    rcases List.mem_append.mp hx with hx | hx
    · exact h.below x hx
    · rcases hgoes.branch hx with rfl | hx
      · exact .single hu
      · exact .tail hx hu
  · intro x hx
    rcases List.mem_append.mp hx with hx | hx
    · rcases h.parents x hx with ⟨s, hs, hx⟩ | ⟨y, hy, hx⟩
      · exact Or.inl ⟨s, List.mem_cons_of_mem c hs, hx⟩
      · exact Or.inr ⟨y, List.mem_append_left L' hy, hx⟩
    · rcases hgoes.parents x hx with hx | ⟨y, hy, hx⟩
      · exact Or.inl ⟨c, List.mem_cons_self, List.mem_singleton.mp hx ▸ ha⟩
      · exact Or.inr ⟨y, List.mem_append_right L hy, hx⟩
  · intro htame
    obtain ⟨hchildren, hall⟩ := h.ordered htame
    have hleft : ∀ x, x ∉ L → ws.Live x → t.Live x := by
      intro x hx hlx
      rw [Live, h.taken.blocks, if_neg hx]
      exact hlive x hlx
    have found : ∀ x, x = a ∨ ws.graph.Below x a → ∀ y, ws.graph.Under y x →
        y ∈ (ws.setInputs id b keep).branches x ∧ (ws.setInputs id b keep).Live y := by
      intro x hx y hy
      have hxid : x ≠ id := by
        rintro rfl
        rcases hx with rfl | hx
        · exact htame (.single hu)
        · exact htame (.tail hx hu)
      rw [branches_setInputs_of_ne hxid]
      exact ⟨hs.mem_branches.mpr hy, hlive y (hs.exists_lower hy)⟩
    have hreach : Taken.Reaches (ws.setInputs id b keep) ws.graph L
        ({ t with events := t.events.fire (.disconnect c a) } : Workspace α).walkBound a :=
      { live := hlive a (hs.exists_lower hu)
        found := found
        shallow := fun _ => hs.shallow_without hleft (htame.of_under hs.wired hu) }
    obtain ⟨hain, hchildren'⟩ := hgoes.clears (by simpa using hreach) hchildren
    refine ⟨hchildren', fun s hs' x hx => ?_⟩
    rcases List.mem_cons.mp hs' with rfl | hs'
    · rw [ha] at hx
      cases hx
      exact hain a (List.mem_singleton_self a)
    · exact List.mem_append_left L' (hall s hs' x hx)

end Emptied

theorem takeOutOne_ids (st : Workspace α × Removal) (x : BlockId) :
    (takeOutOne st x).1.ids = st.1.ids := by
  simp only [takeOutOne]
  split <;> rfl

theorem takeOutWithin_ids (n : Nat) (st : Workspace α × Removal) (x : BlockId) :
    (takeOutWithin n st x).1.ids = st.1.ids := by
  induction n generalizing st x with
  | zero => rfl
  | succ n ih =>
    have hfold : ∀ (l : List BlockId) (st : Workspace α × Removal),
        (l.foldl (takeOutWithin n) st).1.ids = st.1.ids := by
      intro l
      induction l with
      | nil => exact fun _ => rfl
      | cons k rest ihl => exact fun st => (ihl _).trans (ih st k)
    rw [takeOutWithin]
    split
    · exact (takeOutOne_ids _ x).trans (hfold _ st)
    · rfl

end Workspace

namespace Edit

open Workspace

variable {ws : Workspace α} {id : BlockId} {c : ConnectionId} {b : Block α} {r : Removal}
  {l₁ gone l₂ : List Input}

theorem disposeEnd_leads (extra : List ConnectionId) (hc : c ∈ gone.filterMap (·.connection)) :
    Leads (fun t => (ws.Sound ∧ ws.blocks[id]? = some b ∧ b.inputs = l₁ ++ gone ++ l₂) ∧
        ∃ L, Emptied ws id (ws.setInputs id b (l₁ ++ l₂)) extra t r L)
      (disposeEnd r c)
      (fun r' t => (ws.Sound ∧ ws.blocks[id]? = some b ∧ b.inputs = l₁ ++ gone ++ l₂) ∧
        ∃ L, Emptied ws id (ws.setInputs id b (l₁ ++ l₂)) (c :: extra) t r' L)
      fun _ => False := by
  have hsock : b.inputs = l₁ ++ gone ++ l₂ → c ∈ b.sockets := by
    intro hi
    obtain ⟨i, hi', hic⟩ := List.mem_filterMap.mp hc
    exact mem_sockets.mpr (Or.inl ⟨i, by simp [hi, hi'], hic⟩)
  unfold disposeEnd
  refine (Leads.ask ?_).bind fun across => ?_
  · rintro t e ⟨⟨hs, hb, hi⟩, L, h⟩ he
    obtain ⟨y, hy, -⟩ := hs.socket hb (hsock hi)
    rw [h.across, hs.blockAcross hy] at he
    cases he
  · cases across with
    | none =>
      refine Leads.pure ?_
      rintro t ⟨⟨⟨hs, hb, hi⟩, L, h⟩, ha⟩
      obtain ⟨y, hy, -⟩ := hs.socket hb (hsock hi)
      rw [h.across, hs.blockAcross hy, Except.ok.injEq] at ha
      exact ⟨⟨hs, hb, hi⟩, L, h.skip ha⟩
    | some a =>
      refine Leads.step (f := fun t =>
        ((({ t with events := t.events.fire (.disconnect c a) }.takeOut r a).2.withConnection c),
          ({ t with events := t.events.fire (.disconnect c a) }.takeOut r a).1))
        (fun _ => rfl) ?_ ?_
      · intro t ht
        rw [lasts_workspace] at ht ⊢
        simpa only [Workspace.takeOut, takeOutWithin_ids] using ht
      · rintro t - ⟨⟨⟨hs, hb, hi⟩, L, h⟩, ha⟩
        obtain ⟨y, hy, -⟩ := hs.socket hb (hsock hi)
        rw [h.across, hs.blockAcross hy, Except.ok.injEq] at ha
        have hk : (l₁ ++ l₂).Sublist b.inputs := by
          rw [hi, List.append_assoc]
          exact (List.sublist_append_right gone l₂).append_left l₁
        exact ⟨⟨hs, hb, hi⟩, h.takeOut hs hb hk (hsock hi) ha⟩

theorem disposeEnds_leads (ws : Workspace α) (id : BlockId) (b : Block α) (l₁ l₂ : List Input)
    (cs extra : List ConnectionId) (r : Removal)
    (hcs : ∀ c ∈ cs, c ∈ gone.filterMap (·.connection)) :
    Leads (fun t => (ws.Sound ∧ ws.blocks[id]? = some b ∧ b.inputs = l₁ ++ gone ++ l₂) ∧
        ∃ L, Emptied ws id (ws.setInputs id b (l₁ ++ l₂)) extra t r L)
      (cs.foldlM disposeEnd r)
      (fun r' t => (ws.Sound ∧ ws.blocks[id]? = some b ∧ b.inputs = l₁ ++ gone ++ l₂) ∧
        ∃ L, Emptied ws id (ws.setInputs id b (l₁ ++ l₂)) (cs.reverse ++ extra) t r' L)
      fun _ => False := by
  induction cs generalizing extra r with
  | nil => exact Leads.pure fun _ h => h
  | cons c rest ih =>
    have hrev : (c :: rest).reverse ++ extra = rest.reverse ++ c :: extra := by simp
    rw [List.foldlM_cons, hrev]
    refine (disposeEnd_leads extra (hcs c List.mem_cons_self)).bind fun r' => ?_
    exact ih (c :: extra) r' fun d hd => hcs d (List.mem_cons_of_mem c hd)

/-- Disposing the inputs that a block has just lost, with what hangs on them. -/
theorem disposeInputs_leads (ws : Workspace α) (id : BlockId) (b : Block α)
    (l₁ gone l₂ : List Input) :
    Leads (fun t => t = ws.setInputs id b (l₁ ++ l₂) ∧
        ws.Sound ∧ ws.blocks[id]? = some b ∧ b.inputs = l₁ ++ gone ++ l₂)
      (disposeInputs gone)
      (fun _ t => ∃ R, ws.Loses id (l₁ ++ l₂) gone R t ∧
        (ws.graph.Tame id → ws.Seals gone R ∧ id ∉ R))
      fun _ => False := by
  unfold disposeInputs
  refine Leads.bind ((disposeEnds_leads ws id b l₁ l₂ _ [] _ fun c hc => hc).pre ?_) fun r => ?_
  · rintro _ ⟨rfl, h⟩
    exact ⟨h, [], Emptied.start ws id b (l₁ ++ l₂)⟩
  · refine Leads.modify (fun _ h => h) ?_
    rintro t ⟨⟨hs, hb, hi⟩, L, h⟩
    rw [List.append_nil] at h
    have hmem : ∀ c, c ∈ (gone.filterMap (·.connection)).reverse ↔
        c ∈ gone.filterMap (·.connection) := fun c => List.mem_reverse
    have hacross : ∀ {s p w v}, ws.graph.Link s p w v → ws.across s = some v.block := by
      intro s p w v hl
      obtain ⟨y, hy, rfl⟩ := connection_of_wire hl.socket
      exact (across_socket hy hl.isSocket).mpr ⟨p, v, hl, rfl⟩
    refine ⟨L, Taken.loses hs hb ⟨l₁, l₂, hi, rfl⟩ h.taken hmem ?_ ?_ ?_
      fun htame => (h.ordered htame).1, ?_⟩
    · obtain ⟨es, he, hd, hes⟩ := h.told
      refine ⟨es, he, hd, fun e hm => (hes e hm).imp_right ?_⟩
      rintro ⟨s, a, rfl, hs, ha⟩
      exact ⟨s, a, rfl, (hmem s).mp hs, ha⟩
    · intro s p w v hl hv
      rcases h.parents _ hv with ⟨s', hs', ha⟩ | ⟨y, hy, hu⟩
      · have hsg := (hmem s').mp hs'
        obtain ⟨i, hig, his⟩ := List.mem_filterMap.mp hsg
        obtain ⟨y, hy, -, hk⟩ := hs.socket hb
          (mem_sockets.mpr (Or.inl ⟨i, by simp [hi, hig], his⟩))
        obtain ⟨p', v', hl', hv'⟩ := (across_socket hy hk).mp ha
        have hss : s = s' := hl.same_socket hs.wired hl' hv'.symm
        exact Or.inl (hss ▸ hsg)
      · exact Or.inr (Graph.under_unique hs.wired hl.under hu ▸ hy)
    · exact fun x hx => Or.inr (h.below x hx)
    · intro htame
      refine ⟨fun {s p w v} hl hd => ?_, fun hmem => htame (h.below id hmem)⟩
      obtain ⟨hchildren, hall⟩ := h.ordered htame
      rcases (dead_iff_wire hl.socket).mp hd with hsg | hw
      · exact hall s ((hmem s).mpr hsg) v.block (hacross hl)
      · exact hchildren.closed hw hl.under

end Edit

end BlockEditor
