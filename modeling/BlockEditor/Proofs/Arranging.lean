import BlockEditor.Proofs.Evolving
import BlockEditor.Proofs.Shapes
import BlockEditor.Proofs.Workspace.Placing

/-!
# Where the ends of a block lie

Ends lie in rows and columns that the inputs of their block determine, and are put there whenever the
block gets or loses inputs. A block that takes no inputs is never laid out, so that its next end stays
where it was made.
-/

namespace BlockEditor

variable {α : Type}

namespace Block

/-- The block has inputs, or is a container, which is never without. -/
def TakesInputs (b : Block α) : Prop :=
  b.inputs ≠ [] ∨ b.container.isSome

/-- One block has the ends and the rows of the other one. -/
structure Matches (b b' : Block α) : Prop where
  typeName : b'.typeName = b.typeName
  container : b'.container = b.container
  output : b'.output = b.output
  previous : b'.previous = b.previous
  next : b'.next = b.next
  rows : b'.inputs.map (fun i => (i.kind, i.connection)) = b.inputs.map fun i => (i.kind, i.connection)

namespace Matches

variable {b b' : Block α}

theorem refl (b : Block α) : b.Matches b :=
  ⟨rfl, rfl, rfl, rfl, rfl, rfl⟩

theorem of_unplaced (h : b'.unplaced = b.unplaced) : b.Matches b' where
  typeName := congrArg (fun u : Block Unit => u.typeName) h
  container := congrArg (fun u : Block Unit => u.container) h
  output := congrArg (fun u : Block Unit => u.output) h
  previous := congrArg (fun u : Block Unit => u.previous) h
  next := congrArg (fun u : Block Unit => u.next) h
  rows := congrArg (fun u : Block Unit => u.inputs.map fun i => (i.kind, i.connection)) h

theorem of_core (h : b'.core = b.core) : b.Matches b' where
  typeName := congrArg (fun u : Block Unit => u.typeName) h
  container := congrArg (fun u : Block Unit => u.container) h
  output := congrArg (fun u : Block Unit => u.output) h
  previous := congrArg (fun u : Block Unit => u.previous) h
  next := congrArg (fun u : Block Unit => u.next) h
  rows := congrArg (fun u : Block Unit => u.inputs.map fun i => (i.kind, i.connection)) h

theorem length (h : b.Matches b') : b'.inputs.length = b.inputs.length := by
  simpa using congrArg List.length h.rows

theorem takesInputs (h : b.Matches b') : b'.TakesInputs ↔ b.TakesInputs := by
  rw [TakesInputs, TakesInputs, h.container, ← List.length_pos_iff, ← List.length_pos_iff, h.length]

theorem input (h : b.Matches b') {i : Nat} {input' : Input} (hi : b'.inputs[i]? = some input') :
    ∃ input, b.inputs[i]? = some input ∧ input.kind = input'.kind ∧
      input.connection = input'.connection := by
  have hrow := congrArg (·[i]?) h.rows
  simp only [List.getElem?_map, hi, Option.map_some] at hrow
  obtain ⟨input, hinput, heq⟩ := Option.map_eq_some_iff.mp hrow.symm
  rw [Prod.mk.injEq] at heq
  exact ⟨input, hinput, heq⟩

theorem plugs (h : b.Matches b') : b'.plugs = b.plugs := by
  rw [Block.plugs, Block.plugs, h.output, h.previous]

end Matches

theorem Matches.mem_connections {b b' : Block α} (h : b.Matches b') {c : ConnectionId} :
    c ∈ b'.connections ↔ c ∈ b.connections := by
  have hinputs : b'.inputs.filterMap (·.connection) = b.inputs.filterMap (·.connection) := by
    have hends := congrArg (List.filterMap Prod.snd) h.rows
    rwa [List.filterMap_map, List.filterMap_map] at hends
  rw [Block.connections, Block.connections, h.output, h.previous, h.next, hinputs]

/-- Only the fields of the inputs differ after a field was set. -/
theorem Matches.of_setField {b : Block α} {name value : String} {inputs : List Input}
    (h : setFieldAmong name value b.inputs = some inputs) :
    b.Matches { b with inputs := inputs } := by
  refine ⟨rfl, rfl, rfl, rfl, rfl, ?_⟩
  have hrows : ∀ {l l' : List Input}, setFieldAmong name value l = some l' →
      l'.map (fun i => (i.kind, i.connection)) = l.map fun i => (i.kind, i.connection) := by
    intro l
    induction l with
    | nil => exact fun h => by cases h
    | cons i rest ih =>
      intro l' h
      simp only [setFieldAmong] at h
      split at h
      · cases h
        rfl
      · obtain ⟨is, his, rfl⟩ := Option.map_eq_some_iff.mp h
        simp only [List.map_cons, ih his]
  exact hrows h

end Block

namespace Workspace

variable [Scalar α] {ws t : Workspace α} {id x : BlockId} {b b' : Block α} {c : ConnectionId}
  {p q : Point α} {S S' : Set BlockId}

/-- Where an end lies, seen from its block. -/
def LiesAt (ws : Workspace α) (c : ConnectionId) (p : Point α) : Prop :=
  ∃ y, ws.connections[c]? = some y ∧ y.offset = p

/-- The ends of the block lie in their rows and columns. The next end comes below the last row, but
for a block that takes no inputs it stays at the origin. -/
structure LaidOut (ws : Workspace α) (b : Block α) : Prop where
  plugs : ∀ c ∈ b.plugs, ws.LiesAt c Point.origin
  inputs : ∀ (i : Nat) (input : Input) (c : ConnectionId), b.inputs[i]? = some input →
    input.connection = some c →
      (input.kind = .value ∧ ws.LiesAt c ⟨Scalar.ofNat 40 * Scalar.ofNat (i + 1), 0⟩) ∨
      (input.kind = .statement ∧
        ws.LiesAt c ⟨Scalar.ofNat 16, Scalar.ofNat 40 * Scalar.ofNat (i + 1)⟩)
  next : ∀ c, b.next = some c → b.TakesInputs →
    ws.LiesAt c ⟨0, Scalar.ofNat 40 * Scalar.ofNat (b.inputs.length + 1)⟩
  bare : ∀ c, b.next = some c → ¬ b.TakesInputs → ws.LiesAt c Point.origin

omit [Scalar α] in
theorem mem_connections_of_plugs (h : c ∈ b.plugs) : c ∈ b.connections := by
  rw [Block.connections]
  exact List.mem_append_left _ (List.mem_append_left _ h)

theorem LaidOut.carry (h : ws.LaidOut b) (hb : b.Matches b')
    (hc : ∀ c ∈ b.connections, ∀ p, ws.LiesAt c p → t.LiesAt c p) : t.LaidOut b' where
  plugs c hmem := by
    rw [hb.plugs] at hmem
    exact hc c (mem_connections_of_plugs hmem) _ (h.plugs c hmem)
  inputs i input' c hi hcon := by
    obtain ⟨input, hinput, hkind, hcon'⟩ := hb.input hi
    rw [← hcon'] at hcon
    have hmem : c ∈ b.connections := mem_connections.mpr
      (Or.inr (Or.inr (Or.inr ⟨input, List.mem_of_getElem? hinput, hcon⟩)))
    rw [← hkind]
    exact (h.inputs i input c hinput hcon).imp (And.imp_right (hc c hmem _))
      (And.imp_right (hc c hmem _))
  next c hnext htakes := by
    rw [hb.next] at hnext
    rw [hb.length]
    refine hc c ?_ _ (h.next c hnext (hb.takesInputs.mp htakes))
    exact mem_connections.mpr (Or.inr (Or.inr (Or.inl hnext)))
  bare c hnext hbare := by
    rw [hb.next] at hnext
    refine hc c ?_ _ (h.bare c hnext fun htakes => hbare (hb.takesInputs.mpr htakes))
    exact mem_connections.mpr (Or.inr (Or.inr (Or.inl hnext)))

/-- The ends of all blocks but those in `S` lie where they belong. -/
structure Arranged (S : Set BlockId) (ws : Workspace α) : Prop where
  keyed : ws.registry.Keyed
  typed : ws.Typed
  lies : ∀ (x : BlockId) (b : Block α), x ∉ S → ws.blocks[x]? = some b → ws.LaidOut b

namespace Arranged

/-- A step may change anything about the blocks in `S'` but their types. Of the others it leaves the
ends where they are. -/
theorem carry (h : ws.Arranged S) (ht : t.Sound) (hr : t.registry = ws.registry)
    (hb : ∀ (x : BlockId) (b' : Block α), t.blocks[x]? = some b' → ∃ b, ws.blocks[x]? = some b ∧
      b'.typeName = b.typeName ∧ b'.container = b.container ∧ (x ∉ S' → x ∉ S ∧ b.Matches b'))
    (hc : ∀ (c : ConnectionId) (y' : Connection α), t.connections[c]? = some y' → y'.block ∉ S' →
      ∃ y, ws.connections[c]? = some y ∧ y.offset = y'.offset) : t.Arranged S' where
  keyed := hr ▸ h.keyed
  typed := by
    refine (Endures.of_blocks hr fun x b' hb' => ?_).typed h.keyed h.typed
    obtain ⟨b, hx, htype, hkind, -⟩ := hb x b' hb'
    exact ⟨b, hx, htype.symm, hkind.symm⟩
  lies x b' hx hb' := by
    obtain ⟨b, hbx, -, -, hkept⟩ := hb x b' hb'
    obtain ⟨hxS, hmatch⟩ := hkept hx
    refine (h.lies x b hxS hbx).carry hmatch fun c hmem p hp => ?_
    obtain ⟨y', hy', hown⟩ := ht.connection_of_mem hb' (hmatch.mem_connections.mpr hmem)
    obtain ⟨y, hy, hoffset⟩ := hc c y' hy' (hown ▸ hx)
    obtain ⟨z, hz, rfl⟩ := hp
    rw [hy, Option.some.injEq] at hz
    exact ⟨y', hy', by rw [← hoffset, hz]⟩

theorem congr (h : ws.Arranged S) (hr : t.registry = ws.registry) (hb : t.blocks = ws.blocks)
    (hc : t.connections = ws.connections) : t.Arranged S where
  keyed := hr ▸ h.keyed
  typed := (Endures.of_same hr hb).typed h.keyed h.typed
  lies x b hx hbx := (h.lies x b hx (hb ▸ hbx)).carry (.refl b) fun _ _ _ ⟨y, hy, hp⟩ =>
    ⟨y, hc ▸ hy, hp⟩

/-- Blocks keep their ends and rows, and ends their places. -/
theorem of_matches (h : ws.Arranged S) (ht : t.Sound) (hr : t.registry = ws.registry)
    (hb : ∀ (x : BlockId) (b' : Block α), t.blocks[x]? = some b' →
      ∃ b, ws.blocks[x]? = some b ∧ b.Matches b')
    (hc : ∀ (c : ConnectionId) (y' : Connection α), t.connections[c]? = some y' →
      ∃ y, ws.connections[c]? = some y ∧ y.offset = y'.offset) : t.Arranged S := by
  refine h.carry ht hr (fun x b' hb' => ?_) fun c y' hy' _ => hc c y' hy'
  obtain ⟨b, hbx, hmatch⟩ := hb x b' hb'
  exact ⟨b, hbx, hmatch.typeName, hmatch.container, fun hx => ⟨hx, hmatch⟩⟩

/-- Connections may be changed in all but their places. -/
theorem of_map (h : ws.Arranged S) (ht : t.Sound) (hr : t.registry = ws.registry)
    (hb : t.blocks = ws.blocks) {f : ConnectionId → Connection α → Connection α}
    (hc : ∀ c : ConnectionId, t.connections[c]? = (ws.connections[c]?).map (f c))
    (hf : ∀ c y, (f c y).offset = y.offset) : t.Arranged S := by
  refine h.of_matches ht hr (fun x b hbx => ⟨b, hb ▸ hbx, .refl b⟩) fun c y' hy' => ?_
  rw [hc, Option.map_eq_some_iff] at hy'
  obtain ⟨y, hy, rfl⟩ := hy'
  exact ⟨y, hy, (hf c y).symm⟩

theorem insert (h : ws.Arranged S) (hs : ws.Sound) (hb : ws.blocks[id]? = some b)
    (hmatch : b.Matches b') (hr : b'.roles = b.roles) :
    Arranged S { ws with blocks := ws.blocks.insert id b' } := by
  refine h.of_matches (hs.insert hb hr) rfl (fun x b'' hb'' => ?_) fun c y hy => ⟨y, hy, rfl⟩
  rw [getElem?_insert] at hb''
  split at hb''
  · next hx =>
    cases hb''
    exact ⟨b, hx ▸ hb, hmatch⟩
  · exact ⟨b'', hb'', .refl b''⟩

theorem glides {P : BlockId → Prop} (h : ws.Arranged S) (hs : ws.Sound) (hstep : ws.Glides P t) :
    t.Arranged S := by
  refine h.of_matches (hstep.sound hs) hstep.registry (fun x b' hb' => ?_) fun c y hy =>
    ⟨y, hstep.ends ▸ hy, rfl⟩
  obtain ⟨b, hb, he⟩ := hstep.symm_block hb'
  exact ⟨b, hb, .of_unplaced he.symm⟩

/-- A block that loses inputs has to be laid out again. -/
theorem loses {keep gone : List Input} {R : List BlockId} (h : ws.Arranged S) (hs : ws.Sound)
    (hstep : ws.Loses id keep gone R t) (hid : id ∈ S ∨ ∀ b, ws.blocks[id]? = some b → keep = b.inputs) :
    t.Arranged S := by
  refine h.carry (hstep.sound hs) hstep.registry (fun x b' hb' => ?_) fun c y' hy' _ => ?_
  · obtain ⟨-, b, hb, rfl⟩ := hstep.old hb'
    by_cases hx : x = id
    · subst hx
      rw [if_pos rfl]
      refine ⟨b, hb, rfl, rfl, fun hxS => ⟨hxS, ?_⟩⟩
      rw [(hid.resolve_left hxS) b hb]
      exact .refl b
    · rw [if_neg hx]
      exact ⟨b, hb, rfl, rfl, fun hxS => ⟨hxS, .refl b⟩⟩
  · obtain ⟨-, y, hy, rfl⟩ := hstep.old_connection hy'
    exact ⟨y, hy, rfl⟩

/-- So has a block that gets inputs. -/
theorem pushes {ts : List InputTemplate} {is : List Input} {l : List NewEnd} (h : ws.Arranged S)
    (hs : ws.Sound) (hstep : ws.Pushes id ts is l t) (hid : id ∈ S) : t.Arranged S := by
  refine h.carry (hstep.sound hs) (by rw [hstep.rest]) (fun x b' hb' => ?_) fun c y' hy' hown => ?_
  · rw [hstep.blocks, Option.map_eq_some_iff] at hb'
    obtain ⟨b, hb, rfl⟩ := hb'
    split
    · next hx => exact ⟨b, hb, rfl, rfl, fun hxS => (hxS (hx ▸ hid)).elim⟩
    · exact ⟨b, hb, rfl, rfl, fun hxS => ⟨hxS, .refl b⟩⟩
  · rcases mem_or_ne l c with ⟨e, he, rfl⟩ | hne
    · rw [hstep.made e he, Option.some.injEq] at hy'
      subst hy'
      exact (hown hid).elim
    · exact ⟨y', hstep.kept hne ▸ hy', rfl⟩

end Arranged

/-! ### Laying out -/

omit [Scalar α] in
/-- An end gets the place that is given for it, if there is only one. -/
theorem getElem?_place_of_mem {places : List (ConnectionId × Point α)}
    (hnodup : (places.map Prod.fst).Nodup) (hp : (c, p) ∈ places)
    (m : Std.ExtTreeMap ConnectionId (Connection α)) :
    (places.foldl (fun m (id, offset) => m.modify id fun c => { c with offset := offset }) m)[c]?
      = (m[c]?).map fun y : Connection α => { y with offset := p } := by
  induction places generalizing m with
  | nil => cases hp
  | cons place rest ih =>
    obtain ⟨d, offset⟩ := place
    rw [List.map_cons, List.nodup_cons] at hnodup
    rw [List.foldl_cons]
    rcases List.mem_cons.mp hp with heq | hp
    · cases heq
      rw [(getElem?_place rest _ c).2 hnodup.1, Std.ExtTreeMap.getElem?_modify,
        if_pos (Std.LawfulEqCmp.compare_eq_iff_eq.mpr rfl)]
    · have hne : d ≠ c := by
        rintro rfl
        exact hnodup.1 (List.mem_map.mpr ⟨(d, p), hp, rfl⟩)
      rw [ih hnodup.2 hp, Std.ExtTreeMap.getElem?_modify, if_neg]
      exact fun h => hne (Std.LawfulEqCmp.eq_of_compare h)

theorem map_fst_offsets (b : Block α) : (Layout.offsets b).map Prod.fst =
    b.plugs ++ b.inputs.filterMap (·.connection) ++ b.next.toList := by
  have hinputs : (Layout.inputOffsets (α := α) b.inputs).map Prod.fst
      = b.inputs.filterMap (·.connection) := by
    have hindex : ∀ p : Input × Nat, ((p.1.connection.map (·, Layout.inputOffset (α := α) p.1.kind p.2)).map
        Prod.fst) = p.1.connection := by
      intro p
      cases p.1.connection <;> rfl
    unfold Layout.inputOffsets
    rw [List.map_filterMap]
    simp only [hindex]
    conv_rhs => rw [← List.zipIdx_map_fst 0 b.inputs, List.filterMap_map]
    rfl
  rw [Layout.offsets, List.map_append, List.map_append, hinputs, List.map_map, List.map_map]
  simp [Function.comp_def]

theorem Sound.nodup_offsets (hs : ws.Sound) (hb : ws.blocks[id]? = some b) :
    ((Layout.offsets b).map Prod.fst).Nodup := by
  have hperm : (b.plugs ++ b.inputs.filterMap (·.connection) ++ b.next.toList).Perm b.connections := by
    rw [List.append_assoc]
    refine (List.Perm.append_left b.plugs List.perm_append_comm).trans ?_
    rw [Block.connections, Block.plugs, List.append_assoc (b.output.toList ++ b.previous.toList)]
  rw [map_fst_offsets]
  exact hperm.nodup_iff.mpr (hs.nodup_connections hb)

/-- An end that the layout has a place for comes to lie there. -/
theorem Sound.liesAt_place (hs : ws.Sound) (hb : ws.blocks[id]? = some b)
    (hp : (c, p) ∈ Layout.offsets b) : (ws.place (Layout.offsets b)).LiesAt c p := by
  have hmem : c ∈ b.connections := by
    rcases Edit.mem_offsets (List.mem_map_of_mem (f := Prod.fst) hp) with hc | hc
    · exact mem_connections_of_plugs hc
    · rcases mem_sockets.mp hc with hinput | hnext
      · exact mem_connections.mpr (Or.inr (Or.inr (Or.inr hinput)))
      · exact mem_connections.mpr (Or.inr (Or.inr (Or.inl hnext)))
  obtain ⟨y, hy, -⟩ := hs.connection_of_mem hb hmem
  refine ⟨{ y with offset := p }, ?_, rfl⟩
  exact (getElem?_place_of_mem (hs.nodup_offsets hb) hp ws.connections).trans (by rw [hy, Option.map_some])

/-- A block that takes inputs lies as it should once its ends were placed. -/
theorem Sound.laidOut_place (hs : ws.Sound) (hb : ws.blocks[id]? = some b) (htakes : b.TakesInputs) :
    (ws.place (Layout.offsets b)).LaidOut b where
  plugs c hc := hs.liesAt_place hb
    (List.mem_append_left _ (List.mem_append_left _ (List.mem_map_of_mem hc)))
  inputs i input c hi hcon := by
    have hplace : (ws.place (Layout.offsets b)).LiesAt c (Layout.inputOffset input.kind i) := by
      refine hs.liesAt_place hb (List.mem_append_left _ (List.mem_append_right _ ?_))
      refine List.mem_filterMap.mpr ⟨(input, i), List.mk_mem_zipIdx_iff_getElem?.mpr hi, ?_⟩
      dsimp only
      rw [hcon, Option.map_some]
    obtain ⟨y, -, -, hk⟩ := hs.listed hb (r := (c, input.kind.connection?))
      (mem_roles.mpr (Or.inr (Or.inr (Or.inr ⟨input, List.mem_of_getElem? hi, hcon, rfl⟩))))
    cases hkind : input.kind with rw [hkind] at hplace hk
    | value => exact Or.inl ⟨rfl, hplace⟩
    | statement => exact Or.inr ⟨rfl, hplace⟩
    | dummy => cases hk
  next c hnext _ := by
    refine hs.liesAt_place hb (List.mem_append_right _ ?_)
    rw [hnext]
    exact List.mem_singleton.mpr rfl
  bare _ _ hbare := (hbare htakes).elim

/-- To lay a block out affects the ends of that block only. -/
theorem Arranged.places {P : BlockId → Prop} (h : ws.Arranged {id}) (hs : ws.Sound)
    (hb : ws.blocks[id]? = some b) (hstep : ws.Shifts P (ws.place (Layout.offsets b))) :
    (ws.place (Layout.offsets b)).Arranged {id} := by
  refine h.carry (hstep.sound hs) rfl (fun x b' hb' => ⟨b', hb', rfl, rfl, fun hx => ⟨hx, .refl b'⟩⟩)
    fun c y' hy' hown => ?_
  obtain ⟨y, hy, -, hblock, hoffset⟩ := place_connection hy'
  rw [hblock] at hown
  refine ⟨y, hy, (hoffset.resolve_right fun hp => hown ?_).symm⟩
  rcases Edit.mem_offsets (List.mem_map_of_mem (f := Prod.fst) hp) with hc | hc
  · obtain ⟨z, hz, hzb, -⟩ := hs.plug hb hc
    rw [hy, Option.some.injEq] at hz
    exact hz ▸ hzb
  · obtain ⟨z, hz, hzb, -⟩ := hs.socket hb hc
    rw [hy, Option.some.injEq] at hz
    exact hz ▸ hzb

theorem Arranged.complete (h : ws.Arranged {id}) (hid : ∀ b, ws.blocks[id]? = some b → ws.LaidOut b) :
    ws.Arranged ∅ :=
  ⟨h.keyed, h.typed, fun x b _ hb => if hx : x = id then hid b (hx ▸ hb) else h.lies x b hx hb⟩

theorem Arranged.mono (h : ws.Arranged S) (hS : S ⊆ S') : ws.Arranged S' :=
  ⟨h.keyed, h.typed, fun x b hx => h.lies x b fun hxS => hx (hS hxS)⟩

/-- A block that takes inputs lies as it should once it was laid out. -/
theorem Arranged.laysOut {P P' : BlockId → Prop} (h : ws.Arranged {id}) (hs : ws.Sound)
    (hb : ws.blocks[id]? = some b) (htakes : b.TakesInputs)
    (hput : ws.Shifts P (ws.place (Layout.offsets b)))
    (hstep : (ws.place (Layout.offsets b)).Glides P' t) : t.Arranged ∅ := by
  refine ((h.places hs hb hput).glides (hput.sound hs) hstep).complete fun b' hb' => ?_
  obtain ⟨b₀, hb₀, he⟩ := hstep.symm_block hb'
  obtain rfl := Option.some.inj (hb.symm.trans hb₀)
  refine (hs.laidOut_place hb htakes).carry (.of_unplaced he.symm) fun c _ p hp => ?_
  obtain ⟨y, hy, hoffset⟩ := hp
  exact ⟨y, hstep.ends ▸ hy, hoffset⟩

theorem Good.exempt (h : Good False id (Arranged ∅) ws) : Good False id (Arranged {id}) ws :=
  ⟨h.sound, h.tame, h.keeps.mono (Set.empty_subset _)⟩

/-- A block that is gone need not be laid out. -/
theorem Lost.arranged (h : Lost id (Arranged {id}) ws) : ws.Sound ∧ ws.Arranged ∅ :=
  ⟨h.sound, h.keeps.complete fun _ hb => (h.gone ⟨_, hb⟩).elim⟩

/-- The ends of a new block are at the origin until it gets inputs. -/
theorem Raises.liesAt {d : BlockDefinition} (hr : ws.Raises d id b t) {r : Role}
    (hmem : r ∈ b.roles) : t.LiesAt r.1 Point.origin := by
  rw [hr.unfurnished.roles] at hmem
  obtain ⟨e, he, rfl⟩ := List.mem_map.mp hmem
  exact ⟨e.mount id, hr.made e he, rfl⟩

theorem Arranged.raises {typeName : String} {d : BlockDefinition} (h : ws.Arranged ∅) (hs : ws.Sound)
    (hd : ws.registry.get? typeName = some d) (hr : ws.Raises d id b t) :
    t.Arranged {id} ∧ (d.container = none → t.Arranged ∅) := by
  have hraw := hr.unfurnished.block
  have hothers : t.Arranged {id} := by
    refine ⟨hr.registry ▸ h.keyed, fun x b' hb' => ?_, fun x b' hx hb' => ?_⟩
    · rw [hr.blocks] at hb'
      split at hb'
      · cases hb'
        rw [hr.registry, hraw]
        change d.container.map (·.kind) = ws.registry.kind? d.typeName
        rw [h.keyed _ _ hd, Registry.kind?, hd]
        rfl
      · rw [hr.registry]
        exact h.typed x b' hb'
    · rw [hr.blocks, if_neg (show ¬ x = id from hx)] at hb'
      refine (h.lies x b' (Set.notMem_empty x) hb').carry (.refl b') fun c hmem p ⟨y, hy, hp⟩ => ?_
      exact ⟨y, (hr.kept_of_old (hs.connectionIds hy)).trans hy, hp⟩
  refine ⟨hothers, fun hnone => hothers.complete fun b' hb' => ?_⟩
  rw [hr.blocks, if_pos rfl, Option.some.injEq] at hb'
  subst hb'
  have hinputs : b.inputs = [] := hr.unfurnished.inputs
  have hbare : ¬ b.TakesInputs := by
    rw [Block.TakesInputs, hraw]
    simp [rawBlock, hnone]
  constructor
  case plugs =>
    intro c hc
    rcases mem_plugs.mp hc with ho | hp
    · exact hr.liesAt (r := (c, _)) (mem_roles.mpr (Or.inl ⟨ho, rfl⟩))
    · exact hr.liesAt (r := (c, _)) (mem_roles.mpr (Or.inr (Or.inl ⟨hp, rfl⟩)))
  case inputs =>
    intro i input c hi
    rw [hinputs] at hi
    cases hi
  case next => exact fun c _ htakes => (hbare htakes).elim
  case bare =>
    exact fun c hnext _ => hr.liesAt (r := (c, _))
      (mem_roles.mpr (Or.inr (Or.inr (Or.inl ⟨hnext, rfl⟩))))

/-- The block is a container, if it is there. -/
def Contains (id : BlockId) (ws : Workspace α) : Prop :=
  ∀ b, ws.blocks[id]? = some b → b.container.isSome

theorem fine_contains (id : BlockId) : Fine (α := α) False id (Contains id) where
  shifts _ hstep hj b hb := by
    obtain ⟨b₀, hb₀, he⟩ := hstep.symm_block hb
    have hkind : b₀.container = b.container := congrArg (fun u : Block Unit => u.container) he
    exact hkind ▸ hj b₀ hb₀
  sheds _ _ hstep hj b hb := by
    obtain ⟨R, hl, -⟩ := hstep
    obtain ⟨-, b₀, hb₀, rfl⟩ := hl.old hb
    rw [if_pos rfl]
    exact hj b₀ hb₀
  pushes _ hstep hj _ b hb := by
    rw [hstep.blocks, Option.map_eq_some_iff] at hb
    obtain ⟨b₀, hb₀, rfl⟩ := hb
    rw [if_pos rfl]
    exact hj b₀ hb₀

end Workspace

namespace Edit

open Workspace

variable [Scalar α] {id : BlockId}

/-- A block that takes inputs. -/
def Taking (id : BlockId) (ws : Workspace α) : Prop :=
  ∀ b, ws.blocks[id]? = some b → b.TakesInputs

theorem layOut_arranges :
    Leads (fun t : Workspace α => Good False id (Arranged {id}) t ∧ Taking id t) (layOut id)
      (fun _ t => Good False id (Arranged ∅) t ∧ t.Live id) (Lost id (Arranged {id})) := by
  refine Leads.fix fun ws => ((layOut_places ws id).frame
    (c := Good False id (Arranged {id}) ws ∧ Taking id ws)).weaken ?_ ?_ ?_
  · rintro _ ⟨rfl, h⟩
    exact ⟨⟨rfl, h.1.sound⟩, h⟩
  · rintro _ t ⟨⟨b, hb, hput, hstep⟩, h, htakes⟩
    have hshift := hput.trans hstep.toShifts
    exact ⟨⟨hshift.sound h.sound, False.elim, h.keeps.laysOut h.sound hb (htakes b hb) hput hstep⟩,
      hshift.live ⟨b, hb⟩⟩
  · rintro _ ⟨⟨rfl, hn⟩, h, -⟩
    exact ⟨h.sound, h.keeps, hn⟩

/-- What a step changes about the inputs of a block does not affect the ends of other blocks. -/
theorem handles_arranged (id : BlockId) :
    Handles (fun _ => True) False id (Arranged (α := α) {id}) where
  layOut := by
    refine Leads.fix fun ws => ((layOut_places ws id).frame
      (c := Good False id (Arranged {id}) ws)).weaken ?_ ?_ ?_
    · rintro _ ⟨rfl, h⟩
      exact ⟨⟨rfl, h.sound⟩, h⟩
    · rintro _ t ⟨⟨b, hb, hput, hstep⟩, h⟩
      have hshift := hput.trans hstep.toShifts
      have hplaced := h.keeps.places h.sound hb hput
      exact ⟨⟨hshift.sound h.sound, False.elim, hplaced.glides (hput.sound h.sound) hstep⟩,
        hshift.live ⟨b, hb⟩⟩
    · rintro _ ⟨⟨rfl, hn⟩, h⟩
      exact ⟨h.sound, h.keeps, hn⟩
  sheds hs _ hstep h := by
    obtain ⟨R, hl, -⟩ := hstep
    exact h.loses hs hl (Or.inl rfl)
  pushes hs hstep h _ := h.pushes hs hstep rfl

/-- A block that got an input takes inputs, and is laid out. -/
theorem addInput_arranges (t : InputTemplate) :
    Leads (Good False id (Arranged (α := α) {id})) (addInput id t)
      (fun _ t => Good False id (Arranged ∅) t ∧ t.Live id) (Lost id (Arranged {id})) := by
  have htaking : Leads (Good False id (Arranged (α := α) {id})) (pushInputs id [t])
      (fun _ u => Good False id (Arranged {id}) u ∧ Taking id u) (Lost id (Arranged {id})) := by
    refine Leads.fix fun ws => ((pushInputs_keeps (handles_arranged id) [t]).and
      (pushInputs_leads ws id [t])).weaken ?_ ?_ fun _ h => h.1
    · rintro _ ⟨rfl, h⟩
      exact ⟨h, rfl⟩
    · rintro _ u ⟨⟨h, -⟩, is, l, hstep⟩
      refine ⟨h, fun b hb => Or.inl fun hnone => ?_⟩
      rw [hstep.blocks, Option.map_eq_some_iff] at hb
      obtain ⟨b₀, -, rfl⟩ := hb
      rw [if_pos rfl] at hnone
      have hbuilt := hstep.built
      rw [(List.append_eq_nil_iff.mp hnone).2] at hbuilt
      cases hbuilt
  exact htaking.bind fun _ => layOut_arranges

theorem refreshControls_arranges :
    Leads (Good False id (Arranged (α := α) {id})) (refreshControls id)
      (fun _ t => Good False id (Arranged ∅) t ∧ t.Live id) (Lost id (Arranged {id})) := by
  unfold refreshControls
  refine (Leads.block fun ws h hn => ⟨h.sound, h.keeps, not_live hn⟩).bind fun b => ?_
  refine ((removeInput_keeps (handles_arranged id) _).pre fun _ h => h.1).bind fun _ => ?_
  exact (addInput_arranges _).pre fun _ h => h.1

/-- A container stays laid out when an input is removed. -/
theorem removeInput_arranges (name : String) :
    Leads (Good False id fun ws : Workspace α => ws.Arranged ∅ ∧ Contains id ws)
      (removeInput id name) (fun _ => Good False id fun ws => ws.Arranged ∅ ∧ Contains id ws)
      fun t => t.Sound ∧ t.Arranged ∅ := by
  have handles := (handles_arranged (α := α) id).and (fine_contains id).handles
  have hlay : Leads (Good False id fun ws : Workspace α => ws.Arranged {id} ∧ Contains id ws)
      (layOut id) (fun _ => Good False id fun ws => ws.Arranged ∅ ∧ Contains id ws)
      (Lost id (Arranged {id})) := by
    refine (layOut_arranges.and (fine_contains id).handles.layOut).weaken ?_ ?_ fun _ h => h.1
    · exact fun t h => ⟨⟨⟨h.sound, h.tame, h.keeps.1⟩, fun b hb => Or.inr (h.keeps.2 b hb)⟩,
        h.sound, h.tame, h.keeps.2⟩
    · exact fun _ t h => ⟨h.1.1.sound, h.1.1.tame, h.1.1.keeps, h.2.1.keeps⟩
  rw [removeInput_eq]
  refine Leads.fix fun ws => Leads.bind (Q := fun found t =>
    if found then Good False id (fun ws => ws.Arranged {id} ∧ Contains id ws) t
      else Good False id (fun ws => ws.Arranged ∅ ∧ Contains id ws) t)
    (((dropInput_leads ws id name).frame
      (c := Good False id (fun ws => ws.Arranged ∅ ∧ Contains id ws) ws)).weaken ?_ ?_ ?_)
    fun found => ?_
  · rintro _ ⟨rfl, h⟩
    exact ⟨⟨rfl, h.sound⟩, h⟩
  · rintro found t ⟨⟨b, -, hfound⟩, h⟩
    cases found with
    | false => exact hfound.2 ▸ h
    | true =>
      obtain ⟨l₁, i, l₂, -, -, -, hstep⟩ := hfound
      have hopen : Good False id (fun ws => ws.Arranged {id} ∧ Contains id ws) ws :=
        ⟨h.sound, h.tame, h.keeps.1.mono (Set.empty_subset _), h.keeps.2⟩
      exact hopen.sheds handles hstep
  · rintro _ ⟨⟨rfl, -⟩, h⟩
    exact ⟨h.sound, h.keeps.1⟩
  · cases found with
    | false => exact Leads.pure fun _ h => h
    | true => exact hlay.refused fun _ h => h.arranged

theorem resizeSlots_arranges (kind : ContainerKind) (old new : Nat) :
    Leads (Good False id (Arranged (α := α) ∅)) (resizeSlots id kind old new)
      (fun _ => Good False id (Arranged {id})) fun t => t.Sound ∧ t.Arranged ∅ := by
  unfold resizeSlots
  refine Leads.ite (fun _ => ?_) fun _ => Leads.ite (fun _ => ?_) fun _ =>
    Leads.pure fun _ h => h.exempt
  · exact (pushInputs_keeps (handles_arranged id) _).weaken (fun _ h => h.exempt) (fun _ _ h => h.1)
      fun _ h => h.arranged
  · unfold cutSlots
    refine (Leads.block fun ws h _ => ⟨h.sound, h.keeps⟩).bind fun b => ?_
    split
    · exact (cutInputs_keeps (handles_arranged id) _).weaken (fun _ h => h.1.exempt)
        (fun _ _ h => h) fun _ h => h.arranged
    · exact Leads.throw fun _ h => ⟨h.1.sound, h.1.keeps⟩

/-- A container has its controls in the end, and is laid out with them. -/
theorem setUnits_arranges (n : Nat) :
    Leads (Good False id (Arranged (α := α) ∅)) (setUnits id n)
      (fun _ t => Good False id (Arranged ∅) t ∧ t.Live id) fun t => t.Sound ∧ t.Arranged ∅ := by
  unfold setUnits
  refine (Leads.ask fun _ _ h _ => ⟨h.sound, h.keeps⟩).bind fun spec => ?_
  refine (Leads.block fun _ h _ => ⟨h.1.sound, h.1.keeps⟩).bind fun b₀ => ?_
  dsimp only
  refine Leads.bind ((removeInput_arranges _).pre ?_) fun _ => (removeInput_arranges _).bind fun _ => ?_
  · rintro t ⟨⟨h, hspec⟩, hb₀⟩
    refine ⟨h.sound, h.tame, h.keeps, fun b hb => ?_⟩
    rw [h.keeps.typed id b hb, Registry.kind?, (containerTemplate_eq_ok hb).mp hspec]
    rfl
  refine Leads.bind ((resizeSlots_arranges _ _ _).pre fun t h => ⟨h.sound, h.tame, h.keeps.1⟩)
    fun _ => Leads.bind (Q := fun _ => Good False id (Arranged {id})) (Leads.updateBlock ?_ ?_)
    fun _ => ?_
  · exact fun t b h hb => ⟨h.sound.insert hb rfl, False.elim,
      h.keeps.insert h.sound hb ⟨rfl, rfl, rfl, rfl, rfl, rfl⟩ rfl⟩
  · exact fun t h hn => Lost.arranged ⟨h.sound, h.keeps, not_live hn⟩
  refine Leads.bind ((pushInputs_keeps (handles_arranged id) _).refused fun _ h => h.arranged)
    fun _ => ?_
  refine Leads.bind ((refreshControls_arranges.pre fun _ h => h.1).refused fun _ h => h.arranged)
    fun _ => ?_
  refine Leads.ite (fun _ => Leads.fire fun t h => ?_) fun _ => Leads.pure fun _ h => h
  exact ⟨⟨h.1.sound.withEvents _, False.elim, h.1.keeps.congr rfl rfl rfl⟩, h.2⟩

/-- A block that gets inputs is laid out from then on. -/
theorem addInputs_arranges (before : Prop) (ts : List InputTemplate) :
    Leads (fun s : Workspace α =>
        Good False id (fun ws => ws.Arranged {id} ∧ (before → ws.Arranged ∅)) s ∧ s.Live id)
      (ts.forM (addInput id))
      (fun _ s => Good False id (fun ws => ws.Arranged {id} ∧ (before ∨ ts ≠ [] → ws.Arranged ∅)) s ∧
        s.Live id) fun _ => False := by
  have hadd : ∀ t : InputTemplate, Leads
      (fun s : Workspace α => Good False id (Arranged {id}) s ∧ s.Live id) (addInput id t)
      (fun _ s => Good False id (Arranged ∅) s ∧ s.Live id) fun _ => False := by
    intro t
    refine Leads.fix fun ws => (((addInput_arranges t).and (addInput_leads ws id t)).frame
      (c := ws.Live id)).weaken ?_ (fun _ _ h => h.1.1) ?_
    · rintro _ ⟨rfl, h, hl⟩
      exact ⟨⟨h, rfl, h.sound⟩, hl⟩
    · rintro _ ⟨⟨-, rfl, hn⟩, hl⟩
      exact hn hl
  cases ts with
  | nil =>
    refine Leads.pure fun s h => ⟨⟨h.1.sound, h.1.tame, h.1.keeps.1, fun hb => ?_⟩, h.2⟩
    exact h.1.keeps.2 (hb.resolve_right fun hne => hne rfl)
  | cons t rest =>
    refine ((hadd t).pre fun s h => ⟨⟨h.1.sound, h.1.tame, h.1.keeps.1⟩, h.2⟩).bind fun _ => ?_
    refine (Leads.forM_list rest fun u _ => (hadd u).pre fun s h => ⟨h.1.exempt, h.2⟩).post
      fun _ s h => ⟨⟨h.1.sound, h.1.tame, h.1.exempt.keeps, fun _ => h.1.keeps⟩, h.2⟩

/-- A container is laid out once it has its fixed inputs, also if it is none and declines its units. -/
theorem initContainer_arranges (spec : ContainerTemplate) :
    Leads (fun s : Workspace α => Good False id (Arranged {id}) s ∧ s.Live id)
      (initContainer id spec) (fun _ s => Good False id (Arranged ∅) s ∧ s.Live id)
      fun t => t.Sound ∧ t.Arranged ∅ := by
  unfold initContainer
  refine Leads.bind (((addInputs_arranges False (Container.head spec)).pre ?_).refused
    fun _ h => h.elim) fun _ => ?_
  · exact fun t h => ⟨⟨h.1.sound, h.1.tame, h.1.keeps, False.elim⟩, h.2⟩
  · exact (setUnits_arranges 0).pre fun t h => ⟨h.1.sound, h.1.tame,
      h.1.keeps.2 (Or.inr (List.cons_ne_nil _ _))⟩

theorem newBlock_arranges (typeName : String) :
    Leads (fun ws : Workspace α => ws.Sound ∧ ws.Arranged ∅) (newBlock typeName)
      (fun id t => Good False id (Arranged ∅) t ∧ t.Live id) fun t => t.Sound ∧ t.Arranged ∅ := by
  refine newBlock_raises typeName (fun _ hs h _ => ⟨hs, h⟩) fun s d id hd => ?_
  refine Leads.bind (((addInputs_arranges (d.container = none) d.inputs).pre ?_).refused
    fun _ h => h.elim) fun _ => ?_
  · rintro t ⟨h, hs, b, hr⟩
    exact ⟨⟨hr.sound hs (hs.registry typeName d hd), False.elim, h.raises hs hd hr⟩, hr.live⟩
  refine Leads.bind (Q := fun _ t => Good False id (fun ws => ws.Arranged {id} ∧
    (d.container = none → ws.Arranged ∅)) t ∧ t.Live id) (Leads.fire fun t h => ?_) fun _ => ?_
  · exact ⟨⟨h.1.sound.withEvents _, False.elim, h.1.keeps.1.congr rfl rfl rfl,
      fun hnone => (h.1.keeps.2 (Or.inl hnone)).congr rfl rfl rfl⟩, h.2⟩
  refine Leads.bind (Q := fun _ t => Good False id (Arranged ∅) t ∧ t.Live id) ?_
    fun _ => Leads.pure fun _ h => h
  cases hspec : d.container with
  | none => exact Leads.pure fun t h => ⟨⟨h.1.sound, h.1.tame, h.1.keeps.2 rfl⟩, h.2⟩
  | some spec =>
    change Leads _ (finishContainer id spec) _ _
    unfold finishContainer
    refine Leads.bind ((initContainer_arranges spec).pre fun t h =>
      ⟨⟨h.1.sound, h.1.tame, h.1.keeps.1⟩, h.2⟩) fun _ => ?_
    refine Leads.ite (fun _ => ?_) fun _ => Leads.pure fun _ h => h
    unfold registerCall
    refine (Leads.block fun _ h hn => (not_live hn h.2).elim).bind fun b => Leads.alter ?_
    rintro t ⟨⟨h, hl⟩, -⟩
    exact ⟨⟨⟨h.sound.wired, h.sound.blockIds, h.sound.connectionIds, h.sound.registry⟩, False.elim,
      h.keeps.congr rfl rfl rfl⟩, hl⟩

end Edit

/-! ### Every edit -/

namespace Workspace

variable [Scalar α]

theorem stable_arranged : Stable (α := α) False fun _ => Arranged ∅ where
  mono _ h := h
  shifts hs hstep h := h.glides hs hstep
  decorate hs hb hc h := h.insert hs hb (.of_core hc) (Block.roles_of_core hc)
  field {_ ws id b name value inputs} hs hb hf h := by
    have hr : Block.roles { b with inputs := inputs } = b.roles := by
      simp only [Block.roles, Edit.roles_setField hf]
    exact (h.insert hs hb (.of_setField hf) hr).congr rfl rfl rfl
  side h := h.congr rfl rfl rfl
  note _ h := h.congr rfl rfl rfl
  group h := h.congr rfl rfl rfl
  template hs ht hr h := h.of_map (hs.template ht hr) (by rw [hr]) (by rw [hr]) ht fun c y => by
    split <;> rfl
  cuts hs hstep h := h.of_map (hstep.sound hs) hstep.registry hstep.blocks hstep.connections
    fun c y => by split <;> rfl
  ties hs hstep h := h.of_map (hstep.sound hs) hstep.registry hstep.blocks hstep.connections
    fun c y => by
      split
      · rfl
      · split <;> rfl
  prunes hs hb hl _ h := h.loses hs hl (Or.inr fun b' hb' => by
    rw [hb, Option.some.injEq] at hb'
    rw [hb'])
  fill _ _ h := h
  newBlock typeName := (Edit.newBlock_arranges typeName).weaken (fun _ h => h)
    (fun _ _ h => h.1.keeps) fun _ h => h.2
  setUnits id n := (Edit.setUnits_arranges n).weaken (fun _ h => ⟨h.1, False.elim, h.2.1⟩)
    (fun _ _ h => h.1.keeps) fun _ h => h.2
  refreshControls id := Edit.refreshControls_arranges.weaken
    (fun _ h => ⟨h.1, False.elim, h.2.1.mono (Set.empty_subset _)⟩) (fun _ _ h => h.1.keeps)
    fun _ h => h.arranged.2

end Workspace

namespace Editor

open Workspace

variable [Scalar α] {config : EditorConfig α} {registry : Registry} {e : Editor α}
  {actions : List (Action α)}

/-- Whatever is done to an editor, accepted or refused, the ends of every block lie where its inputs
have them. -/
theorem run_laidOut (hone : registry.OnePlug) (hkeyed : registry.Keyed)
    (hstart : create config registry = .ok e) (hlast : Lasts (e.run actions)) {x : BlockId}
    {b : Block α} (hb : (e.run actions).workspace.blocks[x]? = some b) :
    (e.run actions).workspace.LaidOut b := by
  obtain ⟨-, rfl⟩ := create_eq_ok hstart
  have hnone : ∀ (x : BlockId) (b : Block α),
      (Workspace.empty config registry).blocks[x]? ≠ some b := by
    intro x b hb
    change (∅ : Std.ExtTreeMap BlockId (Block α))[x]? = some b at hb
    rw [Std.ExtTreeMap.getElem?_empty] at hb
    cases hb
  have hempty : (Workspace.empty config registry).Arranged ∅ :=
    ⟨hkeyed, fun x b hb => (hnone x b hb).elim, fun x b _ hb => (hnone x b hb).elim⟩
  have hend := run_steady stable_arranged ⟨empty_sound hone, hempty⟩ hlast fun h => h.elim
  exact hend.keeps.lies x b (Set.notMem_empty x) hb

/-- A function with a container for its body, after edits of both and a gesture that is given up. -/
theorem run_laidOut_function :
    let ws := ((fresh (.standard : EditorConfig Int) Palette.registry).run
      [.newBlock "FunctionDef", .newBlock "Delete", .connect ⟨2⟩ ⟨3⟩, .setUnits ⟨1⟩ 2,
        .newBlock "int", .connect ⟨5⟩ ⟨7⟩, .pickUp ⟨1⟩ true, .dragTo ⟨100, 100⟩, .setUnits ⟨1⟩ 1,
        .refreshControls ⟨0⟩, .cancelDrag]).workspace
    (ws.blocks[(⟨0⟩ : BlockId)]?).isSome ∧
      ∀ b, ws.blocks[(⟨0⟩ : BlockId)]? = some b → ws.LaidOut b := by
  have hkeyed : Palette.registry.Keyed := Registry.keyed_registerAll _
  refine ⟨by decide +kernel, fun b hb => ?_⟩
  exact run_laidOut Palette.registry_onePlug hkeyed (create_fresh (by decide)) (by decide +kernel) hb

/-- The next end of a block that takes no inputs is at the origin, not below its empty list of rows. A
type with two plugs can make the removal of a slot fail halfway, and then the next end stays below rows
that are gone. -/
theorem newBlock_leaves_next :
    let skip : BlockDefinition := { Palette.bare "skip" "Functions" "" with
      previous := Palette.anything
      next := Palette.anything }
    let both : BlockDefinition := { Palette.bare "both" "Functions" "" with
      output := Palette.anything
      previous := Palette.anything }
    let host : BlockDefinition := { Palette.bare "host" "Functions" "" with
      output := Palette.anything
      inputs := [⟨"body", .statement, [], none⟩] }
    let look (e : Editor Int) (c : ConnectionId) :=
      ((e.workspace.blocks[(⟨0⟩ : BlockId)]?).map fun b =>
          (b.next, (⟨0, Scalar.ofNat 40 * Scalar.ofNat (b.inputs.length + 1)⟩ : Point Int)),
        (e.workspace.connections[c]?).map (·.offset))
    look ((fresh .standard (Registry.empty.registerAll [skip])).run [.newBlock "skip"]) ⟨1⟩ =
        (some (some ⟨1⟩, ⟨0, 40⟩), some ⟨0, 0⟩) ∧
      look ((fresh .standard (Palette.registry.registerAll [both, host])).run
        [.newBlock "Delete", .setUnits ⟨0⟩ 1, .newPlaceholder "host", .newBlock "both",
          .connect ⟨4⟩ ⟨6⟩, .connect ⟨2⟩ ⟨3⟩, .connect ⟨2⟩ ⟨5⟩, .setUnits ⟨0⟩ 0, .setUnits ⟨0⟩ 0,
          .setUnits ⟨0⟩ 0]) ⟨1⟩ = (some (some ⟨1⟩, ⟨0, 80⟩), some ⟨0, 120⟩) := by
  decide +kernel

end Editor

end BlockEditor
