import BlockEditor.Proofs.Stable

/-!
# Inputs that have their placeholders

Whenever an input becomes empty it gets the placeholder of its template. So as long as nothing is
refused, no input with a template is empty, apart from the holes between two steps.
-/

namespace BlockEditor

variable {α : Type}

namespace Workspace

variable {ws ws' : Workspace α} {X : Set ConnectionId} {c : ConnectionId} {id : BlockId}

/-- Every input with a template is filled, apart from the holes. -/
def Whole (X : Set ConnectionId) (ws : Workspace α) : Prop :=
  ∀ c ∉ X, ws.Full c

/-- The connection belongs to an input. -/
def Feeds (ws : Workspace α) (c : ConnectionId) : Prop :=
  ∃ (x : BlockId) (b : Block α), ws.blocks[x]? = some b ∧ ∃ i ∈ b.inputs, i.connection = some c

theorem Sound.isSocket_of_feeds (hs : ws.Sound) (h : ws.Feeds c) {y : Connection α}
    (hy : ws.connections[c]? = some y) : y.kind.isSocket := by
  obtain ⟨x, b, hb, i, hi, hc⟩ := h
  obtain ⟨z, hz, -, hk⟩ := hs.socket hb (mem_sockets.mpr (Or.inl ⟨i, hi, hc⟩))
  rw [hy] at hz
  cases hz
  exact hk

/-- A step that makes no inputs leaves an input full unless it takes something out of it, or gives
it a template. -/
theorem Full.carry (h : ws.Full c) (hf : ws'.Feeds c → ws.Feeds c)
    (hc : ∀ y', ws'.connections[c]? = some y' → ws'.Feeds c → ∃ y, ws.connections[c]? = some y ∧
      y'.template = y.template ∧ (y.target.isSome → y'.target.isSome)) : ws'.Full c := by
  intro x b i y' hb hi hic hy' ht
  have hfeeds : ws'.Feeds c := ⟨x, b, hb, i, hi, hic⟩
  obtain ⟨y, hy, hm, htarget⟩ := hc y' hy' hfeeds
  obtain ⟨x₀, b₀, hb₀, i₀, hi₀, hic₀⟩ := hf hfeeds
  exact htarget (h x₀ b₀ i₀ y hb₀ hi₀ hic₀ hy (hm ▸ ht))

/-- The inputs of all blocks have the connections that they had. -/
theorem feeds_of_blocks (h : ∀ (x : BlockId) b', ws'.blocks[x]? = some b' →
      ∃ b, ws.blocks[x]? = some b ∧ ∀ i ∈ b'.inputs, ∀ d, i.connection = some d →
        ∃ j ∈ b.inputs, j.connection = some d)
    (hf : ws'.Feeds c) : ws.Feeds c := by
  obtain ⟨x, b', hb', i, hi, hc⟩ := hf
  obtain ⟨b, hb, hsame⟩ := h x b' hb'
  obtain ⟨j, hj, hjc⟩ := hsame i hi c hc
  exact ⟨x, b, hb, j, hj, hjc⟩

theorem feeds_congr (h : ws'.blocks = ws.blocks) (hf : ws'.Feeds c) : ws.Feeds c := by
  unfold Feeds at hf ⊢
  rwa [h] at hf

theorem feeds_insert {b b' : Block α} (hb : ws.blocks[id]? = some b)
    (hi : ∀ i ∈ b'.inputs, ∀ d, i.connection = some d → ∃ j ∈ b.inputs, j.connection = some d)
    (hf : Feeds { ws with blocks := ws.blocks.insert id b' } c) : ws.Feeds c := by
  refine feeds_of_blocks (fun x b'' hb'' => ?_) hf
  rw [getElem?_insert] at hb''
  by_cases hx : x = id
  · rw [if_pos hx, Option.some.injEq] at hb''
    subst hx hb''
    exact ⟨b, hb, hi⟩
  · rw [if_neg hx] at hb''
    exact ⟨b'', hb'', fun i hi d hd => ⟨i, hi, hd⟩⟩

theorem Whole.congr (h : ws.Whole X) (hb : ws'.blocks = ws.blocks)
    (hc : ws'.connections = ws.connections) : ws'.Whole X := by
  intro c hX
  refine (h c hX).carry (feeds_congr hb) fun y hy _ => ⟨y, ?_, rfl, id⟩
  rwa [hc] at hy

theorem Whole.withBlock {b b' : Block α} (h : ws.Whole X) (hb : ws.blocks[id]? = some b)
    (hi : ∀ i ∈ b'.inputs, ∀ d, i.connection = some d → ∃ j ∈ b.inputs, j.connection = some d) :
    Whole X { ws with blocks := ws.blocks.insert id b' } :=
  fun c hX => (h c hX).carry (feeds_insert hb hi) fun y hy _ => ⟨y, hy, rfl, fun h => h⟩

theorem Whole.shifts {S : BlockId → Prop} (h : ws.Whole X) (hstep : ws.Shifts S ws') :
    ws'.Whole X := by
  intro c hX
  refine (h c hX).carry (feeds_of_blocks fun x b' hb' => ?_) fun y' hy' _ => ?_
  · obtain ⟨b, hb, he⟩ := hstep.symm_block hb'
    have hi : b.inputs = b'.inputs := congrArg (fun u : Block Unit => u.inputs) he
    exact ⟨b, hb, fun i hmem d hd => ⟨i, hi ▸ hmem, hd⟩⟩
  · obtain ⟨y, hy, he⟩ := hstep.symm_connection hy'
    have ht : y.target = y'.target := congrArg (fun u : Connection Unit => u.target) he
    exact ⟨y, hy, (congrArg (fun u : Connection Unit => u.template) he).symm, fun h => ht ▸ h⟩

/-- What is lost is lost with the inputs that it hung on. -/
theorem Whole.loses {keep gone : List Input} {R : List BlockId} (h : ws.Whole X) (hs : ws.Sound)
    (hstep : ws.Loses id keep gone R ws') : ws'.Whole X := by
  intro c hX
  refine (h c hX).carry (feeds_of_blocks fun x b' hb' => ?_) fun y' hy' hfeeds => ?_
  · obtain ⟨-, b, hb, rfl⟩ := hstep.old hb'
    refine ⟨b, hb, fun i hi d hd => ⟨i, ?_, hd⟩⟩
    by_cases hx : x = id
    · subst hx
      rw [if_pos rfl] at hi
      obtain ⟨l₁, l₂, hl, rfl⟩ := hstep.parts b hb
      rw [hl]
      rcases List.mem_append.mp hi with hi | hi
      · exact List.mem_append_left _ (List.mem_append_left _ hi)
      · exact List.mem_append_right _ hi
    · rwa [if_neg hx] at hi
  · obtain ⟨halive, y, hy, rfl⟩ := hstep.old_connection hy'
    refine ⟨y, hy, rfl, fun ht => ?_⟩
    obtain ⟨d, hd⟩ := Option.isSome_iff_exists.mp ht
    have hk := (hstep.sound hs).isSocket_of_feeds hfeeds hy'
    have hlink : ∃ v, ws.graph.Link c d y.wire v := by
      obtain ⟨z, hz, -⟩ := hs.target hy hd
      exact ⟨z.wire, wire_of_connection hy, wire_of_connection hz, hk, hd⟩
    obtain ⟨v, hlink⟩ := hlink
    have hdead : ws.dead (gone.filterMap (·.connection)) R d = false := by
      rw [Bool.eq_false_iff]
      intro hdead
      rcases (dead_iff_wire hlink.plug).mp hdead with hg | hR
      · obtain ⟨z, hz, -, hz'⟩ := hstep.socket hs hg
        have hp := hlink.isPlug hs.wired
        rw [show v = z.wire from Option.some.inj (hlink.plug.symm.trans (wire_of_connection hz))] at hp
        rw [ConnectionKind.isPlug_eq_not] at hp
        have hz'' : z.wire.kind.isSocket := hz'
        rw [hz''] at hp
        cases hp
      · rw [hstep.hangs hlink hR] at halive
        cases halive
    simp [hd, hdead]

theorem Whole.pushes [Scalar α] {ts : List InputTemplate} {is : List Input} {l : List NewEnd}
    (h : ws.Whole X) (hstep : ws.Pushes id ts is l ws') : ws'.Whole X := by
  intro c hX
  rcases mem_or_ne l c with ⟨e, he, rfl⟩ | hc
  · intro x b i y _ _ _ hy ht
    rw [hstep.made e he] at hy
    cases hy
    cases ht
  · refine (h c hX).carry (fun hf => ?_) fun y hy _ => ⟨y, ?_, rfl, fun ht => ht⟩
    · obtain ⟨x, b', hb', i, hi, hic⟩ := hf
      rw [hstep.blocks, Option.map_eq_some_iff] at hb'
      obtain ⟨b, hb, rfl⟩ := hb'
      refine ⟨x, b, hb, i, ?_, hic⟩
      split at hi
      · refine (List.mem_append.mp hi).resolve_right fun hnew => ?_
        have hmem : c ∈ l.map (·.connection) := by
          rw [← hstep.built.connections]
          exact List.mem_filterMap.mpr ⟨i, hnew, hic⟩
        obtain ⟨e, he, hec⟩ := List.mem_map.mp hmem
        exact hc e he hec.symm
      · exact hi
    · rwa [hstep.kept hc] at hy

theorem Whole.raises [Scalar α] {d : BlockDefinition} {b : Block α} (h : ws.Whole X)
    (hstep : ws.Raises d id b ws') : ws'.Whole X := by
  intro c hX
  rcases mem_or_ne (newEnds d b) c with ⟨e, he, rfl⟩ | hc
  · intro x b i y _ _ _ hy ht
    rw [hstep.made e he] at hy
    cases hy
    cases ht
  · refine (h c hX).carry (fun hf => ?_) fun y hy _ => ⟨y, ?_, rfl, fun ht => ht⟩
    · obtain ⟨x, b', hb', hi⟩ := hf
      rw [hstep.blocks] at hb'
      split at hb'
      · cases hb'
        rw [hstep.unfurnished.inputs] at hi
        obtain ⟨i, hi, -⟩ := hi
        cases hi
      · exact ⟨x, b', hb', hi⟩
    · rwa [hstep.kept hc] at hy

theorem Whole.template {t : Option Snapshot} (h : ws.Whole X)
    (hc : ∀ d : ConnectionId, ws'.connections[d]? = (ws.connections[d]?).map
      fun y : Connection α => if d = c then { y with template := t } else y)
    (hb : ws'.blocks = ws.blocks) : ws'.Whole (insert c X) := by
  intro d hd
  rw [Set.mem_insert_iff, not_or] at hd
  refine (h d hd.2).carry (feeds_congr hb) fun y hy _ => ⟨y, ?_, rfl, fun ht => ht⟩
  rw [hc] at hy
  cases hy' : ws.connections[d]? with
  | none =>
    rw [hy'] at hy
    cases hy
  | some z =>
    rw [hy', Option.map_some, if_neg hd.1] at hy
    exact hy

theorem Whole.cuts {s p : ConnectionId} {child : BlockId} (h : ws.Whole X) (hs : ws.Sound)
    (hstep : ws.Cuts s p child ws') : ws'.Whole (insert s X) := by
  intro c hc
  rw [Set.mem_insert_iff, not_or] at hc
  refine (h c hc.2).carry (feeds_congr hstep.blocks) fun y' hy' hfeeds => ?_
  rw [hstep.connections, Option.map_eq_some_iff] at hy'
  obtain ⟨y, hy, rfl⟩ := hy'
  have hp : c ≠ p := by
    rintro rfl
    obtain ⟨w, v, hl, -⟩ := hstep.link
    have hplug := hl.isPlug hs.wired
    have hv : v = y.wire := Option.some.inj (hl.plug.symm.trans (wire_of_connection hy))
    have hk : y.kind.isSocket := hs.isSocket_of_feeds (feeds_congr hstep.blocks hfeeds) hy
    rw [hv, ConnectionKind.isPlug_eq_not, show y.wire.kind = y.kind from rfl, hk] at hplug
    cases hplug
  refine ⟨y, hy, ?_, fun ht => ?_⟩
  · split <;> rfl
  · simpa [hc.1, hp] using ht

theorem Whole.ties {s p : ConnectionId} {child : BlockId} (h : ws.Whole X)
    (hstep : ws.Ties s p child ws') : ws'.Whole X := by
  intro c hX
  refine (h c hX).carry (feeds_congr hstep.blocks) fun y' hy' _ => ?_
  rw [hstep.connections, Option.map_eq_some_iff] at hy'
  obtain ⟨y, hy, rfl⟩ := hy'
  refine ⟨y, hy, ?_, fun ht => ?_⟩
  · split
    · rfl
    · split <;> rfl
  · split
    · rfl
    · split
      · rfl
      · exact ht

theorem coarse_whole (X : Set ConnectionId) : Coarse (α := α) (Whole X) where
  units hb h := h.withBlock hb fun i hi _ hd => ⟨i, hi, hd⟩
  events h := h.congr rfl rfl
  procedures h := h.congr rfl rfl

section Stable

variable [Scalar α]

theorem fine_whole (strict : Prop) (id : BlockId) (X : Set ConnectionId) :
    Fine (α := α) strict id (Whole X) where
  shifts _ hstep h := h.shifts hstep
  sheds hs _ hstep h := by
    obtain ⟨R, hl, -⟩ := hstep
    exact h.loses hs hl
  pushes _ hstep h _ := h.pushes hstep

theorem connection_setField {name value : String} {l inputs : List Input}
    (h : setFieldAmong name value l = some inputs) :
    inputs.map (·.connection) = l.map (·.connection) := by
  induction l generalizing inputs with
  | nil => cases h
  | cons i rest ih =>
    simp only [setFieldAmong] at h
    split at h
    · cases h
      rfl
    · obtain ⟨is, his, rfl⟩ := Option.map_eq_some_iff.mp h
      simp only [List.map_cons, ih his]

theorem stable_whole : Stable (α := α) False Whole where
  mono hXY h c hc := h c fun hX => hc (hXY hX)
  shifts _ hstep h := h.shifts hstep.toShifts
  decorate {X ws id b b'} _ hb he h := by
    have hinputs : b'.inputs = b.inputs := congrArg (fun u : Block Unit => u.inputs) he
    exact h.withBlock hb fun i hi _ hd => ⟨i, hinputs ▸ hi, hd⟩
  field {X ws id b name value inputs} _ hb hf h := by
    have hset : Whole X (ws.setInputs id b inputs) := by
      refine h.withBlock hb fun i hi d hd => ?_
      have hmem : some d ∈ inputs.map (·.connection) := hd ▸ List.mem_map_of_mem hi
      rw [connection_setField hf] at hmem
      exact List.mem_map.mp hmem
    exact (coarse_whole X).procedures hset
  side h := h.congr rfl rfl
  note _ h := h.congr rfl rfl
  group h := h.congr rfl rfl
  template _ hc hr h := h.template hc (by rw [hr])
  cuts hs hstep h := h.cuts hs hstep
  ties _ hstep h := h.ties hstep
  prunes hs _ hl _ h := h.loses hs hl
  fill {X ws c} _ hc h d hd := by
    by_cases he : d = c
    · subst he
      exact hc
    · exact h d fun hX => hd ((Set.mem_insert_iff.mp hX).resolve_left he)
  newBlock {X} typeName := ((coarse_whole X).newBlock (fun id => fine_whole False id X)
    (fun _ _ hstep h => h.raises hstep) typeName).weaken (fun _ h => h) (fun _ _ h => h.1.keeps)
      fun _ h => fun c hc => (hc (Set.mem_univ c)).elim
  setUnits {X} id n := ((coarse_whole X).setUnits (fine_whole False id X) n).weaken
    (fun _ h => ⟨h.1, h.2.2, h.2.1⟩) (fun _ _ h => h.1.keeps)
      fun _ h => fun c hc => (hc (Set.mem_univ c)).elim
  refreshControls {X} id := (Edit.refreshControls_keeps (fine_whole False id X).handles).weaken
    (fun _ h => ⟨h.1, h.2.2, h.2.1⟩) (fun _ _ h => h.1.keeps)
      fun _ h => fun c hc => (hc (Set.mem_univ c)).elim

end Stable

end Workspace

end BlockEditor
