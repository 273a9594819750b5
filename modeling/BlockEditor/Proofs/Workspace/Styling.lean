import BlockEditor.Proofs.Container.Plan
import BlockEditor.Proofs.Stable
import Mathlib.Data.List.Forall2

/-!
# Blocks and their definitions

A block is made after the definition of its type: it has the ends that the definition asks for, and
its inputs follow a list of templates, apart from the texts of their fields. For a container the
list is the plan for its number of units.
-/

namespace BlockEditor

variable {α : Type}

/-- What the connection of an input is to accept, if the input is to have one. -/
def InputTemplate.asked (t : InputTemplate) : Option (Option (List String)) :=
  t.kind.connection?.map fun _ => t.check

/-- Definitions are found under their types, and leave the inputs of containers alone. -/
structure Registry.Tidy (r : Registry) : Prop where
  keyed : ∀ {typeName d}, r.get? typeName = some d → d.typeName = typeName
  bare : ∀ {typeName d}, r.get? typeName = some d → d.container.isSome → d.inputs = []
  uncontrolled : ∀ {typeName d}, r.get? typeName = some d →
    ∀ t ∈ d.inputs, t.name ≠ Container.controlsInput

/-- The templates that the inputs of a block with `n` units follow. Controls may be shown by blocks
that are no containers. -/
inductive BlockDefinition.Planned (d : BlockDefinition) : Nat → List InputTemplate → Prop
  | container {spec : ContainerTemplate} {n : Nat} : d.container = some spec →
      n ≤ Container.maxUnits → Planned d n (Container.plan spec n)
  | plain : d.container = none → Planned d 0 d.inputs
  | controlled : d.container = none → Planned d 0 (d.inputs ++ [Container.controls 0])

theorem BlockDefinition.Planned.eq_plan {d : BlockDefinition} {spec : ContainerTemplate} {n : Nat}
    {ts : List InputTemplate} (h : d.Planned n ts) (hd : d.container = some spec) :
    n ≤ Container.maxUnits ∧ ts = Container.plan spec n := by
  cases h with
  | container hd' hn =>
    rw [hd, Option.some.injEq] at hd'
    subst hd'
    exact ⟨hn, rfl⟩
  | plain hd' =>
    rw [hd] at hd'
    cases hd'
  | controlled hd' =>
    rw [hd] at hd'
    cases hd'

theorem Block.core_of_unplaced {b b' : Block α} (h : b'.unplaced = b.unplaced) :
    b'.core = b.core := by
  simp only [Block.core, h]

namespace Workspace

variable {ws ws' : Workspace α} {id x : BlockId} {c : ConnectionId} {b b' : Block α}
  {d : BlockDefinition} {ts us : List InputTemplate} {n : Nat}

/-- The end is there if it is asked for, and accepts what it is to accept. -/
def Meets (ws : Workspace α) : Option ConnectionId → Option (Option (List String)) → Prop
  | none, none => True
  | some c, some check => ∃ y, ws.connections[c]? = some y ∧ y.check = check
  | _, _ => False

structure Follows (ws : Workspace α) (i : Input) (t : InputTemplate) : Prop where
  name : i.name = t.name
  kind : i.kind = t.kind
  fields : i.fields.map (Field.setText "") = t.fields.map (Field.setText "")
  socket : ws.Meets i.connection t.asked

structure Styled (ws : Workspace α) (b : Block α) (d : BlockDefinition)
    (ts : List InputTemplate) : Prop where
  known : ws.registry.get? b.typeName = some d
  container : b.container = d.container.map (·.kind)
  output : ws.Meets b.output (d.output.map (·.check))
  previous : ws.Meets b.previous (d.previous.map (·.check))
  next : ws.Meets b.next (d.next.map (·.check))
  inputs : List.Forall₂ ws.Follows b.inputs ts

def ShapedAt (ws : Workspace α) (x : BlockId) : Prop :=
  ∀ b, ws.blocks[x]? = some b → ∃ d ts, ws.Styled b d ts ∧ d.Planned b.units ts

/-- Every block is made after its definition. -/
structure Shaped (ws : Workspace α) : Prop where
  tidy : ws.registry.Tidy
  at_ : ∀ x, ws.ShapedAt x

/-- If the connection was there, then it is there still and accepts the same. -/
def Retains (ws ws' : Workspace α) (c : ConnectionId) : Prop :=
  ∀ y, ws.connections[c]? = some y → ∃ y', ws'.connections[c]? = some y' ∧ y'.check = y.check

/-! ### What keeps the shape of a block -/

theorem Meets.carry {o : Option ConnectionId} {a : Option (Option (List String))}
    (h : ws.Meets o a) (hc : ∀ c, o = some c → ws.Retains ws' c) : ws'.Meets o a := by
  cases o with
  | none => cases a <;> exact h
  | some c =>
    cases a with
    | none => exact h
    | some check =>
      obtain ⟨y, hy, he⟩ := h
      obtain ⟨y', hy', he'⟩ := hc c rfl y hy
      exact ⟨y', hy', he'.trans he⟩

theorem Follows.carry {i : Input} {t : InputTemplate} (h : ws.Follows i t)
    (hc : ∀ c, i.connection = some c → ws.Retains ws' c) : ws'.Follows i t :=
  ⟨h.name, h.kind, h.fields, h.socket.carry hc⟩

/-- In a sound workspace an input has a connection if its template asks for one, and the one that
it asks for. -/
theorem Follows.plain_or_socket {i : Input} {t : InputTemplate} (h : ws.Follows i t) (hs : ws.Sound)
    (hb : ws.blocks[x]? = some b) (hi : i ∈ b.inputs) :
    (i.connection = none ∧ t.kind.connection? = none) ∨
      ∃ c y, i.connection = some c ∧ ws.connections[c]? = some y ∧ y.block = x ∧
        t.kind.connection? = some y.kind ∧ y.check = t.check := by
  have hsocket := h.socket
  unfold InputTemplate.asked at hsocket
  cases hc : i.connection with
  | none =>
    cases hk : t.kind.connection? with
    | none => exact Or.inl ⟨rfl, rfl⟩
    | some k =>
      rw [hc, hk] at hsocket
      exact hsocket.elim
  | some c =>
    cases hk : t.kind.connection? with
    | none =>
      rw [hc, hk] at hsocket
      exact hsocket.elim
    | some k =>
      rw [hc, hk] at hsocket
      obtain ⟨y, hy, hcheck⟩ := hsocket
      obtain ⟨z, hz, hzb, hkind⟩ := hs.listed hb (r := (c, i.kind.connection?))
        (mem_roles.mpr (Or.inr (Or.inr (Or.inr ⟨i, hi, hc, rfl⟩))))
      rw [hy, Option.some.injEq] at hz
      subst hz
      rw [h.kind, hk] at hkind
      exact Or.inr ⟨c, y, rfl, hy, hzb, hkind.symm, hcheck⟩

theorem follows_carry {is : List Input} (h : List.Forall₂ ws.Follows is ts)
    (hc : ∀ i ∈ is, ∀ c, i.connection = some c → ws.Retains ws' c) :
    List.Forall₂ ws'.Follows is ts := by
  have h' := (List.forall₂_and_left _ _).mpr ⟨hc, h⟩
  exact h'.imp fun i t hi => hi.2.carry hi.1

theorem Styled.carry (h : ws.Styled b d ts) (hr : ws'.registry = ws.registry)
    (hc : ∀ c ∈ b.connections, ws.Retains ws' c) : ws'.Styled b d ts where
  known := by
    rw [hr]
    exact h.known
  container := h.container
  output := h.output.carry fun c hb => hc c (mem_connections.mpr (Or.inl hb))
  previous := h.previous.carry fun c hb => hc c (mem_connections.mpr (Or.inr (Or.inl hb)))
  next := h.next.carry fun c hb => hc c (mem_connections.mpr (Or.inr (Or.inr (Or.inl hb))))
  inputs := follows_carry h.inputs fun i hi c hb =>
    hc c (mem_connections.mpr (Or.inr (Or.inr (Or.inr ⟨i, hi, hb⟩))))

/-- In a sound workspace a block has a next connection if its definition asks for one, and the one
that it asks for. -/
theorem Styled.next_cases (h : ws.Styled b d ts) (hs : ws.Sound) (hb : ws.blocks[x]? = some b) :
    (b.next = none ∧ d.next = none) ∨ ∃ c y t, b.next = some c ∧ d.next = some t ∧
      ws.connections[c]? = some y ∧ y.block = x ∧ y.kind = .nextStatement ∧ y.check = t.check := by
  have hmeets := h.next
  cases hc : b.next with
  | none =>
    cases hd : d.next with
    | none => exact Or.inl ⟨rfl, rfl⟩
    | some t =>
      rw [hc, hd] at hmeets
      exact hmeets.elim
  | some c =>
    cases hd : d.next with
    | none =>
      rw [hc, hd] at hmeets
      exact hmeets.elim
    | some t =>
      rw [hc, hd] at hmeets
      obtain ⟨y, hy, hcheck⟩ := hmeets
      obtain ⟨y', hy', hyb, hk⟩ := hs.listed hb (r := (c, some .nextStatement))
        (mem_roles.mpr (Or.inr (Or.inr (Or.inl ⟨hc, rfl⟩))))
      rw [hy, Option.some.injEq] at hy'
      subst hy'
      exact Or.inr ⟨c, y, t, rfl, rfl, hy, hyb, Option.some.inj hk, hcheck⟩

/-- The look of a block is no part of its shape. -/
theorem Styled.core (h : ws.Styled b d ts) (he : b'.core = b.core) : ws.Styled b' d ts where
  known := by
    have ht : b'.typeName = b.typeName := congrArg (fun u : Block Unit => u.typeName) he
    rw [ht]
    exact h.known
  container := by
    have hk : b'.container = b.container := congrArg (fun u : Block Unit => u.container) he
    rw [hk]
    exact h.container
  output := by
    have ho : b'.output = b.output := congrArg (fun u : Block Unit => u.output) he
    rw [ho]
    exact h.output
  previous := by
    have hp : b'.previous = b.previous := congrArg (fun u : Block Unit => u.previous) he
    rw [hp]
    exact h.previous
  next := by
    have hn : b'.next = b.next := congrArg (fun u : Block Unit => u.next) he
    rw [hn]
    exact h.next
  inputs := by
    have hi : b'.inputs = b.inputs := congrArg (fun u : Block Unit => u.inputs) he
    rw [hi]
    exact h.inputs

theorem units_of_core (he : b'.core = b.core) : b'.units = b.units :=
  congrArg (fun u : Block Unit => u.units) he

theorem ShapedAt.carry (h : ws.ShapedAt x) (hs : ws.Sound) (hr : ws'.registry = ws.registry)
    (hb : ∀ b', ws'.blocks[x]? = some b' → ∃ b, ws.blocks[x]? = some b ∧ b'.core = b.core)
    (hc : ∀ c y, ws.connections[c]? = some y → y.block = x → ws.Retains ws' c) :
    ws'.ShapedAt x := by
  intro b' hb'
  obtain ⟨b, hb, he⟩ := hb b' hb'
  obtain ⟨d, ts, hstyled, hplan⟩ := h b hb
  refine ⟨d, ts, (hstyled.core he).carry hr fun c hmem => ?_, ?_⟩
  · have hmem' : c ∈ b.connections := by
      rw [← b.map_fst_roles, ← Block.roles_of_core he, b'.map_fst_roles]
      exact hmem
    obtain ⟨y, hy, hyb⟩ := hs.connection_of_mem hb hmem'
    exact hc c y hy hyb
  · rw [units_of_core he]
    exact hplan

theorem ShapedAt.of_dead (h : ws.blocks[x]? = none) : ws.ShapedAt x := by
  intro b hb
  rw [h] at hb
  cases hb

theorem retains_of_eq (h : ws'.connections[c]? = ws.connections[c]?) : ws.Retains ws' c :=
  fun y hy => ⟨y, h.trans hy, rfl⟩

/-- Steps that change connections in what they are linked to at most. -/
theorem retains_of_map {f : Connection α → Connection α}
    (h : ws'.connections[c]? = (ws.connections[c]?).map f) (hf : ∀ y, (f y).check = y.check) :
    ws.Retains ws' c := by
  intro y hy
  rw [hy, Option.map_some] at h
  exact ⟨f y, h, hf y⟩

theorem Shifts.retains {S : BlockId → Prop} (h : ws.Shifts S ws') (c : ConnectionId) :
    ws.Retains ws' c := by
  intro y hy
  obtain ⟨y', hy', he⟩ := h.connection hy
  exact ⟨y', hy', congrArg (fun u : Connection Unit => u.check) he⟩

theorem Shifts.shapedAt {S : BlockId → Prop} (h : ws.Shifts S ws') (hs : ws.Sound)
    (hx : ws.ShapedAt x) : ws'.ShapedAt x := by
  refine hx.carry hs h.registry (fun b' hb' => ?_) fun c _ _ _ => h.retains c
  obtain ⟨b, hb, he⟩ := h.symm_block hb'
  exact ⟨b, hb, Block.core_of_unplaced he.symm⟩

theorem Loses.retains {keep gone : List Input} {R : List BlockId}
    (h : ws.Loses id keep gone R ws')
    (hc : ws.dead (gone.filterMap (·.connection)) R c = false) : ws.Retains ws' c := by
  refine retains_of_map (f := fun y => { y with
    target := y.target.filter (!ws.dead (gone.filterMap (·.connection)) R ·) }) ?_ fun _ => rfl
  rw [h.connections, hc]
  rfl

/-- What another block that stays is made of is not touched. -/
theorem Loses.shapedAt {keep gone : List Input} {R : List BlockId}
    (h : ws.Loses id keep gone R ws') (hs : ws.Sound) (hne : x ≠ id) (hx : ws.ShapedAt x) :
    ws'.ShapedAt x := by
  by_cases hR : x ∈ R
  · exact ShapedAt.of_dead (h.lost x hR)
  · refine hx.carry hs h.registry (fun b' hb' => ?_) fun c y hy hyb => h.retains ?_
    · obtain ⟨-, b, hb, rfl⟩ := h.old hb'
      exact ⟨b, hb, by rw [if_neg hne]⟩
    · rw [Bool.eq_false_iff]
      intro hd
      rcases (dead_iff hy).mp hd with hg | hg
      · obtain ⟨z, hz, hzb, -⟩ := h.socket hs hg
        rw [hy] at hz
        cases hz
        exact hne (hyb.symm.trans hzb)
      · exact hR (hyb ▸ hg)

theorem Pushes.retains [Scalar α] {is : List Input} {l : List NewEnd} (h : ws.Pushes id ts is l ws')
    (hs : ws.Sound) (c : ConnectionId) : ws.Retains ws' c :=
  fun y hy => retains_of_eq (h.kept_of_old (hs.connectionIds hy)) y hy

theorem Pushes.registry [Scalar α] {is : List Input} {l : List NewEnd}
    (h : ws.Pushes id ts is l ws') : ws'.registry = ws.registry := by
  rw [h.rest]

theorem Pushes.shapedAt [Scalar α] {is : List Input} {l : List NewEnd}
    (h : ws.Pushes id ts is l ws') (hs : ws.Sound) (hne : x ≠ id) (hx : ws.ShapedAt x) :
    ws'.ShapedAt x := by
  refine hx.carry hs h.registry (fun b' hb' => ?_) fun c _ _ _ => h.retains hs c
  rw [h.blocks, Option.map_eq_some_iff] at hb'
  obtain ⟨b, hb, rfl⟩ := hb'
  exact ⟨b, hb, by rw [if_neg hne]⟩

theorem Raises.retains [Scalar α] (h : ws.Raises d id b ws') (hs : ws.Sound) (c : ConnectionId) :
    ws.Retains ws' c :=
  fun y hy => retains_of_eq (h.kept_of_old (hs.connectionIds hy)) y hy

theorem Raises.shapedAt [Scalar α] (h : ws.Raises d id b ws') (hs : ws.Sound) (hne : x ≠ id)
    (hx : ws.ShapedAt x) : ws'.ShapedAt x := by
  refine hx.carry hs h.registry (fun b' hb' => ?_) fun c _ _ _ => h.retains hs c
  rw [h.blocks, if_neg hne] at hb'
  exact ⟨b', hb', rfl⟩

/-! ### Inputs that follow a list of templates -/

/-- An end that a definition asks for was made for a new block. -/
theorem meets_ends [Scalar α] {k : ConnectionKind} {t : Option ConnectionTemplate} {o : Option ConnectionId}
    (h : o.isSome = t.isSome)
    (hmade : ∀ e ∈ ConnectionTemplate.ends k t o, ws.connections[e.connection]? = some (e.mount id)) :
    ws.Meets o (t.map (·.check)) := by
  cases t with
  | none =>
    cases o with
    | none => trivial
    | some c => cases h
  | some t =>
    cases o with
    | none => cases h
    | some c => exact ⟨_, hmade ⟨c, k, t.check⟩ (by simp [ConnectionTemplate.ends]), rfl⟩

theorem Raises.styled [Scalar α] (h : ws.Raises d id b ws')
    (hd : ws.registry.get? d.typeName = some d) : ws'.Styled b d [] where
  known := by
    rw [h.registry, h.unfurnished.block]
    exact hd
  container := by rw [h.unfurnished.block]; rfl
  output := meets_ends (k := .outputValue) h.unfurnished.output fun e he =>
    h.made e (by simp [newEnds, he])
  previous := meets_ends (k := .previousStatement) h.unfurnished.previous fun e he =>
    h.made e (by simp [newEnds, he])
  next := meets_ends (k := .nextStatement) h.unfurnished.next fun e he =>
    h.made e (by simp [newEnds, he])
  inputs := by
    rw [h.unfurnished.inputs]
    exact .nil

theorem follows_built [Scalar α] {is : List Input} {l : List NewEnd} (h : Built ts is l)
    (hmade : ∀ e ∈ l, ws.connections[e.connection]? = some (e.mount id)) :
    List.Forall₂ ws.Follows is ts := by
  induction h with
  | nil => exact .nil
  | dummy hk _ ih =>
    refine .cons ⟨rfl, rfl, rfl, ?_⟩ (ih hmade)
    rw [InputTemplate.asked, hk]
    trivial
  | socket c hk _ ih =>
    refine .cons ⟨rfl, rfl, rfl, ?_⟩ (ih fun e he => hmade e (List.mem_cons_of_mem _ he))
    rw [InputTemplate.asked, hk]
    exact ⟨_, hmade _ List.mem_cons_self, rfl⟩

theorem Pushes.styled [Scalar α] {is : List Input} {l : List NewEnd}
    (h : ws.Pushes id us is l ws') (hs : ws.Sound) (hb : ws.Styled b d ts) :
    ws'.Styled { b with inputs := b.inputs ++ is } d (ts ++ us) := by
  have hb' := hb.carry h.registry fun c _ => h.retains hs c
  exact ⟨hb'.known, hb'.container, hb'.output, hb'.previous, hb'.next,
    List.rel_append hb'.inputs (follows_built h.built h.made)⟩

/-- Inputs are removed, and the templates they follow with them. -/
theorem Loses.styled {keep gone : List Input} {R : List BlockId}
    (h : ws.Loses id keep gone R ws') (hs : ws.Sound) (hb : ws.blocks[id]? = some b)
    (hid : id ∉ R) (hstyled : ws.Styled b d ts) (hkeep : List.Forall₂ ws.Follows keep us) :
    ws'.Styled { b with inputs := keep } d us := by
  have hold : ws.Styled { b with inputs := keep } d us :=
    ⟨hstyled.known, hstyled.container, hstyled.output, hstyled.previous, hstyled.next, hkeep⟩
  refine hold.carry h.registry fun c hc => h.retains ?_
  rw [← Block.map_fst_roles, h.roles hs hb hid, List.mem_map] at hc
  obtain ⟨r, hr, rfl⟩ := hc
  simpa using (List.mem_filter.mp hr).2

theorem map_setText_setFieldIn {name value : String} {l fields : List Field}
    (h : setFieldIn name value l = some fields) :
    fields.map (Field.setText "") = l.map (Field.setText "") := by
  induction l generalizing fields with
  | nil => cases h
  | cons f rest ih =>
    unfold setFieldIn at h
    split at h
    · cases h
      cases f <;> rfl
    · obtain ⟨fs, hfs, rfl⟩ := Option.map_eq_some_iff.mp h
      rw [List.map_cons, List.map_cons, ih hfs]

/-- A field that is set leaves the rest of the inputs alone. -/
theorem follows_setField {name value : String} {l inputs : List Input}
    (h : setFieldAmong name value l = some inputs) (hl : List.Forall₂ ws.Follows l ts) :
    List.Forall₂ ws.Follows inputs ts := by
  induction hl generalizing inputs with
  | nil => cases h
  | @cons i t is ts hi his ih =>
    unfold setFieldAmong at h
    split at h
    next fields hf =>
      cases h
      exact .cons ⟨hi.name, hi.kind, (map_setText_setFieldIn hf).trans hi.fields, hi.socket⟩ his
    next =>
      obtain ⟨js, hjs, rfl⟩ := Option.map_eq_some_iff.mp h
      exact .cons hi (ih hjs)

theorem follows_erase (name : String) {is : List Input} (h : List.Forall₂ ws.Follows is ts) :
    List.Forall₂ ws.Follows (is.eraseP (·.name = name)) (ts.eraseP (·.name = name)) := by
  induction h with
  | nil => exact .nil
  | @cons i t is ts hi his ih =>
    by_cases hn : i.name = name
    · have hn' : t.name = name := hi.name.symm.trans hn
      simpa [List.eraseP_cons, hn, hn'] using his
    · have hn' : t.name ≠ name := fun h => hn (hi.name.trans h)
      simpa [List.eraseP_cons, hn, hn'] using ⟨hi, ih⟩

theorem follows_findIdx? (name : String) {is : List Input} (h : List.Forall₂ ws.Follows is ts) :
    is.findIdx? (·.name = name) = ts.findIdx? (·.name = name) := by
  induction h with
  | nil => rfl
  | cons hi _ ih => rw [List.findIdx?_cons, List.findIdx?_cons, hi.name, ih]

end Workspace

end BlockEditor
