import BlockEditor.Proofs.Snapshot
import BlockEditor.Proofs.Stable
import BlockEditor.Proofs.Workspace.Hanging

/-!
# Building keeps properties

What is built from a snapshot is new, hangs on nothing, and leaves alone what was there before. A
socket gets its template first, and is a hole until something is plugged into it.
-/

namespace BlockEditor

variable {α : Type}

namespace Workspace

variable {ws u t : Workspace α} {id : BlockId} {b b' : Block α} {c : ConnectionId}
  {cs : List ConnectionId} {J : Set ConnectionId → Workspace α → Prop} {X : Set ConnectionId}
  {M : Bool → Prop}

/-- What is said of whether a block is a placeholder holds, if the block is there. -/
def Marked (M : Bool → Prop) (ws : Workspace α) (id : BlockId) : Prop :=
  ∀ b, ws.blocks[id]? = some b → M b.placeholder

theorem Marked.isPlaceholder (h : ws.Marked (· = true) id) (hl : ws.Live id) :
    ws.isPlaceholder id := by
  obtain ⟨b, hb⟩ := hl
  rw [Workspace.isPlaceholder, hb]
  exact h b hb

/-- Whether a block is a placeholder has nothing to do with its units. -/
theorem coarse_marked (M : Bool → Prop) (id : BlockId) : Coarse (α := α) (Marked M · id) where
  units {ws x b n} hb h b' hb' := by
    rw [getElem?_insert] at hb'
    split at hb'
    · next hx =>
      cases hb'
      exact h b (hx ▸ hb)
    · exact h b' hb'
  events h := h
  procedures h := h

theorem fine_marked [Scalar α] (strict : Prop) (M : Bool → Prop) (x id : BlockId) :
    Fine (α := α) strict x (Marked M · id) where
  shifts _ hstep h b hb := by
    obtain ⟨b₀, hb₀, he⟩ := hstep.symm_block hb
    have hp : b₀.placeholder = b.placeholder := congrArg (fun u : Block Unit => u.placeholder) he
    exact hp ▸ h b₀ hb₀
  sheds _ _ hstep h b hb := by
    obtain ⟨R, hl, -⟩ := hstep
    obtain ⟨-, b₀, hb₀, rfl⟩ := hl.old hb
    split
    · exact h b₀ hb₀
    · exact h b₀ hb₀
  pushes _ hstep h _ b hb := by
    rw [hstep.blocks, Option.map_eq_some_iff] at hb
    obtain ⟨b₀, hb₀, rfl⟩ := hb
    split
    · exact h b₀ hb₀
    · exact h b₀ hb₀

/-- A block that was made since the state `ws`, with nothing plugged in yet. -/
structure Sprout (J : Set ConnectionId → Workspace α → Prop) (X : Set ConnectionId)
    (M : Bool → Prop) (ws : Workspace α) (id : BlockId) (t : Workspace α) : Prop where
  steady : Steady J X t
  fresh : ws.Fresh id t
  blank : t.Blank id
  live : t.Live id
  mark : t.Marked M id

/-- The sockets `cs` of a new block are still free. -/
structure Filling (J : Set ConnectionId → Workspace α → Prop) (X : Set ConnectionId)
    (ws : Workspace α) (id : BlockId) (b : Block α) (cs : List ConnectionId) (t : Workspace α) :
    Prop where
  steady : Steady J X t
  fresh : ws.Fresh id t
  block : t.blocks[id]? = some b
  free : ∀ c ∈ cs, ∃ y, t.connections[c]? = some y ∧ y.block = id ∧ y.target = none
  nodup : cs.Nodup

/-- What was there in the state `ws` is still there after a step that was refused. -/
structure Stranded (J : Set ConnectionId → Workspace α → Prop) (ws t : Workspace α) : Prop where
  steady : Steady J Set.univ t
  extend : Extends ∅ ws t
  acyclic : ws.graph.Acyclic → t.graph.Acyclic

theorem Fresh.stranded (h : ws.Fresh id t) (ht : Steady J Set.univ t) : Stranded J ws t :=
  ⟨ht, h.extend, h.acyclic ht.sound⟩

theorem Stranded.after (h : Stranded J u t) (hf : ws.Fresh id u) (hu : u.Sound) :
    Stranded J ws t :=
  ⟨h.steady, hf.extend.trans h.extend fun _ hc => hc.elim, fun hac => h.acyclic (hf.acyclic hu hac)⟩

theorem Sprout.filling (h : Sprout J X M ws id t) (hb : t.blocks[id]? = some b) :
    Filling J X ws id b b.sockets t where
  steady := h.steady
  fresh := h.fresh
  block := hb
  free c hc := by
    obtain ⟨y, hy, hyb, hk⟩ := h.steady.sound.socket hb hc
    exact ⟨y, hy, hyb, (h.blank c y hy hyb hk).1⟩
  nodup := h.steady.sound.nodup_sockets hb

theorem Sprout.plain (h : Sprout J X M ws id t) : Sprout J X (fun _ => True) ws id t :=
  ⟨h.steady, h.fresh, h.blank, h.live, fun _ _ => trivial⟩

/-- A socket may be passed over. -/
theorem Filling.skip (h : Filling J X ws id b (c :: cs) t) : Filling J X ws id b cs t where
  steady := h.steady
  fresh := h.fresh
  block := h.block
  free d hd := h.free d (List.mem_cons_of_mem c hd)
  nodup := (List.nodup_cons.mp h.nodup).2

theorem Filling.live (h : Filling J X ws id b cs t) : t.Live id :=
  ⟨b, h.block⟩

/-- The sockets of a new block are new. -/
theorem Filling.new (h : Filling J X ws id b (c :: cs) t) :
    ws.ids.connections ≤ c.index.toNat := by
  obtain ⟨y, hy, hyb, -⟩ := h.free c List.mem_cons_self
  refine Nat.le_of_not_lt fun hlt => ?_
  have hold := h.fresh.extend.owner_old h.fresh.start (Set.notMem_empty c) hlt hy
  have hnew := h.fresh.new
  rw [hyb] at hold
  omega

variable [Scalar α] {strict : Prop}

/-- The socket that something is plugged into is a hole no more. -/
theorem Steady.joined {S : BlockId → Prop} {s p : ConnectionId} {child : BlockId}
    (hJ : Stable strict J) (h : Steady J (insert s X) ws) (ht : ws.Ties s p child u) (hstep : u.Glides S t) :
    Steady J X t := by
  have hu : Steady J (insert s X) u := ⟨ht.sound h.sound, hJ.ties h.sound ht h.keeps⟩
  refine (hu.shifts hJ hstep).fill hJ ?_
  obtain ⟨w, v, hm, -⟩ := ht.mates
  have hw := Graph.tie_wire_socket hm
  rw [← ht.graph, ← hstep.graph] at hw
  obtain ⟨y, hy, hyw⟩ := connection_of_wire hw
  refine full_of_target hy ?_
  rw [show y.target = some p from congrArg Wire.target hyw]
  rfl

/-- What building needs of a property: that it is kept where a new block is dressed, filled and
plugged in. -/
structure Growing (strict : Prop) (J : Set ConnectionId → Workspace α → Prop) : Prop where
  mono : ∀ {X Y ws}, X ⊆ Y → J X ws → J Y ws
  decorate : ∀ {X ws} {id : BlockId} {b b' : Block α}, ws.Sound → ws.blocks[id]? = some b →
    b'.core = b.core → b'.position = b.position → J X ws →
    J X { ws with blocks := ws.blocks.insert id b' }
  field : ∀ {X ws} {id : BlockId} {b : Block α} {name value : String} {inputs : List Input},
    ws.Sound → ws.blocks[id]? = some b → setFieldAmong name value b.inputs = some inputs →
    J X ws → J X (ws.withField id b name value inputs)
  template : ∀ {X ws ws'} {c : ConnectionId} {t : Option Snapshot}, ws.Sound →
    (∀ d : ConnectionId, ws'.connections[d]? = (ws.connections[d]?).map
      fun y : Connection α => if d = c then { y with template := t } else y) →
    ws' = { ws with connections := ws'.connections } → J X ws → J (insert c X) ws'
  fill : ∀ {X ws c}, ws.Sound → ws.Full c → J (insert c X) ws → J X ws
  newBlock : ∀ {X} typeName, Leads (fun ws => ws.Sound ∧ J X ws) (Edit.newBlock typeName)
    (fun _ => J X) (J Set.univ)
  setUnits : ∀ {X} id n,
    Leads (fun ws => ws.Sound ∧ J X ws ∧ (strict → ws.graph.Tame id) ∧ ws.Blank id)
      (Edit.setUnits id n) (fun _ => J X) (J Set.univ)
  hang : ∀ {X} ws c child, Leads (fun t => t = ws ∧ Steady J (insert c X) ws ∧
      (∃ y, ws.connections[c]? = some y ∧ y.target = none) ∧ ws.graph.Loose child)
    (Edit.hang c child) (fun _ => Steady J X) fun _ => True

theorem Stable.growing (hJ : Stable strict J) : Growing strict J where
  mono := hJ.mono
  decorate hs hb hc _ := hJ.decorate hs hb hc
  field := hJ.field
  template := hJ.template
  fill := hJ.fill
  newBlock := hJ.newBlock
  setUnits id n := (hJ.setUnits id n).pre fun _ h => ⟨h.1, h.2.1, h.2.2.1⟩
  hang {X} ws c child := by
    refine ((Edit.hang_leads ws c child).frame (c := Steady J (insert c X) ws)).weaken ?_ ?_
      fun _ _ => trivial
    · rintro _ ⟨rfl, h, hy, hl⟩
      exact ⟨⟨rfl, h.sound, hy, hl⟩, h⟩
    · rintro _ t ⟨⟨p, t₁, ht, hstep⟩, h⟩
      exact h.joined hJ ht hstep

namespace Growing

theorem anyway (hJ : Growing strict J) (h : Steady J X ws) : Steady J Set.univ ws :=
  ⟨h.sound, hJ.mono (Set.subset_univ X) h.keeps⟩

theorem filled (hJ : Growing strict J) (h : Steady J (insert c X) ws) (hc : ws.Full c) :
    Steady J X ws :=
  ⟨h.sound, hJ.fill h.sound hc h.keeps⟩

end Growing

theorem Sprout.stranded (hJ : Growing strict J) (h : Sprout J X M ws id t) :
    Stranded J ws t :=
  h.fresh.stranded (hJ.anyway h.steady)

theorem Filling.stranded (hJ : Growing strict J) (h : Filling J X ws id b cs t) :
    Stranded J ws t :=
  h.fresh.stranded (hJ.anyway h.steady)

theorem Sprout.insert {M' : Bool → Prop} (hJ : Growing strict J) (h : Sprout J X M ws id t)
    (hb : t.blocks[id]? = some b) (hc : b'.core = b.core) (hp : b'.position = b.position)
    (hm : M b.placeholder → M' b'.placeholder) :
    Sprout J X M' ws id { t with blocks := t.blocks.insert id b' } where
  steady := ⟨h.steady.sound.insert hb (Block.roles_of_core hc),
    hJ.decorate h.steady.sound hb hc hp h.steady.keeps⟩
  fresh := h.fresh.insert hb (Block.roles_of_core hc)
  blank := h.blank
  live := ⟨b', by simp⟩
  mark b'' hb'' := by
    rw [getElem?_insert, if_pos rfl, Option.some.injEq] at hb''
    exact hb'' ▸ hm (h.mark b hb)

theorem Filling.template (hJ : Growing strict J) {t' : Workspace α} {template : Option Snapshot}
    (h : Filling J X ws id b (c :: cs) t)
    (ht : ∀ d : ConnectionId, t'.connections[d]? = (t.connections[d]?).map
      fun y : Connection α => if d = c then { y with template := template } else y)
    (hr : t' = { t with connections := t'.connections }) :
    Filling J (insert c X) ws id b (c :: cs) t' where
  steady := ⟨h.steady.sound.template ht hr, hJ.template h.steady.sound ht hr h.steady.keeps⟩
  fresh := by
    have hg : t'.graph = t.graph := graph_template ht (by rw [hr])
    refine ⟨h.fresh.start, ⟨fun x hx => ?_, fun d hd hlt => ?_, ?_, ?_, ?_, ?_⟩, h.fresh.new, ?_,
      fun x hx hl => ?_⟩
    · rw [hr]
      exact h.fresh.extend.blocks x hx
    · have hne : d ≠ c := by
        rintro rfl
        have := h.new
        omega
      rw [ht, ← h.fresh.extend.connections d hd hlt]
      simp [hne]
    · rw [hr]
      exact h.fresh.extend.blockCount
    · rw [hr]
      exact h.fresh.extend.endCount
    · rw [hr]
      exact h.fresh.extend.registry
    · rw [hr]
      exact h.fresh.extend.top
    · rw [hg]
      exact h.fresh.loose
    · rw [Branch, hg]
      rw [Live, hr] at hl
      exact h.fresh.sole x hx hl
  block := by
    rw [hr]
    exact h.block
  free d hd := by
    obtain ⟨y, hy, hyb, hyt⟩ := h.free d hd
    rw [ht, hy]
    by_cases hdc : d = c
    · exact ⟨{ y with template := template }, by simp [hdc], hyb, hyt⟩
    · exact ⟨y, by simp [hdc], hyb, hyt⟩
  nodup := h.nodup

end Workspace

instance [Scalar α] : Nonempty (Block α) :=
  ⟨Workspace.rawBlock ⟨"", "", "", none, none, none, [], none⟩ none none none⟩

namespace Edit

open Workspace

variable [Scalar α] {strict : Prop} {J : Set ConnectionId → Workspace α → Prop}
  {X : Set ConnectionId} {ws : Workspace α} {id : BlockId} {M M' : Bool → Prop}

/-! ### A new block before anything is plugged in -/

/-- A new block is real. -/
theorem newBlock_marks (ws : Workspace α) (typeName : String) :
    Leads (fun t => t.Sound ∧ t = ws) (newBlock typeName) (fun id t => t.Marked (· = false) id)
      fun _ => True := by
  refine ((newBlock_keeps (P := fun t => t = ws) (J := fun _ => True)
    (K := fun _ id t => t.Marked (· = false) id) (L := fun id t => t.Marked (· = false) id) typeName
    (fun _ => trivial) ?_ (fun _ id => (fine_marked False _ id id).handles) (fun _ h => h)
    (fun id => (fine_marked False _ id id).handles) ?_ (fun h => h) fun _ => trivial)).weaken (fun _ h => h)
    (fun _ _ h => h.1.keeps) fun _ _ => trivial
  · intro t d id b t' _ _ hr _ b' hb'
    rw [hr.blocks, if_pos rfl, Option.some.injEq] at hb'
    rw [← hb', hr.unfurnished.block]
    rfl
  · exact fun id n => (coarse_marked (· = false) id).setUnits (fine_marked False _ id id) n

theorem newBlock_sprouts (hJ : Growing strict J) (ws : Workspace α) (typeName : String) :
    Leads (fun t => t = ws ∧ Steady J X t) (newBlock typeName)
      (fun id => Sprout J X (· = false) ws id) (Stranded J ws) := by
  refine (((hJ.newBlock (X := X) typeName).and (newBlock_fresh ws typeName)).and
    (newBlock_marks ws typeName)).weaken ?_ ?_ ?_
  · rintro _ ⟨rfl, h⟩
    exact ⟨⟨⟨h.sound, h.keeps⟩, h.sound, rfl⟩, h.sound, rfl⟩
  · rintro id t ⟨⟨hj, h, hl⟩, hm⟩
    exact ⟨⟨h.sound, hj⟩, h.keeps.1, h.keeps.2, hl, hm⟩
  · rintro t ⟨⟨hj, hs, rfl | ⟨id, hf⟩⟩, -⟩
    · exact ⟨⟨hs, hj⟩, Extends.refl ∅ t, fun hac => hac⟩
    · exact hf.stranded ⟨hs, hj⟩

theorem setUnits_sprouts (hJ : Growing strict J) (n : Nat) :
    Leads (Sprout J X M ws id) (setUnits id n) (fun _ => Sprout J X M ws id)
      (Stranded J ws) := by
  refine (((hJ.setUnits (X := X) id n).and (setUnits_fresh ws id n)).and
    ((coarse_marked M id).setUnits (fine_marked False M id id) n)).weaken ?_ ?_ ?_
  · intro t h
    have htame := h.fresh.loose.tame h.steady.sound.wired
    exact ⟨⟨⟨h.steady.sound, h.steady.keeps, fun _ => htame, h.blank⟩, h.steady.sound, False.elim,
      h.fresh, h.blank⟩, h.steady.sound, False.elim, h.mark⟩
  · rintro _ t ⟨⟨hj, h, hl⟩, hm, -⟩
    exact ⟨⟨h.sound, hj⟩, h.keeps.1, h.keeps.2, hl, hm.keeps⟩
  · rintro t ⟨⟨hj, h⟩, -⟩
    exact h.2.1.stranded ⟨h.1, hj⟩

/-- A shape is applied by setting counts. -/
theorem fillShape_leads {P E : Workspace α → Prop} (hE : ∀ t, P t → E t)
    (h : ∀ n, Leads P (setUnits id n) (fun _ => P) E) (shape : Json) :
    Leads P (fillShape id shape) (fun _ => P) E := by
  unfold fillShape
  refine (Leads.block fun t ht _ => hE t ht).bind fun b => ?_
  refine Leads.ite (fun _ => ?_) fun _ => Leads.pure fun _ ht => ht.1
  unfold loadShape
  refine Leads.bind (Q := fun _ => P) ?_ fun _ => Leads.pure fun _ ht => ht
  refine ((h 0).pre fun _ ht => ht.1).bind fun _ => ?_
  exact (h _).bind fun _ => Leads.pure fun _ ht => ht

theorem fillShape_sprouts (hJ : Growing strict J) (shape : Json) :
    Leads (Sprout J X M ws id) (fillShape id shape) (fun _ => Sprout J X M ws id)
      (Stranded J ws) :=
  fillShape_leads (fun _ h => h.stranded hJ) (setUnits_sprouts hJ) shape

theorem decorate_sprouts (hJ : Growing strict J) {f : Block α → Block α}
    (hf : ∀ b, (f b).core = b.core) (hp : ∀ b, (f b).position = b.position)
    (hm : ∀ b, M b.placeholder → M' (f b).placeholder) :
    Leads (Sprout J X M ws id) (updateBlock id f) (fun _ => Sprout J X M' ws id)
      (Stranded J ws) :=
  Leads.updateBlock (fun _ b h hb => h.insert hJ hb (hf b) (hp b) (hm b)) fun _ h _ => h.stranded hJ

theorem setField_sprouts (hJ : Growing strict J) (name value : String) :
    Leads (Sprout J X M ws id) (setField id name value) (fun _ => Sprout J X M ws id)
      (Stranded J ws) := by
  refine Leads.fix fun u => ?_
  have base : Keeps (fun ws => Steady J X ws) (setField id name value) := setField_keeps hJ.field
  refine ((base.and
    ((setField_leads u id name value).frame (c := Sprout J X M ws id u)))).weaken ?_ ?_ ?_
  · rintro _ ⟨rfl, h⟩
    exact ⟨h.steady, rfl, h⟩
  · rintro _ t ⟨hs, ⟨b, inputs, procedures, hb, hf, rfl⟩, h⟩
    have hr : Block.roles { b with inputs := inputs } = b.roles := by
      simp only [Block.roles, roles_setField hf]
    have hfresh := h.fresh.insert hb hr
    have hnew : (u.setInputs id b inputs).blocks[id]? = some { b with inputs := inputs } := by
      rw [getElem?_setInputs, if_pos rfl]
    refine ⟨hs, hfresh.congr rfl, h.blank, ⟨_, hnew⟩, fun b' hb' => ?_⟩
    rw [hnew, Option.some.injEq] at hb'
    exact hb' ▸ h.mark b hb
  · rintro t ⟨hs, ⟨rfl, -⟩, h⟩
    exact h.fresh.stranded (hJ.anyway hs)

/-! ### Plugging in -/

theorem hang_grafts (hJ : Growing strict J) (ws u : Workspace α) (c : ConnectionId)
    (child : BlockId) :
    Leads (fun t => t = u ∧ Steady J (insert c X) u ∧ ws.Fresh child u ∧
        ∃ y, u.connections[c]? = some y ∧ y.target = none)
      (hang c child) (fun _ t => Steady J X t ∧ ws.Grafts u c child t) (Stranded J ws) := by
  refine (((hang_leads u c child).and (hJ.hang (X := X) u c child)).frame
    (c := Steady J (insert c X) u ∧ ws.Fresh child u)).weaken ?_ ?_ ?_
  · rintro _ ⟨rfl, h, hf, hy⟩
    exact ⟨⟨⟨rfl, h.sound, hy, hf.loose⟩, rfl, h, hy, hf.loose⟩, h, hf⟩
  · rintro _ t ⟨⟨⟨p, t₁, ht, hstep⟩, hkept⟩, h, hf⟩
    exact ⟨hkept, hf.grafts h.sound ht hstep.toShifts⟩
  · rintro _ ⟨⟨⟨rfl, -⟩, -⟩, h, hf⟩
    exact hf.stranded (hJ.anyway h)

/-- What a step makes is new, hangs on nothing, and leaves alone what was there before. -/
def Grows (J : Set ConnectionId → Workspace α → Prop) (M : Bool → Prop) (make : Edit α BlockId) :
    Prop :=
  ∀ (X : Set ConnectionId) (ws : Workspace α), Leads (fun t => t = ws ∧ Steady J X t) make
    (fun id t => Steady J X t ∧ ws.Fresh id t ∧ t.Live id ∧ t.Marked M id) (Stranded J ws)

omit [Scalar α] in
theorem Grows.plain {make : Edit α BlockId} (h : Grows J M make) :
    Grows J (fun _ => True) make :=
  fun X ws => (h X ws).post fun _ _ h => ⟨h.1, h.2.1, h.2.2.1, fun _ _ => trivial⟩

omit [Scalar α] in
/-- A free socket stays free while something is made for it. -/
theorem make_waits {make : Edit α BlockId} (h : Grows J M make)
    (ws : Workspace α) (c : ConnectionId) :
    Leads (fun t => t = ws ∧ Steady J (insert c X) ws ∧
        ∃ y, ws.connections[c]? = some y ∧ y.target = none)
      make
      (fun child u => (Steady J (insert c X) u ∧ ws.Fresh child u ∧
        ∃ y, u.connections[c]? = some y ∧ y.target = none) ∧ u.Live child ∧ u.Marked M child)
      (Stranded J ws) := by
  refine ((h (insert c X) ws).frame (c := ∃ y, ws.connections[c]? = some y ∧
    y.target = none)).weaken ?_ ?_ fun _ h => h.1
  · rintro _ ⟨rfl, hs, hy⟩
    exact ⟨⟨rfl, hs⟩, hy⟩
  · rintro child u ⟨⟨hs, hf, hm⟩, y, hy, ht⟩
    exact ⟨⟨hs, hf, y, hf.extend.connection hf.start hy (Set.notMem_empty c), ht⟩, hm⟩

/-- A new block is plugged into a socket that has waited for it. -/
theorem hang_waited (hJ : Growing strict J) (ws : Workspace α) (c : ConnectionId)
    (child : BlockId) {K : Workspace α → Prop} :
    Leads (fun u => (Steady J (insert c X) u ∧ ws.Fresh child u ∧
        ∃ y, u.connections[c]? = some y ∧ y.target = none) ∧ K u)
      (hang c child)
      (fun _ t => Steady J X t ∧ ∃ u, (ws.Fresh child u ∧ u.Sound ∧ ws.Grafts u c child t) ∧ K u)
      (Stranded J ws) := by
  refine Leads.fix fun u => ?_
  refine ((hang_grafts (X := X) hJ ws u c child).frame
    (c := u.Sound ∧ ws.Fresh child u ∧ K u)).weaken ?_ ?_ fun _ h => h.1
  · rintro _ ⟨rfl, ⟨hs, hf, hy⟩, hk⟩
    exact ⟨⟨rfl, hs, hf, hy⟩, hs.sound, hf, hk⟩
  · rintro _ t ⟨⟨hs, hg⟩, hu, hf, hk⟩
    exact ⟨hs, u, ⟨hf, hu, hg⟩, hk⟩

section Filling

variable {b : Block α} {c : ConnectionId} {cs : List ConnectionId}

/-- One socket of a new block is filled. -/
theorem hang_fills (hJ : Growing strict J) {make : Edit α BlockId} (h : Grows J M make) :
    Leads (Filling J (insert c X) ws id b (c :: cs)) (do hang c (← make))
      (fun _ => Filling J X ws id b cs) (Stranded J ws) := by
  refine Leads.fix fun v => ?_
  refine Leads.bind (((make_waits (X := X) h v c).frame
    (c := Filling J (insert c X) ws id b (c :: cs) v)).weaken ?_ (fun _ _ h => h) ?_)
    fun child => ((hang_waited hJ v c child).frame).weaken (fun _ h => h) ?_ ?_
  · rintro _ ⟨rfl, hf⟩
    obtain ⟨y, hy, -, ht⟩ := hf.free c List.mem_cons_self
    exact ⟨⟨rfl, hf.steady, y, hy, ht⟩, hf⟩
  · exact fun t h => h.1.after h.2.fresh h.2.steady.sound
  · rintro _ t ⟨⟨hs, u, ⟨hchild, hu, hg⟩, -⟩, hf⟩
    have hv : v.Sound := hf.steady.sound
    have hne : id ≠ child := by
      rintro rfl
      have hlt := hv.blockIds hf.block
      have hle := hchild.new
      omega
    have hcs := List.nodup_cons.mp hf.nodup
    refine ⟨hs, ⟨hf.fresh.start, ?_, hf.fresh.new, ?_, fun x hx hl => ?_⟩,
      hg.extend.block hv hf.block, ?_, hcs.2⟩
    · exact hf.fresh.extend.trans hg.extend fun d hd => Or.inr (hd ▸ hf.new)
    · exact hg.loose hne (hchild.extend.loose hv hu hf.live hf.fresh.loose)
    · have hlive := hg.live hl
      by_cases hxv : x.index.toNat < v.ids.blocks
      · obtain ⟨b', hb'⟩ := hlive
        rw [hchild.extend.blocks x hxv] at hb'
        have hbranch := hf.fresh.sole x hx ⟨b', hb'⟩
        exact hg.branch hu (hbranch.imp_right fun hb => hb.mono fun _ _ => hchild.extend.under hv)
      · have hbranch := hg.branch hu (hchild.sole x (by omega) hlive)
        obtain ⟨y, hy, hyb, -⟩ := hf.free c List.mem_cons_self
        have hchildUnder := hg.under_owner (hchild.extend.connection hv hy (Set.notMem_empty c))
        rw [hyb] at hchildUnder
        rcases hbranch with rfl | hbelow
        · exact Or.inr (.single hchildUnder)
        · exact Or.inr (.tail hbelow hchildUnder)
    · intro d hd
      obtain ⟨y, hy, h⟩ := hf.free d (List.mem_cons_of_mem c hd)
      refine ⟨y, hg.extend.connection hv hy ?_, h⟩
      rintro rfl
      exact hcs.1 hd
  · exact fun t h => h.1.after h.2.fresh h.2.steady.sound

/-- An input gets its template, and what is made for it. -/
theorem fillInput_fills (hJ : Growing strict J) {template : Option Snapshot}
    {child : Option (Edit α BlockId)} (h : ∀ make, child = some make → Grows J (fun _ => True) make)
    (h' : child = none → template = none) :
    Leads (Filling J X ws id b (c :: cs)) (fillInput template child c)
      (fun _ => Filling J X ws id b cs) (Stranded J ws) := by
  unfold fillInput
  refine Leads.bind (Q := fun _ t => Filling J (insert c X) ws id b (c :: cs) t ∧
    (template = none → t.Full c)) (Leads.updateConnection ?_ ?_) fun _ => ?_
  · intro t t' y hf hy ht hr
    refine ⟨hf.template hJ ht hr, fun hn => ?_⟩
    refine full_of_template (y := { y with template := template }) ?_ hn
    rw [ht, hy]
    simp
  · exact fun t hf _ => hf.stranded hJ
  · refine Leads.forM_option _ (fun make hm => ?_) fun hn t hf => ?_
    · exact (hang_fills hJ (h make hm)).pre fun _ hf => hf.1
    · have hskip := hf.1.skip
      exact ⟨hJ.filled hf.1.steady (hf.2 (h' hn)), hskip.fresh, hskip.block, hskip.free,
        hskip.nodup⟩

theorem fillNext_fills (hJ : Growing strict J) {make : Edit α BlockId} (h : Grows J M make) :
    Leads (Filling J X ws id b b.next.toList) (fillNext id make)
      (fun _ => Filling J X ws id b []) (Stranded J ws) := by
  unfold fillNext
  refine (Leads.block fun _ hf _ => hf.stranded hJ).bind fun b' => ?_
  cases hn : b'.next with
  | none => exact Leads.throw fun _ hf => hf.1.stranded hJ
  | some c =>
    refine (hang_fills hJ h).pre ?_
    rintro t ⟨hf, hb⟩
    rw [hf.block, Option.some.injEq] at hb
    subst hb
    rw [hn] at hf
    exact ⟨⟨hf.steady.sound, hJ.mono (Set.subset_insert c X) hf.steady.keeps⟩, hf.fresh, hf.block,
      hf.free, hf.nodup⟩

end Filling

/-! ### Snapshots -/

/-- What fills an input makes what it is filled with, if there is anything. -/
theorem filler_fills (hJ : Growing strict J) {i : InputSnapshot Snapshot}
    (h : i.All fun s => ∀ on : Bool,
      Grows J (· = (s.placeholder || on)) (build s on : Edit α BlockId)) {b : Block α}
    {c : ConnectionId} {cs : List ConnectionId} :
    Leads (Filling J X ws id b (c :: cs)) (filler i c) (fun _ => Filling J X ws id b cs)
      (Stranded J ws) := by
  refine fillInput_fills hJ (fun make hm => ?_) fun hn => ?_
  · obtain ⟨s, on, hs, rfl⟩ := exists_part h hm
    exact (hs on).plain
  · cases hb : i.block with
    | some s => simp [hb] at hn
    | none => simpa [hb] using hn

section Populate

variable {F : List ConnectionId → Workspace α → Prop} {E : Workspace α → Prop}

omit [Scalar α] in
/-- The inputs of a new block are filled one after the other. -/
theorem fillInputs_each (hskip : ∀ {c cs t}, F (c :: cs) t → F cs t) (fillers : Fillers α)
    (h : ∀ (name : String) fill, fillers[name]? = some fill →
      ∀ c cs, Leads (F (c :: cs)) (fill c) (fun _ => F cs) E) (l : List Input)
    (cs : List ConnectionId) :
    Leads (F (l.filterMap (·.connection) ++ cs))
      (l.forM fun input =>
        match input.connection, fillers[input.name]? with
        | some c, some fill => fill c
        | _, _ => return ())
      (fun _ => F cs) E := by
  induction l with
  | nil => exact Leads.pure fun _ hf => hf
  | cons i rest ih =>
    change Leads _ (_ >>= fun _ => rest.forM _) _ _
    cases hi : i.connection with
    | none =>
      simp only [List.filterMap_cons, hi]
      exact Leads.bind (Leads.pure fun _ hf => hf) fun _ => ih
    | some c =>
      simp only [List.filterMap_cons, hi, List.cons_append]
      cases hfill : fillers[i.name]? with
      | none => exact Leads.bind (Leads.pure fun _ hf => hskip hf) fun _ => ih
      | some fill => exact (h i.name fill hfill c _).bind fun _ => ih

/-- The sockets of a new block are filled from the first to the last. -/
theorem populate_each {F : Block α → List ConnectionId → Workspace α → Prop} {P : Workspace α → Prop}
    {s : Snapshot} (hE : ∀ t, P t → E t)
    (start : ∀ t b, P t → t.blocks[id]? = some b → F b b.sockets t)
    (hskip : ∀ {b c cs t}, F b (c :: cs) t → F b cs t)
    (hinputs : ∀ i ∈ s.inputs, ∀ b c cs, Leads (F b (c :: cs)) (filler i.2 c) (fun _ => F b cs) E)
    (hnext : ∀ n, s.next = some n → ∀ b, Leads (F b b.next.toList) (fillNext id (build n false))
      (fun _ => F b []) E) :
    Leads P (populate s id) (fun x t => x = id ∧ ∃ b, F b [] t) E := by
  unfold populate
  refine Leads.bind (Q := fun _ t => ∃ b, F b b.next.toList t) ?_ fun _ => ?_
  · unfold fillInputs
    refine (Leads.block fun t h _ => hE t h).bind fun b => ?_
    refine ((fillInputs_each (F := F b) hskip _ (fun name fill hf c cs => ?_) b.inputs
      b.next.toList).pre fun t h => start t b h.1 h.2).post fun _ t h => ⟨b, h⟩
    obtain ⟨i, hi, rfl⟩ := exists_filler hf
    exact hinputs i hi b c cs
  refine Leads.bind (Q := fun _ t => ∃ b, F b [] t) ?_ fun _ => Leads.pure fun _ h => ⟨rfl, h⟩
  refine Leads.choose (X := Block α) fun b => ?_
  refine Leads.forM_option _ (fun make hm => ?_) fun _ t h => ⟨b, ?_⟩
  · obtain ⟨n, hn, rfl⟩ := Option.map_eq_some_iff.mp hm
    exact (hnext n hn b).post fun _ t h => ⟨b, h⟩
  · cases hb : b.next with
    | none => rwa [hb] at h
    | some c =>
      rw [hb] at h
      exact hskip h

end Populate

/-- What is plugged into a new block makes it what a step is to make. -/
theorem populate_grows (hJ : Growing strict J) {s : Snapshot}
    (hinputs : ∀ i ∈ s.inputs, i.2.All fun s => ∀ on : Bool,
      Grows J (· = (s.placeholder || on)) (build s on : Edit α BlockId))
    (hnext : ∀ n, s.next = some n → ∀ on : Bool,
      Grows J (· = (n.placeholder || on)) (build n on : Edit α BlockId)) :
    Leads (Sprout J X M ws id) (populate s id)
      (fun id t => Steady J X t ∧ ws.Fresh id t ∧ t.Live id ∧ t.Marked M id) (Stranded J ws) := by
  refine (populate_each (F := fun b cs t => Filling J X ws id b cs t ∧ M b.placeholder)
    (fun _ h => h.stranded hJ) (fun t b h hb => ⟨h.filling hb, h.mark b hb⟩)
    (fun h => ⟨h.1.skip, h.2⟩) (fun i hi b c cs => (filler_fills hJ (hinputs i hi)).frame.weaken
      (fun _ h => h) (fun _ _ h => h) fun _ h => h.1)
    fun n hn b => (fillNext_fills hJ (hnext n hn false)).frame.weaken (fun _ h => h)
      (fun _ _ h => h) fun _ h => h.1).post ?_
  rintro _ t ⟨rfl, b, hf, hm⟩
  refine ⟨hf.steady, hf.fresh, hf.live, fun b' hb' => ?_⟩
  rw [hf.block, Option.some.injEq] at hb'
  exact hb' ▸ hm

theorem build_grows (hJ : Growing strict J) (s : Snapshot) :
    ∀ on : Bool, Grows J (· = (s.placeholder || on)) (build s on : Edit α BlockId) := by
  induction s using Snapshot.induct with
  | step s hinputs hnext =>
    intro on X ws
    rw [build_eq]
    refine (newBlock_sprouts hJ ws s.typeName).bind fun id => ?_
    refine Leads.optionally (Q := fun _ => Sprout J X (· = (s.placeholder || on)) ws id)
      (fun hon => decorate_sprouts hJ (fun _ => rfl) (fun _ => rfl) fun _ _ => hon.symm)
      (fun hoff t h => ?_) ?_
    · refine ⟨h.steady, h.fresh, h.blank, h.live, fun b hb => ?_⟩
      exact (h.mark b hb).trans (Bool.eq_false_iff.mpr hoff).symm
    refine Leads.bind (Q := fun _ => Sprout J X (· = (s.placeholder || on)) ws id)
      (Leads.forM_option _ (fun shape _ => fillShape_sprouts hJ shape) fun _ _ h => h) fun _ => ?_
    refine Leads.bind (Q := fun _ => Sprout J X (· = (s.placeholder || on)) ws id)
      (Leads.forM_list _ fun f _ => setField_sprouts hJ f.1 f.2) fun _ => ?_
    refine Leads.bind (Q := fun _ => Sprout J X (· = (s.placeholder || on)) ws id)
      (decorate_sprouts hJ (fun _ => rfl) (fun _ => rfl) fun _ h => h) fun _ => ?_
    exact populate_grows hJ hinputs hnext

/-- An empty socket gets its placeholder back. If that cannot be built, what was there before stays
as it was. -/
theorem respawn_keeps (hJ : Growing strict J) (ws : Workspace α) (c : ConnectionId) :
    Leads (fun t => t = ws ∧ Steady J (insert c X) ws) (respawn c)
      (fun _ t => Steady J X t ∧ ws.Refills c t)
      (fun t => Steady J Set.univ t ∧ ws.Strands c t) := by
  unfold respawn
  refine (Leads.connection ?_).bind fun y => ?_
  · rintro _ ⟨rfl, h⟩ hn
    exact ⟨hJ.anyway h, h.sound, Extends.refl ∅ _, fun hac => hac,
      fun y hy => by rw [hn] at hy; cases hy⟩
  refine Leads.ite (fun ht => Leads.pure ?_) fun ht => ?_
  · rintro _ ⟨⟨rfl, h⟩, hy⟩
    exact ⟨hJ.filled h (full_of_target hy ht), .kept hy (Or.inl ht)⟩
  have hfree : y.target = none := by simpa [Connection.isConnected] using ht
  cases hm : y.template with
  | none =>
    refine Leads.pure ?_
    rintro _ ⟨⟨rfl, h⟩, hy⟩
    exact ⟨hJ.filled h (full_of_template hy hm), .kept hy (Or.inr hm)⟩
  | some template =>
    have hstrands : ∀ t, Stranded J ws t → ws.connections[c]? = some y →
        Steady J Set.univ t ∧ ws.Strands c t := by
      refine fun t h hy => ⟨h.steady, h.steady.sound, h.extend, h.acyclic, fun y' hy' => ?_⟩
      rw [hy, Option.some.injEq] at hy'
      subst hy'
      exact ⟨hfree, by rw [hm]; rfl⟩
    refine Leads.bind (((make_waits (X := X) (build_grows hJ template true) ws c).frame
      (c := ws.connections[c]? = some y)).weaken ?_ (fun _ _ h => h) fun t h => hstrands t h.1 h.2)
      fun child => ?_
    · rintro _ ⟨⟨rfl, h⟩, hy⟩
      exact ⟨⟨rfl, h, y, hy, hfree⟩, hy⟩
    refine Leads.bind (((hang_waited hJ ws c child).frame
      (c := ws.connections[c]? = some y)).refused fun t h => hstrands t h.1 h.2) fun _ =>
      Leads.pure ?_
    rintro t ⟨⟨hs, u, ⟨hf, hu, hg⟩, hlive, hmark⟩, hy⟩
    rw [Bool.or_true] at hmark
    exact ⟨hs, .filled hy hfree hm hf hu (hmark.isPlaceholder hlive) hg⟩

end Edit

end BlockEditor
