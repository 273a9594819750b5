import BlockEditor.Proofs.Exact
import BlockEditor.Proofs.Graph.Sockets
import BlockEditor.Proofs.Workspace.Candidates
import Mathlib.Data.List.Nodup

/-!
# Where plugs lie

A plug that is in a socket lies on the socket. Steps that move nothing keep this up, and so does
whatever moves a branch as a whole, apart from the link above the branch. Around a cycle there is
no such place, so nothing is said there, nor of what hangs below a cycle.
-/

namespace BlockEditor

open Workspace

variable {α : Type}

namespace Graph

variable {g g' : Graph} {a b x y : BlockId}

/-- Neither the block nor any block above it hangs below itself. -/
def Grounded (g : Graph) (x : BlockId) : Prop :=
  ∀ y, x = y ∨ g.Below x y → g.Tame y

theorem Acyclic.grounded (h : g.Acyclic) (x : BlockId) : g.Grounded x :=
  fun y _ => h y

theorem Grounded.tame (h : g.Grounded x) : g.Tame x :=
  h x (Or.inl rfl)

theorem Grounded.above (h : g.Grounded x) (hxy : x = y ∨ g.Below x y) : g.Grounded y := by
  intro z hz
  refine h z ?_
  rcases hxy with rfl | hxy
  · exact hz
  · rcases hz with rfl | hz
    · exact Or.inr hxy
    · exact Or.inr (hxy.trans hz)

/-- What is grounded was so before, as long as it has kept all that is above it. -/
theorem Grounded.of_kept {R : BlockId → Prop} (h : g'.Grounded x) (hx : ¬ R x)
    (hkept : ∀ a b, g.Under a b → ¬ R a → g'.Under a b ∧ ¬ R b) : g.Grounded x := by
  have climb : ∀ {a b}, ¬ R a → g.Below a b → g'.Below a b ∧ ¬ R b := by
    intro a b ha hb
    induction hb with
    | single hu => exact ⟨.single (hkept _ _ hu ha).1, (hkept _ _ hu ha).2⟩
    | tail _ hu ih => exact ⟨.tail ih.1 (hkept _ _ hu ih.2).1, (hkept _ _ hu ih.2).2⟩
  intro y hy hcycle
  rcases hy with rfl | hy
  · exact h x (Or.inl rfl) (climb hx hcycle).1
  · obtain ⟨hy, hR⟩ := climb hx hy
    exact h y (Or.inr hy) (climb hR hcycle).1

theorem Grounded.mono (h : g'.Grounded x) (hu : ∀ a b, g.Under a b → g'.Under a b) : g.Grounded x :=
  h.of_kept (R := fun _ => False) id fun a b hab _ => ⟨hu a b hab, id⟩

end Graph

namespace Workspace

variable [Scalar α] {ws t u : Workspace α} {id x child : BlockId} {b b' : Block α}
  {c s p : ConnectionId} {y y' : Connection α} {X Y : Set ConnectionId}

/-- Every plug that is in a socket lies on it, apart from the sockets in `X`. -/
structure Level (X : Set ConnectionId) (ws : Workspace α) : Prop where
  plugs : ∀ {c : ConnectionId} {y : Connection α}, ws.connections[c]? = some y → y.kind.isPlug →
    y.offset = Point.origin
  flush : ∀ {s p w v}, ws.graph.Link s p w v → s ∉ X → ws.graph.Grounded v.block →
    ws.endPosition s = ws.endPosition p

theorem Level.mono (h : ws.Level X) (hX : X ⊆ Y) : ws.Level Y where
  plugs := h.plugs
  flush hl hs := h.flush hl fun hx => hs (hX hx)

theorem endPosition_eq (hy : ws.connections[c]? = some y) (hb : ws.blocks[y.block]? = some b) :
    ws.endPosition c = .ok (b.position + y.offset) := by
  simp only [endPosition, connection_eq_ok.mpr hy, block_eq_ok.mpr hb, bind, Except.bind, pure,
    Except.pure]

theorem endPosition_congr (hy : ws.connections[c]? = some y) (hy' : t.connections[c]? = some y')
    (hblock : y'.block = y.block) (hoffset : y'.offset = y.offset)
    (hb : (t.blocks[y.block]?).map (·.position) = (ws.blocks[y.block]?).map (·.position)) :
    t.endPosition c = ws.endPosition c := by
  simp only [endPosition, connection_eq_ok.mpr hy, connection_eq_ok.mpr hy', bind, Except.bind,
    hblock, hoffset, Workspace.block]
  cases hw : ws.blocks[y.block]? with
  | none =>
    rw [hw, Option.map_none, Option.map_eq_none_iff] at hb
    rw [hb]
  | some b =>
    rw [hw, Option.map_some, Option.map_eq_some_iff] at hb
    obtain ⟨b', hb', hpos⟩ := hb
    simp only [hb', hpos]

/-! ### Steps that move nothing -/

/-- Every end lies where it lay and is linked to what it was linked to or to nothing, or it is new
and lies at the origin of its block. -/
def Pins (ws t : Workspace α) : Prop :=
  ∀ (c : ConnectionId) (y' : Connection α), t.connections[c]? = some y' →
    (y'.offset = Point.origin ∧ y'.target = none) ∨
    ∃ y : Connection α, ws.connections[c]? = some y ∧ y'.block = y.block ∧ y'.kind = y.kind ∧
      y'.offset = y.offset ∧ (y'.target = none ∨ y'.target = y.target) ∧
      t.endPosition c = ws.endPosition c

namespace Pins

theorem trans (h : ws.Pins t) (h' : t.Pins u) : ws.Pins u := by
  intro c z hz
  rcases h' c z hz with hnew | ⟨y', hy', hb', hk', ho', ht', he'⟩
  · exact Or.inl hnew
  · rcases h c y' hy' with ⟨hnew, hfree⟩ | ⟨y, hy, hb, hk, ho, ht, he⟩
    · refine Or.inl ⟨ho'.trans hnew, ht'.elim (fun h => h) fun h => h.trans hfree⟩
    · refine Or.inr ⟨y, hy, hb'.trans hb, hk'.trans hk, ho'.trans ho, ?_, he'.trans he⟩
      rcases ht' with ht' | ht'
      · exact Or.inl ht'
      · exact ht.imp ht'.trans ht'.trans

/-- Connections may be changed in all but their places, as long as none is linked to another one. -/
theorem of_map {f : ConnectionId → Connection α → Connection α}
    (hc : ∀ c : ConnectionId, t.connections[c]? = (ws.connections[c]?).map (f c))
    (hf : ∀ c y, (f c y).block = y.block ∧ (f c y).kind = y.kind ∧ (f c y).offset = y.offset ∧
      ((f c y).target = none ∨ (f c y).target = y.target))
    (hb : ∀ x : BlockId, (t.blocks[x]?).map (·.position) = (ws.blocks[x]?).map (·.position)) :
    ws.Pins t := by
  intro c y' hy'
  have hy := hy'
  rw [hc, Option.map_eq_some_iff] at hy
  obtain ⟨y, hy, rfl⟩ := hy
  obtain ⟨hblock, hkind, hoffset, htarget⟩ := hf c y
  exact Or.inr ⟨y, hy, hblock, hkind, hoffset, htarget,
    endPosition_congr hy hy' hblock hoffset (hb y.block)⟩

theorem of_eq (hc : t.connections = ws.connections)
    (hb : ∀ x : BlockId, (t.blocks[x]?).map (·.position) = (ws.blocks[x]?).map (·.position)) :
    ws.Pins t :=
  of_map (f := fun _ y => y) (fun c => by rw [hc, Option.map_id']) (fun _ _ =>
    ⟨rfl, rfl, rfl, Or.inr rfl⟩) hb

/-- A block may be replaced by one at the same place. -/
theorem insert (hb : ws.blocks[id]? = some b) (hpos : b'.position = b.position) :
    ws.Pins { ws with blocks := ws.blocks.insert id b' } := by
  refine of_eq rfl fun x => ?_
  rw [getElem?_insert]
  split
  · next h => rw [h, hb, Option.map_some, Option.map_some, hpos]
  · rfl

theorem cuts (h : ws.Cuts s p child t) : ws.Pins t := by
  refine of_map h.connections (fun c y => ?_) fun x => by rw [h.blocks]
  split
  · exact ⟨rfl, rfl, rfl, Or.inl rfl⟩
  · exact ⟨rfl, rfl, rfl, Or.inr rfl⟩

theorem template {template : Option Snapshot} (h : ∀ d : ConnectionId, t.connections[d]? =
      (ws.connections[d]?).map fun y : Connection α =>
        if d = c then { y with template := template } else y)
    (hb : t.blocks = ws.blocks) : ws.Pins t := by
  refine of_map h (fun d y => ?_) fun x => by rw [hb]
  split <;> exact ⟨rfl, rfl, rfl, Or.inr rfl⟩

theorem loses {keep gone : List Input} {R : List BlockId} (h : ws.Loses id keep gone R t)
    (hs : ws.Sound) : ws.Pins t := by
  intro c y' hy'
  obtain ⟨-, y, hy, rfl⟩ := h.old_connection hy'
  obtain ⟨b', hb', -⟩ := (h.sound hs).owner hy'
  obtain ⟨-, b, hb, rfl⟩ := h.old hb'
  refine Or.inr ⟨y, hy, rfl, rfl, rfl, ?_, endPosition_congr hy hy' rfl rfl ?_⟩
  · cases y.target with
    | none => exact Or.inl rfl
    | some d =>
      rw [Option.filter_some]
      split
      · exact Or.inr rfl
      · exact Or.inl rfl
  · rw [hb', hb, Option.map_some, Option.map_some]
    split <;> rfl

/-- New ends, beside those of a workspace whose blocks lie where they lay. -/
theorem of_ends {l : List NewEnd} (made : ∀ e ∈ l, t.connections[e.connection]? = some (e.mount id))
    (kept : ∀ c : ConnectionId, (∀ e ∈ l, c ≠ e.connection) → t.connections[c]? = ws.connections[c]?)
    (hs : ws.Sound)
    (hb : ∀ (x : BlockId) (b : Block α), ws.blocks[x]? = some b →
      (t.blocks[x]?).map (·.position) = some b.position) : ws.Pins t := by
  intro c y' hy'
  rcases mem_or_ne l c with ⟨e, he, rfl⟩ | hne
  · rw [made e he, Option.some.injEq] at hy'
    exact Or.inl (hy' ▸ ⟨rfl, rfl⟩)
  · have hy := hy'
    rw [kept c hne] at hy
    obtain ⟨b, hblock, -⟩ := hs.owner hy
    refine Or.inr ⟨y', hy, rfl, rfl, rfl, Or.inr rfl, endPosition_congr hy hy' rfl rfl ?_⟩
    rw [hb _ b hblock, hblock, Option.map_some]

theorem pushes {ts : List InputTemplate} {is : List Input} {l : List NewEnd}
    (h : ws.Pushes id ts is l t) (hs : ws.Sound) : ws.Pins t := by
  refine of_ends h.made (fun c => h.kept) hs fun x b hb => ?_
  rw [h.blocks, hb, Option.map_some, Option.map_some]
  split <;> rfl

theorem raises {d : BlockDefinition} (h : ws.Raises d id b t) (hs : ws.Sound) : ws.Pins t := by
  refine of_ends h.made (fun c => h.kept) hs fun x b' hb => ?_
  have hx : x ≠ id := by
    rintro rfl
    rw [h.dead hs] at hb
    cases hb
  rw [h.blocks, if_neg hx, hb, Option.map_some]

theorem link {w v : Wire} (h : ws.Pins t) (ht : t.Sound) (hl : t.graph.Link s p w v) :
    ∃ w' v', ws.graph.Link s p w' v' ∧ v'.block = v.block ∧
      t.endPosition s = ws.endPosition s ∧ t.endPosition p = ws.endPosition p := by
  have old : ∀ {c d z}, t.connections[c]? = some z → z.target = some d → ∃ y : Connection α,
      ws.connections[c]? = some y ∧ z.block = y.block ∧ z.kind = y.kind ∧ y.target = some d ∧
        t.endPosition c = ws.endPosition c := by
    intro c d z hz hd
    rcases h c z hz with ⟨-, hfree⟩ | ⟨y, hy, hb, hk, -, htarget, he⟩
    · rw [hfree] at hd
      cases hd
    · rcases htarget with hfree | hsame
      · rw [hfree] at hd
        cases hd
      · exact ⟨y, hy, hb, hk, hsame ▸ hd, he⟩
  obtain ⟨z, hz, rfl⟩ := connection_of_wire hl.socket
  obtain ⟨z', hz', rfl⟩ := connection_of_wire hl.plug
  obtain ⟨y, hy, -, hk, htarget, he⟩ := old hz hl.down
  obtain ⟨y', hy', hb', -, -, he'⟩ := old hz' (hl.up ht.wired)
  have hsocket : z.kind.isSocket := hl.isSocket
  rw [hk] at hsocket
  exact ⟨_, _, ⟨wire_of_connection hy, wire_of_connection hy', hsocket, htarget⟩, hb'.symm, he, he'⟩

end Pins

namespace Level

theorem pins (h : ws.Level X) (ha : ws.Pins t) (ht : t.Sound)
    (hg : ∀ {s p w v}, t.graph.Link s p w v → t.graph.Grounded v.block →
      ws.graph.Grounded v.block) : t.Level X where
  plugs {c y} hy hk := by
    rcases ha c y hy with ⟨ho, -⟩ | ⟨y₀, hy₀, -, hk₀, ho, -⟩
    · exact ho
    · rw [hk₀] at hk
      exact ho.trans (h.plugs hy₀ hk)
  flush {s p w v} hl hs hv := by
    obtain ⟨w', v', hl', hb, he, he'⟩ := ha.link ht hl
    have hv' : ws.graph.Grounded v'.block := by
      rw [hb]
      exact hg hl hv
    rw [he, he', h.flush hl' hs hv']

/-- What is linked is linked as before. -/
theorem of_graph (h : ws.Level X) (ha : ws.Pins t) (ht : t.Sound) (hg : t.graph = ws.graph) :
    t.Level X :=
  h.pins ha ht fun _ hv => hg ▸ hv

theorem of_under (h : ws.Level X) (ha : ws.Pins t) (ht : t.Sound)
    (hu : ∀ a b, ws.graph.Under a b → t.graph.Under a b) : t.Level X :=
  h.pins ha ht fun _ hv => hv.mono hu

/-- A link may be cut if no block hangs below itself. -/
theorem cuts (h : ws.Level X) (hs : ws.Sound) (hac : ws.graph.Acyclic)
    (hstep : ws.Cuts s p child t) : t.Level X :=
  h.pins (.cuts hstep) (hstep.sound hs) fun _ _ => hac.grounded _

/-- Whatever is removed with everything below it leaves the rest where it is. -/
theorem loses {keep gone : List Input} {R : List BlockId} (h : ws.Level X) (hs : ws.Sound)
    (hstep : ws.Loses id keep gone R t) (hseal : ws.Seals gone R) : t.Level X := by
  refine h.pins (.loses hstep hs) (hstep.sound hs) fun {s p w v} hl hv => ?_
  obtain ⟨b, hb⟩ := (hstep.sound hs).exists_lower hl.under
  refine hv.of_kept (R := (· ∈ R)) (hstep.old hb).1 fun a x hu ha => ?_
  obtain ⟨s, p, w, v, hl, rfl, rfl⟩ := hu
  obtain ⟨v', hl', hv'⟩ := hstep.link_of_kept hs hseal hl ha
  refine ⟨⟨s, p, w, v', hl', hv', rfl⟩, fun hR => ha (hseal hl ?_)⟩
  exact (dead_iff_wire hl.socket).mpr (Or.inr hR)

theorem pushes {ts : List InputTemplate} {is : List Input} {l : List NewEnd} (h : ws.Level X)
    (hs : ws.Sound) (hstep : ws.Pushes id ts is l t) : t.Level X := by
  refine h.of_under (.pushes hstep hs) (hstep.sound hs) fun a x hu => ?_
  rw [hstep.graph]
  exact Graph.under_addEnds (hstep.addable hs) hu

theorem raises {d : BlockDefinition} (h : ws.Level X) (hs : ws.Sound)
    (hd : d.output = none ∨ d.previous = none) (hstep : ws.Raises d id b t) : t.Level X := by
  refine h.of_under (.raises hstep hs) (hstep.sound hs hd) fun a x hu => ?_
  rw [hstep.graph]
  exact Graph.under_addEnds (hstep.addable hs hd) (Graph.under_addBlock.mpr hu)

/-- A new link may be off, all others are as they were. -/
theorem ties (h : ws.Level X) (hs : ws.Sound) (hstep : ws.Ties s p child t) :
    t.Level (Insert.insert s X) where
  plugs {c y} hy hk := by
    rw [hstep.connections, Option.map_eq_some_iff] at hy
    obtain ⟨y₀, hy₀, rfl⟩ := hy
    have hk₀ : y₀.kind.isPlug := by
      split at hk
      · exact hk
      · split at hk <;> exact hk
    have ho := h.plugs hy₀ hk₀
    split
    · exact ho
    · split <;> exact ho
  flush {s' p' w' v'} hl hs' hv := by
    obtain ⟨w, v, hm, hw, hv₀, -⟩ := hstep.mates
    obtain ⟨hne, hX⟩ := not_or.mp hs'
    have hnew := Graph.tie_link hm
    have hsocket : s' ≠ p := by
      rw [← hstep.graph] at hnew
      exact hl.socket_ne_plug (hstep.sound hs).wired hnew
    have hplug : p' ≠ s := by
      rw [← hstep.graph] at hnew
      exact (hnew.socket_ne_plug (hstep.sound hs).wired hl).symm
    have hplug' : p' ≠ p := by
      rintro rfl
      rw [← hstep.graph] at hnew
      have hup := hl.up (hstep.sound hs).wired
      rw [Option.some.inj (hl.plug.symm.trans hnew.plug)] at hup
      exact hne (Option.some.inj hup).symm
    have stays : ∀ c, c ≠ s → c ≠ p → t.connections[c]? = ws.connections[c]? := by
      intro c hcs hcp
      rw [hstep.connections]
      simp only [hcs, hcp, if_false, Option.map_id']
    have ends : ∀ c, c ≠ s → c ≠ p → t.endPosition c = ws.endPosition c := by
      intro c hcs hcp
      simp only [endPosition, connection, Workspace.block, stays c hcs hcp, hstep.blocks]
    rw [ends s' hne hsocket, ends p' hplug hplug']
    have hold : ws.graph.Link s' p' w' v' := by
      have hls := hl.socket
      have hlp := hl.plug
      rw [hstep.graph, Graph.tie_wire_of_ne hne hsocket] at hls
      rw [hstep.graph, Graph.tie_wire_of_ne hplug hplug'] at hlp
      exact ⟨hls, hlp, hl.isSocket, hl.down⟩
    refine h.flush hold hX (hv.mono fun a b hu => ?_)
    rw [hstep.graph]
    exact Graph.under_of_tie hm hw hs.wired hv₀ hu

end Level

/-! ### Moving a branch -/

omit [Scalar α] in
/-- What two blocks on the same block both carry, they are. -/
theorem Sound.eq_of_siblings {k k' : BlockId} (hs : ws.Sound) (hk : ws.graph.Under k id)
    (hk' : ws.graph.Under k' id) (ht : ws.graph.Tame id) (hx : ws.Branch k x)
    (hx' : ws.Branch k' x) : k = k' := by
  have apart : ∀ {a b : BlockId}, ws.graph.Under a id → ws.graph.Under b id → ¬ ws.graph.Below a b := by
    intro a b ha hb hab
    obtain ⟨y, hy, hyb⟩ := Relation.TransGen.head'_iff.mp hab
    obtain rfl := Graph.under_unique hs.wired hy ha
    exact ht (Relation.TransGen.tail' hyb hb)
  rcases hx with rfl | hx
  · rcases hx' with rfl | hx'
    · rfl
    · exact (apart hk hk' hx').elim
  · rcases hx' with rfl | hx'
    · exact (apart hk' hk hx).elim
    · rcases Graph.below_or_below hs.wired hx hx' with h | h | h
      · exact h
      · exact (apart hk hk' h).elim
      · exact (apart hk' hk h).elim

omit [Scalar α] in
/-- A walk over a tree comes to no block twice. -/
theorem Sound.nodup_descendantsFrom (hs : ws.Sound) {n : Nat} {seen l : List BlockId}
    (ht : ws.graph.Tame id) (hseen : seen.Nodup) (hnew : ∀ a ∈ seen, ¬ ws.Branch id a)
    (hl : ws.descendantsFrom n seen id = .ok l) : l.Nodup := by
  induction n generalizing id seen l with
  | zero =>
    cases hl
    exact hseen
  | succ n ih =>
    obtain ⟨kids, hkids, hl⟩ := bind_eq_ok hl
    obtain ⟨b, hb, -⟩ := bind_eq_ok hkids
    rw [block_eq_ok] at hb
    rw [hs.children hb, Except.ok.injEq] at hkids
    -- The list holds what is above and beside the rest of the children, so it is met by none of them.
    have hfold : ∀ (rest seen l : List BlockId), rest.Nodup → (∀ k ∈ rest, ws.graph.Under k id) →
        seen.Nodup → (∀ k ∈ rest, ∀ a ∈ seen, ¬ ws.Branch k a) →
        rest.foldlM (ws.descendantsFrom n) seen = .ok l → l.Nodup := by
      intro rest
      induction rest with
      | nil =>
        intro seen l _ _ hseen _ hl
        cases hl
        exact hseen
      | cons k rest ihk =>
        intro seen l hrest hunder hseen hnew hl
        rw [List.foldlM_cons] at hl
        obtain ⟨m, hm, hl⟩ := bind_eq_ok hl
        obtain ⟨hk, hrest⟩ := List.nodup_cons.mp hrest
        have hku := hunder k List.mem_cons_self
        have hunder' := fun j hj => hunder j (List.mem_cons_of_mem k hj)
        refine ihk m l hrest hunder' (ih (ht.of_under hs.wired hku) hseen
          (hnew k List.mem_cons_self) hm) (fun j hj a ha hja => ?_) hl
        obtain ⟨bk, hbk⟩ := hs.exists_lower hku
        obtain ⟨m', hm', hmem⟩ := hs.descendantsFrom n seen hbk
        rw [hm, Except.ok.injEq] at hm'
        subst hm'
        rcases hmem a ha with hseen | hka
        · exact hnew j (List.mem_cons_of_mem k hj) a hseen hja
        · exact hk (hs.eq_of_siblings hku (hunder' j hj) ht hka hja ▸ hj)
    have hunder : ∀ k ∈ kids, ws.graph.Under k id := fun k hk => (hs.mem_children hb).mp (hkids ▸ hk)
    refine hfold kids (id :: seen) l (hkids ▸ hs.nodup_children hb) hunder ?_ ?_ hl
    · exact List.nodup_cons.mpr ⟨fun h => hnew id h (branch_self ws id), hseen⟩
    · intro k hk a ha hka
      have hbelow : ws.graph.Below a id := by
        rcases hka with rfl | hka
        · exact .single (hunder a hk)
        · exact .tail hka (hunder k hk)
      rcases List.mem_cons.mp ha with rfl | ha
      · exact ht hbelow
      · exact hnew a ha (Or.inr hbelow)

omit [Scalar α] in
theorem Sound.nodup_descendants (hs : ws.Sound) (ht : ws.graph.Tame id) {l : List BlockId}
    (hl : ws.descendants id = .ok l) : l.Nodup := by
  obtain ⟨found, hfound, hl⟩ := bind_eq_ok hl
  cases hl
  exact List.nodup_reverse.mpr (hs.nodup_descendantsFrom ht List.nodup_nil (fun _ h => by cases h) hfound)

/-- A block was moved by `delta` with everything below it. -/
structure Slides (id : BlockId) (delta : Point α) (ws t : Workspace α) : Prop where
  shifts : ws.Shifts (ws.Branch id) t
  connections : t.connections = ws.connections
  moved : ws.graph.Tame id → ∀ {x : BlockId} {b : Block α}, ws.Branch id x → ws.blocks[x]? = some b →
    t.blocks[x]? = some { b with position := b.position + delta }

namespace Slides

variable {delta q : Point α}

/-- What is not below the block stays where it is. -/
theorem endPosition_still (h : Slides id delta ws t) (hy : ws.connections[c]? = some y)
    (hout : ¬ ws.Branch id y.block) : t.endPosition c = ws.endPosition c :=
  endPosition_congr hy (h.connections ▸ hy) rfl rfl (by rw [h.shifts.still _ hout])

variable [Scalar.Exact α]

theorem endPosition_moved (h : Slides id delta ws t) (ht : ws.graph.Tame id) (hs : ws.Sound)
    (hy : ws.connections[c]? = some y) (hin : ws.Branch id y.block)
    (hq : ws.endPosition c = .ok q) : t.endPosition c = .ok (q + delta) := by
  obtain ⟨b, hb, -⟩ := hs.owner hy
  rw [endPosition_eq hy hb, Except.ok.injEq] at hq
  rw [endPosition_eq (h.connections ▸ hy) (h.moved ht hin hb), ← hq, Point.add_right_comm]

/-- To move a branch disturbs at most the link above it. -/
theorem level (h : Slides id delta ws t) (hs : ws.Sound) (hl : ws.Level X)
    (hX : ∀ {s p w v}, ws.graph.Link s p w v → v.block = id → s ∈ X) : t.Level X where
  plugs hy := hl.plugs (h.connections ▸ hy)
  flush {s p w v} hlink hsX hv := by
    rw [h.shifts.graph] at hlink hv
    obtain ⟨y, hy, rfl⟩ := connection_of_wire hlink.socket
    obtain ⟨z, hz, rfl⟩ := connection_of_wire hlink.plug
    have hflush := hl.flush hlink hsX hv
    have hunder : ws.graph.Under z.block y.block := hlink.under
    by_cases hin : ws.Branch id z.block
    · have htame : ws.graph.Tame id := (hv.above hin).tame
      have hin' : ws.Branch id y.block := by
        rcases hin with hself | hbelow
        · exact (hsX (hX hlink hself)).elim
        · obtain ⟨a, ha, hrest⟩ := Relation.TransGen.head'_iff.mp hbelow
          obtain rfl := Graph.under_unique hs.wired hunder ha
          exact (Relation.reflTransGen_iff_eq_or_transGen.mp hrest).imp_left Eq.symm
      obtain ⟨b, hb, -⟩ := hs.owner hy
      have hq := endPosition_eq hy hb
      rw [h.endPosition_moved htame hs hy hin' hq, h.endPosition_moved htame hs hz hin (hflush ▸ hq)]
    · have hout : ¬ ws.Branch id y.block := fun hy => hin (branch_of_under hunder hy)
      rw [h.endPosition_still hy hout, h.endPosition_still hz hin, hflush]

/-- A plug that was moved onto its socket lies there. -/
theorem flush {w v : Wire} (hlink : ws.graph.Link s p w v)
    (hy : ws.connections[p]? = some y) (hb : ws.blocks[y.block]? = some b)
    (hq : ws.endPosition s = .ok q) (h : Slides y.block (q - y.offset - b.position) ws t)
    (ht : ws.graph.Tame y.block) : t.endPosition s = t.endPosition p := by
  obtain ⟨z, hz, rfl⟩ := connection_of_wire hlink.socket
  have hv := hlink.plug
  rw [wire_of_connection hy, Option.some.injEq] at hv
  subst hv
  have hunder : ws.graph.Under y.block z.block := hlink.under
  have hout : ¬ ws.Branch y.block z.block := by
    rintro (hself | hbelow)
    · exact ht (.single (hself ▸ hunder))
    · exact ht (.head hunder hbelow)
  rw [h.endPosition_still hz hout, hq, endPosition_eq (h.connections ▸ hy)
    (h.moved ht (branch_self ws _) hb), Point.add_sub_cancel, Point.sub_add_cancel]

end Slides

/-! ### Laying a block out -/

omit [Scalar α] in
/-- An end keeps its place or gets one of those that are given for it. -/
theorem place_connection {places : List (ConnectionId × Point α)}
    (hy : (ws.place places).connections[c]? = some y) :
    ∃ y₀, ws.connections[c]? = some y₀ ∧ y.kind = y₀.kind ∧ y.block = y₀.block ∧
      (y.offset = y₀.offset ∨ (c, y.offset) ∈ places) := by
  induction places generalizing ws with
  | nil => exact ⟨y, hy, rfl, rfl, Or.inl rfl⟩
  | cons place rest ih =>
    obtain ⟨d, offset⟩ := place
    have hrest : (({ ws with connections := ws.connections.modify d fun c => { c with
        offset := offset } } : Workspace α).place rest).connections[c]? = some y := hy
    obtain ⟨y₁, hy₁, hk, hb, ho⟩ := ih hrest
    rw [Std.ExtTreeMap.getElem?_modify] at hy₁
    split at hy₁
    · next h =>
      obtain rfl := Std.LawfulEqCmp.eq_of_compare h
      obtain ⟨y₀, hy₀, rfl⟩ := Option.map_eq_some_iff.mp hy₁
      refine ⟨y₀, hy₀, hk, hb, Or.inr ?_⟩
      exact ho.elim (fun ho => ho ▸ List.mem_cons_self) (List.mem_cons_of_mem _)
    · exact ⟨y₁, hy₁, hk, hb, ho.imp_right (List.mem_cons_of_mem _)⟩

omit [Scalar α] in
theorem mem_occupiedSockets (hc : c ∈ b.sockets) (hy : ws.connections[c]? = some y)
    (ht : y.target.isSome) : c ∈ ws.occupiedSockets b := by
  refine List.mem_filter.mpr ⟨hc, ?_⟩
  simp only [hy]
  exact ht

/-- Plugs lie at the origin of their blocks. -/
theorem Sound.offset_of_plug {q : Point α} (hs : ws.Sound) (hb : ws.blocks[id]? = some b)
    (hy : ws.connections[c]? = some y) (hk : y.kind.isPlug) (hq : (c, q) ∈ Layout.offsets b) :
    q = Point.origin := by
  have hsocket : c ∉ b.sockets := by
    intro hc
    obtain ⟨x, hx, -, hkx⟩ := hs.socket hb hc
    rw [hy, Option.some.injEq] at hx
    subst hx
    rw [ConnectionKind.isPlug_eq_not, hkx] at hk
    cases hk
  simp only [Layout.offsets, Layout.inputOffsets, List.mem_append, List.mem_map, Prod.mk.injEq,
    List.mem_filterMap, Option.map_eq_some_iff, Option.mem_toList] at hq
  rcases hq with (⟨_, -, -, hq⟩ | ⟨⟨i, n⟩, hi, d, hd, hdc, -⟩) | ⟨d, hd, hdc, -⟩
  · exact hq.symm
  · refine (hsocket (mem_sockets.mpr (Or.inl ⟨i, ?_, hdc ▸ hd⟩))).elim
    exact (List.mem_zipIdx hi).2.2 ▸ List.getElem_mem _
  · exact (hsocket (mem_sockets.mpr (Or.inr (hdc ▸ hd)))).elim

/-- The ends of a block may be put anywhere, but then what hangs on them is off. -/
theorem Level.place (h : ws.Level X) (hs : ws.Sound) (hb : ws.blocks[id]? = some b) :
    (ws.place (Layout.offsets b)).Level (X ∪ {c | c ∈ ws.occupiedSockets b}) where
  plugs {c y} hy hk := by
    obtain ⟨y₀, hy₀, hk₀, -, ho⟩ := place_connection hy
    rw [hk₀] at hk
    exact ho.elim (fun ho => ho.trans (h.plugs hy₀ hk)) (hs.offset_of_plug hb hy₀ hk)
  flush {s p w v} hl hX hv := by
    have hshift : ws.Shifts (fun _ => True) (ws.place (Layout.offsets b)) :=
      Edit.shifts_place fun _ _ _ _ => trivial
    rw [hshift.graph] at hl hv
    obtain ⟨hX, hfree⟩ := not_or.mp hX
    obtain ⟨y, hy, rfl⟩ := connection_of_wire hl.socket
    obtain ⟨z, hz, rfl⟩ := connection_of_wire hl.plug
    have stays : ∀ {c : ConnectionId} {y : Connection α}, ws.connections[c]? = some y →
        (y.kind.isPlug ∨ c ∉ b.sockets ∧ y.kind.isSocket) →
        (ws.place (Layout.offsets b)).endPosition c = ws.endPosition c := by
      intro c y hy hc
      obtain ⟨y', hy', he⟩ := hshift.connection hy
      obtain ⟨y₀, hy₀, hk, hblock, ho⟩ := place_connection hy'
      rw [hy, Option.some.injEq] at hy₀
      subst hy₀
      refine endPosition_congr hy hy' hblock ?_ rfl
      rcases ho with ho | ho
      · exact ho
      · rcases hc with hplug | ⟨hc, hsocket⟩
        · exact (hs.offset_of_plug hb hy hplug ho).trans (h.plugs hy hplug).symm
        · rcases Edit.mem_offsets (List.mem_map_of_mem (f := Prod.fst) ho) with hp | hp
          · obtain ⟨x, hx, -, hkx⟩ := hs.plug hb hp
            rw [hy, Option.some.injEq] at hx
            subst hx
            rw [ConnectionKind.isPlug_eq_not, hsocket] at hkx
            cases hkx
          · exact (hc hp).elim
    have hsocket : s ∉ b.sockets := fun hc =>
      hfree (mem_occupiedSockets hc hy (by rw [show y.target = some p from hl.down]; rfl))
    rw [stays hy (Or.inr ⟨hsocket, hl.isSocket⟩), stays hz (Or.inl (hl.isPlug hs.wired)),
      h.flush hl hX hv]

end Workspace

end BlockEditor
