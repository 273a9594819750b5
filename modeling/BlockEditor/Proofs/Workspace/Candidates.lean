import BlockEditor.Drag.Candidate
import BlockEditor.Proofs.Workspace.Homes
import BlockEditor.Proofs.Workspace.Saving
import BlockEditor.Proofs.Workspace.Trees

/-!
# What a drag is offered

The search for a candidate looks at positions, at kinds and checks, and at what is free. That is
enough: whatever it offers to a root can be linked, closes no cycle, and lets no plug go.
-/

namespace BlockEditor

variable {α : Type}

/-- Connections that may be linked to the same ends. -/
structure Connection.Twins (y y' : Connection α) : Prop where
  block : y'.block = y.block
  kind : y'.kind = y.kind
  check : y'.check = y.check

theorem Connection.twins_of_unplaced {y y' : Connection α} (h : y'.unplaced = y.unplaced) :
    y.Twins y' where
  block := congrArg (fun u : Connection Unit => u.block) h
  kind := congrArg (fun u : Connection Unit => u.kind) h
  check := congrArg (fun u : Connection Unit => u.check) h

namespace Workspace

variable {ws : Workspace α} {id a : BlockId} {b : Block α} {n : Nat}

/-! ### Everything below a block -/

/-- A block below another one is below a child of that. -/
theorem branch_cases (h : ws.Branch id a) : a = id ∨ ∃ k, ws.graph.Under k id ∧ ws.Branch k a := by
  rcases h with h | h
  · exact Or.inl h
  · obtain ⟨k, hak, hk⟩ := Relation.TransGen.tail'_iff.mp h
    refine Or.inr ⟨k, hk, ?_⟩
    rcases Relation.reflTransGen_iff_eq_or_transGen.mp hak with rfl | hak
    · exact Or.inl rfl
    · exact Or.inr hak

/-- A walk that may go to the bottom misses nothing. -/
theorem Sound.branch_mem_descendantsFrom (hs : ws.Sound) {seen l : List BlockId}
    (hl : ws.descendantsFrom n seen id = .ok l) (hn : ws.graph.Shallow n id) :
    seen ⊆ l ∧ ∀ a, ws.Branch id a → a ∈ l := by
  induction n generalizing id seen l with
  | zero => exact hn.elim
  | succ n ih =>
    rw [Workspace.descendantsFrom] at hl
    obtain ⟨kids, hkids, hl⟩ := bind_eq_ok hl
    obtain ⟨b, hb, -⟩ := bind_eq_ok hkids
    rw [block_eq_ok] at hb
    have hmem : ∀ k, k ∈ kids ↔ ws.graph.Under k id := by
      intro k
      rw [hs.children hb, Except.ok.injEq] at hkids
      rw [← hkids]
      exact hs.mem_children hb
    have hfold : ∀ (rest seen l : List BlockId), (∀ k ∈ rest, ws.graph.Under k id) →
        rest.foldlM (ws.descendantsFrom n) seen = .ok l →
        seen ⊆ l ∧ ∀ k ∈ rest, ∀ a, ws.Branch k a → a ∈ l := by
      intro rest
      induction rest with
      | nil =>
        intro seen l _ hl
        cases hl
        exact ⟨List.Subset.refl _, fun k hk => by cases hk⟩
      | cons k rest ihk =>
        intro seen l hunder hl
        rw [List.foldlM_cons] at hl
        obtain ⟨m, hm, hl⟩ := bind_eq_ok hl
        obtain ⟨hseen, hbelow⟩ := ih hm (hn k (hunder k List.mem_cons_self))
        obtain ⟨hrest, hkids⟩ := ihk m l (fun j hj => hunder j (List.mem_cons_of_mem k hj)) hl
        refine ⟨List.Subset.trans hseen hrest, fun j hj a ha => ?_⟩
        rcases List.mem_cons.mp hj with rfl | hj
        · exact hrest (hbelow a ha)
        · exact hkids j hj a ha
    obtain ⟨hseen, hbelow⟩ := hfold kids (id :: seen) l (fun k hk => (hmem k).mp hk) hl
    refine ⟨fun a ha => hseen (List.mem_cons_of_mem id ha), fun a ha => ?_⟩
    rcases branch_cases ha with rfl | ⟨k, hk, ha⟩
    · exact hseen List.mem_cons_self
    · exact hbelow k ((hmem k).mpr hk) a ha

/-- The descendants of a block are its branch. -/
theorem Sound.mem_descendants (hs : ws.Sound) (ht : ws.graph.Tame id) {l : List BlockId}
    (hl : ws.descendants id = .ok l) (ha : ws.Branch id a) : a ∈ l := by
  obtain ⟨found, hfound, hl⟩ := bind_eq_ok hl
  cases hl
  exact List.mem_reverse.mpr ((hs.branch_mem_descendantsFrom hfound (hs.shallow ht)).2 a ha)

/-! ### What is offered -/

/-- An end of a dragged branch, and an end that it may be linked to. -/
structure Suits (ws : Workspace α) (x : BlockId) (own neighbour : Connection α) : Prop where
  kind : neighbour.kind = own.kind.opposite
  fits : own.fits neighbour
  free : own.target = none
  carried : ws.Branch x own.block
  lead : own.kind.isPlug → own.block = x
  outside : ¬ ws.Branch x neighbour.block
  spare : neighbour.kind.isPlug → neighbour.target = none

def Offers (ws : Workspace α) (x : BlockId) (own neighbour : ConnectionId) : Prop :=
  ∃ y z, ws.connections[own]? = some y ∧ ws.connections[neighbour]? = some z ∧ ws.Suits x y z

theorem Sound.dragEnds (hs : ws.Sound) (hb : ws.blocks[id]? = some b) {l : List ConnectionId}
    (hl : ws.dragEnds id = .ok l) {c : ConnectionId} {y : Connection α} (hc : c ∈ l)
    (hy : ws.connections[c]? = some y) :
    ws.Branch id y.block ∧ (y.kind.isPlug → y.block = id) := by
  have own : c ∈ b.connections → ws.Branch id y.block ∧ (y.kind.isPlug → y.block = id) := by
    intro hc
    obtain ⟨y', hy', hyb⟩ := hs.connection_of_mem hb hc
    rw [hy, Option.some.injEq] at hy'
    subst hy'
    exact ⟨Or.inl hyb, fun _ => hyb⟩
  obtain ⟨b', hb', hl⟩ := bind_eq_ok hl
  rw [block_eq_ok, hb, Option.some.injEq] at hb'
  subst hb'
  obtain ⟨found, hfound, hvacant⟩ := hs.furnished.stackEndWithin_vacant (n := ws.walkBound) ⟨b, hb⟩
  obtain ⟨last, hlast, hl⟩ := bind_eq_ok hl
  rw [Workspace.stackEnd, hfound, Except.ok.injEq] at hlast
  subst hlast
  cases found with
  | none =>
    cases hl
    exact own hc
  | some last =>
    have hmem : c ∈ b.connections ∨ c = last := by
      dsimp only at hl
      split at hl
      · cases hl
        exact Or.inl hc
      · cases hl
        rcases List.mem_append.mp hc with hc | hc
        · exact Or.inl hc
        · exact Or.inr (List.mem_singleton.mp hc)
    rcases hmem with hc | rfl
    · exact own hc
    · obtain ⟨y', hy', hk, hbranch⟩ := (hvacant c rfl).socket
      rw [hy, Option.some.injEq] at hy'
      subst hy'
      refine ⟨hbranch, fun hp => ?_⟩
      rw [ConnectionKind.isPlug_eq_not, hk] at hp
      cases hp

section Search

variable [Scalar α] {own neighbour : ConnectionId} {y : Connection α} {origin delta : Point α}
  {radius distance : α} {accept : Connection α → ConnectionId → Connection α → Bool}

/-- A nearer connection is taken only if it is the other kind of end, and accepted. -/
theorem nearer_eq_some {found : Option (ConnectionId × α)} {c : ConnectionId} {z : Connection α}
    (h : ws.nearer y origin radius accept found c z = some (neighbour, distance)) :
    found = some (neighbour, distance) ∨
      c = neighbour ∧ z.kind = y.kind.opposite ∧ accept y c z := by
  unfold nearer at h
  split at h
  · exact Or.inl h
  · next hkind =>
    split at h
    · exact Or.inl h
    · dsimp only at h
      split at h
      · next haccept =>
        cases h
        rw [Bool.and_eq_true] at haccept
        rw [Bool.or_eq_true, not_or, decide_eq_true_eq, not_not] at hkind
        exact Or.inr ⟨rfl, hkind.1, haccept.2⟩
      · exact Or.inl h

theorem nearest_accepts (hy : ws.connections[own]? = some y)
    (h : ws.nearest own radius delta accept = .ok (some (neighbour, distance))) :
    ∃ z, ws.connections[neighbour]? = some z ∧ z.kind = y.kind.opposite ∧
      accept y neighbour z := by
  obtain ⟨y', hy', h⟩ := bind_eq_ok h
  rw [connection_eq_ok, hy, Option.some.injEq] at hy'
  subst hy'
  obtain ⟨origin, -, h⟩ := bind_eq_ok h
  injection h with h
  rw [Std.ExtTreeMap.foldl_eq_foldl_toList] at h
  have hmem : ∀ p ∈ ws.connections.toList, ws.connections[p.1]? = some p.2 := fun p hp =>
    Std.ExtTreeMap.mem_toList_iff_getElem?_eq_some.mp hp
  have hfold : ∀ (l : List (ConnectionId × Connection α)) (found : Option (ConnectionId × α)),
      l.foldl (fun acc p => ws.nearer y (origin + delta) radius accept acc p.1 p.2) found =
        some (neighbour, distance) → found = some (neighbour, distance) ∨
      ∃ p ∈ l, p.1 = neighbour ∧ p.2.kind = y.kind.opposite ∧ accept y p.1 p.2 := by
    intro l
    induction l with
    | nil => exact fun found h => Or.inl h
    | cons p rest ih =>
      intro found h
      rcases ih _ h with h | ⟨q, hq, h⟩
      · exact (nearer_eq_some h).imp_right fun h => ⟨p, List.mem_cons_self, h⟩
      · exact Or.inr ⟨q, List.mem_cons_of_mem p hq, h⟩
  rcases hfold _ none h with h | ⟨⟨c, z⟩, hp, rfl, hk, haccept⟩
  · cases h
  · exact ⟨z, hmem _ hp, hk, haccept⟩

omit [Scalar α] in
/-- What is offered to an end of a dragged branch suits it. -/
theorem suits_of_offers {ends : List ConnectionId} {dragged : List BlockId} {hasNext : Bool}
    {z : Connection α} (hs : ws.Sound) (ht : ws.graph.Tame id) (hb : ws.blocks[id]? = some b)
    (hends : ws.dragEnds id = .ok ends) (hdragged : ws.descendants id = .ok dragged)
    (hown : own ∈ ends) (hy : ws.connections[own]? = some y) (hk : z.kind = y.kind.opposite)
    (h : ws.offers dragged hasNext y neighbour z) : ws.Suits id y z := by
  obtain ⟨hbranch, hlead⟩ := hs.dragEnds hb hends hown hy
  unfold offers isOpenTo at h
  simp only [Bool.and_eq_true, Bool.not_eq_true', Connection.isConnected] at h
  obtain ⟨⟨⟨hout, hfits⟩, -⟩, hfree, hopen⟩ := h
  refine ⟨hk, hfits, by simpa using hfree, hbranch, hlead, fun hin => ?_,
    fun hplug => ?_⟩
  · have hmem := hs.mem_descendants ht hdragged hin
    rw [← List.contains_iff_mem, hout] at hmem
    cases hmem
  · cases hkind : z.kind with
    | outputValue =>
      rw [hkind] at hopen
      simpa using hopen
    | previousStatement =>
      rw [hkind] at hopen
      simpa using hopen
    | inputValue =>
      rw [hkind] at hplug
      cases hplug
    | nextStatement =>
      rw [hkind] at hplug
      cases hplug

theorem nearerCandidate_eq_some {found : Option (Candidate α)} {c : Candidate α}
    (h : ws.nearerCandidate radius delta accept found own = .ok (some c)) : found = some c ∨
      c.own = own ∧ ∃ y z, ws.connections[own]? = some y ∧
        ws.connections[c.neighbour]? = some z ∧ z.kind = y.kind.opposite ∧
        accept y c.neighbour z := by
  obtain ⟨near, hnear, h⟩ := bind_eq_ok h
  cases near with
  | none =>
    injection h with h
    exact Or.inl h
  | some p =>
    cases h
    obtain ⟨y, hy, -⟩ := bind_eq_ok hnear
    rw [connection_eq_ok] at hy
    obtain ⟨z, hz, hk, haccept⟩ := nearest_accepts hy hnear
    exact Or.inr ⟨rfl, y, z, hy, hz, hk, haccept⟩

/-- A candidate is found among what is offered to an end of the dragged branch. -/
theorem bestCandidate_eq_some {holding : Bool} {c : Candidate α}
    (h : ws.bestCandidate id holding delta = .ok (some c)) : ∃ b dragged ends y z,
      ws.blocks[id]? = some b ∧ ws.descendants id = .ok dragged ∧ ws.dragEnds id = .ok ends ∧
      c.own ∈ ends ∧ ws.connections[c.own]? = some y ∧ ws.connections[c.neighbour]? = some z ∧
      z.kind = y.kind.opposite ∧ ws.offers dragged b.next.isSome y c.neighbour z := by
  obtain ⟨dragged, hdragged, h⟩ := bind_eq_ok h
  obtain ⟨b, hb, h⟩ := bind_eq_ok h
  rw [block_eq_ok] at hb
  obtain ⟨ends, hends, h⟩ := bind_eq_ok h
  have hfold : ∀ (l : List ConnectionId) (found : Option (Candidate α)) radius, l ⊆ ends →
      l.foldlM (ws.nearerCandidate radius delta (ws.offers dragged b.next.isSome)) found =
        .ok (some c) → found = some c ∨ c.own ∈ ends ∧ ∃ y z, ws.connections[c.own]? = some y ∧
          ws.connections[c.neighbour]? = some z ∧ z.kind = y.kind.opposite ∧
          ws.offers dragged b.next.isSome y c.neighbour z := by
    intro l
    induction l with
    | nil =>
      intro found radius _ h
      injection h with h
      exact Or.inl h
    | cons own rest ih =>
      intro found radius hl h
      rw [List.foldlM_cons] at h
      obtain ⟨next, hnext, h⟩ := bind_eq_ok h
      rcases ih next radius (fun q hq => hl (List.mem_cons_of_mem own hq)) h with rfl | h
      · refine (nearerCandidate_eq_some hnext).imp_right ?_
        rintro ⟨rfl, hmeets⟩
        exact ⟨hl List.mem_cons_self, hmeets⟩
      · exact Or.inr h
  rcases hfold ends none _ (List.Subset.refl _) h with h | ⟨hown, y, z, hmeets⟩
  · cases h
  · exact ⟨b, dragged, ends, y, z, hb, hdragged, hends, hown, hmeets⟩

/-- The best candidate is among what is offered. -/
theorem Sound.bestCandidate_offers (hs : ws.Sound) (ht : ws.graph.Tame id) {holding : Bool}
    {c : Candidate α} (h : ws.bestCandidate id holding delta = .ok (some c)) :
    ws.Offers id c.own c.neighbour := by
  obtain ⟨b, dragged, ends, y, z, hb, hdragged, hends, hown, hy, hz, hk, h⟩ :=
    bestCandidate_eq_some h
  exact ⟨y, z, hy, hz, suits_of_offers hs ht hb hends hdragged hown hy hk h⟩

end Search

/-! ### What comes of it -/

section Linking

variable {x : BlockId} {y z : Connection α} {own neighbour : ConnectionId}

theorem Suits.canConnect (h : ws.Suits x y z) (hy : ws.connections[own]? = some y)
    (hz : ws.connections[neighbour]? = some z) : ws.canConnect own neighbour = .ok true := by
  have hne : y.block ≠ z.block := fun heq => h.outside (heq ▸ h.carried)
  simp [Workspace.canConnect, connection_eq_ok.mpr hy, connection_eq_ok.mpr hz, bind, Except.bind,
    pure, Except.pure, hne, h.kind, h.fits]

/-- No cycle comes of it: what the root carries is only below what the root carries. -/
theorem Suits.not_closes (h : ws.Suits x y z) (hs : ws.Sound) (hl : ws.graph.Loose x)
    (hy : ws.connections[own]? = some y) (hz : ws.connections[neighbour]? = some z) :
    ¬ ws.Closes own neighbour ∧ ¬ ws.Closes neighbour own := by
  constructor
  · rintro ⟨y', z', hy', hz', -, hbranch⟩
    rw [hy, Option.some.injEq] at hy'
    rw [hz, Option.some.injEq] at hz'
    subst hy' hz'
    exact h.outside (hs.branch_of_loose hl h.carried hbranch)
  · rintro ⟨z', y', hz', hy', hk, hbranch⟩
    rw [hy, Option.some.injEq] at hy'
    rw [hz, Option.some.injEq] at hz'
    subst hy' hz'
    rw [h.kind, ConnectionKind.isSocket_opposite] at hk
    rw [h.lead hk] at hbranch
    exact h.outside hbranch

/-- The plug among the ends hangs on nothing. -/
theorem Suits.idle (h : ws.Suits x y z) (hy : ws.connections[own]? = some y)
    (hz : ws.connections[neighbour]? = some z) {p : ConnectionId} {v : Connection α}
    (hp : p = own ∨ p = neighbour) (hv : ws.connections[p]? = some v) (hk : v.kind.isPlug) :
    v.target = none := by
  rcases hp with rfl | rfl
  · rw [hy, Option.some.injEq] at hv
    exact hv ▸ h.free
  · rw [hz, Option.some.injEq] at hv
    subst hv
    exact h.spare hk

end Linking

/-! ### Homes of an orphan -/

section Likeness

variable {ws' : Workspace α} {x : BlockId} {q c : ConnectionId} {y y' : Connection α} {m : Nat}

theorem admits_congr {z z' : Connection α} (hy : ws.connections[q]? = some y)
    (hy' : ws'.connections[q]? = some y') (h : y.Twins y')
    (hz : ws.connections[c]? = some z) (hz' : ws'.connections[c]? = some z')
    (h' : z.Twins z') : ws'.admits q c = ws.admits q c := by
  simp [admits, Workspace.canConnect, connection_eq_ok.mpr hy, connection_eq_ok.mpr hy',
    connection_eq_ok.mpr hz, connection_eq_ok.mpr hz', bind, Except.bind, pure, Except.pure,
    Connection.fits, h.block, h.kind, h.check, h'.block, h'.kind, h'.check]

theorem Agrees.isPlaceholder (h : Agrees x ws ws') (ha : ws.Branch x a) :
    ws'.isPlaceholder a = ws.isPlaceholder a := by
  have hlooks := congrArg (Option.map fun u : Block Unit => u.placeholder) (h.blocks a ha)
  rw [Option.map_map, Option.map_map] at hlooks
  have hany : ∀ o : Option (Block α), o.any (·.placeholder) =
      (o.map fun b => b.placeholder).getD false := by
    rintro (- | b) <;> rfl
  rw [Workspace.isPlaceholder, Workspace.isPlaceholder, hany, hany]
  exact congrArg (Option.getD · false) hlooks

/-- The same end of the block is the only one to fit. -/
theorem Agrees.onlyOf (h : Agrees x ws ws') (hs : ws.Sound) (hb : ws.blocks[x]? = some b)
    (hy : ws.connections[q]? = some y) (hy' : ws'.connections[q]? = some y') (ht : y.Twins y') :
    ws'.onlyOf q (b.inputs.filterMap (·.connection)) =
      ws.onlyOf q (b.inputs.filterMap (·.connection)) := by
  have hfilter : (b.inputs.filterMap (·.connection)).filter (ws'.admits q) =
      (b.inputs.filterMap (·.connection)).filter (ws.admits q) := by
    refine List.filter_congr fun c hc => ?_
    obtain ⟨i, hi, hic⟩ := List.mem_filterMap.mp hc
    obtain ⟨z, z', hz, -, -, hz', he⟩ := h.socket hs hb (mem_sockets.mpr (Or.inl ⟨i, hi, hic⟩))
    exact admits_congr hy hy' ht hz hz' (Connection.twins_of_unplaced he)
  unfold Workspace.onlyOf
  rw [hfilter]

theorem valueHomeWithin_congr (hs : ws.Sound) (hs' : ws'.Sound) (h : Agrees x ws ws')
    (hl : ws.Live x) (hy : ws.connections[q]? = some y) (hy' : ws'.connections[q]? = some y')
    (ht : y.Twins y') (hn : ws.graph.Shallow n x) (hm : ws.graph.Shallow m x) :
    ws'.valueHomeWithin q m x = ws.valueHomeWithin q n x := by
  induction n generalizing m x with
  | zero => exact hn.elim
  | succ n ih =>
    cases m with
    | zero => exact hm.elim
    | succ m =>
      obtain ⟨b, hb⟩ := hl
      obtain ⟨b', hb', he⟩ := h.block hb
      rw [Block.eq_of_looks he] at hb'
      rw [hs.furnished.valueHomeWithin hb hy, hs'.furnished.valueHomeWithin hb' hy', h.onlyOf hs hb hy hy' ht]
      cases ho : ws.onlyOf q (b.inputs.filterMap (·.connection)) with
      | none => rfl
      | some c =>
        obtain ⟨i, hi, hic⟩ := List.mem_filterMap.mp (mem_of_onlyOf ho)
        have hmem : c ∈ b.sockets := mem_sockets.mpr (Or.inl ⟨i, hi, hic⟩)
        have hacross : (ws'.across c).filter (!ws'.isPlaceholder ·) =
            (ws.across c).filter (!ws.isPlaceholder ·) := by
          rw [h.across hs hb hmem]
          cases ha : ws.across c with
          | none => rfl
          | some k =>
            have hk := hs.under_of_across hb hmem ha
            simp [Option.filter, h.isPlaceholder (branch_of_under hk (branch_self ws x))]
        simp only [hacross]
        cases hk : (ws.across c).filter (!ws.isPlaceholder ·) with
        | none => rfl
        | some k =>
          have ha := (Option.filter_eq_some_iff.mp hk).1
          have hunder := hs.under_of_across hb hmem ha
          exact ih (h.below (Or.inr (.single hunder))) (hs.live_across ha) (hn k hunder)
            (hm k hunder)

theorem stackEndWithin_congr (hs : ws.Sound) (hs' : ws'.Sound) (h : Agrees x ws ws')
    (hl : ws.Live x) (ignore : Bool) (hn : ws.graph.Shallow n x) (hm : ws.graph.Shallow m x) :
    ws'.stackEndWithin ignore m x = ws.stackEndWithin ignore n x := by
  induction n generalizing m x with
  | zero => exact hn.elim
  | succ n ih =>
    cases m with
    | zero => exact hm.elim
    | succ m =>
      obtain ⟨b, hb⟩ := hl
      obtain ⟨b', hb', he⟩ := h.block hb
      rw [Block.eq_of_looks he] at hb'
      rw [hs.furnished.stackEndWithin hb, hs'.furnished.stackEndWithin hb']
      cases hc : b.next with
      | none => rfl
      | some c =>
        have hmem : c ∈ b.sockets := mem_sockets.mpr (Or.inr hc)
        simp only [h.across hs hb hmem]
        cases ha : ws.across c with
        | none => rfl
        | some k =>
          have hunder := hs.under_of_across hb hmem ha
          have hbelow := h.below (Or.inr (.single hunder))
          simp only [h.isPlaceholder (branch_of_under hunder (branch_self ws x)),
            ih hbelow (hs.live_across ha) (hn k hunder) (hm k hunder)]

/-- The home of an orphan depends on the branch that is searched, and on what its plug fits. -/
theorem orphanHome_congr (hs : ws.Sound) (hs' : ws'.Sound) (h : Agrees x ws ws')
    (hl : ws.Live x) (htame : ws.graph.Tame x) (htame' : ws'.graph.Tame x)
    (hy : ws.connections[q]? = some y) (hy' : ws'.connections[q]? = some y') (ht : y.Twins y') :
    ws'.orphanHome x q = ws.orphanHome x q := by
  have hn := hs.shallow htame
  have hm := h.shallow (hs'.shallow htame')
  unfold Workspace.orphanHome
  simp only [connection_eq_ok.mpr hy, connection_eq_ok.mpr hy', bind, Except.bind, ht.kind]
  split
  · exact valueHomeWithin_congr hs hs' h hl hy hy' ht hn hm
  · unfold Workspace.statementHome Workspace.stackEnd
    rw [stackEndWithin_congr hs hs' h hl true hn hm]
    obtain ⟨found, hfound, hvacant⟩ := hs.furnished.stackEndWithin_vacant (n := ws.walkBound) hl
    simp only [hfound, bind, Except.bind]
    cases found with
    | none => rfl
    | some c =>
      obtain ⟨z, hz, hk, hbranch⟩ := (hvacant c rfl).socket
      obtain ⟨z', hz', he⟩ := h.sockets c z hz hk hbranch
      simp only [canConnect_eq_admits hy hz, canConnect_eq_admits hy' hz',
        admits_congr hy hy' ht hz hz' (Connection.twins_of_unplaced he)]

end Likeness

end Workspace

end BlockEditor
