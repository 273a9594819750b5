import BlockEditor.Proofs.Lifting
import BlockEditor.Proofs.Workspace.Candidates

/-!
# Landing

A root is dropped where it was offered a place. It is linked there without a cycle, and what it
pushes out goes where the search before the drop said it would.
-/

namespace BlockEditor

variable {α : Type}

namespace Workspace

variable {ws t u : Workspace α} {x child a : BlockId} {s p q own neighbour : ConnectionId}

/-! ### What is pushed out -/

theorem Frees.of_idle (h : ws.Frees p u) (hp : ws.graph.Idle p) : u = ws := by
  cases h with
  | kept => rfl
  | @cut s q child v t hlink hc hr =>
    obtain ⟨y, hy, hlink⟩ := bind_eq_ok hlink
    rw [connection_eq_ok] at hy
    have ht := hp _ (wire_of_connection hy)
    change y.target = none at ht
    rw [ht] at hlink
    cases hlink

/-- What is in the socket is handed back if it is real. -/
theorem Evicts.moved_of_real {o : Option Edit.Orphan} (h : ws.Evicts s o u)
    (hq : ws.targetOf s = some q) (ha : ws.across s = some a)
    (hreal : ws.isPlaceholder a = false) : o = some ⟨a, q⟩ ∧ ws.Cuts s q a u := by
  have cut : ∀ {q' x v}, ws.Cuts s q' x v → q' = q ∧ x = a := by
    intro q' x v hc
    obtain ⟨w, z, hl, rfl⟩ := hc.link
    obtain ⟨y, hy, rfl⟩ := connection_of_wire hl.socket
    have hacross := (across_socket hy hl.isSocket).mpr ⟨_, z, hl, rfl⟩
    have hdown : y.target = some q' := hl.down
    rw [targetOf_eq hy, hdown, Option.some.injEq] at hq
    rw [hacross, Option.some.injEq] at ha
    exact ⟨hq, ha⟩
  cases h with
  | free hy ht =>
    rw [targetOf_eq hy, ht] at hq
    cases hq
  | stored hc hb hp =>
    obtain ⟨-, rfl⟩ := cut hc
    rw [hc.blocks] at hb
    simp [isPlaceholder, hb, hp] at hreal
  | moved hc hb hp =>
    obtain ⟨rfl, rfl⟩ := cut hc
    exact ⟨rfl, hc⟩

/-- Connections keep what they may be linked to. -/
theorem Seats.twins {o : Option Edit.Orphan} {c : ConnectionId} {y : Connection α}
    (h : ws.Seats s p child o t) (hq : ws.targetOf s = some q) (ha : ws.across s = some a)
    (hreal : ws.isPlaceholder a = false) (hy : ws.connections[c]? = some y) :
    ∃ y', t.connections[c]? = some y' ∧ y.Twins y' := by
  obtain ⟨u, v, he, ht, hstep⟩ := h
  obtain ⟨-, hc⟩ := he.moved_of_real hq ha hreal
  have hu : ∃ y₁, u.connections[c]? = some y₁ ∧ y.Twins y₁ := by
    rw [hc.connections, hy]
    refine ⟨_, rfl, ?_⟩
    split <;> exact ⟨rfl, rfl, rfl⟩
  obtain ⟨y₁, hy₁, h₁⟩ := hu
  have hv : ∃ y₂, v.connections[c]? = some y₂ ∧ y.Twins y₂ := by
    rw [ht.connections, hy₁]
    refine ⟨_, rfl, ?_⟩
    split
    · exact ⟨h₁.block, h₁.kind, h₁.check⟩
    · split <;> exact ⟨h₁.block, h₁.kind, h₁.check⟩
  obtain ⟨y₂, hy₂, h₂⟩ := hv
  obtain ⟨y₃, hy₃, h₃⟩ := hstep.connection hy₂
  have h₃ := Connection.twins_of_unplaced h₃
  exact ⟨y₃, hy₃, h₃.block.trans h₂.block, h₃.kind.trans h₂.kind, h₃.check.trans h₂.check⟩

/-- The newcomer's own branch is not touched if it does not carry the socket. -/
theorem Seats.agrees {o : Option Edit.Orphan} {x : Connection α} (h : ws.Seats s p child o t)
    (hs : ws.Sound) (hq : ws.targetOf s = some q) (ha : ws.across s = some a)
    (hreal : ws.isPlaceholder a = false) (hx : ws.connections[s]? = some x)
    (hout : ¬ ws.Branch child x.block) : Agrees child ws t := by
  obtain ⟨u, v, he, ht, hstep⟩ := h
  obtain ⟨-, hc⟩ := he.moved_of_real hq ha hreal
  have hcut : Agrees child ws u := hc.agrees hs fun y hy => by
    rw [hx, Option.some.injEq] at hy
    exact hy ▸ hout
  have htie : Agrees child u v := ht.agrees fun y hy hbranch => by
    obtain ⟨y₀, hy₀, hb, -⟩ := he.owner hy
    rw [hx, Option.some.injEq] at hy₀
    rw [hb, ← hy₀] at hbranch
    exact hout (hbranch.mono fun _ _ => hc.under_of hs)
  exact (hcut.trans htie).trans (hstep.agrees child)

/-- A real block that was in the socket is put where the search for its home in the workspace
before the link says, below the newcomer, or aside. -/
theorem Joins.ousted (h : ws.Joins s p t) (hs : ws.Sound) (hac : ws.graph.Acyclic)
    (hpoised : ws.graph.Poised s p child) (hclear : ¬ ws.Closes s p) (hidle : ws.graph.Idle p)
    (hq : ws.targetOf s = some q) (ha : ws.across s = some a) (hreal : ws.isPlaceholder a = false) :
    (ws.orphanHome child q = .ok none → t.Live a ∧ t.graph.Loose a) ∧
      ((∃ c, ws.orphanHome child q = .ok (some c)) → t.graph.Below a child) := by
  obtain ⟨w, v, hm, rfl⟩ := hpoised
  obtain ⟨x, hx, rfl⟩ := connection_of_wire hm.socket
  obtain ⟨y, hy, rfl⟩ := connection_of_wire hm.plug
  have hpoised : ws.graph.Poised s p y.block := ⟨_, _, hm, rfl⟩
  have hout : ¬ ws.Branch y.block x.block := fun hb => hclear ⟨x, y, hx, hy, hm.isSocket, hb⟩
  have hxq : x.target = some q := by rw [← hq, targetOf_eq hx]
  have hne : q ≠ p := by
    rintro rfl
    obtain ⟨v, hl⟩ := Graph.link_of_socket hs.wired hm.socket hm.isSocket hxq
    have hv := hl.up hs.wired
    rw [hidle v hl.plug] at hv
    cases hv
  cases h with
  | already hy' ht =>
    rw [hx, Option.some.injEq] at hy'
    subst hy'
    rw [hxq, Option.some.injEq] at ht
    exact (hne ht).elim
  | only _ hfree hseat =>
    obtain rfl := hfree.of_idle hidle
    obtain ⟨v, z, he, -⟩ := hseat
    obtain ⟨hnone, -⟩ := he.moved_of_real hq ha hreal
    cases hnone
  | @swapped y' o u v _ hy' hfree hseat hsettle =>
    obtain rfl := hfree.of_idle hidle
    rw [hy, Option.some.injEq] at hy'
    subst hy'
    obtain rfl : o = ⟨a, q⟩ := by
      obtain ⟨_, _, he, -⟩ := hseat
      exact Option.some.inj (he.moved_of_real hq ha hreal).1
    have hready : Ready _ s p y.block := ⟨hs, hac, hpoised, hidle⟩
    obtain ⟨hvs, hvac, hvlive, -⟩ := hseat.seated hready hclear
    obtain ⟨hplugOf, hqidle⟩ := hseat.orphan hs hidle
    have hloose := hplugOf.loose hvs.wired hqidle
    obtain ⟨z, hz, hzb, -⟩ := hplugOf
    obtain ⟨b, hb, -⟩ := hs.owner hy
    obtain ⟨yq, hyq, -⟩ := hs.target hx hxq
    obtain ⟨yq', hyq', htwins⟩ := hseat.twins hq ha hreal hyq
    have hhome := orphanHome_congr hs hvs (hseat.agrees hs hq ha hreal hx hout) ⟨b, hb⟩ (hac _)
      (hvac _) hyq hyq' htwins
    have hends := hsettle.orphan hvs hvlive hvac hloose
    rw [hhome] at hends
    refine ⟨fun hnone => ⟨?_, hends.1 hnone⟩, hends.2⟩
    obtain ⟨yo, hyo, rfl⟩ := connection_of_wire hz
    obtain ⟨bo, hbo, -⟩ := hvs.owner hyo
    have hlive : v.Live a := ⟨bo, (show yo.block = a from hzb) ▸ hbo⟩
    rcases hsettle.cases hvs hvlive with ⟨-, hd⟩ | ⟨c, hc, -⟩
    · exact hd.live hlive
    · have hboth := (hhome.symm.trans hc).symm.trans hnone
      cases hboth

/-! ### What a preview tells -/

theorem Drifts.targetOf (h : ws.Drifts t) (c : ConnectionId) : t.targetOf c = ws.targetOf c := by
  have hc := congrArg (Option.map fun u : Connection Unit => u.target) (h.connections c)
  rw [Option.map_map, Option.map_map] at hc
  have hbind : ∀ o : Option (Connection α), o.bind (·.target) =
      (o.map fun y => y.target).getD none := by
    rintro (- | y) <;> rfl
  rw [Workspace.targetOf, Workspace.targetOf, hbind, hbind]
  exact congrArg (Option.getD · none) hc

theorem Drifts.across (h : ws.Drifts t) (c : ConnectionId) : t.across c = ws.across c := by
  unfold Workspace.across
  rw [h.targetOf]
  congr 1
  funext d
  have hd := congrArg (Option.map fun u : Connection Unit => u.block) (h.connections d)
  rwa [Option.map_map, Option.map_map] at hd

theorem Drifts.isPlaceholder (h : ws.Drifts t) (a : BlockId) :
    t.isPlaceholder a = ws.isPlaceholder a :=
  (h.agrees a).isPlaceholder (branch_self ws a)

/-- A real block, with its plug, is where a root was offered a place for its own plug. -/
structure Sits (ws : Workspace α) (x : BlockId) (own neighbour : ConnectionId) (a : BlockId)
    (q : ConnectionId) : Prop where
  plug : ∃ y, ws.connections[own]? = some y ∧ y.kind.isPlug ∧ y.block = x
  target : ws.targetOf neighbour = some q
  across : ws.across neighbour = some a
  real : ws.isPlaceholder a = false

theorem Sits.drifts (h : ws.Sits x own neighbour a q) (hd : ws.Drifts t) :
    t.Sits x own neighbour a q where
  plug := by
    obtain ⟨y, hy, hk, hb⟩ := h.plug
    obtain ⟨y', hy', he⟩ := hd.connection hy
    have htwins := Connection.twins_of_unplaced he
    exact ⟨y', hy', by rw [htwins.kind, hk], htwins.block.trans hb⟩
  target := (hd.targetOf neighbour).trans h.target
  across := (hd.across neighbour).trans h.across
  real := (hd.isPlaceholder a).trans h.real

/-- A real block is where a root was offered a place, or none is, and none is shown. -/
theorem Offers.occupant {c : Candidate α} (h : ws.Offers x c.own c.neighbour) (hs : ws.Sound) :
    (ws.occupant c.neighbour = .ok none ∧ ws.displaced x c = .ok none) ∨
      ∃ a q, ws.occupant c.neighbour = .ok (some a) ∧ ws.Sits x c.own c.neighbour a q := by
  obtain ⟨y, z, hy, hz, hsuits⟩ := h
  unfold displaced
  rw [hs.furnished.occupant hz]
  simp only [connection_eq_ok.mpr hy, connection_eq_ok.mpr hz, bind, Except.bind, pure, Except.pure]
  cases ht : z.target with
  | none =>
    have hacross : ws.across c.neighbour = none := by
      simp [Workspace.across, targetOf_eq hz, ht]
    refine Or.inl ⟨by rw [hacross]; rfl, ?_⟩
    split <;> rfl
  | some q =>
    obtain ⟨zq, hzq, -⟩ := hs.target hz ht
    obtain ⟨b, hb, -⟩ := hs.owner hzq
    have hplug : y.kind.isPlug := by
      by_contra hsocket
      have hk : z.kind.isPlug := by
        rw [hsuits.kind, ConnectionKind.isPlug_opposite]
        simpa [ConnectionKind.isPlug_eq_not] using hsocket
      rw [hsuits.spare hk] at ht
      cases ht
    have hacross : ws.across c.neighbour = some zq.block := by
      simp [Workspace.across, targetOf_eq hz, ht, hzq]
    have hplaceholder : ws.isPlaceholder zq.block = b.placeholder := by simp [isPlaceholder, hb]
    simp only [hplug, Bool.not_true, Bool.false_eq_true, if_false, connection_eq_ok.mpr hzq,
      block_eq_ok.mpr hb, hacross, Option.filter, hplaceholder]
    cases hp : b.placeholder with
    | true => exact Or.inl ⟨by simp, by simp⟩
    | false =>
      refine Or.inr ⟨zq.block, q, by simp, ⟨y, hy, hplug, hsuits.lead hplug⟩, ?_, hacross, ?_⟩
      · rw [targetOf_eq hz, ht]
      · rw [hplaceholder, hp]

/-- A real block is shown if it will have no home. -/
theorem Sits.displaced {c : Candidate α} (h : ws.Sits x c.own c.neighbour a q) (hs : ws.Sound)
    (hl : ws.Live x) :
    (ws.orphanHome x q = .ok none ∧ ws.displaced x c = .ok (some a)) ∨
      (∃ d, ws.orphanHome x q = .ok (some d)) ∧ ws.displaced x c = .ok none := by
  obtain ⟨y, hy, hk, -⟩ := h.plug
  obtain ⟨z, hz, ht⟩ := targetOf_eq_some.mp h.target
  obtain ⟨zq, hzq, -⟩ := hs.target hz ht
  obtain ⟨b, hb, -⟩ := hs.owner hzq
  have hacross := h.across
  simp only [Workspace.across, h.target, Option.bind_some, hzq, Option.map_some,
    Option.some.injEq] at hacross
  have hreal := h.real
  subst hacross
  simp only [isPlaceholder, hb, Option.any_some] at hreal
  obtain ⟨found, hfound, -⟩ := hs.furnished.orphanHome_vacant hzq hl
  unfold Workspace.displaced
  simp only [connection_eq_ok.mpr hy, connection_eq_ok.mpr hz, bind, Except.bind, pure, Except.pure,
    hk, Bool.not_true, Bool.false_eq_true, if_false, ht, connection_eq_ok.mpr hzq,
    block_eq_ok.mpr hb, hreal, hfound]
  cases found with
  | none => exact Or.inl ⟨rfl, rfl⟩
  | some d => exact Or.inr ⟨⟨d, rfl⟩, rfl⟩

/-! ### Where a root lands -/

theorem Suits.drifts {y z y' z' : Connection α} (h : ws.Suits x y z) (hd : ws.Drifts t)
    (hy : y'.unplaced = y.unplaced) (hz : z'.unplaced = z.unplaced) : t.Suits x y' z' := by
  have hwire : y'.wire = y.wire := congrArg (fun u : Connection Unit => u.wire) hy
  have hwire' : z'.wire = z.wire := congrArg (fun u : Connection Unit => u.wire) hz
  have hk : y'.kind = y.kind := congrArg Wire.kind hwire
  have hk' : z'.kind = z.kind := congrArg Wire.kind hwire'
  have hb : y'.block = y.block := congrArg Wire.block hwire
  have hb' : z'.block = z.block := congrArg Wire.block hwire'
  have hbranch : ∀ a, t.Branch x a ↔ ws.Branch x a := fun a => by
    unfold Branch
    rw [hd.graph]
  refine ⟨by rw [hk, hk', h.kind], ?_, ?_, ?_, ?_, ?_, ?_⟩
  · rw [← h.fits]
    exact congrArg₂ checksFit (congrArg Wire.check hwire) (congrArg Wire.check hwire')
  · exact (congrArg Wire.target hwire).trans h.free
  · rw [hb, hbranch]
    exact h.carried
  · rw [hk, hb]
    exact h.lead
  · rw [hb', hbranch]
    exact h.outside
  · rw [hk', show z'.target = z.target from congrArg Wire.target hwire']
    exact h.spare

theorem Offers.drifts (h : ws.Offers x own neighbour) (hd : ws.Drifts t) :
    t.Offers x own neighbour := by
  obtain ⟨y, z, hy, hz, hsuits⟩ := h
  obtain ⟨y', hy', he⟩ := hd.connection hy
  obtain ⟨z', hz', he'⟩ := hd.connection hz
  exact ⟨y', z', hy', hz', hsuits.drifts hd he he'⟩

/-- Two ends, of which one is a socket and the other a plug of a block, were linked. -/
structure Pairs (ws : Workspace α) (own neighbour s p : ConnectionId) (child : BlockId)
    (t : Workspace α) : Prop where
  ends : s = own ∧ p = neighbour ∨ s = neighbour ∧ p = own
  poised : ws.graph.Poised s p child
  joins : ws.Joins s p t

/-- A root was moved about, linked to what it was offered, and moved about again. -/
def Lands (ws : Workspace α) (own neighbour : ConnectionId) (t : Workspace α) : Prop :=
  ∃ s p child u v, ws.Drifts u ∧ u.Pairs own neighbour s p child v ∧ v.Drifts t

/-- A root that is linked to what it is offered gets the link that was meant, and is below
nothing that it carries. -/
theorem Pairs.linked (h : ws.Pairs own neighbour s p child t) (hl : ws.Lifted x)
    (ho : ws.Offers x own neighbour) : t.Sound ∧ t.graph.Acyclic ∧ t.Live x ∧
      t.targetOf own = some neighbour ∧ t.targetOf neighbour = some own := by
  obtain ⟨y, z, hy, hz, hsuits⟩ := ho
  have hclear : ¬ ws.Closes s p := by
    obtain ⟨hclear, hclear'⟩ := hsuits.not_closes hl.sound hl.loose hy hz
    rcases h.ends with ⟨rfl, rfl⟩ | ⟨rfl, rfl⟩
    · exact hclear
    · exact hclear'
  obtain ⟨ht, hac, w, v, hlink, rfl⟩ := h.joins.linked hl.sound hl.acyclic h.poised hclear
  have htargets : t.targetOf s = some p ∧ t.targetOf p = some s := by
    obtain ⟨x', hx', rfl⟩ := connection_of_wire hlink.socket
    obtain ⟨y', hy', rfl⟩ := connection_of_wire hlink.plug
    exact ⟨(targetOf_eq hx').trans hlink.down, (targetOf_eq hy').trans (hlink.up ht.wired)⟩
  refine ⟨ht, hac, ?_, ?_⟩
  · by_cases hx : x = v.block
    · rw [hx]
      exact ht.exists_lower hlink.under
    · exact (hl.joins h.joins h.poised hclear hx).live
  · rcases h.ends with ⟨rfl, rfl⟩ | ⟨rfl, rfl⟩
    · exact htargets
    · exact htargets.symm

/-- A root that was dropped where a real block was, and that block. -/
theorem Pairs.ousted (h : ws.Pairs own neighbour s p child t) (hl : ws.Lifted x)
    (ho : ws.Offers x own neighbour) (hsits : ws.Sits x own neighbour a q) :
    (ws.orphanHome x q = .ok none → t.Live a ∧ t.graph.Loose a) ∧
      ((∃ c, ws.orphanHome x q = .ok (some c)) → t.graph.Below a x) := by
  obtain ⟨y, hy, hk, hyx⟩ := hsits.plug
  obtain ⟨y', z, hy', hz, hsuits⟩ := ho
  rw [hy, Option.some.injEq] at hy'
  subst hy'
  obtain ⟨hclear, hclear'⟩ := hsuits.not_closes hl.sound hl.loose hy hz
  obtain ⟨w, v, hm, hv⟩ := h.poised
  rcases h.ends with ⟨rfl, rfl⟩ | ⟨rfl, rfl⟩
  · have hw := hm.socket
    rw [wire_of_connection hy, Option.some.injEq] at hw
    have hsocket := hm.isSocket
    rw [← hw, show y.wire.kind = y.kind from rfl] at hsocket
    rw [ConnectionKind.isPlug_eq_not, hsocket] at hk
    cases hk
  · have hwire := hm.plug
    rw [wire_of_connection hy, Option.some.injEq] at hwire
    have hchild : child = x := by rw [← hv, ← hwire, ← hyx]; rfl
    rw [hchild] at h
    refine h.joins.ousted hl.sound hl.acyclic h.poised hclear' (fun u hu => ?_) hsits.target
      hsits.across hsits.real
    rw [wire_of_connection hy, Option.some.injEq] at hu
    rw [← hu]
    exact hsuits.free

/-- The preview before the drop tells what comes of a real block that is in the way. -/
theorem Lands.previewed {c : Candidate α} (h : ws.Lands c.own c.neighbour t) (hl : ws.Lifted x)
    (ho : ws.Offers x c.own c.neighbour) :
    ∃ o, ws.occupant c.neighbour = .ok o ∧ match ws.displaced x c with
      | .ok (some replaced) => o = some replaced ∧ t.Live replaced ∧ t.graph.Loose replaced
      | .ok none => ∀ a, o = some a → t.graph.Below a x
      | .error _ => False := by
  rcases ho.occupant hl.sound with ⟨hocc, hd⟩ | ⟨a, q, hocc, hsits⟩
  · refine ⟨none, hocc, ?_⟩
    rw [hd]
    exact fun a ha => by cases ha
  · refine ⟨some a, hocc, ?_⟩
    obtain ⟨s, p, child, u, v, hdrift, hpairs, hdrift'⟩ := h
    have hlu := hl.drifts hdrift
    obtain ⟨z, hz, ht⟩ := targetOf_eq_some.mp hsits.target
    obtain ⟨y, hy, -⟩ := hl.sound.target hz ht
    obtain ⟨y', hy', he⟩ := hdrift.connection hy
    have hhome : u.orphanHome x q = ws.orphanHome x q :=
      orphanHome_congr hl.sound hlu.sound (hdrift.agrees x) hl.live (hl.acyclic x) (hlu.acyclic x)
        hy hy' (Connection.twins_of_unplaced he)
    have hends := hpairs.ousted hlu (ho.drifts hdrift) (hsits.drifts hdrift)
    rw [hhome] at hends
    rcases hsits.displaced hl.sound hl.live with ⟨hnone, hd⟩ | ⟨hsome, hd⟩
    · rw [hd]
      obtain ⟨hlive, hloose⟩ := hends.1 hnone
      exact ⟨rfl, hdrift'.live hlive, by rw [hdrift'.graph]; exact hloose⟩
    · rw [hd]
      intro b hb
      cases hb
      rw [hdrift'.graph]
      exact hends.2 hsome

theorem Lands.linked (h : ws.Lands own neighbour t) (hl : ws.Lifted x)
    (ho : ws.Offers x own neighbour) : t.Sound ∧ t.graph.Acyclic ∧ t.Live x ∧
      t.targetOf own = some neighbour ∧ t.targetOf neighbour = some own := by
  obtain ⟨s, p, child, u, v, hdrift, hpairs, hdrift'⟩ := h
  obtain ⟨hv, hac, hlive, hown, hneighbour⟩ :=
    hpairs.linked (hl.drifts hdrift) (ho.drifts hdrift)
  rw [hdrift'.graph, hdrift'.targetOf, hdrift'.targetOf]
  exact ⟨hdrift'.sound hv, hac, hdrift'.live hlive, hown, hneighbour⟩

theorem Lands.drifts (h : ws.Lands own neighbour t) (hd : t.Drifts u) :
    ws.Lands own neighbour u := by
  obtain ⟨s, p, child, v, w, hdrift, hpairs, hdrift'⟩ := h
  exact ⟨s, p, child, v, w, hdrift, hpairs, hdrift'.trans hd⟩

end Workspace

end BlockEditor
