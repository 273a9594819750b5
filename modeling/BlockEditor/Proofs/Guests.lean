import BlockEditor.Proofs.StandIns

/-!
# Guests

While a block is away, all that is built hangs in the socket that it has left: a placeholder that
stands in for it, or a copy. When the guest goes, nothing new is left.
-/

namespace BlockEditor

open Workspace

variable {α : Type}

namespace Graph

variable {g : Graph} {a b : BlockId} {s p : ConnectionId} {w v : Wire}

/-- What hangs below a block hangs there when the block itself is cut off. -/
theorem Link.below_cut (h : g.Link s p w v) (hg : g.Wired) (hac : g.Acyclic)
    (hb : g.Below a v.block) : (g.cut s p).Below a v.block := by
  induction hb using Relation.TransGen.head_induction_on with
  | single hu =>
    refine .single (h.under_cut hg hu ?_)
    rintro rfl
    exact hac _ (.single hu)
  | head hu hb ih =>
    refine .head (h.under_cut hg hu ?_) ih
    rintro rfl
    exact hac _ (.head hu hb)

end Graph

namespace Workspace

variable {ws u v t t' : Workspace α} {x y z k : BlockId} {b b' : Block α} {c s p q : ConnectionId}
  {n : Nat}

theorem across_of_link {w v : Wire} (h : ws.graph.Link s p w v) : ws.across s = some v.block := by
  obtain ⟨y, hy, rfl⟩ := connection_of_wire h.socket
  exact (across_socket hy h.isSocket).mpr ⟨p, v, h, rfl⟩

theorem across_congr (h : t.graph = ws.graph) (c : ConnectionId) : t.across c = ws.across c := by
  have hblock : ∀ d : ConnectionId, (t.connections[d]?).map (fun y : Connection α => y.block) =
      (ws.connections[d]?).map fun y : Connection α => y.block := by
    intro d
    have hwire := congrArg (fun g : Graph => (g.wire d).map (·.block)) h
    simpa [graph, Option.map_map, Function.comp_def, Connection.wire] using hwire
  rw [across, targetOf_congr h c, across]
  exact congrArg _ (funext hblock)

theorem carried_congr (h : t.graph = ws.graph) : t.Carried s x ↔ ws.Carried s x := by
  simp only [Carried, across_congr h, Branch, h]

/-! ### What a guest takes away with it -/

/-- When a block is taken out, so is everything below it. -/
theorem Loses.not_live_of_branch {l : List Input} {R : List BlockId} (h : ws.Loses z l [] R t)
    (hseal : ws.Seals [] R) (hdead : ¬ t.Live z) (hx : ws.Branch z x) : ¬ t.Live x := by
  have hz : z ∈ R := by
    by_contra hz
    obtain ⟨b, hb⟩ := h.live
    refine hdead ⟨{ b with inputs := l }, ?_⟩
    rw [h.kept z hz, hb]
    simp
  have step : ∀ {a c : BlockId}, ws.graph.Under a c → c ∈ R → a ∈ R := by
    rintro a c ⟨s, p, w, v, hl, rfl, rfl⟩ hc
    exact hseal hl ((dead_iff_wire hl.socket).mpr (Or.inr hc))
  have hmem : x ∈ R := by
    rcases hx with rfl | hx
    · exact hz
    · induction hx using Relation.TransGen.head_induction_on with
      | single hu => exact step hu hz
      | head hu _ ih => exact step hu ih
  rintro ⟨b, hb⟩
  rw [h.lost x hmem] at hb
  cases hb

theorem Cuts.not_live {l : List Input} {R : List BlockId} (hc : ws.Cuts s q z u) (hs : ws.Sound)
    (hac : ws.graph.Acyclic) (hl : u.Loses z l [] R t) (hseal : u.Seals [] R) (hdead : ¬ t.Live z)
    (hx : ws.Carried s x) : ¬ t.Live x := by
  obtain ⟨w, v, hlink, rfl⟩ := hc.link
  obtain ⟨a, ha, hbranch⟩ := hx
  obtain rfl := Option.some.inj ((across_of_link hlink).symm.trans ha)
  apply hl.not_live_of_branch hseal hdead
  rcases hbranch with rfl | hbranch
  · exact branch_self u v.block
  · refine Or.inr ?_
    rw [hc.graph]
    exact hlink.below_cut hs.wired hac hbranch

/-- A placeholder that leaves its socket goes with everything below it. -/
theorem Evicts.not_live (h : ws.Evicts s none t) (hs : ws.Sound) (hac : ws.graph.Acyclic)
    (hx : ws.Carried s x) : ¬ t.Live x := by
  cases h with
  | free hy hfree =>
    obtain ⟨a, ha, -⟩ := hx
    rw [across, targetOf_eq hy, hfree] at ha
    cases ha
  | @stored q z b template R u t hc hb hp hsave hl hseals hendow =>
    have hgone := hc.not_live hs hac hl hseals (not_live_removeTree u z) hx
    rwa [Live, hendow.blocks]

/-- A copy that is disposed goes with everything below it. -/
theorem Fells.not_live (h : u.Fells k v) (hc : ws.Cuts s q k u) (hs : ws.Sound)
    (hac : ws.graph.Acyclic) (hx : ws.Carried s x) : ¬ v.Live x := by
  obtain ⟨b, R, hb, hl, hseal⟩ := h.step
  refine hc.not_live hs hac hl hseal ?_ hx
  rw [h.eq]
  exact not_live_removeTree u k

theorem Fells.live_of (h : u.Fells k v) (hx : v.Live x) : u.Live x := by
  obtain ⟨b, R, -, hl, -⟩ := h.step
  obtain ⟨b', hb'⟩ := hx
  obtain ⟨-, b₀, hb₀, -⟩ := hl.old hb'
  exact ⟨b₀, hb₀⟩

theorem Evicts.live_of {o : Option Edit.Orphan} (h : ws.Evicts s o t) (hx : t.Live x) :
    ws.Live x := by
  have cut : ∀ {q z u}, ws.Cuts s q z u → u.Live x → ws.Live x := by
    intro q z u hc hu
    rwa [Live, ← hc.blocks]
  cases h with
  | free => exact hx
  | moved hc => exact cut hc hx
  | stored hc _ _ _ hl _ hendow =>
    apply cut hc
    obtain ⟨b, hb⟩ := hx
    rw [hendow.blocks] at hb
    obtain ⟨-, b₀, hb₀, -⟩ := hl.old hb
    exact ⟨b₀, hb₀⟩

theorem Seats.evicts {o : Option Edit.Orphan} (h : ws.Seats s p k o t) :
    ∃ u, ws.Evicts s o u ∧ ∀ x, t.Live x → u.Live x := by
  obtain ⟨u, v, hev, ht, hstep⟩ := h
  refine ⟨u, hev, fun x hx => ?_⟩
  obtain ⟨b, hb⟩ := hx
  obtain ⟨b₀, hb₀, -⟩ := hstep.symm_block hb
  rw [ht.blocks] at hb₀
  exact ⟨b₀, hb₀⟩

/-! ### The guests of a socket -/

/-- Nothing is newer than the first `n` blocks. -/
def Aged (ws : Workspace α) (n : Nat) : Prop :=
  ∀ x, ws.Live x → x.index.toNat < n

/-- All that is newer than the first `n` blocks hangs in the socket. -/
def Guests (ws : Workspace α) (n : Nat) (s : ConnectionId) : Prop :=
  ∀ x, ws.Live x → n ≤ x.index.toNat → ws.Carried s x

theorem Sound.aged (h : ws.Sound) : ws.Aged ws.ids.blocks := by
  rintro x ⟨b, hb⟩
  exact h.blockIds hb

theorem Cuts.aged (h : ws.Cuts s p x t) (hs : ws.Sound) : t.Aged ws.ids.blocks := by
  rw [← h.ids]
  exact (h.sound hs).aged

theorem Grafts.across (h : ws.Grafts u s k t) : t.across s = some k := by
  obtain ⟨p, w, v, hl, rfl⟩ := h.hangs
  exact across_of_link hl

/-- What is built to fill a socket hangs there. -/
theorem Refills.guests (h : u.Refills s t) (haged : u.Aged n) : t.Guests n s := by
  intro x hx hnew
  cases h with
  | kept => exact absurd (haged x hx) (Nat.not_lt_of_le hnew)
  | filled _ _ _ hf hsound _ hg =>
    have hx' := hg.live hx
    refine ⟨_, hg.across, hg.branch hsound (hf.sole x (Nat.le_of_not_lt fun hlt => ?_) hx')⟩
    obtain ⟨b, hb⟩ := hx'
    rw [hf.extend.blocks x hlt] at hb
    exact Nat.not_lt_of_le hnew (haged x ⟨b, hb⟩)

theorem Extends.carried (h : Extends ∅ u v) (hu : u.Sound) (hx : u.Carried s x) : v.Carried s x := by
  obtain ⟨a, ha, hbranch⟩ := hx
  obtain ⟨y, hy⟩ : ∃ y, u.connections[s]? = some y := by
    rw [Workspace.across, Option.bind_eq_some_iff] at ha
    obtain ⟨d, hd, -⟩ := ha
    obtain ⟨y, hy, -⟩ := targetOf_eq_some.mp hd
    exact ⟨y, hy⟩
  refine ⟨a, (h.across hu hy).trans ha, ?_⟩
  rcases hbranch with rfl | hbranch
  · exact branch_self v _
  · exact Or.inr (hbranch.mono fun _ _ hc => h.under hu hc)

/-- A copy that takes the place of the guests is the only guest. -/
theorem Guests.seats (h : u.Guests n s) (hu : u.Sound) (hf : u.Fresh k v) (hv : v.Sound)
    (hac : v.graph.Acyclic) (hseat : v.Seats s q k none t) : t.Guests n s := by
  obtain ⟨w, hev, hlive⟩ := hseat.evicts
  intro x hx hnew
  have hgone : ¬ v.Carried s x := fun hx' => hev.not_live hv hac hx' (hlive x hx)
  have hx' : v.Live x := hev.live_of (hlive x hx)
  obtain ⟨w', y, hl, rfl⟩ := hseat.link
  refine ⟨_, across_of_link hl, hseat.branch hv (hf.sole x (Nat.le_of_not_lt fun hlt => ?_) hx') ?_⟩
  · obtain ⟨b, hb⟩ := hx'
    rw [hf.extend.blocks x hlt] at hb
    exact hgone (hf.extend.carried hu (h x ⟨b, hb⟩ hnew))
  · exact fun z hz hbranch => hgone ⟨z, hz, hbranch⟩

/-- When the guests have left nothing new is there. -/
theorem Guests.evicts (h : ws.Guests n s) (hs : ws.Sound) (hac : ws.graph.Acyclic)
    (he : ws.Evicts s none t) : t.Aged n := by
  intro x hx
  by_contra hlt
  exact he.not_live hs hac (h x (he.live_of hx) (Nat.le_of_not_lt hlt)) hx

theorem Guests.fells (h : ws.Guests n s) (hs : ws.Sound) (hac : ws.graph.Acyclic)
    (hc : ws.Cuts s q k u) (hf : u.Fells k v) : v.Aged n := by
  intro x hx
  by_contra hlt
  have hx' : ws.Live x := by
    rw [Live, ← hc.blocks]
    exact hf.live_of hx
  exact hf.not_live hc hs hac (h x hx' (Nat.le_of_not_lt hlt)) hx

/-! ### Templates of a socket -/

/-- The socket holds something if and only if it has a template. -/
def Stocked (ws : Workspace α) (s : ConnectionId) : Prop :=
  ∀ y, ws.connections[s]? = some y → (y.target.isSome ↔ y.template.isSome)

/-- A connection has a template in both workspaces, or in none. -/
def SameStock (ws t : Workspace α) (c : ConnectionId) : Prop :=
  (t.templateAt c).map Option.isSome = (ws.templateAt c).map Option.isSome

theorem SameStock.of_eq (h : t.templateAt c = ws.templateAt c) : ws.SameStock t c := by
  rw [SameStock, h]

theorem SameStock.trans (h : ws.SameStock u c) (h' : u.SameStock t c) : ws.SameStock t c :=
  Eq.trans h' h

theorem Drifts.sameStock (h : ws.Drifts t) (c : ConnectionId) : ws.SameStock t c :=
  .of_eq (h.templateAt c)

theorem Stocked.extend (h : u.Stocked s) (hu : u.Sound) (hf : Extends ∅ u v) {y : Connection α}
    (hy : u.connections[s]? = some y) : v.Stocked s := by
  intro z hz
  rw [hf.connection hu hy (Set.notMem_empty s), Option.some.injEq] at hz
  exact hz ▸ h y hy

theorem Refills.templateAt (h : u.Refills s t) (hu : u.Sound) {y : Connection α}
    (hy : u.connections[c]? = some y) : t.templateAt c = u.templateAt c := by
  cases h with
  | kept => rfl
  | filled _ _ _ hf _ _ hg =>
    obtain ⟨p, v, ht, hstep⟩ := hg.step
    rw [hstep.drifts.templateAt, ht.templateAt]
    exact templateAt_congr (by rw [hf.extend.connection hu hy (Set.notMem_empty c), hy])

/-- A free socket that had its turn is stocked. -/
theorem Refills.stocked (h : u.Refills s t) (hu : u.Sound) (hfree : u.targetOf s = none) :
    t.Stocked s := by
  intro y hy
  cases h with
  | kept hy₀ hor =>
    rw [hy, Option.some.injEq] at hy₀
    subst hy₀
    rw [targetOf_eq hy] at hfree
    rw [hfree] at hor
    have htemplate : y.template = none := hor.resolve_left Bool.false_ne_true
    rw [hfree, htemplate]
    exact Iff.rfl
  | filled hy₀ ht htemplate hf hsound hmark hg =>
    have hsame := Refills.templateAt (.filled hy₀ ht htemplate hf hsound hmark hg) hu hy₀
    rw [Workspace.templateAt, hy, Workspace.templateAt, hy₀, Option.map_some, Option.map_some,
      Option.some.injEq, htemplate] at hsame
    obtain ⟨p, w, z, hl, -⟩ := hg.hangs
    have hw := (wire_of_connection hy).symm.trans hl.socket
    rw [Option.some.injEq] at hw
    have htarget : y.target = some p := by
      rw [show y.target = w.target from congrArg Wire.target hw]
      exact hl.down
    rw [hsame, htarget]
    exact iff_of_true rfl rfl

/-- A placeholder that leaves a stocked socket leaves a template as there was one. -/
theorem Evicts.sameStock (h : ws.Evicts s none t) (hstock : ws.Stocked s)
    {w : Wire} (hw : t.graph.wire s = some w) : ws.SameStock t s := by
  cases h with
  | free => exact .of_eq rfl
  | @stored q z b template R u t hc _ _ _ _ _ hendow =>
    obtain ⟨w', v, hl, -⟩ := hc.link
    obtain ⟨y, hy, rfl⟩ := connection_of_wire hl.socket
    have htarget : y.target.isSome := by
      rw [show y.target = some q from hl.down]
      rfl
    have hbefore := (hstock y hy).mp htarget
    obtain ⟨y', hy', -⟩ := connection_of_wire hw
    have hstored := hendow.templateAt s
    rw [if_pos rfl] at hstored
    rw [hendow.connections, Option.map_eq_some_iff] at hy'
    obtain ⟨y₀, hy₀, -⟩ := hy'
    rw [SameStock, hstored, Workspace.templateAt, hy₀, Workspace.templateAt, hy]
    simp [hbefore]

end Workspace

end BlockEditor
