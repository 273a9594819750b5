import BlockEditor.Proofs.Healing

/-!
# What comes of linking two ends

To link a plug to a socket may cut two other links, bring a placeholder back where the plug was, make
a template of the placeholder that was in the socket, and find a place for the real block that was
there. Whatever else remains is as it was.
-/

namespace BlockEditor

open Workspace

variable {α : Type}

namespace Workspace

variable {ws u v t : Workspace α} {x y a child : BlockId} {b : Block α}
  {c d s p q : ConnectionId} {o : Option Edit.Orphan}

/-! ### Emptying a socket -/

/-- What is left of a link is the whole link. -/
theorem Loses.targetOf {l : List Input} {R : List BlockId} {z : Connection α}
    (h : ws.Loses x l [] R t) (hs : ws.Sound) (hseal : ws.Seals [] R)
    (hz : t.connections[c]? = some z) : t.targetOf c = ws.targetOf c := by
  obtain ⟨halive, z₀, hz₀, rfl⟩ := h.old_connection hz
  rw [targetOf_eq hz, targetOf_eq hz₀]
  cases hd : z₀.target with
  | none => rfl
  | some d =>
    rw [Option.filter_some, if_pos]
    rw [Bool.not_eq_true', Bool.eq_false_iff]
    intro hdead
    rw [Bool.eq_false_iff] at halive
    apply halive
    cases hk : z₀.kind.isSocket with
    | true =>
      obtain ⟨v, hl⟩ := Graph.link_of_socket hs.wired (wire_of_connection hz₀) hk hd
      rcases (dead_iff_wire hl.plug).mp hdead with hgone | hmem
      · cases hgone
      · exact h.hangs hl hmem
    | false =>
      have hplug : z₀.kind.isPlug := by
        rw [ConnectionKind.isPlug_eq_not, hk]
        rfl
      obtain ⟨w, hl⟩ := Graph.link_of_plug hs.wired (wire_of_connection hz₀) hplug hd
      exact (dead_iff hz₀).mpr (Or.inr (hseal hl hdead))

theorem Loses.templateAt {l : List Input} {R : List BlockId} {z : Connection α}
    (h : ws.Loses x l [] R t) (hz : t.connections[c]? = some z) :
    t.templateAt c = ws.templateAt c := by
  obtain ⟨-, z₀, hz₀, rfl⟩ := h.old_connection hz
  rw [Workspace.templateAt, hz, Workspace.templateAt, hz₀]
  rfl

namespace Evicts

/-- No other link is touched, as far as its ends remain. -/
theorem targetOf {z : Connection α} (h : ws.Evicts s o t) (hs : ws.Sound)
    (hz : t.connections[c]? = some z) (hne : c ≠ s) (hnot : ws.targetOf s ≠ some c) :
    t.targetOf c = ws.targetOf c := by
  have cut : ∀ {q x u}, ws.Cuts s q x u → u.targetOf c = ws.targetOf c := by
    intro q x u hc
    rw [hc.targetOf, if_neg]
    rintro (heq | rfl)
    · exact hne heq
    · obtain ⟨w, v, hl, -⟩ := hc.link
      obtain ⟨y, hy, rfl⟩ := connection_of_wire hl.socket
      exact hnot ((targetOf_eq hy).trans hl.down)
  cases h with
  | free => rfl
  | moved hc => exact cut hc
  | stored hc _ _ _ hl hseal he =>
    rw [he.connections, Option.map_eq_some_iff] at hz
    obtain ⟨z₀, hz₀, -⟩ := hz
    rw [targetOf_congr he.graph, hl.targetOf (hc.sound hs) hseal hz₀, cut hc]

/-- No other template is touched. -/
theorem templateAt {z : Connection α} (h : ws.Evicts s o t) (hz : t.connections[c]? = some z)
    (hne : c ≠ s) : t.templateAt c = ws.templateAt c := by
  cases h with
  | free => rfl
  | moved hc => exact hc.templateAt c
  | stored hc _ _ _ hl _ he =>
    rw [he.connections, Option.map_eq_some_iff] at hz
    obtain ⟨z₀, hz₀, -⟩ := hz
    rw [he.templateAt, if_neg hne, hl.templateAt hz₀, hc.templateAt]

/-- The template is touched only by a placeholder that leaves. -/
theorem templateAt_of_real (h : ws.Evicts s o t)
    (hreal : ∀ a, ws.across s = some a → ws.isPlaceholder a = false) :
    t.templateAt c = ws.templateAt c := by
  cases h with
  | free => rfl
  | moved hc => exact hc.templateAt c
  | stored hc hb hp =>
    obtain ⟨w, v, hl, rfl⟩ := hc.link
    have hmark := hreal _ (across_of_link hl)
    rw [hc.blocks] at hb
    rw [isPlaceholder, hb, Option.any_some, hp] at hmark
    cases hmark

/-- A placeholder becomes the template of its socket. -/
theorem stores {z : Connection α} (h : ws.Evicts s none t) (ha : ws.across s = some a)
    (hz : t.connections[s]? = some z) : ∃ q u template, ws.Cuts s q a u ∧ u.save a = .ok template ∧
      t.templateAt s = some (some template) := by
  cases h with
  | free hy hfree =>
    rw [across, targetOf_eq hy, hfree] at ha
    cases ha
  | @stored q x b template R u _ hc _ _ hsave _ _ he =>
    obtain ⟨w, v, hl, rfl⟩ := hc.link
    rw [across_of_link hl, Option.some.injEq] at ha
    refine ⟨q, u, template, ha ▸ hc, ha ▸ hsave, ?_⟩
    rw [he.connections, Option.map_eq_some_iff] at hz
    obtain ⟨z₀, hz₀, -⟩ := hz
    rw [he.templateAt, if_pos rfl, Workspace.templateAt, hz₀]
    rfl

/-- What remains is a placeholder if it was one. -/
theorem isPlaceholder (h : ws.Evicts s o t) (hx : t.Live x) :
    t.isPlaceholder x = ws.isPlaceholder x := by
  obtain ⟨b', hb'⟩ := hx
  cases h with
  | free => rfl
  | moved hc => rw [Workspace.isPlaceholder, hc.blocks, Workspace.isPlaceholder]
  | stored hc _ _ _ hl _ he =>
    rw [he.blocks] at hb'
    obtain ⟨hkept, b, hb, hsame⟩ := hl.old hb'
    rw [Workspace.isPlaceholder, he.blocks, hb', Workspace.isPlaceholder, ← hc.blocks, hb, hsame,
      Option.any_some, Option.any_some]
    split <;> rfl

/-- What an end is stays. -/
theorem twins_of {z : Connection α} (h : ws.Evicts s o t) (hz : t.connections[c]? = some z) :
    ∃ z₀, ws.connections[c]? = some z₀ ∧ z₀.Twins z := by
  have cut : ∀ {q x u} {z : Connection α}, ws.Cuts s q x u → u.connections[c]? = some z →
      ∃ z₀, ws.connections[c]? = some z₀ ∧ z₀.Twins z := by
    intro q x u z hc hz
    rw [hc.connections, Option.map_eq_some_iff] at hz
    obtain ⟨z₀, hz₀, rfl⟩ := hz
    refine ⟨z₀, hz₀, ?_⟩
    split <;> exact ⟨rfl, rfl, rfl⟩
  cases h with
  | free => exact ⟨z, hz, rfl, rfl, rfl⟩
  | moved hc => exact cut hc hz
  | stored hc _ _ _ hl _ he =>
    rw [he.connections, Option.map_eq_some_iff] at hz
    obtain ⟨z₁, hz₁, rfl⟩ := hz
    obtain ⟨-, z₂, hz₂, rfl⟩ := hl.old_connection hz₁
    obtain ⟨z₀, hz₀, hsame⟩ := cut hc hz₂
    refine ⟨z₀, hz₀, ?_⟩
    split <;> exact ⟨hsame.block, hsame.kind, hsame.check⟩

end Evicts

/-! ### Plugging in -/

/-- A plug of a block was put into an empty socket, and things may have been moved. -/
structure Fills (ws : Workspace α) (s p : ConnectionId) (child : BlockId) (t : Workspace α) :
    Prop where
  twins : ∀ {c : ConnectionId} {z : Connection α}, t.connections[c]? = some z →
    ∃ z₀, ws.connections[c]? = some z₀ ∧ z₀.Twins z
  targetOf : ∀ c, c ≠ s → c ≠ p → t.targetOf c = ws.targetOf c
  templateAt : ∀ c, t.templateAt c = ws.templateAt c
  live : ∀ x, t.Live x → ws.Live x
  isPlaceholder : ∀ x, t.isPlaceholder x = ws.isPlaceholder x
  top : ∀ x ∈ ws.top, x ≠ child → x ∈ t.top

theorem Seats.fills (h : ws.Seats s p child o t) : ∃ u, ws.Evicts s o u ∧ u.Fills s p child t := by
  obtain ⟨u, v, he, ht, hstep⟩ := h
  refine ⟨u, he, ?_⟩
  exact {
    twins := by
      intro c z hz
      obtain ⟨z₁, hz₁, hsame⟩ := hstep.symm_connection hz
      have htwins := Connection.twins_of_unplaced hsame
      rw [ht.connections, Option.map_eq_some_iff] at hz₁
      obtain ⟨z₀, hz₀, rfl⟩ := hz₁
      refine ⟨z₀, hz₀, ?_⟩
      split at htwins
      · exact ⟨htwins.block.symm, htwins.kind.symm, htwins.check.symm⟩
      · split at htwins <;> exact ⟨htwins.block.symm, htwins.kind.symm, htwins.check.symm⟩
    targetOf := by
      intro c hcs hcp
      rw [targetOf_congr hstep.graph, ht.targetOf, if_neg hcs, if_neg hcp]
    templateAt := fun c => (hstep.drifts.templateAt c).trans (ht.templateAt c)
    live := by
      rintro x ⟨b, hb⟩
      obtain ⟨b', hb', -⟩ := hstep.symm_block hb
      rw [ht.blocks] at hb'
      exact ⟨b', hb'⟩
    isPlaceholder := by
      intro x
      rw [isPlaceholder_of_looks (hstep.looks x), Workspace.isPlaceholder, ht.blocks,
        Workspace.isPlaceholder]
    top := by
      intro x hx hne
      rw [hstep.rest, ht.rest]
      exact List.mem_filter.mpr ⟨hx, decide_eq_true hne⟩ }

namespace Seats

theorem twins_of {z : Connection α} (h : ws.Seats s p child o t) (hz : t.connections[c]? = some z) :
    ∃ z₀, ws.connections[c]? = some z₀ ∧ z₀.Twins z := by
  obtain ⟨u, he, hf⟩ := h.fills
  obtain ⟨z₁, hz₁, h₁⟩ := hf.twins hz
  obtain ⟨z₀, hz₀, h₀⟩ := he.twins_of hz₁
  exact ⟨z₀, hz₀, h₁.block.trans h₀.block, h₁.kind.trans h₀.kind, h₁.check.trans h₀.check⟩

/-- No other link is touched, as far as its ends remain. -/
theorem targetOf {z : Connection α} (h : ws.Seats s p child o t) (hs : ws.Sound)
    (hz : t.connections[c]? = some z) (hcs : c ≠ s) (hcp : c ≠ p) (hnot : ws.targetOf s ≠ some c) :
    t.targetOf c = ws.targetOf c := by
  obtain ⟨u, he, hf⟩ := h.fills
  obtain ⟨z₁, hz₁, -⟩ := hf.twins hz
  rw [hf.targetOf c hcs hcp, he.targetOf hs hz₁ hcs hnot]

theorem templateAt_of_ne {z : Connection α} (h : ws.Seats s p child o t)
    (hz : t.connections[c]? = some z) (hne : c ≠ s) : t.templateAt c = ws.templateAt c := by
  obtain ⟨u, he, hf⟩ := h.fills
  obtain ⟨z₁, hz₁, -⟩ := hf.twins hz
  rw [hf.templateAt, he.templateAt hz₁ hne]

theorem templateAt_of_real (h : ws.Seats s p child o t)
    (hreal : ∀ a, ws.across s = some a → ws.isPlaceholder a = false) :
    t.templateAt c = ws.templateAt c := by
  obtain ⟨u, he, hf⟩ := h.fills
  rw [hf.templateAt, he.templateAt_of_real hreal]

/-- What is handed back is a top block. -/
theorem top_of_orphan {o : Edit.Orphan} (h : ws.Seats s p child (some o) t) (hne : o.block ≠ child) :
    o.block ∈ t.top := by
  obtain ⟨u, he, hf⟩ := h.fills
  cases he with
  | @moved q x b _ hc =>
    refine hf.top x ?_ hne
    rw [hc.rest]
    dsimp only
    split
    · next hin => exact List.contains_iff_mem.mp hin
    · exact List.mem_append_right _ (List.mem_singleton_self x)

theorem isPlaceholder (h : ws.Seats s p child o t) (hx : t.Live x) :
    t.isPlaceholder x = ws.isPlaceholder x := by
  obtain ⟨u, he, hf⟩ := h.fills
  rw [hf.isPlaceholder, he.isPlaceholder (hf.live x hx)]

theorem across_of {z : Connection α} (h : ws.Seats s p child o t) (hs : ws.Sound) (ht : t.Sound)
    (hz : t.connections[c]? = some z) (hcs : c ≠ s) (hcp : c ≠ p) (hnot : ws.targetOf s ≠ some c) :
    t.across c = ws.across c := by
  have htarget := h.targetOf hs hz hcs hcp hnot
  rw [across_eq, across_eq, ← htarget]
  cases hd : t.targetOf c with
  | none => rfl
  | some d =>
    rw [targetOf_eq hz] at hd
    obtain ⟨y, hy, -⟩ := ht.target hz hd
    obtain ⟨y₀, hy₀, hsame⟩ := h.twins_of hy
    rw [Option.bind_some, Option.bind_some, Workspace.ownerOf, hy, Workspace.ownerOf, hy₀,
      Option.map_some, Option.map_some, hsame.block]

/-- A placeholder that was in the socket is gone with everything below it, and its snapshot is the
template. -/
theorem stores (h : ws.Seats s p child none t) (hs : ws.Sound) (hac : ws.graph.Acyclic)
    (ha : ws.across s = some a) :
    (∃ q u template, ws.Cuts s q a u ∧ u.save a = .ok template ∧
      t.templateAt s = some (some template)) ∧ ∀ x, ws.Branch a x → ¬ t.Live x := by
  obtain ⟨w, v, hl, -⟩ := h.link
  obtain ⟨y, hy, -⟩ := connection_of_wire hl.socket
  obtain ⟨u, he, hf⟩ := h.fills
  obtain ⟨y₁, hy₁, -⟩ := hf.twins hy
  refine ⟨?_, fun x hx hlive => he.not_live hs hac ⟨a, ha, hx⟩ (hf.live x hlive)⟩
  obtain ⟨q, m, template, hc, hsave, htemplate⟩ := he.stores ha hy₁
  exact ⟨q, m, template, hc, hsave, (hf.templateAt s).trans htemplate⟩

end Seats

/-! ### Freeing a plug -/

namespace Frees

/-- A plug is free, or it is taken out of its socket. -/
theorem cases_plug (h : ws.Frees p u) (hs : ws.Sound) (hp : ws.graph.PlugOf p child) :
    ws.targetOf p = none ∧ u = ws ∨
      ∃ c m, ws.targetOf p = some c ∧ ws.Cuts c p child m ∧ m.Refills c u := by
  obtain ⟨v, hv, rfl, hk⟩ := hp
  obtain ⟨z, hz, rfl⟩ := connection_of_wire hv
  cases h with
  | kept hlink =>
    obtain ⟨z', hz', hnone⟩ := link?_eq_none hlink
    exact Or.inl ⟨(targetOf_eq hz').trans hnone, rfl⟩
  | cut hlink hc hr =>
    obtain ⟨⟨w, v, hl⟩, rfl | rfl⟩ := link?_eq_some hlink hs
    · have hw := Option.some.inj (hv.symm.trans hl.socket)
      rw [hw, ConnectionKind.isPlug_eq_not, hl.isSocket] at hk
      cases hk
    · obtain ⟨w', v', hl', rfl⟩ := hc.link
      have hw := Option.some.inj (hv.symm.trans hl.plug)
      have hw' := Option.some.inj (hv.symm.trans hl'.plug)
      rw [← hw'] at hc
      have hup := hl.up hs.wired
      rw [← hw] at hup
      exact Or.inr ⟨_, _, (targetOf_eq hz).trans hup, hc, hr⟩

variable {z : Connection α}

/-- Whatever was there is there, and is not linked otherwise, apart from the two ends. -/
theorem targetOf (h : ws.Frees p u) (hs : ws.Sound) (hp : ws.graph.PlugOf p child)
    (hz : ws.connections[c]? = some z) (hcp : c ≠ p) (hnot : ws.targetOf p ≠ some c) :
    u.targetOf c = ws.targetOf c := by
  rcases h.cases_plug hs hp with ⟨-, rfl⟩ | ⟨d, m, hd, hc, hr⟩
  · rfl
  have hcd : c ≠ d := fun heq => hnot (heq ▸ hd)
  have hm := hc.connections c
  rw [hz, Option.map_some, if_neg (not_or.mpr ⟨hcd, hcp⟩)] at hm
  rw [targetOf_eq (hr.extend.connection (hc.sound hs) hm hcd), targetOf_eq hz]

theorem templateAt (h : ws.Frees p u) (hs : ws.Sound) (hz : ws.connections[c]? = some z) :
    u.templateAt c = ws.templateAt c := by
  cases h with
  | kept => rfl
  | @cut d _ _ _ _ _ hc hr =>
    have hm := hc.connections c
    rw [hz, Option.map_some] at hm
    rw [← hc.templateAt]
    by_cases hcs : c = d
    · subst hcs
      exact hr.templateAt (hc.sound hs) hm
    · exact templateAt_congr ((hr.extend.connection (hc.sound hs) hm hcs).trans hm.symm)

theorem twins (h : ws.Frees p u) (hs : ws.Sound) (hz : ws.connections[c]? = some z) :
    ∃ z', u.connections[c]? = some z' ∧ z.Twins z' := by
  obtain ⟨target, hw⟩ := (Edit.severed_of_frees hs h).spares c _ (wire_of_connection hz)
  obtain ⟨z', hz', hsame⟩ := connection_of_wire hw
  exact ⟨z', hz', congrArg Wire.block hsame, congrArg Wire.kind hsame, congrArg Wire.check hsame⟩

theorem ownerOf (h : ws.Frees p u) (hs : ws.Sound) (hz : ws.connections[c]? = some z) :
    u.ownerOf c = ws.ownerOf c := by
  obtain ⟨z', hz', hsame⟩ := h.twins hs hz
  rw [Workspace.ownerOf, hz', Workspace.ownerOf, hz, Option.map_some, Option.map_some, hsame.block]

theorem across (h : ws.Frees p u) (hs : ws.Sound) (hp : ws.graph.PlugOf p child)
    (hz : ws.connections[c]? = some z) (hcp : c ≠ p) (hnot : ws.targetOf p ≠ some c) :
    u.across c = ws.across c := by
  rw [across_eq, across_eq, h.targetOf hs hp hz hcp hnot]
  cases hd : ws.targetOf c with
  | none => rfl
  | some d =>
    rw [targetOf_eq hz] at hd
    obtain ⟨y, hy, -⟩ := hs.target hz hd
    rw [Option.bind_some, Option.bind_some, h.ownerOf hs hy]

theorem isPlaceholder (h : ws.Frees p u) (hs : ws.Sound) (hx : ws.Live x) :
    u.isPlaceholder x = ws.isPlaceholder x := by
  obtain ⟨b, hb⟩ := hx
  cases h with
  | kept => rfl
  | cut _ hc hr =>
    rw [Workspace.isPlaceholder, hr.extend.block (hc.sound hs) (by rw [hc.blocks, hb]),
      Workspace.isPlaceholder, hb]

/-- The socket that the plug has left is empty, or it has a new placeholder. -/
theorem stopgap (h : ws.Frees p u) (hs : ws.Sound) (hp : ws.graph.PlugOf p child)
    (hc : ws.targetOf p = some c) : u.Stopgap ws.ids.blocks c := by
  rcases h.cases_plug hs hp with ⟨hnone, -⟩ | ⟨d, m, hd, hcut, hr⟩
  · rw [hnone] at hc
    cases hc
  · obtain rfl := Option.some.inj (hc.symm.trans hd)
    rw [← hcut.ids]
    exact hr.stopgap hcut.targetOf_socket

theorem blockCount (h : ws.Frees p u) : ws.ids.blocks ≤ u.ids.blocks := by
  cases h with
  | kept => exact le_rfl
  | cut _ hc hr =>
    rw [← hc.ids]
    exact hr.extend.blockCount

/-- A branch stays as it is when a plug leaves a socket that the branch does not have. -/
theorem agrees {r : BlockId} (h : ws.Frees p u) (hs : ws.Sound) (hp : ws.graph.PlugOf p child)
    (hr : ws.Live r) (hout : ∀ c z, ws.targetOf p = some c → ws.connections[c]? = some z →
      ¬ ws.Branch r z.block) : Agrees r ws u := by
  rcases h.cases_plug hs hp with ⟨-, rfl⟩ | ⟨d, m, hd, hc, hrefill⟩
  · exact .refl r _
  · exact hc.agrees_extends hrefill.extend hs hr fun z hz => hout d z hd hz

end Frees

/-- What becomes of the orphan, if there is one. -/
inductive Lodges (ws : Workspace α) (below : BlockId) : Option Edit.Orphan → Workspace α → Prop
  | nobody : Lodges ws below none ws
  | orphan {o : Edit.Orphan} {t : Workspace α} : ws.Settles below o t → Lodges ws below (some o) t

/-- The block that is plugged in does not carry the socket. -/
theorem Ready.outside (h : ws.Ready s p child) (hclear : ¬ ws.Closes s p) :
    ∃ y, ws.connections[s]? = some y ∧ ¬ ws.Branch child y.block := by
  obtain ⟨w, v, hm, hv⟩ := h.poised
  obtain ⟨y, hy, rfl⟩ := connection_of_wire hm.socket
  obtain ⟨z, hz, rfl⟩ := connection_of_wire hm.plug
  obtain rfl : z.block = child := hv
  exact ⟨y, hy, fun hbranch => hclear ⟨y, z, hy, hz, hm.isSocket, hbranch⟩⟩

theorem ownerOf_of_plugOf (hp : ws.graph.PlugOf p child) : ws.ownerOf p = some child := by
  obtain ⟨w, hw, hc, -⟩ := hp
  obtain ⟨y, hy, rfl⟩ := connection_of_wire hw
  exact ownerOf_eq_some.mpr ⟨y, hy, hc⟩

theorem live_of_ownerOf (hs : ws.Sound) (h : ws.ownerOf c = some x) : ws.Live x := by
  obtain ⟨y, hy, rfl⟩ := ownerOf_eq_some.mp h
  obtain ⟨b, hb, -⟩ := hs.owner hy
  exact ⟨b, hb⟩

/-- A plug that was not in the socket was freed and put there, and what was in the way has been dealt
with. -/
structure Engages (ws : Workspace α) (s p : ConnectionId) (child : BlockId) (u v : Workspace α)
    (o : Option Edit.Orphan) (t : Workspace α) : Prop where
  sound : ws.Sound
  acyclic : ws.graph.Acyclic
  poised : ws.graph.Poised s p child
  clear : ¬ ws.Closes s p
  apart : ws.targetOf s ≠ some p
  frees : ws.Frees p u
  seats : u.Seats s p child o v
  lodges : v.Lodges child o t

/-- Two ends that are linked have each other. -/
theorem Sound.targetOf_back (hs : ws.Sound) (h : ws.targetOf c = some d) :
    ws.targetOf d = some c := by
  obtain ⟨y, hy, hd⟩ := targetOf_eq_some.mp h
  obtain ⟨z, hz, hback, -⟩ := hs.target hy hd
  exact (targetOf_eq hz).trans hback

/-- A socket is linked to no socket. -/
theorem Sound.targetOf_ne {y z : Connection α} (hs : ws.Sound) (hy : ws.connections[c]? = some y)
    (hk : y.kind.isSocket) (hz : ws.connections[d]? = some z) (hk' : z.kind.isSocket) :
    ws.targetOf c ≠ some d := by
  intro htarget
  rw [targetOf_eq hy] at htarget
  obtain ⟨v, hl⟩ := Graph.link_of_socket hs.wired (wire_of_connection hy) hk htarget
  have hplug := hl.isPlug hs.wired
  rw [← Option.some.inj ((wire_of_connection hz).symm.trans hl.plug), ConnectionKind.isPlug_eq_not,
    show z.wire.kind.isSocket = true from hk'] at hplug
  cases hplug

/-- A real block with the plug `q` is in the socket `s`, and `c` is the place for it below the block
`child`. -/
structure Rehomes (ws : Workspace α) (child : BlockId) (s q c : ConnectionId) : Prop where
  target : ws.targetOf s = some q
  real : ∀ a, ws.across s = some a → ws.isPlaceholder a = false
  home : ws.orphanHome child q = .ok (some c)

namespace Engages

theorem ready (h : ws.Engages s p child u v o t) : u.Ready s p child ∧ ¬ u.Closes s p :=
  h.frees.ready h.sound h.acyclic h.poised h.clear

theorem seated (h : ws.Engages s p child u v o t) : v.Sound ∧ v.graph.Acyclic ∧ v.Live child :=
  let ⟨hready, hclear⟩ := h.ready
  let ⟨hs, hac, hl, _⟩ := h.seats.seated hready hclear
  ⟨hs, hac, hl⟩

theorem live (h : ws.Engages s p child u v o t) : ws.Live child :=
  live_of_ownerOf h.sound (ownerOf_of_plugOf h.poised.plugOf)

theorem joins (h : ws.Engages s p child u v o t) : ws.Joins s p t := by
  obtain ⟨w, z, hm, hz⟩ := h.poised
  obtain ⟨y, hy, rfl⟩ := connection_of_wire hm.plug
  obtain rfl : y.block = child := hz
  have hseats := h.seats
  cases h.lodges with
  | nobody => exact .only hy h.frees hseats
  | orphan hsettles => exact .swapped hy h.frees hseats hsettles

theorem linked (h : ws.Engages s p child u v o t) :
    t.Sound ∧ t.graph.Acyclic ∧ ∃ w v, t.graph.Link s p w v ∧ v.block = child :=
  h.joins.linked h.sound h.acyclic h.poised h.clear

/-- The socket itself is not touched when the plug leaves another one. -/
theorem socket (h : ws.Engages s p child u v o t) :
    ws.targetOf p ≠ some s ∧ u.targetOf s = ws.targetOf s ∧ u.across s = ws.across s := by
  obtain ⟨w, v, hm, -⟩ := id h.poised
  obtain ⟨y, hy, -⟩ := connection_of_wire hm.socket
  have hsp : s ≠ p := hm.ne
  have hnot : ws.targetOf p ≠ some s := fun htarget => h.apart (h.sound.targetOf_back htarget)
  exact ⟨hnot, h.frees.targetOf h.sound h.poised.plugOf hy hsp hnot,
    h.frees.across h.sound h.poised.plugOf hy hsp hnot⟩

/-- A block that is in the socket is still as it was when the socket is emptied. -/
theorem occupant (h : ws.Engages s p child u v o t) (ha : ws.across s = some a) :
    u.across s = some a ∧ u.isPlaceholder a = ws.isPlaceholder a :=
  ⟨h.socket.2.2.trans ha, h.frees.isPlaceholder h.sound (h.sound.live_across ha)⟩

/-- The branch of the block that is plugged in stays as it is until then. -/
theorem agrees (h : ws.Engages s p child u v o t) : Agrees child ws u := by
  obtain ⟨w, z, hm, rfl⟩ := h.poised
  obtain ⟨y, hy, rfl⟩ := connection_of_wire hm.plug
  refine h.frees.agrees h.sound h.poised.plugOf h.live fun c e hc he => ?_
  rw [targetOf_eq hy] at hc
  obtain ⟨w', hl⟩ := Graph.link_of_plug h.sound.wired hm.plug hm.isPlug hc
  exact outside_of_link hl h.acyclic he

/-- If no real block was in the socket, then nobody needs a new place. -/
theorem of_vacant (h : ws.Engages s p child u v o t)
    (hv : ∀ a, ws.across s = some a → ws.isPlaceholder a) : u.Seats s p child none t := by
  have hseats := h.seats
  obtain ⟨m, n, he, hrest⟩ := id hseats
  have hnone : o = none := he.of_vacant fun a ha => by
    have ha' : ws.across s = some a := h.socket.2.2 ▸ ha
    rw [(h.occupant ha').2]
    exact hv a ha'
  subst hnone
  cases h.lodges with
  | nobody => exact hseats

/-- A real block that was in the socket is taken out of it, and a place is sought for it below the
block that took its place. That search could have been made at the start. -/
theorem of_real (h : ws.Engages s p child u v o t) (hq : ws.targetOf s = some q)
    (ha : ws.across s = some a) (hreal : ws.isPlaceholder a = false) :
    (∃ m, u.Cuts s q a m) ∧ u.Seats s p child (some ⟨a, q⟩) v ∧ Agrees child ws v ∧
      v.orphanHome child q = ws.orphanHome child q ∧ v.Settles child ⟨a, q⟩ t := by
  obtain ⟨hready, hclear⟩ := h.ready
  obtain ⟨hv, hvac, hlive⟩ := h.seated
  have hus := hready.sound
  have hseats := h.seats
  have hlodges := h.lodges
  have huq := h.socket.2.1.trans hq
  obtain ⟨hua, humark⟩ := h.occupant ha
  rw [hreal] at humark
  obtain ⟨m, n, he, hrest⟩ := id hseats
  obtain ⟨rfl, hc⟩ := he.moved_of_real huq hua humark
  obtain ⟨x, hx, hout⟩ := hready.outside hclear
  obtain ⟨x₀, hx₀, htarget⟩ := targetOf_eq_some.mp hq
  obtain ⟨yq, hyq, -⟩ := h.sound.target hx₀ htarget
  obtain ⟨yu, hyu, htu⟩ := h.frees.twins h.sound hyq
  obtain ⟨yv, hyv, htv⟩ := hseats.twins huq hua humark hyu
  have htwins : yq.Twins yv :=
    ⟨htv.block.trans htu.block, htv.kind.trans htu.kind, htv.check.trans htu.check⟩
  have hagrees : Agrees child ws v := h.agrees.trans (hseats.agrees hus huq hua humark hx hout)
  have hhome := orphanHome_congr h.sound hv hagrees h.live (h.acyclic child) (hvac child) hyq hyv htwins
  refine ⟨⟨m, hc⟩, hseats, hagrees, hhome, ?_⟩
  cases hlodges with
  | orphan hsettles => exact hsettles

/-- A real block that was in the socket has the place that was found for it, or it is a top block. -/
theorem ousted (h : ws.Engages s p child u v o t) (hq : ws.targetOf s = some q)
    (ha : ws.across s = some a) (hreal : ws.isPlaceholder a = false) :
    ws.orphanHome child q = .ok none ∧ a ∈ t.top ∧ t.graph.Loose a ∨
      ∃ c, ws.orphanHome child q = .ok (some c) ∧ t.targetOf c = some q ∧ t.targetOf q = some c ∧
        t.graph.Below a child := by
  obtain ⟨⟨m, hc⟩, hseats, hagrees, hhome, hsettles⟩ := h.of_real hq ha hreal
  obtain ⟨hv, hvac, hlive⟩ := h.seated
  have hus := h.ready.1.sound
  obtain ⟨hplug, hidle⟩ := hseats.orphan hus h.ready.1.idle
  have hloose : v.graph.Loose a := hplug.loose hv.wired hidle
  have hends := hsettles.orphan hv hlive hvac hloose
  rcases hsettles.cases hv hlive with ⟨hnone, hd⟩ | ⟨c, hsome, -, hseat⟩
  · refine Or.inl ⟨hhome.symm.trans hnone, ?_, hends.1 hnone⟩
    rw [hd.top]
    refine hseats.top_of_orphan ?_
    rintro rfl
    obtain ⟨w, z, hl, hz⟩ := hc.link
    have hroot : u.graph.Loose a := h.ready.1.poised.plugOf.loose hus.wired h.ready.1.idle
    exact hroot.not_under hus.wired ⟨s, q, w, z, hl, hz, rfl⟩
  · obtain ⟨w, z, hl, -⟩ := hseat.link
    obtain ⟨y, hy, rfl⟩ := connection_of_wire hl.socket
    obtain ⟨y', hy', rfl⟩ := connection_of_wire hl.plug
    have ht := h.linked.1
    refine Or.inr ⟨c, hhome.symm.trans hsome, (targetOf_eq hy).trans hl.down,
      (targetOf_eq hy').trans (hl.up ht.wired), hends.2 ⟨c, hsome⟩⟩

/-- The placeholder that was in the socket is gone with all that hung on it once the plug was free.
The template is its snapshot. -/
theorem replaced (h : ws.Engages s p child u v o t) (ha : ws.across s = some a)
    (hmark : ws.isPlaceholder a) :
    (∃ template, u.save a = .ok template ∧ t.templateAt s = some (some template)) ∧
      ∀ x, u.Branch a x → ¬ t.Live x := by
  have hready := h.ready.1
  have hus := hready.sound
  have hseats : u.Seats s p child none t := h.of_vacant fun a' ha' => by
    rw [ha, Option.some.injEq] at ha'
    exact ha' ▸ hmark
  obtain ⟨⟨q, m, template, hc, hsave, htemplate⟩, hgone⟩ :=
    hseats.stores hus hready.acyclic (h.occupant ha).1
  refine ⟨⟨template, ?_, htemplate⟩, hgone⟩
  obtain ⟨w, z, hl, rfl⟩ := hc.link
  have hagrees : Agrees z.block u m := hc.agrees hus fun y hy =>
    outside_of_link hl hready.acyclic hy
  rw [← hsave]
  exact (save_congr hus (hc.sound hus) hagrees (hready.acyclic _)
    (hc.acyclic hus hready.acyclic _)).symm

/-- The socket that the plug was in is neither the one that it was put into nor in the branch of its
block. -/
theorem former (h : ws.Engages s p child u v o t) (hc : ws.targetOf p = some c) :
    c ≠ s ∧ c ≠ p ∧ ∃ z, ws.connections[c]? = some z ∧ z.kind.isSocket ∧
      ¬ ws.Branch child z.block := by
  obtain ⟨w, v, hm, rfl⟩ := h.poised
  obtain ⟨y, hy, rfl⟩ := connection_of_wire hm.plug
  rw [targetOf_eq hy] at hc
  obtain ⟨w', hl⟩ := Graph.link_of_plug h.sound.wired hm.plug hm.isPlug hc
  obtain ⟨z, hz, rfl⟩ := connection_of_wire hl.socket
  refine ⟨?_, hl.ne h.sound.wired, z, hz, hl.isSocket, outside_of_link hl h.acyclic hz⟩
  rintro rfl
  exact h.socket.1 ((targetOf_eq hy).trans hc)

end Engages

end Workspace

namespace Edit

variable [Scalar α] {ws t : Workspace α} {a b s p : ConnectionId} {child : BlockId}

/-- How a plug was linked to a socket. -/
theorem fit_ok (hs : ws.Sound) (hac : ws.graph.Acyclic) (hpoised : ws.graph.Poised s p child)
    (hclear : ¬ ws.Closes s p) (hrun : fit s p ws = .ok () t) (hlast : Lasts t) :
    (ws.targetOf s = some p ∧ t = ws) ∨ (ws.targetOf s ≠ some p ∧
      ∃ u v o, disconnect p ws = .ok () u ∧ ws.Engages s p child u v o t) := by
  obtain ⟨w, v, hm, rfl⟩ := id hpoised
  obtain ⟨x, hx, rfl⟩ := connection_of_wire hm.socket
  obtain ⟨y, hy, rfl⟩ := connection_of_wire hm.plug
  rw [fit_eq hx hy] at hrun
  rw [targetOf_eq hx]
  by_cases htarget : x.target = some p
  · rw [if_pos htarget] at hrun
    cases hrun
    exact Or.inl ⟨htarget, rfl⟩
  right
  rw [if_neg htarget, plugIn_eq_seat, bind_assoc] at hrun
  obtain ⟨_, u, hfree, hrun⟩ := bind_ok hrun
  obtain ⟨o, v, hseat, hlodge⟩ := bind_ok hrun
  have hlastv : Lasts v := by
    cases o with
    | none =>
      cases hlodge
      exact hlast
    | some o =>
      exact (resettle_keeps (X := ∅) (Editor.stable_true (α := α)) y.block o).lasts hlodge hlast
  have hlastu : Lasts u := (seat_leads u s p y.block).lasts hseat hlastv
  have hfrees : ws.Frees p u := (disconnect_frees hs p).ok hfree hlastu rfl
  have hapt := hfrees.apt hs hpoised
  have hseats : u.Seats s p y.block o v := (seat_leads u s p y.block).ok hseat hlastv ⟨rfl, hapt⟩
  refine ⟨htarget, u, v, o, hfree, hs, hac, hpoised, hclear, ?_, hfrees, hseats, ?_⟩
  · rwa [targetOf_eq hx]
  cases o with
  | none =>
    cases hlodge
    exact .nobody
  | some o =>
    obtain ⟨hready, hclear'⟩ := hfrees.ready hs hac hpoised hclear
    obtain ⟨hv, -, hlive, -⟩ := hseats.seated hready hclear'
    exact .orphan ((resettle_tells v y.block o).ok hlodge hlast
      ⟨rfl, ⟨hv, hlive⟩, hseats.orphan hapt.sound hapt.idle⟩)

/-- Two ends that were linked are a socket and a plug. -/
theorem connect_ok (hrun : connect a b ws = .ok () t) :
    ∃ s p child, (s = a ∧ p = b ∨ s = b ∧ p = a) ∧ ws.graph.Poised s p child ∧
      fit s p ws = .ok () t := by
  have hon : ws.canConnect a b = .ok true := by
    by_contra hoff
    obtain ⟨e, he⟩ := connect_unfit hoff
    rw [he] at hrun
    cases hrun
  obtain ⟨x, y, hx, hy, -⟩ := canConnect_eq_ok hon
  obtain ⟨hsocket, hplug⟩ := poised_of_canConnect hon hx hy
  rw [connect_eq hon hx] at hrun
  cases hk : x.kind.isSocket with
  | true =>
    rw [if_pos hk] at hrun
    exact ⟨a, b, y.block, Or.inl ⟨rfl, rfl⟩, hsocket hk, hrun⟩
  | false =>
    rw [if_neg (by rw [hk]; exact Bool.false_ne_true)] at hrun
    have hkp : x.kind.isPlug := by
      rw [ConnectionKind.isPlug_eq_not, hk]
      rfl
    exact ⟨b, a, x.block, Or.inr ⟨rfl, rfl⟩, hplug hkp, hrun⟩

end Edit

end BlockEditor
