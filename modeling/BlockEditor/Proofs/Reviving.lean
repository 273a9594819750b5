import BlockEditor.Proofs.Cancelling
import BlockEditor.Proofs.Workspace.Frames

/-!
# Placeholders that can be built again

The copy of a block takes the place of the placeholder that its socket had got by then. The socket
keeps the snapshot of that placeholder, and from the snapshot it can be built again when the copy
goes.
-/

namespace BlockEditor

open Workspace

variable {α : Type}

namespace Workspace

variable {r : Registry} {ws real t u v w : Workspace α} {x y z k : BlockId} {b : Block α}
  {c s p q : ConnectionId} {heal : Bool}

/-- If the socket has a template, then that is the snapshot of a placeholder that suits it. -/
def Revives (r : Registry) (ws : Workspace α) (s : ConnectionId) : Prop :=
  ∀ y template, ws.connections[s]? = some y → y.template = some template →
    template.Genuine α r ∧ template.placeholder ∧ r.Suits y.kind y.check template.typeName

theorem Revives.carry (h : ws.Revives r s) (hc : ∀ y', t.connections[s]? = some y' →
    ∃ y, ws.connections[s]? = some y ∧ y.kind = y'.kind ∧ y.check = y'.check ∧
      y.template = y'.template) : t.Revives r s := by
  intro y' template hy' htemplate
  obtain ⟨y, hy, hkind, hcheck, hsame⟩ := hc y' hy'
  obtain ⟨hgenuine, hmark, hsuits⟩ := h y template hy (hsame.trans htemplate)
  exact ⟨hgenuine, hmark, hkind ▸ hcheck ▸ hsuits⟩

theorem Revives.drifts (h : ws.Revives r s) (hd : ws.Drifts t) : t.Revives r s :=
  h.carry fun _ hy' => by
    obtain ⟨y, hy, he⟩ := hd.symm_connection hy'
    exact ⟨y, hy, congrArg (fun u : Connection Unit => u.kind) he,
      congrArg (fun u : Connection Unit => u.check) he,
      congrArg (fun u : Connection Unit => u.template) he⟩

theorem Revives.cuts (h : ws.Revives r s) (hc : ws.Cuts c p x t) : t.Revives r s :=
  h.carry fun y' hy' => by
    rw [hc.connections, Option.map_eq_some_iff] at hy'
    obtain ⟨y, hy, rfl⟩ := hy'
    refine ⟨y, hy, ?_⟩
    split <;> exact ⟨rfl, rfl, rfl⟩

theorem Revives.fells (h : ws.Revives r s) (hf : ws.Fells x t) : t.Revives r s :=
  h.carry fun y' hy' => by
    obtain ⟨b, R, -, hl, -⟩ := hf.step
    obtain ⟨-, y, hy, rfl⟩ := hl.old_connection hy'
    exact ⟨y, hy, rfl, rfl, rfl⟩

theorem Standard.cuts [Scalar α] (h : ws.Standard r) (hc : ws.Cuts s p x t) : t.Standard r where
  sound := hc.sound h.sound
  shaped := stable_shaped.cuts (X := ∅) h.sound hc h.shaped
  registry := hc.registry.trans h.registry

theorem Standard.fells [Scalar α] (h : ws.Standard r) (hf : ws.Fells x t) : t.Standard r := by
  obtain ⟨b, R, hb, hl, hseals⟩ := hf.step
  exact ⟨hl.sound h.sound, stable_shaped.prunes (X := ∅) h.sound hb hl hseals h.shaped,
    hl.registry.trans h.registry⟩

theorem placeholder_of_save (hs : ws.Sound) (ht : ws.graph.Tame x) (hb : ws.blocks[x]? = some b)
    {template : Snapshot} (h : ws.save x = .ok template) : template.placeholder = b.placeholder := by
  obtain ⟨entries, next, -, -, rfl⟩ := (hs.save_eq_ok ht hb).mp h
  rfl

theorem Parted.socket_old {C : Set ConnectionId} (h : ws.Parted C s p x v) (hs : ws.Sound) :
    s.index.toNat < ws.ids.connections := by
  obtain ⟨u, hc, -⟩ := h.cut
  obtain ⟨w, z, hl, -⟩ := hc.link
  obtain ⟨y, hy, -⟩ := connection_of_wire hl.socket
  exact hs.connectionIds hy

/-- What belongs to a block that stands in for another one is new. -/
theorem Parted.owner_new {e : Connection α} (h : ws.Parted {s} s p x v) (hs : ws.Sound)
    (hc : v.Cuts s q z u) (he : u.connections[c]? = some e) (hbranch : u.Branch z e.block) :
    ws.ids.connections ≤ c.index.toNat := by
  obtain ⟨u₀, hc₀, hext, hsp⟩ := h.cut
  have hu₀ := hc₀.sound hs
  have hu := hc.sound h.sound
  obtain ⟨w, l, hl, rfl⟩ := hc.link
  have hnew : u₀.ids.blocks ≤ l.block.index.toNat := by
    rw [hc₀.ids]
    exact (h.stopgap _ (across_of_link hl)).2
  have hcut := hext.cuts hu₀ hc (fun hq => hl.ne h.sound.wired (Eq.symm hq)) hnew
  rw [Set.insert_eq_of_mem (Set.mem_singleton s)] at hcut
  have howner := hcut.branch_new_of_free hu₀ hu
    (by rintro _ rfl; exact hc.targetOf_socket) hnew hbranch
  rw [hc₀.ids] at howner
  refine Nat.le_of_not_lt fun hlt => Nat.not_lt_of_le howner ?_
  by_cases hcs : c = s
  · subst hcs
    obtain ⟨w₀, z₀, hl₀, -⟩ := hc₀.link
    obtain ⟨target, hw⟩ := ((hc₀.spares.trans hsp).trans hc.spares) c w₀ hl₀.socket
    obtain ⟨e₀, he₀, rfl⟩ := connection_of_wire hl₀.socket
    obtain ⟨b₀, hb₀, -⟩ := hs.owner he₀
    rw [wire_of_connection he, Option.some.injEq] at hw
    rw [show e.block = e₀.block from congrArg Wire.block hw]
    exact hs.blockIds hb₀
  · rw [← hc₀.ids] at hlt ⊢
    exact hcut.owner_old hu₀ hcs hlt he

theorem Evicts.ids {o : Option Edit.Orphan} (h : ws.Evicts s o t) : t.ids = ws.ids := by
  cases h with
  | free => rfl
  | stored hc _ _ _ hl _ he => rw [he.rest, hl.ids, hc.ids]
  | moved hc => exact hc.ids

theorem Seats.ids {o : Option Edit.Orphan} (h : ws.Seats s p k o t) : t.ids = ws.ids := by
  obtain ⟨u, v, hev, ht, hstep⟩ := h
  rw [hstep.ids, ht.ids, hev.ids]

theorem Revives.ties (h : ws.Revives r s) (ht : ws.Ties c p x t) : t.Revives r s :=
  h.carry fun y' hy' => by
    rw [ht.connections, Option.map_eq_some_iff] at hy'
    obtain ⟨y, hy, rfl⟩ := hy'
    refine ⟨y, hy, ?_⟩
    split
    · exact ⟨rfl, rfl, rfl⟩
    · split <;> exact ⟨rfl, rfl, rfl⟩

/-- The snapshot of a placeholder that stands in for a block is left to its socket. -/
theorem Evicts.revives [Scalar α] (h : v.Evicts s none t) (hv : v.Standard r) (hs : ws.Sound)
    (hparted : ws.Parted {s} s p x v) (hwhole : v.Whole {c | c.index.toNat < ws.ids.connections})
    (hstocked : v.Stocked s) : t.Revives r s := by
  cases h with
  | @free e he hfree =>
    intro y template hy htemplate
    obtain rfl := Option.some.inj (he.symm.trans hy)
    have htaken := (hstocked e he).mpr (by rw [htemplate]; rfl)
    rw [hfree] at htaken
    cases htaken
  | @stored q z b template R u _ hc hb hmark hsave hloses _ hendow =>
    have hu := hv.cuts hc
    have htame : u.graph.Tame z := hc.acyclic hv.sound hparted.acyclic z
    have hrecords : u.Records z template := by
      refine ⟨htame, fun c e he hbranch => ?_, hsave⟩
      have hnew := hparted.owner_new hs hc he hbranch
      refine (stable_whole.cuts hv.sound hc hwhole) c fun hc' => ?_
      refine Nat.not_lt_of_le hnew ?_
      rcases hc' with rfl | hold
      · exact hparted.socket_old hs
      · exact hold
    intro y template' hy htemplate
    obtain ⟨w, l, hl, rfl⟩ := id hc.link
    obtain ⟨e, he, rfl⟩ := connection_of_wire hl.socket
    obtain ⟨e', he', rfl⟩ := Option.map_eq_some_iff.mp ((hendow.connections s).symm.trans hy)
    rw [if_pos rfl] at htemplate ⊢
    obtain rfl : template = template' := Option.some.inj htemplate
    obtain ⟨-, e₁, he₁, rfl⟩ := hloses.old_connection he'
    rw [hc.connections, he, Option.map_some, if_pos (Or.inl rfl), Option.some.injEq] at he₁
    subst he₁
    obtain ⟨b', hb', htype⟩ := typeName_of_save hu.sound htame hsave
    refine ⟨⟨u, _, hu, hrecords⟩, ?_, ?_⟩
    · rw [placeholder_of_save hu.sound htame hb hsave]
      exact hmark
    · have hsuits : r.Suits e.kind e.check b'.typeName :=
        hv.suits he hl.isSocket (across_of_link hl) (hc.blocks ▸ hb')
      rw [htype]
      exact hsuits

/-- A socket is there when what was in it is disposed, for it does not hang on that block itself. -/
theorem Fells.socket (hf : u.Fells x t) (hc : ws.Cuts s p x u) (hs : ws.Sound)
    (hac : ws.graph.Acyclic) : ∃ y, ws.connections[s]? = some y ∧
      t.connections[s]? = some { y with target := none } := by
  obtain ⟨w, v, hl, rfl⟩ := hc.link
  obtain ⟨y, hy, rfl⟩ := connection_of_wire hl.socket
  obtain ⟨b, R, -, hloses, -⟩ := hf.step
  have hy' := hc.connections s
  rw [hy, Option.map_some, if_pos (Or.inl rfl)] at hy'
  have halive : u.dead (([] : List Input).filterMap (·.connection)) R s = false := by
    refine Bool.eq_false_iff.mpr fun hdead => ?_
    rcases (dead_iff hy').mp hdead with hgone | hmem
    · cases hgone
    · exact outside_of_link hl hac hy ((hloses.below _ hmem).mono fun _ _ hu => hc.under_of hs hu)
  refine ⟨y, hy, ?_⟩
  rw [hloses.connections, halive, hy']
  rfl

/-- Where a copy is left, the placeholder that it has replaced can be built again. -/
theorem Leaves.revives [Scalar α] (h : real.Leaves heal s p x k t) (hw : real.Standard r)
    (hac : real.graph.Acyclic) (hb : real.blocks[x]? = some b)
    (hsocket : b.output.bind real.targetOf = some s) (hlast : Lasts t) : t.Revives r s := by
  obtain ⟨u, v, q, w, b', ⟨hpull, hparted, hrun⟩, hf, hv, ⟨snapshot, hrestore⟩, hseat, hb', rfl⟩ :=
    h.steps
  obtain ⟨p', hwaits⟩ := hpull.waits hw.sound hac hb hsocket
  have hparted' := hparted.extend hf.extend hv (hf.acyclic hv hparted.acyclic)
  obtain ⟨y, hy⟩ := hwaits.connection
  have hstocked := hwaits.stocked.extend hwaits.sound hf.extend hy
  have hlast' : Lasts v := by
    rw [lasts_workspace] at hlast ⊢
    rw [← hseat.ids]
    exact hlast
  -- what `J` says is kept while the block is pulled out and the copy is built
  have kept : ∀ {X : Set ConnectionId} {J : Set ConnectionId → Workspace α → Prop},
      Stable False J → J X real → J X v := by
    intro X J hJ hreal
    have hbuilt := Edit.restore_keeps (X := X) hJ snapshot u
    rw [hrestore] at hbuilt
    obtain ⟨hlast, hbuilt⟩ := hbuilt hlast'
    exact (hbuilt ((Edit.pullOut_keeps (X := X) hJ x heal).ok hrun hlast ⟨hw.sound, hreal⟩)).keeps
  have hstandard : v.Standard r := ⟨hv, kept (X := ∅) stable_shaped hw.shaped,
    kept (X := ∅) (Editor.stable_registry r) hw.registry⟩
  obtain ⟨u₁, v₁, hev, ht, hstep⟩ := hseat
  have hrevives := hev.revives hstandard hw.sound hparted' (kept stable_whole hw.sound.whole_old)
    hstocked
  exact ((hrevives.ties ht).drifts hstep.drifts).carry fun y hy => ⟨y, hy, rfl, rfl, rfl⟩

end Workspace

namespace Edit

variable [Scalar α] {r : Registry} {ws u t v w : Workspace α} {x k : BlockId} {b : Block α}
  {c s q : ConnectionId} {d : DragSession α} {heal : Bool}

/-- A placeholder that can be built again is built again. -/
theorem respawn_revives (hdistinct : r.Distinct) (hw : ws.Standard r)
    (hlive : ∃ y, ws.connections[s]? = some y) (h : ws.Revives r s) :
    Leads (· = ws) (respawn s) (fun _ => ws.Refills s) fun _ => False := by
  obtain ⟨y, hy⟩ := hlive
  have hrefills := respawn_keeps (X := ∅) Editor.growing_true ws s
  have hask : (query (·.connection s) : Edit α (Connection α)) ws = .ok y ws := by
    simp only [query, connection_eq_ok.mpr hy]
  have haccepted : Leads (· = ws) (respawn s) (fun _ _ => True) fun _ => False := by
    by_cases hfree : y.isConnected
    · refine Tells.congr hrefills (Leads.pure (a := none) fun _ _ => trivial) fun _ ht => ht ▸ ?_
      exact (bind_eq hask).trans (by rw [if_pos hfree])
    cases htemplate : y.template with
    | none =>
      refine Tells.congr hrefills (Leads.pure (a := none) fun _ _ => trivial) fun _ ht => ht ▸ ?_
      exact (bind_eq hask).trans (by rw [if_neg hfree, htemplate])
    | some template =>
      obtain ⟨hgenuine, hmark, hsuits⟩ := h y template hy htemplate
      have hbuild : (build template true : Edit α BlockId) = build template false := by
        rw [← build_placeholder, hmark]
      have hnone : y.target = none := by simpa [Connection.isConnected] using hfree
      have hmake : Leads (· = ws) (do
          let placeholder ← build template false
          hang s placeholder
          return some placeholder) (fun _ _ => True) fun _ => False := by
        refine Leads.bind ((build_copies hdistinct template hgenuine ws).pre fun _ h => ⟨h, hw⟩)
          fun child => ?_
        refine Leads.bind (Q := fun _ _ => True) (Tells.each (hang_leads ws s child)
          fun u hcopied => ?_) fun _ => Leads.pure fun _ h => h
        exact (hang_copied hw hy hnone hsuits hcopied).post fun _ _ _ => trivial
      refine Tells.congr hrefills hmake fun _ ht => ht ▸ ?_
      exact (bind_eq hask).trans (by rw [if_neg hfree, htemplate, ← hbuild])
  refine (hrefills.and haccepted).weaken ?_ (fun _ _ h => h.1.2) fun _ h => h.2
  rintro _ rfl
  exact ⟨⟨rfl, hw.sound, trivial⟩, rfl⟩

/-- When the copy goes, the placeholder that it has replaced comes back. -/
theorem respawn_copied {t' : Workspace α} (hdistinct : r.Distinct) (hw : w.Standard r)
    (hac : w.graph.Acyclic) (h : w.Revives r s) (hhangs : w.graph.Hangs s k) (hc : w.Cuts c q k t)
    (hf : t.Fells k t') : Leads (· = t') (respawn c) (fun _ => t'.Refills c) fun _ => False := by
  obtain ⟨p, v, l, hl, rfl⟩ := hhangs
  obtain ⟨v', l', hl', hk⟩ := hc.link
  obtain rfl := hl.same_socket hw.sound.wired hl' hk.symm
  refine respawn_revives hdistinct ((hw.cuts hc).fells hf) ?_ ((h.cuts hc).fells hf)
  obtain ⟨y, -, hy⟩ := hf.socket hc hw.sound hac
  exact ⟨_, hy⟩

end Edit

/-! ### Back to where a block lay -/

namespace Scalar

variable [Scalar α]

/-- What is finite less itself is nothing. That holds of doubles and of exact numbers. -/
def SubSelf (α : Type) [Scalar α] : Prop :=
  ∀ a : α, isFinite a → same (a - a) 0

theorem isFinite_clamp {low high a : α} (hlow : isFinite low) (hhigh : isFinite high)
    (ha : isFinite a) : isFinite (clamp low high a) := by
  unfold clamp
  dsimp only
  split_ifs <;> assumption

end Scalar

variable [Scalar α]

theorem Point.same_sub_self (hsub : Scalar.SubSelf α) {p : Point α} (hp : p.isFinite) :
    (p - p).same Point.origin := by
  rw [Point.isFinite, Bool.and_eq_true] at hp
  change (Scalar.same (p.x - p.x) 0 && Scalar.same (p.y - p.y) 0) = true
  rw [hsub p.x hp.1, hsub p.y hp.2]
  rfl

/-- All sides of the rectangle are finite. -/
def Rect.IsFinite (r : Rect α) : Prop :=
  (Scalar.isFinite r.left ∧ Scalar.isFinite r.right) ∧
    Scalar.isFinite r.top ∧ Scalar.isFinite r.bottom

theorem Rect.IsFinite.clamp {r : Rect α} (h : r.IsFinite) {p : Point α} (hp : p.isFinite) :
    (r.clamp p).isFinite := by
  rw [Point.isFinite, Bool.and_eq_true] at hp ⊢
  exact ⟨Scalar.isFinite_clamp h.1.1 h.1.2 hp.1, Scalar.isFinite_clamp h.2.1 h.2.2 hp.2⟩

namespace Edit

variable {t : Workspace α} {x : BlockId} {b : Block α} {d : DragSession α}

/-- A block that is moved to where it lies stays there. -/
theorem moveTo_self (hsub : Scalar.SubSelf α) (hb : t.blocks[x]? = some b)
    (hfinite : b.position.isFinite) (reason : String) :
    ∃ log, moveTo x b.position reason t = .ok () { t with events := log } := by
  have hfine : requireFinite b.position t = .ok () t := by
    unfold requireFinite
    rw [if_pos hfinite]
    rfl
  have hstay : translate x (b.position - b.position) t = .ok () t := by
    unfold translate
    rw [if_pos (Point.same_sub_self hsub hfinite)]
    rfl
  unfold moveTo
  rw [bind_eq hfine, bind_eq (query_block hb), bind_eq hstay]
  exact ⟨_, rfl⟩

/-- A block that lies where its drag has started, at a finite place, goes back there. -/
theorem goBack_roams (hsub : Scalar.SubSelf α) (hs : t.Sound) (hb : t.blocks[d.block]? = some b)
    (hplace : b.position = d.start) (hfinite : d.start.isFinite)
    (hview : ∀ r, t.viewport = some r → r.IsFinite) :
    Leads (· = t) (goBack d) (fun _ => t.Drifts) fun _ => False := by
  obtain ⟨log, hmove⟩ := moveTo_self hsub hb (hplace ▸ hfinite) "drag"
  rw [hplace] at hmove
  have hd : t.Drifts { t with events := log } := drifts_aside t log t.tasks
  have hl : t.Live d.block := ⟨b, hb⟩
  have hopen : goBack d t =
      (do let _ ← keepInView d.block : Edit α Unit) { t with events := log } := bind_eq hmove
  refine Tells.resume (goBack_wanders hs hl) hopen ?_
  refine Leads.bind (Q := fun _ => t.Drifts) ?_ fun _ => Leads.pure fun _ h => h
  rcases keepInView_cases (hd.sound hs) (show _ = some b from hb) with hstay | ⟨r, hr, haside⟩
  · refine Tells.of_result (keepInView_wanders hs hl) ?_
    rintro _ rfl
    rw [hstay]
    exact hd
  · have hclamp := (hview r hr).clamp (hplace ▸ hfinite)
    have hbump : Leads (· = { t with events := log })
        (do moveTo d.block (r.clamp b.position) "bump"; return true : Edit α Bool)
        (fun _ => t.Drifts) fun _ => False := by
      refine Leads.bind ((moveTo_roams hs hl hclamp "bump").pre ?_) fun _ => Leads.pure fun _ h => h
      rintro _ rfl
      exact hd
    refine Tells.congr (keepInView_wanders hs hl) hbump ?_
    rintro _ rfl
    exact haside

end Edit

namespace Editor

open Act

variable {r : Registry} {e e₁ : Editor α} {locations : List (Point α)} {block target : BlockId}
  {heal : Bool}

/-- Where a copy has been left, it can be replaced by the placeholder that it has replaced. -/
theorem respawn_loosened {u v w : Workspace α} {b : Block α} {s₀ d : DragSession α}
    (hdistinct : r.Distinct) (hu : u.Standard r) (hac : u.graph.Acyclic)
    (hb : u.blocks[s₀.block]? = some b) (hcopy : s₀.copy = none)
    (hloosened : u.Loosened b heal s₀ d v) (hd : v.Drifts w) (hw : w.Standard r) (hlast : Lasts w)
    {k : BlockId} (hk : d.copy = some k) {c q : ConnectionId} {t t' : Workspace α}
    (hc : w.Cuts c q k t) (hf : t.Fells k t') :
    Leads (· = t') (Edit.respawn c) (fun _ => t'.Refills c) fun _ => False := by
  cases hloosened with
  | still => cases hcopy.symm.trans hk
  | @detached keeps d₀ _ real _ _ _ hprimed hout =>
    have hx : d₀.block = s₀.block := by
      rw [hprimed.session]
    generalize hcopied : copySocket u b keeps = copied at hout
    cases hout with
    | bare =>
      have hnone : d.copy = none := by
        rw [hprimed.session]
        exact hcopy
      cases hnone.symm.trans hk
    | @copied s p _ _ hleaves =>
      obtain rfl := Option.some.inj hk
      rw [copySocket] at hcopied
      split at hcopied
      case isFalse => cases hcopied
      next hon =>
      rw [Bool.and_eq_true, Bool.not_eq_true'] at hon
      -- a placeholder leaves no copies
      have hreal : real = u := by
        cases hprimed.bares with
        | real => rfl
        | told hp => cases hon.2.symm.trans hp
        | given hp => cases hon.2.symm.trans hp
      subst hreal
      rw [hx] at hleaves
      have hlast' : Lasts v := by
        rw [lasts_workspace] at hlast ⊢
        rw [← hd.ids]
        exact hlast
      obtain ⟨p', base, -, haway⟩ := hleaves.astray hu.sound hac hb hcopied
      exact Edit.respawn_copied hdistinct hw (hd.graph ▸ haway.acyclic)
        ((hleaves.revives hu hac hb hcopied hlast').drifts hd) (hd.graph ▸ hleaves.hangs) hc hf

/-- Among blocks made after the built-in definitions, a drag that has started can be cancelled after
any number of steps. The same blocks are there then and look the same, with the same links and in the
same order at the top; but a block that did not have to be detached has no decision on copies. -/
theorem cancelDrag_undoes (hsub : Scalar.SubSelf α) (hw : e.workspace.Standard Palette.registry)
    (hac : e.workspace.graph.Acyclic) (hroot : e.workspace.Rooted)
    (hplaces : ∀ (x : BlockId) b, e.workspace.blocks[x]? = some b → b.position.isFinite)
    (hview : ∀ r, e.workspace.viewport = some r → r.IsFinite)
    (hpick : pickUp block heal e = .ok target e₁)
    (hlast : Lasts ((e₁.run (locations.map .dragTo)).after .cancelDrag)) :
    ∃ e₂, cancelDrag (e₁.run (locations.map .dragTo)) = .ok () e₂ ∧
      (e.workspace.HasToDetach target heal → e.workspace.Resembles Set.univ e₂.workspace) ∧
      (¬ e.workspace.HasToDetach target heal →
        (e.workspace.withOverride target none).Resembles Set.univ e₂.workspace) := by
  have hsteps : Lasts (e₁.run (locations.map .dragTo)) := lasts_of_after hlast
  have hpicked : Lasts e₁ := lasts_of_run hsteps
  have kept : ∀ {J : Set ConnectionId → Workspace α → Prop}, Stable False J → J Set.univ e.workspace →
      Steady J Set.univ e₁.workspace := by
    intro J hJ he
    exact (pickUp_keeps hJ block heal).ok hpick hpicked ⟨hw.sound, he⟩
  have hend : e₁.workspace.Standard Palette.registry :=
    ⟨(kept stable_shaped hw.shaped).sound, (kept stable_shaped hw.shaped).keeps,
      (kept (stable_registry Palette.registry) hw.registry).keeps⟩
  obtain ⟨-, offset, b, d, u, v, hgrasps, hrelog, hb, hloosened, hd, hsession⟩ :=
    (pickUp_tells hw.sound hac hroot block heal).ok hpick hpicked rfl
  have hgoes : Goes e₁.workspace d (e₁.run (locations.map .dragTo)) :=
    run_goes ⟨rfl, d, hsession, rfl⟩ hsteps
  have hreturns := cancelDrag_returns (F := False) hw.sound hac hroot hgrasps hrelog hb hloosened hd
    hend.sound (kept stable_rooted hroot).keeps (fun k hk c q t t' hc hf => ?_)
    fun hnone t ht hl hsame hlies => ?_
  · have hafter : ∀ e₂, (e₁.run (locations.map .dragTo)).after .cancelDrag = e₂ → Lasts e₂ :=
      fun e₂ h => h ▸ hlast
    cases hcancel : (cancelDrag : Act α Unit) (e₁.run (locations.map .dragTo)) with
    | ok _ e₂ =>
      have hreturned := hreturns.ok hcancel (hafter e₂ (by simp only [after, perform, hcancel])) hgoes
      exact ⟨e₂, rfl, hreturned.detached, hreturned.still⟩
    | error refusal e₂ =>
      exact (hreturns.error hcancel (hafter e₂ (by simp only [after, perform, hcancel])) hgoes).elim
  · obtain ⟨log, rfl⟩ := hrelog
    exact respawn_loosened Palette.registry_distinct
      ⟨(drifts_aside e.workspace log e.workspace.tasks).sound hw.sound,
        hw.shaped.congr rfl rfl rfl, hw.registry⟩ hac hb rfl hloosened hd.toDrifts hend hpicked
      hk hc hf
  · obtain ⟨b', hb', hplace⟩ := hlies hnone
    have hfinite : d.start.isFinite := by
      obtain ⟨log, rfl⟩ := hrelog
      rw [hloosened.start]
      exact hplaces target b hb
    exact Edit.goBack_roams hsub ht hb' hplace hfinite (hsame ▸ hview)

/-- A number that is returned. Its socket has a template, and it leaves copies. -/
def numberCopied : Editor Int :=
  (fresh .standard Palette.registry).run [.newBlock "Return", .newBlock "int", .connect ⟨1⟩ ⟨2⟩,
    .setTemplate ⟨1⟩ (some (.ofType "int")), .setCopyOnDrag ⟨1⟩ (some true)]

/-- The number is picked up, and a copy stays. -/
def numberCopiedHeld : Editor Int :=
  (pickUp ⟨1⟩ false : Act Int BlockId).leaves numberCopied

/-- The number goes back, and everything is as it was. -/
theorem cancelDrag_undoes_copy : ∃ e₂,
    cancelDrag (numberCopiedHeld.run ([(⟨40, 40⟩ : Point Int)].map .dragTo)) = .ok () e₂ ∧
      numberCopied.workspace.Resembles Set.univ e₂.workspace := by
  have hpick : pickUp ⟨1⟩ false numberCopied = .ok ⟨1⟩ numberCopiedHeld :=
    eq_ok_of_answer (by decide +kernel)
  have hsub : Scalar.SubSelf Int := fun a _ => decide_eq_true (Int.sub_self a)
  have hlast : Lasts numberCopied := by decide +kernel
  have hparent : numberCopied.workspace.parent ⟨1⟩ = .ok (some ⟨0⟩) := by decide +kernel
  have hend : Lasts ((numberCopiedHeld.run ([(⟨40, 40⟩ : Point Int)].map .dragTo)).after .cancelDrag) := by
    decide +kernel
  obtain ⟨e₂, hcancel, hdetached, -⟩ := cancelDrag_undoes hsub
    (run_standard (create_fresh (by decide)) hlast) (acyclic_of_ordered (by decide +kernel))
    (run_rooted Palette.registry_onePlug (create_fresh (by decide)) hlast) (fun _ _ _ => rfl)
    (fun _ _ => ⟨⟨rfl, rfl⟩, rfl, rfl⟩) hpick hend
  exact ⟨e₂, hcancel, hdetached (.child hparent)⟩

/-- A number that leaves copies. -/
def numberAlone : Editor Int :=
  (fresh .standard Palette.registry).run [.newBlock "int", .setCopyOnDrag ⟨0⟩ (some true)]

def numberAloneHeld : Editor Int :=
  (pickUp ⟨0⟩ false : Act Int BlockId).leaves numberAlone

def numberAloneBack : Editor Int :=
  (cancelDrag : Act Int Unit).leaves (numberAloneHeld.run ([].map .dragTo))

/-- It leaves none of its own accord any more after a drag that was cancelled. -/
theorem cancelDrag_undoes_less :
    pickUp ⟨0⟩ false numberAlone = .ok ⟨0⟩ numberAloneHeld ∧
      cancelDrag (numberAloneHeld.run ([].map .dragTo)) = .ok () numberAloneBack ∧
      ¬ numberAlone.workspace.Resembles Set.univ numberAloneBack.workspace := by
  refine ⟨eq_ok_of_answer (by decide +kernel), eq_ok_of_answer (by decide +kernel), fun h => ?_⟩
  have hsame := congrArg (Option.map fun b : Block Unit => b.copyOnDrag) (h.blocks ⟨0⟩)
  rw [Option.map_map, Option.map_map] at hsame
  revert hsame
  decide +kernel

end Editor

end BlockEditor
