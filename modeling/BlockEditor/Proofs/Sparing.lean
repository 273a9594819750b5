import BlockEditor.Proofs.Abandoning
import BlockEditor.Proofs.Cycles
import BlockEditor.Proofs.Drops
import BlockEditor.Proofs.Refusals

/-!
# Real blocks stay

When blocks are moved about, a placeholder that is in the way is taken out with everything below it.
No other block is lost.
-/

namespace BlockEditor

open Workspace

variable {α : Type}

namespace Workspace

variable {ws t u v : Workspace α} {x z child : BlockId} {c s p : ConnectionId}
  {o : Option Edit.Orphan} {C : Set ConnectionId}

/-- What was live is live. -/
def Stays (ws t : Workspace α) : Prop :=
  ∀ x, ws.Live x → t.Live x

namespace Stays

theorem refl (ws : Workspace α) : ws.Stays ws :=
  fun _ => id

theorem trans (h : ws.Stays u) (h' : u.Stays t) : ws.Stays t :=
  fun x hx => h' x (h x hx)

theorem of_blocks (h : t.blocks = ws.blocks) : ws.Stays t := by
  intro x hx
  rw [Live, h]
  exact hx

theorem of_drifts (h : ws.Drifts t) : ws.Stays t :=
  fun _ => h.live

theorem of_extends (h : Extends C ws t) (hs : ws.Sound) : ws.Stays t :=
  fun _ => h.live hs

end Stays

theorem Cuts.stays (h : ws.Cuts s p child t) : ws.Stays t :=
  .of_blocks h.blocks

theorem Cuts.stays_extend (h : ws.Cuts s p child u) (hs : ws.Sound) (he : Extends C u t) :
    ws.Stays t :=
  h.stays.trans (.of_extends he (h.sound hs))

theorem Frees.stays (h : ws.Frees c t) (hs : ws.Sound) : ws.Stays t := by
  cases h with
  | kept => exact .refl ws
  | cut _ hc hr => exact hc.stays_extend hs hr.extend

theorem Breaks.stays (h : ws.Breaks c t) (hs : ws.Sound) : ws.Stays t := by
  cases h with
  | absent => exact .refl ws
  | cut _ hc hr => exact hc.stays_extend hs hr.extend

/-! ### What goes with a placeholder -/

/-- A block goes with a placeholder that was plugged into a socket and carried the block. -/
def Evicted (ws : Workspace α) (s : ConnectionId) (x : BlockId) (t : Workspace α) : Prop :=
  ∃ z, ws.across s = some z ∧ ws.isPlaceholder z ∧ ws.Branch z x ∧ ¬ t.Live z

theorem Evicts.live (h : ws.Evicts s o t) (hs : ws.Sound) (hx : ws.Live x) :
    t.Live x ∨ ws.Evicted s x t := by
  cases h with
  | free => exact Or.inl hx
  | moved hc => exact Or.inl (hc.stays x hx)
  | @stored q z b template R u t hc hb hp hsave hl hseals hendow =>
    obtain ⟨w, y, hlink, hz⟩ := hc.link
    obtain ⟨e, he, rfl⟩ := connection_of_wire hlink.socket
    have hacross : ws.across s = some z :=
      (across_socket he hlink.isSocket).mpr ⟨q, y, hlink, hz⟩
    have hmark : ws.isPlaceholder z := by
      rw [isPlaceholder, ← hc.blocks, hb]
      exact hp
    by_cases hR : x ∈ R
    · refine Or.inr ⟨z, hacross, hmark, (hl.below x hR).mono fun _ _ => hc.under_of hs, ?_⟩
      rw [Live, hendow.blocks]
      exact not_live_removeTree u z
    · obtain ⟨b', hb'⟩ := hc.stays x hx
      exact Or.inl ⟨_, by rw [hendow.blocks, hl.kept x hR, hb']; rfl⟩

theorem Drifts.not_live (h : ws.Drifts t) (hx : ¬ ws.Live x) : ¬ t.Live x := by
  rintro ⟨b, hb⟩
  obtain ⟨b', hb', -⟩ := h.symm_block hb
  exact hx ⟨b', hb'⟩

theorem Seats.live (h : ws.Seats s p child o t) (hs : ws.Sound) (hx : ws.Live x) :
    t.Live x ∨ ws.Evicted s x t := by
  obtain ⟨u, v, he, ht, hstep⟩ := h
  rcases he.live hs hx with hlive | ⟨z, hz, hmark, hbranch, hgone⟩
  · refine Or.inl (hstep.drifts.live ?_)
    rwa [Live, ht.blocks]
  · refine Or.inr ⟨z, hz, hmark, hbranch, hstep.drifts.not_live ?_⟩
    rwa [Live, ht.blocks]

/-- What the search for a new place displaces does not carry the block below which it was made. -/
theorem Settles.live {below : BlockId} {o : Edit.Orphan} (h : ws.Settles below o t) (hs : ws.Sound)
    (hac : ws.graph.Acyclic) (hl : ws.Live below) (hx : ws.Live x) :
    t.Live x ∨ ∃ z, ws.isPlaceholder z ∧ ws.Branch z x ∧ ¬ ws.Branch z below ∧ ¬ t.Live z := by
  rcases h.cases hs hl with ⟨-, hd⟩ | ⟨c, -, hvacant, hseat⟩
  · exact Or.inl (hd.live hx)
  · obtain ⟨y, hy, hk, hbranch⟩ := hvacant.socket
    refine (hseat.live hs hx).imp_right ?_
    rintro ⟨z, hz, hmark, hzx, hgone⟩
    exact ⟨z, hmark, hzx, not_branch_of_across hac hy hk hz hbranch, hgone⟩

theorem live_of_branch (hs : ws.Sound) (hx : ws.Live x) (h : ws.Branch z x) : ws.Live z := by
  rcases h with rfl | hbelow
  · exact hx
  · exact hs.exists_of_above hbelow

/-- A placeholder that carries an old block once a plug is free has always carried it. -/
theorem Frees.carried (h : ws.Frees c t) (hs : ws.Sound) (hx : ws.Live x) (hz : t.Branch z x)
    (hmark : t.isPlaceholder z) : ws.isPlaceholder z ∧ ws.Branch z x := by
  obtain ⟨b, hb⟩ := hx
  have hold : ws.Branch z x := hz.imp_right fun hbelow => h.below_old hs (hs.blockIds hb) hbelow
  obtain ⟨b', hb'⟩ := live_of_branch hs ⟨b, hb⟩ hold
  refine ⟨?_, hold⟩
  cases h with
  | kept => exact hmark
  | cut _ hc hr =>
    rw [isPlaceholder, hr.extend.block (hc.sound hs) (by rw [hc.blocks, hb'])] at hmark
    rw [isPlaceholder, hb']
    exact hmark

/-- What carries a block now that `child` was plugged in, but does not carry `child`, has carried
the block before. -/
theorem Ties.carried (h : ws.Ties s p child u) (hs : ws.Sound) (hd : u.Drifts t)
    (hz : t.Branch z x) (hnot : ¬ t.Branch z child) : ws.Branch z x := by
  obtain ⟨w, v, hm, hw, hv, rfl⟩ := h.mates
  have hgraph : t.graph = ws.graph.tie s p := by rw [hd.graph, h.graph]
  have hunder : t.graph.Under v.block w.block := by
    rw [hgraph]
    exact (Graph.tie_link hm).under
  have hmono : ∀ {a b}, ws.graph.Below a b → t.graph.Below a b := by
    intro a b hbelow
    refine hbelow.mono fun a b hu => ?_
    rw [hgraph]
    exact Graph.under_of_tie hm hw hs.wired hv hu
  refine hz.imp_right fun hbelow => ?_
  rw [hgraph] at hbelow
  rcases Graph.below_tie hs.wired hm hw hv hbelow with hbelow | ⟨-, rfl | habove⟩
  · exact hbelow
  · exact (hnot (Or.inr (.single hunder))).elim
  · exact (hnot (Or.inr (.head hunder (hmono habove)))).elim

/-- What is gone went with a placeholder that carried it. -/
def Preserves (ws t : Workspace α) : Prop :=
  ∀ x, ws.Live x → t.Live x ∨ ∃ z, ws.isPlaceholder z ∧ ws.Branch z x ∧ ¬ t.Live z

namespace Preserves

theorem drifts (h : ws.Preserves t) (hd : t.Drifts u) : ws.Preserves u := by
  refine fun x hx => (h x hx).imp hd.live ?_
  rintro ⟨z, hmark, hz, hgone⟩
  exact ⟨z, hmark, hz, hd.not_live hgone⟩

theorem after (h : u.Preserves t) (hd : ws.Drifts u) : ws.Preserves t := by
  refine fun x hx => (h x (hd.live hx)).imp_right ?_
  rintro ⟨z, hmark, hz, hgone⟩
  exact ⟨z, by rwa [hd.isPlaceholder] at hmark, by rwa [Workspace.Branch, hd.graph] at hz, hgone⟩

end Preserves

theorem Stays.preserves (h : ws.Stays t) : ws.Preserves t :=
  fun x hx => Or.inl (h x hx)

/-- A link that closes no cycle takes nothing but placeholders away, with what they carry. -/
theorem Joins.preserves (h : ws.Joins s p t) (hs : ws.Sound) (hac : ws.graph.Acyclic)
    (hpoised : ws.graph.Poised s p child) (hclear : ¬ ws.Closes s p) : ws.Preserves t := by
  intro x hx
  cases h with
  | already => exact Or.inl hx
  | only hy hfree hseat =>
    refine (hseat.live (hfree.sound hs) (hfree.stays hs x hx)).imp_right ?_
    rintro ⟨z, -, hmark, hz, hgone⟩
    obtain ⟨hmark', hz'⟩ := hfree.carried hs hx hz hmark
    exact ⟨z, hmark', hz', hgone⟩
  | @swapped y o u v t hy hfree hseat hsettle =>
    obtain ⟨hready, hclear'⟩ := hfree.ready hs hac hpoised hclear
    obtain ⟨w, z, hm, rfl⟩ := hpoised
    have hchild : y.block = z.block :=
      congrArg Wire.block (Option.some.inj ((wire_of_connection hy).symm.trans hm.plug))
    rw [hchild] at hseat hsettle
    obtain ⟨hvs, hvac, hvl, -⟩ := hseat.seated hready hclear'
    obtain ⟨u', v', he, ht, hstep⟩ := hseat
    cases he with
    | moved hc =>
      have hxv : v.Live x := hstep.drifts.live (by
        rw [Live, ht.blocks]
        exact hc.stays x (hfree.stays hs x hx))
      refine (hsettle.live hvs hvac hvl hxv).imp_right ?_
      rintro ⟨a, hmark, ha, hnot, hgone⟩
      have hau : u.Branch a x :=
        (ht.carried (hc.sound hready.sound) hstep.drifts ha hnot).mono fun _ _ =>
          hc.under_of hready.sound
      have hsame : v.isPlaceholder a = u.isPlaceholder a := by
        rw [hstep.drifts.isPlaceholder, isPlaceholder, ht.blocks, hc.blocks, isPlaceholder]
      obtain ⟨hmark', ha'⟩ := hfree.carried hs hx hau (hsame ▸ hmark)
      exact ⟨a, hmark', ha', hgone⟩

theorem Links.preserves {a b : ConnectionId} (h : ws.Links a b t) (hs : ws.Sound)
    (hac : ws.graph.Acyclic) (hclear : ¬ ws.Closes a b) (hclear' : ¬ ws.Closes b a) :
    ws.Preserves t := by
  obtain ⟨s, p, child, ⟨rfl, rfl⟩ | ⟨rfl, rfl⟩, hpoised, hjoin⟩ := h
  · exact hjoin.preserves hs hac hpoised hclear
  · exact hjoin.preserves hs hac hpoised hclear'

/-! ### Taking a block out -/

theorem Seats.stays (h : ws.Seats s p child none t) (hs : ws.Sound)
    (hfree : ws.targetOf s = none) : ws.Stays t := by
  refine fun x hx => (h.live hs hx).resolve_right ?_
  rintro ⟨z, hz, -⟩
  rw [across, hfree] at hz
  cases hz

theorem Heals.live {next : ConnectionId} {above : Option ConnectionId}
    (h : ws.Heals next above t) (hs : ws.Sound) : ws.Stays t := by
  cases h with
  | stays => exact .refl ws
  | left hc => exact hc.stays
  | healed _ hc _ hfree hseat => exact hc.stays.trans (hseat.stays (hc.sound hs) hfree)

theorem Pulls.stays {heal : Bool} (h : ws.Pulls x heal t) (hs : ws.Sound) : ws.Stays t := by
  cases h with
  | value _ _ hf => exact hf.stays hs
  | root => exact .refl ws
  | statement _ _ _ hf => exact hf.stays hs
  | healed _ _ _ hf _ _ hheal => exact (hf.stays hs).trans (hheal.live (hf.sound hs))

theorem Jams.stays (h : ws.Jams x t) (hs : ws.Sound) : ws.Stays t := by
  cases h with
  | absent => exact .refl ws
  | stuck _ _ hbreaks => exact hbreaks.stays hs

theorem stays_insert {b : Block α} : ws.Stays { ws with blocks := ws.blocks.insert x b } := by
  rintro y ⟨b', hb'⟩
  by_cases hy : y = x
  · exact ⟨b, hy ▸ Std.ExtTreeMap.getElem?_insert_self⟩
  · exact ⟨b', by rw [getElem?_insert, if_neg hy, hb']⟩

theorem Bares.stays {b : Block α} {d : DragSession α} (h : ws.Bares b d t) : ws.Stays t := by
  cases h with
  | real => exact .refl ws
  | told => exact stays_insert
  | given _ _ _ _ _ he => exact .trans (.of_blocks he.blocks) stays_insert

theorem live_of_looks (h : (t.blocks[x]?).map Block.looks = (ws.blocks[x]?).map Block.looks)
    (hx : ws.Live x) : t.Live x := by
  obtain ⟨b, hb⟩ := hx
  rw [hb, Option.map_some, Option.map_eq_some_iff] at h
  obtain ⟨b', hb', -⟩ := h
  exact ⟨b', hb'⟩

theorem Leaves.stays [Scalar α] {heal : Bool} {k : BlockId} (h : ws.Leaves heal s p x k t) (hs : ws.Sound) :
    ws.Stays t := by
  obtain ⟨u, v, q, w, b, ⟨-, hparted, -⟩, hf, hv, -, hseat, -, rfl⟩ := h.steps
  refine .trans ?_ stays_insert
  rintro y ⟨b, hb⟩
  have hparted' := hparted.extend hf.extend hv (hf.acyclic hv hparted.acyclic)
  exact live_of_looks (hparted'.looks hs hseat (hs.blockIds hb)) ⟨b, hb⟩

theorem Recovers.stays (h : ws.Recovers C t) (hs : ws.Sound) : ws.Stays t := by
  rintro y ⟨b, hb⟩
  exact live_of_looks (h.blocks y (hs.blockIds hb)) ⟨b, hb⟩

variable {heal : Bool} {copied : Option ConnectionId} {b : Block α} {d d' s₀ : DragSession α}

theorem Withdrawn.stays [Scalar α] (h : ws.Withdrawn heal d copied d' t) (hs : ws.Sound) : ws.Stays t := by
  cases h with
  | bare hpull => exact hpull.stays hs
  | copied hleave => exact hleave.stays hs

theorem Loosened.stays [Scalar α] (h : ws.Loosened b heal s₀ d t) (hs : ws.Sound)
    (hb : ws.blocks[s₀.block]? = some b) : ws.Stays t := by
  cases h with
  | still => exact .refl ws
  | detached _ _ hprimed hout =>
    have hbare := hprimed.bares
    refine hbare.stays.trans (hout.stays (hbare.sound hs ?_))
    rw [hprimed.session]
    exact hb

/-! ### Whole steps -/

theorem Closes.drifts (h : t.Closes s p) (hd : ws.Drifts t) : ws.Closes s p := by
  obtain ⟨y, z, hy, hz, hk, hbranch⟩ := h
  obtain ⟨y', hy', hey⟩ := hd.symm_connection hy
  obtain ⟨z', hz', hez⟩ := hd.symm_connection hz
  have hkind : y'.kind = y.kind := congrArg (fun u : Connection Unit => u.kind) hey
  have hown : y'.block = y.block := congrArg (fun u : Connection Unit => u.block) hey
  have hplug : z'.block = z.block := congrArg (fun u : Connection Unit => u.block) hez
  refine ⟨y', z', hy', hz', by rw [hkind]; exact hk, ?_⟩
  rwa [hplug, hown, Workspace.Branch, ← hd.graph]

/-- A property of workspaces that does not depend on where the blocks lie. -/
def Unmoved (P : Workspace α → Prop) : Prop :=
  ∀ ⦃t u⦄, P t → t.Drifts u → P u

theorem unmoved_preserves (ws : Workspace α) : Unmoved ws.Preserves :=
  fun _ _ h hd => h.drifts hd

theorem unmoved_drifts (ws : Workspace α) : Unmoved ws.Drifts :=
  fun _ _ h hd => h.trans hd

end Workspace

namespace Edit

variable {P : Workspace α → Prop}

theorem restyle_unmoved (h : Unmoved P) (id : BlockId) {f : Block α → Block α}
    (hf : ∀ b, (f b).looks = b.looks) : Keeps P (do
      (← query (·.descendants id)).forM fun x => updateBlock x f : Edit α Unit) :=
  (query_keeps _).bind fun found => Leads.forM_list found fun _ _ =>
    Leads.updateBlock (fun _ b ht hb => h ht (drifts_insert hb (hf b))) fun _ ht _ => ht

theorem markDragging_unmoved (h : Unmoved P) (id : BlockId) (on : Bool) :
    Keeps P (markDragging id on) :=
  restyle_unmoved h id fun _ => rfl

theorem fire_unmoved (h : Unmoved P) (e : Event α) : Keeps P (fire e) :=
  Leads.fire fun t ht => h ht (drifts_aside t _ t.tasks)

variable [Scalar α]

theorem moveTo_unmoved (h : Unmoved P) (id : BlockId) (location : Point α) (reason : String) :
    Keeps P (moveTo id location reason) := by
  refine (requireFinite_keeps location).bind fun _ => (query_keeps _).bind fun b => ?_
  refine Leads.bind (Q := fun _ => P) ?_ fun _ => fire_unmoved h _
  exact Leads.ite (fun _ => Leads.pure fun _ ht => ht) fun _ => restyle_unmoved h id fun _ => rfl

theorem moveToGrid_unmoved (h : Unmoved P) (id : BlockId) : Keeps P (moveToGrid id) := by
  unfold moveToGrid
  refine get_keeps.bind fun ws => ?_
  split
  · exact Leads.pure fun _ ht => ht
  · refine Leads.ite (fun _ => Leads.pure fun _ ht => ht) fun _ => ?_
    refine (query_keeps _).bind fun _ => Leads.ite (fun _ => Leads.pure fun _ ht => ht) fun _ => ?_
    refine (query_keeps _).bind fun _ => Leads.ite (fun _ => Leads.pure fun _ ht => ht) fun _ => ?_
    exact (moveTo_unmoved h id _ _).bind fun _ => Leads.pure fun _ ht => ht

theorem connect_preserves {ws : Workspace α} (hs : ws.Sound) (hac : ws.graph.Acyclic)
    {a b : ConnectionId} (hclear : ¬ ws.Closes a b) (hclear' : ¬ ws.Closes b a) :
    Leads (· = ws) (connect a b) (fun _ => ws.Preserves) ws.Preserves := by
  have linked : ∀ t, ws.Links a b t → ws.Preserves t :=
    fun t h => h.preserves hs hac hclear hclear'
  refine (connect_links hs hac hclear hclear').weaken (fun _ h => h) (fun _ t h => linked t h) ?_
  rintro e t (rfl | ⟨p, -, hbreaks⟩ | ⟨-, h⟩)
  · exact (Stays.refl _).preserves
  · exact (hbreaks.stays hs).preserves
  · exact linked t h

end Edit

namespace Act

variable {P : Workspace α → Prop}

theorem clearVisuals_unmoved (h : Unmoved P) (block : BlockId) :
    Keeps (Within P) (clearVisuals block) :=
  clearVisuals_within (Edit.markDragging_unmoved h block false)

variable [Scalar α] {ws : Workspace α}

/-- Wherever the drag has left its block and its candidate, a drop that closes no cycle spares the
blocks that no placeholder carries. -/
theorem settle_preserves (hs : ws.Sound) (hac : ws.graph.Acyclic) (s : DragSession α)
    (hclear : ∀ c, s.candidate = some c →
      ¬ ws.Closes c.own c.neighbour ∧ ¬ ws.Closes c.neighbour c.own) (location : Point α) :
    Leads (Within ws.Drifts) (settle s location) (fun _ => Within ws.Preserves)
      (Within ws.Preserves) := by
  have still : ∀ t : Workspace α, ws.Drifts t → ws.Preserves t :=
    fun t h => (Stays.of_drifts h).preserves
  unfold settle
  refine Leads.bind ((edit_leads (Edit.moveTo_unmoved (unmoved_drifts ws) s.block location
    "drag")).refused fun e => still e.workspace) fun _ => ?_
  have aligned : ∀ outcome, Leads (Within ws.Preserves) (do
      let _ ← edit (Edit.moveToGrid s.block)
      return outcome : Act α (DragOutcome α)) (fun _ => Within ws.Preserves)
      (Within ws.Preserves) := fun outcome =>
    Leads.bind (edit_leads (Edit.moveToGrid_unmoved (unmoved_preserves ws) s.block)) fun _ =>
      Leads.pure fun _ h => h
  cases hc : s.candidate with
  | none =>
    refine (request_keeps _).bind fun _ => ?_
    exact Leads.bind (Q := fun _ => Within ws.Preserves) (Leads.pure fun e => still e.workspace) aligned
  | some c =>
    obtain ⟨hfwd, hback⟩ := hclear c hc
    refine Leads.bind (Q := fun _ => Within ws.Preserves) ?_ fun _ =>
      Leads.bind (Q := fun _ => Within ws.Preserves) (Leads.pure fun _ h => h) aligned
    unfold commit
    refine Leads.bind (Q := fun _ => Within ws.Preserves) (edit_leads ?_) fun _ => ?_
    · refine Tells.each (Edit.connect_keeps (X := ∅) (Editor.stable_true (α := α)) c.own
        c.neighbour) fun u hd => ?_
      have hafter : ∀ t, u.Preserves t → ws.Preserves t := fun t h => h.after hd
      exact (Edit.connect_preserves (hd.sound hs) (by rw [hd.graph]; exact hac)
        (fun h => hfwd (h.drifts hd)) fun h => hback (h.drifts hd)).weaken (fun _ h => h)
        (fun _ t => hafter t) hafter
    · refine (ask_keeps _).bind fun _ => (ask_keeps _).bind fun _ => ?_
      refine (ask_keeps _).bind fun _ => edit_leads (Leads.alter fun t h => h.drifts ?_)
      exact drifts_aside t t.events _

theorem dropAt_preserves (hs : ws.Sound) (hac : ws.graph.Acyclic)
    {session : Option (DragSession α)} (hclear : ∀ c, session.bind (·.candidate) = some c →
      ¬ ws.Closes c.own c.neighbour ∧ ¬ ws.Closes c.neighbour c.own)
    (requests : List (HostRequest α)) (phase : DragPhase) (location : Point α) :
    Leads (· = ⟨ws, session, requests, phase⟩) (dropAt location) (fun _ => Within ws.Preserves)
      (Within ws.Preserves) := by
  have base := dropAt_keeps (X := ∅) (Editor.stable_true (α := α)) location
  cases session with
  | none =>
    refine Tells.of_result base ?_
    rintro _ rfl
    exact (Stays.refl ws).preserves
  | some s =>
    have hsession : dropAt location ⟨ws, some s, requests, phase⟩ = (do
        fireDragEnd s.block
        clearVisuals s.block
        followedBy (settle s (location + s.offset)) closeGesture) ⟨ws, none, requests, .applying⟩ := rfl
    refine Tells.resume base hsession ?_
    refine Leads.pre (P := Within ws.Drifts) ?_ fun _ h => h ▸ Drifts.refl ws
    have refused : ∀ e, Within ws.Drifts e → Within ws.Preserves e :=
      fun _ h => (Stays.of_drifts h).preserves
    refine Leads.bind ((fireDragEnd_roams s.block).refused fun _ h => h.elim) fun _ => ?_
    refine Leads.bind ((clearVisuals_unmoved (unmoved_drifts ws) s.block).refused refused) fun _ => ?_
    have after := closeGesture_drifts (P := ws.Preserves) fun t u h hd => h.drifts hd
    exact followedBy_tells (settle_preserves hs hac s hclear _) (fun _ => after) fun _ => after

theorem pickUp_preserves {e : Editor α} (hs : e.workspace.Sound)
    (hac : e.workspace.graph.Acyclic) (hroot : e.workspace.Rooted) (block : BlockId) (heal : Bool) :
    Leads (· = e) (pickUp block heal) (fun _ => Within e.workspace.Preserves)
      (Within e.workspace.Preserves) := by
  refine (pickUp_tells hs hac hroot block heal).weaken (fun _ h => h) ?_ ?_
  · rintro target t ⟨-, offset, b, s, u, v, -, ⟨log, rfl⟩, hb, hloosened, hd, -⟩
    have hrelog : e.workspace.Drifts { e.workspace with events := log } :=
      drifts_aside e.workspace log e.workspace.tasks
    have hstays := (Stays.of_drifts hrelog).trans (hloosened.stays (hrelog.sound hs) hb)
    exact (hstays.trans (.of_drifts hd.toDrifts)).preserves
  · exact fun t h => (h.1.stays hs).preserves

end Act

namespace Editor

open Act

section Moved

variable [Scalar α] {config : EditorConfig α} {registry : Registry} {e : Editor α}
  {actions : List (Action α)} {a : Action α}

/-- An action moves blocks about, and links no block below itself. -/
def Moves (e : Editor α) : Action α → Prop
  | .connect p q => ¬ e.workspace.Closes p q ∧ ¬ e.workspace.Closes q p
  | .dropAt _ => ∀ c, e.candidate = some c →
      ¬ e.workspace.Closes c.own c.neighbour ∧ ¬ e.workspace.Closes c.neighbour c.own
  | .disconnect _ | .pullOut .. | .pickUp .. | .dragTo _ => True
  | _ => False

/-- Whatever blocks are moved about, and whether that is refused or not, the blocks that are no
placeholders and that no placeholder carries stay. -/
theorem moves_preserve (hone : registry.OnePlug) (hstart : create config registry = .ok e)
    (hacyclic : (e.run actions).workspace.graph.Acyclic) (ha : (e.run actions).Moves a)
    (hlast : Lasts ((e.run actions).after a)) :
    (e.run actions).workspace.Preserves ((e.run actions).after a).workspace := by
  have hbefore := lasts_of_after hlast
  have hs := run_wired hone hstart hbefore
  have hroot := run_rooted hone hstart hbefore
  have plain : ∀ {m : Edit α Unit}, Leads (· = (e.run actions).workspace) m
      (fun _ => (e.run actions).workspace.Preserves) (e.run actions).workspace.Preserves →
      Leads (· = e.run actions) (Act.edit m) (fun _ => Within (e.run actions).workspace.Preserves)
        (Within (e.run actions).workspace.Preserves) :=
    fun h => Leads.pre (edit_leads h) fun _ he => congrArg Editor.workspace he
  refine after_of_leads (Q := Within (e.run actions).workspace.Preserves) ?_ hlast
  cases a with
  | connect p q => exact plain (Edit.connect_preserves hs hacyclic ha.1 ha.2)
  | disconnect c =>
    exact plain ((Edit.disconnect_frees hs c).weaken (fun _ h => h)
      (fun _ _ h => (h.stays hs).preserves) fun _ h => (h.stays hs).preserves)
  | pullOut id heal =>
    exact plain ((Edit.pullOut_pulls hs hacyclic id heal).weaken (fun _ h => h)
      (fun _ _ h => (h.stays hs).preserves) fun _ h => (h.stays hs).preserves)
  | pickUp block heal =>
    exact Leads.bind (pickUp_preserves hs hacyclic hroot block heal) fun _ => Leads.pure fun _ h => h
  | dragTo location =>
    refine Leads.pre (discard_leads (dragTo_still location)) ?_
    rintro _ rfl
    exact (Stays.refl _).preserves
  | dropAt location =>
    exact Leads.bind (dropAt_preserves hs hacyclic ha _ _ location) fun _ => Leads.pure fun _ h => h
  | _ => exact ha.elim

end Moved

/-- A statement returns a placeholder that unpacks a name, and there is a number beside it. -/
def nameReturned : Editor Int :=
  (fresh .standard Palette.registry).run [.newBlock "Return", .newPlaceholder "dict_unpack",
    .connect ⟨1⟩ ⟨2⟩, .newBlock "Name", .connect ⟨3⟩ ⟨4⟩, .newBlock "int"]

/-- When the number is returned instead, nothing goes but the placeholder and what it carries. -/
theorem moves_preserve_name : Lasts (nameReturned.after (.connect ⟨1⟩ ⟨5⟩)) ∧
    nameReturned.workspace.Preserves (nameReturned.after (.connect ⟨1⟩ ⟨5⟩)).workspace := by
  have hordered : nameReturned.workspace.ordered := by decide +kernel
  have hlast : Lasts (nameReturned.after (.connect ⟨1⟩ ⟨5⟩)) := by decide +kernel
  refine ⟨hlast, moves_preserve Palette.registry_onePlug (create_fresh (by decide))
    (acyclic_of_ordered hordered) ⟨?_, ?_⟩ hlast⟩
  · exact not_closes_of_ordered hordered (by decide +kernel)
  · exact not_closes_of_ordered hordered (by decide +kernel)

/-- The name that the placeholder carries goes too, although it is none itself. -/
theorem connect_takes_real : nameReturned.workspace.graph.Acyclic ∧
    nameReturned.workspace.Live ⟨2⟩ ∧ nameReturned.workspace.isPlaceholder ⟨2⟩ = false ∧
    nameReturned.accepts (.connect ⟨1⟩ ⟨5⟩) ∧
    ¬ (nameReturned.after (.connect ⟨1⟩ ⟨5⟩)).workspace.Live ⟨2⟩ := by
  refine ⟨acyclic_of_ordered (by decide +kernel), hasBlock_iff.mp (by decide +kernel),
    by decide +kernel, by decide +kernel, fun hlive => ?_⟩
  have hgone : (nameReturned.after (.connect ⟨1⟩ ⟨5⟩)).workspace.hasBlock ⟨2⟩ = false := by
    decide +kernel
  rw [hasBlock_iff.mpr hlive] at hgone
  cases hgone

end Editor

end BlockEditor
