import BlockEditor.Proofs.Connecting
import BlockEditor.Proofs.Reviving

/-!
# A displaced placeholder comes back

A placeholder whose socket another block takes is kept as the template of the socket. When that block
leaves the socket, in whichever way, an equal placeholder is built there.
-/

namespace BlockEditor

open Workspace

variable {α : Type}

namespace Workspace

variable {r : Registry} {ws u v t : Workspace α} {x a child : BlockId} {c s p : ConnectionId}
  {o : Option Edit.Orphan} {template : Snapshot}

/-- A new placeholder is in the socket, and it has the given snapshot. -/
def Reinstates (ws : Workspace α) (s : ConnectionId) (template : Snapshot) (t : Workspace α) : Prop :=
  ∃ k, t.across s = some k ∧ ws.ids.blocks ≤ k.index.toNat ∧ t.isPlaceholder k ∧
    t.save k = .ok template

/-- A block has left the socket, and perhaps it is gone. -/
inductive Clears (ws : Workspace α) (s p : ConnectionId) (x : BlockId) : Workspace α → Prop
  | out {t : Workspace α} : ws.Cuts s p x t → Clears ws s p x t
  | gone {u t : Workspace α} : ws.Cuts s p x u → u.Fells x t → Clears ws s p x t

namespace Clears

theorem standard [Scalar α] (h : ws.Clears s p x t) (hw : ws.Standard r) : t.Standard r := by
  cases h with
  | out hc => exact hw.cuts hc
  | gone hc hf => exact (hw.cuts hc).fells hf

theorem acyclic (h : ws.Clears s p x t) (hs : ws.Sound) (hac : ws.graph.Acyclic) :
    t.graph.Acyclic := by
  cases h with
  | out hc => exact hc.acyclic hs hac
  | gone hc hf =>
    obtain ⟨b, R, -, hl, -⟩ := hf.step
    exact hl.acyclic (hc.sound hs) (hc.acyclic hs hac)

theorem revives (h : ws.Clears s p x t) (hr : ws.Revives r c) : t.Revives r c := by
  cases h with
  | out hc => exact hr.cuts hc
  | gone hc hf => exact (hr.cuts hc).fells hf

theorem ids (h : ws.Clears s p x t) : t.ids = ws.ids := by
  cases h with
  | out hc => exact hc.ids
  | gone hc hf =>
    obtain ⟨b, R, -, hl, -⟩ := hf.step
    exact hl.ids.trans hc.ids

/-- The socket is free, and otherwise as it was. -/
theorem socket (h : ws.Clears s p x t) (hs : ws.Sound) (hac : ws.graph.Acyclic) :
    ∃ y, ws.connections[s]? = some y ∧ t.connections[s]? = some { y with target := none } := by
  cases h with
  | out hc =>
    obtain ⟨w, v, hl, -⟩ := hc.link
    obtain ⟨y, hy, -⟩ := connection_of_wire hl.socket
    refine ⟨y, hy, ?_⟩
    rw [hc.connections, hy, Option.map_some, if_pos (Or.inl rfl)]
  | gone hc hf => exact hf.socket hc hs hac

end Clears

theorem Engages.blockCount (h : ws.Engages s p child u v o t) : ws.ids.blocks ≤ t.ids.blocks := by
  refine h.frees.blockCount.trans (le_of_eq ?_)
  rcases h.cases with ⟨-, hseats⟩ | ⟨q, a, -, -, -, hseats, -, hd | ⟨c, hc⟩⟩
  · rw [hseats.ids]
  · rw [hd.ids, hseats.ids]
  · rw [hc.seats.ids, hseats.ids]

/-- What is in the socket keeps its snapshot until the plug that goes there is free. Then that is the
template, and the placeholder can be built again. -/
theorem Engages.revives [Scalar α] (h : ws.Engages s p child u v o t) (hw : ws.Standard r)
    (ha : ws.across s = some a) (hmark : ws.isPlaceholder a) (hrecords : ws.Records a template)
    (hout : ¬ ws.Branch a child) :
    t.templateAt s = some (some template) ∧ t.Revives r s ∧ ¬ t.Live a := by
  have hs := h.sound
  have hus := h.ready.1.sound
  have hlive := hs.live_across ha
  obtain ⟨⟨stored, hsaved, htemplate⟩, hgone⟩ := h.replaced ha hmark
  have hagrees : Agrees a ws u := by
    refine h.frees.agrees hs h.poised.plugOf hlive fun c z hc hz hbranch => hout ?_
    obtain ⟨w, l, hm, rfl⟩ := h.poised
    obtain ⟨y, hy, rfl⟩ := connection_of_wire hm.plug
    rw [targetOf_eq hy] at hc
    obtain ⟨w', hl⟩ := Graph.link_of_plug hs.wired hm.plug hm.isPlug hc
    refine branch_of_under ⟨c, p, w', y.wire, hl, rfl, ?_⟩ hbranch
    exact congrArg Wire.block (Option.some.inj (hl.socket.symm.trans (wire_of_connection hz)))
  have hsame := save_congr hs hus hagrees (h.acyclic a) (h.ready.1.acyclic a)
  obtain rfl : stored = template :=
    Except.ok.inj ((hsaved.symm.trans hsame).trans hrecords.saved)
  refine ⟨htemplate, fun y' template' hy' htemplate' => ?_, hgone a (branch_self u a)⟩
  obtain rfl : stored = template' := by
    rw [templateAt, hy', Option.map_some, htemplate'] at htemplate
    exact (Option.some.inj (Option.some.inj htemplate)).symm
  obtain ⟨b, hb⟩ := hlive
  obtain ⟨b', hb', htype⟩ := typeName_of_save hs (h.acyclic a) hrecords.saved
  obtain rfl := Option.some.inj (hb.symm.trans hb')
  refine ⟨⟨ws, a, hw, hrecords⟩, ?_, ?_⟩
  · rw [placeholder_of_save hs (h.acyclic a) hb hrecords.saved]
    rw [isPlaceholder, hb] at hmark
    exact hmark
  have hseats := h.of_vacant fun z hz => by
    rw [ha, Option.some.injEq] at hz
    exact hz ▸ hmark
  obtain ⟨w, l, hm, -⟩ := h.poised
  obtain ⟨y, hy, rfl⟩ := connection_of_wire hm.socket
  obtain ⟨yu, hyu, htwin⟩ := h.frees.twins hs hy
  obtain ⟨y₀, hy₀, htwin'⟩ := hseats.twins_of hy'
  obtain rfl := Option.some.inj (hyu.symm.trans hy₀)
  rw [htype, htwin'.kind, htwin'.check, htwin.kind, htwin.check]
  exact hw.suits hy hm.isSocket ha hb

end Workspace

namespace Edit

variable [Scalar α] {r : Registry} {ws u t : Workspace α} {x : BlockId} {c s p : ConnectionId}
  {w v : Wire} {o : Option BlockId} {template : Snapshot}

/-- A free socket gets a placeholder that has the snapshot it keeps. -/
theorem respawn_reinstates (hdistinct : r.Distinct) (hw : ws.Standard r) (hac : ws.graph.Acyclic)
    (h : ws.Revives r s) {y : Connection α} (hy : ws.connections[s]? = some y)
    (hfree : y.target = none) (htemplate : y.template = some template)
    (hrun : respawn s ws = .ok o t) (hlast : Lasts t) : ws.Reinstates s template t := by
  obtain ⟨hgenuine, hmark, hsuits⟩ := h y template hy htemplate
  have hbuild : (build template true : Edit α BlockId) = build template false := by
    rw [← build_placeholder, hmark]
  have hmake : respawn s ws = (do
      let placeholder ← build template false
      hang s placeholder
      return some placeholder : Edit α (Option BlockId)) ws := by
    have hask : (query (·.connection s) : Edit α (Connection α)) ws = .ok y ws := by
      simp only [query, connection_eq_ok.mpr hy]
    have hnot : ¬ y.isConnected := by simp [Connection.isConnected, hfree]
    exact (bind_eq hask).trans (by rw [if_neg hnot, htemplate, ← hbuild])
  rw [hmake] at hrun
  obtain ⟨k, u, hbuilt, hrest⟩ := bind_ok hrun
  obtain ⟨_, _, hhang, hdone⟩ := bind_ok hrest
  cases hdone
  have hlastu : Lasts u := (hang_leads u s k).lasts hhang hlast
  have hcopied := (build_copies hdistinct template hgenuine ws).ok hbuilt hlastu ⟨rfl, hw⟩
  have hgrafts := (hang_copied hw hy hfree hsuits hcopied).ok hhang hlast rfl
  have hus := hcopied.standard.sound
  have ht := hgrafts.sound hus
  have htac := hgrafts.acyclic hcopied.fresh hus (hcopied.fresh.acyclic hus hac) hy
  obtain ⟨-, hacross, hsave⟩ := hcopied.hung hgrafts hw.sound hy (htac y.block)
  obtain ⟨b, hb⟩ := ht.live_across hacross
  refine ⟨k, hacross, hcopied.fresh.new, ?_, hsave⟩
  rw [isPlaceholder, hb, Option.any_some, ← placeholder_of_save ht (htac k) hb hsave]
  exact hmark

/-- A plug of a block was linked to a socket. -/
theorem connect_ok_of_plug {a b : ConnectionId} (hplug : ws.graph.PlugOf p x)
    (hends : a = s ∧ b = p ∨ a = p ∧ b = s) (hrun : connect a b ws = .ok () t) :
    ws.graph.Poised s p x ∧ fit s p ws = .ok () t := by
  obtain ⟨s', p', child, hends', hpoised, hfit⟩ := connect_ok hrun
  obtain ⟨w, v, hm, rfl⟩ := id hpoised
  obtain ⟨v', hv', rfl, hk⟩ := hplug
  have hne : s' ≠ p := by
    rintro rfl
    rw [Option.some.inj (hv'.symm.trans hm.socket), ConnectionKind.isPlug_eq_not, hm.isSocket] at hk
    cases hk
  obtain ⟨rfl, rfl⟩ : s' = s ∧ p' = p := by
    rcases hends with ⟨rfl, rfl⟩ | ⟨rfl, rfl⟩ <;> rcases hends' with ⟨rfl, rfl⟩ | ⟨rfl, rfl⟩
    · exact ⟨rfl, rfl⟩
    · exact absurd rfl hne
    · exact absurd rfl hne
    · exact ⟨rfl, rfl⟩
  obtain rfl := Option.some.inj (hv'.symm.trans hm.plug)
  exact ⟨hpoised, hfit⟩

/-- To disconnect either end of a link empties the socket, which gets its placeholder back. -/
theorem disconnect_clears (hs : ws.Sound) (hl : ws.graph.Link s p w v) (hc : c = s ∨ c = p)
    (hrun : disconnect c ws = .ok () t) (hlast : Lasts t) :
    ∃ u o, ws.Clears s p v.block u ∧ respawn s u = .ok o t := by
  have hlink := link?_of_link hs hl hc
  have heq : disconnect c ws = (do
      unlink c
      let _ ← respawn s : Edit α Unit) ws := by
    unfold disconnect
    simp only [bind, EStateM.bind, query, hlink]
  rw [heq] at hrun
  obtain ⟨_, u, hunlink, hrest⟩ := bind_ok hrun
  obtain ⟨o, _, hrespawn, hdone⟩ := bind_ok hrest
  cases hdone
  have hlastu : Lasts u := (respawn_keeps (X := ∅) Editor.growing_true u s).lasts hrespawn hlast
  refine ⟨u, o, ?_, hrespawn⟩
  rcases (unlink_leads ws c).ok hunlink hlastu ⟨rfl, hs⟩ with ⟨-, hnone⟩ | ⟨s', p', child, hsome, hcut⟩
  · rw [hlink] at hnone
    cases hnone
  · rw [hlink, Except.ok.injEq, Option.some.injEq, Prod.mk.injEq] at hsome
    obtain ⟨rfl, rfl⟩ := hsome
    obtain ⟨w', v', hl', rfl⟩ := hcut.link
    obtain rfl := Option.some.inj (hl.plug.symm.trans hl'.plug)
    exact .out hcut

/-- To pull a block out without healing is to disconnect its plug. -/
theorem pullOut_clears (hs : ws.Sound) (hl : ws.graph.Link s p w v)
    (hrun : pullOut v.block false ws = .ok () t) (hlast : Lasts t) :
    ∃ u o, ws.Clears s p v.block u ∧ respawn s u = .ok o t := by
  obtain ⟨z, hz, rfl⟩ := connection_of_wire hl.plug
  obtain ⟨b, hb, -⟩ := hs.owner hz
  have hmem : p ∈ b.plugs := hs.mem_plugs_of hz (hl.isPlug hs.wired) hb
  have only : ∀ q ∈ b.plugs, q = p := by
    intro q hq
    obtain ⟨y, hy, hyb, hk⟩ := hs.plug hb hq
    exact hs.wired.onePlug (wire_of_connection hy) hl.plug hyb hk (hl.isPlug hs.wired)
  suffices hdisconnect : disconnect p ws = .ok () t from
    disconnect_clears hs hl (Or.inr rfl) hdisconnect hlast
  rw [show pullOut z.wire.block false ws = _ from pullOut_eq hb false] at hrun
  rcases mem_plugs.mp hmem with houtput | hprevious
  · rw [houtput] at hrun
    exact hrun
  · cases houtput : b.output with
    | some q =>
      obtain rfl := only q (mem_plugs.mpr (Or.inl houtput))
      rw [houtput] at hrun
      exact hrun
    | none =>
      rw [houtput, hprevious] at hrun
      have hask : (query (·.connection p) : Edit α (Connection α)) ws = .ok z ws := by
        simp only [query, connection_eq_ok.mpr hz]
      obtain ⟨_, m, hdisconnect, hdone⟩ := bind_ok ((bind_eq hask).symm.trans hrun)
      cases hdone
      exact hdisconnect

theorem dispose_clears (hs : ws.Sound) (hl : ws.graph.Link s p w v)
    (hrun : dispose v.block ws = .ok () t) (hlast : Lasts t) :
    ∃ u o, ws.Clears s p v.block u ∧ respawn s u = .ok o t := by
  obtain ⟨z, hz, rfl⟩ := connection_of_wire hl.plug
  obtain ⟨b, hb, -⟩ := hs.owner hz
  have hsocket : ws.parentSocket z.block = .ok (some s) := by
    rw [hs.parentSocket hb, (hs.findSome?_plugs hb).mpr ⟨p, w, z.wire, hl, rfl⟩]
  rw [show dispose z.wire.block ws = _ from dispose_eq hsocket] at hrun
  obtain ⟨_, m, hunlink, hrest⟩ := bind_ok hrun
  obtain ⟨_, m', hremove, hrest'⟩ := bind_ok hrest
  cases hremove
  obtain ⟨o, _, hrespawn, hdone⟩ := bind_ok hrest'
  cases hdone
  have hlastr : Lasts (m.removeTree z.block) :=
    (respawn_keeps (X := ∅) Editor.growing_true (m.removeTree z.block) s).lasts hrespawn hlast
  have hlastm : Lasts m := by
    rwa [lasts_workspace, removeTree_ids] at hlastr
  have hcut := (unlink_socket ws s p z.block).ok hunlink hlastm ⟨rfl, hs, w, z.wire, hl, rfl⟩
  have hlive : m.Live z.block := ⟨b, by rw [hcut.blocks]; exact hb⟩
  exact ⟨_, o, .gone hcut (fells_of_loose (hcut.sound hs) hlive (hcut.loose_child hs)), hrespawn⟩

/-- The ways to take the block `x` out of the socket `s`, which its plug `p` is in. -/
inductive TakesOut (s p : ConnectionId) (x : BlockId) : Edit α Unit → Prop
  | socket : TakesOut s p x (disconnect s)
  | plug : TakesOut s p x (disconnect p)
  | pulled : TakesOut s p x (pullOut x false)
  | disposed : TakesOut s p x (dispose x)

theorem TakesOut.clears {m : Edit α Unit} (h : TakesOut s p v.block m) (hs : ws.Sound)
    (hl : ws.graph.Link s p w v) (hrun : m ws = .ok () t) (hlast : Lasts t) :
    ∃ u o, ws.Clears s p v.block u ∧ respawn s u = .ok o t := by
  cases h with
  | socket => exact disconnect_clears hs hl (Or.inl rfl) hrun hlast
  | plug => exact disconnect_clears hs hl (Or.inr rfl) hrun hlast
  | pulled => exact pullOut_clears hs hl hrun hlast
  | disposed => exact dispose_clears hs hl hrun hlast

theorem TakesOut.keeps {J : Set ConnectionId → Workspace α → Prop} {X : Set ConnectionId}
    {m : Edit α Unit} (h : TakesOut s p x m) (hJ : Stable False J) : Safe J X m := by
  cases h with
  | socket => exact disconnect_safe hJ s
  | plug => exact disconnect_safe hJ p
  | pulled => exact pullOut_keeps hJ x false
  | disposed => exact dispose_keeps hJ x

/-- A block is taken out of a socket from which a placeholder can be built again: it is built. -/
theorem TakesOut.reinstates {m : Edit α Unit} (h : TakesOut s p v.block m)
    (hdistinct : r.Distinct) (hw : ws.Standard r) (hac : ws.graph.Acyclic)
    (hl : ws.graph.Link s p w v) (hrevives : ws.Revives r s)
    (htemplate : ws.templateAt s = some (some template)) (hrun : m ws = .ok () t) (hlast : Lasts t) :
    ws.Reinstates s template t := by
  obtain ⟨u, o, hclears, hrespawn⟩ := h.clears hw.sound hl hrun hlast
  obtain ⟨y, hy, hyu⟩ := hclears.socket hw.sound hac
  rw [templateAt, hy, Option.map_some, Option.some.injEq] at htemplate
  obtain ⟨k, hk, hnew, hmark, hsave⟩ := respawn_reinstates hdistinct (hclears.standard hw)
    (hclears.acyclic hw.sound hac) (hclears.revives hrevives) hyu rfl htemplate hrespawn hlast
  exact ⟨k, hk, hclears.ids ▸ hnew, hmark, hsave⟩

end Edit

namespace Editor

variable [Scalar α] {config : EditorConfig α} {e t u : Editor α} {actions : List (Action α)}
  {a b s p : ConnectionId} {x y : BlockId} {template : Snapshot} {m : Edit α Unit}

/-- After a run in which nothing was refused, a block is linked to the socket of a placeholder and
taken out again. The placeholder is gone as soon as the block is there; when the block has left, a new
placeholder is in the socket, and it has the same snapshot. -/
theorem run_reinstates (hstart : create config Palette.registry = .ok e)
    (haccepted : e.Accepted actions) (hac : (e.run actions).workspace.graph.Acyclic)
    (hhangs : (e.run actions).workspace.graph.Hangs s y)
    (hmark : (e.run actions).workspace.isPlaceholder y)
    (hsave : (e.run actions).workspace.save y = .ok template)
    (hplug : (e.run actions).workspace.graph.PlugOf p x)
    (hout : ¬ (e.run actions).workspace.Branch y x)
    (hclear : ∀ z, (e.run actions).workspace.connections[s]? = some z →
      ¬ (e.run actions).workspace.Branch x z.block)
    (hends : a = s ∧ b = p ∨ a = p ∧ b = s)
    (hconnect : Act.edit (Edit.connect a b) (e.run actions) = .ok () t)
    (hm : Edit.TakesOut s p x m) (hremove : Act.edit m t = .ok () u) (hlast : Lasts u) :
    ¬ t.workspace.Live y ∧ ∃ k, u.workspace.across s = some k ∧
      ¬ (e.run actions).workspace.Live k ∧ ¬ t.workspace.Live k ∧ u.workspace.isPlaceholder k ∧
      u.workspace.save k = .ok template := by
  obtain ⟨wt, hlinked, rfl⟩ := Act.edit_ok hconnect
  obtain ⟨wu, hremoved, rfl⟩ := Act.edit_ok hremove
  have hlastt : Lasts wt := (hm.keeps (X := ∅) (stable_true (α := α))).lasts hremoved hlast
  have hlaste : Lasts (e.run actions) :=
    (Edit.connect_keeps (X := ∅) (stable_true (α := α)) a b).lasts hlinked hlastt
  have hw := run_standard hstart hlaste
  have hrecords := run_records hstart hlaste haccepted hac hsave
  have hs := hw.sound
  obtain ⟨hpoised, hfit⟩ := Edit.connect_ok_of_plug hplug hends hlinked
  have hnot : ¬ (e.run actions).workspace.Closes s p := by
    rintro ⟨z, z', hz, hz', -, hbranch⟩
    obtain ⟨v, hv, rfl, -⟩ := hplug
    rw [wire_of_connection hz', Option.some.injEq] at hv
    exact hclear z hz (hv ▸ hbranch)
  obtain ⟨q, w, l, hl, hly⟩ := hhangs
  have ha : (e.run actions).workspace.across s = some y := hly ▸ across_of_link hl
  rcases Edit.fit_ok hs hac hpoised hnot hfit hlastt with ⟨hsame, -⟩ | ⟨-, f, v, o, -, h⟩
  · -- The placeholder itself is no such block.
    refine (hout ?_).elim
    rw [across_eq, hsame, Option.bind_some, ownerOf_of_plugOf hplug, Option.some.injEq] at ha
    exact Or.inl ha
  obtain ⟨htemplate, hrevives, hgone⟩ := h.revives hw ha hmark hrecords hout
  obtain ⟨ht, htac, w', l', hl', hx⟩ := h.linked
  have kept : ∀ {J : Set ConnectionId → Workspace α → Prop}, Stable False J →
      J ∅ (e.run actions).workspace → J ∅ wt := fun hJ hJw =>
    ((Edit.connect_keeps hJ a b).ok hlinked hlastt ⟨hs, hJw⟩).keeps
  have hwt : wt.Standard Palette.registry :=
    ⟨ht, kept stable_shaped hw.shaped, kept (stable_registry Palette.registry) hw.registry⟩
  subst hx
  obtain ⟨k, hk, hnew, hmark', hsave'⟩ := hm.reinstates Palette.registry_distinct hwt htac hl'
    hrevives htemplate hremoved hlast
  have hfresh : ¬ wt.Live k := by
    rintro ⟨b', hb'⟩
    exact Nat.not_lt_of_le hnew (ht.blockIds hb')
  refine ⟨hgone, k, hk, ?_, hfresh, hmark', hsave'⟩
  rintro ⟨b', hb'⟩
  exact Nat.not_lt_of_le (h.blockCount.trans hnew) (hs.blockIds hb')

/-- A plug can be linked to the socket of a placeholder, and when `m` is done after that, a placeholder
with the same snapshot is there. -/
def ComesBack (e : Editor α) (s p : ConnectionId) (y : BlockId) (m : Edit α Unit) : Prop :=
  ∃ template t u k, e.workspace.save y = .ok template ∧ Act.edit (Edit.connect s p) e = .ok () t ∧
    Act.edit m t = .ok () u ∧ u.workspace.across s = some k ∧ u.workspace.isPlaceholder k ∧
    u.workspace.save k = .ok template

/-- A sum is returned that is a placeholder, and on the left of it is a placeholder too, which has
another name than it was made with. A number is beside it. -/
def namedSum : List (Action Int) :=
  [.newBlock "Return", .setTemplate ⟨1⟩ (some (.placeholderOfType "BinOp")),
    .setTemplate ⟨3⟩ (some (.placeholderOfType "Name")), .setField ⟨2⟩ "var" "total", .newBlock "int"]

/-- The number is returned and taken out again, in one way or another, and the sum is back. -/
theorem run_reinstates_sum :
    ((fresh (.standard : EditorConfig Int) Palette.registry).run namedSum).ComesBack ⟨1⟩ ⟨6⟩ ⟨1⟩
        (Edit.disconnect ⟨1⟩) ∧
      ((fresh (.standard : EditorConfig Int) Palette.registry).run namedSum).ComesBack ⟨1⟩ ⟨6⟩ ⟨1⟩
        (Edit.pullOut ⟨3⟩ false) ∧
      ((fresh (.standard : EditorConfig Int) Palette.registry).run namedSum).ComesBack ⟨1⟩ ⟨6⟩ ⟨1⟩
        (Edit.dispose ⟨3⟩) := by
  have returns : ∀ (e t : Editor Int) (actions : List (Action Int)),
      create .standard Palette.registry = .ok e → e.Accepted actions → Lasts (e.run actions) →
      (e.run actions).workspace.ordered → (e.run actions).workspace.Hosts ⟨1⟩ ⟨2⟩ ⟨1⟩ →
      (e.run actions).workspace.isPlaceholder ⟨1⟩ →
      ((e.run actions).workspace.save ⟨1⟩).toOption.isSome →
      (((e.run actions).workspace.connections[(⟨6⟩ : ConnectionId)]?).any fun z =>
        decide (z.block = ⟨3⟩) && z.kind.isPlug && z.target.isNone) →
      (((e.run actions).workspace.connections[(⟨1⟩ : ConnectionId)]?).any fun z =>
        decide (z.block = ⟨0⟩)) →
      Act.edit (Edit.connect ⟨1⟩ ⟨6⟩) (e.run actions) = .ok () t → ∀ m u,
      Edit.TakesOut ⟨1⟩ ⟨6⟩ ⟨3⟩ m → Act.edit m t = .ok () u → Lasts u →
      (e.run actions).ComesBack ⟨1⟩ ⟨6⟩ ⟨1⟩ m := by
    intro e t actions hstart haccepted hbefore hordered hhosts hmark hsave hp hs hconnect m u hm
      hremove hlast
    obtain ⟨z, hz, hfree⟩ := (Option.any_eq_true _ _).mp hp
    obtain ⟨y, hy, howner⟩ := (Option.any_eq_true _ _).mp hs
    simp only [Bool.and_eq_true, decide_eq_true_eq, Option.isNone_iff_eq_none] at hfree howner
    have hplug : (e.run actions).workspace.graph.PlugOf ⟨6⟩ ⟨3⟩ :=
      ⟨z.wire, wire_of_connection hz, hfree.1.1, hfree.1.2⟩
    have hloose := hplug.loose (run_standard hstart hbefore).sound.wired
      (idle_of_targetOf ((targetOf_eq hz).trans hfree.2))
    obtain ⟨template, hsaved⟩ : ∃ template, (e.run actions).workspace.save ⟨1⟩ = .ok template := by
      cases hsaved : (e.run actions).workspace.save ⟨1⟩ with
      | ok template => exact ⟨template, rfl⟩
      | error err =>
        rw [hsaved] at hsave
        cases hsave
    have hout : ¬ (e.run actions).workspace.Branch ⟨1⟩ ⟨3⟩ := by
      rintro (heq | hbelow)
      · exact absurd heq (by decide)
      · exact hloose.not_below (run_standard hstart hbefore).sound.wired hbelow
    have hclear : ∀ y, (e.run actions).workspace.connections[(⟨1⟩ : ConnectionId)]? = some y →
        ¬ (e.run actions).workspace.Branch ⟨3⟩ y.block := by
      intro y' hy'
      obtain rfl := Option.some.inj (hy.symm.trans hy')
      rw [howner]
      rintro (heq | hbelow)
      · exact absurd heq (by decide)
      · exact absurd (lt_of_below hordered hbelow) (by decide)
    obtain ⟨-, k, hk, -, -, hmarked, hkept⟩ := run_reinstates hstart haccepted
      (acyclic_of_ordered hordered) hhosts.hangs hmark hsaved hplug hout hclear (Or.inl ⟨rfl, rfl⟩)
      hconnect hm hremove hlast
    exact ⟨template, t, u, k, hsaved, hconnect, hremove, hk, hmarked, hkept⟩
  have hstart : create (.standard : EditorConfig Int) Palette.registry =
      .ok (fresh .standard Palette.registry) := create_fresh (by decide)
  have hconnect : Act.edit (Edit.connect ⟨1⟩ ⟨6⟩) ((fresh (.standard : EditorConfig Int)
      Palette.registry).run namedSum) = .ok () _ := Act.eq_ok_of_answer (by decide +kernel)
  have back := returns _ _ namedSum hstart (accepted_of_acceptsAll (by decide +kernel))
    (by decide +kernel) (by decide +kernel) (hosts_of_any (by decide +kernel) (by decide +kernel))
    (by decide +kernel) (by decide +kernel) (by decide +kernel) (by decide +kernel) hconnect
  exact ⟨back _ _ .socket (Act.eq_ok_of_answer (by decide +kernel)) (by decide +kernel),
    back _ _ .pulled (Act.eq_ok_of_answer (by decide +kernel)) (by decide +kernel),
    back _ _ .disposed (Act.eq_ok_of_answer (by decide +kernel)) (by decide +kernel)⟩

end Editor

end BlockEditor
