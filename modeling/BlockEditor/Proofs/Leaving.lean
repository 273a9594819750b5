import BlockEditor.Proofs.Healing
import BlockEditor.Proofs.Reviving

/-!
# What a drag leaves behind

A drag may leave something in the socket that its block was in: an equal copy of a real block, or a
placeholder for a placeholder, which is a real block from then on. The dragged block takes its whole
branch along.
-/

namespace BlockEditor

open Workspace

variable {α : Type}

/-- What a drag makes of a block that leaves something behind: the block is real, and if it was real
before, then it leaves no more copies. -/
def Block.departed (b : Block α) : Block α :=
  { b with
    placeholder := false
    copyOnDrag := if b.placeholder then b.copyOnDrag else some false }

namespace Workspace

variable {ws u v w t real : Workspace α} {x y k q r : BlockId} {b b' b₁ b₁' : Block α}
  {c s p o : ConnectionId} {heal : Bool} {d : DragSession α}

/-- The workspace with other marks on a block. -/
def withBlock (ws : Workspace α) (x : BlockId) (b : Block α) : Workspace α :=
  { ws with blocks := ws.blocks.insert x b }

theorem getElem?_withBlock (ws : Workspace α) (x : BlockId) (b : Block α) (y : BlockId) :
    (ws.withBlock x b).blocks[y]? = if y = x then some b else ws.blocks[y]? :=
  getElem?_insert ws.blocks x y b

theorem withBlock_self (hb : ws.blocks[x]? = some b) : ws.withBlock x b = ws :=
  setInputs_self hb

theorem withBlock_graph (hb : ws.blocks[x]? = some b) (hr : b'.roles = b.roles) :
    (ws.withBlock x b').graph = ws.graph :=
  graph_insert hb hr

theorem branch_withBlock (hb : ws.blocks[x]? = some b) (hr : b'.roles = b.roles) :
    (ws.withBlock x b').Branch r y ↔ ws.Branch r y := by
  rw [Branch, withBlock_graph hb hr, Branch]

/-- A block may get the same marks in both workspaces. -/
theorem Agrees.withBlock (h : Agrees r ws t) (hb : ws.blocks[x]? = some b)
    (hr : b₁.roles = b.roles) (hlooks : b₁'.looks = b₁.looks) :
    Agrees r (ws.withBlock x b₁) (t.withBlock x b₁') where
  blocks y hy := by
    rw [getElem?_withBlock, getElem?_withBlock]
    split
    · rw [Option.map_some, Option.map_some, hlooks]
    · exact h.blocks y ((branch_withBlock hb hr).mp hy)
  sockets c z hz hk hy := h.sockets c z hz hk ((branch_withBlock hb hr).mp hy)
  owners c z hz hy := h.owners c z hz ((branch_withBlock hb hr).mp hy)

/-- The marks of a block are seen in its own branch only. -/
theorem agrees_withBlock (hx : ¬ ws.Branch r x) : Agrees r ws (ws.withBlock x b) where
  blocks y hy := by
    rw [getElem?_withBlock, if_neg]
    rintro rfl
    exact hx hy
  sockets _ z hz _ _ := ⟨z, hz, rfl⟩
  owners _ z hz _ := ⟨z, hz, rfl⟩

/-! ### Taking a branch along -/

/-- A block in a socket, seen from its output. -/
theorem Sound.link_of_output (hs : ws.Sound) (hb : ws.blocks[x]? = some b)
    (hin : b.output.bind ws.targetOf = some s) :
    ∃ o w v, ws.graph.Link s o w v ∧ v.block = x := by
  obtain ⟨o, ho, ht⟩ := Option.bind_eq_some_iff.mp hin
  obtain ⟨z, hz, hzx, hk⟩ := hs.plug hb (mem_plugs.mpr (Or.inl ho))
  rw [targetOf_eq hz] at ht
  obtain ⟨w, hl⟩ := Graph.link_of_plug hs.wired (wire_of_connection hz) hk ht
  exact ⟨o, w, _, hl, hzx⟩

namespace Astray

/-- A block that is away has its whole branch, whatever is in the socket. -/
theorem agrees (h : ws.Astray s p x t) (hs : ws.Sound) (hac : ws.graph.Acyclic) :
    Agrees x ws t := by
  obtain ⟨u, hc, he, -⟩ := h.cut
  obtain ⟨w, v, hl, rfl⟩ := hc.link
  exact hc.agrees_extends he hs (hs.exists_lower hl.under) fun y hy => outside_of_link hl hac hy

theorem loose (h : ws.Astray s p x t) (hs : ws.Sound) : t.graph.Loose x := by
  obtain ⟨u, hc, he, hsp⟩ := h.cut
  obtain ⟨w, v, hl, rfl⟩ := hc.link
  have hplug : ws.graph.PlugOf p v.block := ⟨v, hl.plug, rfl, hl.isPlug hs.wired⟩
  refine (hsp.plugOf (hc.spares.plugOf hplug)).loose h.sound.wired (idle_of_targetOf ?_)
  obtain ⟨z, hz, rfl⟩ := connection_of_wire hl.plug
  have hfree := hc.connections p
  rw [hz, Option.map_some, if_pos (Or.inr rfl)] at hfree
  rw [targetOf_eq (he.connection (hc.sound hs) hfree fun hp => hl.ne hs.wired (Eq.symm hp))]

end Astray

/-! ### Being replaced -/

/-- The block `x`, which was `b`, is out of the socket `s` with its whole branch, and there is a new
block `q` instead. -/
structure Supplants (ws : Workspace α) (s : ConnectionId) (x : BlockId) (b : Block α) (q : BlockId)
    (t : Workspace α) : Prop where
  filled : t.across s = some q
  new : ws.ids.blocks ≤ q.index.toNat
  mark : t.isPlaceholder q = b.placeholder
  copy : b.placeholder = false → ∃ template, ws.save x = .ok template ∧ t.save q = .ok template
  loose : t.graph.Loose x
  agrees : Agrees x (ws.withBlock x b.departed) t

namespace Supplants

/-- All that hung on the block hangs on it, and nothing else. -/
theorem branch (h : ws.Supplants s x b q t) (hs : ws.Sound) (ht : t.Sound)
    (hb : ws.blocks[x]? = some b) (a : BlockId) : t.Branch x a ↔ ws.Branch x a := by
  have hlive : (ws.withBlock x b.departed).Live x :=
    ⟨b.departed, by rw [getElem?_withBlock, if_pos rfl]⟩
  rw [h.agrees.branch_iff (hs.insert hb rfl) ht hlive]
  exact branch_withBlock hb rfl

theorem block (h : ws.Supplants s x b q t) :
    ∃ b', t.blocks[x]? = some b' ∧ b'.looks = b.departed.looks :=
  h.agrees.block (by rw [getElem?_withBlock, if_pos rfl])

theorem drifts (h : ws.Supplants s x b q t) (ht : t.Sound) (hac : t.graph.Acyclic)
    (hd : t.Drifts u) : ws.Supplants s x b q u where
  filled := (across_congr hd.graph s).trans h.filled
  new := h.new
  mark := (isPlaceholder_of_looks (hd.blocks q)).trans h.mark
  copy hreal := by
    obtain ⟨template, hsave, hcopy⟩ := h.copy hreal
    have htame : u.graph.Tame q := hd.graph ▸ hac q
    exact ⟨template, hsave, (save_congr ht (hd.sound ht) (hd.agrees q) (hac q) htame).trans hcopy⟩
  loose := hd.graph ▸ h.loose
  agrees := h.agrees.trans (hd.agrees x)

/-- What was recorded before plays no part. -/
theorem relogs (h : u.Supplants s x b q t) (hlog : Act.Relogs ws u) : ws.Supplants s x b q t := by
  obtain ⟨log, rfl⟩ := hlog
  refine ⟨h.filled, h.new, h.mark, fun hreal => ?_, h.loose,
    ⟨h.agrees.blocks, h.agrees.sockets, h.agrees.owners⟩⟩
  obtain ⟨template, hsave, hcopy⟩ := h.copy hreal
  exact ⟨template, (save_withLog x).symm.trans hsave, hcopy⟩

end Supplants

/-- A placeholder that becomes real is as it was otherwise, and so is all that hangs on it. -/
theorem Bares.agrees (h : ws.Bares b d real) (hs : ws.Sound) (hac : ws.graph.Acyclic)
    (hb : ws.blocks[d.block]? = some b) :
    Agrees d.block (ws.withBlock d.block { b with placeholder := false }) real := by
  cases h with
  | real hreal =>
    rw [← hreal, withBlock_self hb]
    exact .refl _ _
  | told => exact .refl _ _
  | given _ _ _ hin _ he =>
    obtain ⟨o, w, v, hl, hv⟩ := hs.link_of_output hb hin
    refine (agrees_template he.blocks he.connections fun z hz => ?_).withBlock hb rfl rfl
    exact hv ▸ outside_of_link hl hac hz

theorem Bares.eq_of_real (h : ws.Bares b d real) (hb : b.placeholder = false) : real = ws := by
  cases h with
  | real => rfl
  | told hmark | given hmark =>
    rw [hb] at hmark
    cases hmark

theorem Bares.ids (h : ws.Bares b d real) : real.ids = ws.ids := by
  cases h with
  | real => rfl
  | told => rfl
  | @given c v template _ _ _ _ _ he =>
    change v.ids = _
    rw [he.rest]

/-- The placeholder that was dragged is real, and another one is in its socket. -/
theorem Bares.supplants (h : ws.Bares b d real) (hs : ws.Sound) (hac : ws.graph.Acyclic)
    (hb : ws.blocks[d.block]? = some b) (hin : b.output.bind ws.targetOf = some s)
    (hmark : b.placeholder) (hpulls : real.Pulls d.block heal t) :
    t.Forest ∧ ∃ q, ws.Supplants s d.block b q t := by
  have hr : real.Sound := h.sound hs hb
  have hg : real.graph = ws.graph := h.graph hb
  have hrac : real.graph.Acyclic := hg ▸ hac
  have hin' : b.output.bind real.targetOf = some s := by
    rw [show real.targetOf = ws.targetOf from funext (targetOf_congr hg)]
    exact hin
  obtain ⟨o, w, v, hl, hv⟩ := hr.link_of_output (b := { b with placeholder := false }) (h.block hb) hin'
  have hhost : real.Hosts s o d.block :=
    ⟨⟨w, v, hl, hv⟩, (h.stores hb).mpr (Or.inr ⟨b, hb, hmark, hin⟩)⟩
  obtain ⟨q, hq, hplaceholder⟩ := (hpulls.stoodIn hr hhost).across
  obtain ⟨p, hwaits⟩ := hpulls.waits hr hrac (h.block hb) hin'
  have hdeparted : b.departed = { b with placeholder := false } := by
    rw [Block.departed, if_pos hmark]
  refine ⟨⟨hwaits.sound, hwaits.acyclic⟩, q, ?_⟩
  exact {
    filled := hq
    new := h.ids ▸ hwaits.new q hq
    mark := hplaceholder.trans hmark.symm
    copy := fun hreal => absurd hmark (by rw [hreal]; exact Bool.false_ne_true)
    loose := hwaits.loose hr
    agrees := by
      rw [hdeparted]
      exact (h.agrees hs hac hb).trans (hwaits.agrees hr hrac) }

/-- What is old is not below what is new, and what is new does not leave with what is old. -/
theorem Fresh.agrees {z : ConnectionId} (h : u.Fresh k v) (hv : v.Sound)
    (hy : ∃ y, u.connections[s]? = some y) (hseat : v.Seats s z k none t) : Agrees k v t := by
  obtain ⟨y, hy⟩ := hy
  have hu := h.start
  have hy' := h.extend.connection hu hy (Set.notMem_empty s)
  refine hseat.agrees_of hv (fun y' hy'' hbranch => ?_) fun a ha hbranch => ?_
  · rw [hy', Option.some.injEq] at hy''
    subst hy''
    obtain ⟨b, hb, -⟩ := hu.owner hy
    have hold := hu.blockIds hb
    have hnew := h.extend.branch_new hu hv h.new hbranch
    omega
  · rw [h.extend.across hu hy] at ha
    obtain ⟨b, hb⟩ := hu.live_across ha
    have hold := hu.blockIds hb
    have hnew := h.new
    rcases hbranch with rfl | hbelow
    · omega
    · exact h.loose.not_below hv.wired hbelow

/-- An equal copy was built while the block was away, and took its place. -/
theorem Waits.supplants [Scalar α] {r : Registry} {template : Snapshot} {z : ConnectionId}
    (h : ws.Waits s p x u) (hs : ws.Sound) (hac : ws.graph.Acyclic) (hb : ws.blocks[x]? = some b)
    (hreal : b.placeholder = false) (hsave : ws.save x = .ok template)
    (hcopy : u.Copied r template k v) (hseat : v.Seats s z k none w) :
    ∃ b', w.blocks[x]? = some b' ∧ (w.withBlock x { b' with copyOnDrag := some false }).Forest ∧
      ws.Supplants s x b k (w.withBlock x { b' with copyOnDrag := some false }) := by
  have hv := hcopy.standard.sound
  have haway := h.seats hs hcopy.fresh hv hseat
  have hw := haway.sound
  have hkept := haway.agrees hs hac
  have hnew := haway.new k hseat.across
  obtain ⟨b', hb', hlooks⟩ := hkept.block hb
  set b₁ : Block α := { b' with copyOnDrag := some false } with hb₁
  have hw₁ : (w.withBlock x b₁).Sound := hw.insert hb' rfl
  have hg : (w.withBlock x b₁).graph = w.graph := withBlock_graph hb' rfl
  have hagrees : Agrees k v w := hcopy.fresh.agrees hv h.connection hseat
  obtain ⟨b₂, hb₂⟩ := live_of_save hcopy.saved
  have hout : ¬ w.Branch k x := by
    rw [hagrees.branch_iff hv hw ⟨b₂, hb₂⟩]
    intro hbranch
    obtain ⟨u₀, hc, he, -⟩ := h.cut
    have hcount := he.blockCount
    rw [hc.ids] at hcount
    have hold := hs.blockIds hb
    have hlate := hcopy.fresh.extend.branch_new h.sound hv hcopy.fresh.new hbranch
    omega
  have htame : v.graph.Tame k := hcopy.fresh.loose.tame hv.wired
  have htame₁ : (w.withBlock x b₁).graph.Tame k := hg ▸ haway.acyclic k
  have hsaved : (w.withBlock x b₁).save k = .ok template :=
    (save_congr hv hw₁ (hagrees.trans (agrees_withBlock hout)) htame htame₁).trans hcopy.saved
  obtain ⟨b₃, hb₃⟩ := live_of_save hsaved
  refine ⟨b', hb', ⟨hw₁, hg ▸ haway.acyclic⟩, ?_⟩
  exact {
    filled := hseat.across
    new := hnew
    mark := by
      rw [isPlaceholder, hb₃, Option.any_some, ← placeholder_of_save hw₁ htame₁ hb₃ hsaved,
        placeholder_of_save hs (hac x) hb hsave]
    copy := fun _ => ⟨template, hsave, hsaved⟩
    loose := hg ▸ haway.loose hs
    agrees := by
      refine hkept.withBlock hb rfl ?_
      rw [Block.eq_of_looks hlooks, Block.departed, hreal]
      rfl }

end Workspace

namespace Edit

variable [Scalar α] {ws t : Workspace α} {x : BlockId} {heal : Bool} {r : Registry}

theorem pullOut_standard (hw : ws.Standard r) (hrun : pullOut x heal ws = .ok () t)
    (hlast : Lasts t) : t.Standard r := by
  have hshaped := (pullOut_keeps (X := ∅) stable_shaped x heal).ok hrun hlast ⟨hw.sound, hw.shaped⟩
  have hregistry := (pullOut_keeps (X := ∅) (Editor.stable_registry r) x heal).ok hrun hlast
    ⟨hw.sound, hw.registry⟩
  exact ⟨hshaped.sound, hshaped.keeps, hregistry.keeps⟩

end Edit

namespace Act

variable [Scalar α] {ws real : Workspace α} {e t : Editor α} {block x : BlockId} {s : ConnectionId}
  {b : Block α} {heal : Bool} {d s₀ : DragSession α}

/-- A block that is to leave something behind leaves a placeholder or a copy. -/
theorem withdraw_supplants (hw : ws.Standard Palette.registry) (hac : ws.graph.Acyclic)
    (hrecords : ∀ template, ws.save d.block = .ok template → ws.Records d.block template)
    (hb : ws.blocks[d.block]? = some b) (hin : b.output.bind ws.targetOf = some s)
    (hprimed : ws.Primed b heal s₀ d real) (he : e.workspace = real)
    (hrun : withdraw d.block heal (ws.copySocket b true) e = .ok () t) (hlast : Lasts t.workspace) :
    t.workspace.Forest ∧ ∃ q, ws.Supplants s d.block b q t.workspace := by
  have hs := hw.sound
  have hbares := hprimed.bares
  have hrac : real.graph.Acyclic := hbares.graph hb ▸ hac
  subst he
  cases hmark : b.placeholder with
  | true =>
    rw [copySocket, hmark, Bool.not_true, Bool.and_false, if_neg Bool.false_ne_true] at hrun
    have hpulls := (Edit.pullOut_pulls (hbares.sound hs hb) hrac d.block heal).ok
      (withdraw_none_ok hrun) hlast rfl
    exact hbares.supplants hs hac hb hin hmark hpulls
  | false =>
    rw [copySocket, hmark, Bool.not_false, Bool.and_true, if_pos rfl, hin] at hrun
    obtain ⟨template, u, k, v, w, hsave, hpull, hbuild, hattach, hset⟩ := withdraw_some_ok hrun
    rw [hbares.eq_of_real hmark] at hsave hpull
    have htrue := Editor.stable_true (α := α)
    have hlastw : Lasts w :=
      (Edit.setCopyOnDrag_keeps (X := ∅) htrue d.block (some false)).lasts hset hlast
    have hlastv : Lasts v := (Edit.attach_keeps (X := ∅) htrue s k).lasts hattach hlastw
    have hlastu : Lasts u := (Edit.restore_keeps (X := ∅) htrue template).lasts hbuild hlastv
    obtain ⟨p, hwaits⟩ := ((Edit.pullOut_pulls hs hac d.block heal).ok hpull hlastu rfl).waits hs hac
      hb hin
    have hcopy := ((Edit.restore_copies Palette.registry_distinct
      ⟨ws, d.block, hw, hrecords template hsave⟩ u).ok hbuild hlastv
        ⟨rfl, Edit.pullOut_standard hw hpull hlastu⟩).1
    have hv := hcopy.standard.sound
    have hvac := hcopy.fresh.acyclic hv hwaits.acyclic
    have hstop := (hwaits.parted.extend hcopy.fresh.extend hv hvac).stopgap
    obtain ⟨q, hseat⟩ := (Edit.attach_seats hv hvac hcopy.fresh.loose fun a ha => (hstop a ha).1).ok
      hattach hlastw rfl
    obtain ⟨b', hb', hforest, hsupplants⟩ := hwaits.supplants hs hac hb hmark hsave hcopy hseat
    rw [Edit.setCopyOnDrag_eq hb', ← insert_eq_withOverride hb'] at hset
    obtain ⟨-, hend⟩ := (EStateM.Result.ok.injEq ..).mp hset
    rw [← hend]
    exact ⟨hforest, k, hsupplants⟩

/-- A drag of a block that is to leave something behind leaves a placeholder or a copy. -/
theorem pickUp_supplants (hw : e.workspace.Standard Palette.registry)
    (hac : e.workspace.graph.Acyclic)
    (hrecords : ∀ template, e.workspace.save x = .ok template → e.workspace.Records x template)
    (hb : e.workspace.blocks[x]? = some b) (hin : b.output.bind e.workspace.targetOf = some s)
    (hkeeps : e.workspace.leavesCopy x = .ok true) (hrun : pickUp block heal e = .ok x t)
    (hlast : Lasts t) : t.workspace.Sound ∧ ∃ q, e.workspace.Supplants s x b q t.workspace := by
  have hs := hw.sound
  obtain ⟨offset, b', u, -, hlog, hb', hdetached⟩ := pickUp_withdraws hs hac hrun hlast
  obtain ⟨log, rfl⟩ := id hlog
  set u : Workspace α := { e.workspace with events := log } with hu
  have hdrift : e.workspace.Drifts u := drifts_aside e.workspace log e.workspace.tasks
  have hus : u.Sound := hdrift.sound hs
  obtain rfl : b = b' := Option.some.inj (hb.symm.trans hb')
  obtain ⟨o, w, v, hl, hv⟩ := hus.link_of_output hb' hin
  have hparent : u.parent x = .ok (some w.block) :=
    (hus.parent_eq_some hb').mpr ⟨s, o, w, v, hl, hv, rfl⟩
  obtain ⟨keeps, d, real, requests, phase, e₁, hasked, hprimed, hwithdraw, hrests⟩ :=
    hdetached (.child hparent)
  obtain rfl : keeps = true :=
    Except.ok.inj (hasked.symm.trans ((leavesCopy_withLog x).trans hkeeps))
  obtain rfl : d.block = x := by
    rw [hprimed.session]
    rfl
  have hlast' : Lasts e₁.workspace := by
    rw [lasts_workspace, ← hrests.ids]
    exact hlast
  have hrecords' : ∀ template, u.save d.block = .ok template → u.Records d.block template := by
    intro template hsave
    have h := hrecords template ((save_withLog d.block).symm.trans hsave)
    exact ⟨h.tame, h.full, hsave⟩
  obtain ⟨hforest, q, hq⟩ := withdraw_supplants ⟨hus, hw.shaped.congr rfl rfl rfl, hw.registry⟩ hac
    hrecords' hb' hin hprimed rfl hwithdraw hlast'
  exact ⟨hrests.sound hforest.sound, q,
    (hq.drifts hforest.sound hforest.acyclic hrests.toDrifts).relogs hlog⟩

end Act

namespace Editor

variable [Scalar α] {config : EditorConfig α} {e t : Editor α} {actions : List (Action α)}
  {block x : BlockId} {s : ConnectionId} {b : Block α} {heal : Bool}

/-- After a run in which nothing was refused, a drag of a block that is to leave something behind
puts a new block into its socket: an equal copy of a real block, and a placeholder for a placeholder.
The dragged block is a root with all its branch, it is real, and it leaves no more copies. -/
theorem run_supplants (hstart : create config Palette.registry = .ok e)
    (haccepted : e.Accepted actions) (hac : (e.run actions).workspace.graph.Acyclic)
    (hb : (e.run actions).workspace.blocks[x]? = some b)
    (hin : b.output.bind (e.run actions).workspace.targetOf = some s)
    (hkeeps : (e.run actions).workspace.leavesCopy x = .ok true)
    (hrun : Act.pickUp block heal (e.run actions) = .ok x t) (hlast : Lasts t) :
    ∃ q, q ≠ x ∧ ¬ (e.run actions).workspace.Live q ∧
      (e.run actions).workspace.Supplants s x b q t.workspace ∧
      (∃ b', t.workspace.blocks[x]? = some b' ∧ b'.looks = b.departed.looks) ∧
      ∀ a, t.workspace.Branch x a ↔ (e.run actions).workspace.Branch x a := by
  have hlast' : Lasts (e.run actions) :=
    (Act.pickUp_keeps (X := ∅) stable_true block heal).lasts hrun hlast
  have hw := run_standard hstart hlast'
  obtain ⟨ht, q, hq⟩ := Act.pickUp_supplants hw hac
    (fun _ hsave => run_records hstart hlast' haccepted hac hsave) hb hin hkeeps hrun hlast
  have hnew : ¬ (e.run actions).workspace.Live q := by
    rintro ⟨b', hb'⟩
    have hold := hw.sound.blockIds hb'
    have hlate := hq.new
    omega
  refine ⟨q, ?_, hnew, hq, hq.block, hq.branch hw.sound ht hb⟩
  rintro rfl
  exact hnew ⟨b, hb⟩

/-- A sum of a name and a placeholder is returned, and leaves copies. -/
def copiedSum : List (Action Int) :=
  [.newBlock "Return", .newBlock "BinOp", .newBlock "Name", .connect ⟨1⟩ ⟨2⟩, .connect ⟨3⟩ ⟨5⟩,
    .setTemplate ⟨4⟩ (some (.placeholderOfType "Name")), .setCopyOnDrag ⟨1⟩ (some true)]

/-- A drag of the sum leaves a copy of it in its socket, and a drag of the placeholder another
placeholder. -/
theorem run_supplants_sum :
    (∃ b t q, Act.pickUp ⟨1⟩ false ((fresh (.standard : EditorConfig Int) Palette.registry).run
        copiedSum) = .ok ⟨1⟩ t ∧ b.placeholder = false ∧
      ((fresh (.standard : EditorConfig Int) Palette.registry).run copiedSum).workspace.Supplants
        ⟨1⟩ ⟨1⟩ b q t.workspace) ∧
    ∃ b t q, Act.pickUp ⟨3⟩ false ((fresh (.standard : EditorConfig Int) Palette.registry).run
        copiedSum) = .ok ⟨3⟩ t ∧ b.placeholder = true ∧
      ((fresh (.standard : EditorConfig Int) Palette.registry).run copiedSum).workspace.Supplants
        ⟨4⟩ ⟨3⟩ b q t.workspace := by
  have leaves : ∀ (e : Editor Int) (actions : List (Action Int)) (x : BlockId) (s : ConnectionId)
      (mark : Bool) (t : Editor Int), create .standard Palette.registry = .ok e →
      e.Accepted actions → (e.run actions).workspace.graph.Acyclic →
      (((e.run actions).workspace.blocks[x]?).any fun b => b.placeholder == mark &&
        b.output.bind (e.run actions).workspace.targetOf == some s) →
      (e.run actions).workspace.leavesCopy x = .ok true →
      Act.pickUp x false (e.run actions) = .ok x t → Lasts t →
      ∃ b t q, Act.pickUp x false (e.run actions) = .ok x t ∧ b.placeholder = mark ∧
        (e.run actions).workspace.Supplants s x b q t.workspace := by
    intro e actions x s mark t hstart haccepted hac hx hkeeps hpick hlast
    obtain ⟨b, hb, hmark⟩ := (Option.any_eq_true _ _).mp hx
    rw [Bool.and_eq_true, beq_iff_eq, beq_iff_eq] at hmark
    obtain ⟨q, -, -, hq, -⟩ := run_supplants hstart haccepted hac hb hmark.2 hkeeps hpick hlast
    exact ⟨b, t, q, hpick, hmark.1, hq⟩
  have hstart : create (.standard : EditorConfig Int) Palette.registry =
      .ok (fresh .standard Palette.registry) := create_fresh (by decide)
  have haccepted : (fresh (.standard : EditorConfig Int) Palette.registry).Accepted copiedSum :=
    accepted_of_acceptsAll (by decide +kernel)
  constructor
  · exact leaves _ _ ⟨1⟩ ⟨1⟩ false _ hstart haccepted (acyclic_of_ordered (by decide +kernel))
      (by decide +kernel) (by decide +kernel) (Act.eq_ok_of_answer (by decide +kernel))
      (by decide +kernel)
  · exact leaves _ _ ⟨3⟩ ⟨4⟩ true _ hstart haccepted (acyclic_of_ordered (by decide +kernel))
      (by decide +kernel) (by decide +kernel) (Act.eq_ok_of_answer (by decide +kernel))
      (by decide +kernel)

end Editor

end BlockEditor
