import BlockEditor.Proofs.StandIns

/-!
# Placeholders have parents

A placeholder that loses its parent is on its way to another one, is about to be disposed, or was
made real before. So between two edits none of them hangs on nothing. Within an edit a few blocks
may be exceptions.
-/

namespace BlockEditor

variable {α : Type}

namespace Workspace

variable {ws t u : Workspace α} {x child id : BlockId} {b b' : Block α} {c s p : ConnectionId}
  {H K : Set BlockId} {o : Option Edit.Orphan} {heal : Bool} {d s₀ : DragSession α}

theorem live_of_isPlaceholder (h : ws.isPlaceholder x) : ∃ b, ws.blocks[x]? = some b ∧ b.placeholder :=
  (Option.any_eq_true _ _).mp h

/-- Every placeholder hangs on a block, apart from some blocks. -/
def Tethered (H : Set BlockId) (ws : Workspace α) : Prop :=
  ∀ x, ws.isPlaceholder x → ws.graph.Loose x → x ∈ H

namespace Tethered

theorem mono (h : ws.Tethered H) (hH : H ⊆ K) : ws.Tethered K :=
  fun x hmark hloose => hH (h x hmark hloose)

/-- A block that is no placeholder need not be an exception. -/
theorem drop (h : ws.Tethered (insert x H)) (hx : ¬ ws.isPlaceholder x) : ws.Tethered H := by
  intro y hmark hloose
  rcases h y hmark hloose with rfl | hy
  · exact (hx hmark).elim
  · exact hy

/-- No placeholder comes about, and none comes to hang on nothing. -/
theorem carry (h : ws.Tethered H) (hkept : ∀ x, t.isPlaceholder x → t.graph.Loose x →
    ws.isPlaceholder x ∧ ws.graph.Loose x) : t.Tethered H :=
  fun x hmark hloose => h x (hkept x hmark hloose).1 (hkept x hmark hloose).2

theorem drifts (h : ws.Tethered H) (hd : ws.Drifts t) : t.Tethered H := by
  apply h.carry
  intro x hmark hloose
  rw [hd.isPlaceholder] at hmark
  rw [hd.graph] at hloose
  exact ⟨hmark, hloose⟩

theorem insert_block (h : ws.Tethered H) (hb : ws.blocks[id]? = some b) (hr : b'.roles = b.roles)
    (hmark : b'.placeholder → b.placeholder) :
    Tethered H { ws with blocks := ws.blocks.insert id b' } := by
  apply h.carry
  intro x hx hloose
  rw [graph_insert hb hr] at hloose
  refine ⟨?_, hloose⟩
  obtain ⟨b₁, hb₁, hp⟩ := live_of_isPlaceholder hx
  change (ws.blocks.insert id b')[x]? = some b₁ at hb₁
  rw [getElem?_insert] at hb₁
  split at hb₁
  · next hxid =>
    subst hxid
    obtain rfl := Option.some.inj hb₁
    rw [isPlaceholder, hb]
    exact hmark hp
  · rw [isPlaceholder, hb₁]
    exact hp

theorem endows {template : Option Snapshot} (h : ws.Tethered H) (he : ws.Endows c template t) :
    t.Tethered H := by
  apply h.carry
  intro x hmark hloose
  rw [isPlaceholder, he.blocks] at hmark
  rw [he.graph] at hloose
  exact ⟨hmark, hloose⟩

theorem cuts (h : ws.Tethered H) (hs : ws.Sound) (hcut : ws.Cuts s p child t)
    (hchild : ws.isPlaceholder child → child ∈ H) : t.Tethered H := by
  intro x hmark hloose
  obtain ⟨w, v, hl, rfl⟩ := hcut.link
  rw [isPlaceholder, hcut.blocks] at hmark
  rw [hcut.graph, Graph.loose_cut hs.wired hl] at hloose
  rcases hloose with hloose | rfl
  · exact h x hmark hloose
  · exact hchild hmark

/-- A block that gets a parent is no exception any more. -/
theorem ties (h : ws.Tethered (insert child H)) (htie : ws.Ties s p child t) : t.Tethered H := by
  intro x hmark hloose
  obtain ⟨w, v, hm, -, -, rfl⟩ := htie.mates
  rw [isPlaceholder, htie.blocks] at hmark
  rw [htie.graph, Graph.loose_tie hm] at hloose
  exact (h x hmark hloose.1).resolve_left hloose.2

theorem loses {keep gone : List Input} {R : List BlockId} (h : ws.Tethered H) (hs : ws.Sound)
    (hl : ws.Loses id keep gone R t) (hseals : ws.Seals gone R) : t.Tethered H := by
  apply h.carry
  intro x hmark hloose
  obtain ⟨b, hb, hp⟩ := live_of_isPlaceholder hmark
  obtain ⟨hx, b₀, hb₀, rfl⟩ := hl.old hb
  refine ⟨?_, (hl.loose hs hseals hx).mp hloose⟩
  rw [isPlaceholder, hb₀]
  split at hp
  · exact hp
  · exact hp

theorem fells (h : ws.Tethered (insert id H)) (hs : ws.Sound) (hf : ws.Fells id t) :
    t.Tethered H := by
  obtain ⟨b, R, -, hl, hseals⟩ := hf.step
  refine (h.loses hs hl hseals).drop fun hmark => ?_
  obtain ⟨b, hb, -⟩ := live_of_isPlaceholder hmark
  exact not_live_removeTree ws id ⟨b, by rw [← hf.eq]; exact hb⟩

/-- Whatever was built hangs below its root. -/
theorem fresh (h : ws.Tethered H) (hf : ws.Fresh id t) (ht : t.Sound)
    (hid : t.isPlaceholder id → id ∈ H) : t.Tethered H := by
  intro x hmark hloose
  obtain ⟨b, hb, hp⟩ := live_of_isPlaceholder hmark
  by_cases hx : x.index.toNat < ws.ids.blocks
  · apply h x
    · rw [isPlaceholder, ← hf.extend.blocks x hx]
      exact hmark
    · intro c w hw hblock hk
      obtain ⟨y, hy, rfl⟩ := connection_of_wire hw
      have hy' := hf.extend.connection hf.start hy (Set.notMem_empty c)
      exact hloose c y.wire (wire_of_connection hy') hblock hk
  · rcases hf.sole x (Nat.le_of_not_lt hx) ⟨b, hb⟩ with rfl | hbelow
    · exact hid hmark
    · exact (hloose.not_below ht.wired hbelow).elim

theorem grafts (h : u.Tethered (insert child H)) (hg : ws.Grafts u s child t) : t.Tethered H := by
  obtain ⟨p, v, htie, hstep⟩ := hg.step
  exact (h.ties htie).drifts hstep.drifts

theorem refills (h : ws.Tethered H) (hr : ws.Refills c t) : t.Tethered H := by
  cases hr with
  | kept => exact h
  | filled _ _ _ hf hu _ hg =>
    have hgrown := (h.mono (Set.subset_insert _ H)).fresh hf hu fun _ => Set.mem_insert _ H
    exact hgrown.grafts hg

/-- The block that is set free has to be real, or an exception. -/
theorem frees (h : ws.Tethered H) (hs : ws.Sound) (hf : ws.Frees p t) (hp : ws.graph.PlugOf p x)
    (hx : ws.isPlaceholder x → x ∈ H) : t.Tethered H := by
  cases hf with
  | kept => exact h
  | @cut s q child u _ hlink hcut hrefill =>
    obtain ⟨v, hv, rfl, hk⟩ := hp
    obtain ⟨w, v', hl, hchild⟩ := hcut.link
    have hq : p = q := by
      rcases (link?_eq_some hlink hs).2 with rfl | rfl
      · obtain rfl : w = v := Option.some.inj (hl.socket.symm.trans hv)
        rw [ConnectionKind.isPlug_eq_not, hl.isSocket] at hk
        cases hk
      · rfl
    subst hq
    obtain rfl : v' = v := Option.some.inj (hl.plug.symm.trans hv)
    exact (h.cuts hs hcut (hchild ▸ hx)).refills hrefill

/-- A placeholder that makes room is disposed, and any other block that does is real. -/
theorem evicts (h : ws.Tethered H) (hs : ws.Sound) (he : ws.Evicts s o t) : t.Tethered H := by
  cases he with
  | free => exact h
  | @stored _ x _ _ _ u _ hcut hb _ _ hl hseals hendow =>
    have hcut' := (h.mono (Set.subset_insert x H)).cuts hs hcut fun _ => Set.mem_insert x H
    refine Tethered.endows (drop (hcut'.loses (hcut.sound hs) hl hseals) fun hmark => ?_) hendow
    obtain ⟨b, hb, -⟩ := live_of_isPlaceholder hmark
    exact not_live_removeTree u x ⟨b, hb⟩
  | moved hcut hb hreal =>
    refine h.cuts hs hcut fun hmark => ?_
    rw [isPlaceholder, ← hcut.blocks, hb, Option.any_some, hreal] at hmark
    cases hmark

theorem seats (h : ws.Tethered (insert child H)) (hs : ws.Sound) (hseat : ws.Seats s p child o t) :
    t.Tethered H := by
  obtain ⟨u, v, hevict, htie, hstep⟩ := hseat
  exact ((h.evicts hs hevict).ties htie).drifts hstep.drifts

theorem settles {orphan : Edit.Orphan} (h : ws.Tethered H) (hs : ws.Sound)
    (hsettle : ws.Settles x orphan t) : t.Tethered H := by
  cases hsettle with
  | aside _ hd => exact h.drifts hd
  | housed _ hseat => exact (h.mono (Set.subset_insert _ H)).seats hs hseat

theorem joins (h : ws.Tethered H) (hs : ws.Sound) (hplug : ws.graph.PlugOf p child)
    (hj : ws.Joins s p t) : t.Tethered H := by
  obtain ⟨v, hv, rfl, hk⟩ := id hplug
  have freed : ∀ {y : Connection α} {u : Workspace α}, ws.connections[p]? = some y →
      ws.Frees p u → u.Tethered (insert y.block H) := by
    intro y u hy hfree
    obtain rfl : v = y.wire := Option.some.inj (hv.symm.trans (wire_of_connection hy))
    exact (h.mono (Set.subset_insert _ H)).frees hs hfree hplug fun _ => Set.mem_insert _ H
  cases hj with
  | already => exact h
  | only hy hfree hseat => exact (freed hy hfree).seats (hfree.sound hs) hseat
  | swapped hy hfree hseat hsettle =>
    have hseated := (freed hy hfree).seats (hfree.sound hs) hseat
    exact hseated.settles (hseat.sound (hfree.sound hs)) hsettle

theorem links {a e : ConnectionId} (h : ws.Tethered H) (hs : ws.Sound) (hl : ws.Links a e t) :
    t.Tethered H := by
  obtain ⟨s, p, child, -, hpoised, hj⟩ := hl
  exact h.joins hs hpoised.plugOf hj

theorem heals {next : ConnectionId} {above : Option ConnectionId} (h : ws.Tethered H)
    (hs : ws.Sound) (hh : ws.Heals next above t) : t.Tethered H := by
  have freed : ∀ {q : ConnectionId} {below : BlockId} {u : Workspace α}, ws.Cuts next q below u →
      ws.isPlaceholder below = false → u.Tethered H := by
    intro q below u hcut hreal
    refine h.cuts hs hcut fun hmark => ?_
    rw [hreal] at hmark
    cases hmark
  cases hh with
  | stays => exact h
  | left hcut hreal => exact freed hcut hreal
  | healed _ hcut hreal _ hseat =>
    exact ((freed hcut hreal).mono (Set.subset_insert _ H)).seats (hcut.sound hs) hseat

/-- A real block may be pulled out. -/
theorem pulls (h : ws.Tethered H) (hs : ws.Sound) (hreal : ¬ ws.isPlaceholder x)
    (hp : ws.Pulls x heal t) : t.Tethered H := by
  have plug : ∀ {b : Block α} {p : ConnectionId}, ws.blocks[x]? = some b → p ∈ b.plugs →
      ws.graph.PlugOf p x := by
    intro b p hb hmem
    obtain ⟨y, hy, hyb, hk⟩ := hs.plug hb hmem
    exact ⟨y.wire, wire_of_connection hy, hyb, hk⟩
  cases hp with
  | value hb ho hfree =>
    exact h.frees hs hfree (plug hb (mem_plugs.mpr (Or.inl ho))) fun hmark => (hreal hmark).elim
  | root => exact h
  | statement hb _ hprevious hfree =>
    exact h.frees hs hfree (plug hb (mem_plugs.mpr (Or.inr hprevious))) fun hmark =>
      (hreal hmark).elim
  | healed hb _ hprevious hfree _ _ hheal =>
    have hfreed := h.frees hs hfree (plug hb (mem_plugs.mpr (Or.inr hprevious))) fun hmark =>
      (hreal hmark).elim
    exact hfreed.heals (hfree.sound hs) hheal

theorem disposes (h : ws.Tethered H) (hs : ws.Sound) (hd : ws.Disposes id t) : t.Tethered H := by
  have h' := h.mono (Set.subset_insert id H)
  cases hd with
  | root _ hfell => exact h'.fells hs hfell
  | child hcut hfell hrefill =>
    have hcut' := h'.cuts hs hcut fun _ => Set.mem_insert id H
    exact (hcut'.fells (hcut.sound hs) hfell).refills hrefill

theorem bares (h : ws.Tethered H) (hb : ws.blocks[d.block]? = some b) (hbare : ws.Bares b d t) :
    t.Tethered H := by
  cases hbare with
  | real => exact h
  | told => exact h.insert_block hb rfl fun hmark => Bool.noConfusion hmark
  | given _ _ _ _ _ hendow =>
    exact (h.endows hendow).insert_block (hendow.block hb) rfl fun hmark => Bool.noConfusion hmark

theorem leaves [Scalar α] {k : BlockId} (h : ws.Tethered H) (hs : ws.Sound) (hreal : ¬ ws.isPlaceholder x)
    (hl : ws.Leaves heal s p x k t) : t.Tethered H := by
  obtain ⟨u, v, q, w, b, ⟨hpull, -, -⟩, hf, hv, -, hseat, hb, rfl⟩ := hl.steps
  have hpulled := (h.pulls hs hreal hpull).mono (Set.subset_insert k H)
  have hseated := (hpulled.fresh hf hv fun _ => Set.mem_insert k H).seats hv hseat
  exact hseated.insert_block hb rfl id

/-- A placeholder that is dragged has been made real before it leaves. -/
theorem loosened [Scalar α] (h : ws.Tethered H) (hs : ws.Sound) (hb : ws.blocks[s₀.block]? = some b)
    (hl : ws.Loosened b heal s₀ d t) : t.Tethered H := by
  cases hl with
  | still => exact h
  | @detached keeps d d' real t _ _ hprimed hout =>
    have hx : d.block = s₀.block := by
      rw [hprimed.session]
    rw [← hx] at hb
    have hbare := h.bares hb hprimed.bares
    have hs' := hprimed.bares.sound hs hb
    have hreal : ¬ real.isPlaceholder d.block := by
      rw [isPlaceholder, hprimed.bares.block hb]
      exact Bool.false_ne_true
    generalize copySocket ws b keeps = copied at hout
    cases hout with
    | bare hpull => exact hbare.pulls hs' hreal hpull
    | copied hleave => exact hbare.leaves hs' hreal hleave

end Tethered

/-- A sound workspace in which every placeholder hangs on a block. -/
structure Moored (ws : Workspace α) : Prop where
  sound : ws.Sound
  tethered : ws.Tethered ∅

theorem Moored.drifts (h : ws.Moored) (hd : ws.Drifts t) : t.Moored :=
  ⟨hd.sound h.sound, h.tethered.drifts hd⟩

/-- A real block was built, with whatever hangs on it. -/
theorem Moored.fresh (h : ws.Moored) (hf : ws.Fresh id t) (ht : t.Sound)
    (hreal : t.Marked (· = false) id) : t.Moored := by
  refine ⟨ht, h.tethered.fresh hf ht fun hmark => ?_⟩
  obtain ⟨b, hb, hp⟩ := live_of_isPlaceholder hmark
  rw [hreal b hb] at hp
  cases hp

theorem Tethered.setInputs {inputs : List Input} (h : ws.Tethered H) (hb : ws.blocks[id]? = some b)
    (hr : inputs.filterMap Input.role? = b.inputs.filterMap Input.role?) :
    (ws.setInputs id b inputs).Tethered H :=
  h.insert_block hb (by simp only [Block.roles, hr]) fun hmark => hmark

theorem calm_moored [Scalar α] : Calm (α := α) Moored where
  sound h := h.sound
  shifts hstep h := h.drifts hstep.drifts
  drag hb h := h.drifts (drifts_insert hb rfl)
  note _ h := h.drifts (drifts_aside _ _ _)
  group h := h.drifts (drifts_aside _ _ _)
  tasks h := h.drifts (drifts_aside _ _ _)

theorem coarse_tethered (H : Set BlockId) : Coarse (α := α) (Tethered H) where
  units hb h := h.insert_block hb rfl fun hmark => hmark
  events h := h
  procedures h := h

theorem fine_tethered [Scalar α] (H : Set BlockId) (id : BlockId) :
    Fine (α := α) True id (Tethered H) where
  shifts _ hstep h := h.drifts hstep.drifts
  sheds hs ht hstep h := by
    obtain ⟨R, hl, hseals⟩ := hstep
    exact h.loses hs hl (hseals (ht trivial)).1
  pushes hs hstep h _ := by
    apply h.carry
    intro x hmark hloose
    refine ⟨?_, (hstep.loose hs).mp hloose⟩
    obtain ⟨b, hb, hp⟩ := live_of_isPlaceholder hmark
    rw [hstep.blocks, Option.map_eq_some_iff] at hb
    obtain ⟨b₀, hb₀, rfl⟩ := hb
    rw [isPlaceholder, hb₀]
    split at hp
    · exact hp
    · exact hp

end Workspace

namespace Edit

open Workspace

variable [Scalar α] {β : Type}

/-- Unless the edit is refused, every placeholder hangs on a block as before. -/
abbrev Moors (m : Edit α β) : Prop :=
  Leads Moored m (fun _ => Moored) fun _ => True

omit [Scalar α] in
theorem moors_of_keeps {m : Edit α β} (h : Keeps Moored m) : Moors m :=
  h.refused fun _ _ => trivial

theorem connect_moors (a b : ConnectionId) : Moors (connect a b : Edit α Unit) := by
  have base := connect_keeps (X := ∅) (Editor.stable_true (α := α)) a b
  refine Tells.each base fun ws h => ?_
  by_cases hon : ws.canConnect a b = .ok true
  · have free : ∀ (p : ConnectionId) (y : Connection α), p = a ∨ p = b →
        ws.connections[p]? = some y → y.kind.isPlug →
        Tells (· = ws) (disconnect p) (fun _ u => ws.Frees p u) fun _ _ => True :=
      fun p _ _ _ _ => (disconnect_frees h.sound p).refused fun _ _ => trivial
    refine (connect_joins h.sound hon free).weaken (fun _ h => h) ?_ fun _ _ _ => trivial
    exact fun _ t hl => ⟨hl.sound h.sound, h.tethered.links h.sound hl⟩
  · obtain ⟨e, he⟩ := connect_unfit hon
    refine Tells.of_result base ?_
    rintro _ rfl
    rw [he]
    trivial

theorem attach_moors (s : ConnectionId) (child : BlockId) : Moors (attach s child : Edit α Unit) :=
  (Leads.ask fun _ _ _ _ => trivial).bind fun p => (connect_moors s p).pre fun _ h => h.1

theorem dispose_moors (id : BlockId) : Moors (dispose id : Edit α Unit) := by
  refine Tells.each (dispose_keeps (X := ∅) (Editor.stable_true (α := α)) id) fun ws h => ?_
  refine (dispose_disposes h.sound id).weaken (fun _ h => h) (fun _ t hd => ?_) fun _ _ => trivial
  exact ⟨hd.sound h.sound, h.tethered.disposes h.sound hd⟩

omit [Scalar α] in
theorem setField_moors (id : BlockId) (name value : String) :
    Moors (setField id name value : Edit α Unit) := by
  refine Tells.each (setField_keeps (J := fun _ _ => True) (X := ∅) fun _ _ _ _ => trivial)
    fun ws h => ?_
  refine (setField_leads ws id name value).weaken (fun _ h => h) ?_ fun _ _ => trivial
  rintro _ t ⟨b, inputs, procedures, hb, hf, rfl⟩
  have hr := roles_setField hf
  have hs : (ws.setInputs id b inputs).Sound :=
    h.sound.insert hb (by simp only [Block.roles, hr])
  exact ⟨⟨hs.wired, hs.blockIds, hs.connectionIds, hs.registry⟩, h.tethered.setInputs hb hr⟩

theorem newBlock_moors (typeName : String) : Moors (newBlock typeName : Edit α BlockId) := by
  have hJ := Editor.stable_true (α := α)
  refine Tells.each (newBlock_safe (X := ∅) hJ typeName) fun ws h => ?_
  refine (newBlock_sprouts (X := ∅) hJ.growing ws typeName).weaken ?_ ?_ fun _ _ => trivial
  · rintro _ rfl
    exact ⟨rfl, h.sound, trivial⟩
  · exact fun id t hsprout => h.fresh hsprout.fresh hsprout.steady.sound hsprout.mark

theorem restore_moors {s : Snapshot} (hreal : s.placeholder = false) :
    Moors (restore s : Edit α BlockId) := by
  have hJ := Editor.stable_true (α := α)
  refine Tells.each (restore_keeps (X := ∅) hJ s) fun ws h => ?_
  refine Leads.weaken (build_grows hJ.growing s false ∅ ws) ?_ ?_ fun _ _ => trivial
  · rintro _ rfl
    exact ⟨rfl, h.sound, trivial⟩
  · rintro id t ⟨hsteady, hf, -, hmark⟩
    refine h.fresh hf hsteady.sound fun b hb => ?_
    rw [hmark b hb, hreal]
    rfl

/-! ### Containers -/

theorem setUnits_moors (id : BlockId) (n : Nat) :
    Leads (fun t => t.Moored ∧ t.graph.Tame id) (setUnits id n : Edit α Unit)
      (fun _ t => t.Moored ∧ t.graph.Tame id) fun _ => True := by
  refine ((coarse_tethered ∅).setUnits (fine_tethered ∅ id) n).weaken ?_ ?_ fun _ _ => trivial
  · exact fun _ h => ⟨h.1.sound, fun _ => h.2, h.1.tethered⟩
  · exact fun _ _ h => ⟨⟨h.1.sound, h.1.keeps⟩, h.1.tame trivial⟩

theorem loadShape_moors (id : BlockId) (shape : Json) :
    Leads (fun t => t.Moored ∧ t.graph.Tame id) (loadShape id shape : Edit α Nat)
      (fun _ => Moored) fun _ => True :=
  (setUnits_moors id 0).bind fun _ => (setUnits_moors id _).bind fun _ => Leads.pure fun _ h => h.1

theorem fillUnit_moors (id : BlockId) (unit : Nat) : Moors (fillUnit id unit : Edit α Unit) :=
  (newBlock_moors "dict_item").bind fun entry => (Leads.ask fun _ _ _ _ => trivial).bind fun slot =>
    (attach_moors slot entry).pre fun _ h => h.1

theorem press_moors (id : BlockId) (control : Control) :
    Leads (fun t => t.Moored ∧ t.graph.Tame id) (press id control : Edit α Unit)
      (fun _ => Moored) fun _ => True := by
  unfold press
  refine (Leads.ask fun _ _ _ _ => trivial).bind fun kind => ?_
  refine (Leads.ask fun _ _ _ _ => trivial).bind fun shown => ?_
  refine Leads.ite (fun _ => ?_) fun _ => Leads.throw fun _ _ => trivial
  refine (Leads.block fun _ _ _ => trivial).bind fun b => ?_
  cases control with
  | add =>
    unfold pressAdd
    refine Leads.optional (fun _ => Leads.throw fun _ _ => trivial) ?_
    refine ((setUnits_moors id _).pre fun _ h => h.1.1.1).bind fun _ => ?_
    refine Leads.ite (fun _ => (fillUnit_moors id _).pre fun _ h => h.1) fun _ => ?_
    exact Leads.pure fun _ h => h.1
  | remove => exact ((setUnits_moors id _).pre fun _ h => h.1.1.1).post fun _ _ h => h.1

/-! ### Putting back -/

theorem discardCopy_moors (copy : BlockId) : Moors (discardCopy copy : Edit α Unit) :=
  get_keeps.bind fun _ => Leads.ite (fun _ => dispose_moors copy) fun _ => Leads.pure fun _ h => h

theorem takeBackStack_moors (id : BlockId) (plug : ConnectionId) :
    Moors (takeBackStack id plug : Edit α Unit) := by
  unfold takeBackStack
  refine (Leads.block fun _ _ _ => trivial).bind fun b => ?_
  cases b.next with
  | none => exact Leads.pure fun _ h => h.1
  | some next =>
    refine (Leads.get (Q := fun _ => Moored) fun _ h => h.1).bind fun _ => ?_
    exact Leads.ite (fun _ => connect_moors plug next) fun _ => Leads.pure fun _ h => h

theorem takePlace_moors (s : DragSession α) : Moors (takePlace s : Edit α Unit) := by
  unfold takePlace
  refine ((formerPlace_keeps s).refused fun _ _ => trivial).bind fun place => ?_
  split
  · exact connect_moors _ _
  · refine (Leads.ask fun _ _ _ _ => trivial).bind fun parent => ?_
    refine Leads.ite (fun _ => ?_) fun _ => Leads.pure fun _ h => h.1
    refine Leads.bind ((moors_of_keeps (moveTo_keeps calm_moored s.block s.start "drag")).pre
      fun _ h => h.1) fun _ => ?_
    exact (moors_of_keeps (keepInView_keeps calm_moored s.block)).bind fun _ =>
      Leads.pure fun _ h => h

/-- The block is marked again only where it has a parent. -/
theorem putBack_moors (s : DragSession α) : Moors (putBack s : Edit α Unit) := by
  unfold putBack
  refine Leads.bind (Q := fun _ => Moored)
    (Leads.forM_option _ (fun copy _ => discardCopy_moors copy) fun _ _ h => h) fun _ => ?_
  refine Leads.bind (Q := fun _ => Moored) (Leads.updateBlock (fun ws b h hb => ?_)
    fun _ _ _ => trivial) fun _ => ?_
  · exact ⟨h.sound.insert hb rfl, h.tethered.insert_block hb rfl fun hmark => hmark⟩
  refine Leads.bind (Q := fun _ => Moored)
    (Leads.forM_option _ (fun plug _ => takeBackStack_moors s.block plug) fun _ _ h => h)
    fun _ => ?_
  refine (takePlace_moors s).bind fun _ => ?_
  refine Leads.ite (fun _ => ?_) fun _ => Leads.pure fun _ h => h
  refine (Leads.ask fun _ _ _ _ => trivial).bind fun parent => ?_
  refine Leads.ite (fun hparent => ?_) fun _ => Leads.pure fun _ h => h.1
  refine Leads.updateBlock ?_ fun _ _ _ => trivial
  rintro ws b ⟨h, hfound⟩ hb
  obtain ⟨above, rfl⟩ := Option.isSome_iff_exists.mp hparent
  have hunder := (h.sound.parent_eq_some hb).mp hfound
  have hgraph : Workspace.graph
      { ws with blocks := ws.blocks.insert s.block { b with placeholder := true } } = ws.graph :=
    graph_insert hb rfl
  refine ⟨h.sound.insert hb rfl, fun x hmark hloose => ?_⟩
  rw [hgraph] at hloose
  by_cases hx : x = s.block
  · subst hx
    exact (hloose.not_under h.sound.wired hunder).elim
  · refine h.tethered x ?_ hloose
    obtain ⟨b₁, hb₁, hp⟩ := live_of_isPlaceholder hmark
    change (ws.blocks.insert s.block _)[x]? = some b₁ at hb₁
    rw [getElem?_insert, if_neg hx] at hb₁
    rw [isPlaceholder, hb₁]
    exact hp

end Edit

end BlockEditor
