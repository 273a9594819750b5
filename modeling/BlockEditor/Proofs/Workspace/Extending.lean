import BlockEditor.Proofs.Workspace.Raising
import Mathlib.Data.Set.Insert

/-!
# Steps that leave what is there alone

What is built anew does not touch the blocks and connections that were there before, apart from the
sockets that are filled.
-/

namespace BlockEditor.Workspace

variable {α : Type} {ws ws' ws'' t : Workspace α} {C C' : Set ConnectionId} {id a x : BlockId}
  {c : ConnectionId} {strict : Prop}

/-- The blocks with an earlier number. -/
def earlier (n : Nat) (l : List BlockId) : List BlockId :=
  l.filter fun x => decide (x.index.toNat < n)

@[simp]
theorem mem_earlier {n : Nat} {l : List BlockId} : x ∈ earlier n l ↔ x ∈ l ∧ x.index.toNat < n := by
  simp [earlier]

theorem earlier_earlier {n m : Nat} (l : List BlockId) (h : n ≤ m) :
    earlier n (earlier m l) = earlier n l := by
  rw [earlier, earlier, earlier, List.filter_filter]
  refine List.filter_congr fun x _ => ?_
  rw [Bool.eq_iff_iff]
  simp only [Bool.and_eq_true, decide_eq_true_eq]
  omega

/-- What is left out of a list and has a later number does not matter. -/
theorem earlier_filter {n : Nat} (l : List BlockId) {q : BlockId → Bool}
    (h : ∀ x, x.index.toNat < n → q x) : earlier n (l.filter q) = earlier n l := by
  rw [earlier, earlier, List.filter_filter]
  refine List.filter_congr fun x _ => ?_
  by_cases hx : x.index.toNat < n <;> simp [hx, h]

theorem earlier_append {n : Nat} (l : List BlockId) (h : n ≤ x.index.toNat) :
    earlier n (l ++ [x]) = earlier n l := by
  have hx : ¬ x.index.toNat < n := by omega
  simp [earlier, hx]

/-- Everything with an earlier number is as it was, but for the connections in `C`. -/
structure Extends (C : Set ConnectionId) (ws ws' : Workspace α) : Prop where
  blocks : ∀ x : BlockId, x.index.toNat < ws.ids.blocks → ws'.blocks[x]? = ws.blocks[x]?
  connections : ∀ c : ConnectionId, c ∉ C → c.index.toNat < ws.ids.connections →
    ws'.connections[c]? = ws.connections[c]?
  blockCount : ws.ids.blocks ≤ ws'.ids.blocks
  endCount : ws.ids.connections ≤ ws'.ids.connections
  registry : ws'.registry = ws.registry
  top : earlier ws.ids.blocks ws'.top = earlier ws.ids.blocks ws.top

namespace Extends

theorem refl (C : Set ConnectionId) (ws : Workspace α) : Extends C ws ws where
  blocks _ _ := rfl
  connections _ _ _ := rfl
  blockCount := Nat.le_refl _
  endCount := Nat.le_refl _
  registry := rfl
  top := rfl

theorem trans (h : Extends C ws ws') (h' : Extends C' ws' ws'')
    (hC : ∀ c ∈ C', c ∈ C ∨ ws.ids.connections ≤ c.index.toNat) : Extends C ws ws'' where
  blocks x hx := (h'.blocks x (Nat.lt_of_lt_of_le hx h.blockCount)).trans (h.blocks x hx)
  connections c hc hlt := by
    have hc' : c ∉ C' := by
      intro hc'
      rcases hC c hc' with h | h
      · exact hc h
      · omega
    exact (h'.connections c hc' (Nat.lt_of_lt_of_le hlt h.endCount)).trans (h.connections c hc hlt)
  blockCount := Nat.le_trans h.blockCount h'.blockCount
  endCount := Nat.le_trans h.endCount h'.endCount
  registry := h'.registry.trans h.registry
  top := by
    rw [← h.top, ← earlier_earlier _ h.blockCount, h'.top, earlier_earlier _ h.blockCount]

theorem live (h : Extends C ws ws') (hs : ws.Sound) (hx : ws.Live x) : ws'.Live x := by
  obtain ⟨b, hb⟩ := hx
  exact ⟨b, by rw [h.blocks x (hs.blockIds hb), hb]⟩

theorem block (h : Extends C ws ws') (hs : ws.Sound) {b : Block α} (hb : ws.blocks[x]? = some b) :
    ws'.blocks[x]? = some b := by
  rw [h.blocks x (hs.blockIds hb), hb]

theorem connection (h : Extends C ws ws') (hs : ws.Sound) {y : Connection α}
    (hy : ws.connections[c]? = some y) (hc : c ∉ C) : ws'.connections[c]? = some y := by
  rw [h.connections c hc (hs.connectionIds hy), hy]

/-- What hung on something hangs there still. -/
theorem under (h : Extends ∅ ws ws') (hs : ws.Sound) (hu : ws.graph.Under a x) :
    ws'.graph.Under a x := by
  obtain ⟨s, p, w, v, hl, rfl, rfl⟩ := hu
  obtain ⟨y, hy, rfl⟩ := connection_of_wire hl.socket
  obtain ⟨z, hz, rfl⟩ := connection_of_wire hl.plug
  refine hl.under_of_wires ?_ ?_
  · rw [wire_of_connection (h.connection hs hy (Set.notMem_empty s)), wire_of_connection hy]
  · rw [wire_of_connection (h.connection hs hz (Set.notMem_empty p)), wire_of_connection hz]

/-- An old block hangs on what it hung on before, if the sockets that were emptied are free. -/
theorem under_old_of_free (h : Extends C ws ws') (hs : ws.Sound) (hs' : ws'.Sound)
    (hC : ∀ c ∈ C, ws'.targetOf c = none) (ha : a.index.toNat < ws.ids.blocks)
    (hu : ws'.graph.Under a x) : ws.graph.Under a x := by
  obtain ⟨s, p, w, v, hl, rfl, rfl⟩ := hu
  obtain ⟨z, hz, rfl⟩ := connection_of_wire hl.plug
  obtain ⟨b, hb, hp⟩ := hs'.mem_connections_of hz
  have hup : z.target = some s := hl.up hs'.wired
  have hpC : p ∉ C := by
    intro hp
    have hfree := hC p hp
    rw [targetOf_eq hz, hup] at hfree
    cases hfree
  have hsC : s ∉ C := by
    intro hsC
    have hfree := hC s hsC
    obtain ⟨y, hy, hyw⟩ := connection_of_wire hl.socket
    rw [targetOf_eq hy, show y.target = w.target from congrArg Wire.target hyw, hl.down] at hfree
    cases hfree
  have hb' : ws.blocks[z.block]? = some b := by
    rw [← h.blocks z.block ha]
    exact hb
  obtain ⟨z₀, hz₀, -⟩ := hs.connection_of_mem hb' hp
  have hzz : z = z₀ := by
    have := h.connection hs hz₀ hpC
    rw [hz] at this
    exact Option.some.inj this
  subst hzz
  have hk := hl.isPlug hs'.wired
  obtain ⟨w₀, hl₀⟩ := Graph.link_of_plug hs.wired (wire_of_connection hz₀) hk hup
  obtain ⟨y₀, hy₀, rfl⟩ := connection_of_wire hl₀.socket
  have hw : ws'.graph.wire s = some y₀.wire := wire_of_connection (h.connection hs hy₀ hsC)
  rw [hl.socket, Option.some.injEq] at hw
  exact ⟨s, p, _, _, hl₀, rfl, by rw [hw]⟩

theorem under_old (h : Extends ∅ ws ws') (hs : ws.Sound) (hs' : ws'.Sound)
    (ha : a.index.toNat < ws.ids.blocks) (hu : ws'.graph.Under a x) : ws.graph.Under a x :=
  h.under_old_of_free hs hs' (fun _ hc => hc.elim) ha hu

/-- Whatever hangs below a new block is new, if the sockets that were emptied are free. -/
theorem branch_new_of_free (h : Extends C ws ws') (hs : ws.Sound) (hs' : ws'.Sound)
    (hC : ∀ c ∈ C, ws'.targetOf c = none) (hx : ws.ids.blocks ≤ x.index.toNat)
    (ha : ws'.Branch x a) : ws.ids.blocks ≤ a.index.toNat := by
  have old : ∀ {b y : BlockId}, ws'.graph.Under b y → b.index.toNat < ws.ids.blocks →
      y.index.toNat < ws.ids.blocks := by
    intro b y hu hlt
    obtain ⟨c, hc⟩ := hs.exists_upper (h.under_old_of_free hs hs' hC hlt hu)
    exact hs.blockIds hc
  rcases ha with rfl | ha
  · exact hx
  · induction ha using Relation.TransGen.head_induction_on with
    | single hu => exact Nat.le_of_not_lt fun hlt => Nat.not_lt_of_le hx (old hu hlt)
    | head hu _ ih => exact Nat.le_of_not_lt fun hlt => Nat.not_lt_of_le ih (old hu hlt)

theorem branch_new (h : Extends ∅ ws ws') (hs : ws.Sound) (hs' : ws'.Sound)
    (hx : ws.ids.blocks ≤ x.index.toNat) (ha : ws'.Branch x a) :
    ws.ids.blocks ≤ a.index.toNat :=
  h.branch_new_of_free hs hs' (fun _ hc => hc.elim) hx ha

/-- An old connection belongs to an old block. -/
theorem owner_old (h : Extends C ws ws') (hs : ws.Sound) (hC : c ∉ C)
    (hc : c.index.toNat < ws.ids.connections) {y : Connection α}
    (hy : ws'.connections[c]? = some y) : y.block.index.toNat < ws.ids.blocks := by
  rw [h.connections c hC hc] at hy
  obtain ⟨b, hb, -⟩ := hs.owner hy
  exact hs.blockIds hb

/-- Moving new blocks leaves the old ones alone. -/
theorem shifts {S : BlockId → Prop} (h : Extends C ws ws') (hs : ws.Sound)
    (hstep : ws'.Shifts S ws'') (hS : ∀ x, S x → ws.ids.blocks ≤ x.index.toNat) :
    Extends C ws ws'' where
  blocks x hx := by
    rw [hstep.still x fun hs => absurd (hS x hs) (by omega), h.blocks x hx]
  connections c hC hc := by
    rw [← h.connections c hC hc]
    cases hy : ws'.connections[c]? with
    | none =>
      have := hstep.connections c
      rwa [hy, Option.map_none, Option.map_eq_none_iff] at this
    | some y =>
      have hold := h.owner_old hs hC hc hy
      exact hstep.fixed c y hy fun hs => absurd (hS _ hs) (by omega)
  blockCount := by
    rw [hstep.ids]
    exact h.blockCount
  endCount := by
    rw [hstep.ids]
    exact h.endCount
  registry := by
    rw [hstep.registry]
    exact h.registry
  top := by
    rw [hstep.top]
    exact h.top

/-- To take new things away leaves the old ones as they are. -/
theorem loses {keep gone : List Input} {R : List BlockId} (h : Extends C ws ws') (hs : ws.Sound)
    (hl : ws'.Loses id keep gone R t) (hid : ws.ids.blocks ≤ id.index.toNat)
    (hR : ∀ x ∈ R, ws.ids.blocks ≤ x.index.toNat)
    (halive : ∀ c : ConnectionId, c.index.toNat < ws.ids.connections →
      ws'.dead (gone.filterMap (·.connection)) R c = false) : Extends C ws t where
  blocks x hx := by
    have hxR : x ∉ R := fun hmem => Nat.not_lt_of_le (hR x hmem) hx
    have hne : x ≠ id := by
      rintro rfl
      omega
    rw [hl.kept x hxR, ← h.blocks x hx]
    simp [hne]
  connections c hC hc := by
    rw [hl.connections, ← h.connections c hC hc, halive c hc]
    cases hy : ws'.connections[c]? with
    | none => rfl
    | some y =>
      have hf : y.target.filter (!ws'.dead (gone.filterMap (·.connection)) R ·) = y.target := by
        cases ht : y.target with
        | none => rfl
        | some d =>
          rw [h.connections c hC hc] at hy
          obtain ⟨z, hz, -⟩ := hs.target hy ht
          simp [halive d (hs.connectionIds hz)]
      simp [hf]
  blockCount := by
    rw [hl.ids]
    exact h.blockCount
  endCount := by
    rw [hl.ids]
    exact h.endCount
  registry := by
    rw [hl.registry]
    exact h.registry
  top := by
    have hkept : ∀ x : BlockId, x.index.toNat < ws.ids.blocks → decide (x ∉ R) := fun x hx =>
      decide_eq_true fun hmem => Nat.not_lt_of_le (hR x hmem) hx
    rw [hl.top, earlier_filter _ hkept]
    exact h.top

end Extends

/-! ### The new block itself -/

/-- All sockets of the block are as new: free and without a placeholder. -/
def Blank (ws : Workspace α) (id : BlockId) : Prop :=
  ∀ (c : ConnectionId) (y : Connection α), ws.connections[c]? = some y → y.block = id →
    y.kind.isSocket → y.target = none ∧ y.template = none

/-- A block that was built since the state `ws` and hangs on nothing yet. -/
structure Fresh (ws : Workspace α) (id : BlockId) (ws' : Workspace α) : Prop where
  start : ws.Sound
  extend : Extends ∅ ws ws'
  new : ws.ids.blocks ≤ id.index.toNat
  loose : ws'.graph.Loose id
  /-- Whatever else was built hangs below the block. -/
  sole : ∀ x, ws.ids.blocks ≤ x.index.toNat → ws'.Live x → ws'.Branch id x

/-- What is old hangs only on what it hung on before. -/
theorem Extends.below_old (h : Extends ∅ ws ws') (hs : ws.Sound) (hs' : ws'.Sound)
    (ha : a.index.toNat < ws.ids.blocks) (hb : ws'.graph.Below a x) : ws.graph.Below a x := by
  induction hb using Relation.TransGen.head_induction_on with
  | single hu => exact .single (h.under_old hs hs' ha hu)
  | head hu _ ih =>
    have hold := h.under_old hs hs' ha hu
    obtain ⟨b, hb⟩ := hs.exists_upper hold
    exact .head hold (ih (hs.blockIds hb))

/-- A new tree makes no cycle. -/
theorem Fresh.acyclic (h : ws.Fresh id t) (ht : t.Sound) (hac : ws.graph.Acyclic) :
    t.graph.Acyclic := by
  intro b hb
  by_cases hold : b.index.toNat < ws.ids.blocks
  · exact hac b (h.extend.below_old h.start ht hold hb)
  · have hbranch := h.sole b (Nat.le_of_not_lt hold) (ht.live_of_below hb)
    have htame := h.loose.tame ht.wired
    rcases hbranch with rfl | hbranch
    · exact htame hb
    · exact htame.of_below ht.wired hbranch hb

/-- To take away what is new, or part of it, leaves everything old as it was. -/
theorem Fresh.loses {keep gone : List Input} {R : List BlockId} (h : ws.Fresh id t) (ht : t.Sound)
    (hl : t.Loses id keep gone R ws') : Extends ∅ ws ws' := by
  have hnew : ∀ x ∈ R, ws.ids.blocks ≤ x.index.toNat := fun x hR =>
    h.extend.branch_new h.start ht h.new (hl.below x hR)
  refine h.extend.loses h.start hl h.new hnew fun c hc => Bool.eq_false_iff.mpr fun hd => ?_
  obtain ⟨y, hy, hyb⟩ := hl.owner_of_dead ht hd
  have hold := h.extend.owner_old h.start (Set.notMem_empty c) hc hy
  rcases hyb with hid | hR
  · exact Nat.not_lt_of_le h.new (hid ▸ hold)
  · exact Nat.not_lt_of_le (hnew _ hR) hold

section Fine

variable [Scalar α]

theorem fine_blank (strict : Prop) (id : BlockId) : Fine (α := α) strict id (Blank · id) where
  shifts _ hstep hj c y hy hyb hk := by
    obtain ⟨y₀, hy₀, he⟩ := hstep.symm_connection hy
    have hb : y₀.block = y.block := congrArg (fun u : Connection Unit => u.block) he
    have hk' : y₀.kind = y.kind := congrArg (fun u : Connection Unit => u.kind) he
    have ht : y₀.target = y.target := congrArg (fun u : Connection Unit => u.target) he
    have hm : y₀.template = y.template := congrArg (fun u : Connection Unit => u.template) he
    rw [← ht, ← hm]
    exact hj c y₀ hy₀ (hb.trans hyb) (hk' ▸ hk)
  sheds _ _ hstep hj c y hy hyb hk := by
    obtain ⟨R, hl, -⟩ := hstep
    obtain ⟨-, y₀, hy₀, rfl⟩ := hl.old_connection hy
    obtain ⟨ht, hm⟩ := hj c y₀ hy₀ hyb hk
    exact ⟨by simp [ht], hm⟩
  pushes _ hstep hj _ c y hy hyb hk := by
    rcases mem_or_ne _ c with ⟨e, he, rfl⟩ | hc
    · rw [hstep.made e he] at hy
      cases hy
      exact ⟨rfl, rfl⟩
    · rw [hstep.kept hc] at hy
      exact hj c y hy hyb hk

theorem fine_fresh (strict : Prop) (ws : Workspace α) (id : BlockId) :
    Fine (α := α) strict id (ws.Fresh id) where
  shifts {t t'} hs hstep hj := by
    refine ⟨hj.start, hj.extend.shifts hj.start hstep fun x hx => ?_, hj.new, ?_, ?_⟩
    · exact hj.extend.branch_new hj.start hs hj.new hx
    · rw [hstep.graph]
      exact hj.loose
    · rintro x hx ⟨b, hb⟩
      obtain ⟨b₀, hb₀, -⟩ := hstep.symm_block hb
      rw [Branch, hstep.graph]
      exact hj.sole x hx ⟨b₀, hb₀⟩
  sheds {t t' keep gone} hs _ hstep hj := by
    obtain ⟨R, hl, hseal⟩ := hstep
    refine ⟨hj.start, hj.loses hs hl, hj.new, ?_, ?_⟩
    · refine (Graph.loose_iff (hl.sound hs).wired).mpr fun y hy => ?_
      exact hj.loose.not_under hs.wired (hl.under hs hy)
    · rintro x hx ⟨b, hb⟩
      obtain ⟨-, b₀, hb₀, -⟩ := hl.old hb
      have htame := hj.loose.tame hs.wired
      exact hl.branch_of_live hs (hseal htame).1 (hj.sole x hx ⟨b₀, hb₀⟩) ⟨b, hb⟩
  pushes {t t' ts is l} hs hstep hj _ := by
    refine ⟨hj.start, ⟨fun x hx => ?_, fun c hC hc => ?_, ?_, ?_, ?_, ?_⟩, hj.new, ?_, ?_⟩
    · have hne : x ≠ id := by
        rintro rfl
        have := hj.new
        omega
      rw [hstep.blocks, ← hj.extend.blocks x hx]
      simp [hne]
    · rw [hstep.kept_of_old (Nat.lt_of_lt_of_le hc hj.extend.endCount)]
      exact hj.extend.connections c hC hc
    · rw [hstep.rest]
      exact hj.extend.blockCount
    · exact Nat.le_trans hj.extend.endCount hstep.count
    · rw [hstep.rest]
      exact hj.extend.registry
    · rw [hstep.rest]
      exact hj.extend.top
    · exact (hstep.loose hs).mpr hj.loose
    · rintro x hx ⟨b, hb⟩
      rw [hstep.blocks, Option.map_eq_some_iff] at hb
      obtain ⟨b₀, hb₀, -⟩ := hb
      exact hstep.branch hs (hj.sole x hx ⟨b₀, hb₀⟩)

end Fine

variable {b b' : Block α}

theorem Fresh.insert (h : ws.Fresh id t) (hb : t.blocks[id]? = some b)
    (hr : b'.roles = b.roles) : ws.Fresh id { t with blocks := t.blocks.insert id b' } where
  start := h.start
  extend := {
    blocks := fun x hx => by
      have hne : id ≠ x := by
        rintro rfl
        have := h.new
        omega
      rw [← h.extend.blocks x hx]
      simp [Std.ExtTreeMap.getElem?_insert, hne]
    connections := h.extend.connections
    blockCount := h.extend.blockCount
    endCount := h.extend.endCount
    registry := h.extend.registry
    top := h.extend.top }
  new := h.new
  loose := by
    rw [graph_insert hb hr]
    exact h.loose
  sole x hx hl := by
    obtain ⟨b₀, hb₀⟩ := hl
    rw [Branch, graph_insert hb hr]
    refine h.sole x hx ?_
    by_cases he : x = id
    · subst he
      exact ⟨b, hb⟩
    · rw [getElem?_insert, if_neg he] at hb₀
      exact ⟨b₀, hb₀⟩

/-- Counts, reports and callers do not matter. -/
theorem Fresh.congr {t' : Workspace α} (h : ws.Fresh id t)
    (ht : t' = { t with events := t'.events, procedures := t'.procedures }) : ws.Fresh id t' := by
  have hg : t'.graph = t.graph := by
    rw [ht]
    rfl
  have he : Extends ∅ ws t' := by
    rw [ht]
    exact ⟨h.extend.blocks, h.extend.connections, h.extend.blockCount, h.extend.endCount,
      h.extend.registry, h.extend.top⟩
  refine ⟨h.start, he, h.new, ?_, fun x hx hl => ?_⟩
  · rw [hg]
    exact h.loose
  · rw [Branch, hg]
    rw [Live, ht] at hl
    exact h.sole x hx hl

/-- A block that was just made is new, and its sockets are as new. -/
theorem Raises.blank_fresh [Scalar α] {d : BlockDefinition} {b : Block α} (h : ws.Raises d id b t)
    (hs : ws.Sound) (hone : d.output = none ∨ d.previous = none) : ws.Fresh id t ∧ t.Blank id := by
  have hne : ∀ x : BlockId, x.index.toNat < ws.ids.blocks → x ≠ id := by
    rintro x hx rfl
    rw [h.new] at hx
    omega
  have hextend : Extends ∅ ws t := {
    blocks := fun x hx => by rw [h.blocks, if_neg (hne x hx)]
    connections := fun c _ hc => h.kept_of_old hc
    blockCount := by
      rw [h.ids_blocks]
      exact Nat.le_succ _
    endCount := h.count
    registry := h.registry
    top := by
      rw [h.top]
      exact earlier_append _ (Nat.le_of_eq h.new.symm) }
  refine ⟨⟨hs, hextend, Nat.le_of_eq h.new.symm, h.loose_self hs hone, ?_⟩, ?_⟩
  · rintro x hx ⟨b', hb'⟩
    refine Or.inl (Classical.byContradiction fun hxid => ?_)
    rw [h.blocks, if_neg hxid] at hb'
    have := hs.blockIds hb'
    omega
  · intro c y hy hyb hk
    rcases mem_or_ne _ c with ⟨e, he, rfl⟩ | hc
    · rw [h.made e he] at hy
      cases hy
      exact ⟨rfl, rfl⟩
    · rw [h.kept hc] at hy
      obtain ⟨b', hb', -⟩ := hs.owner hy
      rw [hyb, h.dead hs] at hb'
      cases hb'

end BlockEditor.Workspace

namespace BlockEditor.Edit

open Workspace

variable {α : Type} [Scalar α]

/-- Resizing a new block leaves it loose and blank, and the rest as it was. -/
theorem setUnits_fresh (ws : Workspace α) (id : BlockId) (n : Nat) :
    Leads (Good False id fun t => ws.Fresh id t ∧ t.Blank id) (setUnits id n)
      (fun _ t => Good False id (fun t => ws.Fresh id t ∧ t.Blank id) t ∧ t.Live id)
      fun t => t.Sound ∧ ws.Fresh id t ∧ t.Blank id := by
  have hfine : Fine (α := α) False id fun t => ws.Fresh id t ∧ t.Blank id :=
    (fine_fresh False ws id).and (fine_blank False id)
  refine setUnits_keeps (K := fun _ _ t => ws.Fresh id t ∧ t.Blank id) hfine.handles
    (fun _ _ => hfine.handles) ?_ ?_ ?_ n
  · rintro t b new - hb ⟨hf, hblank⟩
    exact ⟨hf.insert hb rfl, hblank⟩
  · rintro t old new - - ⟨hf, hblank⟩
    split
    · exact ⟨hf.congr rfl, hblank⟩
    · exact ⟨hf, hblank⟩
  · exact fun _ _ h => h

theorem newBlock_fresh (ws : Workspace α) (typeName : String) :
    Leads (fun t => t.Sound ∧ t = ws) (newBlock typeName)
      (fun id t => Good False id (fun t => ws.Fresh id t ∧ t.Blank id) t ∧ t.Live id)
      fun t => t.Sound ∧ (t = ws ∨ ∃ id, ws.Fresh id t) := by
  have hfine : ∀ id, Fine (α := α) False id fun t => ws.Fresh id t ∧ t.Blank id :=
    fun id => (fine_fresh False ws id).and (fine_blank False id)
  refine ((newBlock_keeps (P := fun t => t = ws ∧ ws.Sound)
    (J := fun t => t = ws ∨ ∃ id, ws.Fresh id t)
    (K := fun _ id t => ws.Fresh id t ∧ t.Blank id) typeName ?_ ?_
    (fun _ id => (hfine id).handles) ?_ (fun id => (hfine id).handles) (setUnits_fresh ws) ?_ ?_).pre ?_)
  · exact fun h => Or.inl h.1
  · rintro t d id b t' hs hd hr ⟨ht, -⟩
    rw [ht] at hs hd hr
    exact hr.blank_fresh hs (hs.registry typeName d hd)
  · rintro t d id - ⟨hf, hblank⟩
    exact ⟨hf.congr rfl, hblank⟩
  · rintro t id name ⟨hf, hblank⟩
    exact ⟨hf.congr rfl, hblank⟩
  · exact fun h => Or.inr ⟨_, h.1⟩
  · rintro t ⟨hs, rfl⟩
    exact ⟨hs, rfl, hs⟩

end BlockEditor.Edit
