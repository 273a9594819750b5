import BlockEditor.Block
import Mathlib.Logic.Relation

/-!
# Graphs of blocks

What blocks and connections are to each other, apart from all else that is known of them: the ends
that each block lists, and what each connection is and is linked to. A graph is wired if blocks and
connections list each other and links go both ways.
-/

namespace BlockEditor

/-- What a connection is to the graph. -/
structure Wire where
  block : BlockId
  kind : ConnectionKind
  check : Option (List String)
  target : Option ConnectionId

/-- An end that a block lists, with the kind that its place asks for. -/
abbrev Role := ConnectionId × Option ConnectionKind

structure Graph where
  ends : BlockId → Option (List Role)
  wire : ConnectionId → Option Wire

namespace Graph

structure Wired (g : Graph) : Prop where
  listed : ∀ {b l r}, g.ends b = some l → r ∈ l →
    ∃ w, g.wire r.1 = some w ∧ w.block = b ∧ some w.kind = r.2
  owned : ∀ {c w}, g.wire c = some w → ∃ l, g.ends w.block = some l ∧ (c, some w.kind) ∈ l
  once : ∀ {b l}, g.ends b = some l → (l.map Prod.fst).Nodup
  onePlug : ∀ {c d w v}, g.wire c = some w → g.wire d = some v → w.block = v.block →
    w.kind.isPlug → v.kind.isPlug → c = d
  joined : ∀ {c w d}, g.wire c = some w → w.target = some d →
    ∃ v, g.wire d = some v ∧ v.target = some c ∧ v.kind = w.kind.opposite ∧
      checksFit w.check v.check ∧ v.block ≠ w.block

/-- Socket and plug of a link, with what they are. -/
structure Link (g : Graph) (s p : ConnectionId) (w v : Wire) : Prop where
  socket : g.wire s = some w
  plug : g.wire p = some v
  isSocket : w.kind.isSocket
  down : w.target = some p

/-- The block `a` hangs on the block `b`. -/
def Under (g : Graph) (a b : BlockId) : Prop :=
  ∃ s p w v, g.Link s p w v ∧ v.block = a ∧ w.block = b

/-- No plug of the block is linked. -/
def Loose (g : Graph) (b : BlockId) : Prop :=
  ∀ p v, g.wire p = some v → v.block = b → v.kind.isPlug → v.target = none

/-- No socket of the block is linked. -/
def Bare (g : Graph) (b : BlockId) : Prop :=
  ∀ s w, g.wire s = some w → w.block = b → w.kind.isSocket → w.target = none

/-- The block `a` hangs below the block `b`, at some depth. -/
def Below (g : Graph) : BlockId → BlockId → Prop :=
  Relation.TransGen g.Under

/-- The block does not hang below itself. -/
def Tame (g : Graph) (b : BlockId) : Prop :=
  ¬ g.Below b b

/-- No block hangs below itself. -/
def Acyclic (g : Graph) : Prop :=
  ∀ b, g.Tame b

end Graph

namespace ConnectionKind

@[simp]
theorem opposite_opposite (k : ConnectionKind) : k.opposite.opposite = k := by
  cases k <;> rfl

@[simp]
theorem isSocket_opposite (k : ConnectionKind) : k.opposite.isSocket = k.isPlug := by
  cases k <;> rfl

@[simp]
theorem isPlug_opposite (k : ConnectionKind) : k.opposite.isPlug = k.isSocket := by
  cases k <;> rfl

theorem isPlug_eq_not (k : ConnectionKind) : k.isPlug = !k.isSocket := by
  cases k <;> rfl

end ConnectionKind

theorem checksFit_comm (a b : Option (List String)) : checksFit a b = checksFit b a := by
  cases a with
  | none => cases b <;> rfl
  | some a =>
    cases b with
    | none => rfl
    | some b =>
      rw [Bool.eq_iff_iff]
      simp only [checksFit, List.any_eq_true, List.contains_iff_mem]
      exact ⟨fun ⟨x, hx, hy⟩ => ⟨x, hy, hx⟩, fun ⟨x, hx, hy⟩ => ⟨x, hy, hx⟩⟩

namespace Graph

variable {g : Graph} {a b c d x : BlockId} {s p : ConnectionId} {w v : Wire}

theorem Link.under (h : g.Link s p w v) : g.Under v.block w.block :=
  ⟨s, p, w, v, h, rfl, rfl⟩

theorem Link.up (hg : g.Wired) (h : g.Link s p w v) : v.target = some s := by
  obtain ⟨v', hv', ht, -⟩ := hg.joined h.socket h.down
  rw [h.plug] at hv'
  cases hv'
  exact ht

theorem Link.kind (hg : g.Wired) (h : g.Link s p w v) : v.kind = w.kind.opposite := by
  obtain ⟨v', hv', -, hk, -⟩ := hg.joined h.socket h.down
  rw [h.plug] at hv'
  cases hv'
  exact hk

theorem Link.isPlug (hg : g.Wired) (h : g.Link s p w v) : v.kind.isPlug := by
  rw [h.kind hg, ConnectionKind.isPlug_opposite]
  exact h.isSocket

/-- Whoever has a linked plug hangs on the owner of the socket. -/
theorem link_of_plug (hg : g.Wired) (hv : g.wire p = some v) (hk : v.kind.isPlug)
    (ht : v.target = some s) : ∃ w, g.Link s p w v := by
  obtain ⟨w, hw, hwt, hwk, -⟩ := hg.joined hv ht
  exact ⟨w, hw, hv, by rw [hwk, ConnectionKind.isSocket_opposite]; exact hk, hwt⟩

theorem link_of_socket (hg : g.Wired) (hw : g.wire s = some w) (hk : w.kind.isSocket)
    (ht : w.target = some p) : ∃ v, g.Link s p w v := by
  obtain ⟨v, hv, -⟩ := hg.joined hw ht
  exact ⟨v, hw, hv, hk, ht⟩

/-- A block hangs by one link at most. -/
theorem Link.same_plug {s' p' : ConnectionId} {w' v' : Wire} (hg : g.Wired) (h : g.Link s p w v)
    (h' : g.Link s' p' w' v') (hb : v.block = v'.block) : p = p' :=
  hg.onePlug h.plug h'.plug hb (h.isPlug hg) (h'.isPlug hg)

theorem Link.same_socket {s' p' : ConnectionId} {w' v' : Wire} (hg : g.Wired)
    (h : g.Link s p w v) (h' : g.Link s' p' w' v') (hb : v.block = v'.block) : s = s' := by
  have hp : p = p' := h.same_plug hg h' hb
  subst hp
  have hv : v = v' := Option.some.inj (h.plug.symm.trans h'.plug)
  subst hv
  exact Option.some.inj ((h.up hg).symm.trans (h'.up hg))

/-- A block hangs on one block at most. -/
theorem under_unique (hg : g.Wired) (h : g.Under a b) (h' : g.Under a c) : b = c := by
  obtain ⟨s, p, w, v, hl, rfl, rfl⟩ := h
  obtain ⟨s', p', w', v', hl', hv', rfl⟩ := h'
  have hs : s = s' := hl.same_socket hg hl' hv'.symm
  subst hs
  have hw : w = w' := Option.some.inj (hl.socket.symm.trans hl'.socket)
  rw [hw]

theorem Loose.not_under (hg : g.Wired) (h : g.Loose a) : ¬ g.Under a b := by
  rintro ⟨s, p, w, v, hl, rfl, -⟩
  have ht := h p v hl.plug rfl (hl.isPlug hg)
  rw [hl.up hg] at ht
  cases ht

theorem loose_iff (hg : g.Wired) : g.Loose a ↔ ∀ b, ¬ g.Under a b := by
  refine ⟨fun h b => h.not_under hg, fun h p v hv hb hk => ?_⟩
  cases ht : v.target with
  | none => rfl
  | some s =>
    obtain ⟨w, hl⟩ := link_of_plug hg hv hk ht
    exact (h w.block ⟨s, p, w, v, hl, hb, rfl⟩).elim

theorem Loose.not_below (hg : g.Wired) (h : g.Loose a) : ¬ g.Below a b := by
  intro hb
  obtain ⟨x, hx, -⟩ := Relation.TransGen.head'_iff.mp hb
  exact h.not_under hg hx

theorem Loose.tame (hg : g.Wired) (h : g.Loose a) : g.Tame a :=
  h.not_below hg

/-- Whatever hangs below itself has only blocks above it that do so too. -/
theorem Tame.of_below (hg : g.Wired) (h : g.Tame b) (hb : g.Below a b) : g.Tame a := by
  intro ha
  induction hb using Relation.TransGen.head_induction_on with
  | single hu =>
    obtain ⟨y, hy, hyx⟩ := Relation.TransGen.head'_iff.mp ha
    obtain rfl := under_unique hg hy hu
    exact h (Relation.TransGen.tail' hyx hu)
  | head hu _ ih =>
    obtain ⟨y, hy, hyx⟩ := Relation.TransGen.head'_iff.mp ha
    obtain rfl := under_unique hg hy hu
    exact ih (Relation.TransGen.tail' hyx hu)

/-- Of two blocks above a block one is above the other. -/
theorem below_or_below (hg : g.Wired) (ha : g.Below x a) (hb : g.Below x b) :
    a = b ∨ g.Below a b ∨ g.Below b a := by
  induction ha using Relation.TransGen.head_induction_on with
  | single hu =>
    obtain ⟨y, hy, hyb⟩ := Relation.TransGen.head'_iff.mp hb
    obtain rfl := under_unique hg hu hy
    rcases Relation.reflTransGen_iff_eq_or_transGen.mp hyb with rfl | hyb
    · exact Or.inl rfl
    · exact Or.inr (Or.inl hyb)
  | head hu ha ih =>
    obtain ⟨y, hy, hyb⟩ := Relation.TransGen.head'_iff.mp hb
    obtain rfl := under_unique hg hu hy
    rcases Relation.reflTransGen_iff_eq_or_transGen.mp hyb with rfl | hyb
    · exact Or.inr (Or.inr ha)
    · exact ih hyb

theorem Tame.of_under (hg : g.Wired) (h : g.Tame b) (hu : g.Under a b) : g.Tame a :=
  h.of_below hg (.single hu)

/-- The ends of a link belong to live blocks. -/
theorem Under.live (hg : g.Wired) (h : g.Under a b) :
    (∃ l, g.ends a = some l) ∧ ∃ l, g.ends b = some l := by
  obtain ⟨s, p, w, v, hl, rfl, rfl⟩ := h
  obtain ⟨l, hl', -⟩ := hg.owned hl.plug
  obtain ⟨k, hk', -⟩ := hg.owned hl.socket
  exact ⟨⟨l, hl'⟩, ⟨k, hk'⟩⟩

end Graph

end BlockEditor
