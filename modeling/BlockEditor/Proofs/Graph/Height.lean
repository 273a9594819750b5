import BlockEditor.Proofs.Graph.Tree

/-!
# Heights

A block that does not hang below itself carries a tree. The way down from it never comes to a
block twice, so the tree is no higher than there are blocks.
-/

namespace BlockEditor.Graph

variable {g : Graph} {a b : BlockId}

/-- Fewer than `n` links lead down from the block. -/
def Shallow (g : Graph) : Nat → BlockId → Prop
  | 0, _ => False
  | n + 1, b => ∀ a, g.Under a b → g.Shallow n a

theorem Shallow.of_under {g' : Graph} {n : Nat} (h : g.Shallow n b)
    (hu : ∀ a b, g'.Under a b → g.Under a b) : g'.Shallow n b := by
  induction n generalizing b with
  | zero => exact h.elim
  | succ n ih => exact fun a ha => ih (h a (hu a b ha))

section Path

variable {L : List BlockId} {P : BlockId → Prop}

/-- The way from the top to a block cannot be longer than the list of live blocks. -/
theorem shallow_of_path (tame : ∀ b, P b → g.Tame b) (down : ∀ a b, P b → g.Under a b → P a ∧ a ∈ L)
    (n : Nat) (b : BlockId) (path : List BlockId) (hb : P b) (hbL : b ∈ L) (nodup : path.Nodup)
    (hpath : path ⊆ L) (above : ∀ x ∈ path, g.Below b x) (enough : L.length ≤ path.length + n) :
    g.Shallow n b := by
  have fresh : b ∉ path := fun h => tame b hb (above b h)
  have nodup' : (b :: path).Nodup := List.nodup_cons.mpr ⟨fresh, nodup⟩
  have hpath' : b :: path ⊆ L := List.cons_subset.mpr ⟨hbL, hpath⟩
  induction n generalizing b path with
  | zero =>
    have := nodup'.length_le_of_subset hpath'
    simp only [List.length_cons] at this
    omega
  | succ n ih =>
    intro a ha
    obtain ⟨ha', haL⟩ := down a b hb ha
    have above' : ∀ x ∈ b :: path, g.Below a x := by
      intro x hx
      rcases List.mem_cons.mp hx with rfl | hx
      · exact .single ha
      · exact .head ha (above x hx)
    have fresh' : a ∉ b :: path := fun h => tame a ha' (above' a h)
    exact ih a (b :: path) ha' haL nodup' hpath' above'
      (by simp only [List.length_cons]; omega) fresh' (List.nodup_cons.mpr ⟨fresh', nodup'⟩)
      (List.cons_subset.mpr ⟨haL, hpath'⟩)

theorem shallow_of_down (tame : ∀ b, P b → g.Tame b) (down : ∀ a b, P b → g.Under a b → P a ∧ a ∈ L)
    (hb : P b) : g.Shallow (L.length + 1) b := by
  intro a ha
  obtain ⟨ha', haL⟩ := down a b hb ha
  exact shallow_of_path tame down L.length a [] ha' haL List.nodup_nil (List.nil_subset L)
    (fun x hx => by cases hx) (by simp)

/-- A tree is no higher than there are live blocks. -/
theorem Tame.shallow (hg : g.Wired) (hL : ∀ a l, g.ends a = some l → a ∈ L) (hb : g.Tame b) :
    g.Shallow (L.length + 1) b := by
  refine shallow_of_down (fun _ h => h) (fun x y hy hu => ⟨hy.of_under hg hu, ?_⟩) hb
  obtain ⟨⟨l, hl⟩, -⟩ := hu.live hg
  exact hL x l hl

/-- Where no block hangs below itself, nothing else is asked of the links. -/
theorem Acyclic.shallow (hL : ∀ a b, g.Under a b → a ∈ L) (h : g.Acyclic) (b : BlockId) :
    g.Shallow (L.length + 1) b :=
  shallow_of_down (P := fun _ => True) (fun b _ => h b) (fun a b _ hu => ⟨trivial, hL a b hu⟩) trivial

end Path

/-- The graph without some blocks. -/
def without (g : Graph) (L : List BlockId) : Graph :=
  g.prune (fun c => (g.wire c).any fun w => decide (w.block ∈ L)) fun b => decide (b ∈ L)

theorem Wired.without (hg : g.Wired) (L : List BlockId) : (g.without L).Wired :=
  hg.prune fun c w hw hb => by simpa [hw] using hb

theorem under_of_without {L : List BlockId} (h : (g.without L).Under a b) : g.Under a b :=
  under_of_prune h

theorem under_without {L : List BlockId} (h : g.Under a b) (ha : a ∉ L) (hb : b ∉ L) :
    (g.without L).Under a b := by
  obtain ⟨s, p, w, v, hl, rfl, rfl⟩ := h
  have hs := prune_wire_of (D := fun c => (g.wire c).any fun w => decide (w.block ∈ L))
    (R := fun b => decide (b ∈ L)) hl.socket (by simpa [hl.socket] using hb)
  have hp := prune_wire_of (D := fun c => (g.wire c).any fun w => decide (w.block ∈ L))
    (R := fun b => decide (b ∈ L)) hl.plug (by simpa [hl.plug] using ha)
  exact ⟨s, p, _, _, ⟨hs, hp, hl.isSocket, by simp [hl.down, hl.plug, ha]⟩, rfl, rfl⟩

theorem without_ends {L : List BlockId} {l : List Role} (h : (g.without L).ends a = some l) :
    a ∉ L ∧ ∃ l', g.ends a = some l' := by
  by_cases ha : a ∈ L
  · simp [without, prune, ha] at h
  · simp only [without, prune, ha, decide_false, Bool.false_eq_true, if_false,
      Option.map_eq_some_iff] at h
    obtain ⟨l', hl', -⟩ := h
    exact ⟨ha, l', hl'⟩

theorem without_mono {L L' : List BlockId} (hL : L ⊆ L') (h : (g.without L').Under a b) :
    (g.without L).Under a b := by
  have hu := under_of_without h
  obtain ⟨s, p, w, v, hl, ha, hb⟩ := h
  obtain ⟨hDs, w', hw', rfl⟩ := prune_wire hl.socket
  obtain ⟨hDp, v', hv', rfl⟩ := prune_wire hl.plug
  refine under_without hu ?_ ?_
  · rw [← ha]
    simp only [hv', Option.any_some, decide_eq_false_iff_not] at hDp
    exact fun h => hDp (hL h)
  · rw [← hb]
    simp only [hw', Option.any_some, decide_eq_false_iff_not] at hDs
    exact fun h => hDs (hL h)

end BlockEditor.Graph
