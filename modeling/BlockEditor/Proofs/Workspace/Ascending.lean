import BlockEditor.Drag.Policy
import BlockEditor.Proofs.Workspace.Removal

/-!
# The way up

From parent to parent a block is led to one that hangs on nothing. Where no block hangs below itself
this way ends, and it passes no more blocks than there are. Who is dragged, and whether, depends on
the first real block on it.
-/

namespace BlockEditor.Workspace

variable {α : Type} {ws : Workspace α} {x a : BlockId} {way : List BlockId} {n : Nat}

/-- The way from a block up to the one that hangs on nothing. -/
inductive Ascends (ws : Workspace α) : BlockId → List BlockId → Prop
  | top {x : BlockId} : ws.parent x = .ok none → Ascends ws x [x]
  | step {x a : BlockId} {way : List BlockId} :
    ws.parent x = .ok (some a) → Ascends ws a way → Ascends ws x (x :: way)

/-- Whoever moves when a drag starts at the bottom of the way: the first block that is no
placeholder. -/
def mover (ws : Workspace α) (way : List BlockId) : Option BlockId :=
  way.find? fun x => !ws.isPlaceholder x

/-- A block that is not held in its place by itself, the flyout or the workspace. -/
def MayMove (ws : Workspace α) (id : BlockId) : Prop :=
  ∃ b, ws.blocks[id]? = some b ∧ b.movable ∧ ¬ b.inFlyout ∧ ¬ ws.config.readOnly

/-- What every block hangs on is live. -/
def Supported (ws : Workspace α) : Prop :=
  ∀ x, ws.Live x → ws.parent x = .ok none ∨
    ∃ a, ws.parent x = .ok (some a) ∧ ws.Live a ∧ ws.graph.Under x a

/-! ### Ways -/

theorem mover_of_placeholder (h : ws.isPlaceholder x) : ws.mover (x :: way) = ws.mover way := by
  rw [mover, mover, List.find?_cons, h]
  rfl

theorem mover_of_real (h : ¬ ws.isPlaceholder x) : ws.mover (x :: way) = some x := by
  rw [mover, List.find?_cons, Bool.eq_false_iff.mpr h]
  rfl

theorem isPlaceholder_of_block {b : Block α} (h : ws.blocks[x]? = some b) :
    ws.isPlaceholder x = b.placeholder := by
  rw [isPlaceholder, h, Option.any_some]

namespace Ascends

theorem head (h : ws.Ascends x way) : ∃ rest, way = x :: rest := by
  cases h with
  | top => exact ⟨[], rfl⟩
  | step => exact ⟨_, rfl⟩

theorem live (h : ws.Ascends x way) : ∀ y ∈ way, ws.Live y := by
  induction h with
  | top hp =>
    intro y hy
    rw [List.mem_singleton.mp hy]
    exact live_of_parent hp
  | step hp _ ih =>
    intro y hy
    rcases List.mem_cons.mp hy with rfl | hy
    · exact live_of_parent hp
    · exact ih y hy

theorem live_of_mover (h : ws.Ascends x way) (hm : ws.mover way = some a) : ws.Live a :=
  h.live a (List.mem_of_find?_eq_some hm)

/-- The way goes on below the blocks that it leads to. -/
theorem below_of_mem (h : ws.Ascends x way) (hs : ws.Supported) :
    ∀ y ∈ way.tail, ws.graph.Below x y := by
  induction h with
  | top => exact nofun
  | @step x a way hp hway ih =>
    intro y hy
    have hunder : ws.graph.Under x a := by
      rcases hs x (live_of_parent hp) with hnone | ⟨a', ha', -, hunder⟩
      · rw [hnone] at hp
        cases hp
      · rw [ha', Except.ok.injEq, Option.some.injEq] at hp
        exact hp ▸ hunder
    obtain ⟨rest, rfl⟩ := hway.head
    rcases List.mem_cons.mp hy with rfl | hy
    · exact .single hunder
    · exact .head hunder (ih y hy)

/-- The block that the way ends at hangs on nothing. -/
theorem last (h : ws.Ascends x way) : ∃ top, way.getLast? = some top ∧ ws.parent top = .ok none := by
  induction h with
  | top hp => exact ⟨_, rfl, hp⟩
  | step _ hway ih =>
    obtain ⟨top, htop, hnone⟩ := ih
    obtain ⟨rest, rfl⟩ := hway.head
    exact ⟨top, by rw [List.getLast?_cons_cons, htop], hnone⟩

end Ascends

/-- The blocks that the way has passed are all different and live, so that it cannot pass more than
there are. -/
theorem Supported.ascendsFrom (h : ws.Supported) (hac : ws.graph.Acyclic) (hl : ws.Live x)
    (passed : List BlockId) (nodup : passed.Nodup) (hpassed : passed ⊆ ws.blockIds)
    (below : ∀ y ∈ passed, ws.graph.Below y x) (enough : ws.blockIds.length ≤ passed.length + n) :
    ∃ way, ws.Ascends x way ∧ passed.length + way.length ≤ ws.blockIds.length := by
  have nodup' : (x :: passed).Nodup := List.nodup_cons.mpr ⟨fun hx => hac x (below x hx), nodup⟩
  have hpassed' : x :: passed ⊆ ws.blockIds :=
    List.cons_subset.mpr ⟨mem_blockIds.mpr hl, hpassed⟩
  have hlength := nodup'.length_le_of_subset hpassed'
  rw [List.length_cons] at hlength
  induction n generalizing x passed with
  | zero => omega
  | succ n ih =>
    rcases h x hl with hnone | ⟨a, ha, hla, hunder⟩
    · exact ⟨[x], .top hnone, by rw [List.length_singleton]; omega⟩
    · have below' : ∀ y ∈ x :: passed, ws.graph.Below y a := by
        intro y hy
        rcases List.mem_cons.mp hy with rfl | hy
        · exact .single hunder
        · exact .tail (below y hy) hunder
      have nodup'' : (a :: x :: passed).Nodup :=
        List.nodup_cons.mpr ⟨fun ha => hac a (below' a ha), nodup'⟩
      have hpassed'' : a :: x :: passed ⊆ ws.blockIds :=
        List.cons_subset.mpr ⟨mem_blockIds.mpr hla, hpassed'⟩
      obtain ⟨way, hway, hbound⟩ := ih hla (x :: passed) nodup' hpassed' below'
        (by rw [List.length_cons]; omega) nodup'' hpassed''
        (nodup''.length_le_of_subset hpassed'')
      rw [List.length_cons] at hbound
      exact ⟨x :: way, .step ha hway, by rw [List.length_cons]; omega⟩

theorem Supported.ascends (h : ws.Supported) (hac : ws.graph.Acyclic) (hl : ws.Live x) :
    ∃ way, ws.Ascends x way ∧ way.length ≤ ws.walkBound := by
  obtain ⟨way, hway, hbound⟩ := h.ascendsFrom (n := ws.blockIds.length) hac hl [] List.nodup_nil
    (List.nil_subset _) nofun (Nat.le_add_left _ _)
  rw [length_blockIds, List.length_nil] at hbound
  exact ⟨way, hway, by rw [walkBound]; omega⟩

theorem Sound.supported (h : ws.Sound) : ws.Supported := by
  rintro x ⟨b, hb⟩
  rcases h.parentSocket_cases hb with ⟨s, p, w, v, -, hl, hv⟩ | ⟨-, hloose⟩
  · have hunder : ws.graph.Under x w.block := ⟨s, p, w, v, hl, hv, rfl⟩
    exact Or.inr ⟨w.block, (h.parent_eq_some hb).mpr hunder, h.exists_upper hunder, hunder⟩
  · exact Or.inl ((h.parent_eq_none hb).mpr hloose)

/-! ### Questions that go up -/

/-- A real block answers for itself. -/
theorem isMovableWithin_of_real {b : Block α} (hb : ws.blocks[x]? = some b) (hreal : ¬ b.placeholder) :
    ∃ on, ws.isMovableWithin (n + 1) x = .ok on ∧ (on = true ↔ ws.MayMove x) := by
  refine ⟨b.movable && !b.inFlyout && !ws.config.readOnly, ?_, ?_⟩
  · rw [Workspace.isMovableWithin, hb]
    dsimp only
    rw [if_neg hreal]
    rfl
  · constructor
    · intro hon
      simp only [Bool.and_eq_true, Bool.not_eq_true'] at hon
      exact ⟨b, hb, hon.1.1, by simp [hon.1.2], by simp [hon.2]⟩
    · rintro ⟨b', hb', hmovable, hflyout, hwritable⟩
      rw [hb, Option.some.injEq] at hb'
      subst hb'
      simp [hmovable, hflyout, hwritable]

namespace Ascends

theorem isMovableWithin (h : ws.Ascends x way) (hn : way.length ≤ n) :
    ∃ on, ws.isMovableWithin n x = .ok on ∧
      (on = true ↔ ∃ m, ws.mover way = some m ∧ ws.MayMove m) := by
  induction h generalizing n with
  | @top x hp =>
    obtain ⟨steps, rfl⟩ := Nat.exists_eq_add_one.mpr hn
    obtain ⟨b, hb⟩ := live_of_parent hp
    have hmark := isPlaceholder_of_block hb
    by_cases hreal : b.placeholder
    · refine ⟨false, ?_, ?_⟩
      · rw [Workspace.isMovableWithin, hb]
        dsimp only
        rw [if_pos hreal, hp]
        rfl
      · rw [mover_of_placeholder (hmark.trans hreal)]
        exact ⟨nofun, nofun⟩
    · obtain ⟨on, hon, hiff⟩ := isMovableWithin_of_real (n := steps) hb hreal
      rw [mover_of_real (hmark ▸ hreal)]
      exact ⟨on, hon, by simpa using hiff⟩
  | @step x a way hp hway ih =>
    obtain ⟨steps, rfl⟩ := Nat.exists_eq_add_one.mpr (Nat.zero_lt_of_lt hn)
    obtain ⟨b, hb⟩ := live_of_parent hp
    have hmark := isPlaceholder_of_block hb
    by_cases hreal : b.placeholder
    · obtain ⟨on, hon, hiff⟩ := ih (Nat.le_of_succ_le_succ hn)
      refine ⟨on, ?_, ?_⟩
      · rw [Workspace.isMovableWithin, hb]
        dsimp only
        rw [if_pos hreal, hp]
        exact hon
      · rw [mover_of_placeholder (hmark.trans hreal)]
        exact hiff
    · obtain ⟨on, hon, hiff⟩ := isMovableWithin_of_real (n := steps) hb hreal
      rw [mover_of_real (hmark ▸ hreal)]
      exact ⟨on, hon, by simpa using hiff⟩

/-- One step of the search for a real block. -/
theorem realAboveWithin_step {b : Block α} (hp : ws.parent x = .ok (some a))
    (hb : ws.blocks[a]? = some b) : ws.realAboveWithin (n + 1) x =
      if b.placeholder then ws.realAboveWithin n a else .ok a := by
  rw [Workspace.realAboveWithin, hp]
  change (ws.block a >>= fun b => _) = _
  rw [block_eq_ok.mpr hb]
  rfl

/-- The search starts above its block, and answers the top of the way if it finds nothing. -/
theorem realAboveWithin (h : ws.Ascends x way) (hn : way.length ≤ n) :
    (∀ m, ws.mover way.tail = some m → ws.realAboveWithin n x = .ok m) ∧
    (ws.mover way.tail = none → ∀ top, way.getLast? = some top →
      ws.realAboveWithin n x = .error (.placeholderWithoutParent top)) := by
  induction h generalizing n with
  | @top x hp =>
    obtain ⟨steps, rfl⟩ := Nat.exists_eq_add_one.mpr hn
    refine ⟨nofun, fun _ top htop => ?_⟩
    cases htop
    rw [Workspace.realAboveWithin, hp]
    rfl
  | @step x a way hp hway ih =>
    obtain ⟨steps, rfl⟩ := Nat.exists_eq_add_one.mpr (Nat.zero_lt_of_lt hn)
    obtain ⟨rest, rfl⟩ := hway.head
    obtain ⟨b, hb⟩ := hway.live a List.mem_cons_self
    have hmark := isPlaceholder_of_block hb
    rw [List.tail_cons, List.getLast?_cons_cons, realAboveWithin_step hp hb]
    by_cases hreal : b.placeholder
    · rw [if_pos hreal, mover_of_placeholder (hmark.trans hreal)]
      exact ih (Nat.le_of_succ_le_succ hn)
    · rw [if_neg hreal, mover_of_real (hmark ▸ hreal)]
      exact ⟨fun m hm => by rw [Option.some.inj hm], nofun⟩

end Ascends

end BlockEditor.Workspace
