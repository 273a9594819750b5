import BlockEditor.Proofs.Workspace.Likeness
import BlockEditor.Workspace.Save
import Mathlib.Data.List.Forall2

/-!
# What a snapshot says

In a sound workspace a snapshot can be taken of every live block. It is determined by the branch of
the block, so it stays the same while the branch looks the same, and it puts together what the
inputs hold and what is below.
-/

namespace BlockEditor

variable {α : Type}

theorem mapM_eq_ok_iff {ε β γ : Type} {f : β → Except ε γ} {l : List β} {l' : List γ} :
    l.mapM f = .ok l' ↔ List.Forall₂ (fun x y => f x = .ok y) l l' := by
  induction l generalizing l' with
  | nil =>
    rw [List.forall₂_nil_left_iff, List.mapM_nil]
    exact ⟨fun h => by cases h; rfl, fun h => by rw [h]; rfl⟩
  | cons x rest ih =>
    rw [List.mapM_cons, List.forall₂_cons_left_iff]
    constructor
    · intro h
      obtain ⟨y, hy, h⟩ := bind_eq_ok h
      obtain ⟨ys, hys, h⟩ := bind_eq_ok h
      cases h
      exact ⟨y, ys, hy, ih.mp hys, rfl⟩
    · rintro ⟨y, ys, hy, hys, rfl⟩
      rw [hy, ih.mpr hys]
      rfl

theorem mapM_ok {ε β γ : Type} {f : β → Except ε γ} {l : List β}
    (h : ∀ x ∈ l, ∃ y, f x = .ok y) : ∃ l', l.mapM f = .ok l' := by
  induction l with
  | nil => exact ⟨[], rfl⟩
  | cons x rest ih =>
    obtain ⟨y, hy⟩ := h x List.mem_cons_self
    obtain ⟨ys, hys⟩ := ih fun z hz => h z (List.mem_cons_of_mem x hz)
    exact ⟨y :: ys, by rw [List.mapM_cons, hy, hys]; rfl⟩

theorem map_eq_ok {ε β γ : Type} {f : β → γ} {x : Except ε β} {y : γ} :
    x.map f = .ok y ↔ ∃ a, x = .ok a ∧ y = f a := by
  cases x with
  | error e => simp [Except.map]
  | ok a => simp [Except.map, eq_comm]

theorem mapM_congr {ε β γ : Type} {f g : β → Except ε γ} {l : List β}
    (h : ∀ x ∈ l, f x = g x) : l.mapM f = l.mapM g := by
  induction l with
  | nil => rfl
  | cons x rest ih =>
    rw [List.mapM_cons, List.mapM_cons, h x List.mem_cons_self,
      ih fun y hy => h y (List.mem_cons_of_mem x hy)]

/-- What is stored of the shape of a block. -/
def Block.extra (b : Block α) : Option Json :=
  b.container.map fun _ => Container.shapeOf b.units

/-- The snapshot of a block, given what its inputs hold and what is below. -/
def Block.snapshot (b : Block α) (entries : List (Option (String × InputSnapshot Snapshot)))
    (next : Option Snapshot) : Snapshot where
  typeName := b.typeName
  placeholder := b.placeholder
  fields := Assoc.ofList (b.fields.filterMap Field.entry?)
  extra := b.extra
  inputs := Assoc.ofList (entries.filterMap fun entry => entry)
  next := next
  copyOnDrag := b.copyOnDrag

/-- What is stored of a block in an input. -/
def InputSnapshot.ofChild (template : Option Snapshot) (s : Snapshot) : InputSnapshot Snapshot :=
  if s.placeholder then ⟨none, some s⟩ else ⟨some s, template⟩

namespace Workspace

variable {ws ws' : Workspace α} {id r : BlockId} {c : ConnectionId} {b : Block α}
  {y : Connection α} {save : BlockId → Answer α Snapshot} {i : Input} {n : Nat}

theorem containerKindOf_eq_ok {kind : ContainerKind} (hb : ws.blocks[id]? = some b)
    (hk : b.container = some kind) : ws.containerKindOf id = .ok kind := by
  simp only [Workspace.containerKindOf, block_eq_ok.mpr hb, hk, bind, Except.bind, pure, Except.pure]

theorem shape_eq_ok {kind : ContainerKind} (hb : ws.blocks[id]? = some b)
    (hk : b.container = some kind) : ws.shape id = .ok (Container.shapeOf b.units) := by
  simp only [Workspace.shape, containerKindOf_eq_ok hb hk, block_eq_ok.mpr hb, bind, Except.bind,
    pure, Except.pure]

theorem saveWithin_succ (hb : ws.blocks[id]? = some b) : ws.saveWithin (n + 1) id = (do
    let entries ← b.inputs.mapM (ws.saveInput (ws.saveWithin n))
    let next ← ws.saveNext (ws.saveWithin n) id
    return b.snapshot entries next) := by
  rw [saveWithin]
  simp only [block_eq_ok.mpr hb, bind, Except.bind]
  cases hk : b.container with
  | none => simp [Block.isContainer, Block.snapshot, Block.extra, hk, pure, Except.pure]
  | some kind =>
    simp [Block.isContainer, Block.snapshot, Block.extra, hk, shape_eq_ok hb hk, Functor.map,
      Except.map, pure, Except.pure]

/-- What an input holds is the snapshot of what is plugged in, or else its template. -/
theorem Sound.saveInput (hs : ws.Sound) (hc : i.connection = some c)
    (hy : ws.connections[c]? = some y) : ws.saveInput save i =
      match ws.across c with
      | none => .ok (y.template.map fun t => (i.name, ⟨none, some t⟩))
      | some child => (save child).map fun s =>
          some (i.name, InputSnapshot.ofChild y.template s) := by
  unfold Workspace.saveInput
  simp only [hc, connection_eq_ok.mpr hy, hs.blockAcross hy, bind, Except.bind, pure, Except.pure]
  cases ws.across c with
  | none => rfl
  | some child =>
    cases save child with
    | error e => rfl
    | ok s => rfl

theorem saveInput_none (hc : i.connection = none) : ws.saveInput save i = .ok none := by
  unfold Workspace.saveInput
  rw [hc]
  rfl

theorem Sound.saveNext (hs : ws.Sound) (hb : ws.blocks[id]? = some b) : ws.saveNext save id =
      match b.next.bind ws.across with
      | none => .ok none
      | some child => (save child).map some := by
  have hnext : ws.nextBlock id = .ok (b.next.bind ws.across) := by
    unfold Workspace.nextBlock
    simp only [block_eq_ok.mpr hb, bind, Except.bind]
    cases hn : b.next with
    | none => rfl
    | some c =>
      obtain ⟨y, hy, -⟩ := hs.socket hb (mem_sockets.mpr (Or.inr hn))
      exact hs.blockAcross hy
  unfold Workspace.saveNext
  simp only [hnext, bind, Except.bind]
  cases b.next.bind ws.across with
  | none => rfl
  | some child =>
    cases save child with
    | error e => rfl
    | ok s => rfl

theorem mem_sockets_of_input (hi : i ∈ b.inputs) (hc : i.connection = some c) : c ∈ b.sockets :=
  mem_sockets.mpr (Or.inl ⟨i, hi, hc⟩)

theorem Sound.under_of_across (hs : ws.Sound) (hb : ws.blocks[id]? = some b) (hc : c ∈ b.sockets)
    {a : BlockId} (ha : ws.across c = some a) : ws.graph.Under a id :=
  hs.furnished.under_of_across hb hc ha

/-- A snapshot can be taken of every live block, down to any depth. -/
theorem Sound.saveWithin_ok (hs : ws.Sound) (n : Nat) (hl : ws.Live id) :
    ∃ s, ws.saveWithin n id = .ok s := by
  induction n generalizing id with
  | zero =>
    obtain ⟨b, hb⟩ := hl
    exact ⟨Snapshot.ofType b.typeName, by simp [saveWithin, block_eq_ok.mpr hb, bind, Except.bind,
      pure, Except.pure]⟩
  | succ n ih =>
    obtain ⟨b, hb⟩ := hl
    have child : ∀ c ∈ b.sockets, ∀ a, ws.across c = some a → ∃ s, ws.saveWithin n a = .ok s := by
      intro c hc a ha
      exact ih (hs.exists_lower (hs.under_of_across hb hc ha))
    have hinput : ∀ i ∈ b.inputs, ∃ e, ws.saveInput (ws.saveWithin n) i = .ok e := by
      intro i hi
      cases hc : i.connection with
      | none => exact ⟨none, saveInput_none hc⟩
      | some c =>
        have hmem := mem_sockets_of_input hi hc
        obtain ⟨y, hy, -⟩ := hs.socket hb hmem
        rw [hs.saveInput hc hy]
        cases ha : ws.across c with
        | none => exact ⟨_, rfl⟩
        | some a =>
          obtain ⟨s, hsave⟩ := child c hmem a ha
          exact ⟨some (i.name, InputSnapshot.ofChild y.template s), by simp [hsave, Except.map]⟩
    obtain ⟨entries, hentries⟩ := mapM_ok hinput
    obtain ⟨next, hnext⟩ : ∃ next, ws.saveNext (ws.saveWithin n) id = .ok next := by
      rw [hs.saveNext hb]
      cases ha : b.next.bind ws.across with
      | none => exact ⟨none, rfl⟩
      | some a =>
        obtain ⟨c, hc, hca⟩ := Option.bind_eq_some_iff.mp ha
        obtain ⟨s, hsave⟩ := child c (mem_sockets.mpr (Or.inr hc)) a hca
        exact ⟨some s, by simp [hsave, Except.map]⟩
    exact ⟨b.snapshot entries next, by rw [saveWithin_succ hb, hentries, hnext]; rfl⟩

theorem Sound.save_ok (hs : ws.Sound) (hl : ws.Live id) : ∃ s, ws.save id = .ok s :=
  hs.saveWithin_ok ws.walkBound hl

/-! ### Of branches that look the same -/

section Agreeing

variable {save' : BlockId → Answer α Snapshot}

theorem Agrees.saveInput (h : Agrees r ws ws') (hs : ws.Sound) (hs' : ws'.Sound)
    (hb : ws.blocks[r]? = some b) (hi : i ∈ b.inputs)
    (child : ∀ c ∈ b.sockets, ∀ a, ws.across c = some a → save' a = save a) :
    ws'.saveInput save' i = ws.saveInput save i := by
  cases hc : i.connection with
  | none => rw [saveInput_none hc, saveInput_none hc]
  | some c =>
    have hmem := mem_sockets_of_input hi hc
    obtain ⟨y, y', hy, -, -, hy', hye⟩ := h.socket hs hb hmem
    have ht : y'.template = y.template := congrArg (fun u : Connection Unit => u.template) hye
    rw [hs.saveInput hc hy, hs'.saveInput hc hy', h.across hs hb hmem, ht]
    cases ha : ws.across c with
    | none => rfl
    | some a => simp only [child c hmem a ha]

theorem Agrees.saveNext (h : Agrees r ws ws') (hs : ws.Sound) (hs' : ws'.Sound)
    (hb : ws.blocks[r]? = some b)
    (child : ∀ c ∈ b.sockets, ∀ a, ws.across c = some a → save' a = save a) :
    ws'.saveNext save' r = ws.saveNext save r := by
  obtain ⟨b', hb', he⟩ := h.block hb
  rw [Block.eq_of_looks he] at hb'
  have hnext : b.next.bind ws'.across = b.next.bind ws.across := by
    cases hc : b.next with
    | none => rfl
    | some c => exact h.across hs hb (mem_sockets.mpr (Or.inr hc))
  rw [hs.saveNext hb, hs'.saveNext hb', hnext]
  cases ha : b.next.bind ws.across with
  | none => rfl
  | some a =>
    obtain ⟨c, hc, hca⟩ := Option.bind_eq_some_iff.mp ha
    simp only [child c (mem_sockets.mpr (Or.inr hc)) a hca]

end Agreeing

/-- Of a branch that looks the same the same snapshot is taken, however deep the walk may go beyond
the bottom of the branch. -/
theorem saveWithin_congr (hs : ws.Sound) (hs' : ws'.Sound) (h : Agrees r ws ws') (n m : Nat)
    (hn : ws.graph.Shallow n r) (hm : ws.graph.Shallow m r) :
    ws'.saveWithin m r = ws.saveWithin n r := by
  induction n generalizing m r with
  | zero => exact hn.elim
  | succ n ih =>
    cases m with
    | zero => exact hm.elim
    | succ m =>
      cases hb : ws.blocks[r]? with
      | none => simp [saveWithin, Workspace.block, hb, h.dead hb, bind, Except.bind]
      | some b =>
        obtain ⟨b', hb', he⟩ := h.block hb
        rw [Block.eq_of_looks he] at hb'
        have child : ∀ c ∈ b.sockets, ∀ a, ws.across c = some a →
            ws'.saveWithin m a = ws.saveWithin n a := by
          intro c hc a ha
          have hu := hs.under_of_across hb hc ha
          exact ih (h.below (Or.inr (.single hu))) m (hn a hu) (hm a hu)
        rw [saveWithin_succ hb, saveWithin_succ hb', h.saveNext hs hs' hb child,
          mapM_congr fun i hi => h.saveInput hs hs' hb hi child]
        rfl

/-- A walk down from a block that does not hang below itself may go to the bottom. -/
theorem Sound.shallow (hs : ws.Sound) (ht : ws.graph.Tame r) :
    ws.graph.Shallow ws.walkBound r := by
  have h := hs.shallow_without (L := []) (fun _ _ hl => hl) ht
  exact h.of_under fun a b hu => Graph.under_without hu List.not_mem_nil List.not_mem_nil

theorem save_congr (hs : ws.Sound) (hs' : ws'.Sound) (h : Agrees r ws ws')
    (ht : ws.graph.Tame r) (ht' : ws'.graph.Tame r) : ws'.save r = ws.save r :=
  saveWithin_congr hs hs' h _ _ (hs.shallow ht) (h.shallow (hs'.shallow ht'))

theorem Sound.saveWithin_eq (hs : ws.Sound) (hn : ws.graph.Shallow n r) (ht : ws.graph.Tame r) :
    ws.saveWithin n r = ws.save r :=
  saveWithin_congr hs hs (Agrees.refl r ws) _ _ (hs.shallow ht) hn

/-! ### Piece by piece -/

/-- A snapshot is put together from the snapshots of the blocks right below. -/
theorem Sound.save_eq (hs : ws.Sound) (ht : ws.graph.Tame id) (hb : ws.blocks[id]? = some b) :
    ws.save id = (do
      let entries ← b.inputs.mapM (ws.saveInput ws.save)
      let next ← ws.saveNext ws.save id
      return b.snapshot entries next) := by
  have hn : ws.graph.Shallow (ws.blockCount + 1) id := hs.shallow ht
  have child : ∀ c ∈ b.sockets, ∀ a, ws.across c = some a →
      ws.saveWithin ws.blockCount a = ws.save a := by
    intro c hc a ha
    have hu := hs.under_of_across hb hc ha
    exact hs.saveWithin_eq (hn a hu) (ht.of_under hs.wired hu)
  have h := Agrees.refl id ws
  unfold Workspace.save Workspace.walkBound
  rw [saveWithin_succ hb, h.saveNext hs hs hb child,
    mapM_congr fun i hi => h.saveInput hs hs hb hi child]
  rfl

/-- What an input of a block holds. -/
inductive Holds (ws : Workspace α) (i : Input) : Option (String × InputSnapshot Snapshot) → Prop
  | plain : i.connection = none → Holds ws i none
  | empty {c : ConnectionId} {y : Connection α} : i.connection = some c →
      ws.connections[c]? = some y → ws.across c = none →
      Holds ws i (y.template.map fun t => (i.name, ⟨none, some t⟩))
  | filled {c : ConnectionId} {y : Connection α} {child : BlockId} {s : Snapshot} :
      i.connection = some c → ws.connections[c]? = some y → ws.across c = some child →
      ws.save child = .ok s → Holds ws i (some (i.name, InputSnapshot.ofChild y.template s))

/-- What is below a block. -/
inductive Precedes (ws : Workspace α) (b : Block α) : Option Snapshot → Prop
  | last : b.next.bind ws.across = none → Precedes ws b none
  | next {child : BlockId} {s : Snapshot} : b.next.bind ws.across = some child →
      ws.save child = .ok s → Precedes ws b (some s)

theorem Sound.saveInput_eq_ok (hs : ws.Sound) (hb : ws.blocks[id]? = some b) (hi : i ∈ b.inputs)
    {e : Option (String × InputSnapshot Snapshot)} :
    ws.saveInput ws.save i = .ok e ↔ ws.Holds i e := by
  constructor
  · intro h
    cases hc : i.connection with
    | none =>
      rw [saveInput_none hc] at h
      cases h
      exact .plain hc
    | some c =>
      obtain ⟨y, hy, -⟩ := hs.socket hb (mem_sockets_of_input hi hc)
      rw [hs.saveInput hc hy] at h
      cases ha : ws.across c with
      | none =>
        rw [ha] at h
        cases h
        exact .empty hc hy ha
      | some a =>
        rw [ha] at h
        obtain ⟨s, hsave, rfl⟩ := map_eq_ok.mp h
        exact .filled hc hy ha hsave
  · intro h
    cases h with
    | plain hc => exact saveInput_none hc
    | empty hc hy ha => rw [hs.saveInput hc hy, ha]
    | filled hc hy ha hsave =>
      rw [hs.saveInput hc hy, ha]
      exact map_eq_ok.mpr ⟨_, hsave, rfl⟩

theorem Sound.saveNext_eq_ok (hs : ws.Sound) (hb : ws.blocks[id]? = some b)
    {e : Option Snapshot} : ws.saveNext ws.save id = .ok e ↔ ws.Precedes b e := by
  rw [hs.saveNext hb]
  constructor
  · intro h
    cases ha : b.next.bind ws.across with
    | none =>
      rw [ha] at h
      cases h
      exact .last ha
    | some a =>
      rw [ha] at h
      obtain ⟨s, hsave, rfl⟩ := map_eq_ok.mp h
      exact .next ha hsave
  · intro h
    cases h with
    | last ha => rw [ha]
    | next ha hsave =>
      rw [ha]
      exact map_eq_ok.mpr ⟨_, hsave, rfl⟩

/-- A snapshot is put together from what the inputs hold and what is below. -/
theorem Sound.save_eq_ok (hs : ws.Sound) (ht : ws.graph.Tame id) (hb : ws.blocks[id]? = some b)
    {s : Snapshot} : ws.save id = .ok s ↔ ∃ entries next, List.Forall₂ ws.Holds b.inputs entries ∧
      ws.Precedes b next ∧ s = b.snapshot entries next := by
  have hentries : ∀ entries, b.inputs.mapM (ws.saveInput ws.save) = .ok entries ↔
      List.Forall₂ ws.Holds b.inputs entries := by
    intro entries
    rw [mapM_eq_ok_iff]
    constructor
    · intro h
      have h' := (List.forall₂_and_left _ _).mpr ⟨fun i hi => hi, h⟩
      exact h'.imp fun i e hi => (hs.saveInput_eq_ok hb hi.1).mp hi.2
    · intro h
      have h' := (List.forall₂_and_left _ _).mpr ⟨fun i hi => hi, h⟩
      exact h'.imp fun i e hi => (hs.saveInput_eq_ok hb hi.1).mpr hi.2
  rw [hs.save_eq ht hb]
  constructor
  · intro h
    obtain ⟨entries, he, h⟩ := bind_eq_ok h
    obtain ⟨next, hnext, h⟩ := bind_eq_ok h
    cases h
    exact ⟨entries, next, (hentries entries).mp he, (hs.saveNext_eq_ok hb).mp hnext, rfl⟩
  · rintro ⟨entries, next, he, hnext, rfl⟩
    rw [(hentries entries).mpr he, (hs.saveNext_eq_ok hb).mpr hnext]
    rfl

end Workspace

end BlockEditor
