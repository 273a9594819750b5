import BlockEditor.Proofs.Graph.Height
import BlockEditor.Proofs.Workspace.Queries
import BlockEditor.Workspace.Disposal
import Mathlib.Data.List.Nodup

/-!
# Taking blocks out

While blocks are taken out the connections stay, so that the walk sees the graph as it was at the
start. What is taken out is listed in order: a block comes after everything that hangs on it.
-/

namespace BlockEditor

/-- The block that an event reports as deleted. -/
def Event.deleted? {α : Type} : Event α → Option BlockId
  | .delete x => some x
  | _ => none

namespace EventLog

variable {α : Type} {es : List (Event α)} {L : List BlockId} {x : BlockId}

theorem mem_deleted : x ∈ es.filterMap Event.deleted? ↔ Event.delete x ∈ es := by
  rw [List.mem_filterMap]
  constructor
  · rintro ⟨e, he, hx⟩
    cases e with
    | delete y => rwa [← Option.some.inj hx]
    | _ => cases hx
  · exact fun h => ⟨_, h, rfl⟩

theorem filterMap_deleted (L : List BlockId) :
    (L.map (Event.delete (α := α))).filterMap Event.deleted? = L := by
  rw [List.filterMap_map]
  exact List.filterMap_some

end EventLog

namespace Graph

variable {g : Graph} {L : List BlockId} {x a : BlockId}

/-- Every block is listed after all that hangs on it. -/
def ChildrenFirst (g : Graph) (L : List BlockId) : Prop :=
  ∀ L₁ x L₂, L = L₁ ++ x :: L₂ → ∀ a, g.Under a x → a ∈ L₁

namespace ChildrenFirst

theorem nil (g : Graph) : g.ChildrenFirst [] := by
  intro L₁ x L₂ h
  cases L₁ <;> cases h

theorem concat (h : g.ChildrenFirst L) (hx : ∀ a, g.Under a x → a ∈ L) :
    g.ChildrenFirst (L ++ [x]) := by
  intro L₁ y L₂ hl
  rcases List.eq_nil_or_concat L₂ with rfl | ⟨L₂, z, rfl⟩
  · obtain ⟨rfl, hxy⟩ := List.append_inj' hl rfl
    cases hxy
    exact hx
  · rw [List.concat_eq_append, ← List.cons_append, ← List.append_assoc] at hl
    exact h L₁ y L₂ (List.append_inj' hl rfl).1

/-- Whatever hangs on a listed block is listed too. -/
theorem closed (h : g.ChildrenFirst L) (hx : x ∈ L) (ha : g.Under a x) : a ∈ L := by
  obtain ⟨L₁, L₂, rfl⟩ := List.append_of_mem hx
  exact List.mem_append_left _ (h L₁ x L₂ rfl a ha)

theorem closed_below (h : g.ChildrenFirst L) (hx : x ∈ L) (ha : g.Below a x) : a ∈ L := by
  induction ha using Relation.TransGen.head_induction_on with
  | single hu => exact h.closed hx hu
  | head hu _ ih => exact h.closed ih hu

theorem below {L₁ L₂ : List BlockId} (h : g.ChildrenFirst (L₁ ++ x :: L₂)) (ha : g.Below a x) :
    a ∈ L₁ := by
  have hfirst : g.ChildrenFirst L₁ := fun M₁ y M₂ hl =>
    h M₁ y (M₂ ++ x :: L₂) (by rw [hl, List.append_assoc, List.cons_append])
  induction ha using Relation.TransGen.head_induction_on with
  | single hu => exact h L₁ x L₂ rfl _ hu
  | head hu _ ih => exact hfirst.closed ih hu

/-- What goes later may have lost some of what hung on it. -/
theorem append {g' : Graph} {L' : List BlockId} (h : g.ChildrenFirst L) (h' : g'.ChildrenFirst L')
    (hu : ∀ a x, x ∈ L' → g.Under a x → a ∈ L ∨ g'.Under a x) : g.ChildrenFirst (L ++ L') := by
  intro L₁ x L₂ hl a ha
  rcases List.append_eq_append_iff.mp hl with ⟨M, rfl, hM⟩ | ⟨M, hM, hL⟩
  · refine (hu a x ?_ ha).elim (List.mem_append_left M) fun hu' => ?_
    · rw [hM]
      exact List.mem_append_right M List.mem_cons_self
    · exact List.mem_append_right L (h' M x L₂ hM a hu')
  · cases M with
    | nil =>
      rw [List.append_nil] at hM
      rw [List.nil_append] at hL
      subst hM
      refine (hu a x (hL ▸ List.mem_cons_self) ha).elim id fun hu' => ?_
      cases h' [] x L₂ hL.symm a hu'
    | cons y M =>
      obtain ⟨rfl, -⟩ := List.cons.inj hL
      exact h L₁ x M hM a ha

/-- No block is listed after one that it hangs below. -/
theorem pairwise (h : g.ChildrenFirst L) (hn : L.Nodup) :
    L.Pairwise fun x a => ¬ g.Below a x := by
  refine List.pairwise_iff_getElem.mpr fun i j hi hj hij hbelow => ?_
  rw [← List.take_append_drop i L, List.drop_eq_getElem_cons hi] at h
  obtain ⟨k, hk, he⟩ := List.mem_take_iff_getElem.mp (h.below hbelow)
  have hkj : k = j := hn.getElem_inj_iff.mp he
  omega

end ChildrenFirst

end Graph

namespace Workspace

variable {α : Type} {ws₀ ws : Workspace α} {r : Removal} {extra : List ConnectionId}
  {L : List BlockId} {id x : BlockId} {g : Graph}

def isCallAt (ws : Workspace α) (id : BlockId) : Bool :=
  (ws.blocks[id]?).any Block.isCall

/-- The blocks `L` have been taken out since the state `ws₀`. Their ends are marked for removal,
together with the ends `extra`. -/
structure Taken (ws₀ : Workspace α) (extra : List ConnectionId) (ws : Workspace α) (r : Removal)
    (L : List BlockId) : Prop where
  nodup : L.Nodup
  mem : ∀ x, x ∈ r.blocks ↔ x ∈ L
  live : ∀ x ∈ L, ∃ b, ws₀.blocks[x]? = some b
  blocks : ∀ x, ws.blocks[x]? = if x ∈ L then none else ws₀.blocks[x]?
  ends : ∀ c, c ∈ r.connections ↔
    c ∈ extra ∨ ∃ x ∈ L, ∃ b, ws₀.blocks[x]? = some b ∧ c ∈ b.connections
  rest : ws =
    { ws₀ with blocks := ws.blocks, procedures := ws.procedures, events := ws.events }
  procedures : ws.procedures.calls =
    ws₀.procedures.calls.filter fun call => !(decide (call.2 ∈ L) && ws₀.isCallAt call.2)

namespace Taken

theorem start (ws : Workspace α) : Taken ws [] ws Removal.empty [] where
  nodup := List.nodup_nil
  mem x := by simp [Removal.empty]
  live x hx := by cases hx
  blocks x := by simp
  ends c := by simp [Removal.empty]
  rest := rfl
  procedures := (List.filter_eq_self.mpr fun call _ => by simp).symm

theorem connections (h : Taken ws₀ extra ws r L) : ws.connections = ws₀.connections := by
  rw [h.rest]

/-- A block that is still there is asked about as at the start. -/
theorem branches (h : Taken ws₀ extra ws r L) (hx : x ∉ L) : ws.branches x = ws₀.branches x := by
  have hb : ws.block x = ws₀.block x := by
    unfold Workspace.block
    rw [h.blocks, if_neg hx]
  have hc : ∀ c, ws.blockAcross c = ws₀.blockAcross c := fun c => by
    unfold Workspace.blockAcross Workspace.connection
    rw [h.connections]
  have hk : ws.children x = ws₀.children x := by
    unfold Workspace.children
    rw [hb, funext hc]
  unfold Workspace.branches
  rw [hk]

theorem withEnd (h : Taken ws₀ extra ws r L) (c : ConnectionId) :
    Taken ws₀ (c :: extra) ws (r.withConnection c) L where
  nodup := h.nodup
  mem := h.mem
  live := h.live
  blocks := h.blocks
  ends d := by simp only [Removal.withConnection, List.mem_cons, h.ends, or_assoc]
  rest := h.rest
  procedures := h.procedures

/-- An event may be fired in between. -/
theorem fired (h : Taken ws₀ extra ws r L) (e : Event α) :
    Taken ws₀ extra { ws with events := ws.events.fire e } r L where
  nodup := h.nodup
  mem := h.mem
  live := h.live
  blocks := h.blocks
  ends := h.ends
  rest := by rw [h.rest]
  procedures := h.procedures

theorem one (h : Taken ws₀ extra ws r L) {b : Block α} (hb : ws₀.blocks[x]? = some b)
    (hx : x ∉ L) :
    Taken ws₀ extra (takeOutOne (ws, r) x).1 (takeOutOne (ws, r) x).2 (L ++ [x]) ∧
      (takeOutOne (ws, r) x).1.events = ws.events.fire (.delete x) := by
  have hw : ws.blocks[x]? = some b := by rw [h.blocks, if_neg hx, hb]
  have ht : takeOutOne (ws, r) x = ({ ws with
        blocks := ws.blocks.erase x
        procedures := if b.isCall then ws.procedures.forget x else ws.procedures
        events := ws.events.fire (.delete x) }, r.withBlock x b) := by
    simp only [takeOutOne, hw]
  rw [ht]
  refine ⟨⟨?_, ?_, ?_, ?_, ?_, ?_, ?_⟩, rfl⟩
  · exact List.nodup_append.mpr ⟨h.nodup, by simp, fun y hy z hz => by
      rw [List.mem_singleton] at hz
      rintro rfl
      exact hx (hz ▸ hy)⟩
  · intro y
    simp only [Removal.withBlock, Std.ExtTreeSet.mem_insert, Std.LawfulEqCmp.compare_eq_iff_eq,
      h.mem, List.mem_append, List.mem_singleton]
    exact ⟨fun hy => hy.symm.imp_right Eq.symm, fun hy => hy.symm.imp_left Eq.symm⟩
  · intro y hy
    rcases List.mem_append.mp hy with hy | hy
    · exact h.live y hy
    · rw [List.mem_singleton.mp hy]
      exact ⟨b, hb⟩
  · intro y
    by_cases hy : y = x
    · subst hy
      simp
    · have hxy : ¬ x = y := fun h => hy h.symm
      simp [Std.ExtTreeMap.getElem?_erase, hxy, hy, h.blocks]
  · intro c
    simp only [Removal.withBlock, List.mem_append, h.ends, List.mem_singleton]
    constructor
    · rintro (hc | hc | ⟨y, hy, hc⟩)
      · exact Or.inr ⟨x, Or.inr rfl, b, hb, hc⟩
      · exact Or.inl hc
      · exact Or.inr ⟨y, Or.inl hy, hc⟩
    · rintro (hc | ⟨y, hy | rfl, b', hb', hc⟩)
      · exact Or.inr (Or.inl hc)
      · exact Or.inr (Or.inr ⟨y, hy, b', hb', hc⟩)
      · rw [hb] at hb'
        cases hb'
        exact Or.inl hc
  · rw [h.rest]
  · have hcall : ws₀.isCallAt x = b.isCall := by simp [isCallAt, hb]
    cases hc : b.isCall with
    | false =>
      simp only [Bool.false_eq_true, if_false, h.procedures]
      refine List.filter_congr fun call _ => ?_
      by_cases he : call.2 = x
      · simp [he, hcall, hc]
      · simp [he]
    | true =>
      simp only [if_true, Procedures.forget, h.procedures, List.filter_filter]
      refine List.filter_congr fun call _ => ?_
      by_cases he : call.2 = x
      · simp [he, hcall, hc]
      · simp [he]

/-- A walk of `n` steps from a block finds everything that hangs below it and is not in `L`. -/
structure Reaches (ws₀ : Workspace α) (g : Graph) (L : List BlockId) (n : Nat) (id : BlockId) :
    Prop where
  live : ∃ b, ws₀.blocks[id]? = some b
  found : ∀ x, x = id ∨ g.Below x id → ∀ a, g.Under a x →
    a ∈ ws₀.branches x ∧ ∃ b, ws₀.blocks[a]? = some b
  shallow : id ∉ L → (g.without L).Shallow n id

theorem Reaches.mono {n : Nat} {L' : List BlockId} (h : Reaches ws₀ g L n id) (hL : L ⊆ L') :
    Reaches ws₀ g L' n id where
  live := h.live
  found := h.found
  shallow hid := (h.shallow fun hmem => hid (hL hmem)).of_under fun _ _ => Graph.without_mono hL

/-- One step of the walk reaches what hangs on the block. -/
theorem Reaches.child {n : Nat} {k : BlockId} (h : Reaches ws₀ g L (n + 1) id) (hid : id ∉ L)
    (hk : g.Under k id) : Reaches ws₀ g L n k where
  live := (h.found id (Or.inl rfl) k hk).2
  found x hx := h.found x (Or.inr (hx.elim (fun h => h ▸ .single hk) fun hx => .tail hx hk))
  shallow hkL := h.shallow hid k (Graph.under_without hk hkL hid)

end Taken

/-- From the state `st` on the walk has taken out `L'`: some of the blocks `kids` and some that hang
below these, each with its parent. If it can go `n` steps deep from all of `kids` and these are
enough, then it has taken out all of that, children first. -/
structure Goes (ws₀ : Workspace α) (extra : List ConnectionId) (g : Graph) (n : Nat)
    (kids L L' : List BlockId) (st st' : Workspace α × Removal) : Prop where
  taken : Taken ws₀ extra st'.1 st'.2 (L ++ L')
  events : st'.1.events = (L'.map Event.delete).foldl EventLog.fire st.1.events
  below : ∀ x ∈ L', x ∈ kids ∨ ∃ k ∈ kids, g.Below x k
  parents : ∀ x ∈ L', x ∈ kids ∨ ∃ y ∈ L', g.Under x y
  clears : (∀ k ∈ kids, Taken.Reaches ws₀ g L n k) → g.ChildrenFirst L →
    (∀ k ∈ kids, k ∈ L ++ L') ∧ g.ChildrenFirst (L ++ L')

namespace Goes

variable {n : Nat} {kids kids' L' L₁ L₂ : List BlockId} {st st₁ st₂ : Workspace α × Removal}

theorem nil (h : Taken ws₀ extra st.1 st.2 L)
    (hk : (∀ k ∈ kids, Taken.Reaches ws₀ g L n k) → ∀ k ∈ kids, k ∈ L) :
    Goes ws₀ extra g n kids L [] st st where
  taken := by rwa [List.append_nil]
  events := rfl
  below x hx := by cases hx
  parents x hx := by cases hx
  clears hr hc := by
    rw [List.append_nil]
    exact ⟨hk hr, hc⟩

theorem append (h₁ : Goes ws₀ extra g n kids L L₁ st st₁)
    (h₂ : Goes ws₀ extra g n kids' (L ++ L₁) L₂ st₁ st₂) :
    Goes ws₀ extra g n (kids ++ kids') L (L₁ ++ L₂) st st₂ where
  taken := by
    rw [← List.append_assoc]
    exact h₂.taken
  events := by
    rw [List.map_append, List.foldl_append, ← h₁.events]
    exact h₂.events
  below x hx := by
    rcases List.mem_append.mp hx with hx | hx
    · exact (h₁.below x hx).imp (List.mem_append_left kids')
        fun ⟨k, hk, hxk⟩ => ⟨k, List.mem_append_left kids' hk, hxk⟩
    · exact (h₂.below x hx).imp (List.mem_append_right kids)
        fun ⟨k, hk, hxk⟩ => ⟨k, List.mem_append_right kids hk, hxk⟩
  parents x hx := by
    rcases List.mem_append.mp hx with hx | hx
    · exact (h₁.parents x hx).imp (List.mem_append_left kids')
        fun ⟨y, hy, hxy⟩ => ⟨y, List.mem_append_left L₂ hy, hxy⟩
    · exact (h₂.parents x hx).imp (List.mem_append_right kids)
        fun ⟨y, hy, hxy⟩ => ⟨y, List.mem_append_right L₁ hy, hxy⟩
  clears hr hc := by
    obtain ⟨hin₁, hc₁⟩ := h₁.clears (fun k hk => hr k (List.mem_append_left kids' hk)) hc
    obtain ⟨hin₂, hc₂⟩ := h₂.clears (fun k hk => (hr k (List.mem_append_right kids hk)).mono
      (List.subset_append_left L L₁)) hc₁
    rw [← List.append_assoc]
    refine ⟨fun k hk => ?_, hc₂⟩
    rcases List.mem_append.mp hk with hk | hk
    · exact List.mem_append_left L₂ (hin₁ k hk)
    · exact hin₂ k hk

theorem branch (h : Goes ws₀ extra g n [id] L L' st st₁) (hx : x ∈ L') : x = id ∨ g.Below x id := by
  simpa using h.below x hx

/-- The walk goes from one block to the next. -/
theorem foldl {walk : Workspace α × Removal → BlockId → Workspace α × Removal}
    (step : ∀ st k L, Taken ws₀ extra st.1 st.2 L →
      ∃ L', Goes ws₀ extra g n [k] L L' st (walk st k))
    (kids : List BlockId) (h : Taken ws₀ extra st.1 st.2 L) :
    ∃ L', Goes ws₀ extra g n kids L L' st (kids.foldl walk st) := by
  induction kids generalizing st L with
  | nil => exact ⟨[], nil h fun _ k hk => by cases hk⟩
  | cons k rest ih =>
    obtain ⟨L₁, h₁⟩ := step st k L h
    obtain ⟨L₂, h₂⟩ := ih h₁.taken
    exact ⟨L₁ ++ L₂, h₁.append h₂⟩

section Parent

variable (h : Goes ws₀ extra g n kids L L' st st₁) (hk : ∀ k ∈ kids, g.Under k id)

include h hk

theorem below_parent (hx : x ∈ L') : g.Below x id := by
  rcases h.below x hx with hx | ⟨k, hkid, hxk⟩
  · exact .single (hk x hx)
  · exact .tail hxk (hk k hkid)

theorem clears_parent (hall : Taken.Reaches ws₀ g L (n + 1) id → ∀ a, g.Under a id → a ∈ kids)
    (hid : id ∉ L) (hr : Taken.Reaches ws₀ g L (n + 1) id) (hc : g.ChildrenFirst L) :
    (∀ a, g.Under a id → a ∈ L ++ L') ∧ g.ChildrenFirst (L ++ L') := by
  obtain ⟨hin, hc'⟩ := h.clears (fun k hkid => hr.child hid (hk k hkid)) hc
  exact ⟨fun a ha => hin a (hall hr a ha), hc'⟩

/-- On a cycle the block may be gone with what hangs on it. -/
theorem parent_gone (hall : Taken.Reaches ws₀ g L (n + 1) id → ∀ a, g.Under a id → a ∈ kids)
    (hid : id ∉ L) (hmem : id ∈ L') : Goes ws₀ extra g (n + 1) [id] L L' st st₁ where
  taken := h.taken
  events := h.events
  below x hx := Or.inr ⟨id, List.mem_singleton_self id, h.below_parent hk hx⟩
  parents x hx := by
    rcases h.parents x hx with hx | hx
    · exact Or.inr ⟨id, hmem, hk x hx⟩
    · exact Or.inr hx
  clears hr hc := by
    have hc' := (h.clears_parent hk hall hid (hr id (List.mem_singleton_self id)) hc).2
    exact ⟨fun x hx => List.mem_singleton.mp hx ▸ List.mem_append_right L hmem, hc'⟩

/-- Else the block goes last. -/
theorem parent {b : Block α}
    (hall : Taken.Reaches ws₀ g L (n + 1) id → ∀ a, g.Under a id → a ∈ kids)
    (hb : ws₀.blocks[id]? = some b) (hid : id ∉ L) (hmem : id ∉ L') :
    Goes ws₀ extra g (n + 1) [id] L (L' ++ [id]) st (takeOutOne st₁ id) := by
  have hout : id ∉ L ++ L' := fun hx => (List.mem_append.mp hx).elim hid hmem
  obtain ⟨htaken, hevents⟩ := h.taken.one hb hout
  refine ⟨?_, ?_, fun x hx => ?_, fun x hx => ?_, fun hr hc => ?_⟩
  · rw [← List.append_assoc]
    exact htaken
  · rw [List.map_append, List.foldl_append, ← h.events]
    exact hevents
  · rcases List.mem_append.mp hx with hx | hx
    · exact Or.inr ⟨id, List.mem_singleton_self id, h.below_parent hk hx⟩
    · exact Or.inl hx
  · rcases List.mem_append.mp hx with hx | hx
    · rcases h.parents x hx with hx | ⟨y, hy, hxy⟩
      · exact Or.inr ⟨id, List.mem_append_right L' (List.mem_singleton_self id), hk x hx⟩
      · exact Or.inr ⟨y, List.mem_append_left _ hy, hxy⟩
    · exact Or.inl hx
  · obtain ⟨hin, hc'⟩ := h.clears_parent hk hall hid (hr id (List.mem_singleton_self id)) hc
    rw [← List.append_assoc]
    exact ⟨fun x hx => List.mem_append_right _ hx, hc'.concat hin⟩

end Parent

end Goes

/-- The walk takes out the block and some of what hangs below it. -/
theorem Taken.within (hg : ∀ x, ∀ a ∈ ws₀.branches x, g.Under a x) (n : Nat)
    (st : Workspace α × Removal) (id : BlockId) (L : List BlockId)
    (h : Taken ws₀ extra st.1 st.2 L) :
    ∃ L', Goes ws₀ extra g n [id] L L' st (takeOutWithin n st id) := by
  induction n generalizing id st L with
  | zero =>
    refine ⟨[], .nil h fun hr k hk => Classical.byContradiction fun hout => ?_⟩
    exact (hr k hk).shallow hout
  | succ n ih =>
    rw [takeOutWithin]
    cases hl : st.1.hasBlock id with
    | false =>
      refine ⟨[], .nil h fun hr k hk => Classical.byContradiction fun hout => ?_⟩
      rw [List.mem_singleton.mp hk] at hout
      obtain ⟨b, hb⟩ := (hr id (List.mem_singleton_self id)).live
      have hlive := hasBlock_iff.mpr ⟨b, by rw [h.blocks, if_neg hout, hb]⟩
      rw [hl] at hlive
      cases hlive
    | true =>
      obtain ⟨b, hb⟩ := hasBlock_iff.mp hl
      have hid : id ∉ L := fun hid => by simp [h.blocks, hid] at hb
      rw [h.blocks, if_neg hid] at hb
      have hbranches := h.branches hid
      have hk : ∀ k ∈ st.1.branches id, g.Under k id := fun k hk => hg id k (hbranches ▸ hk)
      have hall : Taken.Reaches ws₀ g L (n + 1) id →
          ∀ a, g.Under a id → a ∈ st.1.branches id := by
        intro hr a ha
        rw [hbranches]
        exact (hr.found id (Or.inl rfl) a ha).1
      obtain ⟨L₁, h₁⟩ := Goes.foldl ih (st.1.branches id) h
      rw [if_pos rfl]
      by_cases hmem : id ∈ L₁
      · have hgone : takeOutOne ((st.1.branches id).foldl (takeOutWithin n) st) id =
            (st.1.branches id).foldl (takeOutWithin n) st := by
          have hn := h₁.taken.blocks id
          rw [if_pos (List.mem_append_right L hmem)] at hn
          simp only [takeOutOne, hn]
        rw [hgone]
        exact ⟨L₁, h₁.parent_gone hk hall hid hmem⟩
      · exact ⟨L₁ ++ [id], h₁.parent hk hall hb hid hmem⟩

end Workspace

end BlockEditor
