import BlockEditor.Proofs.Absence

/-!
# What is the same after a block was put back

A workspace is the one that it was before if the same blocks are there and look the same, with the
same links and in the same order at the top. The snapshots that sockets keep as their templates may
have been taken anew, and blocks may lie elsewhere.
-/

namespace BlockEditor

open Workspace

variable {α : Type}

namespace Workspace

variable {ws ws' u v t t' : Workspace α} {x y z k : BlockId} {b b' : Block α}
  {c s p q : ConnectionId} {C : Set ConnectionId} {n : Nat}

/-- The same blocks look the same and have the same links. Apart from connections in `C`, a
connection has a template if it had one. -/
structure Resembles (C : Set ConnectionId) (ws t : Workspace α) : Prop where
  blocks : ∀ x : BlockId, (t.blocks[x]?).map Block.looks = (ws.blocks[x]?).map Block.looks
  graph : t.graph = ws.graph
  stock : ∀ c ∉ C, ws.SameStock t c
  top : t.top = ws.top

theorem Drifts.resembles (h : ws.Drifts t) : ws.Resembles C t where
  blocks := h.blocks
  graph := h.graph
  stock c _ := h.sameStock c
  top := h.top

namespace Resembles

theorem trans (h : ws.Resembles C u) (h' : u.Resembles C t) : ws.Resembles C t where
  blocks x := (h'.blocks x).trans (h.blocks x)
  graph := h'.graph.trans h.graph
  stock c hc := (h.stock c hc).trans (h'.stock c hc)
  top := h'.top.trans h.top

/-- The block is made a placeholder again. -/
theorem remark (hb : ws.blocks[x]? = some b) (hmark : b.placeholder) (hb' : t.blocks[x]? = some b')
    (h : Resembles C { ws with blocks := ws.blocks.insert x { b with placeholder := false } } t) :
    ws.Resembles C { t with blocks := t.blocks.insert x { b' with placeholder := true } } where
  blocks y := looks_remark hb hmark hb' (h.blocks y)
  graph := by
    have hafter : Workspace.graph
        { t with blocks := t.blocks.insert x { b' with placeholder := true } } = t.graph :=
      graph_insert hb' rfl
    rw [hafter, h.graph]
    exact graph_insert hb rfl
  stock := h.stock
  top := h.top

/-- A template was given. -/
theorem given {template : Option Snapshot} (he : ws.Endows c template v) (h : v.Resembles ∅ t) :
    ws.Resembles {c} t where
  blocks x := by rw [h.blocks, he.blocks]
  graph := h.graph.trans he.graph
  stock e hne := by
    refine SameStock.trans (.of_eq ?_) (h.stock e (Set.notMem_empty e))
    rw [he.templateAt, if_neg (show e ≠ c from hne)]
  top := by
    rw [h.top, he.rest]

end Resembles

/-- If nothing is new, then what looks as before is the same. -/
theorem Recovers.resembles (h : ws.Recovers C t) (hs : ws.Sound) (ht : t.Sound)
    (haged : t.Aged ws.ids.blocks) (hroot : t.Rooted) (hstock : ∀ c ∈ C, ws.SameStock t c) :
    ws.Resembles ∅ t := by
  have hblocks : ∀ x : BlockId, (t.blocks[x]?).map Block.looks = (ws.blocks[x]?).map Block.looks := by
    intro x
    by_cases hx : x.index.toNat < ws.ids.blocks
    · exact h.blocks x hx
    · have hdead : t.blocks[x]? = none := Option.eq_none_iff_forall_ne_some.mpr fun b hb =>
        hx (haged x ⟨b, hb⟩)
      have hdead' : ws.blocks[x]? = none := Option.eq_none_iff_forall_ne_some.mpr fun b hb =>
        hx (hs.blockIds hb)
      rw [hdead, hdead']
  -- an end that is new would be the end of a block that was there
  have hnew : ∀ (c : ConnectionId) (y : Connection α), t.connections[c]? = some y →
      c.index.toNat < ws.ids.connections := by
    intro c y hy
    obtain ⟨b, hb, hrole⟩ := ht.owner hy
    have hsame := hblocks y.block
    rw [hb, Option.map_some, eq_comm, Option.map_eq_some_iff] at hsame
    obtain ⟨b₀, hb₀, he⟩ := hsame
    rw [Block.roles_of_looks he.symm] at hrole
    have hmem : c ∈ b₀.connections := by
      rw [← b₀.map_fst_roles]
      exact List.mem_map_of_mem hrole
    obtain ⟨y₀, hy₀, -⟩ := hs.connection_of_mem hb₀ hmem
    exact hs.connectionIds hy₀
  have hnone : ∀ c : ConnectionId, ¬ c.index.toNat < ws.ids.connections →
      t.connections[c]? = none ∧ ws.connections[c]? = none := fun c hc =>
    ⟨Option.eq_none_iff_forall_ne_some.mpr fun y hy => hc (hnew c y hy),
      Option.eq_none_iff_forall_ne_some.mpr fun y hy => hc (hs.connectionIds hy)⟩
  refine ⟨hblocks, ?_, fun c _ => ?_, ?_⟩
  · have hends : t.graph.ends = ws.graph.ends := by
      funext x
      have hx := congrArg (Option.map fun u : Block Unit => u.roles) (hblocks x)
      rw [Option.map_map, Option.map_map] at hx
      exact hx
    have hwire : t.graph.wire = ws.graph.wire := by
      funext c
      by_cases hc : c.index.toNat < ws.ids.connections
      · exact h.wires c hc
      · obtain ⟨hc, hc'⟩ := hnone c hc
        simp only [graph, hc, hc']
    exact congrArg₂ Graph.mk hends hwire
  · by_cases hC : c ∈ C
    · exact hstock c hC
    by_cases hc : c.index.toNat < ws.ids.connections
    · exact .of_eq (h.templates c hC hc)
    · obtain ⟨hc, hc'⟩ := hnone c hc
      exact .of_eq (templateAt_congr (hc.trans hc'.symm))
  · rw [← h.top]
    exact (List.filter_eq_self.mpr fun x hx => decide_eq_true (haged x (hroot x hx).1)).symm

/-- A block that goes back to its place leaves nothing behind. -/
theorem Waits.resembles (h : ws.Waits s p x t) (hs : ws.Sound) (hroot : ws.Rooted)
    (hseat : t.Seats s p x none t') (hroot' : t'.Rooted) : ws.Resembles ∅ t' := by
  have hrec := h.parted.recovers hs (h.parted.not_top hs hroot) (hroot.old hs) hseat
  refine hrec.resembles hs (hseat.sound h.sound) ?_ hroot' ?_
  · obtain ⟨u, hev, hlive⟩ := hseat.evicts
    exact fun y hy => h.guests.evicts h.sound h.acyclic hev y (hlive y hy)
  · rintro c rfl
    exact h.stock.trans (hseat.sameStock h.stocked)

end Workspace

end BlockEditor
