import BlockEditor.Proofs.Coherence
import BlockEditor.Proofs.Evaluation
import BlockEditor.Proofs.Seating

/-!
# Links that close a cycle

Whether two ends may be linked is asked of their kinds, checks and owners only, and not of what
hangs on what. A host that links two ends keeps the blocks from hanging below themselves as long as
the socket belongs to no block that the plug's owner carries; nothing else keeps them from it.
-/

namespace BlockEditor.Editor

open Workspace

variable {α : Type} [Scalar α] {config : EditorConfig α} {registry : Registry} {e : Editor α}
  {actions : List (Action α)}

theorem StaysAcyclic.last (h : StaysAcyclic e actions) :
    (e.run actions).workspace.graph.Acyclic :=
  h actions List.prefix_rfl

/-- What is linked must fit. -/
theorem canConnect_of_accepts {a b : ConnectionId} (h : e.accepts (.connect a b)) :
    e.workspace.canConnect a b = .ok true := by
  unfold accepts perform Act.edit Edit.connect at h
  simp only [bind, EStateM.bind, Edit.query] at h
  cases hc : e.workspace.canConnect a b with
  | error err =>
    rw [hc] at h
    cases h
  | ok on =>
    cases on with
    | true => rfl
    | false =>
      rw [hc] at h
      cases h

/-- An accepted link is a step of the workspace that is not refused. -/
theorem connect_of_accepts {a b : ConnectionId} (h : e.accepts (.connect a b)) :
    Edit.connect a b e.workspace = .ok () (e.after (.connect a b)).workspace := by
  have hp : perform (.connect a b) e = Act.edit (Edit.connect a b) e := rfl
  unfold accepts at h
  unfold after
  rw [hp] at h ⊢
  unfold Act.edit at h ⊢
  cases hm : Edit.connect a b e.workspace with
  | ok r ws => rfl
  | error err ws =>
    rw [hm] at h
    cases h

/-- A link that closes no cycle is made without one. -/
theorem connect_acyclic (hone : registry.OnePlug) (hstart : create config registry = .ok e)
    (hacyclic : e.StaysAcyclic actions) {a b : ConnectionId}
    (hlast : Lasts ((e.run actions).after (.connect a b)))
    (haccept : (e.run actions).accepts (.connect a b))
    (hclear : ¬ (e.run actions).workspace.Closes a b)
    (hclear' : ¬ (e.run actions).workspace.Closes b a) :
    ((e.run actions).after (.connect a b)).workspace.graph.Acyclic := by
  obtain ⟨hs, -⟩ := run_sound hone hstart (lasts_of_after hlast) hacyclic
  have hac := hacyclic.last
  have hon := canConnect_of_accepts haccept
  have hresult := connect_of_accepts haccept
  have hconnect := Edit.connect_tells (D := fun _ _ => True) hs hac hon hclear hclear'
    fun p _ _ _ _ => (Edit.disconnect_keeps (X := Set.univ) stable_true _ p).weaken
      (fun _ ht => ⟨ht, hs, trivial⟩) (fun _ _ ht => ht.2) fun _ _ => trivial
  obtain ⟨s, p, child, hends, hpoised, hjoins⟩ := hconnect.ok hresult hlast rfl
  refine (hjoins.linked hs hac hpoised ?_).2.1
  rcases hends with ⟨rfl, rfl⟩ | ⟨rfl, rfl⟩
  · exact hclear
  · exact hclear'

omit [Scalar α] in
/-- Whatever hangs below a block was made after it in the workspace, so that no link to a socket of
an older block closes a cycle. -/
theorem not_closes_of_ordered {ws : Workspace α} {s p : ConnectionId} (h : ws.ordered)
    (hsp : (ws.connections[s]?).all fun x => !x.kind.isSocket ||
      (ws.connections[p]?).all fun y => x.block.index.toNat < y.block.index.toNat) :
    ¬ ws.Closes s p := by
  rintro ⟨x, y, hx, hy, hk, hbranch⟩
  simp only [hx, hy, hk, Option.all_some, Bool.not_true, Bool.false_or, decide_eq_true_eq] at hsp
  rcases hbranch with heq | hbelow
  · rw [heq] at hsp
    exact Nat.lt_irrefl _ hsp
  · exact Nat.lt_asymm hsp (lt_of_below h hbelow)

omit [Scalar α] in
theorem closes_of_any {ws : Workspace α} {s p : ConnectionId} {a b : BlockId}
    (hx : (ws.connections[s]?).any fun x => x.kind.isSocket && decide (x.block = a))
    (hy : (ws.connections[p]?).any fun y => decide (y.block = b)) (hb : ws.Branch b a) :
    ws.Closes s p := by
  cases hs : ws.connections[s]? with
  | none =>
    rw [hs] at hx
    cases hx
  | some x =>
    cases hp : ws.connections[p]? with
    | none =>
      rw [hp] at hy
      cases hy
    | some y =>
      rw [hs, Option.any_some, Bool.and_eq_true, decide_eq_true_eq] at hx
      rw [hp, Option.any_some, decide_eq_true_eq] at hy
      exact ⟨x, y, hs, hp, hx.1, by rw [hx.2, hy]; exact hb⟩

/-- One statement is put below another one. -/
theorem connect_acyclic_stack :
    (((fresh (.standard : EditorConfig Int) Palette.registry).run
      [.newBlock "Assign", .newBlock "Assign"]).after (.connect ⟨1⟩ ⟨3⟩)).workspace.graph.Acyclic := by
  refine connect_acyclic Palette.registry_onePlug (create_fresh (by decide))
    (staysAcyclic_of_ordered (by decide +kernel)) (by decide +kernel) (by decide +kernel) ?_ ?_
  · exact not_closes_of_ordered (by decide +kernel) (by decide +kernel)
  · exact not_closes_of_ordered (by decide +kernel) (by decide +kernel)

/-- Two statements, one below the other. -/
def twoStatements : Editor Int :=
  (fresh .standard Palette.registry).run [.newBlock "Assign", .newBlock "Assign",
    .connect ⟨1⟩ ⟨3⟩]

/-- The upper one of two statements may be put below the lower one, and then hangs below itself. -/
theorem canConnect_closes : (fresh (.standard : EditorConfig Int) Palette.registry).StaysAcyclic
      [.newBlock "Assign", .newBlock "Assign", .connect ⟨1⟩ ⟨3⟩] ∧
    twoStatements.workspace.Closes ⟨4⟩ ⟨0⟩ ∧
    twoStatements.workspace.canConnect ⟨4⟩ ⟨0⟩ = .ok true ∧
    ¬ (twoStatements.after (.connect ⟨4⟩ ⟨0⟩)).workspace.graph.Acyclic := by
  have hunder : twoStatements.workspace.graph.Under ⟨1⟩ ⟨0⟩ :=
    under_of_any (s := ⟨1⟩) (by decide +kernel) (by decide +kernel)
  refine ⟨staysAcyclic_of_ordered (by decide +kernel), ?_,
    canConnect_of_admits (by decide +kernel), ?_⟩
  · exact closes_of_any (by decide +kernel) (by decide +kernel) (Or.inr (.single hunder))
  · intro hac
    have hup : (twoStatements.after (.connect ⟨4⟩ ⟨0⟩)).workspace.graph.Under ⟨0⟩ ⟨1⟩ :=
      under_of_any (s := ⟨4⟩) (by decide +kernel) (by decide +kernel)
    have hdown : (twoStatements.after (.connect ⟨4⟩ ⟨0⟩)).workspace.graph.Under ⟨1⟩ ⟨0⟩ :=
      under_of_any (s := ⟨1⟩) (by decide +kernel) (by decide +kernel)
    exact hac _ (.tail (.single hup) hdown)

end BlockEditor.Editor
