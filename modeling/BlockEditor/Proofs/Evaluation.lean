import BlockEditor.Proofs.Palette
import BlockEditor.Proofs.Runs
import Mathlib.Data.Int.Sqrt
import Mathlib.Data.List.Infix

/-!
# Runs that can be evaluated

Over whole numbers a run can be evaluated. That no block hangs below itself is then seen from the
numbers of the blocks.
-/

namespace BlockEditor

instance : Scalar Int where
  zero := 0
  ofNat n := n
  sqrt := Int.sqrt
  round x := x
  le x y := decide (x ≤ y)
  lt x y := decide (x < y)
  same x y := decide (x = y)
  isFinite _ := true

namespace Workspace

variable {α : Type} {ws : Workspace α}

/-- Whatever hangs on a block was made after it. -/
def ordered (ws : Workspace α) : Bool :=
  ws.connections.toList.all fun (s, y) =>
    !y.kind.isSocket || (ws.across s).all fun a => y.block.index.toNat < a.index.toNat

theorem lt_of_under (h : ws.ordered) {a b : BlockId} (hu : ws.graph.Under a b) :
    b.index.toNat < a.index.toNat := by
  obtain ⟨s, p, w, v, hl, ha, rfl⟩ := hu
  obtain ⟨y, hy, rfl⟩ := connection_of_wire hl.socket
  have hmem : (s, y) ∈ ws.connections.toList := Std.ExtTreeMap.mem_toList_iff_getElem?_eq_some.mpr hy
  have hcheck := List.all_eq_true.mp h (s, y) hmem
  have hk : y.kind.isSocket := hl.isSocket
  have hacross : ws.across s = some a := (across_socket hy hk).mpr ⟨p, v, hl, ha⟩
  simp only [hk, hacross, Bool.not_true, Bool.false_or, Option.all_some, decide_eq_true_eq] at hcheck
  exact hcheck

theorem lt_of_below (h : ws.ordered) {a b : BlockId} (hb : ws.graph.Below a b) :
    b.index.toNat < a.index.toNat := by
  induction hb with
  | single hu => exact lt_of_under h hu
  | tail _ hu ih => exact Nat.lt_trans (lt_of_under h hu) ih

theorem acyclic_of_ordered (h : ws.ordered) : ws.graph.Acyclic :=
  fun _ hb => Nat.lt_irrefl _ (lt_of_below h hb)

theorem under_of_any {s : ConnectionId} {a b : BlockId}
    (hy : (ws.connections[s]?).any fun y => y.kind.isSocket && decide (y.block = b))
    (ha : ws.across s = some a) : ws.graph.Under a b := by
  cases hs : ws.connections[s]? with
  | none =>
    rw [hs] at hy
    cases hy
  | some y =>
    rw [hs, Option.any_some, Bool.and_eq_true, decide_eq_true_eq] at hy
    obtain ⟨p, v, hl, hv⟩ := (across_socket hs hy.1).mp ha
    exact ⟨s, p, _, v, hl, hv, hy.2⟩

end Workspace

namespace Act

variable {α β : Type} {m : Act α β} {e : Editor α} {a : β}

/-- What a step answers, if it is not refused. -/
def answer? (m : Act α β) (e : Editor α) : Option β :=
  match m e with
  | .ok a _ => some a
  | .error _ _ => none

/-- What a step leaves behind. -/
def leaves (m : Act α β) (e : Editor α) : Editor α :=
  match m e with
  | .ok _ t => t
  | .error _ t => t

theorem eq_ok_of_answer (h : m.answer? e = some a) : m e = .ok a (m.leaves e) := by
  unfold answer? at h
  unfold leaves
  cases hm : m e with
  | ok b t =>
    rw [hm] at h
    cases h
    rfl
  | error err t =>
    rw [hm] at h
    cases h

/-- Why a step is refused, if it is. -/
def refusal? (m : Act α β) (e : Editor α) : Option (EditError α) :=
  match m e with
  | .ok _ _ => none
  | .error err _ => some err

theorem eq_error_of_refusal {err : EditError α} (h : m.refusal? e = some err) :
    m e = .error err (m.leaves e) := by
  unfold refusal? at h
  unfold leaves
  cases hm : m e with
  | ok b t =>
    rw [hm] at h
    cases h
  | error err' t =>
    rw [hm] at h
    cases h
    rfl

end Act

namespace Editor

variable {α : Type} [Scalar α] {e : Editor α} {actions : List (Action α)}

/-- An action of which the answer is not used comes to where its step comes. -/
theorem after_discard {β : Type} {a : Action α} {m : Act α β} (h : perform a = discard m) :
    e.after a = m.leaves e := by
  have hperform : perform a e = (m >>= fun _ => pure () : Act α Unit) e := congrFun h e
  unfold after Act.leaves
  rw [hperform]
  simp only [bind, EStateM.bind]
  cases m e <;> rfl

theorem staysAcyclic_of_ordered
    (h : actions.inits.all fun l => (e.run l).workspace.ordered) : e.StaysAcyclic actions := by
  intro l hl
  exact Workspace.acyclic_of_ordered (List.all_eq_true.mp h l ((List.mem_inits l actions).mpr hl))

/-- Whether every action of a list is accepted in its turn. -/
def acceptsAll (e : Editor α) : List (Action α) → Bool
  | [] => true
  | a :: rest => e.accepts a && (e.after a).acceptsAll rest

theorem accepted_of_acceptsAll (h : e.acceptsAll actions) : e.Accepted actions := by
  induction actions generalizing e with
  | nil =>
    intro l a hl
    simp at hl
  | cons a rest ih =>
    rw [acceptsAll, Bool.and_eq_true] at h
    intro l a' hl
    cases l with
    | nil =>
      obtain ⟨rfl, -⟩ := List.cons_prefix_cons.mp hl
      exact h.1
    | cons b l =>
      obtain ⟨rfl, hrest⟩ := List.cons_prefix_cons.mp hl
      exact ih h.2 l a' hrest

theorem create_fresh {config : EditorConfig α} {registry : Registry} (h : config.fault? = none) :
    create config registry = .ok (fresh config registry) := by
  simp only [create, Workspace.create, h]
  rfl

end Editor

end BlockEditor
