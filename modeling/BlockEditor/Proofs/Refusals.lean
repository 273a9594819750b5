import BlockEditor.Proofs.Evaluation
import BlockEditor.Proofs.Outcomes

/-!
# Refused edits

An edit that moves blocks about may be refused at once, and then nothing has changed. Otherwise the
placeholder of the socket that it emptied could not be built, or the block that it pushed out could
not be moved aside. It does not go back then, but what it did not have to change is as it was.
-/

namespace BlockEditor

variable {α : Type} [Scalar α]

namespace Workspace

/-- An action does not link a block below itself. -/
def Clear (ws : Workspace α) : Action α → Prop
  | .connect a b => ¬ ws.Closes a b ∧ ¬ ws.Closes b a
  | _ => True

/-- An action takes the block with the given plug away from its parent. -/
def Takes (ws : Workspace α) : Action α → ConnectionId → Prop
  | .connect a b, p => p = a ∨ p = b
  | .disconnect c, p => p = c
  | .pullOut id _, p => ∃ b, ws.blocks[id]? = some b ∧ p ∈ b.plugs
  | _, _ => False

/-- What a refused edit leaves behind. -/
inductive Refused (ws : Workspace α) : Action α → EditError α → Workspace α → Prop
  | unchanged {a : Action α} {e : EditError α} : Refused ws a e ws
  /-- A link was cut, and its socket did not get its placeholder back. -/
  | unlinked {a : Action α} {e : EditError α} {c s p : ConnectionId} {child : BlockId}
      {u t : Workspace α} : ws.Takes a c → c = s ∨ c = p → ws.Cuts s p child u →
      u.Strands s t → Refused ws a e t
  /-- A block was taken out, and its socket did not get its placeholder back. -/
  | disposed {id : BlockId} {e : EditError α} {s p : ConnectionId} {u v t : Workspace α} :
      ws.Cuts s p id u → u.Fells id v → v.Strands s t → Refused ws (.dispose id) e t
  /-- A template was stored, and could not be built. -/
  | stored {c : ConnectionId} {template : Option Snapshot} {e : EditError α}
      {u t : Workspace α} : ws.Endows c template u → u.Strands c t →
      Refused ws (.setTemplate c template) e t
  /-- Two ends were linked, and the block that was pushed out found no place. -/
  | pushedOut {a b : ConnectionId} {e : EditError α} {t : Workspace α} : e.NonFinite →
      ws.Links a b t → Refused ws (.connect a b) e t

variable {ws t : Workspace α} {c : ConnectionId} {a : Action α} {e : EditError α}

omit [Scalar α] in
theorem Breaks.refused (h : ws.Breaks c t) (hs : ws.Sound) (ha : ws.Takes a c) :
    ws.Refused a e t := by
  cases h with
  | absent => exact .unchanged
  | cut hl hc hr => exact .unlinked ha (link?_eq_some hl hs).2 hc hr

omit [Scalar α] in
theorem Jams.refused {id : BlockId} {heal : Bool} (h : ws.Jams id t) (hs : ws.Sound) :
    ws.Refused (.pullOut id heal) e t := by
  cases h with
  | absent => exact .unchanged
  | stuck hb hp hbreaks => exact hbreaks.refused hs ⟨_, hb, hp⟩

omit [Scalar α] in
theorem Spoils.refused {id : BlockId} (h : ws.Spoils id t) : ws.Refused (.dispose id) e t := by
  cases h with
  | absent => exact .unchanged
  | unfilled hc hf hr => exact .disposed hc hf hr

end Workspace

namespace Edit

open Workspace

variable {ws : Workspace α}

end Edit

namespace Editor

open Workspace Act

section Rewiring

variable {config : EditorConfig α} {registry : Registry} {e t : Editor α}
  {actions : List (Action α)} {a : Action α} {refusal : EditError α}

omit [Scalar α] in
theorem edit_eq_error {β : Type} {m : Edit α β} (h : edit m e = .error refusal t) :
    ∃ u, m e.workspace = .error refusal u ∧ t = { e with workspace := u } := by
  unfold edit at h
  cases hm : m e.workspace with
  | ok b u =>
    rw [hm] at h
    cases h
  | error err u =>
    rw [hm] at h
    cases h
    exact ⟨u, rfl, rfl⟩

end Rewiring

end Editor

end BlockEditor
