import BlockEditor.Proofs.Lifting
import BlockEditor.Proofs.Sessions
import BlockEditor.Proofs.Workspace.Candidates

/-!
# Drags under way

Going on with a drag changes the session and asks the host for things; the workspace stays as it
is. So a candidate that is held stays good for as long as it is held, and the preview that was
asked for last is the one of that candidate.
-/

namespace BlockEditor

variable {α : Type}

/-- The request that shows what a drop would do, with the block that it would push out. -/
def Candidate.preview (c : Candidate α) : Option BlockId → HostRequest α
  | some replaced => .previewReplacement c.own c.neighbour replaced
  | none => .previewConnection c.own c.neighbour

namespace HostRequest

def isPreview : HostRequest α → Bool
  | .previewConnection .. | .previewReplacement .. => true
  | _ => false

/-- The preview among some requests that was asked for last. -/
def lastPreview (requests : List (HostRequest α)) : Option (HostRequest α) :=
  (requests.filter (·.isPreview)).getLast?

variable {requests : List (HostRequest α)} {r : HostRequest α}

theorem lastPreview_concat (h : r.isPreview) : lastPreview (requests ++ [r]) = some r := by
  simp [lastPreview, List.filter_append, h]

theorem lastPreview_concat_of_not (h : r.isPreview = false) :
    lastPreview (requests ++ [r]) = lastPreview requests := by
  simp [lastPreview, List.filter_append, h]

end HostRequest

theorem Candidate.isPreview_preview (c : Candidate α) (o : Option BlockId) :
    (c.preview o).isPreview := by
  cases o <;> rfl

namespace Workspace

variable [Scalar α] {ws : Workspace α} {x : BlockId} {c c' : Candidate α}
  {since : List (HostRequest α)}

/-- The last preview shows what a drop would do. -/
def Shows (ws : Workspace α) (x : BlockId) (c : Candidate α) (since : List (HostRequest α)) :
    Prop :=
  ∃ replaced, ws.displaced x c = .ok replaced ∧
    HostRequest.lastPreview since = some (c.preview replaced)

omit [Scalar α] in
/-- How far apart the ends are does not matter. -/
theorem Shows.congr (h : ws.Shows x c since) (hown : c'.own = c.own)
    (hneighbour : c'.neighbour = c.neighbour) : ws.Shows x c' since := by
  obtain ⟨replaced, hd, hlast⟩ := h
  refine ⟨replaced, ?_, ?_⟩
  · rw [← hd]
    unfold Workspace.displaced
    rw [hown, hneighbour]
  · rw [hlast]
    cases replaced <;> simp only [Candidate.preview, hown, hneighbour]

omit [Scalar α] in
theorem Shows.concat {r : HostRequest α} (h : ws.Shows x c since) (hr : r.isPreview = false) :
    ws.Shows x c (since ++ [r]) := by
  obtain ⟨replaced, hd, hlast⟩ := h
  exact ⟨replaced, hd, by rw [HostRequest.lastPreview_concat_of_not hr, hlast]⟩

end Workspace

namespace Act

open Workspace

variable [Scalar α] {β : Type} {ws : Workspace α} {x : BlockId} {e t : Editor α}
  {before : List (HostRequest α)} {a : β}

omit [Scalar α] in
theorem query_ok {q : Workspace α → Answer α β} (h : query q e = .ok a t) :
    t = e ∧ q e.workspace = .ok a := by
  unfold query edit Edit.query at h
  cases hq : q e.workspace with
  | ok b =>
    rw [hq] at h
    cases h
    exact ⟨rfl, rfl⟩
  | error err =>
    rw [hq] at h
    cases h

theorem requireFinite_ok {p : Point α} (h : edit (Edit.requireFinite p) e = .ok () t) : t = e := by
  unfold edit Edit.requireFinite at h
  by_cases hp : p.isFinite
  · rw [if_pos hp] at h
    cases h
    rfl
  · rw [if_neg hp] at h
    cases h

/-- The candidate that is held then has the ends of the one before, or was found. -/
theorem choose_ok {held : Option (Candidate α)} {found c : Candidate α} {delta : Point α}
    (h : choose held found delta e = .ok c t) : t = e ∧ (c = found ∨
      ∃ c', held = some c' ∧ c.own = c'.own ∧ c.neighbour = c'.neighbour) := by
  unfold choose at h
  cases held with
  | none =>
    cases h
    exact ⟨rfl, Or.inl rfl⟩
  | some c' =>
    obtain ⟨distance, u, hq, hrest⟩ := bind_ok h
    obtain ⟨rfl, -⟩ := query_ok hq
    obtain ⟨_, u', hget, hchosen⟩ := bind_ok hrest
    cases hget
    split at hchosen
    · cases hchosen
      exact ⟨rfl, Or.inr ⟨c', rfl, rfl, rfl⟩⟩
    · cases hchosen
      exact ⟨rfl, Or.inl rfl⟩

omit [Scalar α] in
theorem preview_ok {c : Candidate α} (h : preview x c e = .ok () t) :
    ∃ replaced, e.workspace.displaced x c = .ok replaced ∧
      t = { e with requests := e.requests ++ [c.preview replaced] } := by
  obtain ⟨replaced, u, hq, h⟩ := bind_ok h
  obtain ⟨rfl, hd⟩ := query_ok hq
  refine ⟨replaced, hd, ?_⟩
  cases replaced <;>
  · cases h
    rfl

/-- A drag of a root is under way. A candidate that is held is among what is offered, and is the
one that the host was told of last. -/
def Underway (ws : Workspace α) (x : BlockId) (before : List (HostRequest α)) (e : Editor α) :
    Prop :=
  ∃ s since phase, e = ⟨ws, some s, before ++ since, phase⟩ ∧ s.block = x ∧
    ∀ c, s.candidate = some c → ws.Offers x c.own c.neighbour ∧ ws.Shows x c since

theorem dragTo_underway (hl : ws.Lifted x) (h : Underway ws x before e) {location : Point α}
    {held : Option (Candidate α)} (hok : dragTo location e = .ok held t) :
    Underway ws x before t := by
  obtain ⟨s, since, phase, rfl, rfl, hheld⟩ := h
  unfold dragTo at hok
  obtain ⟨_, _, hactive, hfrom⟩ := bind_ok hok
  cases hactive
  obtain ⟨_, _, hfinite, hmoved⟩ := bind_ok hfrom
  obtain rfl := requireFinite_ok hfinite
  obtain ⟨_, _, hcurrent, hshown⟩ := bind_ok hmoved
  cases hcurrent
  obtain ⟨_, _, hmove, hsearch⟩ := bind_ok hshown
  cases hmove
  obtain ⟨found, _, hfound, hend⟩ := bind_ok hsearch
  obtain ⟨rfl, hbest⟩ := query_ok hfound
  set moved := since ++ [HostRequest.moveDuringDrag s.block (location + s.offset)]
  have happend : (before ++ since) ++ [HostRequest.moveDuringDrag s.block (location + s.offset)] =
      before ++ moved := List.append_assoc ..
  cases found with
  | none =>
    obtain ⟨_, _, hdrop, hhide⟩ := bind_ok hend
    cases hdrop
    dsimp only at hhide
    split at hhide
    · cases hhide
      refine ⟨{ s with current := location + s.offset, candidate := none },
        moved ++ [.hidePreview], phase, ?_, rfl, fun c hc => by cases hc⟩
      rw [← List.append_assoc, ← happend]
      rfl
    · cases hhide
      refine ⟨{ s with current := location + s.offset, candidate := none }, moved, phase, ?_, rfl,
        fun c hc => by cases hc⟩
      rw [← happend]
      rfl
  | some found =>
    obtain ⟨chosen, _, hchoose, hhold⟩ := bind_ok hend
    obtain ⟨rfl, hwhich⟩ := choose_ok hchoose
    obtain ⟨_, _, hset, hpreview⟩ := bind_ok hhold
    cases hset
    have hoffers : ws.Offers s.block chosen.own chosen.neighbour := by
      rcases hwhich with rfl | ⟨c, hc, hown, hneighbour⟩
      · exact hl.sound.bestCandidate_offers (hl.acyclic _) hbest
      · rw [hown, hneighbour]
        exact (hheld c hc).1
    dsimp only at hpreview
    split at hpreview
    · obtain ⟨_, _, hask, hdone⟩ := bind_ok hpreview
      obtain ⟨replaced, hd, rfl⟩ := preview_ok hask
      cases hdone
      refine ⟨{ s with current := location + s.offset, candidate := some chosen },
        moved ++ [chosen.preview replaced], phase, ?_, rfl, fun c hc => ?_⟩
      · rw [← List.append_assoc, ← happend]
        rfl
      · cases hc
        exact ⟨hoffers, replaced, hd, HostRequest.lastPreview_concat (chosen.isPreview_preview _)⟩
    · next hsame =>
      cases hpreview
      refine ⟨{ s with current := location + s.offset, candidate := some chosen }, moved, phase, ?_, rfl,
        fun c hc => ?_⟩
      · rw [← happend]
        rfl
      · cases hc
        simp only [Bool.not_eq_true', Bool.not_eq_false, Option.any_eq_true, Bool.and_eq_true,
          decide_eq_true_eq] at hsame
        obtain ⟨c, hc, hown, hneighbour⟩ := hsame
        exact ⟨hoffers, ((hheld c hc).2.congr hown.symm hneighbour.symm).concat rfl⟩

/-- Go on with a drag from place to place. -/
def dragAlong (locations : List (Point α)) : Act α Unit :=
  locations.forM fun location => discard (dragTo location)

theorem dragAlong_underway (hl : ws.Lifted x) (h : Underway ws x before e)
    {locations : List (Point α)} (hok : dragAlong locations e = .ok () t) :
    Underway ws x before t := by
  induction locations generalizing e with
  | nil =>
    cases hok
    exact h
  | cons location rest ih =>
    obtain ⟨_, u, hstep, hrest⟩ := bind_ok hok
    refine ih ?_ hrest
    obtain ⟨held, v, hdrag, hdone⟩ := bind_ok (m := dragTo location) (f := fun _ => pure ()) hstep
    cases hdone
    exact dragTo_underway hl h hdrag

end Act

end BlockEditor
