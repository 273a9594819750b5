import BlockEditor.Editor.Gesture
import BlockEditor.Proofs.Leads
import BlockEditor.Proofs.Snapshot
import Mathlib.Data.Set.Basic

/-!
# Steps do not depend on the log

What a step does to the blocks, and what it answers, is the same whatever the log holds and however
much it can hold; and what it records is the same. That follows step by step from the way in which
steps are put together, since the log is only written to, and asked whether a group is open.
-/

namespace BlockEditor

variable {α : Type}

/-- What may be done to a log. -/
inductive LogStep (α : Type) where
  | fire (e : Event α)
  | setGroup (on : Bool)

/-- Steps that record an event. -/
def fires : Set (LogStep α) :=
  {step | ∃ e, step = .fire e}

namespace EventLog

def apply (log : EventLog α) : LogStep α → EventLog α
  | .fire e => log.fire e
  | .setGroup on => log.setGroup on

def replay (log : EventLog α) (script : List (LogStep α)) : EventLog α :=
  script.foldl apply log

theorem replay_append (log : EventLog α) (script script' : List (LogStep α)) :
    log.replay (script ++ script') = (log.replay script).replay script' :=
  List.foldl_append

/-- Both logs have an open group, or neither has. -/
def Alike (log log' : EventLog α) : Prop :=
  log.group.isSome = log'.group.isSome

theorem group_fire (log : EventLog α) (e : Event α) : (log.fire e).group = log.group := by
  unfold fire
  dsimp only
  split <;> rfl

theorem Alike.replay {log log' : EventLog α} (h : log.Alike log') (script : List (LogStep α)) :
    (log.replay script).Alike (log'.replay script) := by
  induction script generalizing log log' with
  | nil => exact h
  | cons step rest ih =>
    refine ih ?_
    cases step with
    | fire e =>
      unfold Alike apply
      rwa [group_fire, group_fire]
    | setGroup on => cases on <;> rfl

end EventLog

/-- States that have a log. -/
class Logged (σ : Type) (α : outParam Type) where
  log : σ → EventLog α
  withLog : σ → EventLog α → σ
  withLog_log (s : σ) : withLog s (log s) = s
  log_withLog (s : σ) (log' : EventLog α) : log (withLog s log') = log'
  withLog_withLog (s : σ) (log' log'' : EventLog α) :
    withLog (withLog s log') log'' = withLog s log''

open Logged

instance : Logged (Workspace α) α where
  log ws := ws.events
  withLog ws log := { ws with events := log }
  withLog_log _ := rfl
  log_withLog _ _ := rfl
  withLog_withLog _ _ _ := rfl

instance {ρ : Type} : Logged (Workspace α × ρ) α where
  log s := s.1.events
  withLog s log := ({ s.1 with events := log }, s.2)
  withLog_log _ := rfl
  log_withLog _ _ := rfl
  withLog_withLog _ _ _ := rfl

instance : Logged (Editor α) α where
  log e := e.workspace.events
  withLog e log := { e with workspace := { e.workspace with events := log } }
  withLog_log _ := rfl
  log_withLog _ _ := rfl
  withLog_withLog _ _ _ := rfl

section Rules

variable {ε σ β γ : Type} [Logged σ α] {S S' : Set (LogStep α)}

/-- The outcome of a step with another log. -/
def relog (log : EventLog α) : EStateM.Result ε σ β → EStateM.Result ε σ β
  | .ok a s => .ok a (withLog s log)
  | .error e s => .error e (withLog s log)

/-- The step leads to the same with another log, and does the same to the log, none of which is
outside `S`. -/
def Echoes (S : Set (LogStep α)) (m : EStateM ε σ β) : Prop :=
  ∀ s, ∃ script, (∀ step ∈ script, step ∈ S) ∧ ∀ log', (log s).Alike log' →
    m (withLog s log') = relog (log'.replay script) (m s)

namespace Echoes

variable {m m' : EStateM ε σ β}

theorem of_silent (h : ∀ s log', m (withLog s log') = relog log' (m s)) : Echoes S m :=
  fun s => ⟨[], List.forall_mem_nil _, fun log' _ => h s log'⟩

protected theorem pure (a : β) : Echoes S (Pure.pure a : EStateM ε σ β) :=
  of_silent fun _ _ => rfl

protected theorem throw (e : ε) : Echoes S (MonadExcept.throw e : EStateM ε σ β) :=
  of_silent fun _ _ => rfl

theorem ok {s t : σ} {a : β} (h : Echoes S m) (hm : m s = .ok a t) :
    ∃ script, (∀ step ∈ script, step ∈ S) ∧ log t = (log s).replay script ∧ ∀ log', (log s).Alike log' →
      m (withLog s log') = .ok a (withLog t (log'.replay script)) := by
  obtain ⟨script, hscript, hs⟩ := h s
  simp only [hm, relog] at hs
  refine ⟨script, hscript, ?_, hs⟩
  have hself := hs (log s) rfl
  rw [withLog_log, hm, EStateM.Result.ok.injEq] at hself
  rw [hself.2, log_withLog]

theorem error {s t : σ} {e : ε} (h : Echoes S m) (hm : m s = .error e t) :
    ∃ script, (∀ step ∈ script, step ∈ S) ∧ log t = (log s).replay script ∧ ∀ log', (log s).Alike log' →
      m (withLog s log') = .error e (withLog t (log'.replay script)) := by
  obtain ⟨script, hscript, hs⟩ := h s
  simp only [hm, relog] at hs
  refine ⟨script, hscript, ?_, hs⟩
  have hself := hs (log s) rfl
  rw [withLog_log, hm, EStateM.Result.error.injEq] at hself
  rw [hself.2, log_withLog]

protected theorem bind {f : β → EStateM ε σ γ} (h : Echoes S m) (hf : ∀ a, Echoes S (f a)) :
    Echoes S (m >>= f) := by
  intro s
  change ∃ script, (∀ step ∈ script, step ∈ S) ∧ ∀ log', (log s).Alike log' →
    EStateM.bind m f (withLog s log') = relog (log'.replay script) (EStateM.bind m f s)
  cases hm : m s with
  | error e t =>
    obtain ⟨script, hscript, -, hs⟩ := h.error hm
    refine ⟨script, hscript, fun log' hl => ?_⟩
    simp only [EStateM.bind, hs log' hl, hm]
    rfl
  | ok a t =>
    obtain ⟨script, hscript, ht, hs⟩ := h.ok hm
    obtain ⟨script', hscript', hs'⟩ := hf a t
    refine ⟨script ++ script', List.forall_mem_append.mpr ⟨hscript, hscript'⟩, fun log' hl => ?_⟩
    simp only [EStateM.bind, hs log' hl, hm]
    rw [EventLog.replay_append]
    refine hs' _ ?_
    rw [ht]
    exact hl.replay script

protected theorem tryCatch {handler : ε → EStateM ε σ β} (h : Echoes S m)
    (hh : ∀ e, Echoes S (handler e)) : Echoes S (tryCatch m handler) := by
  intro s
  cases hm : m s with
  | ok a t =>
    obtain ⟨script, hscript, -, hs⟩ := h.ok hm
    refine ⟨script, hscript, fun log' hl => ?_⟩
    rw [tryCatch_ok (hs log' hl), tryCatch_ok hm]
    rfl
  | error e t =>
    obtain ⟨script, hscript, ht, hs⟩ := h.error hm
    obtain ⟨script', hscript', hs'⟩ := hh e t
    refine ⟨script ++ script', List.forall_mem_append.mpr ⟨hscript, hscript'⟩, fun log' hl => ?_⟩
    rw [tryCatch_error (hs log' hl), tryCatch_error hm]
    rw [EventLog.replay_append]
    refine hs' _ ?_
    rw [ht]
    exact hl.replay script

/-- What is done with a state may depend on all of it but the log. -/
theorem get_bind {f : σ → EStateM ε σ β} (hf : ∀ s log', f (withLog s log') = f s)
    (h : ∀ s, Echoes S (f s)) : Echoes S (get >>= f) := by
  intro s
  obtain ⟨script, hscript, hs⟩ := h s s
  refine ⟨script, hscript, fun log' hl => ?_⟩
  change f (withLog s log') (withLog s log') = _
  rw [hf]
  exact hs log' hl

protected theorem ite {c : Prop} [Decidable c] (h : Echoes S m) (h' : Echoes S m') :
    Echoes S (if c then m else m') := by
  split
  · exact h
  · exact h'

/-- A step that may be left out. -/
theorem optional {c : Prop} [Decidable c] {m : EStateM ε σ PUnit} {f : PUnit → EStateM ε σ β}
    (h : Echoes S m) (hf : Echoes S (f ⟨⟩)) : Echoes S (if c then m >>= f else f ⟨⟩) :=
  Echoes.ite (h.bind fun _ => hf) hf

/-- One of two steps, and then what follows in either case. -/
theorem either {c : Prop} [Decidable c] {f : β → EStateM ε σ γ} (h : Echoes S m) (h' : Echoes S m')
    (hf : ∀ a, Echoes S (f a)) : Echoes S (if c then m >>= f else m' >>= f) :=
  Echoes.ite (h.bind hf) (h'.bind hf)

protected theorem discard (h : Echoes S m) : Echoes S (discard m) :=
  h.bind fun _ => Echoes.pure _

theorem forM_list {f : γ → EStateM ε σ PUnit} (l : List γ) (h : ∀ x, Echoes S (f x)) :
    Echoes S (l.forM f) := by
  induction l with
  | nil => exact Echoes.pure _
  | cons x rest ih => exact (h x).bind fun _ => ih

theorem forM_option {f : γ → EStateM ε σ PUnit} (o : Option γ) (h : ∀ x, Echoes S (f x)) :
    Echoes S (o.forM f) := by
  cases o with
  | none => exact Echoes.pure _
  | some x => exact h x

theorem foldlM_list {f : β → γ → EStateM ε σ β} (l : List γ) (h : ∀ b x, Echoes S (f b x)) (b : β) :
    Echoes S (l.foldlM f b) := by
  induction l generalizing b with
  | nil => exact Echoes.pure _
  | cons x rest ih =>
    rw [List.foldlM_cons]
    exact (h b x).bind ih

theorem mapM_list {f : γ → EStateM ε σ β} (l : List γ) (h : ∀ x, Echoes S (f x)) :
    Echoes S (l.mapM f) := by
  induction l with
  | nil => exact Echoes.pure _
  | cons x rest ih =>
    rw [List.mapM_cons]
    exact (h x).bind fun _ => ih.bind fun _ => Echoes.pure _

end Echoes

/-- The function leads to the same with another log, and does the same to every log, none of which
is outside `S`. -/
def Uniform (S : Set (LogStep α)) (f : σ → σ) : Prop :=
  ∀ s, ∃ script, (∀ step ∈ script, step ∈ S) ∧
    ∀ log', f (withLog s log') = withLog (f s) (log'.replay script)

namespace Uniform

variable {f : σ → σ}

theorem of_silent (h : ∀ s log', f (withLog s log') = withLog (f s) log') : Uniform S f :=
  fun s => ⟨[], List.forall_mem_nil _, h s⟩

theorem foldl {f : σ → γ → σ} (h : ∀ x, Uniform S (f · x)) (l : List γ) :
    Uniform S fun s => l.foldl f s := by
  induction l with
  | nil => exact of_silent fun _ _ => rfl
  | cons x rest ih =>
    intro s
    obtain ⟨script, hscript, hs⟩ := h x s
    obtain ⟨script', hscript', hs'⟩ := ih (f s x)
    refine ⟨script ++ script', List.forall_mem_append.mpr ⟨hscript, hscript'⟩, fun log' => ?_⟩
    rw [EventLog.replay_append]
    exact (congrArg (rest.foldl f) (hs log')).trans (hs' _)

theorem echoes (h : Uniform S f) : Echoes S (modify f : EStateM ε σ PUnit) := by
  intro s
  obtain ⟨script, hscript, hs⟩ := h s
  refine ⟨script, hscript, fun log' _ => ?_⟩
  change EStateM.Result.ok PUnit.unit (f (withLog s log')) = _
  rw [hs log']
  rfl

end Uniform

end Rules

namespace Workspace

variable {ws : Workspace α} {log' : EventLog α}

/-! ### Questions -/

@[simp]
theorem block_withLog (id : BlockId) : (withLog ws log').block id = ws.block id :=
  rfl

@[simp]
theorem blocks_withLog : (withLog ws log').blocks = ws.blocks :=
  rfl

@[simp]
theorem config_withLog : (withLog ws log').config = ws.config :=
  rfl

@[simp]
theorem connection_withLog (id : ConnectionId) :
    (withLog ws log').connection id = ws.connection id :=
  rfl

@[simp]
theorem blockAcross_withLog (id : ConnectionId) :
    (withLog ws log').blockAcross id = ws.blockAcross id :=
  rfl

@[simp]
theorem children_withLog (id : BlockId) : (withLog ws log').children id = ws.children id :=
  rfl

@[simp]
theorem walkBound_withLog : (withLog ws log').walkBound = ws.walkBound :=
  rfl

@[simp]
theorem parentSocket_withLog (id : BlockId) :
    (withLog ws log').parentSocket id = ws.parentSocket id := by
  delta parentSocket firstTarget
  rfl

@[simp]
theorem parent_withLog (id : BlockId) : (withLog ws log').parent id = ws.parent id := by
  simp [parent]

@[simp]
theorem holdingInput_withLog (id : BlockId) :
    (withLog ws log').holdingInput id = ws.holdingInput id := by
  simp [holdingInput]

@[simp]
theorem descendants_withLog (id : BlockId) :
    (withLog ws log').descendants id = ws.descendants id := by
  delta descendants descendantsFrom
  rfl

@[simp]
theorem rootWithin_withLog (steps : Nat) (id : BlockId) :
    (withLog ws log').rootWithin steps id = ws.rootWithin steps id := by
  induction steps generalizing id with
  | zero => rfl
  | succ steps ih => simp only [rootWithin, parent_withLog, ih]

@[simp]
theorem root_withLog (id : BlockId) : (withLog ws log').root id = ws.root id := by
  simp [root]

@[simp]
theorem stackEnd_withLog (id : BlockId) (ignorePlaceholders : Bool) :
    (withLog ws log').stackEnd id ignorePlaceholders = ws.stackEnd id ignorePlaceholders := by
  delta stackEnd stackEndWithin
  rfl

@[simp]
theorem save_withLog (id : BlockId) : (withLog ws log').save id = ws.save id := by
  delta save saveWithin
  rfl

@[simp]
theorem orphanHome_withLog (id : BlockId) (plug : ConnectionId) :
    (withLog ws log').orphanHome id plug = ws.orphanHome id plug := by
  delta orphanHome valueHome valueHomeWithin statementHome stackEnd stackEndWithin
  rfl

@[simp]
theorem isMovableWithin_withLog (steps : Nat) (id : BlockId) :
    (withLog ws log').isMovableWithin steps id = ws.isMovableWithin steps id := by
  induction steps generalizing id with
  | zero => rfl
  | succ steps ih =>
    simp only [isMovableWithin, parent_withLog, blocks_withLog, config_withLog, ih]

@[simp]
theorem isMovable_withLog (id : BlockId) : (withLog ws log').isMovable id = ws.isMovable id := by
  simp [isMovable]

@[simp]
theorem realAboveWithin_withLog (steps : Nat) (id : BlockId) :
    (withLog ws log').realAboveWithin steps id = ws.realAboveWithin steps id := by
  induction steps generalizing id with
  | zero => rfl
  | succ steps ih => simp only [realAboveWithin, parent_withLog, block_withLog, ih]

@[simp]
theorem realAbove_withLog (id : BlockId) : (withLog ws log').realAbove id = ws.realAbove id := by
  simp [realAbove]

@[simp]
theorem dragTarget_withLog [Scalar α] (id : BlockId) :
    (withLog ws log').dragTarget id = ws.dragTarget id := by
  simp [dragTarget]

@[simp]
theorem leavesCopy_withLog (id : BlockId) :
    (withLog ws log').leavesCopy id = ws.leavesCopy id := by
  simp [leavesCopy, rulesKeepCopy]

@[simp]
theorem bestCandidate_withLog [Scalar α] (id : BlockId) (holding : Bool) (delta : Point α) :
    (withLog ws log').bestCandidate id holding delta = ws.bestCandidate id holding delta := by
  delta bestCandidate descendants descendantsFrom dragEnds stackEnd stackEndWithin
  rfl

@[simp]
theorem displaced_withLog (id : BlockId) (c : Candidate α) :
    (withLog ws log').displaced id c = ws.displaced id c := by
  simp [displaced]

end Workspace

end BlockEditor
