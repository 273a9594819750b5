import BlockEditor.Proofs.Evolving

/-!
# Turns

Tasks wait for the next layout or for the turn after that. When a turn comes, what waits for it is
carried out in the order in which it was queued, as far as its blocks are live, and forgotten; what
that puts off waits for the next turn, behind all that waits for it already. So over a whole run
each task is taken out of its queue once.
-/

namespace BlockEditor

variable {α : Type}

inductive Turn where
  | afterLayout
  | next
deriving DecidableEq, Repr

namespace TaskQueue

def waiting (q : TaskQueue) : Turn → List DeferredTask
  | .afterLayout => q.afterLayout
  | .next => q.nextTick

theorem waiting_pushAfterLayout (q : TaskQueue) (task : DeferredTask) (turn : Turn) :
    q.waiting turn <+: (q.pushAfterLayout task).waiting turn := by
  cases turn with
  | afterLayout => exact List.prefix_append _ _
  | next => exact List.prefix_rfl

def cleared (q : TaskQueue) : Turn → TaskQueue
  | .afterLayout => { q with afterLayout := [] }
  | .next => { q with nextTick := [] }

/-- With tasks put off to the next turn. -/
def deferring (q : TaskQueue) (tasks : List DeferredTask) : TaskQueue :=
  { q with nextTick := q.nextTick ++ tasks }

theorem deferring_nil (q : TaskQueue) : q.deferring [] = q := by
  rw [deferring, List.append_nil]

theorem deferring_deferring (q : TaskQueue) (tasks more : List DeferredTask) :
    (q.deferring tasks).deferring more = q.deferring (tasks ++ more) := by
  simp only [deferring, List.append_assoc]

end TaskQueue

namespace DeferredTask

/-- The block without which a task comes to nothing. -/
def subject : DeferredTask → BlockId
  | .connectionFeedback inferior _ => inferior
  | .bringToFront block => block

/-- What the host is asked for. -/
def command : DeferredTask → HostRequest α
  | .connectionFeedback inferior _ => .connectionEffect inferior
  | .bringToFront block => .bringToFront block

def followUp? : DeferredTask → Option DeferredTask
  | .connectionFeedback _ root => some (.bringToFront root)
  | .bringToFront _ => none

end DeferredTask

namespace Editor

def waiting (e : Editor α) (turn : Turn) : List DeferredTask :=
  e.workspace.tasks.waiting turn

/-- The task's block is there. -/
def ready (e : Editor α) (task : DeferredTask) : Bool :=
  e.workspace.hasBlock task.subject

/-- The waiting tasks that will be carried out. -/
def due (e : Editor α) (turn : Turn) : List DeferredTask :=
  (e.waiting turn).filter e.ready

def withTasks (e : Editor α) (q : TaskQueue) : Editor α :=
  { e with workspace := { e.workspace with tasks := q } }

/-- What a turn leaves. Nothing is done but what the due tasks ask for, and what they put off comes
after all that waits. -/
def served (e : Editor α) (turn : Turn) : Editor α :=
  { e with
    requests := e.requests ++ (e.due turn).map DeferredTask.command
    workspace := { e.workspace with
      tasks := (e.workspace.tasks.cleared turn).deferring
        ((e.due turn).filterMap DeferredTask.followUp?) } }

/-- What has become of an editor that has carried out the tasks. -/
def carrying (e : Editor α) (tasks : List DeferredTask) : Editor α :=
  { e.withTasks (e.workspace.tasks.deferring (tasks.filterMap DeferredTask.followUp?)) with
    requests := e.requests ++ tasks.map DeferredTask.command }

@[simp]
theorem ready_carrying (e : Editor α) (tasks : List DeferredTask) :
    (e.carrying tasks).ready = e.ready :=
  rfl

theorem carrying_nil (e : Editor α) : e.carrying [] = e := by
  simp only [carrying, withTasks, List.filterMap_nil, TaskQueue.deferring_nil, List.map_nil,
    List.append_nil]

theorem carrying_carrying (e : Editor α) (tasks more : List DeferredTask) :
    (e.carrying tasks).carrying more = e.carrying (tasks ++ more) := by
  simp only [carrying, withTasks, TaskQueue.deferring_deferring, List.filterMap_append,
    List.map_append, List.append_assoc]

end Editor

/-! ### One turn -/

namespace Act

open Editor

/-- Run what waits for a turn. -/
def runTurn : Turn → Act α Nat
  | .afterLayout => runAfterLayout
  | .next => runNextTurn

theorem runTask_eq (e : Editor α) (task : DeferredTask) :
    runTask task e = .ok (e.ready task) (e.carrying ([task].filter e.ready)) := by
  rw [List.filter_singleton]
  cases task with
  | connectionFeedback inferior root =>
    change (if (!e.workspace.hasBlock inferior) = true then _ else _ : Act α Bool) e = _
    rw [show e.ready (.connectionFeedback inferior root) = e.workspace.hasBlock inferior from rfl]
    cases e.workspace.hasBlock inferior with
    | false => exact congrArg _ e.carrying_nil.symm
    | true => rfl
  | bringToFront block =>
    change (if (!e.workspace.hasBlock block) = true then _ else _ : Act α Bool) e = _
    rw [show e.ready (.bringToFront block) = e.workspace.hasBlock block from rfl]
    cases e.workspace.hasBlock block with
    | false => exact congrArg _ e.carrying_nil.symm
    | true =>
      have hsame : e.withTasks (e.workspace.tasks.deferring []) = e := by
        rw [TaskQueue.deferring_nil]
        rfl
      change _ = EStateM.Result.ok true { e.withTasks (e.workspace.tasks.deferring []) with
        requests := e.requests ++ [HostRequest.bringToFront block] }
      rw [hsame]
      rfl

theorem mapM_runTask_eq (e : Editor α) (tasks : List DeferredTask) :
    tasks.mapM runTask e = .ok (tasks.map e.ready) (e.carrying (tasks.filter e.ready)) := by
  induction tasks generalizing e with
  | nil =>
    rw [List.filter_nil, e.carrying_nil]
    rfl
  | cons task rest ih =>
    rw [List.mapM_cons, bind_eq (runTask_eq e task), bind_eq (ih _), e.carrying_carrying,
      ready_carrying, ← List.filter_append]
    rfl

/-- The tasks of a turn whose blocks are live are carried out, and nothing else is done. -/
theorem runTurn_eq (e : Editor α) (turn : Turn) :
    runTurn turn e = .ok (e.due turn).length (e.served turn) := by
  have hrun : runTasks (e.waiting turn) (e.withTasks (e.workspace.tasks.cleared turn)) =
      .ok (e.due turn).length (e.served turn) := by
    have hcount : ((e.waiting turn).map e.ready).count true = (e.due turn).length := by
      rw [List.count_eq_countP, List.countP_map, due, ← List.countP_eq_length_filter]
      refine List.countP_congr fun task _ => ?_
      rw [Function.comp_apply, beq_iff_eq]
    rw [runTasks, bind_eq (mapM_runTask_eq _ _), ← hcount]
    rfl
  cases turn with
  | afterLayout => exact hrun
  | next => exact hrun

end Act

/-! ### Drops -/

/-- `q'` is `q` with feedback on one connection queued. -/
def TaskQueue.Fed (q q' : TaskQueue) : Prop :=
  ∃ inferior root, q' = q.pushAfterLayout (.connectionFeedback inferior root)

namespace DragOutcome

/-- What is queued when a drag ends in one way or the other. -/
def Feeds (q : TaskQueue) : DragOutcome α → TaskQueue → Prop
  | .connected _ _ => q.Fed
  | .dropped _ _ => (· = q)

theorem feeds_atMost (outcome : DragOutcome α) {q q' : TaskQueue} (h : outcome.Feeds q q') :
    q' = q ∨ q.Fed q' := by
  cases outcome with
  | connected => exact Or.inr h
  | dropped => exact Or.inl h

end DragOutcome

namespace Act

open Editor

/-- What the tasks are after a step: as `P` says of its answer, or `E` if it is refused. -/
def Leaves {β : Type} (P : β → TaskQueue → Prop) (E : TaskQueue → Prop) :
    EStateM.Result (EditError α) (Editor α) β → Prop
  | .ok a t => P a t.workspace.tasks
  | .error _ t => E t.workspace.tasks

namespace Leaves

variable {β γ : Type} {P : β → TaskQueue → Prop} {Q : γ → TaskQueue → Prop}
  {E E' P' : TaskQueue → Prop} {e : Editor α} {m : Act α β} {f : β → Act α γ}
  {handler : EditError α → Act α β}

theorem ended {r : EStateM.Result (EditError α) (Editor α) β} (h : Leaves (fun _ => E) E r) :
    E (ended r).workspace.tasks := by
  cases r with
  | ok => exact h
  | error => exact h

/-- A step that has nothing to do with tasks. -/
theorem quiet [h : Along Evolves m] (he : P' e.workspace.tasks) :
    Leaves (fun _ => P') P' (m e) := by
  cases hm : m e with
  | ok a t =>
    change P' t.workspace.tasks
    rwa [(h.ok hm).tasks]
  | error refusal t =>
    change P' t.workspace.tasks
    rwa [(h.error hm).tasks]

theorem bind (h : Leaves P E (m e)) (hE : ∀ q, E q → E' q)
    (hf : ∀ a t, P a t.workspace.tasks → Leaves Q E' (f a t)) : Leaves Q E' ((m >>= f) e) := by
  cases hm : m e with
  | ok a t =>
    rw [hm] at h
    rw [bind_eq hm]
    exact hf a t h
  | error refusal t =>
    rw [hm] at h
    rw [bind_error hm]
    exact hE _ h

theorem tryCatch (h : Leaves P E (m e))
    (hh : ∀ refusal t, E t.workspace.tasks → Leaves P E' (handler refusal t)) :
    Leaves P E' (tryCatch m handler e) := by
  cases hm : m e with
  | ok a t =>
    rw [hm] at h
    rw [tryCatch_ok hm]
    exact h
  | error refusal t =>
    rw [hm] at h
    rw [tryCatch_error hm]
    exact hh refusal t h

end Leaves

variable [Scalar α]

theorem commit_leaves (x : BlockId) (c : Candidate α) {q : TaskQueue} {e : Editor α}
    (he : e.workspace.tasks = q) : Leaves (fun _ => q.Fed) (· = q) (commit x c e) := by
  refine (Leaves.quiet he).bind (fun _ h => h) fun _ s hs => ?_
  refine (Leaves.quiet hs).bind (fun _ h => h) fun own s hs => ?_
  refine (Leaves.quiet hs).bind (fun _ h => h) fun plug s hs => ?_
  refine (Leaves.quiet hs).bind (fun _ h => h) fun root s hs => ?_
  exact ⟨plug.block, root, congrArg (TaskQueue.pushAfterLayout · _) hs⟩

theorem settle_leaves (s : DragSession α) (location : Point α) {q : TaskQueue} {e : Editor α}
    (he : e.workspace.tasks = q) :
    Leaves (DragOutcome.Feeds q) (fun q' => q' = q ∨ q.Fed q') (settle s location e) := by
  refine (Leaves.quiet he).bind (fun _ => Or.inl) fun _ t ht => ?_
  cases hc : s.candidate with
  | none =>
    refine (Leaves.quiet ht).bind (fun _ => Or.inl) fun _ t ht => ?_
    rw [pure_bind]
    exact (Leaves.quiet ht).bind (fun _ => Or.inl) fun _ _ h => h
  | some c =>
    refine (commit_leaves s.block c ht).bind (fun _ => Or.inl) fun _ t ht => ?_
    rw [pure_bind]
    exact (Leaves.quiet ht).bind (fun _ => Or.inr) fun _ _ h => h

theorem dropAt_leaves (location : Point α) {q : TaskQueue} {e : Editor α}
    (he : e.workspace.tasks = q) :
    Leaves (DragOutcome.Feeds q) (fun q' => q' = q ∨ q.Fed q') (dropAt location e) := by
  refine (Leaves.quiet he).bind (fun _ => Or.inl) fun s t ht => ?_
  refine (Leaves.quiet ht).bind (fun _ => Or.inl) fun _ t ht => ?_
  refine (Leaves.quiet ht).bind (fun _ => Or.inl) fun _ t ht => ?_
  refine (Leaves.quiet ht).bind (fun _ => Or.inl) fun _ t ht => ?_
  refine (Leaves.tryCatch (settle_leaves s _ ht) fun refusal t ht => ?refused).bind (fun _ h => h)
    fun outcome t ht => ?settled
  case refused => exact (Leaves.quiet ht).bind (fun _ h => h) fun _ _ h => h
  case settled => exact (Leaves.quiet ht).bind (fun _ => outcome.feeds_atMost) fun _ _ h => h

end Act

/-! ### Runs -/

/-- What the host does to the queues is to queue more. -/
def Action.Appends : Action α → Prop
  | .updateTasks change => ∀ q turn, q.waiting turn <+: (change q).waiting turn
  | _ => True

namespace Editor

/-- What a turn puts into a queue. -/
def putsOff (e : Editor α) (run : Turn) : Turn → List DeferredTask
  | .afterLayout => []
  | .next => (e.due run).filterMap DeferredTask.followUp?

/-- What a turn takes out of a queue. -/
def takesOut (e : Editor α) (run turn : Turn) : List DeferredTask :=
  if turn = run then e.waiting turn else []

theorem takesOut_putsOff (e : Editor α) (run turn : Turn) :
    e.takesOut run turn ++ (e.served run).waiting turn = e.waiting turn ++ e.putsOff run turn := by
  cases run <;> cases turn
  case next.afterLayout => exact (List.append_nil _).symm
  all_goals rfl

variable [Scalar α]

/-- What an action takes out of a queue. -/
def takes (e : Editor α) (turn : Turn) : Action α → List DeferredTask
  | .runAfterLayout => e.takesOut .afterLayout turn
  | .runNextTurn => e.takesOut .next turn
  | _ => []

/-- What an action puts into a queue. -/
def puts (e : Editor α) (turn : Turn) : Action α → List DeferredTask
  | .runAfterLayout => e.putsOff .afterLayout turn
  | .runNextTurn => e.putsOff .next turn
  | .updateTasks change =>
    ((change e.workspace.tasks).waiting turn).drop (e.waiting turn).length
  | .dropAt location =>
    ((e.after (.dropAt location)).waiting turn).drop (e.waiting turn).length
  | _ => []

def taken (e : Editor α) (turn : Turn) : List (Action α) → List DeferredTask
  | [] => []
  | a :: rest => e.takes turn a ++ (e.after a).taken turn rest

def put (e : Editor α) (turn : Turn) : List (Action α) → List DeferredTask
  | [] => []
  | a :: rest => e.puts turn a ++ (e.after a).put turn rest

theorem after_runAfterLayout (e : Editor α) : e.after .runAfterLayout = e.served .afterLayout := by
  have h : perform .runAfterLayout e = .ok () (e.served .afterLayout) :=
    bind_eq (Act.runTurn_eq e .afterLayout)
  rw [after_eq, h]
  rfl

theorem after_runNextTurn (e : Editor α) : e.after .runNextTurn = e.served .next := by
  have h : perform .runNextTurn e = .ok () (e.served .next) := bind_eq (Act.runTurn_eq e .next)
  rw [after_eq, h]
  rfl

/-- A drop only adds to the queues. -/
theorem waiting_dropAt (e : Editor α) (turn : Turn) (location : Point α) :
    e.waiting turn <+: (e.after (.dropAt location)).waiting turn := by
  have hdrop : Act.Leaves (fun _ q => q = e.workspace.tasks ∨ e.workspace.tasks.Fed q)
      (fun q => q = e.workspace.tasks ∨ e.workspace.tasks.Fed q) (perform (.dropAt location) e) :=
    (Act.dropAt_leaves location rfl).bind (fun _ h => h) fun outcome _ h => outcome.feeds_atMost h
  have hfed := hdrop.ended
  rw [← after_eq] at hfed
  unfold waiting
  rcases hfed with hsame | ⟨inferior, root, hfed⟩
  · rw [hsame]
  · rw [hfed]
    exact TaskQueue.waiting_pushAfterLayout _ _ turn

theorem takes_puts (e : Editor α) (turn : Turn) {a : Action α} (h : a.Appends) :
    e.takes turn a ++ (e.after a).waiting turn = e.waiting turn ++ e.puts turn a := by
  cases hdefers : a.defers with
  | false =>
    have hsame : (e.after a).waiting turn = e.waiting turn :=
      congrArg (TaskQueue.waiting · turn) (e.after_evolves hdefers).tasks
    rw [hsame]
    cases a with
    | dropAt | updateTasks | runAfterLayout | runNextTurn => cases hdefers
    | _ => exact (List.append_nil _).symm
  | true =>
    cases a with
    | updateTasks change =>
      exact (List.prefix_iff_eq_append.mp (h e.workspace.tasks turn)).symm
    | dropAt location => exact (List.prefix_iff_eq_append.mp (e.waiting_dropAt turn location)).symm
    | runAfterLayout =>
      rw [after_runAfterLayout]
      exact e.takesOut_putsOff .afterLayout turn
    | runNextTurn =>
      rw [after_runNextTurn]
      exact e.takesOut_putsOff .next turn
    | _ => cases hdefers

/-- What has been put into a queue was taken out of it in the same order, or still waits. -/
theorem taken_append_waiting (e : Editor α) (turn : Turn) {actions : List (Action α)}
    (h : ∀ a ∈ actions, a.Appends) :
    e.taken turn actions ++ (e.run actions).waiting turn =
      e.waiting turn ++ e.put turn actions := by
  induction actions generalizing e with
  | nil => exact (List.append_nil _).symm
  | cons a rest ih =>
    obtain ⟨ha, hrest⟩ := List.forall_mem_cons.mp h
    calc e.taken turn (a :: rest) ++ (e.run (a :: rest)).waiting turn
      _ = e.takes turn a ++ ((e.after a).taken turn rest ++ ((e.after a).run rest).waiting turn) :=
        List.append_assoc _ _ _
      _ = e.takes turn a ++ ((e.after a).waiting turn ++ (e.after a).put turn rest) := by
        rw [ih (e.after a) hrest]
      _ = (e.waiting turn ++ e.puts turn a) ++ (e.after a).put turn rest := by
        rw [← List.append_assoc, e.takes_puts turn ha]
      _ = e.waiting turn ++ e.put turn (a :: rest) := List.append_assoc _ _ _

/-- Whatever is done in between, each turn takes what was queued for it before and was not taken
yet, in the order in which it was queued. -/
theorem run_turns (e : Editor α) {actions : List (Action α)} (h : ∀ a ∈ actions, a.Appends) :
    (∀ turn, e.taken turn actions ++ (e.run actions).waiting turn =
      e.waiting turn ++ e.put turn actions) ∧
    (∀ turn, Act.runTurn turn (e.run actions) =
      .ok ((e.run actions).due turn).length ((e.run actions).served turn)) ∧
    ∀ location, Act.Leaves (DragOutcome.Feeds (e.run actions).workspace.tasks)
      (fun q => q = (e.run actions).workspace.tasks ∨ (e.run actions).workspace.tasks.Fed q)
      (Act.dropAt location (e.run actions)) :=
  ⟨fun turn => e.taken_append_waiting turn h, Act.runTurn_eq _, fun location =>
    Act.dropAt_leaves location rfl⟩

/-- One of two blocks is gone when the layout is done, and what was to be raised with it is not
raised; the other is, one turn later. -/
theorem run_turns_disposed :
    let e := fresh (.standard : EditorConfig Int) Palette.registry
    let actions := [.newBlock "int", .newBlock "Return",
      .updateTasks (·.pushAfterLayout (.bringToFront ⟨1⟩)),
      .updateTasks (·.pushAfterLayout (.connectionFeedback ⟨0⟩ ⟨0⟩)), .dispose ⟨1⟩, .runAfterLayout]
    (∀ a ∈ actions, a.Appends) ∧
      e.taken .next actions ++ (e.run actions).waiting .next = [.bringToFront ⟨0⟩] ∧
      ∃ t, Act.runTurn .next (e.run actions) = .ok 1 t ∧
        t.requests = [.connectionEffect ⟨0⟩, .bringToFront ⟨0⟩] := by
  intro e actions
  have happends : ∀ a ∈ actions, a.Appends := by
    simp only [actions, List.forall_mem_cons]
    exact ⟨trivial, trivial, fun q => q.waiting_pushAfterLayout _,
      fun q => q.waiting_pushAfterLayout _, trivial, trivial, List.forall_mem_nil _⟩
  obtain ⟨htaken, hturn, -⟩ := e.run_turns happends
  have hcount : ((e.run actions).due .next).length = 1 := by decide +kernel
  refine ⟨happends, (htaken .next).trans (by decide +kernel), (e.run actions).served .next, ?_, ?_⟩
  · rw [hturn .next, hcount]
  · decide +kernel

end Editor

end BlockEditor
