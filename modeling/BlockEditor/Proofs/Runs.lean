import BlockEditor.Proofs.Gestures

/-!
# Runs of an editor

A run starts from an empty editor and is made of actions in any order. An action that is refused
leaves what it had done by then.
-/

namespace BlockEditor

variable {α : Type} [Scalar α]

/-- What a host can ask of an editor that may change the blocks. -/
inductive Action (α : Type) where
  | newBlock (typeName : String)
  | newPlaceholder (typeName : String)
  | dispose (block : BlockId)
  | setField (block : BlockId) (name value : String)
  | setPlaceholder (block : BlockId) (on : Bool)
  | setMovable (block : BlockId) (on : Bool)
  | setInFlyout (block : BlockId) (on : Bool)
  | setCopyOnDrag (block : BlockId) (value : Option Bool)
  | setTemplate (connection : ConnectionId) (template : Option Snapshot)
  | connect (a b : ConnectionId)
  | disconnect (connection : ConnectionId)
  | pullOut (block : BlockId) (heal : Bool)
  | respawn (connection : ConnectionId)
  | restore (snapshot : Snapshot)
  | moveTo (block : BlockId) (location : Point α) (reason : String)
  | moveBy (block : BlockId) (delta : Point α) (reason : String)
  | moveToGrid (block : BlockId)
  | keepInView (block : BlockId)
  | setViewport (viewport : Option (Rect α))
  | setUnits (block : BlockId) (units : Nat)
  | press (block : BlockId) (control : Control)
  | loadShape (block : BlockId) (shape : Json)
  | refreshControls (block : BlockId)
  | pickUp (block : BlockId) (heal : Bool)
  | dragTo (location : Point α)
  | dropAt (location : Point α)
  | cancelDrag
  | setGroup (on : Bool)
  | updateTasks (change : TaskQueue → TaskQueue)
  | runAfterLayout
  | runNextTurn

namespace Editor

open Act in
/-- Carry out an action; what it answers is of no account here. -/
def perform : Action α → Act α Unit
  | .newBlock typeName => discard <| edit (Edit.newBlock typeName)
  | .newPlaceholder typeName => discard <| edit (Edit.newPlaceholder typeName)
  | .dispose block => edit (Edit.dispose block)
  | .setField block name value => edit (Edit.setField block name value)
  | .setPlaceholder block on => edit (Edit.setPlaceholder block on)
  | .setMovable block on => edit (Edit.setMovable block on)
  | .setInFlyout block on => edit (Edit.setInFlyout block on)
  | .setCopyOnDrag block value => edit (Edit.setCopyOnDrag block value)
  | .setTemplate connection template => discard <| edit (Edit.setTemplate connection template)
  | .connect a b => edit (Edit.connect a b)
  | .disconnect connection => edit (Edit.disconnect connection)
  | .pullOut block heal => edit (Edit.pullOut block heal)
  | .respawn connection => discard <| edit (Edit.respawn connection)
  | .restore snapshot => discard <| edit (Edit.restore snapshot)
  | .moveTo block location reason => edit (Edit.moveTo block location reason)
  | .moveBy block delta reason => edit (Edit.moveBy block delta reason)
  | .moveToGrid block => discard <| edit (Edit.moveToGrid block)
  | .keepInView block => discard <| edit (Edit.keepInView block)
  | .setViewport viewport => edit (Edit.setViewport viewport)
  | .setUnits block units => edit (Edit.setUnits block units)
  | .press block control => edit (Edit.press block control)
  | .loadShape block shape => discard <| edit (Edit.loadShape block shape)
  | .refreshControls block => edit (Edit.refreshControls block)
  | .pickUp block heal => discard <| pickUp block heal
  | .dragTo location => discard <| dragTo location
  | .dropAt location => discard <| dropAt location
  | .cancelDrag => cancelDrag
  | .setGroup on => edit <| modify fun ws => { ws with events := ws.events.setGroup on }
  | .updateTasks change => Act.updateTasks change
  | .runAfterLayout => discard runAfterLayout
  | .runNextTurn => discard runNextTurn

/-- The editor after an action, whether it was refused or not. -/
def after (e : Editor α) (a : Action α) : Editor α :=
  match perform a e with
  | .ok _ e' => e'
  | .error _ e' => e'

def accepts (e : Editor α) (a : Action α) : Bool :=
  match perform a e with
  | .ok _ _ => true
  | .error _ _ => false

def run (e : Editor α) (actions : List (Action α)) : Editor α :=
  actions.foldl after e

end Editor

namespace Workspace

/-- The workspace of an editor that was just made. -/
def empty (config : EditorConfig α) (registry : Registry) : Workspace α where
  config := config
  registry := registry
  ids := IdSupply.fresh
  blocks := ∅
  connections := ∅
  top := []
  procedures := Procedures.empty
  viewport := none
  events := EventLog.withCapacity config.eventCapacity
  tasks := TaskQueue.empty

variable {config : EditorConfig α} {registry : Registry}

omit [Scalar α] in
@[simp]
theorem getElem?_blocks_empty (x : BlockId) : (empty config registry).blocks[x]? = none :=
  Std.ExtTreeMap.getElem?_empty

omit [Scalar α] in
@[simp]
theorem getElem?_connections_empty (c : ConnectionId) :
    (empty config registry).connections[c]? = none :=
  Std.ExtTreeMap.getElem?_empty

omit [Scalar α] in
theorem empty_sound (hone : registry.OnePlug) : (empty config registry).Sound where
  wired := by
    constructor <;> simp [Workspace.graph]
  blockIds hb := by simp at hb
  connectionIds hx := by simp at hx
  registry := hone

end Workspace

namespace Editor

open Workspace

/-- An editor of an empty workspace. -/
def fresh (config : EditorConfig α) (registry : Registry) : Editor α :=
  ⟨Workspace.empty config registry, none, [], .idle⟩

/-- In no state of the run does a block hang below itself. -/
def StaysAcyclic (e : Editor α) (actions : List (Action α)) : Prop :=
  ∀ l, l <+: actions → (e.run l).workspace.graph.Acyclic

/-- No action of the run is refused. -/
def Accepted (e : Editor α) (actions : List (Action α)) : Prop :=
  ∀ l a, l ++ [a] <+: actions → (e.run l).accepts a

variable {strict : Prop} {J : Set ConnectionId → Workspace α → Prop} {X : Set ConnectionId}
  {P : Editor α → Prop} {E : Editor α → Prop}

omit [Scalar α] in
theorem discard_leads {β : Type} {m : Act α β} {Q : Editor α → Prop} (h : Leads P m (fun _ => Q) E) :
    Leads P (discard m) (fun _ => Q) E :=
  Leads.bind (Q := fun _ => Q) h fun _ => Leads.pure fun _ h => h

theorem perform_keeps (hJ : Stable strict J) (a : Action α) :
    Leads (fun e => Steady J X e.workspace ∧ (strict → e.workspace.graph.Acyclic)) (perform a)
      (fun _ e => Steady J X e.workspace) (fun e => Steady J Set.univ e.workspace) := by
  have plain : ∀ {m : Act α Unit}, Act.Safe J X m →
      Leads (fun e => Steady J X e.workspace ∧ (strict → e.workspace.graph.Acyclic)) m
        (fun _ e => Steady J X e.workspace) (fun e => Steady J Set.univ e.workspace) :=
    fun h => h.pre fun _ he => he.1
  cases a with
  | newBlock typeName => exact plain (discard_leads (Act.edit_leads (Edit.newBlock_safe hJ typeName)))
  | newPlaceholder typeName =>
    exact plain (discard_leads (Act.edit_leads (Edit.newPlaceholder_keeps hJ typeName)))
  | dispose block => exact plain (Act.edit_leads (Edit.dispose_keeps hJ block))
  | setField block name value =>
    exact plain (Act.edit_keeps hJ (Edit.setField_keeps hJ.field))
  | setPlaceholder block on =>
    exact plain (Act.edit_keeps hJ (Edit.setPlaceholder_keeps hJ block on))
  | setMovable block on => exact plain (Act.edit_keeps hJ (Edit.setMovable_keeps hJ block on))
  | setInFlyout block on => exact plain (Act.edit_keeps hJ (Edit.setInFlyout_keeps hJ block on))
  | setCopyOnDrag block value =>
    exact plain (Act.edit_keeps hJ (Edit.setCopyOnDrag_keeps hJ block value))
  | setTemplate connection template =>
    exact plain (discard_leads (Act.edit_leads (Edit.setTemplate_keeps hJ connection template)))
  | connect a b => exact plain (Act.edit_leads (Edit.connect_keeps hJ a b))
  | disconnect connection => exact plain (Act.edit_leads (Edit.disconnect_safe hJ connection))
  | pullOut block heal => exact plain (Act.edit_leads (Edit.pullOut_keeps hJ block heal))
  | respawn connection =>
    exact plain (discard_leads (Act.edit_leads (Edit.respawn_safe hJ connection)))
  | restore snapshot =>
    exact plain (discard_leads (Act.edit_leads (Edit.restore_keeps hJ snapshot)))
  | moveTo block location reason =>
    exact plain (Act.edit_keeps hJ (Edit.moveTo_keeps hJ.calm block location reason))
  | moveBy block delta reason =>
    exact plain (Act.edit_keeps hJ (Edit.moveBy_keeps hJ.calm block delta reason))
  | moveToGrid block =>
    exact plain (discard_leads (Act.edit_keeps hJ (Edit.moveToGrid_keeps hJ.calm block)))
  | keepInView block =>
    exact plain (discard_leads (Act.edit_keeps hJ (Edit.keepInView_keeps hJ.calm block)))
  | setViewport viewport => exact plain (Act.edit_keeps hJ (Edit.setViewport_keeps hJ viewport))
  | setUnits block units =>
    exact (Act.edit_leads (Edit.setUnits_safe hJ block units)).weaken
      (fun _ h => ⟨h.1, fun hs => h.2 hs block⟩) (fun _ _ h => h.1) fun _ h => h
  | press block control =>
    exact (Act.edit_leads (Edit.press_keeps hJ block control)).pre
      fun _ h => ⟨h.1, fun hs => h.2 hs block⟩
  | loadShape block shape =>
    have h := Act.edit_leads (Edit.loadShape_keeps (X := X) hJ block shape)
    exact Leads.bind (h.pre fun _ h => ⟨h.1, fun hs => h.2 hs block⟩) fun _ => Leads.pure fun _ h => h
  | refreshControls block =>
    exact (Act.edit_leads (Edit.refreshControls_safe hJ block)).pre
      fun _ h => ⟨h.1, fun hs => h.2 hs block⟩
  | pickUp block heal => exact plain (discard_leads (Act.pickUp_keeps hJ block heal))
  | dragTo location => exact plain (discard_leads (Act.dragTo_keeps hJ location))
  | dropAt location => exact plain (discard_leads (Act.dropAt_keeps hJ location))
  | cancelDrag => exact plain (Act.cancelDrag_keeps hJ)
  | setGroup on => exact plain (Act.edit_keeps hJ (Act.group_keeps hJ.calm.quiet (fun _ => true) on))
  | updateTasks change =>
    exact plain ((Act.updateTasks_keeps hJ.calm.quiet change).refused fun _ h => h.anyway hJ)
  | runAfterLayout =>
    exact plain (discard_leads ((Act.runAfterLayout_keeps hJ.calm.quiet).refused fun _ h => h.anyway hJ))
  | runNextTurn =>
    exact plain (discard_leads ((Act.runNextTurn_keeps hJ.calm.quiet).refused fun _ h => h.anyway hJ))

/-! ### From one action to all of them -/

theorem run_append (e : Editor α) (l l' : List (Action α)) :
    e.run (l ++ l') = (e.run l).run l' :=
  List.foldl_append

theorem after_steady (hJ : Stable strict J) {e : Editor α} {a : Action α}
    (h : Steady J X e.workspace) (hacyclic : strict → e.workspace.graph.Acyclic)
    (hlast : Lasts (e.after a)) : Steady J Set.univ (e.after a).workspace ∧
      (e.accepts a → Steady J X (e.after a).workspace) := by
  have hp := perform_keeps (X := X) hJ a e
  unfold after accepts at *
  cases hm : perform a e with
  | ok r t =>
    simp only [hm] at hp hlast ⊢
    have ht := (hp hlast).2 ⟨h, hacyclic⟩
    exact ⟨ht.anyway hJ, fun _ => ht⟩
  | error r t =>
    simp only [hm] at hp hlast ⊢
    exact ⟨(hp hlast).2 ⟨h, hacyclic⟩, fun h => by cases h⟩

/-- What an action leads to, whether it is refused or not. -/
theorem after_of_leads {e : Editor α} {a : Action α} {Q : Editor α → Prop}
    (h : Leads (· = e) (perform a) (fun _ => Q) Q) (hlast : Lasts (e.after a)) : Q (e.after a) := by
  have hstep := h e
  unfold after at hlast ⊢
  cases hm : perform a e with
  | ok r t =>
    rw [hm] at hstep hlast
    exact (hstep hlast).2 rfl
  | error r t =>
    rw [hm] at hstep hlast
    exact (hstep hlast).2 rfl

/-- What an action leads to, if it is accepted. -/
theorem after_of_accepts {e : Editor α} {a : Action α} {Q : Editor α → Prop} {E : Editor α → Prop}
    (h : Leads (· = e) (perform a) (fun _ => Q) E) (haccept : e.accepts a)
    (hlast : Lasts (e.after a)) : Q (e.after a) := by
  have hstep := h e
  unfold after at hlast ⊢
  unfold accepts at haccept
  cases hm : perform a e with
  | ok r t =>
    rw [hm] at hstep hlast
    exact (hstep hlast).2 rfl
  | error r t =>
    rw [hm] at haccept
    cases haccept

theorem stable_true : Stable (α := α) False fun _ _ => True where
  mono _ _ := trivial
  shifts _ _ _ := trivial
  decorate _ _ _ _ := trivial
  field _ _ _ _ := trivial
  side _ := trivial
  note _ _ := trivial
  group _ := trivial
  template _ _ _ _ := trivial
  cuts _ _ _ := trivial
  ties _ _ _ := trivial
  prunes _ _ _ _ _ := trivial
  fill _ _ _ := trivial
  newBlock typeName := (coarse_true.newBlock (fine_true False)
    (fun _ _ _ _ => trivial) typeName).weaken (fun _ h => h) (fun _ _ _ => trivial) fun _ _ => trivial
  setUnits id n := (coarse_true.setUnits (fine_true False id) n).weaken
    (fun _ h => ⟨h.1, h.2.2, trivial⟩) (fun _ _ _ => trivial) fun _ _ => trivial
  refreshControls id := (Edit.refreshControls_keeps (fine_true False id).handles).weaken
    (fun _ h => ⟨h.1, h.2.2, trivial⟩) (fun _ _ _ => trivial) fun _ _ => trivial

theorem calm_true : Calm (Steady (fun _ (_ : Workspace α) => True) ∅) :=
  stable_true.calm

theorem quiet_true : Quiet (Steady (fun _ (_ : Workspace α) => True) ∅) :=
  calm_true.quiet

theorem growing_true : Growing (α := α) False fun _ _ => True :=
  stable_true.growing

/-- The numbers of ids never go down. -/
theorem lasts_of_after {e : Editor α} {a : Action α} (h : Lasts (e.after a)) : Lasts e := by
  have hp := perform_keeps (X := ∅) stable_true a e
  unfold after at h
  cases hm : perform a e with
  | ok r t =>
    simp only [hm] at hp h
    exact (hp h).1
  | error r t =>
    simp only [hm] at hp h
    exact (hp h).1

theorem lasts_of_run {e : Editor α} {actions : List (Action α)} (h : Lasts (e.run actions)) :
    Lasts e := by
  induction actions generalizing e with
  | nil => exact h
  | cons a rest ih => exact lasts_of_after (ih h)

theorem StaysAcyclic.start {e : Editor α} {actions : List (Action α)}
    (h : e.StaysAcyclic actions) : e.workspace.graph.Acyclic :=
  h [] List.nil_prefix

theorem StaysAcyclic.tail {e : Editor α} {a : Action α} {rest : List (Action α)}
    (h : e.StaysAcyclic (a :: rest)) : (e.after a).StaysAcyclic rest :=
  fun l hl => h (a :: l) (List.cons_prefix_cons.mpr ⟨rfl, hl⟩)

theorem Accepted.head {e : Editor α} {a : Action α} {rest : List (Action α)}
    (h : e.Accepted (a :: rest)) : e.accepts a :=
  h [] a (List.cons_prefix_cons.mpr ⟨rfl, List.nil_prefix⟩)

theorem Accepted.tail {e : Editor α} {a : Action α} {rest : List (Action α)}
    (h : e.Accepted (a :: rest)) : (e.after a).Accepted rest :=
  fun l b hl => h (a :: l) b (List.cons_prefix_cons.mpr ⟨rfl, hl⟩)

theorem Accepted.cons {e : Editor α} {a : Action α} {rest : List (Action α)} (ha : e.accepts a)
    (h : (e.after a).Accepted rest) : e.Accepted (a :: rest) := by
  rintro (_ | ⟨b, l⟩) c hl
  · obtain ⟨rfl, -⟩ := List.cons_prefix_cons.mp hl
    exact ha
  · obtain ⟨rfl, hrest⟩ := List.cons_prefix_cons.mp hl
    exact h l c hrest

/-- A run keeps the property, but may leave holes. -/
theorem run_steady (hJ : Stable strict J) {e : Editor α} {actions : List (Action α)}
    (h : Steady J Set.univ e.workspace) (hlast : Lasts (e.run actions))
    (hacyclic : strict → e.StaysAcyclic actions) :
    Steady J Set.univ (e.run actions).workspace := by
  induction actions generalizing e with
  | nil => exact h
  | cons a rest ih =>
    have hafter : Lasts (e.after a) := lasts_of_run hlast
    have hstep := after_steady hJ h (fun hs => (hacyclic hs).start) hafter
    exact ih hstep.1 hlast fun hs => (hacyclic hs).tail

/-- A run in which nothing is refused leaves no holes. -/
theorem run_accepted (hJ : Stable strict J) {e : Editor α} {actions : List (Action α)}
    (h : Steady J X e.workspace) (hlast : Lasts (e.run actions))
    (hacyclic : strict → e.StaysAcyclic actions) (haccepted : e.Accepted actions) :
    Steady J X (e.run actions).workspace := by
  induction actions generalizing e with
  | nil => exact h
  | cons a rest ih =>
    have hafter : Lasts (e.after a) := lasts_of_run hlast
    have hstep := after_steady hJ h (fun hs => (hacyclic hs).start) hafter
    exact ih (hstep.2 haccepted.head) hlast (fun hs => (hacyclic hs).tail) haccepted.tail

/-! ### The start -/

theorem create_eq_ok {config : EditorConfig α} {registry : Registry} {e : Editor α}
    (h : create config registry = .ok e) : config.fault? = none ∧
      e = fresh config registry := by
  obtain ⟨ws, hws, h⟩ := bind_eq_ok h
  cases h
  unfold Workspace.create at hws
  cases hf : config.fault? with
  | some fault =>
    rw [hf] at hws
    cases hws
  | none =>
    rw [hf] at hws
    cases hws
    exact ⟨rfl, rfl⟩

/-! ### The registry -/

theorem stable_registry (r : Registry) : Stable (α := α) False fun _ ws => ws.registry = r := by
  have hcoarse : Coarse (α := α) fun ws => ws.registry = r := ⟨fun _ h => h, fun h => h, fun h => h⟩
  have hfine : ∀ id, Fine (α := α) False id fun ws => ws.registry = r := by
    refine fun id => ⟨fun _ hstep h => hstep.registry.trans h, fun _ _ hstep h => ?_,
      fun _ hstep h _ => ?_⟩
    · obtain ⟨R, hl, -⟩ := hstep
      exact hl.registry.trans h
    · rw [hstep.rest]
      exact h
  exact {
    mono := fun _ h => h
    shifts := fun _ hstep h => hstep.registry.trans h
    decorate := fun _ _ _ h => h
    field := fun _ _ _ h => h
    side := fun h => h
    note := fun _ h => h
    group := fun h => h
    template := fun _ _ hr h => by
      rw [hr]
      exact h
    cuts := fun _ hstep h => hstep.registry.trans h
    ties := fun _ hstep h => hstep.registry.trans h
    prunes := fun _ _ hl _ h => hl.registry.trans h
    fill := fun _ _ h => h
    newBlock := fun typeName => (hcoarse.newBlock hfine (fun _ _ hr h => hr.registry.trans h)
      typeName).weaken (fun _ h => h) (fun _ _ h => h.1.keeps) fun _ h => h.2
    setUnits := fun id n => (hcoarse.setUnits (hfine id) n).weaken
      (fun _ h => ⟨h.1, h.2.2, h.2.1⟩) (fun _ _ h => h.1.keeps) fun _ h => h.2
    refreshControls := fun id => (Edit.refreshControls_keeps (hfine id).handles).weaken
      (fun _ h => ⟨h.1, h.2.2, h.2.1⟩) (fun _ _ h => h.1.keeps) fun _ h => h.keeps }

/-- A run never changes the registry. -/
theorem run_registry {config : EditorConfig α} {registry : Registry} {actions : List (Action α)}
    (hone : registry.OnePlug)
    (hlast : Lasts ((fresh config registry).run actions)) :
    ((fresh config registry).run actions).workspace.registry = registry :=
  (run_steady (stable_registry registry) ⟨empty_sound hone, rfl⟩ hlast False.elim).keeps

/-- A run leaves a sound workspace, whether its blocks hang below themselves or not. -/
theorem run_wired {config : EditorConfig α} {registry : Registry} {e : Editor α}
    {actions : List (Action α)} (hone : registry.OnePlug) (hstart : create config registry = .ok e)
    (hlast : Lasts (e.run actions)) : (e.run actions).workspace.Sound := by
  obtain ⟨-, rfl⟩ := create_eq_ok hstart
  have hsteady : Steady (fun _ _ => True) Set.univ (fresh config registry).workspace :=
    ⟨empty_sound hone, trivial⟩
  exact (run_steady stable_true hsteady hlast fun h => h.elim).sound

end Editor

end BlockEditor
