import BlockEditor.Editor.Basic

/-!
# Running deferred tasks

A call runs the tasks that are queued when it is made. What they queue waits for another call.
-/

namespace BlockEditor.Act

variable {α : Type}

def updateTasks (f : TaskQueue → TaskQueue) : Act α Unit :=
  edit <| modify fun ws => { ws with tasks := f ws.tasks }

/-- Run a task, unless its block is gone. Whether it ran. -/
def runTask (task : DeferredTask) : Act α Bool := do
  let ws := (← get).workspace
  match task with
  | .connectionFeedback inferior root =>
    if !ws.hasBlock inferior then return false
    request (.connectionEffect inferior)
    updateTasks (·.pushNextTick (.bringToFront root))
    return true
  | .bringToFront block =>
    if !ws.hasBlock block then return false
    request (.bringToFront block)
    return true

/-- Run tasks in order. Answers how many ran. -/
def runTasks (tasks : List DeferredTask) : Act α Nat := do
  return (← tasks.mapM runTask).count true

/-- Run what waits for a layout. -/
def runAfterLayout : Act α Nat := do
  let pending := (← get).workspace.tasks.afterLayout
  updateTasks fun q => { q with afterLayout := [] }
  runTasks pending

/-- Run what waits for the next turn. -/
def runNextTurn : Act α Nat := do
  let pending := (← get).workspace.tasks.nextTick
  updateTasks fun q => { q with nextTick := [] }
  runTasks pending

end BlockEditor.Act
