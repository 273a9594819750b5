import BlockEditor.Geometry
import BlockEditor.Ids

/-!
# Requests to the host

The editor draws nothing. What should be seen on the canvas is asked of the host that shows it,
by requests that the host fetches and carries out in order.
-/

namespace BlockEditor

inductive HostRequest (α : Type) where
  /-- Show where the dragged block would be plugged in. -/
  | previewConnection (own neighbour : ConnectionId)
  /-- Show that `replaced` would be pushed out by the drop. -/
  | previewReplacement (own neighbour : ConnectionId) (replaced : BlockId)
  | hidePreview
  | disposePreview
  /-- Show the dragged block at a place where it is not yet. -/
  | moveDuringDrag (block : BlockId) (location : Point α)
  | connectionEffect (block : BlockId)
  | disconnectEffect (block : BlockId)
  | stopDisconnectEffect
  | bringToFront (block : BlockId)
  | queueRender (block : BlockId)
  | textWidthCache (enabled : Bool)
  | resizesEnabled (enabled : Bool)
  | dragLayer (block : BlockId) (active : Bool)
deriving DecidableEq, Repr

end BlockEditor
