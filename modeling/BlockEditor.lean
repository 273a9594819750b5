import BlockEditor.Decimal
import BlockEditor.Editor.Deferred
import BlockEditor.Editor.Gesture
import BlockEditor.Editor.View
import BlockEditor.Format.Event
import BlockEditor.Format.Host
import BlockEditor.Format.Text
import BlockEditor.Json.Writer
import BlockEditor.Palette
import BlockEditor.Proofs.Abandoning
import BlockEditor.Proofs.Absence
import BlockEditor.Proofs.Alignment
import BlockEditor.Proofs.Arranging
import BlockEditor.Proofs.Assoc
import BlockEditor.Proofs.Building
import BlockEditor.Proofs.Callers
import BlockEditor.Proofs.Coherence
import BlockEditor.Proofs.Container.Plan
import BlockEditor.Proofs.Containers
import BlockEditor.Proofs.Cycles
import BlockEditor.Proofs.Detaching
import BlockEditor.Proofs.Dragging
import BlockEditor.Proofs.Drops
import BlockEditor.Proofs.Evaluation
import BlockEditor.Proofs.Events.Echo
import BlockEditor.Proofs.Events.Edits
import BlockEditor.Proofs.Events.Gestures
import BlockEditor.Proofs.Events.History
import BlockEditor.Proofs.Events.Ledger
import BlockEditor.Proofs.Gestures
import BlockEditor.Proofs.Graph.Basic
import BlockEditor.Proofs.Graph.Change
import BlockEditor.Proofs.Graph.Ends
import BlockEditor.Proofs.Graph.Height
import BlockEditor.Proofs.Graph.Sockets
import BlockEditor.Proofs.Graph.Tree
import BlockEditor.Proofs.Landing
import BlockEditor.Proofs.Leads
import BlockEditor.Proofs.Lifting
import BlockEditor.Proofs.Palette
import BlockEditor.Proofs.Parting
import BlockEditor.Proofs.Picking
import BlockEditor.Proofs.Regular
import BlockEditor.Proofs.Rewiring
import BlockEditor.Proofs.Rollback
import BlockEditor.Proofs.RoundTrip
import BlockEditor.Proofs.Runs
import BlockEditor.Proofs.Seating
import BlockEditor.Proofs.Sessions
import BlockEditor.Proofs.Shapes
import BlockEditor.Proofs.Snapshot
import BlockEditor.Proofs.Sparing
import BlockEditor.Proofs.Stable
import BlockEditor.Proofs.StandIns
import BlockEditor.Proofs.Tethers
import BlockEditor.Proofs.Guests
import BlockEditor.Proofs.Hosting
import BlockEditor.Proofs.Whole
import BlockEditor.Proofs.Workspace.Candidates
import BlockEditor.Proofs.Workspace.Drifting
import BlockEditor.Proofs.Workspace.Extending
import BlockEditor.Proofs.Workspace.Hanging
import BlockEditor.Proofs.Workspace.Homes
import BlockEditor.Proofs.Workspace.Likeness
import BlockEditor.Proofs.Workspace.Linking
import BlockEditor.Proofs.Workspace.Mounting
import BlockEditor.Proofs.Workspace.Queries
import BlockEditor.Proofs.Workspace.Raising
import BlockEditor.Proofs.Workspace.Removal
import BlockEditor.Proofs.Workspace.Resizing
import BlockEditor.Proofs.Workspace.Saving
import BlockEditor.Proofs.Workspace.Shifts
import BlockEditor.Proofs.Workspace.Styling
import BlockEditor.Proofs.Workspace.Taken
import BlockEditor.Proofs.Workspace.Trees
import BlockEditor.Proofs.Workspace.Trimming
import BlockEditor.Proofs.Workspace.View
import BlockEditor.Proofs.Restoring
import BlockEditor.Proofs.Reuniting
import BlockEditor.Proofs.Numbering
import BlockEditor.Proofs.Enrolment
import BlockEditor.Proofs.Stages
import BlockEditor.Proofs.Closing
import BlockEditor.Proofs.Reverting
import BlockEditor.Proofs.Cancelling
import BlockEditor.Proofs.Reviving
import BlockEditor.Proofs.Starting
import BlockEditor.Proofs.Workspace.Frames
import BlockEditor.Proofs.Healing
import BlockEditor.Proofs.Leaving
import BlockEditor.Proofs.Joining
import BlockEditor.Proofs.Connecting
import BlockEditor.Proofs.Returning
import BlockEditor.Proofs.Searching
import BlockEditor.Proofs.Previews
import BlockEditor.Proofs.Resizes
import BlockEditor.Proofs.Container.Counts
import BlockEditor.Proofs.Loading
import BlockEditor.Proofs.Pressing
import BlockEditor.Proofs.Disposing
import BlockEditor.Proofs.Reasons
import BlockEditor.Proofs.Workspace.Ascending
import BlockEditor.Proofs.Movers
import BlockEditor.Proofs.Events.Retention
import BlockEditor.Proofs.Records
import BlockEditor.Proofs.Rereading
import BlockEditor.Proofs.Evolving
import BlockEditor.Proofs.Turns
import BlockEditor.Proofs.Strangers
import BlockEditor.Proofs.Straying
import BlockEditor.Proofs.Orphans
