import Coordination.Client
import Coordination.Connector
import Coordination.Decimal.Shortest
import Coordination.Dispatch
import Coordination.Duration
import Coordination.Failure
import Coordination.Json.Error
import Coordination.Json.Merge
import Coordination.Json.Reader
import Coordination.Json.Value
import Coordination.Json.Writer
import Coordination.Machine
import Coordination.Machine.Moves
import Coordination.Machine.Steps
import Coordination.Node
import Coordination.Path
import Coordination.Phase
import Coordination.Proofs.AncestorCreation
import Coordination.Proofs.Callbacks
import Coordination.Proofs.ClientRuns
import Coordination.Proofs.CreateOrSet
import Coordination.Proofs.Delivery
import Coordination.Proofs.EphemeralRemoval
import Coordination.Proofs.Handles
import Coordination.Proofs.IdempotentWrites
import Coordination.Proofs.Lifecycle
import Coordination.Proofs.MergeLaws
import Coordination.Proofs.NumberText
import Coordination.Proofs.Notifications
import Coordination.Proofs.Paths
import Coordination.Proofs.Preorder
import Coordination.Proofs.ReadSorted
import Coordination.Proofs.Reconfiguration
import Coordination.Proofs.Recovery
import Coordination.Proofs.RecoverySchedule
import Coordination.Proofs.Retrying
import Coordination.Proofs.SequenceNumbers
import Coordination.Proofs.ServiceShape
import Coordination.Proofs.SettingsLayers
import Coordination.Proofs.SignalFold
import Coordination.Proofs.StatHistory
import Coordination.Proofs.StatusRefinement
import Coordination.Proofs.SubtreeRemoval
import Coordination.Proofs.Subtrees
import Coordination.Proofs.TreeShape
import Coordination.Proofs.WatchTables
import Coordination.Proofs.Watches
import Coordination.Scenario.Request
import Coordination.Scenario.Timeline
import Coordination.Service
import Coordination.Service.Moves
import Coordination.Session
import Coordination.Settings.Basic
import Coordination.Settings.Decode
import Coordination.Settings.Load
import Coordination.Supervisor
import Coordination.Supervisor.Moves
import Coordination.Text.Blank
import Coordination.Text.Escaped
import Coordination.Text.Printable
import Coordination.Tree
