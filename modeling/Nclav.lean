import Nclav.Guarantees.Removal
import Nclav.Guarantees.ExportAccess
import Nclav.Guarantees.Schedule
import Nclav.Guarantees.WellFormed
import Nclav.Guarantees.Leftovers
import Nclav.Guarantees.Fixpoint
import Nclav.Guarantees.OwnHandles
import Nclav.Guarantees.Creation
import Nclav.Guarantees.Forgotten
import Nclav.Guarantees.ErrorFree
import Nclav.Guarantees.StoredHandles
import Nclav.Guarantees.PlanApply
import Nclav.Guarantees.Accepted
import Nclav.Guarantees.ExportContract
import Nclav.Guarantees.ExportOutputs
import Nclav.Guarantees.ImportOutputs
import Nclav.Guarantees.ExportSource
import Nclav.Guarantees.Grants
import Nclav.Guarantees.KeptHandles
import Nclav.Guarantees.EditedFiles
import Nclav.Guarantees.Isolation
import Nclav.Guarantees.StoresAgree
import Nclav.Guarantees.EmptyInventory
import Nclav.Guarantees.SameRemoval
import Nclav.Guarantees.TeardownOrder
import Nclav.Guarantees.Separation
import Nclav.Guarantees.PartitionUpdates
import Nclav.Guarantees.LockProtocol
import Nclav.Guarantees.ListingOrder
import Nclav.Guarantees.Projects
import Nclav.Reconciler.Substitution
import Nclav.Guarantees.DocumentedTokens
import Nclav.Driver.Runs
import Nclav.Store.Encoding
import Nclav.Guarantees.RunRecords
import Nclav.Guarantees.OutputsRead
import Nclav.Driver.RunTf
import Nclav.Driver.WorkspaceFiles
import Nclav.Effect.Poll
import Nclav.Hcl.Quoted
import Nclav.Serde.Decode
import Nclav.Hcl.Body
import Nclav.Driver.Polling
import Nclav.Guarantees.CurrentCode
import Nclav.Guarantees.UserFiles
import Nclav.Guarantees.LongRunning
import Nclav.Driver.GeneratedHcl
import Nclav.Guarantees.HclExact
import Nclav.Guarantees.StoredRecords
import Nclav.Web.Form
import Nclav.Web.Signature
import Nclav.Driver.AwsRequests
import Nclav.Guarantees.SentRequests
import Nclav.Guarantees.DesiredHash
import Nclav.Guarantees.DerivedNames
import Nclav.Guarantees.RunIndex
import Nclav.Guarantees.PartitionTeardown
import Nclav.Guarantees.Replay
import Nclav.Guarantees.AuditedRecords
import Nclav.Guarantees.Lifecycle
import Nclav.Api.Auth
import Nclav.Guarantees.FreshTokens
import Nclav.Guarantees.ServedGraph
import Nclav.Guarantees.DestroyAll
import Nclav.Guarantees.SideBySide
import Nclav.Guarantees.ReportExact
import Nclav.Guarantees.Recovery
