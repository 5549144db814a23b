import PstForge.Foundation.Lzfu
import PstForge.Foundation.Machine
import PstForge.Foundation.Bytes
import PstForge.Foundation.Chunks
import PstForge.Foundation.Words
import PstForge.Foundation.Utf8
import PstForge.Foundation.SearchTree
import PstForge.Foundation.Effect
import PstForge.Foundation.OpenFile
import PstForge.Ndb.Allocation
import PstForge.Ndb.AllocationSafety
import PstForge.Ndb.AllocationMaps
import PstForge.Ndb.Identifiers
import PstForge.Ndb.Block
import PstForge.Messaging.NamedProp
import PstForge.Messaging.NameMap
import PstForge.Messaging.NameStreams
import PstForge.Ndb.Accounting
import PstForge.Ndb.TreeAccounts
import PstForge.Ndb.DataTree
import PstForge.Ndb.SubnodeTree
import PstForge.Ltp.Property
import PstForge.Ltp.Heap
import PstForge.Ltp.HeapRead
import PstForge.Ltp.HeapTree
import PstForge.Ltp.PropertyHeap
import PstForge.Ltp.TableHeap
import PstForge.Ltp.PropertyContext
import PstForge.Ltp.TableContext
import PstForge.Ltp.Accounts
import PstForge.Writer.Spec
import PstForge.Writer.Named
import PstForge.Writer.Properties
import PstForge.Writer.Validate
import PstForge.Writer.Stream
import PstForge.Writer.Message
import PstForge.Writer.PropertyKeys
import PstForge.Writer.Folders
import PstForge.Writer.Finalize
import PstForge.Writer.Transaction
import PstForge.Writer.Finish
import PstForge.Writer.BTreePages
import PstForge.Writer.Growth
import PstForge.Writer.Undo
import PstForge.Writer.Checkpoints
import PstForge.Writer.StreamAccounts
import PstForge.Writer.StreamedTree
import PstForge.Writer.SubnodeEntries
import PstForge.Writer.MessageAccounts
import PstForge.Writer.PlanAccounts
import PstForge.Writer.NodeIds
import PstForge.Writer.FolderTree
import PstForge.Writer.Projection
import PstForge.Writer.Preflight
import PstForge.Writer.Filing
import PstForge.Writer.Extents
import PstForge.Writer.Closure
import PstForge.Catalog.Event
import PstForge.Catalog.Native
import PstForge.Catalog.Traversal
import PstForge.Catalog.Issues
import PstForge.Catalog.Steady
import PstForge.Catalog.Attachments
import PstForge.Job.Ledger
import PstForge.Job.Sink
import PstForge.Job.Events
import PstForge.Job.Open
import PstForge.Job.Pack
import PstForge.Job.PackRules
import PstForge.Job.PackBlobs
import PstForge.Job.PackEvents
import PstForge.Job.PackBatches
import PstForge.Job.PackSafety
import PstForge.Job.Replay
import PstForge.Job.Frames
import PstForge.Job.Rows
import PstForge.Job.Messages
import PstForge.Job.Direct
import PstForge.Job.Stream
import PstForge.Job.Interruption
import PstForge.Job.Parents
import PstForge.Worker.Frame
import PstForge.Worker.DirectSource
import PstForge.Worker.Payload
import PstForge.Worker.OnePass
import PstForge.Worker.Metadata
import PstForge.Worker.Forwarding
import PstForge.Worker.Binding
import PstForge.Worker.Candidates
import PstForge.Translate.CompressedRtf
import PstForge.Translate.MultiValue
import PstForge.Attachment.BlobRange
import PstForge.Split.Packing
import PstForge.Split.CanonicalFolders
import PstForge.Translate.TextStreams
import PstForge.Attachment.CfbBounds
import PstForge.Ltp.RowLayout
import PstForge.Ltp.HeapFill
import PstForge.Foundation.Saturation
import PstForge.Job.PartAccounts
import PstForge.Job.PublicationRuns
