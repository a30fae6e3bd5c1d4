import Miranda.Lib.Channel
import Miranda.Lib.CircularBuffer
import Miranda.Lib.BoundedFifo
import Miranda.Lib.Bytes
import Miranda.Lib.Access
import Miranda.Lib.Chain
import Miranda.Lib.Forest
import Miranda.Lib.Grouping
import Miranda.Lib.Layout
import Miranda.Lib.LinkedList
import Miranda.Lib.Paged
import Miranda.Lib.Runs
import Miranda.Lib.Signed
import Miranda.Lib.Checked
import Miranda.Lib.Streams
import Miranda.Lib.Strings
import Miranda.Actions.Client
import Miranda.Actions.Actor
import Miranda.Actions.Outstanding
import Miranda.Actions.Reports
import Miranda.Actions.Orderly
import Miranda.Actions.Watching
import Miranda.Actions.GivingUp
import Miranda.Actions.Callers
import Miranda.Actions.Superseded
import Miranda.Actions.Requests
import Miranda.RawQueue.Options
import Miranda.RawQueue.Model
import Miranda.RawQueue.Ring
import Miranda.RawQueue.Releasing
import Miranda.RawQueue.Calls
import Miranda.RawQueue.Accounts
import Miranda.RawQueue.Reads
import Miranda.RawQueue.Fifo
import Miranda.RawQueue.Clients
import Miranda.RawQueue.IndexReads
import Miranda.RawQueue.Sections
import Miranda.RawQueue.Wakeups
import Miranda.RawQueue.Trading
import Miranda.RawQueue.Ledger
import Miranda.RawQueue.Conservation
import Miranda.RawQueue.RefCounts
import Miranda.RawQueue.FreeList
import Miranda.RawQueue.ShmMalloc
import Miranda.Sync.Model
import Miranda.Sync.Moves
import Miranda.Sync.Links
import Miranda.Sync.RobustList
import Miranda.Sync.FutexMoves
import Miranda.Sync.OwnerDeath
import Miranda.Sync.Conditions
import Miranda.Sync.Broadcasts
import Miranda.QueueTypes.MessageType
import Miranda.QueueTypes.Deserialize
import Miranda.QueueTypes.Room
import Miranda.QueueTypes.ArbitraryBytes
import Miranda.LogFile.Format
import Miranda.LogFile.Accessor
import Miranda.LogFile.CorruptPages
import Miranda.LogFile.ReadPath
import Miranda.LogFile.Layout
import Miranda.LogFile.WriterLoop
import Miranda.LogFile.TypeRecords
import Miranda.LogFile.RoundTrip
import Miranda.LogFile.Replay
import Miranda.LogFile.Spots
import Miranda.LogFile.SeekBlocks
import Miranda.LogFile.Live
import Miranda.LogFile.Following
import Miranda.Dashboard.SensorReader
import Miranda.Dashboard.Framing
import Miranda.Dashboard.Polling
import Miranda.Dashboard.Readings
import Miranda.Dashboard.BadLines
import Miranda.Vision.Threshold
import Miranda.Vision.FindBlob
import Miranda.Vision.Builder
import Miranda.Vision.BlobSet
import Miranda.Vision.IntegralArray
import Miranda.Vision.LinkedSets
import Miranda.Vision.Sweep
import Miranda.Vision.Components
import Miranda.QCompiler.Declarations
import Miranda.QCompiler.SimpleStr
import Miranda.QCompiler.Evaluation
import Miranda.QCompiler.Renaming
import Miranda.QCompiler.Codec
import Miranda.QCompiler.Messages
import Miranda.QueueTypes.Printing
import Miranda.QCompiler.Descriptions
import Miranda.QCompiler.Agreement
import Miranda.Timing.Arithmetic
import Miranda.Timing.Inverses
import Miranda.Timing.Division
import Miranda.Timing.PhasedLoop
import Miranda.Vision.Codec
import Miranda.Vision.FileStream
import Miranda.Logging.Drops
import Miranda.Logging.Cork
import Miranda.Logging.Filling
import Miranda.Lib.Histories
import Miranda.Lib.InPlace
import Miranda.Lib.Printers
import Miranda.Printing.Integers
import Miranda.Printing.Messages
import Miranda.Printing.Shapes
import Miranda.Printing.Matrices
import Miranda.Printing.Exactness
import Miranda.Printing.ShortInput
import Miranda.Printing.Refinement
import Miranda.Starter.FileWatch
import Miranda.Starter.Ownership
import Miranda.Starter.Removal
import Miranda.Actions.Queueing
import Miranda.Actions.OneAtATime
import Miranda.Controls.ControlLoop
import Miranda.Controls.Gating
import Miranda.QueueTypes.Sharing
import Miranda.QueueTypes.Publishing
import Miranda.Vision.MergeImages
import Miranda.Lib.Slope
import Miranda.Vision.Pixels
import Miranda.Vision.Bresenham
import Miranda.Common.WrappingCounter
