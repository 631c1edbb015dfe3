import Deflate.Bits
import Deflate.PrefixCode
import Deflate.Token
import Deflate.Block
import Deflate.Buffer
import Deflate.DecodeError
import Deflate.Decode
import Deflate.Inflater
import Deflate.Transfer.Collect
import Deflate.Transfer.Sink
import Deflate.Telemetry.Snapshot
import Deflate.Pipeline
import Deflate.Telemetry.Form
import Deflate.Command.Folder
import Deflate.Main
import Deflate.Proofs.Bits
import Deflate.Proofs.FieldReading
import Deflate.Proofs.CanonicalCode
import Deflate.Proofs.SymbolReading
import Deflate.Proofs.Stream
import Deflate.Proofs.Flaw
import Deflate.Proofs.TokenReading
import Deflate.Proofs.LengthReading
import Deflate.Proofs.CodesReading
import Deflate.Proofs.HeadReading
import Deflate.Proofs.Execution
import Deflate.Proofs.Buffering
import Deflate.Proofs.Progress
import Deflate.Proofs.Parsing
import Deflate.Proofs.History
import Deflate.Proofs.Relocation
import Deflate.Proofs.Counts
import Deflate.Proofs.Decoding
import Deflate.Proofs.RoundTrip
import Deflate.Proofs.Rejection
import Deflate.Proofs.PrefixStability
import Deflate.Proofs.Truncation
import Deflate.Proofs.Growing
import Deflate.Proofs.StoredPrefix
import Deflate.Proofs.Window
import Deflate.Proofs.Sessions
import Deflate.Proofs.Stages
import Deflate.Proofs.Gathering
import Deflate.Proofs.Modes
import Deflate.Proofs.Endings
import Deflate.Proofs.CompleteCode
import Deflate.Proofs.Chunking
import Deflate.Proofs.Expansion
import Deflate.Proofs.Renditions
import Deflate.Proofs.Interruptions
import Deflate.Proofs.Exchanges
import Deflate.Proofs.Durations
import Deflate.Proofs.StageSums
import Deflate.Proofs.Forms
import Deflate.Proofs.Copying
