import Mallana.Alloc.Run
import Mallana.Gguf.Offsets
import Mallana.Gguf.RoundTrip
import Mallana.Grammar.Lazy
import Mallana.Grammar.Partial
import Mallana.Grammar.Terminate
import Mallana.KvCache.Rollback
import Mallana.KvCells.Run
import Mallana.Output.Reorder
import Mallana.Paged.Budget
import Mallana.Paged.Copy
import Mallana.Peg.Exclusion
import Mallana.Peg.Serialize
import Mallana.Peg.Total
import Mallana.Recurrent.Isolation
import Mallana.Recurrent.Run
import Mallana.Rpc.Recompute
import Mallana.Sampling.Clone
import Mallana.Sampling.Dry
import Mallana.Sampling.Matcher
import Mallana.Sched.Inputs
import Mallana.Schema.IntBound
import Mallana.Server.AloraScan
import Mallana.Server.ChatStream
import Mallana.Server.Checkpoints
import Mallana.Server.ChunkReuse
import Mallana.Server.KillSwitch
import Mallana.Server.StopString
import Mallana.Server.Stranded
import Mallana.Server.TokenPositions
import Mallana.State.Failure
import Mallana.State.Pending
import Mallana.Tokenizer.DigitGroups
import Mallana.Tokenizer.MergeOrder
import Mallana.Tokenizer.Partition
import Mallana.Tokenizer.Pattern
import Mallana.Tokenizer.PlamoBest
import Mallana.Tokenizer.Rwkv
import Mallana.Turbo.Cuda
import Mallana.Turbo.Shift
