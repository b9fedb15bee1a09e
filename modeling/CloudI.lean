import CloudI.Api.Exchange
import CloudI.PQueue.Pqueue
import CloudI.Core.Logger
import CloudI.Trie.IsPrefix
import CloudI.Cpg.Merge
import CloudI.Cpg.Pick
import CloudI.Cpg.Replication
import CloudI.PQueue.Reference
import CloudI.Services.CommandLine
import CloudI.Services.ExternalRequests
import CloudI.Services.Monitors
import CloudI.Services.DestRefresh
import CloudI.Services.DuoMode
import CloudI.Services.RateLimits
import CloudI.Services.ConsumedOnce
import CloudI.Services.WorkerExit
import CloudI.Services.SentRequests
import CloudI.Services.SerialState
import CloudI.Monitor.ProcessIndexes
import CloudI.Monitor.ServiceUpdates
import CloudI.Configurator.Agreement
import CloudI.Framework.Lists
import CloudI.Api.Go.Framing
import CloudI.Api.Go.Protocol
import CloudI.Api.JavaScript.Framing
import CloudI.Api.Python.Framing
import CloudI.Api.Python.Reencode
import CloudI.Api.Ruby.Reencode
import CloudI.PQueue.Agreement
import CloudI.Queue.Recovery
import CloudI.Queue.Delivery
import CloudI.Quorum.Decision
import CloudI.Spawn.Stream
import CloudI.Trie.Dict
import CloudI.Trie.FiniteMap
import CloudI.Trie.FindSimilar
import CloudI.Trie.FoldMatch
import CloudI.Trie.Specificity
import CloudI.Trie.PatternParse
import CloudI.Trie.Prefixes
import CloudI.Trie.StoredPatterns
import CloudI.Trie.Update
import CloudI.Uuid.Generation
import CloudI.Monitor.KeyRelation
import CloudI.Configurator.RateBased
import CloudI.Configurator.Acl
import CloudI.Configurator.CountProcess
import CloudI.Monitor.CountChange
import CloudI.Api.Malformed
import CloudI.Api.Go.Compressed
import CloudI.Api.Go.SendOptions
import CloudI.Api.TextPairs
import CloudI.Queue.Atomicity
import CloudI.Quorum.Bookkeeping
import CloudI.Services.CloudiQueue
import CloudI.Services.Environment
import CloudI.Services.MapReduce
import CloudI.Spawn.Descriptors
import CloudI.Services.FilesystemAppends
import CloudI.Uuid.Increment
import CloudI.Core.Flooding
import CloudI.Spawn.Limits
import CloudI.Services.RangeReads
import CloudI.Services.RangeAppends
import CloudI.Services.Conditional
import CloudI.Cgroups.Paths
import CloudI.Services.Router
import CloudI.Core.Nodes
