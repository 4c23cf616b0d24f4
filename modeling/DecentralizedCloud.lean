import DecentralizedCloud.Cluster.AppliedChanges
import DecentralizedCloud.Cluster.Authenticity
import DecentralizedCloud.Cluster.Chain
import DecentralizedCloud.Cluster.Cluster
import DecentralizedCloud.Cluster.Deployment
import DecentralizedCloud.Cluster.Ledger
import DecentralizedCloud.Cluster.RecordedTransactions
import DecentralizedCloud.Cluster.Release
import DecentralizedCloud.Cluster.System
import DecentralizedCloud.Common.CommandType
import DecentralizedCloud.Common.Compression
import DecentralizedCloud.Common.Fields
import DecentralizedCloud.Common.Gossip
import DecentralizedCloud.Common.Json
import DecentralizedCloud.Common.JsonLibrary
import DecentralizedCloud.Common.JsonOrder
import DecentralizedCloud.Common.JsonText
import DecentralizedCloud.Common.Message
import DecentralizedCloud.Common.Packet
import DecentralizedCloud.Common.Printing
import DecentralizedCloud.Common.Receiving
import DecentralizedCloud.Compute.CommandBuilder
import DecentralizedCloud.Compute.ComputeNode
import DecentralizedCloud.Compute.FunctionLogic
import DecentralizedCloud.Compute.Provenance
import DecentralizedCloud.Compute.RowFilter
import DecentralizedCloud.Compute.StateChangeMessage
import DecentralizedCloud.Lib.Bisect
import DecentralizedCloud.Lib.Heap
import DecentralizedCloud.Lib.KeySort
import DecentralizedCloud.Lib.Merkle
import DecentralizedCloud.Lib.Network
import DecentralizedCloud.Lib.PriorityQueue
import DecentralizedCloud.Lib.Program
import DecentralizedCloud.Lib.Schedule
import DecentralizedCloud.Lib.SharedCell
import DecentralizedCloud.Lib.Trace
import DecentralizedCloud.Lib.Utf8
import DecentralizedCloud.Master.BlockAgreement
import DecentralizedCloud.Master.BlockCommitment
import DecentralizedCloud.Master.BlockFrame
import DecentralizedCloud.Master.ClientAnswer
import DecentralizedCloud.Master.ClientConnection
import DecentralizedCloud.Master.Closing
import DecentralizedCloud.Master.CommitOnce
import DecentralizedCloud.Master.ConcurrentVotes
import DecentralizedCloud.Master.ConnectionTable
import DecentralizedCloud.Master.Conservation
import DecentralizedCloud.Master.Contents
import DecentralizedCloud.Master.Delivery
import DecentralizedCloud.Master.Election
import DecentralizedCloud.Master.Flags
import DecentralizedCloud.Master.HonestRun
import DecentralizedCloud.Master.LedgerOnce
import DecentralizedCloud.Master.LedgerOutput
import DecentralizedCloud.Master.Machine
import DecentralizedCloud.Master.Membership
import DecentralizedCloud.Master.Registry
import DecentralizedCloud.Master.ResultOrder
import DecentralizedCloud.Master.Rounds
import DecentralizedCloud.Master.RunLoop
import DecentralizedCloud.Master.State
import DecentralizedCloud.Master.StorageDesignation
import DecentralizedCloud.Master.Transaction
import DecentralizedCloud.Master.Verification
import DecentralizedCloud.Master.VerifyBlock
import DecentralizedCloud.Master.View
import DecentralizedCloud.Master.Votes
import DecentralizedCloud.Master.Voting
import DecentralizedCloud.Master.VotingTimestamp
import DecentralizedCloud.Master.Wire
import DecentralizedCloud.Storage.AnswerOnce
import DecentralizedCloud.Storage.Answers
import DecentralizedCloud.Storage.BlockQueue
import DecentralizedCloud.Storage.Blocks
import DecentralizedCloud.Storage.Commands
import DecentralizedCloud.Storage.Comparison
import DecentralizedCloud.Storage.Completeness
import DecentralizedCloud.Storage.Connectives
import DecentralizedCloud.Storage.DocumentIdentity
import DecentralizedCloud.Storage.DocumentMap
import DecentralizedCloud.Storage.EntityIndex
import DecentralizedCloud.Storage.ExactSlices
import DecentralizedCloud.Storage.Filter
import DecentralizedCloud.Storage.FilterGrammar
import DecentralizedCloud.Storage.FilterTokens
import DecentralizedCloud.Storage.Footprint
import DecentralizedCloud.Storage.IdIndex
import DecentralizedCloud.Storage.IndexBranches
import DecentralizedCloud.Storage.ObjectMap
import DecentralizedCloud.Storage.ObjectStore
import DecentralizedCloud.Storage.ObjectTree
import DecentralizedCloud.Storage.Objects
import DecentralizedCloud.Storage.Query
import DecentralizedCloud.Storage.Reachable
import DecentralizedCloud.Storage.RejectedCreate
import DecentralizedCloud.Storage.Replies
import DecentralizedCloud.Storage.Search
import DecentralizedCloud.Storage.SearchCalls
import DecentralizedCloud.Storage.SearchValues
import DecentralizedCloud.Storage.Soundness
import DecentralizedCloud.Storage.StateChangeQueues
import DecentralizedCloud.Storage.StateChanges
import DecentralizedCloud.Storage.StateQueue
import DecentralizedCloud.Storage.StorageNode
import DecentralizedCloud.Storage.TenantIsolation
import DecentralizedCloud.Storage.TransactionTrees
import DecentralizedCloud.Storage.Unaltered
import DecentralizedCloud.Storage.Verifications
import DecentralizedCloud.Storage.WrittenOrder
