import DeerFlow.Proofs.CancelTruth
import DeerFlow.Proofs.Lease
import DeerFlow.Proofs.Finality
import DeerFlow.Proofs.StreamEnd
import DeerFlow.Proofs.StartRun
import DeerFlow.Proofs.MemoryDelivery
import DeerFlow.Proofs.RedisStream
import DeerFlow.Proofs.JournalTokens
import DeerFlow.Proofs.JournalFlush
import DeerFlow.Proofs.PutBatch
import DeerFlow.Proofs.MessageProjection
import DeerFlow.Proofs.RunStores
import DeerFlow.Proofs.ManagerStore
import DeerFlow.Proofs.Disconnect
import DeerFlow.Proofs.ArtifactBytes
import DeerFlow.Proofs.IdempotentMoves
import DeerFlow.Proofs.StreamRevocation
import DeerFlow.Proofs.LastAdmin
import DeerFlow.Proofs.RoleIsolation
import DeerFlow.Proofs.OutboxFinality
import DeerFlow.Proofs.AuditArchive
import DeerFlow.Proofs.CircuitBreaker
import DeerFlow.Proofs.SubagentUsage
import DeerFlow.Proofs.MemoryQueue
import DeerFlow.Proofs.MemoryRevision
import DeerFlow.Proofs.ToolsCache
import DeerFlow.Proofs.BackupJob
import DeerFlow.Proofs.SandboxMounts
import DeerFlow.Proofs.SandboxOwners
import DeerFlow.Proofs.Truncation
import DeerFlow.Proofs.SessionPool
import DeerFlow.Proofs.SessionCallers
import DeerFlow.Proofs.ReviewedContent
import DeerFlow.Proofs.RepeatedCalls
import DeerFlow.Proofs.LoopWarnings
import DeerFlow.Proofs.KeptVersions
