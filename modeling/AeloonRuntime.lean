import AeloonRuntime.Lib.JsonText
import AeloonRuntime.Core.TokenAttribution
import AeloonRuntime.Runtime.SessionTornLine
import AeloonRuntime.Runtime.CompactionEffect
import AeloonRuntime.Core.ToolBatch
import AeloonRuntime.Core.RunSteps
import AeloonRuntime.Core.ProjectionLaws
import AeloonRuntime.Core.RunQueues
import AeloonRuntime.Core.AbortRun
import AeloonRuntime.Runtime.SessionStats
import AeloonRuntime.Runtime.SessionAgent
import AeloonRuntime.Runtime.SessionOverflow
import AeloonRuntime.Runtime.SessionAnswers
import AeloonRuntime.Runtime.SessionConfigure
import AeloonRuntime.Runtime.SessionNextTurn
import AeloonRuntime.Runtime.SessionQueuedTurns
import AeloonRuntime.Runtime.SettingsAtomic
import AeloonRuntime.Runtime.SettingsSerial
import AeloonRuntime.Server.EventDelivery
import AeloonRuntime.Server.AuthBackoff
import AeloonRuntime.Server.Paths
import AeloonRuntime.Server.Revocation
import AeloonRuntime.Server.DurableBlocks
import AeloonRuntime.Runtime.AttachmentCrash
import AeloonRuntime.Core.ProjectedBoundary
import AeloonRuntime.Runtime.SessionBoundary
import AeloonRuntime.Runtime.SessionFork
import AeloonRuntime.Runtime.SessionNavigate
import AeloonRuntime.Runtime.SessionWalks
import AeloonRuntime.Runtime.CompactionProgress
import AeloonRuntime.Runtime.Summarization
import AeloonRuntime.Runtime.StreamedBlocks
import AeloonRuntime.Runtime.SessionList
import AeloonRuntime.Server.CleanupRetry
import AeloonRuntime.Server.ThreadCreateAtomic
import AeloonRuntime.Server.ThreadNavigate
import AeloonRuntime.Server.ThreadStatus
import AeloonRuntime.Server.AttachmentTransfer
import AeloonRuntime.Server.ConnectionClose
import AeloonRuntime.Cloud.Account
import AeloonRuntime.Runtime.Timeline
import AeloonRuntime.Runtime.TimelineComplete
import AeloonRuntime.Runtime.InlineReasoning
import AeloonRuntime.Server.FrameCodec
import AeloonRuntime.Runtime.OperationEvents
import AeloonRuntime.Runtime.StreamEcho
import AeloonRuntime.Runtime.PromptTemplate
import AeloonRuntime.Runtime.PtyManager
import AeloonRuntime.Tool.EditFile
import AeloonRuntime.Runtime.TimelineResults
import AeloonRuntime.Tool.Bash
import AeloonRuntime.Tool.Read
import AeloonRuntime.Runtime.SessionOverrides
import AeloonRuntime.Server.EventKeys
import AeloonRuntime.Runtime.Redaction
import AeloonRuntime.Runtime.Sanitize
import AeloonRuntime.Runtime.ModelIds
import AeloonRuntime.Runtime.Frontmatter
import AeloonRuntime.Server.GitNumstat
import AeloonRuntime.Server.GitStatus
import AeloonRuntime.Lib.PercentCoding
import AeloonRuntime.Lib.IpAddress
import AeloonRuntime.Lib.Url
import AeloonRuntime.Server.PairingUrl
import AeloonRuntime.Server.ThreadOrder
import AeloonRuntime.Server.DeviceStore
import AeloonRuntime.Lib.FilePlaces
import AeloonRuntime.Server.RuntimeLog
import AeloonRuntime.Server.StoreWorker
import AeloonRuntime.Server.FileAnswers
import AeloonRuntime.Server.FileRequests
