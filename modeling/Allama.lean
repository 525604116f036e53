import Allama.ActionKeys
import Allama.ActionSecrets
import Allama.ActionTitles
import Allama.Alternations
import Allama.ApprovalResults
import Allama.ApprovalRuns
import Allama.ApprovalTurn
import Allama.Approvals
import Allama.AttachmentContents
import Allama.AttachmentLimits
import Allama.AttachmentSteps
import Allama.Attachments
import Allama.Backtracking
import Allama.Batches
import Allama.Behaviours
import Allama.BlobStorage
import Allama.BlockFrames
import Allama.BlockRuns
import Allama.CacheCalls
import Allama.CallGraphs
import Allama.CaseDurations
import Allama.CaseHistories
import Allama.CasePages
import Allama.CaseRecords
import Allama.CaseReversal
import Allama.CaseUpdates
import Allama.Chains
import Allama.Chunks
import Allama.CollectionReads
import Allama.Collections
import Allama.ColumnUpdates
import Allama.CompactEvents
import Allama.CompactGroups
import Allama.CompactListing
import Allama.CompactMembers
import Allama.Compression
import Allama.CoreInvariant
import Allama.CoreSteps
import Allama.CsvImport
import Allama.CsvSchemas
import Allama.CsvTexts
import Allama.CursorValues
import Allama.DSLScoping
import Allama.DSLTypes
import Allama.DefaultLiterals
import Allama.Denotation
import Allama.DependencySets
import Allama.DurationAnchors
import Allama.EdgeMarking
import Allama.ExecutionIds
import Allama.ExprAgreement
import Allama.ExprGuards
import Allama.ExprMeaning
import Allama.ExprTrees
import Allama.ExprValidation
import Allama.Expressions
import Allama.FailurePaths
import Allama.FlatRuns
import Allama.FlowSpec
import Allama.FolderDirectories
import Allama.FolderRaces
import Allama.FolderSubtrees
import Allama.Folders
import Allama.FormatFields
import Allama.FrameProtocol
import Allama.FrameRuns
import Allama.GatherArrivals
import Allama.GatherFinalize
import Allama.GraphEdges
import Allama.GraphTransactions
import Allama.HistoryRewrite
import Allama.HtmlTexts
import Allama.HttpMessages
import Allama.IdClasses
import Allama.IdRows
import Allama.Identifiers
import Allama.ImportFrame
import Allama.ImportPolicies
import Allama.InboxPages
import Allama.InteractionAnswers
import Allama.InteractionRuns
import Allama.Interactions
import Allama.InvitationCalls
import Allama.InvitationRuns
import Allama.Invitations
import Allama.JsonPaths
import Allama.KeyedStore
import Allama.KeyedTables
import Allama.Keyset
import Allama.LambdaEvents
import Allama.LambdaRuns
import Allama.LambdaSafety
import Allama.LlmExchanges
import Allama.LlmForwarding
import Allama.LlmReading
import Allama.LockBindings
import Allama.LoopContexts
import Allama.MarkdownTexts
import Allama.Masks
import Allama.Mirrors
import Allama.OAuthRuns
import Allama.OAuthTokens
import Allama.ObjectHeaps
import Allama.OrganizationIsolation
import Allama.OrganizationMembers
import Allama.ParentTables
import Allama.PoolRuns
import Allama.PoolSlots
import Allama.QuotedTexts
import Allama.RateLimits
import Allama.RecordFields
import Allama.RegistryLocks
import Allama.RegistrySyncs
import Allama.RegistryVersions
import Allama.Requirements
import Allama.RoleAccess
import Allama.RoleScopes
import Allama.RowAgreement
import Allama.RowEnumeration
import Allama.RowPages
import Allama.RowReversal
import Allama.RowValues
import Allama.RowWrites
import Allama.RunLedger
import Allama.Runs
import Allama.SDKAdapter
import Allama.SafeLambdas
import Allama.SandboxOutcome
import Allama.SandboxRun
import Allama.ScheduleAgreement
import Allama.SchedulerCases
import Allama.SchedulerState
import Allama.SchedulerStep
import Allama.Schedules
import Allama.ScopeValidation
import Allama.ScriptImports
import Allama.SecretOutcomes
import Allama.SessionEvents
import Allama.SessionHistory
import Allama.SessionLines
import Allama.SessionReads
import Allama.ShortIds
import Allama.SizedCache
import Allama.Stateful
import Allama.StorageRuns
import Allama.StoredValues
import Allama.StreamContext
import Allama.StreamDelivery
import Allama.StreamForest
import Allama.StreamIsolation
import Allama.StreamReads
import Allama.StreamTables
import Allama.SubflowConfigs
import Allama.SubflowLoop
import Allama.TableCatalog
import Allama.TableDdl
import Allama.TableRuns
import Allama.TableTexts
import Allama.Tables
import Allama.TarballCache
import Allama.TarballInvariant
import Allama.TarballTargets
import Allama.Templates
import Allama.TextLines
import Allama.TierAdministration
import Allama.TokenBuckets
import Allama.ToolNames
import Allama.ToolRouting
import Allama.UpdateHistories
import Allama.UpsertOrder
import Allama.Upserts
import Allama.VenvCache
import Allama.VenvPublishing
import Allama.WordCuts
import Allama.WorkerPools
import Allama.WorkflowGraph
import Allama.WorkflowImport
import Allama.WorkflowRecords
import Allama.WorkflowRoundTrip
import Allama.Worklists
