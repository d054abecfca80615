import RuleMind.WalSafety
import RuleMind.CollabHub
import RuleMind.EditorMece
import RuleMind.IntervalAlgebra
import RuleMind.TableReport
import RuleMind.LocalBucket
import RuleMind.CircuitBreaker
import RuleMind.TestGate
import RuleMind.Rbac
import RuleMind.EdgeVariables
import RuleMind.Rollback
import RuleMind.PromotionGate
import RuleMind.LoopModes
import RuleMind.ScorecardAgreement
import RuleMind.DateEngines
import RuleMind.BundleFreshness
import RuleMind.ReviewGate
import RuleMind.IdempotencyKeys
import RuleMind.AuditAppends
import RuleMind.LiveFeed
import RuleMind.ServingCache
import RuleMind.BatchRuns
import RuleMind.UsageMeter
import RuleMind.SchedulerLease
import RuleMind.CredentialCache
import RuleMind.RedactionKeys
import RuleMind.ShadowRun
import RuleMind.InputSchema
import RuleMind.BrowserCondition
import RuleMind.SandboxCalls
import RuleMind.SamlReplay
import RuleMind.ConnectorSecrets
import RuleMind.KeyRotation
import RuleMind.DecisionEvents
import RuleMind.DeviceOutbox
import RuleMind.DeviceAgreement
import RuleMind.CanaryRamp
import RuleMind.DeployBatch
import RuleMind.ReasonCodes
import RuleMind.ExperimentOverrides
import RuleMind.LoginLockout
import RuleMind.LoginCodes
import RuleMind.DecisionPipeline
import RuleMind.ReportWindow
import RuleMind.BatchLines
import RuleMind.DriftBins
import RuleMind.RetentionSettings
import RuleMind.PythonFormula
import RuleMind.SheetMeaning
import RuleMind.LoanPayments
import RuleMind.WorkingDays
import RuleMind.DateFunctions
import RuleMind.ModelMetrics
import RuleMind.ResponseMapping
import RuleMind.Lookups
