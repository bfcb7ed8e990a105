import WiseacctSso.AccountEffects
import WiseacctSso.AccountGrants
import WiseacctSso.AccountGuarantee
import WiseacctSso.AccountKeeps
import WiseacctSso.AccountLock
import WiseacctSso.AccountSteps
import WiseacctSso.AccountStoreSpecs
import WiseacctSso.AdminAuthorization
import WiseacctSso.AdminDirectory
import WiseacctSso.AdminLockout
import WiseacctSso.AdminPaging
import WiseacctSso.AdminRouting
import WiseacctSso.AdminStores
import WiseacctSso.AdminTimestamps
import WiseacctSso.AuditDetails
import WiseacctSso.AuditedGuarantee
import WiseacctSso.AuditedKeeps
import WiseacctSso.AuditedServices
import WiseacctSso.AuthRateLimit
import WiseacctSso.Base64
import WiseacctSso.BoundedInflater
import WiseacctSso.Calendar
import WiseacctSso.ClientAuthentication
import WiseacctSso.DerElements
import WiseacctSso.DotSegments
import WiseacctSso.EmailActivation
import WiseacctSso.FailureCounts
import WiseacctSso.FaultyCalls
import WiseacctSso.FormEncoding
import WiseacctSso.HandoffProtocol
import WiseacctSso.HandoffSafety
import WiseacctSso.HandoffServices
import WiseacctSso.HostNumbers
import WiseacctSso.Json
import WiseacctSso.JsonRoundTrip
import WiseacctSso.JsonStrings
import WiseacctSso.JsonText
import WiseacctSso.KnownPaths
import WiseacctSso.NodeStrings
import WiseacctSso.Numerals
import WiseacctSso.OidcAgreement
import WiseacctSso.OidcDecisions
import WiseacctSso.OidcFaults
import WiseacctSso.OidcGroups
import WiseacctSso.OidcIssuance
import WiseacctSso.OidcParsing
import WiseacctSso.OidcProtocol
import WiseacctSso.OidcRedirects
import WiseacctSso.OidcReleases
import WiseacctSso.OidcSafety
import WiseacctSso.OidcServices
import WiseacctSso.OneTimeRecords
import WiseacctSso.PagedRows
import WiseacctSso.PasswordResetAtomicity
import WiseacctSso.PasswordResetEffects
import WiseacctSso.PasswordResetSessions
import WiseacctSso.Patterns
import WiseacctSso.PendingPasswords
import WiseacctSso.PendingReplacement
import WiseacctSso.ProviderIdentities
import WiseacctSso.Pkcs8Keys
import WiseacctSso.PythonText
import WiseacctSso.ReadCommittedAttempts
import WiseacctSso.ReadCommittedEffects
import WiseacctSso.ReadCommittedFaults
import WiseacctSso.ReadCommittedFootprints
import WiseacctSso.ReadCommittedHistory
import WiseacctSso.ReadCommittedPrograms
import WiseacctSso.ReadCommittedRules
import WiseacctSso.ReadCommittedRuns
import WiseacctSso.ReadCommittedSilence
import WiseacctSso.ReadCommittedSoundness
import WiseacctSso.ReadCommittedTables
import WiseacctSso.RedirectParameters
import WiseacctSso.RedirectUris
import WiseacctSso.RefreshFailures
import WiseacctSso.RefreshRetries
import WiseacctSso.RotationLineage
import WiseacctSso.Schema
import WiseacctSso.SessionEffects
import WiseacctSso.SessionGuarantee
import WiseacctSso.SessionKeeps
import WiseacctSso.SessionRevocation
import WiseacctSso.SessionRuns
import WiseacctSso.SessionServices
import WiseacctSso.SessionSteps
import WiseacctSso.SessionStoreSpecs
import WiseacctSso.SessionStores
import WiseacctSso.Store
import WiseacctSso.StreamDecoders
import WiseacctSso.TokenCodec
import WiseacctSso.TokenKinds
import WiseacctSso.TransactionRetries
import WiseacctSso.UrlPath
import WiseacctSso.UrlSplitting
import WiseacctSso.JsNumbers
import WiseacctSso.JsonMembers
import WiseacctSso.EvidenceRecords
import WiseacctSso.ListRelations
import WiseacctSso.JsonEquality
import WiseacctSso.ContractMatching
import WiseacctSso.ContractConformance
import WiseacctSso.ContractComparison
import WiseacctSso.RecordFormats
import WiseacctSso.RecordRoundTrips
import WiseacctSso.AccountConsistency
import WiseacctSso.MaintainedRuns
import WiseacctSso.WithheldPasswords
