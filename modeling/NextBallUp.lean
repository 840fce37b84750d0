import NextBallUp.Published
import NextBallUp.JointState
import NextBallUp.StaleRecovery
import NextBallUp.AbandonedUploads
import NextBallUp.RawSource
import NextBallUp.Period
import NextBallUp.FailedUploads
import NextBallUp.Retention
import NextBallUp.StorageCeiling
import NextBallUp.Ownership
import NextBallUp.Orphans
import NextBallUp.StageOrder
import NextBallUp.Retries
import NextBallUp.Auth.Revocation
import NextBallUp.Auth.Rotation
import NextBallUp.Auth.Enrolment
import NextBallUp.Links.Freshest
import NextBallUp.Rls.Maintenance
import NextBallUp.Rls.Erasure
import NextBallUp.Rls.JoinTeam
import NextBallUp.Rls.DeleteTeam
import NextBallUp.Rls.Delivery
import NextBallUp.Rls.Quotas
import NextBallUp.Preview.LockFiles
import NextBallUp.Preview.Outstanding
import NextBallUp.Events.Proposals
import NextBallUp.Events.Regeneration
import NextBallUp.Events.Secrets
import NextBallUp.Teams.Seats
import NextBallUp.Tokens.Usable
import NextBallUp.Uploads.Multipart
import NextBallUp.Csrf.DoubleSubmit
import NextBallUp.Pages.AuditLogs
import NextBallUp.Subscriptions
import NextBallUp.ClientIp
import NextBallUp.Auth.TotpVerification
import NextBallUp.Events.Ranking
import NextBallUp.Events.Columns
import NextBallUp.Consents
import NextBallUp.Lib.JsonErrors
import NextBallUp.CspReports
import NextBallUp.Games.Requests
import NextBallUp.Games.Updates
import NextBallUp.StorageKeys
import NextBallUp.Logging.Headers
import NextBallUp.Exports.RoundTrips
import NextBallUp.RateLimits
import NextBallUp.Preview.StateFile
import NextBallUp.Auth.Browsers
import NextBallUp.Tokens.Playback
