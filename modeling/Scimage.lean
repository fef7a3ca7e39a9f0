import Scimage.Lib.Sequential
import Scimage.Lib.ReadCommitted
import Scimage.Store.Admin
import Scimage.Store.Consistency
import Scimage.Store.UserChain
import Scimage.Store.GroupChain
import Scimage.Store.Convergence
import Scimage.Store.Connections
import Scimage.Webhook.Fencing
import Scimage.Webhook.Lease
import Scimage.Webhook.Budget
import Scimage.Webhook.Backoff
import Scimage.Webhook.Signer
import Scimage.Lib.Json
import Scimage.Lib.JsonDepth
import Scimage.Lib.Lanes
import Scimage.Lib.Quiet
import Scimage.Scim.Changes
import Scimage.Scim.Denials
import Scimage.Scim.Directory
import Scimage.Scim.Frame
import Scimage.Scim.Members
import Scimage.Scim.OnePass
import Scimage.Aria.Briefing
import Scimage.Aria.Deprovision
import Scimage.Aria.Evidence
import Scimage.Store.AdminTrail
import Scimage.Webhook.ReplayAll
import Scimage.Console.Csrf
import Scimage.Console.Days
import Scimage.Console.Narrative
import Scimage.Scim.Listing
import Scimage.Scim.Lookup
import Scimage.Scim.Membership
import Scimage.Scim.Batch
import Scimage.Scim.Bodies
import Scimage.Scim.GroupBatch
import Scimage.Scim.FilterLiteral
import Scimage.Scim.Auth
import Scimage.Scim.Casing
import Scimage.Scim.Readings
import Scimage.Scim.Neutral
import Scimage.Scim.Lengths
import Scimage.Scim.Conflicts
import Scimage.Store.Missing
import Scimage.Store.Cause
import Scimage.Store.Conflict
import Scimage.Store.Seniority
import Scimage.Scim.Interleaving
import Scimage.Scim.RequestLog
import Scimage.Scim.GroupOrder
import Scimage.Scim.Announced
import Scimage.Scim.Tenancy
import Scimage.Scim.Revocation
import Scimage.Scim.Ratelimit
import Scimage.Scim.Retry
import Scimage.Scim.Agreement
import Scimage.Webhook.Overtaking
import Scimage.Scim.GroupRetry
import Scimage.Scim.Readback
import Scimage.Console.Briefings
import Scimage.Webhook.Backlog
import Scimage.Aria.Badges
import Scimage.Webhook.Deployment
import Scimage.Scim.Repost
