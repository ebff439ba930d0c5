import Ticketing.Concurrency.EventOrder
import Ticketing.Concurrency.Races
import Ticketing.Concurrency.Outbox
import Ticketing.Concurrency.Creation
import Ticketing.Concurrency.PermissionCache
import Ticketing.Concurrency.Lease
import Ticketing.Concurrency.RoleAssignment
import Ticketing.Migrations.Provisioning
import Ticketing.Core.Logging
import Ticketing.Services.TicketCursor
import Ticketing.Storage.Local
import Ticketing.Cache.RateLimit
import Ticketing.Concurrency.Texts
import Ticketing.Concurrency.Acceptance
import Ticketing.Concurrency.Uploads
import Ticketing.Services.TicketList
import Ticketing.Concurrency.Pages
import Ticketing.Concurrency.Export
import Ticketing.Concurrency.Revocation
import Ticketing.Concurrency.Isolation
import Ticketing.Concurrency.Submission
import Ticketing.Concurrency.Orphans
