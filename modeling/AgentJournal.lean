import AgentJournal.Foundation.Machine
import AgentJournal.Foundation.Result
import AgentJournal.Foundation.Table
import AgentJournal.Foundation.Program
import AgentJournal.Foundation.Merge
import AgentJournal.Foundation.Codec
import AgentJournal.Foundation.Paging
import AgentJournal.Foundation.Loop
import AgentJournal.Foundation.Climb
import AgentJournal.Foundation.Directory
import AgentJournal.Foundation.Process
import AgentJournal.Foundation.Lines
import AgentJournal.Foundation.Delimited
import AgentJournal.Foundation.Separated
import AgentJournal.Domain.Text
import AgentJournal.Domain.Record
import AgentJournal.Domain.Wire
import AgentJournal.Domain.Validation
import AgentJournal.Domain.Platform
import AgentJournal.Domain.Cursor
import AgentJournal.Domain.Coded
import AgentJournal.Domain.Json
import AgentJournal.Foundation.Lexer
import AgentJournal.Storage.Tokens
import AgentJournal.Storage.Schema
import AgentJournal.Storage.Uri
import AgentJournal.Storage.Cell
import AgentJournal.Storage.Central
import AgentJournal.Storage.Statements
import AgentJournal.Storage.Outcomes
import AgentJournal.Storage.Integrity
import AgentJournal.Storage.Verify
import AgentJournal.Recovery.Snapshot
import AgentJournal.Recovery.Audit
import AgentJournal.Recovery.World
import AgentJournal.Recovery.Move
import AgentJournal.Recovery.Ledger
import AgentJournal.Recovery.Restore
import AgentJournal.Recovery.Lineage
import AgentJournal.Recovery.Coherence
import AgentJournal.Recovery.Preservation
import AgentJournal.Recovery.Admission
import AgentJournal.Recovery.History
import AgentJournal.Recovery.Names
import AgentJournal.Recovery.Completeness
import AgentJournal.Recovery.Hashing
import AgentJournal.CrashRecovery.Procedure
import AgentJournal.CrashRecovery.Admission
import AgentJournal.CrashRecovery.Restart
import AgentJournal.Service.Session
import AgentJournal.Service.Ids
import AgentJournal.Service.Bootstrap
import AgentJournal.Service.Records
import AgentJournal.Service.Inbox
import AgentJournal.Service.Listing
import AgentJournal.Service.Effects
import AgentJournal.Service.Integrity
import AgentJournal.Service.History
import AgentJournal.Service.Append
import AgentJournal.Service.Journal
import AgentJournal.Service.Lineage
import AgentJournal.Service.Store
import AgentJournal.Service.Restores
import AgentJournal.Service.Pages
import AgentJournal.Service.Allocation
import AgentJournal.Service.Serving
import AgentJournal.Service.Stored
import AgentJournal.Service.Idempotency
import AgentJournal.Service.Transaction
import AgentJournal.Service.Traversal
import AgentJournal.Service.Listings
import AgentJournal.Service.Threads
import AgentJournal.Service.Rounds
import AgentJournal.Service.Budgets
import AgentJournal.Service.Roots
import AgentJournal.Service.Identity
import AgentJournal.Service.Handles
import AgentJournal.Service.Credentials
import AgentJournal.Service.Authentication
import AgentJournal.Service.Lifecycle
import AgentJournal.Service.Registration
import AgentJournal.Service.Profiles
import AgentJournal.Service.Faults
import AgentJournal.Service.Collisions
import AgentJournal.Service.Constraints
import AgentJournal.Client.Headers
import AgentJournal.InboxWorker.Tick
import AgentJournal.InboxWorker.Rendering
import AgentJournal.InboxWorker.Moves
import AgentJournal.InboxWorker.Safety
import AgentJournal.InboxWorker.Views
import AgentJournal.InboxWorker.Handoff
import AgentJournal.InboxWorker.Backoff
import AgentJournal.Runtime.Spool
import AgentJournal.Runtime.Sizes
import AgentJournal.Runtime.Publication
import AgentJournal.Runtime.Durability
import AgentJournal.Daemon.Marker
import AgentJournal.Daemon.MarkerCodec
import AgentJournal.Daemon.AdminSocket
import AgentJournal.Daemon.Ownership
import AgentJournal.Daemon.Procedures
import AgentJournal.Daemon.Custody
import AgentJournal.Daemon.Succession
import AgentJournal.Service.Legal
import AgentJournal.Client.Responses
import AgentJournal.Domain.Query
import AgentJournal.Daemon.WebRender
import AgentJournal.Service.Receipts
import AgentJournal.Client.Paths
import AgentJournal.Domain.QueryString
import AgentJournal.Daemon.LongPoll
import AgentJournal.Storage.Fresh
