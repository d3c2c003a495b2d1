import RequestEngine.Main
import RequestEngine.Agent.Scripted
import RequestEngine.Engine.Session
import RequestEngine.Engine.Waiting
import RequestEngine.Request.Codec
import RequestEngine.Proofs.Record
import RequestEngine.Proofs.Store
import RequestEngine.Proofs.Calls
import RequestEngine.Proofs.Runs
import RequestEngine.Proofs.Commands
import RequestEngine.Proofs.Accounting
import RequestEngine.Proofs.Waiting
import RequestEngine.Proofs.Lifecycle
import RequestEngine.Proofs.Staffing
import RequestEngine.Proofs.Dispatch
import RequestEngine.Proofs.Listing
import RequestEngine.Proofs.Announcements
import RequestEngine.Proofs.Workforce
import RequestEngine.Proofs.Draining
import RequestEngine.Proofs.Stopping
import RequestEngine.Proofs.Reports
import RequestEngine.Proofs.Deliveries
import RequestEngine.Proofs.Wakeups
import RequestEngine.Proofs.Naming
import RequestEngine.Proofs.Roll
import RequestEngine.Proofs.Eviction
import RequestEngine.Proofs.Tokens
import RequestEngine.Proofs.Settings
import RequestEngine.Proofs.Punctual
import RequestEngine.Proofs.Fates
import RequestEngine.Proofs.Outcomes
import RequestEngine.Proofs.Cancellation
import RequestEngine.Proofs.Undisturbed
import RequestEngine.Proofs.Launch
import RequestEngine.Proofs.Verdict
import RequestEngine.Proofs.Batches
import RequestEngine.Proofs.Enrolment
import RequestEngine.Proofs.Transform
import RequestEngine.Proofs.Documents
import RequestEngine.Proofs.Configuration
import RequestEngine.Proofs.Archive
import RequestEngine.Proofs.Hub
import RequestEngine.Proofs.Deadlines
