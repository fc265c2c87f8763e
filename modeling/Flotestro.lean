import Flotestro.RelaySpool.Analysis.Survival
import Flotestro.RelaySpool.Analysis.Rolling
import Flotestro.RelaySpool.Analysis.Ledger
import Flotestro.HelperCap.Analysis.LocalUsers
import Flotestro.HelperCap.Analysis.Secrets
import Flotestro.HelperCap.Analysis.Trust
import Flotestro.Audit.Analysis.Export
import Flotestro.HostLocks.Analysis.Locks
import Flotestro.MetricSpool.Analysis.Numbering
import Flotestro.Campaigns.Analysis.Expiry
import Flotestro.Campaigns.Analysis.Placement
import Flotestro.Budgets.Analysis.Capacity
import Flotestro.Jobs.Analysis.Carrying
import Flotestro.Selector.Analysis.Compilation
import Flotestro.FileVersions.Analysis.Keeping
import Flotestro.Plans.Analysis.Digest
import Flotestro.Schedules.Analysis.Calendar
import Flotestro.Authz.Analysis.Containment
import Flotestro.Firewall.Analysis.Channel
import Flotestro.Firewall.Analysis.Drift
import Flotestro.RelayInbox.Analysis.Workers
import Flotestro.RelayInbox.Analysis.Horizon
import Flotestro.RelayInbox.Analysis.Hello
import Flotestro.RelayProof.Analysis.Readings
import Flotestro.Outbox.Analysis.Skips
import Flotestro.Notify.Analysis.Resolves
import Flotestro.Secrets.Analysis.Rewrap
import Flotestro.ResultSpool.Analysis.Pending
import Flotestro.Agent.Analysis.Markers
import Flotestro.Agent.Analysis.Cancel
import Flotestro.HelperCap.Analysis.Replay
import Flotestro.Alerts.Analysis.Fenced
import Flotestro.Alerts.Analysis.Window
import Flotestro.Network.Analysis.Confirmed
import Flotestro.Consent.Analysis.Covered
import Flotestro.PlanAge.Analysis.Fresh
import Flotestro.SignIn.Analysis.Lock
import Flotestro.SignIn.Analysis.Refresh
import Flotestro.Versions.Analysis.Deb
import Flotestro.Sudoers.Analysis.Resolve
