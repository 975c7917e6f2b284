import OpenGate.Direct.Delivery
import OpenGate.Direct.HoldBound
import OpenGate.Web.SameMachine
import OpenGate.Tsdb.BlockFormat
import OpenGate.Tsdb.Footprint
import OpenGate.Tsdb.History
import OpenGate.Tsdb.FailedCommit
import OpenGate.Tsdb.Rollups
import OpenGate.Backfill.Complete
import OpenGate.Backfill.Minutes
import OpenGate.Backfill.Replay
import OpenGate.Backfill.Session
import OpenGate.Backfill.Payload
import OpenGate.Control.Receive
import OpenGate.Alerts.Frame
import OpenGate.Alerts.Maintenance
import OpenGate.Rules.Fits
import OpenGate.Alerts.EventPack
import OpenGate.Alerts.Evidence
import OpenGate.Relay.Ending
import OpenGate.Relay.Counting
import OpenGate.Agents.StoredCoverage
import OpenGate.Agents.Requests
import OpenGate.Agents.MaintenancePush
import OpenGate.Agents.RulePush
import OpenGate.Agents.Pacing
import OpenGate.Agents.UpdatePush
import OpenGate.Certs.Admission
import OpenGate.Certs.Renewal
import OpenGate.Lifecycle.Purge
import OpenGate.Lifecycle.Reconcile
import OpenGate.Alerts.Resume
import OpenGate.Auth.Enrolment
import OpenGate.Amt.Channel
import OpenGate.Incidents.Ceiling
import OpenGate.Agents.UpdateAck
import OpenGate.Amt.Registry
import OpenGate.Update.Rollback
import OpenGate.Direct.Share
