import Telemetry.Gate.Desk
import Telemetry.Source.Layer
import Telemetry.Store.Bench
import Telemetry.Proofs.Distribution.Precision
import Telemetry.Proofs.History.Identity
import Telemetry.Proofs.History.Metadata
import Telemetry.Proofs.Isolation.Renewal
import Telemetry.Proofs.Exposition.Names
import Telemetry.Proofs.Exposition.Exposures
import Telemetry.Proofs.Exposition.Gathered
import Telemetry.Proofs.Exposition.Lossless
import Telemetry.Proofs.Exposition.WellFormed
import Telemetry.Proofs.Exposition.AllScopes
import Telemetry.Proofs.Exposition.Series
import Telemetry.Proofs.Exposition.Orphans
import Telemetry.Proofs.Exposition.Responses
import Telemetry.Proofs.Observation.Reports
import Telemetry.Proofs.Observation.Commuting
import Telemetry.Proofs.Interception.Members
import Telemetry.Proofs.Source.Precedence
import Telemetry.Proofs.Tag.Written
import Telemetry.Proofs.Rounding.Order
import Telemetry.Proofs.Scrape.MediaType
import Telemetry.Proofs.Distribution.Buckets
import Telemetry.Proofs.Distribution.Bounded
import Telemetry.Proofs.Distribution.Snapshots
import Telemetry.Proofs.Settings.Layering
import Telemetry.Proofs.Settings.Resolved
import Telemetry.Proofs.Distribution.Creation
import Telemetry.Proofs.History.Totals
import Telemetry.Proofs.Exposition.Stability
import Telemetry.Proofs.History.Removal
import Telemetry.Proofs.Source.LastWriter
import Telemetry.Proofs.Gate.Brackets
import Telemetry.Proofs.Settings.Timers
