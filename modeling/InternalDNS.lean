import InternalDNS.PublicationChain
import InternalDNS.SnapshotAcceptance
import InternalDNS.TenantBindings
import InternalDNS.Associations
import InternalDNS.StatusMirror
import InternalDNS.FeedConvergence
import InternalDNS.PubStore
import InternalDNS.TargetHistory
import InternalDNS.SerialRequests
import InternalDNS.RecordSetWebhook
import InternalDNS.ApexRecords
import InternalDNS.ZoneAccounting
import InternalDNS.PowerDNSOwners
import InternalDNS.PowerDNSContent
import InternalDNS.BootstrapReplay
import InternalDNS.PlannerStep
import InternalDNS.RdataPublished
import InternalDNS.RecordConverge
import InternalDNS.CachedInputs
import InternalDNS.SRVTargets
import InternalDNS.ShadowedZones
