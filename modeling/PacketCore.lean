import PacketCore.Ikev2.IvReservation
import PacketCore.Scope.Resolution
import PacketCore.Scope.Claims
import PacketCore.VoterSlots.Snapshots
import PacketCore.VoterSlots.Fence
import PacketCore.Ikev2.SyncAgreement
import PacketCore.Audit.LedgerReuse
import PacketCore.Diameter.PendingDurable
import PacketCore.Diameter.Uniqueness
import PacketCore.Gtpu.AffinityIsolation
import PacketCore.Gtpu.Framing
import PacketCore.Gtpu.Identifications
import PacketCore.Mirror.Custody
import PacketCore.Redirect.SessionHistory
import PacketCore.Alarm.Suppression
import PacketCore.ConfigBus.WatchDelivery
import PacketCore.PeerDiscovery.Runs
import PacketCore.Ikev2.CanonicalRegistry
import PacketCore.Consensus.ReadAdmission
import PacketCore.Gtpu.Checksum
import PacketCore.IpsecLb.TaggedSpi
import PacketCore.Runtime.SourceAdmission
import PacketCore.Session.KeyRetention
import PacketCore.Sbi.CircuitBreaker
