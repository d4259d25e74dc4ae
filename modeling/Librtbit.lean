import Librtbit.Core.StoragePaths
import Librtbit.Storage.Fastresume
import Librtbit.Live.Owners
import Librtbit.Live.Writes
import Librtbit.Tracker.Selection
import Librtbit.Tracker.Acquire
import Librtbit.Tracker.Completion
import Librtbit.Tracker.Reselection
import Librtbit.Storage.ChunkFiles
import Librtbit.Wire.RoundTrip
import Librtbit.Wire.ReadBuf
import Librtbit.Live.HaveBytes
import Librtbit.Wire.PeerInfoReader
import Librtbit.Wire.Pex
import Librtbit.Managed.Failures
import Librtbit.Swarm.LiveOutgoing
import Librtbit.Swarm.Superseded
import Librtbit.Live.Permits
import Librtbit.Dht.RoundTrip
import Librtbit.Dht.BucketTree
import Librtbit.Dht.MutableItems
import Librtbit.Dht.PeerStoreCalls
import Librtbit.Dht.Matching
import Librtbit.Dht.Lookup
import Librtbit.Storage.CreateTorrent
import Librtbit.Live.RateLimits
import Librtbit.Http.Rotation
import Librtbit.Http.Credentials
import Librtbit.Session.LocalDiscovery
import Librtbit.Session.UdpTracker
import Librtbit.Session.Persistence
import Librtbit.Swarm.Blocklist
import Librtbit.Session.Privacy
import Librtbit.Storage.RenameFiles
import Librtbit.Live.Advertise
import Librtbit.Session.Restart
import Librtbit.Rss.Rules
import Librtbit.Rss.Monitor
import Librtbit.Storage.MoveCompleted
