import EnkiNet.ByteStore
import EnkiNet.Runs
import EnkiNet.Packet
import EnkiNet.PacketBits
import EnkiNet.EntityInfo
import EnkiNet.Mirror
import EnkiNet.PacketScript
import EnkiNet.Faults
import EnkiNet.BitStream
import EnkiNet.ClientIds
import EnkiNet.WireLength
import EnkiNet.Process
import EnkiNet.Message
import EnkiNet.Handling
import EnkiNet.Sending
import EnkiNet.Moves
import EnkiNet.Operations
import EnkiNet.Session
import EnkiNet.SessionTurns
import EnkiNet.Authority
import EnkiNet.LocalEntities
import EnkiNet.Convergence
import EnkiNet.EntityIds
import EnkiNet.Calls
import EnkiNet.RpcRouting
import EnkiNet.Dispatch
import EnkiNet.Fields
import EnkiNet.Builds
import EnkiNet.RpcArguments
import EnkiNet.Probes
import EnkiNet.PacketCalls
import EnkiNet.Loopback
import EnkiNet.Timestamps
import EnkiNet.Creation
import EnkiNet.Hearing
import EnkiNet.EntityTrees
import EnkiNet.Requests
import EnkiNet.Announcements
import EnkiNet.Births
import EnkiNet.Connections
import EnkiNet.Lasting
import EnkiNet.Completion
import EnkiNet.Costs
import EnkiNet.Lifetime
import EnkiNet.Rejection
import EnkiNet.Orphans
import EnkiNet.Quantizer
import EnkiNet.CompressedFloat
import EnkiNet.ReadBounds
import EnkiNet.Shifts
import EnkiNet.Stores
import EnkiNet.Atomicity
import EnkiNet.Clearing
import EnkiNet.Containers
import EnkiNet.CanDeserialize
import EnkiNet.GlobalRpc
import EnkiNet.Walks
import EnkiNet.Signals
import EnkiNet.Subscriptions
import EnkiNet.StaleCopies
import EnkiNet.ManagedConnections
import EnkiNet.Emission
import EnkiNet.Registration
import EnkiNet.Forest
import EnkiNet.Termination
import EnkiNet.Matching
import EnkiNet.Layout
import EnkiNet.ClassRpc
import EnkiNet.Ancestry
import EnkiNet.Cascade
import EnkiNet.EntityTable
import EnkiNet.Channels
import EnkiNet.EnetServer
import EnkiNet.ClientObjects
import EnkiNet.Stopping
import EnkiNet.PeerMap
import EnkiNet.Visits
import EnkiNet.OutgoingPackets
import EnkiNet.Deliveries
import EnkiNet.EnetClient
import EnkiNet.ClientEvents
import EnkiNet.ClientPackets
import EnkiNet.Network
import EnkiNet.Postings
import EnkiNet.Relays
import EnkiNet.NetworkManager
import EnkiNet.Restarts
import EnkiNet.Dedicated
