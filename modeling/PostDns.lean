import PostDns.Foundation.Logged
import PostDns.Foundation.Walk
import PostDns.Foundation.Octets
import PostDns.Foundation.Buffer
import PostDns.Rfc1035.Grammar
import PostDns.Rfc1035.Encode
import PostDns.StringT
import PostDns.Memory
import PostDns.Utils
import PostDns.Message
import PostDns.Decode
import PostDns.DecodeSemantics
import PostDns.Encode
import PostDns.MessageLog
import PostDns.EncodeSemantics
import PostDns.Packet
import PostDns.RoundTrip
import PostDns.Send
import PostDns.Forward
import PostDns.Relay
import PostDns.Fuel
import PostDns.Layout
import PostDns.LayoutSemantics
import PostDns.EntrySemantics
import PostDns.Termination
import PostDns.ReadBounds
import PostDns.WriteBounds
import PostDns.PacketBounds
import PostDns.Foundation.Heap
import PostDns.HashTable
import PostDns.HashTableLayout
import PostDns.HashTableSemantics
import PostDns.Removal
import PostDns.Growth
import PostDns.Sweeping
import PostDns.Holdings
import PostDns.Caches
import PostDns.Ipv4File
import PostDns.Socket
import PostDns.Server
import PostDns.Foundation.Run
import PostDns.SocketSemantics
import PostDns.Lookups
import PostDns.Frame
import PostDns.CachedLists
import PostDns.Answering
import PostDns.Foundation.PendingTable
import PostDns.Routing
import PostDns.CacheSemantics
import PostDns.CacheRuns
import PostDns.CacheMaps
import PostDns.FilePieces
import PostDns.Configured
import PostDns.Staleness
import PostDns.LocalReplies
import PostDns.ManualEntries
import PostDns.DottedQuad
import PostDns.ConfigLines
import PostDns.Blocking
import PostDns.Agreement
import PostDns.Chase
import PostDns.Turns
import PostDns.Replies
import PostDns.Initialised
import PostDns.TwoPasses
import PostDns.Outcomes
import PostDns.Arrivals
import PostDns.QuestionSections
import PostDns.AddressLengths
import PostDns.WrittenOctets
import PostDns.ExactSweeps
import PostDns.CountedSweeps
import PostDns.Releasing
import PostDns.ReplyOwners
import PostDns.ServedLines
import PostDns.BadLines
import PostDns.Pieces
import PostDns.AddressText
import PostDns.NameReaders
import PostDns.AbsentNames
import PostDns.Features
import PostDns.Foundation.Stores
import PostDns.Wear
import PostDns.HashedClients
import PostDns.HashedRuns
import PostDns.AddressPrint
import PostDns.CacheHistory
import PostDns.Provenance
import PostDns.Shutdown
import PostDns.Foundation.Listing
import PostDns.NodeCounts
import PostDns.Ownership
import PostDns.Ledger
import PostDns.Interrupt
import PostDns.Wire
import PostDns.InBounds
import PostDns.CallbackBounds
import PostDns.CalmRuns
import PostDns.Delivery
import PostDns.Config
