import TNL.Connection.AckCoverage
import TNL.Connection.CipherCounter
import TNL.Connection.ClientPuzzle
import TNL.Connection.FailedRequests
import TNL.Connection.HandshakeAgreement
import TNL.Connection.NetInterface
import TNL.Connection.Truncation
import TNL.Event.ClassNegotiation
import TNL.Event.Conservation
import TNL.Event.OrderedRun
import TNL.Event.PostedClasses
import TNL.Event.Unguaranteed
import TNL.Ghost.Partition
import TNL.Ghost.Sessions
import TNL.Ghost.ObjectRPCs
import TNL.Ghost.Updates
import TNL.Go.HandshakeReplay
import TNL.Go.OrderedEvents
import TNL.Go.GhostCreation
import TNL.GoRoot.AnswerAuthority
import TNL.Master.ArrangedConnections
import TNL.RPC.ArgumentRoundTrip
import TNL.Stream.Payload
import TNL.StringTable.Agreement
import TNL.StringTable.StringTableEntry
import TNL.Object.ClassAgreement
import TNL.Object.PointerSoundness
import TNL.Connection.PacketRate
import TNL.Zap.MoveOrder
import TNL.Zap.CompressedPoints
import TNL.Go.NotifyProtocol
import TNL.GoRoot.PacketSafety
import TNL.Stream.IntegerCodecs
import TNL.StringTable.Lookups
import TNL.Ghost.InitialUpdates
import TNL.Connection.RejectedPackets
import TNL.Connection.SendPeriod
import TNL.Journal.EntryPoints
import TNL.GoRoot.StringTable
import TNL.Go.MalformedPackets
import TNL.Go.PacketDispatch
import TNL.Go.ProcessPacket
import TNL.Go.HandshakeCodec
import TNL.Go.NotifyOrder
import TNL.Connection.ConnectionAttempts
import TNL.Connection.DelayedPackets
import TNL.Connection.PingTimeout
import TNL.Stream.Encryption
import TNL.Connection.Disconnect
import TNL.StringTable.EntryTable
import TNL.Connection.RawPacket
import TNL.Connection.LocalConnect
import TNL.GoRoot.Relay
import TNL.Connection.PuzzleSearch
import TNL.Master.RequestTimeouts
import TNL.Master.FloodProtection
import TNL.Master.ServerQueries
import TNL.Core.VectorRefinement
import TNL.Core.StringPtr
import TNL.Core.ClassChunker
import TNL.Core.ByteBuffer
import TNL.Core.ResponseCalls
import TNL.Core.Checksum
import TNL.Core.Base64
import TNL.Zap.GridDatabase
import TNL.Go.EventHandlers
import TNL.Go.GhostIDs
import TNL.Rust.BitAgreement
import TNL.GoRoot.BitRanges
import TNL.GoRoot.SignAndEncrypt
import TNL.GoRoot.RequestAnswers
import TNL.GoRoot.QueryPackets
import TNL.GoRoot.QueryResponses
import TNL.GoRoot.ServerList
import TNL.Zap.ServerLobby
import TNL.Zap.PlayerNames
import TNL.Zap.LevelLoader
