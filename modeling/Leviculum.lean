import Leviculum.Link.Delivery
import Leviculum.Transport.Replay
import Leviculum.Transport.RelayedLink
import Leviculum.Transport.Circulation
import Leviculum.Transport.QueueFate
import Leviculum.Transport.Deadline
import Leviculum.Transport.Tunnel
import Leviculum.Transport.LoopRefusal
import Leviculum.Transport.HeldAnnounce
import Leviculum.Transport.StrayProof
import Leviculum.Transport.SlotView
import Leviculum.Resource.Integrity
import Leviculum.Store.ListFailure
import Leviculum.Store.Purged
import Leviculum.Store.Rewrite
import Leviculum.Propagation.SyncProgress
import Leviculum.Propagation.Isolation
import Leviculum.Store.Churn
import Leviculum.Store.Recall
import Leviculum.Resource.Retained
import Leviculum.Propagation.UploadOutcome
import Leviculum.Router.Dirty
import Leviculum.Router.Terminal
import Leviculum.Router.DirectMail
import Leviculum.Router.Attempts
import Leviculum.Transport.DiscoveryRun
import Leviculum.Store.FileTrace
import Leviculum.Store.FileQueue
import Leviculum.Store.FileCursor
import Leviculum.Framing.Hdlc
import Leviculum.Framing.Kiss
import Leviculum.Framing.SerialMux
import Leviculum.Ble.Agreement
import Leviculum.Framing.BleRoundTrip
import Leviculum.Transport.Emission
import Leviculum.Transport.AnnounceRate
import Leviculum.Transport.PacketCodec
import Leviculum.Link.StreamBuffer
import Leviculum.Resource.Segments
import Leviculum.Resource.Streamed
import Leviculum.Crypto.Token
import Leviculum.Crypto.Ifac
import Leviculum.Msgpack.Skip
import Leviculum.Msgpack.RoundTrip
import Leviculum.Resource.AdvertisementOrder
import Leviculum.Propagation.OfferSize
import Leviculum.Propagation.StreamedServing
import Leviculum.Propagation.PeerSchedule
import Leviculum.Propagation.PeerRotation
import Leviculum.Transport.RelayRoutes
import Leviculum.Propagation.Listing
import Leviculum.Propagation.FetchBudget
import Leviculum.Propagation.Stamp
import Leviculum.Propagation.ActiveDelivery
import Leviculum.DirectLink.TwoSided
import Leviculum.DirectLink.WireOrder
import Leviculum.Lxmf.Reserved
import Leviculum.Transport.BoundedQueue
import Leviculum.Transport.BoundedHost
import Leviculum.Transport.BoundedBoard
import Leviculum.Transport.BoundedTwins
import Leviculum.Board.QueueBudget
import Leviculum.Board.DutyHold
import Leviculum.Board.BootCount
import Leviculum.Board.TimeFloor
import Leviculum.Board.Airtime
import Leviculum.Map.JoinPieces
import Leviculum.Map.Answers
import Leviculum.Map.FillBorders
import Leviculum.Map.FillExact
import Leviculum.Transport.ForwardMeter
import Leviculum.Resource.Following
