import NodeManager.Library.TransitionSystem
import NodeManager.Library.ByteMemory
import NodeManager.Library.ProtobufWire
import NodeManager.Library.Segmentation
import NodeManager.CommonDef
import NodeManager.DataProtocolHead
import NodeManager.HeadRoundTrip
import NodeManager.Message
import NodeManager.PbCodec
import NodeManager.NodeConnect
import NodeManager.RequestReply
import NodeManager.ClientConnect
import NodeManager.StreamSegmentation
import NodeManager.Xthread
import NodeManager.Server
import NodeManager.ServerInvariant
import NodeManager.Registry
import NodeManager.Lifetime
import NodeManager.Listing
import NodeManager.LoginEndToEnd
import NodeManager.Client
import NodeManager.ConnectFlag
import NodeManager.Reconnect
import NodeManager.HeartTimer
import NodeManager.OneConnection
import NodeManager.LoginFirst
import NodeManager.ThreadConfinement
import NodeManager.ThreadPool
import NodeManager.StartUp
import NodeManager.HeadLayout
import NodeManager.ReceivedLengths
import NodeManager.RejectedLogin
import NodeManager.LeftoverMemory
import NodeManager.WireFrames
import NodeManager.HeadBounds
import NodeManager.Library.CString
import NodeManager.Utils
import NodeManager.FailedWakeUp
import NodeManager.HeartClock
import NodeManager.Library.KeyedList
import NodeManager.JsonValue
import NodeManager.FastWriter
import NodeManager.JsonReader
import NodeManager.Library.FuelledLoop
import NodeManager.ReaderLoops
import NodeManager.HttpReq
import NodeManager.VerbatimListing
import NodeManager.StopNode
import NodeManager.StopNodeAnswer
import NodeManager.Library.Utf8
import NodeManager.JsonStrings
import NodeManager.JsonShape
import NodeManager.JsonNumbers
import NodeManager.JsonRoundTrip
import NodeManager.JsonAccepted
import NodeManager.HttpDocuments
import NodeManager.ConnectionReplies
import NodeManager.ClientRequests
import NodeManager.Session
import NodeManager.SessionRuns
import NodeManager.Library.Dealing
import NodeManager.WorkerPool
import NodeManager.MessageMerge
import NodeManager.PaddedLogin
import NodeManager.LoginProvenance
import NodeManager.ReadableListing
import NodeManager.SessionRegistry
import NodeManager.PoolSettles
import NodeManager.SessionSettles
import NodeManager.StopSettles
import NodeManager.AcceptOrder
import NodeManager.Process
import NodeManager.ProcessSettles
import NodeManager.ProcessServes
import NodeManager.Cluster
import NodeManager.ClusterStops
import NodeManager.SocketOwners
import NodeManager.ClusterSettles
