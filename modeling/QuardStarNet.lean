import QuardStarNet.AcceptOrder
import QuardStarNet.Receivers
import QuardStarNet.Progress
import QuardStarNet.Handles
import QuardStarNet.ExactlyOnce
import QuardStarNet.Semaphores
import QuardStarNet.Reaping
import QuardStarNet.Cancellation
import QuardStarNet.PktbufPool
import QuardStarNet.ArpCache
import QuardStarNet.Files
import QuardStarNet.BlockRequests
import QuardStarNet.NetBuffers
import QuardStarNet.UdpReplies
import QuardStarNet.Fixq
import QuardStarNet.MappedPages
import QuardStarNet.PeerFin
import QuardStarNet.SequenceShift
import QuardStarNet.Corruption
import QuardStarNet.UdpDelivery
import QuardStarNet.HttpHeader
import QuardStarNet.Sha256
import QuardStarNet.UserMemory
import QuardStarNet.SleepLock
import QuardStarNet.DottedQuad
import QuardStarNet.CursorCalls
