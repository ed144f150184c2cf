import Vastnfs.Nfs.Connections
import Vastnfs.Nfs.Spread
import Vastnfs.Sunrpc.Healing
import Vastnfs.Sunrpc.Mdconnect
import Vastnfs.Sunrpc.Queuelen
import Vastnfs.Nfs.OpenHome
import Vastnfs.Sunrpc.TransmitOrder
import Vastnfs.Nfs.ConnectionCount
import Vastnfs.Sunrpc.Slots
import Vastnfs.Nfs.InternalWrite
import Vastnfs.Nfs.LockFlush
import Vastnfs.Nfs.WriteOrder
import Vastnfs.Nfs.WriteSync
import Vastnfs.Nfs.LayoutCommit
import Vastnfs.Nfs.SlotSequence
import Vastnfs.Nfs.SlotTable
import Vastnfs.Nfs.SessionLimits
import Vastnfs.Nfsd.ShareDeny
import Vastnfs.Nfs.PageIo
import Vastnfs.Nfs.FileLayout
import Vastnfs.Sunrpc.XdrEncode
import Vastnfs.Sunrpc.XdrPages
import Vastnfs.Nfsd.SessionSlot
import Vastnfs.Nfsd.OwnerReplay
import Vastnfs.Nfsd.AclReport
import Vastnfs.Nfsd.AclSet
import Vastnfs.Nfsd.ReplyCache
import Vastnfs.Sunrpc.RdmaReassembly
import Vastnfs.Sunrpc.RdmaMarshal
import Vastnfs.Lockd.LockRange
import Vastnfs.Lockd.Share
import Vastnfs.Sunrpc.GssIntegrity
import Vastnfs.Nfs.WriteVerf
import Vastnfs.Nfs.DirectCount
import Vastnfs.Nfs.Delegation
import Vastnfs.Sunrpc.SendReply
import Vastnfs.Sunrpc.WaitQueue
import Vastnfs.Sunrpc.Congestion
