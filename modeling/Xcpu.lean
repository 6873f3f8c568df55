import Xcpu.Lib.Linked
import Xcpu.Lib.Numerals
import Xcpu.Lib.Overwrite
import Xcpu.Lib.Transition
import Xcpu.Bjs.ClientBuffer
import Xcpu.Bjs.Client
import Xcpu.Bjs.Cluster
import Xcpu.Bjs.Cmconf
import Xcpu.Bjs.Dependencies
import Xcpu.Bjs.FindHole
import Xcpu.Bjs.Isolation
import Xcpu.Bjs.PoolAccess
import Xcpu.Bjs.PoolLimits
import Xcpu.Bjs.SexpBuffer
import Xcpu.Bjs.SexpSound
import Xcpu.Bjs.SharedPass
import Xcpu.Libnpclient.Callbacks
import Xcpu.Libnpfs.FidPool
import Xcpu.Libnpfs.Negotiation
import Xcpu.Libnpfs.NpRoundTrip
import Xcpu.Libnpfs.ReadProc
import Xcpu.Libnpfs.Rerror
import Xcpu.Libspclient.PollWrites
import Xcpu.Libspclient.HostileReads
import Xcpu.Libspclient.RequestStream
import Xcpu.Libspclient.TagPool
import Xcpu.Libspclient.PathOps
import Xcpu.Libspclient.Writenb
import Xcpu.Libspfs.AttachAuth
import Xcpu.Libspfs.ConnBuffers
import Xcpu.Libspfs.ConnFraming
import Xcpu.Libspfs.ConnStream
import Xcpu.Libspfs.Descriptors
import Xcpu.Libspfs.DirOps
import Xcpu.Libspfs.DirRead
import Xcpu.Libspfs.ExclOpen
import Xcpu.Libspfs.FailedRequest
import Xcpu.Libspfs.FidRefs
import Xcpu.Libspfs.FileRefs
import Xcpu.Libspfs.FlushOrder
import Xcpu.Libspfs.Held
import Xcpu.Libspfs.LongStrings
import Xcpu.Libspfs.NpDecode
import Xcpu.Libspfs.PollTable
import Xcpu.Libspfs.ReadCount
import Xcpu.Libspfs.SerializeStat
import Xcpu.Libspfs.VersionReply
import Xcpu.Libspfs.WriteLength
import Xcpu.Libstrutil.CutPieces
import Xcpu.Libstrutil.Range
import Xcpu.Libxcpu.CommandCount
import Xcpu.Libxcpu.NodeTransfer
import Xcpu.Libxcpu.OutputDelivery
import Xcpu.Libxcpu.ProcList
import Xcpu.Libxcpu.SplitArch
import Xcpu.Libxcpu.StdinDelivery
import Xcpu.Xcpufs.Commands
import Xcpu.Xcpufs.DirListing
import Xcpu.Xcpufs.FilebufLength
import Xcpu.Xcpufs.Passkey
import Xcpu.Xcpufs.PipeQueue
import Xcpu.Xcpufs.PipeStream
import Xcpu.Xcpufs.RxfileTree
import Xcpu.Xcpufs.SessionCtl
import Xcpu.Xcpufs.SessionList
import Xcpu.Xcpufs.SessionRefs
import Xcpu.Xcpufs.TextReads
import Xcpu.Xcpufs.TspawnCover
import Xcpu.Xcpufs.UfsConfined
import Xcpu.Xcpufs.WaitOnce
import Xcpu.Xcpufs.XauthWrite
import Xcpu.Bjs.NodeAllocsRun
import Xcpu.Lib.Buckets
import Xcpu.Lib.Circular
import Xcpu.Npfs.RamfsWstat
import Xcpu.Xget.Bookkeeping
import Xcpu.Xget.Integrity
