import Beegfs.Locking.EntryLockExclusion
import Beegfs.Locking.RangeLockByteMap
import Beegfs.Locking.LockGuarantees
import Beegfs.Striping.OffsetsAgree
import Beegfs.Client.FileCacheRefinement
import Beegfs.Client.AclCache
import Beegfs.Storage.DiskMetaDataSafety
import Beegfs.Storage.ChunkPath
import Beegfs.Pmq.Retry
import Beegfs.Fsck.TableMultimap
import Beegfs.Fsck.ByIDChecks
import Beegfs.Fsck.OrphanedChunks
import Beegfs.Fsck.Rewind
import Beegfs.Client.SequenceNumbers
import Beegfs.Client.MirrorBuddyGroupMapper
import Beegfs.Mirroring.AtMostOnce
import Beegfs.Mirroring.ResyncRegistration
import Beegfs.Mirroring.ResyncOrder
import Beegfs.Nodes.ChooseTargets
import Beegfs.Nodes.GroupThreads
import Beegfs.Nodes.LocalGroup
import Beegfs.Mirroring.RemoteWaits
import Beegfs.Mirroring.LockCoverage
import Beegfs.Striping.ChunkBalancer
import Beegfs.Striping.DynamicAttribs
import Beegfs.Storage.AccessLocks
import Beegfs.Storage.LinkCountRuns
import Beegfs.Storage.MetaBuffers
import Beegfs.Storage.StoreRaces
import Beegfs.Storage.SessionFileStore
import Beegfs.Storage.HardlinkRename
import Beegfs.Storage.InheritedAcl
import Beegfs.Storage.ChunkStore
