import Htx.Hxestorage.HangMonitor
import Htx.Hxestorage.WriteStamp
import Htx.Hxestorage.FencepostSound
import Htx.Hxestorage.TableMetadata
import Htx.Hxestorage.CompareSound
import Htx.Hxestorage.SingleRunner
import Htx.Hxestorage.LockRelease
import Htx.Hxestorage.SequentialRange
import Htx.Hxestorage.SequentialVariable
import Htx.Hxestorage.TransferStored
import Htx.Hxestorage.NumOper
import Htx.Hxestorage.RandomBlock
import Htx.Hxestorage.StatusCells
import Htx.Hxestorage.StatusCoverage
import Htx.Hxestorage.SectionRanges
import Htx.Hxestorage.SegmentLimits
import Htx.Hxestorage.AssocSettings
import Htx.Hxestorage.BufferFilled
import Htx.Htxd.Settled
import Htx.Htxd.OneMdt
import Htx.Htxd.Tracked
import Htx.Cfgc.ReadBack
import Htx.Gr64.ReadPass
import Htx.Hxemem64.FabricAcross
import Htx.Hxemem64.SeedBookkeeping
import Htx.Hxemem64.PatternSchedule
import Htx.Hxecache.Barrier
import Htx.Hxecache.PrefetchStreams
import Htx.Hxsmsg.Archive
import Htx.Hxsmsg.LogContents
import Htx.Hxemem64.OneOwner
import Htx.Hxecom.ReadTotals
import Htx.Hxecom.CoordHistory
import Htx.Hxecom.Datagrams
import Htx.Hxemem64.FilterMeaning
import Htx.Htxd.HungDevices
import Htx.Htxd.Screens
import Htx.Htxd.Summary
import Htx.Htx64.ByteCounters
import Htx.Htx64.PatternBuffer
import Htx.Htxd.CommandNames
