import CLibs.AacElementErrors
import CLibs.Amf0Safety
import CLibs.AnnexBBounds
import CLibs.AnnexBLimits
import CLibs.AvcProfiles
import CLibs.AvcRecordLimits
import CLibs.AvcStoreLimits
import CLibs.AvlRangeSearch
import CLibs.AvlSafeWalk
import CLibs.BaseCodecRoundTrip
import CLibs.BitmapQueries
import CLibs.BstNoParent
import CLibs.BstRuns
import CLibs.ChannelLimits
import CLibs.ConfigLineReading
import CLibs.CrcFastPath
import CLibs.CrcMpeg2
import CLibs.ExpGolomb
import CLibs.FifoRefinement
import CLibs.FileOutputs
import CLibs.FlvRoundTrip
import CLibs.HeapTimerFirings
import CLibs.Heaps
import CLibs.HevcEscapes
import CLibs.HevcRecordRoundTrip
import CLibs.HlsErrors
import CLibs.HlsPlaylists
import CLibs.HlsSlices
import CLibs.MemoryPoolAccounting
import CLibs.MmapOutputs
import CLibs.MovAbsoluteTimes
import CLibs.MovChunkRoundTrip
import CLibs.MovEsdsBounds
import CLibs.MovFragmentRoundTrip
import CLibs.MovSampleReading
import CLibs.MovWriterMove
import CLibs.MpoolSoundness
import CLibs.OpusSplitting
import CLibs.PathConcat
import CLibs.PesHeaders
import CLibs.PsMuxerBounds
import CLibs.PsStartCodes
import CLibs.RbtreeReplacement
import CLibs.RingtabOrder
import CLibs.RingtabRelease
import CLibs.SboxDictRuns
import CLibs.SboxLists
import CLibs.TaskQueueRuns
import CLibs.ThreadPoolRuns
import CLibs.TimeWheelRuns
import CLibs.TsContinuityRuns
import CLibs.TsDemuxerIsolation
import CLibs.TsSectionRuns
import CLibs.TsTableRoundTrip
import CLibs.UriAssertions
import CLibs.UriQuerySplitting
import CLibs.UriReading
import CLibs.UrlDecoding
