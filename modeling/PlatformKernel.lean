import PlatformKernel.GuardedRuns
import PlatformKernel.CountedLoops
import PlatformKernel.DrainLoops
import PlatformKernel.PartialReads
import PlatformKernel.ReturnCodes
import PlatformKernel.ControlPlane
import PlatformKernel.ProcessAccess
import PlatformKernel.CapabilityCache
import PlatformKernel.FileCommands
import PlatformKernel.ChannelBinding
import PlatformKernel.SessionHeaders
import PlatformKernel.InvokeMessage
import PlatformKernel.InvokeLayout
import PlatformKernel.InvokeBounds
import PlatformKernel.InvokeDecoding
import PlatformKernel.BufferOffsets
import PlatformKernel.ResponseReads
import PlatformKernel.MessageTransport
import PlatformKernel.MessageDelivery
import PlatformKernel.ReceiveBuffers
import PlatformKernel.TransmitOwnership
import PlatformKernel.TransmitBuffers
import PlatformKernel.MessageTable
import PlatformKernel.TransportFrames
import PlatformKernel.ResponseAcceptance
import PlatformKernel.ReceiveLoop
import PlatformKernel.AsyncJobs
import PlatformKernel.ContextAccesses
import PlatformKernel.FileMaps
import PlatformKernel.FileOperations
import PlatformKernel.FileMoves
import PlatformKernel.MapReferences
import PlatformKernel.MapLists
import PlatformKernel.FileContexts
import PlatformKernel.KeepMapFlags
import PlatformKernel.UnmapCalls
import PlatformKernel.FileLists
import PlatformKernel.FileRelease
import PlatformKernel.ContextLists
import PlatformKernel.FileBuffers
import PlatformKernel.StagingPages
import PlatformKernel.InvokeResume
import PlatformKernel.CommandReturns
import PlatformKernel.RequestDecoding
import PlatformKernel.ContextShares
import PlatformKernel.UserMappings
import PlatformKernel.MappedMaps
import PlatformKernel.MapRoundTrip
import PlatformKernel.MapTallies
import PlatformKernel.MapResources
import PlatformKernel.UnmapReleases
import PlatformKernel.FailedCalls
import PlatformKernel.WrappedRanges
import PlatformKernel.InvokeReferences
import PlatformKernel.FailedInvokes
import PlatformKernel.StaleDescriptors
import PlatformKernel.StagedTransfer
import PlatformKernel.MapMessages
import PlatformKernel.BufferCache
import PlatformKernel.ResourceTraces
import PlatformKernel.DeviceProbe
import PlatformKernel.InvokeFeatures
import PlatformKernel.SubsystemNotif
import PlatformKernel.SilentControl
import PlatformKernel.SilentMonitor
import PlatformKernel.BootLog
import PlatformKernel.LowMasks
import PlatformKernel.PageAllocation
import PlatformKernel.LockPrograms
import PlatformKernel.DriverLocks
import PlatformKernel.ReplyProgress
import PlatformKernel.PageLedger
import PlatformKernel.LatchedSignals
import PlatformKernel.SubsystemEvents
import PlatformKernel.SilentLevel
import PlatformKernel.PackedRecords
import PlatformKernel.CommandMessages
import PlatformKernel.MessageContents
import PlatformKernel.RemoteCalls
import PlatformKernel.SilentBoot
