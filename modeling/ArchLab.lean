import ArchLab.Lts
import ArchLab.Handoff
import ArchLab.Fifo
import ArchLab.MsiMessage
import ArchLab.MsiCacheMemory
import ArchLab.MsiL1Cache
import ArchLab.MsiDirectory
import ArchLab.MsiSends
import ArchLab.MsiSystem
import ArchLab.MsiBlock
import ArchLab.MsiRoute
import ArchLab.MsiPhase
import ArchLab.MsiAbs
import ArchLab.MsiAbsDir
import ArchLab.MsiRefine
import ArchLab.MsiPorts
import ArchLab.MsiSimForward
import ArchLab.MsiSimCache
import ArchLab.MsiSimDir
import ArchLab.MsiQuiet
import ArchLab.MsiCoherent
import ArchLab.MsiSafety
import ArchLab.MsiDeadlock
import ArchLab.MsiEvict
import ArchLab.MsiForget
import ArchLab.MsiAcks
import ArchLab.Potential
import ArchLab.MsiActions
import ArchLab.MsiWork
import ArchLab.MsiServed
import ArchLab.MsiSequencer
import ArchLab.MsiOutstanding
import ArchLab.MsiHistory
import ArchLab.Since
import ArchLab.MsiLlsc
import ArchLab.MsiFunctional
import ArchLab.Slots
import ArchLab.TomasuloTrace
import ArchLab.Tomasulo
import ArchLab.TomasuloInv
import ArchLab.TomasuloStages
import ArchLab.TomasuloRun
import ArchLab.TomasuloTimeline
import ArchLab.TomasuloStatus
import ArchLab.TomasuloSchedule
import ArchLab.TomasuloFetch
import ArchLab.Links
import ArchLab.CacheGeometry
import ArchLab.Rpt
import ArchLab.Cache
import ArchLab.Refine
import ArchLab.CacheWays
import ArchLab.CacheLinks
import ArchLab.CacheRefine
import ArchLab.CacheRuns
import ArchLab.CacheInvariant
import ArchLab.CacheReference
import ArchLab.CacheLedger
import ArchLab.CacheWriteBack
import ArchLab.CachePrefetch
import ArchLab.Lru
import ArchLab.CacheInclusion
import ArchLab.InOrder
import ArchLab.Stalls
import ArchLab.Tage
import ArchLab.TageSpec
import ArchLab.TageInvariant
import ArchLab.TageFrame
import ArchLab.Chunks
import ArchLab.TageFold
import ArchLab.TwoLevel
import ArchLab.Counters
import ArchLab.Mispredictions
import ArchLab.CacheAdmission
import ArchLab.Walks
import ArchLab.MessageBuffer
import ArchLab.Topology
import ArchLab.Relay
import ArchLab.SimpleNetwork
import ArchLab.NetworkRelay
import ArchLab.NetworkOrder
import ArchLab.TopologyLinks
