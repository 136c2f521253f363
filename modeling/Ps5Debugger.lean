import Ps5Debugger.CheatExport
import Ps5Debugger.WatchValues
import Ps5Debugger.DumpFiles
import Ps5Debugger.VmMap
import Ps5Debugger.ElfImage
import Ps5Debugger.ExactFinder
import Ps5Debugger.ClassicWindows
import Ps5Debugger.SnapStore
import Ps5Debugger.SnapIndex
import Ps5Debugger.DebugSessions
import Ps5Debugger.PageWrite
import Ps5Debugger.PageMerge
import Ps5Debugger.ArenaBadFree
import Ps5Debugger.AliasRuns
import Ps5Debugger.SpillFiles
import Ps5Debugger.WatchpointSlots
import Ps5Debugger.TrailingData
import Ps5Debugger.LegacyScan
import Ps5Debugger.GetPages
import Ps5Debugger.AobSingle
import Ps5Debugger.ClientCompare
import Ps5Debugger.SuspendedThreads
import Ps5Debugger.AttachOwner
import Ps5Debugger.ClientSlots
import Ps5Debugger.RpcInStep
import Ps5Debugger.RpcRequests
import Ps5Debugger.ElfSymbolsInside
import Ps5Debugger.DisasmChunks
import Ps5Debugger.ReadStack
import Ps5Debugger.FrozenWrites
import Ps5Debugger.FreezeLoop
import Ps5Debugger.HexEdit
import Ps5Debugger.HexCache
import Ps5Debugger.WatchListText
import Ps5Debugger.SnapshotProgress
import Ps5Debugger.LocalBranches
import Ps5Debugger.CfgFunction
import Ps5Debugger.PreloadMerge
import Ps5Debugger.SymbolJsonRead
import Ps5Debugger.ScanSlices
import Ps5Debugger.SfoTitle
import Ps5Debugger.ElfModule
import Ps5Debugger.RegisterFrames
import Ps5Debugger.DebugThreadRuns
import Ps5Debugger.Auth
import Ps5Debugger.RpcMemory
import Ps5Debugger.DebugEventPump
import Ps5Debugger.GraphLayout
import Ps5Debugger.ListingMetadata
