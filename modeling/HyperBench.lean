import HyperBench.AddressSpace
import HyperBench.Allocator
import HyperBench.ApicDriver
import HyperBench.ApicSmp
import HyperBench.BareMetal
import HyperBench.Binstr
import HyperBench.ColdMemory
import HyperBench.Compare
import HyperBench.Console
import HyperBench.ConsoleLock
import HyperBench.Dump
import HyperBench.Glob
import HyperBench.HostEnds
import HyperBench.HostStale
import HyperBench.HotMemory
import HyperBench.Idt
import HyperBench.Ipi
import HyperBench.IpiLive
import HyperBench.IpiTarget
import HyperBench.LongModeStart
import HyperBench.Memmove
import HyperBench.MixedPages
import HyperBench.MpInside
import HyperBench.MpTable
import HyperBench.OnCpu
import HyperBench.OutOfPages
import HyperBench.Output
import HyperBench.PageMap
import HyperBench.PinWait
import HyperBench.PrintfBound
import HyperBench.PrintfLayout
import HyperBench.PrintfPieces
import HyperBench.PrintfScanner
import HyperBench.Protocol
import HyperBench.Report
import HyperBench.Serial
import HyperBench.Transcript
import HyperBench.Vpages
