import Mybmm.Support.Flags
import Mybmm.Support.CString
import Mybmm.Support.Libc
import Mybmm.Support.Attempt
import Mybmm.Support.Machine
import Mybmm.Support.Progress
import Mybmm.Support.Links
import Mybmm.Support.Scan
import Mybmm.Support.Arrays
import Mybmm.Support.Routine
import Mybmm.Support.Feed
import Mybmm.Support.Sessions
import Mybmm.Support.Rounding
import Mybmm.Support.Retries
import Mybmm.Cfg
import Mybmm.Config
import Mybmm.Battery
import Mybmm.Charge
import Mybmm.Modules
import Mybmm.Inverters
import Mybmm.Packs
import Mybmm.Reconfig
import Mybmm.FreshStart
import Mybmm.Main
import Mybmm.CritScan
import Mybmm.Invariant
import Mybmm.Written
import Mybmm.Runs
import Mybmm.CommandLine
import Mybmm.SocScale
import Mybmm.Cellmon
import Mybmm.Jbd
import Mybmm.JbdAgree
import Mybmm.JbdBounds
import Mybmm.Jk
import Mybmm.JkScan
import Mybmm.JkFrames
import Mybmm.JkBounds
import Mybmm.Preh
import Mybmm.PrehCells
import Mybmm.Strele
import Mybmm.PrehOptions
import Mybmm.DriverReads
import Mybmm.JkCounts
import Mybmm.Divisors
import Mybmm.CfgFile
import Mybmm.CfgBuffer
import Mybmm.CfgLookup
import Mybmm.CfgRoundTrip
import Mybmm.Devserver
import Mybmm.Framing
import Mybmm.Can
import Mybmm.CanReads
import Mybmm.CanData
import Mybmm.CanAgree
import Mybmm.Streams
import Mybmm.CanSessions
import Mybmm.Bt
import Mybmm.Transports
import Mybmm.InverterWrites
import Mybmm.SiFreshness
import Mybmm.SiReads
import Mybmm.PacketBounds
import Mybmm.BtQueue
import Mybmm.ChargeTemps
import Mybmm.BankReadings
import Mybmm.Capabilities
import Mybmm.PackStatistics
import Mybmm.WorkerPool
import Mybmm.WorkerRuns
import Mybmm.WorkerOnce
import Mybmm.WorkerFinish
import Mybmm.Lists
import Mybmm.ListRuns
import Mybmm.ModuleRegistry
import Mybmm.PackLoading
import Mybmm.PackRegistry
import Mybmm.JbdPackets
import Mybmm.JbdExchange
import Mybmm.JbdComplete
import Mybmm.JbdBalance
import Mybmm.JbdCommands
import Mybmm.JbdCanGet
import Mybmm.RetryLoops
import Mybmm.CfgIsolation
import Mybmm.CfgDest
import Mybmm.CfgSet
import Mybmm.CfgTyped
import Mybmm.CfgStream
import Mybmm.StreleFields
import Mybmm.Addresses
import Mybmm.CommandSpec
import Mybmm.Support.Exchange
import Mybmm.ListSort
import Mybmm.Support.Checksum
import Mybmm.JbdBursts
import Mybmm.LogWrite
import Mybmm.StreamReads
import Mybmm.Identity
import Mybmm.Json
import Mybmm.JsonAccepts
import Mybmm.JsonFormat
import Mybmm.JsonObjects
import Mybmm.JsonStrings
import Mybmm.Restarts
import Mybmm.Telemetry
import Mybmm.CanAnswers
import Mybmm.ListCopies
import Mybmm.PackJobs
import Mybmm.PackPasses
import Mybmm.SiLimits
