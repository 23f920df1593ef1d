import SparcV8.Correctness.TrapReturn
import SparcV8.Correctness.Precise
import SparcV8.Correctness.Drivers
import SparcV8.Correctness.PageWalk
import SparcV8.Correctness.Probe
import SparcV8.Correctness.Atomics
import SparcV8.Correctness.Refused
import SparcV8.Correctness.WriteProtection
import SparcV8.Correctness.SharedUpdates
import SparcV8.Correctness.Coherence
import SparcV8.Correctness.Multiword
import SparcV8.Correctness.MultiplySteps
import SparcV8.Correctness.Conditions
import SparcV8.Correctness.Division
import SparcV8.Correctness.AddressRange
import SparcV8.Correctness.Isolation
import SparcV8.Correctness.FreshLines
import SparcV8.Correctness.SnoopFilter
import SparcV8.Correctness.BusDelivery
import SparcV8.Correctness.StoreVisible
import SparcV8.Correctness.DmaCopy
import SparcV8.Correctness.BundleAccesses
import SparcV8.Correctness.CommandResults
import SparcV8.Correctness.MemoryImage
import SparcV8.Correctness.GlobalInitializers
import SparcV8.Correctness.TimedMmu
import SparcV8.Correctness.RegisterWindows
import SparcV8.Correctness.NestLock
import SparcV8.Correctness.TicketLock
import SparcV8.Correctness.FaultHistory
import SparcV8.Correctness.TlbFlush
import SparcV8.Correctness.BundleCache
import SparcV8.Multicore.Scheduler
import SparcV8.Correctness.TlbEntries
