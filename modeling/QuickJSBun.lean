import QuickJSBun.Bridge.ArrayBuffer
import QuickJSBun.Bridge.Calls
import QuickJSBun.Bridge.Contexts
import QuickJSBun.Bridge.Deadline
import QuickJSBun.Bridge.Finalizers
import QuickJSBun.Bridge.Interrupt
import QuickJSBun.Bridge.Keys
import QuickJSBun.Bridge.Lifecycle
import QuickJSBun.Bridge.LifecycleKept
import QuickJSBun.Bridge.LifecycleValid
import QuickJSBun.Bridge.Memory
import QuickJSBun.Bridge.Pinning
import QuickJSBun.Bridge.Pins
import QuickJSBun.Bridge.PropertyKeys
import QuickJSBun.Bridge.Texts
import QuickJSBun.Bridge.Timeouts
import QuickJSBun.Bridge.TimeoutsAttributed
import QuickJSBun.Context.Aliasing
import QuickJSBun.Context.Balance
import QuickJSBun.Context.BigInts
import QuickJSBun.Context.Bounded
import QuickJSBun.Context.Callbacks
import QuickJSBun.Context.Conserving
import QuickJSBun.Context.Contained
import QuickJSBun.Context.Convert
import QuickJSBun.Context.Creation
import QuickJSBun.Context.Dump
import QuickJSBun.Context.Failing
import QuickJSBun.Context.Framing
import QuickJSBun.Context.Guest
import QuickJSBun.Context.HostCalls
import QuickJSBun.Context.Iterated
import QuickJSBun.Context.Iterating
import QuickJSBun.Context.Lawful
import QuickJSBun.Context.Leaving
import QuickJSBun.Context.Noting
import QuickJSBun.Context.NotingCalls
import QuickJSBun.Context.NotingIterator
import QuickJSBun.Context.NotingValues
import QuickJSBun.Context.NotingWalk
import QuickJSBun.Context.Placing
import QuickJSBun.Context.Resumed
import QuickJSBun.Context.Scripted
import QuickJSBun.Context.Settling
import QuickJSBun.Context.Thrown
import QuickJSBun.Context.Walking
import QuickJSBun.Context.World
import QuickJSBun.Engine.Allocator
import QuickJSBun.Engine.AtomTable
import QuickJSBun.Engine.AtomsKept
import QuickJSBun.Engine.AtomsStart
import QuickJSBun.Engine.BigInts
import QuickJSBun.Engine.CStrings
import QuickJSBun.Engine.DataProperty
import QuickJSBun.Engine.Garbage
import QuickJSBun.Engine.GarbageCollected
import QuickJSBun.Engine.GarbageCounted
import QuickJSBun.Engine.GarbageFreed
import QuickJSBun.Engine.GarbageKept
import QuickJSBun.Engine.GarbageTraced
import QuickJSBun.Engine.GarbageZeroed
import QuickJSBun.Engine.JsonStrings
import QuickJSBun.Engine.PropertyAtoms
import QuickJSBun.Engine.StringBuffer
import QuickJSBun.Engine.Strings
import QuickJSBun.Handle.Atoms
import QuickJSBun.Handle.Borrowing
import QuickJSBun.Handle.BorrowingKept
import QuickJSBun.Handle.Registry
import QuickJSBun.Handle.RegistryValid
import QuickJSBun.Handle.Slots
import QuickJSBun.Handle.SlotsValid
import QuickJSBun.Library.Blocks
import QuickJSBun.Library.Buffer
import QuickJSBun.Library.Chained
import QuickJSBun.Library.Counted
import QuickJSBun.Library.Decimal
import QuickJSBun.Library.Effect
import QuickJSBun.Library.Json
import QuickJSBun.Library.Limbs
import QuickJSBun.Library.Linked
import QuickJSBun.Library.Machine
import QuickJSBun.Library.Members
import QuickJSBun.Library.Nesting
import QuickJSBun.Library.Pool
import QuickJSBun.Library.Rooted
import QuickJSBun.Library.Simulation
import QuickJSBun.Library.Slotted
import QuickJSBun.Library.Tally
import QuickJSBun.Library.Utf8
import QuickJSBun.Modules.Definitions
import QuickJSBun.Modules.Exports
