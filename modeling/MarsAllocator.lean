import MarsAllocator.Library.ByteMemory
import MarsAllocator.Library.StateProgram
import MarsAllocator.Model.Crc32
import MarsAllocator.Model.Layout
import MarsAllocator.Model.ControlWord
import MarsAllocator.Model.Heap
import MarsAllocator.Model.Validation
import MarsAllocator.Model.Freelist
import MarsAllocator.Model.Recovery
import MarsAllocator.Model.Patrol
import MarsAllocator.Model.Arena
import MarsAllocator.Model.Core
import MarsAllocator.Model.Access
import MarsAllocator.Model.Check
import MarsAllocator.Model.Interface
import MarsAllocator.Model.Session
import MarsAllocator.Steps.Closed
import MarsAllocator.Steps.Entry
import MarsAllocator.Steps.Observe
import MarsAllocator.Steps.Headers
import MarsAllocator.Steps.Writes
import MarsAllocator.Steps.Seal
import MarsAllocator.Steps.Rescue
import MarsAllocator.Steps.Reads
import MarsAllocator.Steps.Confine
import MarsAllocator.Steps.Bins
import MarsAllocator.Steps.Search
import MarsAllocator.Steps.Sizes
import MarsAllocator.Steps.Loops
import MarsAllocator.Steps.Fast
import MarsAllocator.Steps.FastCore
import MarsAllocator.Steps.FastCalls
import MarsAllocator.Steps.FastEntry
import MarsAllocator.Steps.FastChecks
import MarsAllocator.Properties.Resizes
import MarsAllocator.Properties.Pointers
import MarsAllocator.Properties.Stale
import MarsAllocator.Properties.Promise
import MarsAllocator.Properties.Overflow
import MarsAllocator.Properties.Exactness
import MarsAllocator.Properties.RegistryMap
import MarsAllocator.Properties.RemoteFrees
import MarsAllocator.Properties.Lookups
import MarsAllocator.Properties.Adoption
import MarsAllocator.Properties.Locks
import MarsAllocator.Model.Modes
import MarsAllocator.Properties.Modes
import MarsAllocator.Properties.Binning
import MarsAllocator.Properties.Allocation
import MarsAllocator.Properties.Bootstrap
import MarsAllocator.Properties.Checksum
import MarsAllocator.Properties.Flips
import MarsAllocator.Properties.Confusion
import MarsAllocator.Properties.Payloads
import MarsAllocator.Properties.Undamaged
import MarsAllocator.Properties.Requests
import MarsAllocator.Properties.Simulation
import MarsAllocator.Properties.Accounts
import MarsAllocator.Properties.Bookkeeping
import MarsAllocator.Properties.Coverage
import MarsAllocator.Properties.Preloading
