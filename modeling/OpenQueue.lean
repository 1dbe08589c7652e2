import OpenQueue.Lib.Cyclic
import OpenQueue.Lib.OrdMap
import OpenQueue.Lib.Pool
import OpenQueue.Lib.Arrival
import OpenQueue.Lib.Service
import OpenQueue.Lib.Run
import OpenQueue.Lib.Moves
import OpenQueue.Lib.Lock
import OpenQueue.Lib.Progress
import OpenQueue.Lib.Lists
import OpenQueue.Lib.CString
import OpenQueue.Lib.CLayout
import OpenQueue.Lib.JavaText
import OpenQueue.Lib.Splitting
import OpenQueue.Lib.Lexer
import OpenQueue.Lib.Decimal
import OpenQueue.Lib.CInt
import OpenQueue.Lib.CLexical
import OpenQueue.Lib.PutMap
import OpenQueue.Kernel.Types
import OpenQueue.Kernel.Memory
import OpenQueue.Kernel.Queue
import OpenQueue.Kernel.Qdisc
import OpenQueue.Kernel.Registry
import OpenQueue.Kernel.Init
import OpenQueue.Kernel.Locking
import OpenQueue.Kernel.Netlink
import OpenQueue.Kernel.Attribute
import OpenQueue.Kernel.Modules
import OpenQueue.Sim.Index
import OpenQueue.Sim.Repr
import OpenQueue.Sim.Blocks
import OpenQueue.Sim.Queue
import OpenQueue.Sim.Port
import OpenQueue.Sim.Effects
import OpenQueue.Sim.Observe
import OpenQueue.Sim.Outcomes
import OpenQueue.Sim.Losses
import OpenQueue.Sim.Registry
import OpenQueue.Sim.Locking
import OpenQueue.Gen.Policy
import OpenQueue.Gen.Parser
import OpenQueue.Gen.Inline
import OpenQueue.Gen.Meaning
import OpenQueue.Gen.Accepted
import OpenQueue.Gen.Typed
import OpenQueue.Gen.Scope
import OpenQueue.Gen.Language
import OpenQueue.Gen.Complete
import OpenQueue.Gen.Grammar
import OpenQueue.Gen.Shape
import OpenQueue.Gen.Kept
import OpenQueue.Gen.Headers
import OpenQueue.Gen.Emit
import OpenQueue.Gen.Module
import OpenQueue.Gen.Dispatch
import OpenQueue.Gen.Document
import OpenQueue.Gen.Files
import OpenQueue.Kernel.Instances
import OpenQueue.Sim.Pools
import OpenQueue.Sim.Instances
import OpenQueue.Sim.Slots
import OpenQueue.Gen.Callbacks
import OpenQueue.Spec.Arrival
import OpenQueue.Spec.Refinement
import OpenQueue.Spec.Simulation
import OpenQueue.Spec.Rings
import OpenQueue.Spec.Calls
import OpenQueue.Spec.Accounting
import OpenQueue.Spec.Conservation
import OpenQueue.Spec.Order
import OpenQueue.Spec.Service
import OpenQueue.Spec.Interleaving
import OpenQueue.Spec.Fifo
import OpenQueue.Spec.Statistics
import OpenQueue.Spec.Occupancy
import OpenQueue.Spec.Status
import OpenQueue.Spec.Policies
import OpenQueue.Spec.Locking
import OpenQueue.Spec.Lookup
import OpenQueue.Spec.Unloading
import OpenQueue.Spec.Initialisation
import OpenQueue.Spec.Isolation
import OpenQueue.Spec.Caches
import OpenQueue.Spec.Lifecycle
import OpenQueue.Spec.Generated
import OpenQueue.Spec.QueueCount
import OpenQueue.Spec.Dump
import OpenQueue.Spec.Exceptions
import OpenQueue.Spec.Inline
import OpenQueue.Spec.Selection
import OpenQueue.Spec.Tokens
import OpenQueue.Spec.Reading
import OpenQueue.Spec.Prototypes
import OpenQueue.Spec.Layouts
import OpenQueue.Spec.Declarations
import OpenQueue.Spec.ModuleNames
import OpenQueue.Spec.Completeness
import OpenQueue.Spec.Faithful
import OpenQueue.Spec.Soundness
