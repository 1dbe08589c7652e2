import OpenQueue.Lib.CString
import OpenQueue.Lib.OrdMap
import OpenQueue.Lib.Pool
import Mathlib

/-!
# The declarations of `include/qdisc/sch_openqueue.h`

`struct oq_queue` is split into what a policy callback may read (`QueueInfo`) and
the two B-trees. The kernel's B-tree is an ordered map from `unsigned long` to the
address of a container list. A `struct sk_buff` is its address, which is all the
qdisc ever compares, and what it carries, which only the policy looks at.
-/

namespace OpenQueue

/-- A kernel address. -/
abbrev Addr := Nat

/-- `unsigned long`, the key of `btree_geo64` on a 64-bit kernel. -/
abbrev Key := Fin (2 ^ 64)

instance neZero_key : NeZero (2 ^ 64) := ⟨by decide⟩

/-- `TCQ_OQ_NAME_LEN`. -/
def tcqOqNameLen : Nat := 32

/-- `char name[TCQ_OQ_NAME_LEN + 1]`. -/
abbrev NameBuf := Lib.CharBuf (tcqOqNameLen + 1)

/-- `strncpy(dst, src, TCQ_OQ_NAME_LEN)`. -/
def NameBuf.copy (dst : NameBuf) (src : Lib.CStr) : NameBuf := dst.strncpy src tcqOqNameLen (Nat.le_succ _)

/-- `TCQ_OQ_MAX_QUEUE`, the number of slots in `oq_priv.queues`. -/
abbrev tcqOqMaxQueue : Nat := 16

/-- `OQ_CON_ACT_DROP_HEAD`. -/
def oqConActDropHead : Int := 1

/-- `OQ_CON_ACT_DROP_TAIL`. -/
def oqConActDropTail : Int := 2

/-- `OQ_CON_ACT_DROP_PKT`. -/
def oqConActDropPkt : Int := 3

/-- `NET_XMIT_SUCCESS` of `linux/netdevice.h`. -/
def netXmitSuccess : Int := 0

/-- `EINVAL` of `linux/errno.h`. -/
def eInval : Int := 22

/-- `ENOMEM` of `linux/errno.h`. -/
def eNoMem : Int := 12

/-- A slot of `oq_priv.queues`. -/
abbrev QId := Fin tcqOqMaxQueue

instance neZero_slots : NeZero tcqOqMaxQueue := ⟨by decide⟩

/-- `struct sk_buff`. -/
structure SkBuff (π : Type) where
  addr : Addr
  data : π
  deriving DecidableEq

/-- `struct oq_queue` without its trees. `ready` says that `btree_init` has given
the two trees their node pool, which `init_queue` does before it sets the rest. -/
structure QueueInfo where
  ready : Bool
  maxLen : BitVec 32
  len : BitVec 32
  dropped : BitVec 32
  total : BitVec 32
  name : NameBuf
  deriving DecidableEq

/-- `struct btree_head`, from a key to the address of a `struct skb_cont_list`. -/
abbrev BTree := Lib.OrdMap Key Addr

/-- `struct oq_queue`. -/
structure OqQueue extends QueueInfo where
  admnQ : BTree
  procQ : BTree

/-- One of the two trees of a queue. -/
inductive Side where
  | admn
  | proc
  deriving DecidableEq

def OqQueue.tree (q : OqQueue) : Side → BTree
  | .admn => q.admnQ
  | .proc => q.procQ

/-- The callbacks of `struct oq_priv`. `Ω` is whatever a routine reads besides its
arguments (the clock, random bits, the packets it has seen), so one callback may
answer two equal calls differently. -/
structure Callbacks (Ω π : Type) where
  congFn : Ω → QueueInfo → Bool
  congActFn : Ω → QueueInfo → SkBuff π → Int
  admnFn : Ω → QueueInfo → SkBuff π → Key
  procFn : Ω → QueueInfo → SkBuff π → Key
  qSelect : Ω → (QId → QueueInfo) → SkBuff π → Int
  schedFn : Ω → (QId → QueueInfo) → Int

/-- The results of the two `btree_insert` calls of one `do_enqueue`: `true` for 0,
`false` for `-ENOMEM`. -/
structure Inserts where
  admn : Bool
  proc : Bool
  deriving DecidableEq

/-- Both insertions get their memory. -/
def Inserts.ok : Inserts := ⟨true, true⟩

end OpenQueue
