import Orderbook.Order

/-! # Id blocks

    `id_allocator.h`: a shared 64-bit counter that hands out half-open
    blocks of ids by one atomic `fetch_add` each. -/

namespace Orderbook

/-- The ids from `start` up to, but not including, `stop` (`_start`, `_end`). -/
structure OrderIdBlock where
  start : OrderId
  stop  : OrderId
  deriving DecidableEq, Repr

structure IdAllocator where
  blockSize     : OrderId
  globalCounter : OrderId
  deriving DecidableEq, Repr

namespace IdAllocator

/-- The allocator before it has handed out a block. -/
def new (blockSize : OrderId) : IdAllocator := ⟨blockSize, FIRST_ORDER_ID⟩

/-- `get_next_id_block`: one `fetch_add`, wrapping as the counter does. -/
def getNextIdBlock (alloc : IdAllocator) : OrderIdBlock × IdAllocator :=
  (⟨alloc.globalCounter, alloc.globalCounter + alloc.blockSize⟩,
    { alloc with globalCounter := alloc.globalCounter + alloc.blockSize })

end IdAllocator
end Orderbook
