import RtosKernel.Mutex
import RtosKernel.Lib.Memory
import RtosKernel.Lib.BlockList
import RtosKernel.Lib.Run

/-!
# The kernel heap (`heap.c`)

The block headers live in the memory that the heap hands out, so the model works on the bytes of that
memory: a `header_t` is three words at the address of the block, and every access of the C code is a
load or a store. `BlocksFrom` reads the block list off the memory, and `HeapSys` is the heap together
with its clients, who free only pointers they hold and write only inside their own payloads.
-/

namespace RtosKernel

open Lib

/-- `HEAP_START`. -/
def heapStart : UInt32 := 0x01000000

/-- `HEAP_SIZE`, the bytes of the heap with its headers. -/
def heapSize : UInt32 := 1024 * 1024 * 4

/-- `sizeof(header_t)`: three words. -/
def sizeofHeader : UInt32 := 12

/-- `header_t`: the words at offsets 0, 4 and 8 of a block. -/
structure Header where
  size : UInt32
  isFree : UInt32
  next : UInt32
  deriving DecidableEq

/-- The fields of the header at `h`. -/
def header (m : Mem) (h : UInt32) : Header :=
  ⟨m.load32 h, m.load32 (h + 4), m.load32 (h + 8)⟩

/-- `h->size = v` -/
def setSize (m : Mem) (h v : UInt32) : Mem := m.store32 h v

/-- `h->is_free = v` -/
def setIsFree (m : Mem) (h v : UInt32) : Mem := m.store32 (h + 4) v

/-- `h->next = v` -/
def setNext (m : Mem) (h v : UInt32) : Mem := m.store32 (h + 8) v

/-- The arena and `heap_mutex`. `heap_first` is never assigned: it is `heapStart`. -/
structure Heap where
  mem : Mem
  mutex : Mutex

/-- `init_heap()`: one free block, without its header as large as the heap. `heap_mutex` is free. -/
def initHeap (m : Mem) : Heap :=
  let m1 := setSize m heapStart (heapSize - sizeofHeader)
  let m2 := setIsFree m1 heapStart 1
  let m3 := setNext m2 heapStart 0
  { mem := m3, mutex := mutexInit }

/-- The size rounded up to a multiple of 4; it wraps around for the three largest sizes. -/
def roundSize (size : UInt32) : UInt32 :=
  if size % 4 ≠ 0 then size + (4 - size % 4) else size

/-- The split of the block `curr` by `kmalloc`, in the order of the C assignments. -/
def splitBlock (m : Mem) (curr size : UInt32) : Mem :=
  let nextBlock := curr + sizeofHeader + size
  let m1 := setSize m nextBlock ((header m curr).size - size - sizeofHeader)
  let m2 := setIsFree m1 nextBlock 1
  let m3 := setNext m2 nextBlock (header m2 curr).next
  let m4 := setSize m3 curr size
  setNext m4 curr nextBlock

/-- One pass of the loop of `kmalloc`. -/
def kmallocBody (m : Mem) (size curr : UInt32) : Except Stop (UInt32 ⊕ (UInt32 × Mem)) :=
  if curr = 0 then .ok (.inr (0, m))
  else if (header m curr).isFree ≠ 0 ∧ size ≤ (header m curr).size then
    let m1 := if size + sizeofHeader + 16 ≤ (header m curr).size then splitBlock m curr size else m
    .ok (.inr (curr + sizeofHeader, setIsFree m1 curr 0))
  else .ok (.inl (header m curr).next)

/-- `kmalloc(size)`. The rounding of the size wraps around. -/
def kmalloc (c : Caller) (size : UInt32) (h : Heap) : Except Stop (UInt32 × Heap) :=
  if size = 0 then pure (0, h)
  else do
    let mx ← mutexLock c h.mutex
    let (p, m) ← loop .spent (kmallocBody h.mem (roundSize size)) c.fuel heapStart
    pure (p, { mem := m, mutex := mutexUnlock c.task mx })

/-- One pass of the merging loop of `kfree`. -/
def mergeBody : Mem × UInt32 → Except Stop ((Mem × UInt32) ⊕ Mem)
  | (m, curr) =>
    if curr ≠ 0 ∧ (header m curr).next ≠ 0 then
      if (header m curr).isFree ≠ 0 ∧ (header m (header m curr).next).isFree ≠ 0 then
        let m1 := setSize m curr
          ((header m curr).size + (sizeofHeader + (header m (header m curr).next).size))
        let m2 := setNext m1 curr (header m1 (header m1 curr).next).next
        .ok (.inl (m2, curr))
      else .ok (.inl (m, (header m curr).next))
    else .ok (.inr m)

/-- `kfree(ptr)`: the word at `ptr - 8` is set, whatever `ptr` is, and then the list is merged from its start. -/
def kfree (c : Caller) (ptr : UInt32) (h : Heap) : Except Stop Heap :=
  if ptr = 0 then pure h
  else do
    let mx ← mutexLock c h.mutex
    let m ← loop .spent mergeBody c.fuel (setIsFree h.mem (ptr - sizeofHeader) 1, heapStart)
    pure { mem := m, mutex := mutexUnlock c.task mx }

/-- One pass of the summing loop of `heap_get_used`. -/
def usedBody (m : Mem) : UInt32 × UInt32 → Except Stop ((UInt32 × UInt32) ⊕ UInt32)
  | (used, curr) =>
    if curr = 0 then .ok (.inr used)
    else
      let used' := if (header m curr).isFree = 0 then used + ((header m curr).size + sizeofHeader) else used
      .ok (.inl (used', (header m curr).next))

/-- `heap_get_used()`: the sizes of the blocks in use, without their headers. -/
def heapGetUsed (c : Caller) (h : Heap) : Except Stop (UInt32 × Heap) := do
  let mx ← mutexLock c h.mutex
  let used ← loop .spent (usedBody h.mem) c.fuel (0, heapStart)
  pure (used, { h with mutex := mutexUnlock c.task mx })

/-- `heap_get_free()`, which counts the headers as free. -/
def heapGetFree (c : Caller) (h : Heap) : Except Stop (UInt32 × Heap) := do
  let (used, h') ← heapGetUsed c h
  pure (heapSize - used, h')

/-! ## The block list -/

/-- The block list reached from the header pointer `a` through the `next` fields. -/
def BlocksFrom (m : Mem) : UInt32 → List Block → Prop
  | a, [] => a = 0
  | a, b :: bs =>
    a ≠ 0 ∧ a.toNat = b.addr ∧ (header m a).size.toNat = b.size ∧
      (header m a).isFree = (if b.free then 1 else 0) ∧ BlocksFrom m (header m a).next bs

/-- The bytes of the live blocks, headers included. -/
def usedBytes (bs : List Block) : ℕ :=
  ((bs.filter fun b => !b.free).map fun b => b.size + 12).sum

/-! ## The heap and its clients -/

/-- The heap with the allocations its clients hold: payload address and granted size. -/
structure HeapSys where
  heap : Heap
  live : List (UInt32 × UInt32)

/-- What the clients of the heap do. -/
inductive HeapOp where
  /-- A call of `kmalloc`. -/
  | kmalloc (who : Caller) (size : UInt32)
  /-- A call of `kfree` on a pointer that is held; on any other pointer no call is made. -/
  | kfree (who : Caller) (ptr : UInt32)
  /-- A client stores a byte at an offset of a payload that it holds. -/
  | write (ptr off : UInt32) (v : UInt8)

/-- An operation, with the pointers that are held afterwards. -/
def heapStep (fuel : ℕ) (s : HeapSys) : HeapOp → Except Stop HeapSys
  | .kmalloc who size => do
    let (p, h) ← kmalloc (who.withFuel fuel) size s.heap
    -- the granted size is the size field of the block that was returned
    let live := if p = 0 then s.live else (p, (header h.mem (p - sizeofHeader)).size) :: s.live
    pure { heap := h, live := live }
  | .kfree who ptr =>
    if ptr ∈ s.live.map Prod.fst then do
      let h ← kfree (who.withFuel fuel) ptr s.heap
      pure { heap := h, live := s.live.filter fun a => a.1 ≠ ptr }
    else pure s
  | .write ptr off v =>
    if s.live.any fun a => a.1 = ptr ∧ off < a.2 then
      pure { s with heap := { s.heap with mem := s.heap.mem.store8 (ptr + off) v } }
    else pure s

/-- The state that `init_heap` builds, on a memory of any contents. -/
def bootHeap (m : Mem) : HeapSys := { heap := initHeap m, live := [] }

end RtosKernel
