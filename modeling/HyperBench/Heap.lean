import HyperBench.Page
import HyperBench.Printf

/-!
# `x86_64/heap.c`

The page allocator and the page-table construction of the kernel, with
`__fast_zero_page` of `x86_64/util.S` and `memset` of `lib/string.c`.

Pointers are physical addresses: the kernel runs on an identity map of the
memory it uses.  `Heap` is the memory, the head of the free list and the log
of what `heap.c` reads, writes and prints.  `Kernel` adds the other
variables of the file and the root register.

The two open loops of the file step a cursor by one page modulo `2 ^ 64`.
After `2 ^ 52` rounds the cursor is back where it started, so a loop that is
still running then is never left.  That is what the answer `none` means.
-/

namespace HyperBench

open ByteMem Loop Ascii Printf

/-! ## Memory, free list and log -/

/-- An access of `heap.c` to memory, or a text that it prints. -/
inductive Event where
  | load (addr len : Nat)
  | store (addr len : Nat)
  | print (text : List UInt8)
  deriving DecidableEq, Repr

/-- What `heap.c` works on. -/
structure Heap where
  mem : Mem
  /-- The accesses and prints so far, oldest first. -/
  log : List Event
  freelist : Nat

namespace Heap

def readWord (s : Heap) (a : Nat) : Nat × Heap :=
  (load s.mem a 8, { s with log := s.log ++ [.load a 8] })

def writeWord (s : Heap) (a v : Nat) : Heap :=
  { s with mem := store s.mem a 8 v, log := s.log ++ [.store a 8] }

def writeByte (s : Heap) (a : Nat) (c : UInt8) : Heap :=
  { s with mem := store s.mem a 1 c.toNat, log := s.log ++ [.store a 1] }

/-- A 32-bit field of a structure. -/
def readField (s : Heap) (a : Nat) : Nat × Heap :=
  (load s.mem a 4, { s with log := s.log ++ [.load a 4] })

def print (s : Heap) (text : List UInt8) : Heap :=
  { s with log := s.log ++ [.print text] }

end Heap

/-- `memset` of `lib/string.c`. -/
def memset (s : Heap) (a : Nat) (c : UInt8) (n : Nat) : Heap :=
  forUpTo (fun i s => s.writeByte (a + i) c) n s

/-- `__fast_zero_page`: `rep stosq` with a count of `0x200`. -/
def fastZeroPage (s : Heap) (page : Nat) : Heap :=
  forUpTo (fun i s => s.writeWord (page + 8 * i) 0) 0x200 s

/-! ## The page allocator -/

/-- The cursor of `get_free_pages` and what it has written. -/
structure Linker where
  mem : Nat
  heap : Heap

/-- One page on from `a`, modulo `2 ^ 64`. -/
def nextPage (a : Nat) : Nat := (a + PAGE_SIZE) % 2 ^ 64

/-- One round of the loop of `get_free_pages`. -/
def linkPage (c : Linker) : Linker :=
  ⟨nextPage c.mem, c.heap.writeWord c.mem (nextPage c.mem)⟩

def linkPages (stop : Nat) : Nat → Linker → Option Linker :=
  whileFuel (fun c => nextPage c.mem != stop) linkPage

/-- The answer is `none` when the loop is never left. -/
def getFreePages (s : Heap) (mem size : Nat) : Option (Nat × Heap) :=
  if size = 0 then some (0, s)
  else do
    let oldFreelist := s.freelist
    let s := { s with freelist := mem }
    let stop := (mem + size) % 2 ^ 64
    let c ← linkPages stop (2 ^ 52) ⟨mem, s⟩
    let s := c.heap.writeWord c.mem oldFreelist
    return (s.freelist, s)

/-- What `heap_alloc_page` prints when there is no page left. -/
def freelistUninitialized : List UInt8 := ascii "freelist uninitialized!\n"

def heapAllocPage (s : Heap) : Nat × Heap :=
  if s.freelist = 0 then (0, s.print freelistUninitialized)
  else
    let page := s.freelist
    let (next, s) := s.readWord page
    (page, fastZeroPage { s with freelist := next } page)

/-! ## Page-table construction -/

/-- The loop variables of `install_pte`. -/
structure PteCursor where
  pt : Nat
  ptPage : Nat
  heap : Heap

/-- The new table of one round: the page given by the caller once, else a
page of the free list. -/
def takeTable (s : Heap) (ptPage : Nat) : Nat × Heap :=
  if ptPage = 0 then heapAllocPage s else (ptPage, s)

/-- One round of the loop of `install_pte`. -/
def nextTable (virt level : Nat) (c : PteCursor) : PteCursor :=
  let slot := c.pt + 8 * PGDIR_OFFSET virt level
  let (e, s) := c.heap.readWord slot
  let (ptPage, s) :=
    if e &&& PT_PRESENT_MASK = 0 then
      let (newPt, s) := takeTable s c.ptPage
      let s := memset s newPt 0 PAGE_SIZE
      (0, s.writeWord slot (newPt ||| PT_PRESENT_MASK ||| PT_WRITABLE_MASK ||| PT_USER_MASK))
    else (c.ptPage, s)
  let (e, s) := s.readWord slot
  ⟨e &&& PT_ADDR_MASK, ptPage, s⟩

/-- The slot that was written, and the heap.  The levels from `PAGE_LEVEL`
down to `pteLevel + 1` are walked, and the entry goes into the table of
`pteLevel`. -/
def installPte (s : Heap) (cr3 pteLevel virt pte ptPage : Nat) : Nat × Heap :=
  let c := forUpTo (fun i c => nextTable virt (PAGE_LEVEL - i) c) (PAGE_LEVEL - pteLevel)
    ⟨cr3, ptPage, s⟩
  let slot := c.pt + 8 * PGDIR_OFFSET virt pteLevel
  (slot, c.heap.writeWord slot pte)

def installLargePage (s : Heap) (cr3 phys virt : Nat) : Nat × Heap :=
  installPte s cr3 2 virt
    (phys ||| PT_PRESENT_MASK ||| PT_WRITABLE_MASK ||| PT_USER_MASK ||| PT_PAGE_SIZE_MASK) 0

def installPage (s : Heap) (cr3 phys virt : Nat) : Nat × Heap :=
  installPte s cr3 1 virt (phys ||| PT_PRESENT_MASK ||| PT_WRITABLE_MASK ||| PT_USER_MASK) 0

/-- The loop variables of `install_pages`. -/
structure Mapper where
  phys : Nat
  virt : Nat
  heap : Heap

/-- One round of the loop of `install_pages`. -/
def mapPage (cr3 : Nat) (c : Mapper) : Mapper :=
  ⟨nextPage c.phys, nextPage c.virt, (installPage c.heap cr3 c.phys c.virt).2⟩

def mapPages (cr3 max : Nat) : Nat → Mapper → Option Mapper :=
  whileFuel (fun c => nextPage c.phys ≤ max) (mapPage cr3)

/-- The answer is `none` when the loop is never left. -/
def installPages (s : Heap) (cr3 phys len virt : Nat) : Option Heap := do
  let max := (len + phys) % 2 ^ 64
  let c ← mapPages cr3 max (2 ^ 52) ⟨phys, virt, s⟩
  return c.heap

/-! ## The kernel -/

/-- The variables of `heap.c` and the root register. -/
structure Kernel extends Heap where
  vfreeTop : Nat
  heapBase : Nat
  heapEnd : Nat
  firstMemInit : Bool
  startCr3 : Nat
  cr3 : Nat

/-- The cursor of `get_memory_map` and its sum. -/
structure MapReader where
  mmap : Nat
  heapEnd : Nat
  heap : Heap

/-- `sizeof(mmap_entry_t)`, and the offset of its `length`. -/
def mmapEntrySize : Nat := 24
def mmapLengthOffset : Nat := 12

/-- The offsets of `mem_upper`, `mmap_length` and `mmap_addr` in
`struct mbi_bootinfo`. -/
def memUpperOffset : Nat := 8
def mmapLengthFieldOffset : Nat := 44
def mmapAddrFieldOffset : Nat := 48

/-- One round of the loop of `get_memory_map`. -/
def readEntry (c : MapReader) : MapReader :=
  let (length, s) := c.heap.readWord (c.mmap + mmapLengthOffset)
  ⟨c.mmap + mmapEntrySize, (c.heapEnd + length) % 2 ^ 64, s⟩

/-- The limit `mmap_addr + mmap_length` is a 32-bit sum, so the loop is left
after at most `2 ^ 32` rounds. -/
def getMemoryMap (k : Kernel) (bootinfo : Nat) : Option Kernel := do
  let (mmapAddr, s) := k.toHeap.readField (bootinfo + mmapAddrFieldOffset)
  let (mmapLength, s) := s.readField (bootinfo + mmapLengthFieldOffset)
  let stop := (mmapAddr + mmapLength) % 2 ^ 32
  let c ← whileFuel (fun c => c.mmap < stop) readEntry (2 ^ 32 + 1) ⟨mmapAddr, 0, s⟩
  return { k with toHeap := c.heap, heapEnd := c.heapEnd }

/-- `a & (-PAGE_SIZE)`. -/
def pageFloor (a : Nat) : Nat := a / PAGE_SIZE * PAGE_SIZE

/-- `early_mem_init` in the build without `__BARE_METAL`. -/
def earlyMemInit (k : Kernel) (baseAddr bootinfo : Nat) : Option Kernel := do
  let (memUpper, s) := k.toHeap.readField (bootinfo + memUpperOffset)
  let endOfMemory := memUpper * 1024
  let text ← printf (fun _ => 0) (ascii "mbi->mem_upper = %lx\n") [.word endOfMemory]
  let k := { k with toHeap := s.print text }
  let k ← if k.firstMemInit then some k else
    (getMemoryMap { k with firstMemInit := true } bootinfo).map fun k =>
      { k with
        heapBase := pageFloor ((baseAddr + PAGE_SIZE - 1) % 2 ^ 64)
        heapEnd := pageFloor k.heapEnd }
  -- the list is emptied first, so the test of the source is always taken
  let s := { k.toHeap with freelist := 0 }
  let (_, s) ← getFreePages s k.heapBase ((endOfMemory + 2 ^ 64 - k.heapBase) % 2 ^ 64)
  return { k with toHeap := s }

/-- The new root, which is also in the root register now. -/
def setupMmu (k : Kernel) (endOfMemory : Nat) : Option (Nat × Kernel) := do
  let (cr3, s) := heapAllocPage k.toHeap
  let endOfMemory := if endOfMemory = 0 then 1 <<< 32 else endOfMemory
  let s ← installPages s cr3 0 endOfMemory 0
  return (cr3, { k with toHeap := s, startCr3 := k.cr3, cr3 := cr3 })

def switchToStartCr3 (k : Kernel) : Kernel := { k with cr3 := k.startCr3 }

/-- `alloc_vpages` without another processor in between. -/
def allocVpages (k : Kernel) (nr : Nat) : Nat × Kernel :=
  let top := (k.vfreeTop + 2 ^ 64 - PAGE_SIZE * nr % 2 ^ 64) % 2 ^ 64
  (top, { k with vfreeTop := top })

end HyperBench
