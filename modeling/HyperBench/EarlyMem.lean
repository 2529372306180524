import HyperBench.FreeList

/-!
# `early_mem_init`

What the first call of `early_mem_init` reads, prints and links.  The pages
that it links are those from `heap_base` to `mem_upper * 1024`, modulo
`2 ^ 64`.

* `earlyMemInit_eq_some`: the call ends when the difference of the two is a
  whole number of pages, and `EarlyMem` says what it leaves behind.
* `earlyMemInit_eq_none`: otherwise the loop of `get_free_pages` steps over
  its end and is never left.
* `earlyMemInit_ready_iff`: for which boot information the free list has
  exactly the pages of the heap.
-/

namespace HyperBench

open ByteMem Loop Ascii Printf

/-! ## The memory map -/

/-- The limit of the loop of `get_memory_map`. -/
def mmapStop (m : Mem) (bootinfo : Nat) : Nat :=
  (load m (bootinfo + mmapAddrFieldOffset) 4 + load m (bootinfo + mmapLengthFieldOffset) 4) % 2 ^ 32

/-- The number of entries that `get_memory_map` reads. -/
def mmapEntries (m : Mem) (bootinfo : Nat) : Nat :=
  (mmapStop m bootinfo - load m (bootinfo + mmapAddrFieldOffset) 4 + 23) / 24

/-- The reads of `get_memory_map`. -/
def mapReads (m : Mem) (bootinfo : Nat) : List Event :=
  .load (bootinfo + mmapAddrFieldOffset) 4 :: .load (bootinfo + mmapLengthFieldOffset) 4 ::
    (List.range (mmapEntries m bootinfo)).map fun i =>
      .load (load m (bootinfo + mmapAddrFieldOffset) 4 + 24 * i + 12) 8

theorem readEntry_iterate (c : MapReader) (n : Nat) :
    (readEntry^[n] c).mmap = c.mmap + 24 * n ∧
      (readEntry^[n] c).heap = { c.heap with
        log := c.heap.log ++ (List.range n).map fun i => .load (c.mmap + 24 * i + 12) 8 } := by
  induction n with
  | zero => simp
  | succ n ih =>
    rw [Function.iterate_succ_apply', readEntry]
    refine ⟨?_, ?_⟩
    · show (readEntry^[n] c).mmap + 24 = _
      rw [ih.1]
      omega
    · rw [Heap.readWord, ih.1, ih.2, List.range_succ, List.map_append, ← List.append_assoc]
      rfl

theorem getMemoryMap_eq (k : Kernel) (bootinfo : Nat) :
    ∃ heapEnd, getMemoryMap k bootinfo = some { k with
      log := k.log ++ mapReads k.mem bootinfo
      heapEnd := heapEnd } := by
  have hstop : mmapStop k.mem bootinfo < 2 ^ 32 := Nat.mod_lt _ (by decide)
  generalize hc : (⟨load k.mem (bootinfo + mmapAddrFieldOffset) 4, 0, { k.toHeap with
    log := k.log ++ [.load (bootinfo + mmapAddrFieldOffset) 4] ++
      [.load (bootinfo + mmapLengthFieldOffset) 4] }⟩ : MapReader) = c
  have hmmap : c.mmap = load k.mem (bootinfo + mmapAddrFieldOffset) 4 := by rw [← hc]
  have hloop : whileFuel (fun c => decide (c.mmap < mmapStop k.mem bootinfo)) readEntry (2 ^ 32 + 1) c
      = some (readEntry^[mmapEntries k.mem bootinfo] c) := by
    apply whileFuel_eq_iterate
    · unfold mmapEntries
      omega
    · intro i hi
      rw [(readEntry_iterate c i).1, hmmap, decide_eq_true_iff]
      unfold mmapEntries at hi
      omega
    · rw [(readEntry_iterate c _).1, hmmap, decide_eq_false_iff_not]
      unfold mmapEntries
      omega
  refine ⟨(readEntry^[mmapEntries k.mem bootinfo] c).heapEnd, ?_⟩
  have hrun : getMemoryMap k bootinfo
      = (whileFuel (fun c => decide (c.mmap < mmapStop k.mem bootinfo)) readEntry (2 ^ 32 + 1) c).bind
          fun c => some { k with toHeap := c.heap, heapEnd := c.heapEnd } := by
    rw [← hc]
    rfl
  have hlog : k.log ++ mapReads k.mem bootinfo
      = c.heap.log ++ (List.range (mmapEntries k.mem bootinfo)).map
          fun i => .load (c.mmap + 24 * i + 12) 8 := by
    rw [hmmap, ← hc, mapReads, List.append_assoc, List.append_assoc]
    rfl
  rw [hrun, hloop, Option.bind_some, (readEntry_iterate c _).2, hlog, ← hc]

/-! ## The pages that are linked -/

def endOfMemory (m : Mem) (bootinfo : Nat) : Nat := load m (bootinfo + memUpperOffset) 4 * 1024

/-- The value of `heap_base`. -/
def heapBase (baseAddr : Nat) : Nat := pageFloor ((baseAddr + PAGE_SIZE - 1) % 2 ^ 64)

/-- The size of the region, which is an unsigned difference. -/
def heapSize (m : Mem) (baseAddr bootinfo : Nat) : Nat :=
  (endOfMemory m bootinfo + 2 ^ 64 - heapBase baseAddr) % 2 ^ 64

def linkedPages (m : Mem) (baseAddr bootinfo : Nat) : List Nat :=
  regionPages (heapBase baseAddr) (heapSize m baseAddr bootinfo / 4096)

theorem heapBase_aligned (baseAddr : Nat) : heapBase baseAddr % 4096 = 0 := by
  unfold heapBase pageFloor
  rw [PAGE_SIZE_eq]
  omega

theorem heapBase_lt (baseAddr : Nat) : heapBase baseAddr < 2 ^ 64 := by
  unfold heapBase pageFloor
  rw [PAGE_SIZE_eq]
  omega

theorem endOfMemory_lt (m : Mem) (bootinfo : Nat) : endOfMemory m bootinfo < 2 ^ 42 := by
  have hlt := load_lt m (bootinfo + memUpperOffset) 4
  unfold endOfMemory
  omega

/-- What `early_mem_init` reads and prints in front of `get_free_pages`. -/
def initReads (m : Mem) (bootinfo : Nat) (text : List UInt8) : List Event :=
  .load (bootinfo + memUpperOffset) 4 :: .print text :: mapReads m bootinfo

/-- What the first call of `early_mem_init` leaves behind. -/
structure EarlyMem (k : Kernel) (baseAddr bootinfo : Nat) (k' : Kernel) : Prop where
  vfreeTop : k'.vfreeTop = k.vfreeTop
  cr3 : k'.cr3 = k.cr3
  log : ∃ text, k'.log = k.log ++ initReads k.mem bootinfo text ++
    (linkedPages k.mem baseAddr bootinfo).map (.store · 8)
  donated : heapSize k.mem baseAddr bootinfo ≠ 0 →
    ∃ s, s.mem = k.mem ∧ s.freelist = 0 ∧
      Donated s (heapBase baseAddr) (heapSize k.mem baseAddr bootinfo / 4096) k'.toHeap
  empty : heapSize k.mem baseAddr bootinfo = 0 → k'.freelist = 0 ∧ k'.mem = k.mem

theorem printf_memUpper (w : Nat) :
    ∃ text, printf (fun _ => 0) (ascii "mbi->mem_upper = %lx\n") [.word w] = some text :=
  ⟨_, rfl⟩

section EarlyMem

variable {k k' : Kernel} {baseAddr bootinfo : Nat}

/-- Everything in front of `get_free_pages` comes to its end. -/
theorem earlyMemInit_eq (hfirst : k.firstMemInit = false) (baseAddr bootinfo : Nat) :
    ∃ text heapEnd, earlyMemInit k baseAddr bootinfo
      = (getFreePages ⟨k.mem, k.log ++ initReads k.mem bootinfo text, 0⟩ (heapBase baseAddr)
          (heapSize k.mem baseAddr bootinfo)).map fun r => { k with
            toHeap := r.2
            heapBase := heapBase baseAddr
            heapEnd := heapEnd
            firstMemInit := true } := by
  rcases printf_memUpper (endOfMemory k.mem bootinfo) with ⟨text, htext⟩
  rcases getMemoryMap_eq { k with
    log := k.log ++ [.load (bootinfo + memUpperOffset) 4] ++ [.print text]
    firstMemInit := true } bootinfo with ⟨heapEnd, hmap⟩
  refine ⟨text, pageFloor heapEnd, ?_⟩
  rw [endOfMemory] at htext
  rw [earlyMemInit]
  dsimp only [Heap.readField, Heap.print]
  rw [htext, Option.bind_eq_bind, Option.bind_some, hfirst, if_neg Bool.false_ne_true, hmap,
    Option.map_some, Option.bind_eq_bind, Option.bind_some]
  dsimp only
  have hlog : k.log ++ [.load (bootinfo + memUpperOffset) 4] ++ [.print text] ++ mapReads k.mem bootinfo
      = k.log ++ initReads k.mem bootinfo text := by
    rw [initReads, List.append_assoc, List.append_assoc]
    rfl
  rw [hlog]
  change (getFreePages ⟨k.mem, k.log ++ initReads k.mem bootinfo text, 0⟩ (heapBase baseAddr)
    (heapSize k.mem baseAddr bootinfo) >>= _) = _
  cases getFreePages ⟨k.mem, k.log ++ initReads k.mem bootinfo text, 0⟩ (heapBase baseAddr)
    (heapSize k.mem baseAddr bootinfo) <;> rfl

theorem earlyMemInit_eq_some (hfirst : k.firstMemInit = false)
    (hsize : heapSize k.mem baseAddr bootinfo % 4096 = 0) :
    ∃ k', earlyMemInit k baseAddr bootinfo = some k' ∧ EarlyMem k baseAddr bootinfo k' := by
  rcases earlyMemInit_eq hfirst baseAddr bootinfo with ⟨text, heapEnd, hrun⟩
  generalize hn : heapSize k.mem baseAddr bootinfo / 4096 = n
  have hlt : heapSize k.mem baseAddr bootinfo < 2 ^ 64 := Nat.mod_lt _ (by decide)
  have hmul : heapSize k.mem baseAddr bootinfo = 4096 * n := by omega
  rcases Nat.eq_zero_or_pos n with hzero | hpos
  · have hempty : heapSize k.mem baseAddr bootinfo = 0 := by omega
    rw [hrun, hempty, getFreePages, if_pos rfl]
    refine ⟨_, rfl, rfl, rfl, ⟨text, ?_⟩, fun hne => absurd hempty hne, fun _ => ⟨rfl, rfl⟩⟩
    rw [linkedPages, hn, hzero]
    simp [regionPages]
  · have hzero : (0 : Nat) < 2 ^ 64 := by decide
    rcases getFreePages_eq (s := ⟨k.mem, k.log ++ initReads k.mem bootinfo text, 0⟩)
      (heapBase_aligned baseAddr) (heapBase_lt baseAddr) hpos (by omega) hzero
      with ⟨t, hget, hdonated⟩
    rw [hrun, hmul, hget]
    refine ⟨_, rfl, rfl, rfl, ⟨text, ?_⟩,
      fun _ => ⟨⟨k.mem, k.log ++ initReads k.mem bootinfo text, 0⟩, rfl, rfl, ?_⟩, fun hempty => ?_⟩
    · show t.log = _
      rw [hdonated.log, linkedPages, hn, regionPages, List.map_map]
      rfl
    · rw [hn]
      exact hdonated
    · omega

theorem earlyMemInit_eq_none (hfirst : k.firstMemInit = false)
    (hsize : heapSize k.mem baseAddr bootinfo % 4096 ≠ 0) : earlyMemInit k baseAddr bootinfo = none := by
  rcases earlyMemInit_eq hfirst baseAddr bootinfo with ⟨text, heapEnd, hrun⟩
  rw [hrun, getFreePages_eq_none (heapBase_aligned baseAddr) hsize]
  rfl

/-- The state behind an `early_mem_init` that ended. -/
theorem earlyMem_of_eq_some (hfirst : k.firstMemInit = false)
    (hrun : earlyMemInit k baseAddr bootinfo = some k') :
    heapSize k.mem baseAddr bootinfo % 4096 = 0 ∧ EarlyMem k baseAddr bootinfo k' := by
  by_cases hsize : heapSize k.mem baseAddr bootinfo % 4096 = 0
  · rcases earlyMemInit_eq_some hfirst hsize with ⟨k'', hrun', hearly⟩
    obtain rfl : k'' = k' := Option.some.inj (hrun'.symm.trans hrun)
    exact ⟨hsize, hearly⟩
  · rw [earlyMemInit_eq_none hfirst hsize] at hrun
    exact nomatch hrun

/-- When memory ends behind the heap base, the difference does not wrap
around. -/
theorem heapSize_eq {m : Mem} (hle : heapBase baseAddr ≤ endOfMemory m bootinfo) :
    heapSize m baseAddr bootinfo = endOfMemory m bootinfo - heapBase baseAddr := by
  have hlt := endOfMemory_lt m bootinfo
  unfold heapSize
  omega

theorem mem_linkedPages {m : Mem} (hle : heapBase baseAddr ≤ endOfMemory m bootinfo) {p : Nat} :
    p ∈ linkedPages m baseAddr bootinfo ↔
      p % 4096 = 0 ∧ heapBase baseAddr ≤ p ∧ p + 4096 ≤ endOfMemory m bootinfo := by
  have hlt := endOfMemory_lt m bootinfo
  have hal := heapBase_aligned baseAddr
  rw [linkedPages, regionPages, heapSize_eq hle, List.mem_map]
  constructor
  · rintro ⟨i, hi, rfl⟩
    rw [List.mem_range] at hi
    unfold pageFrom
    omega
  · rintro ⟨ha, hlow, hhigh⟩
    refine ⟨(p - heapBase baseAddr) / 4096, ?_, ?_⟩
    · rw [List.mem_range]
      omega
    · unfold pageFrom
      omega

/-- The free list behind `early_mem_init`. -/
theorem EarlyMem.freeList (h : EarlyMem k baseAddr bootinfo k') (hpos : 0 < heapBase baseAddr)
    (hle : heapBase baseAddr ≤ endOfMemory k.mem bootinfo)
    (hsize : heapSize k.mem baseAddr bootinfo % 4096 = 0) :
    FreeList k'.toHeap (linkedPages k.mem baseAddr bootinfo) := by
  have hlt := endOfMemory_lt k.mem bootinfo
  have hal := heapBase_aligned baseAddr
  by_cases hzero : heapSize k.mem baseAddr bootinfo = 0
  · have hnil : linkedPages k.mem baseAddr bootinfo = [] := by
      rw [linkedPages, hzero]
      rfl
    rw [hnil]
    exact ⟨(h.empty hzero).1, List.nodup_nil, by simp, by simp⟩
  · rcases h.donated hzero with ⟨s, _, hfreelist, hdonated⟩
    have hnil : FreeList s [] := ⟨hfreelist, List.nodup_nil, by simp, by simp⟩
    have hbelow := heapSize_eq hle
    have hfree := hdonated.freeList hnil hal (heapBase_lt baseAddr) (by omega) (by omega)
      (fun i hi => by unfold pageFrom; omega) (by simp)
    rwa [List.append_nil] at hfree

end EarlyMem

/-! ## The free list that the boot information asks for -/

/-- The free list is exactly the whole pages from `heap_base` to the end of
memory, and nothing else was written. -/
structure HeapReady (k : Kernel) (baseAddr bootinfo : Nat) (k' : Kernel) (ps : List Nat) : Prop where
  free : FreeList k'.toHeap ps
  pages : ∀ a, a ∈ ps ↔
    a % 4096 = 0 ∧ heapBase baseAddr ≤ a ∧ a + 4096 ≤ endOfMemory k.mem bootinfo
  frame : ∀ x, ¬ Pages ps x → k'.mem x = k.mem x
  stores : ∃ es, k'.log = k.log ++ es ∧
    ∀ a n, Event.store a n ∈ es → ∀ x, InRange a n x → Pages ps x

section Ready

variable {k k' : Kernel} {baseAddr bootinfo : Nat} {ps : List Nat}

/-- The stores of `early_mem_init` link its pages. -/
theorem EarlyMem.stores (h : EarlyMem k baseAddr bootinfo k') :
    ∃ es, k'.log = k.log ++ es ∧ ∀ a n, Event.store a n ∈ es →
      ∀ x, InRange a n x → Pages (linkedPages k.mem baseAddr bootinfo) x := by
  obtain ⟨text, hlog⟩ := h.log
  refine ⟨_, by rw [hlog, List.append_assoc], ?_⟩
  intro a n hmem x hx
  rcases List.mem_append.1 hmem with hmem | hmem
  · exact absurd hmem (by simp [initReads, mapReads])
  · obtain ⟨p, hp, heq⟩ := List.mem_map.1 hmem
    cases heq
    refine ⟨_, hp, ?_⟩
    unfold OnPage InRange at *
    omega

theorem EarlyMem.frame (h : EarlyMem k baseAddr bootinfo k') {x : Nat}
    (hx : ¬ Pages (linkedPages k.mem baseAddr bootinfo) x) : k'.mem x = k.mem x := by
  by_cases hzero : heapSize k.mem baseAddr bootinfo = 0
  · rw [(h.empty hzero).2]
  · obtain ⟨s, hmem, _, hdonated⟩ := h.donated hzero
    rw [hdonated.frame x, hmem]
    intro j hj hin
    refine hx ⟨_, List.mem_map.2 ⟨j, List.mem_range.2 hj, rfl⟩, ?_⟩
    unfold OnPage InRange at *
    omega

/-- The head of the list. -/
theorem EarlyMem.freelist_eq (h : EarlyMem k baseAddr bootinfo k')
    (hne : heapSize k.mem baseAddr bootinfo ≠ 0) : k'.freelist = heapBase baseAddr := by
  obtain ⟨s, _, _, hdonated⟩ := h.donated hne
  exact hdonated.freelist

/-- The pages are whole when `mem_upper` is a multiple of 4 KB. -/
theorem heapSize_whole_iff (m : Mem) (baseAddr bootinfo : Nat) :
    heapSize m baseAddr bootinfo % 4096 = 0 ↔ load m (bootinfo + memUpperOffset) 4 % 4 = 0 := by
  have hal := heapBase_aligned baseAddr
  have hlt := heapBase_lt baseAddr
  unfold heapSize endOfMemory
  omega

/-- A list that is right has its head where the heap starts. -/
theorem HeapReady.bounds (h : HeapReady k baseAddr bootinfo k' ps)
    (hearly : EarlyMem k baseAddr bootinfo k')
    (hsize : heapSize k.mem baseAddr bootinfo % 4096 = 0) :
    heapBase baseAddr ≤ endOfMemory k.mem bootinfo ∧
      (heapBase baseAddr = 0 → endOfMemory k.mem bootinfo = 0) := by
  have hend := endOfMemory_lt k.mem bootinfo
  have hbase := heapBase_lt baseAddr
  have hal := heapBase_aligned baseAddr
  have hval : heapSize k.mem baseAddr bootinfo
      = (endOfMemory k.mem bootinfo + 2 ^ 64 - heapBase baseAddr) % 2 ^ 64 := rfl
  by_cases hzero : heapSize k.mem baseAddr bootinfo = 0
  · omega
  · have hchain := h.free.chain
    rw [hearly.freelist_eq hzero] at hchain
    cases ps with
    | nil =>
      -- an empty list has the head 0, but then page 0 belongs to the heap
      have hbase0 : heapBase baseAddr = 0 := hchain
      have hmem := (h.pages 0).2 ⟨rfl, Nat.le_of_eq hbase0, by omega⟩
      cases hmem
    | cons p ps =>
      obtain ⟨hhead, hne, _⟩ := hchain
      have hmem := ((h.pages p).1 List.mem_cons_self).2.2
      omega

/-- The first call of `early_mem_init` ends with the right free list exactly
when `mem_upper` is a multiple of 4 KB, memory does not end in front of the
heap base, and a heap that starts at 0 is empty. -/
theorem earlyMemInit_ready_iff (hfirst : k.firstMemInit = false) (baseAddr bootinfo : Nat) :
    (∃ k' ps, earlyMemInit k baseAddr bootinfo = some k' ∧ HeapReady k baseAddr bootinfo k' ps) ↔
      load k.mem (bootinfo + memUpperOffset) 4 % 4 = 0 ∧
        heapBase baseAddr ≤ endOfMemory k.mem bootinfo ∧
        (heapBase baseAddr = 0 → endOfMemory k.mem bootinfo = 0) := by
  constructor
  · intro hready
    obtain ⟨k', ps, hrun, hready⟩ := hready
    obtain ⟨hsize, hearly⟩ := earlyMem_of_eq_some hfirst hrun
    exact ⟨(heapSize_whole_iff _ _ _).1 hsize, hready.bounds hearly hsize⟩
  · intro hcond
    obtain ⟨hupper, hle, hzero⟩ := hcond
    have hsize := (heapSize_whole_iff k.mem baseAddr bootinfo).2 hupper
    obtain ⟨k', hrun, hearly⟩ := earlyMemInit_eq_some hfirst hsize
    refine ⟨k', linkedPages k.mem baseAddr bootinfo, hrun, ?_, fun a => mem_linkedPages hle,
      fun x => hearly.frame, hearly.stores⟩
    by_cases hpos : 0 < heapBase baseAddr
    · exact hearly.freeList hpos hle hsize
    · -- nothing to link
      have hempty : heapSize k.mem baseAddr bootinfo = 0 := by
        rw [heapSize_eq hle]
        omega
      have hnil : linkedPages k.mem baseAddr bootinfo = [] := by
        rw [linkedPages, hempty]
        rfl
      rw [hnil]
      exact ⟨(hearly.empty hempty).1, List.nodup_nil, by simp, by simp⟩

end Ready

/-- A kernel at boot, whose boot information at 0 has `mem_upper` and an empty
memory map. -/
def upperKernel (memUpper : Nat) : Kernel :=
  ⟨⟨store (fun _ => 0) memUpperOffset 4 memUpper, [], 0⟩, 0, 0, 0, false, 0, 0⟩

theorem load_upperKernel {memUpper : Nat} (h : memUpper < 2 ^ 32) :
    load (upperKernel memUpper).mem (0 + memUpperOffset) 4 = memUpper := by
  rw [Nat.zero_add]
  exact (load_store_same _ _ _ _).trans (Nat.mod_eq_of_lt h)

/-- Eight megabytes, and a heap that starts at five. -/
theorem earlyMemInit_ready_eightMegabytes :
    ∃ k' ps, earlyMemInit (upperKernel 0x2000) 0x500000 0 = some k' ∧
      HeapReady (upperKernel 0x2000) 0x500000 0 k' ps := by
  have hupper : load (upperKernel 0x2000).mem (0 + memUpperOffset) 4 = 0x2000 :=
    load_upperKernel (by decide)
  have hend : endOfMemory (upperKernel 0x2000).mem 0 = 0x800000 := by
    rw [endOfMemory, hupper]
  refine (earlyMemInit_ready_iff (by rfl) 0x500000 0).2 ⟨?_, ?_, ?_⟩
  · rw [hupper]
  · rw [hend]
    decide
  · intro hbase
    exact absurd hbase (by decide)

/-- Memory that ends in the middle of a page: the loop is never left. -/
theorem earlyMemInit_never_ends_halfPage :
    load (upperKernel 0x1fffe).mem (0 + memUpperOffset) 4 = 0x1fffe ∧
      earlyMemInit (upperKernel 0x1fffe) 0x500000 0 = none := by
  have hupper : load (upperKernel 0x1fffe).mem (0 + memUpperOffset) 4 = 0x1fffe :=
    load_upperKernel (by decide)
  refine ⟨hupper, earlyMemInit_eq_none (by rfl) fun hsize => ?_⟩
  rw [heapSize_whole_iff, hupper] at hsize
  exact absurd hsize (by decide)

end HyperBench
