import HyperBench.EarlyMem
import HyperBench.Space

/-!
# Cold memory

`memory-cold` reads one byte at the start of each page of a fixed window of
physical memory.  `ColdRun` is what it is for: the reads go to different
pages that neither `early_mem_init` nor the page-table construction has
touched before.

* `coldWindow_of_cold`: it needs `early_mem_init` to miss the window, but
  that links every page between the heap base and the end of memory.
* `cold_of_space`: with enough pages this is also enough, for every list of
  benchmarks whose descriptor stores miss the linked pages.
-/

namespace HyperBench

open ByteMem Radix

/-! ## The promise -/

/-- The bytes of the pages that `memory-cold` reads. -/
def InWindow (x : Nat) : Prop := InRange (0x4000 * 4096) (COLD_ACCESS * 4096) x

/-- What the reads of `memory-cold` find behind its `init`. -/
structure Cold (g : Guest) : Prop where
  starts : ∀ va ∈ coldReads, va % 4096 = 0
  different : coldReads.Nodup
  frames : ∀ va ∈ coldReads, g.translate va = some va
  never : ∀ va ∈ coldReads, ∀ e ∈ g.log, e.Within fun x => ¬ OnPage va x

/-- The benchmarks `js` and then the `init` of `memory-cold`. -/
def ColdRun (g₀ : Guest) (js : List Job) : Prop :=
  ∃ g, execAll g₀ (jobOps js ++ memoryCold.init) = some g ∧ Cold g

/-- The variables of `heap.c` before `early_mem_init`. -/
structure AtBoot (k : Kernel) : Prop where
  log : k.log = []
  vfreeTop : k.vfreeTop = 0
  firstMemInit : k.firstMemInit = false

/-- The guest in front of the first benchmark. -/
def Guest.boot (k : Kernel) (vars : Vars) : Guest where
  toKernel := k
  vars := vars
  roots := []
  loaded := []
  own := []

/-- `early_mem_init` misses the window. -/
structure ColdWindow (m : Mem) (baseAddr bootinfo : Nat) : Prop where
  reads : ∀ a n, .load a n ∈ initReads m bootinfo [] → ∀ x, InRange a n x → ¬ InWindow x
  pages : ∀ p ∈ linkedPages m baseAddr bootinfo, ¬ InWindow p

/-! ## The window -/

theorem coldReads_nodup : coldReads.Nodup := by
  rw [coldReads]
  refine List.Nodup.map_on (fun i hi j hj heq => ?_) List.nodup_range
  rw [coldPtr_eq (List.mem_range.1 hi), coldPtr_eq (List.mem_range.1 hj)] at heq
  omega

theorem inWindow_iff {x : Nat} : InWindow x ↔ ∃ va ∈ coldReads, OnPage va x := by
  constructor
  · intro hx
    unfold InWindow InRange COLD_ACCESS at hx
    have hi : x / 4096 - 0x4000 < COLD_ACCESS := by
      unfold COLD_ACCESS
      omega
    refine ⟨x / 4096 * 4096, mem_coldReads.2 ⟨_, hi, by omega⟩, ?_⟩
    unfold OnPage InRange
    constructor <;> omega
  · rintro ⟨va, hva, hx⟩
    rcases mem_coldReads.1 hva with ⟨i, hi, rfl⟩
    unfold COLD_ACCESS at hi
    unfold OnPage InRange at hx
    unfold InWindow InRange COLD_ACCESS
    constructor <;> omega

/-- A page starts in the window when one of its bytes is there. -/
theorem InWindow.page {p x : Nat} (hp : p % 4096 = 0) (hx : OnPage p x) (h : InWindow x) :
    InWindow p := by
  unfold InWindow InRange COLD_ACCESS at *
  unfold OnPage InRange at hx
  omega

/-- The loads do not depend on the text that was printed. -/
theorem mem_initReads {m : Mem} {bootinfo : Nat} {text : List UInt8} {e : Event}
    (he : e ∈ initReads m bootinfo text) :
    e = .print text ∨ ∃ a n, e = .load a n ∧ .load a n ∈ initReads m bootinfo [] := by
  unfold initReads mapReads at *
  simp only [List.mem_cons, List.mem_map, List.mem_range] at he
  rcases he with rfl | rfl | rfl | rfl | ⟨i, hi, rfl⟩
  · exact Or.inr ⟨_, _, rfl, by simp⟩
  · exact Or.inl rfl
  · exact Or.inr ⟨_, _, rfl, by simp⟩
  · exact Or.inr ⟨_, _, rfl, by simp⟩
  · refine Or.inr ⟨_, _, rfl, ?_⟩
    simp only [List.mem_cons, List.mem_map, List.mem_range]
    exact Or.inr (Or.inr (Or.inr (Or.inr ⟨i, hi, rfl⟩)))

/-! ## The log of a run -/

theorem exec_log {g g' : Guest} {op : Op} (h : exec g op = some g') : g.log <+: g'.log := by
  rcases exec_cases h with ⟨_, _, _, hsetup, rfl⟩ | ⟨_, rfl⟩ | ⟨_, hlog, _⟩
  · obtain ⟨es, hlog, _⟩ := (setupMmu_anywhere hsetup).log
    exact ⟨es, hlog.symm⟩
  · obtain ⟨es, hlog, _⟩ := (ioramAt_anywhere g (allocVpages g.toKernel 2).1).log
    exact ⟨es, hlog.symm⟩
  · rw [hlog]

theorem execAll_log {g g' : Guest} {ops : List Op} (h : execAll g ops = some g') :
    g.log <+: g'.log := by
  induction ops generalizing g with
  | nil =>
    obtain rfl : g = g' := Option.some.inj h
    exact List.prefix_refl _
  | cons op ops ih =>
    rcases exists_of_execAll_cons h with ⟨g₁, hexec, h⟩
    exact (exec_log hexec).trans (ih h)

section Cold

variable {k₀ k₁ : Kernel} {baseAddr bootinfo : Nat} {vars : Vars} {js : List Job}

/-! ## The window has to be missed -/

theorem ColdWindow.of_never {log : List Event} (text : List UInt8)
    (hnever : ∀ va ∈ coldReads, ∀ e ∈ log, e.Within fun x => ¬ OnPage va x)
    (hreads : ∀ e ∈ initReads k₀.mem bootinfo text, e ∈ log)
    (hpages : ∀ p ∈ linkedPages k₀.mem baseAddr bootinfo, .store p 8 ∈ log) :
    ColdWindow k₀.mem baseAddr bootinfo := by
  refine ⟨fun a n hload x hx hin => ?_, fun p hp hin => ?_⟩
  · rcases inWindow_iff.1 hin with ⟨va, hva, hpage⟩
    have hmem : .load a n ∈ initReads k₀.mem bootinfo text := by
      simpa [initReads] using hload
    exact hnever va hva _ (hreads _ hmem) x hx.1 hx.2 hpage
  · rcases inWindow_iff.1 hin with ⟨va, hva, hpage⟩
    exact hnever va hva _ (hpages p hp) p (Nat.le_refl p) (by omega) hpage

theorem coldWindow_of_cold {g : Guest} {ops : List Op} (hboot : AtBoot k₀)
    (hinit : earlyMemInit k₀ baseAddr bootinfo = some k₁)
    (hrun : execAll (Guest.boot k₁ vars) ops = some g) (hcold : Cold g) :
    ColdWindow k₀.mem baseAddr bootinfo := by
  rcases earlyMem_of_eq_some hboot.firstMemInit hinit with ⟨_, hearly⟩
  rcases hearly.log with ⟨text, hlog⟩
  have hstart : k₁.log <+: g.log := execAll_log hrun
  refine ColdWindow.of_never text hcold.never (fun e he => hstart.subset ?_)
    fun p hp => hstart.subset ?_
  · rw [hlog]
    exact List.mem_append_left _ (List.mem_append_right _ he)
  · rw [hlog]
    exact List.mem_append_right _ (List.mem_map_of_mem hp)

/-! ## Enough pages -/

/-- Room for the tables of the benchmarks `js` and of `memory-cold`. -/
structure Room (m : Mem) (baseAddr bootinfo : Nat) (js : List Job) : Prop where
  pos : 0 < heapBase baseAddr
  le : heapBase baseAddr + 4096 * (pagesFor (jobOps js) + Bench.memoryCold.pages)
    ≤ endOfMemory m bootinfo

theorem EarlyMem.setting (h : EarlyMem k₀ baseAddr bootinfo k₁) (hboot : AtBoot k₀)
    (hsize : heapSize k₀.mem baseAddr bootinfo % 4096 = 0) (hroom : Room k₀.mem baseAddr bootinfo js) :
    Setting (linkedPages k₀.mem baseAddr bootinfo) (InPages (linkedPages k₀.mem baseAddr bootinfo))
      (Guest.boot k₁ vars) := by
  have hle : heapBase baseAddr ≤ endOfMemory k₀.mem bootinfo := by
    have hroom' := hroom.le
    omega
  have hlt := endOfMemory_lt k₀.mem bootinfo
  refine ⟨h.freeList hroom.pos hle hsize, fun p hp => ?_, ?_, fun _ => id,
    h.vfreeTop.trans hboot.vfreeTop, rfl, rfl⟩
  · have hp' := (mem_linkedPages hle).1 hp
    omega
  · rw [linkedPages, regionPages, List.length_map, List.length_range, heapSize_eq hle]
    omega

theorem coldInit_next (js : List Job) :
    (jobOps js ++ memoryCold.init).foldlM Phase.next .idle = some .fresh := by
  rw [List.foldlM_append, jobOps_next]
  rfl

theorem pagesFor_coldInit (js : List Job) :
    pagesFor (jobOps js ++ memoryCold.init) = pagesFor (jobOps js) + Bench.memoryCold.pages := by
  rw [pagesFor_append]
  rfl

/-- With enough pages the run comes to the loop of `memory-cold`. -/
theorem exists_coldRun (hboot : AtBoot k₀) (hinit : earlyMemInit k₀ baseAddr bootinfo = some k₁)
    (hroom : Room k₀.mem baseAddr bootinfo js)
    (hmiss : AllMiss (InPages (linkedPages k₀.mem baseAddr bootinfo)) (Guest.boot k₁ vars)
      (jobOps js ++ memoryCold.init)) :
    ∃ T used g, execAll (Guest.boot k₁ vars) (jobOps js ++ memoryCold.init) = some g ∧
      Space (linkedPages k₀.mem baseAddr bootinfo) (InPages (linkedPages k₀.mem baseAddr bootinfo))
        (Guest.boot k₁ vars) T used .fresh g := by
  rcases earlyMem_of_eq_some hboot.firstMemInit hinit with ⟨hsize, hearly⟩
  have hset : Setting _ _ (Guest.boot k₁ vars) := hearly.setting hboot hsize hroom
  have hroom' := hroom.le
  have hlen : 0 + pagesFor (jobOps js ++ memoryCold.init)
      ≤ (linkedPages k₀.mem baseAddr bootinfo).length := by
    rw [pagesFor_coldInit, linkedPages, regionPages, List.length_map, List.length_range,
      heapSize_eq (by omega)]
    omega
  rcases (space_init hset).run hset (coldInit_next js) hlen hmiss with ⟨T, g, hrun, hg⟩
  exact ⟨T, _, g, hrun, hg⟩

theorem cold_of_space {T : Nat → RadixTree Nat} {used : Nat} {g : Guest} (hboot : AtBoot k₀)
    (hinit : earlyMemInit k₀ baseAddr bootinfo = some k₁)
    (hwindow : ColdWindow k₀.mem baseAddr bootinfo)
    (hg : Space (linkedPages k₀.mem baseAddr bootinfo)
      (InPages (linkedPages k₀.mem baseAddr bootinfo)) (Guest.boot k₁ vars) T used .fresh g) :
    Cold g := by
  rcases earlyMem_of_eq_some hboot.firstMemInit hinit with ⟨_, hearly⟩
  have haligned : ∀ p ∈ linkedPages k₀.mem baseAddr bootinfo, p % 4096 = 0 := by
    intro p hp
    rcases List.mem_map.1 hp with ⟨i, _, rfl⟩
    exact pageFrom_aligned (heapBase_aligned baseAddr) i
  -- a linked page has no byte in the window
  have hpage : ∀ va ∈ coldReads, ∀ p ∈ linkedPages k₀.mem baseAddr bootinfo, ∀ x, OnPage p x →
      ¬ OnPage va x := by
    intro va hva p hp x hx hx'
    exact hwindow.pages p hp ((inWindow_iff.2 ⟨va, hva, hx'⟩).page (haligned p hp) hx)
  refine ⟨fun va hva => ?_, coldReads_nodup, fun va hva => ?_, fun va hva e he => ?_⟩
  · rcases mem_coldReads.1 hva with ⟨i, _, rfl⟩
    exact Nat.mul_mod_left _ _
  · exact hg.translate_low (List.mem_of_getLast? hg.phase.1) (coldReads_lt hva)
  · rcases hg.log with ⟨es, hlog, hes⟩
    rcases hearly.log with ⟨text, hearlylog⟩
    have hlog' : g.log = k₀.log ++ initReads k₀.mem bootinfo text ++
        (linkedPages k₀.mem baseAddr bootinfo).map (.store · 8) ++ es := by
      rw [← hearlylog]
      exact hlog
    rw [hlog', hboot.log, List.nil_append, List.mem_append, List.mem_append] at he
    rcases he with (he | he) | he
    · rcases mem_initReads he with rfl | ⟨a, n, rfl, hload⟩
      · trivial
      · exact fun x hx hx' hon => hwindow.reads a n hload x ⟨hx, hx'⟩ (inWindow_iff.2 ⟨va, hva, hon⟩)
    · rcases List.mem_map.1 he with ⟨p, hp, rfl⟩
      exact fun x hx hx' => hpage va hva p hp x ⟨hx, by omega⟩
    · refine (hes e he).mono fun x hx => ?_
      rcases hx with ⟨p, hp, hx⟩
      exact hpage va hva p hp x hx

/-! ## The condition -/

end Cold

/-! ## Two sizes of memory -/

/-- A boot information at `0x9500` with the size of memory and no memory
map. -/
def bootMemory (memUpper : Nat) : Mem := store (fun _ => 0) (0x9500 + memUpperOffset) 4 memUpper

def bootKernel (memUpper : Nat) : Kernel where
  mem := bootMemory memUpper
  log := []
  freelist := 0
  vfreeTop := 0
  heapBase := 0
  heapEnd := 0
  firstMemInit := false
  startCr3 := 0
  cr3 := ptl4 0x408000

theorem atBoot_bootKernel (memUpper : Nat) : AtBoot (bootKernel memUpper) := ⟨rfl, rfl, rfl⟩

theorem endOfMemory_bootMemory {memUpper : Nat} (h : memUpper < 2 ^ 32) :
    endOfMemory (bootMemory memUpper) 0x9500 = memUpper * 1024 := by
  have hlt : memUpper < 256 ^ 4 := by omega
  rw [endOfMemory, bootMemory, load_store_same, Nat.mod_eq_of_lt hlt]

theorem bootMemory_map (memUpper : Nat) :
    load (bootMemory memUpper) (0x9500 + mmapAddrFieldOffset) 4 = 0 ∧
      load (bootMemory memUpper) (0x9500 + mmapLengthFieldOffset) 4 = 0 := by
  refine ⟨?_, ?_⟩ <;> rw [bootMemory, load_store_of_disjoint (by decide), load_eq_zero fun _ _ _ => rfl]

/-- The heap base `0x500000`. -/
theorem heapBase_five : heapBase 0x500000 = 0x500000 := by decide

theorem exists_earlyMemInit {memUpper : Nat} (h : memUpper < 2 ^ 32) (hfour : memUpper % 4 = 0)
    (hle : 0x500000 ≤ memUpper * 1024) :
    ∃ k, earlyMemInit (bootKernel memUpper) 0x500000 0x9500 = some k := by
  have hend := endOfMemory_bootMemory h
  have hsize : heapSize (bootMemory memUpper) 0x500000 0x9500 % 4096 = 0 := by
    rw [heapSize_eq (by rw [heapBase_five, hend]; exact hle), hend, heapBase_five]
    omega
  rcases earlyMemInit_eq_some (k := bootKernel memUpper) rfl hsize with ⟨k, hrun, _⟩
  exact ⟨k, hrun⟩

theorem coldWindow_small : ColdWindow (bootMemory 0xc000) 0x500000 0x9500 := by
  have hend : endOfMemory (bootMemory 0xc000) 0x9500 = 0xc000 * 1024 :=
    endOfMemory_bootMemory (by decide)
  refine ⟨fun a n hload x hx hin => ?_, fun p hp hin => ?_⟩
  · have hentries : mmapEntries (bootMemory 0xc000) 0x9500 = 0 := by
      rw [mmapEntries, mmapStop, (bootMemory_map _).1, (bootMemory_map _).2]
      decide
    rw [initReads, mapReads, hentries] at hload
    simp only [List.mem_cons, Event.load.injEq, reduceCtorEq, List.range_zero, List.map_nil,
      List.not_mem_nil, or_false, false_or] at hload
    unfold InRange at hx
    unfold InWindow InRange at hin
    unfold memUpperOffset mmapAddrFieldOffset mmapLengthFieldOffset at hload
    omega
  · have hp' := (mem_linkedPages (by rw [hend, heapBase_five]; decide)).1 hp
    unfold InWindow InRange at hin
    omega

end HyperBench
