import HyperBench.Space

/-!
# What the kernel prints while the benchmarks run

`heap.c` has one text of its own, the one of an empty free list.  `Says`
follows it through the functions that build page tables and through the
operations of the benchmarks.

* `says_execAll` says that a run prints that text and no other.
* `Says.printed_eq` says that a run with enough pages prints nothing.
-/

namespace HyperBench

open ByteMem Loop

/-- The text of a print. -/
def Event.text? : Event → Option (List UInt8)
  | .print text => some text
  | .load _ _ | .store _ _ => none

/-- The texts that were printed so far. -/
def Heap.printed (s : Heap) : List (List UInt8) := s.log.filterMap Event.text?

theorem exhausted_iff {s : Heap} : Exhausted s ↔ freelistUninitialized ∈ s.printed := by
  rw [Exhausted, Heap.printed, List.mem_filterMap]
  constructor
  · exact fun h => ⟨_, h, rfl⟩
  · rintro ⟨e, he, htext⟩
    cases e with
    | print text =>
      obtain rfl : text = freelistUninitialized := Option.some.inj htext
      exact he
    | load | store => exact absurd htext (by simp [Event.text?])

@[simp] theorem printed_readWord (s : Heap) (a : Nat) :
    (s.readWord a).2.printed = s.printed := by
  simp [Heap.printed, Heap.readWord, Event.text?]

@[simp] theorem printed_writeWord (s : Heap) (a v : Nat) :
    (s.writeWord a v).printed = s.printed := by
  simp [Heap.printed, Heap.writeWord, Event.text?]

@[simp] theorem printed_memset (s : Heap) (a : Nat) (c : UInt8) (n : Nat) :
    (memset s a c n).printed = s.printed := by
  unfold memset
  refine forUpTo_rule (fun _ (t : Heap) => t.printed = s.printed) rfl fun i t _ ht => ?_
  rw [← ht]
  simp [Heap.printed, Heap.writeByte, Event.text?]

@[simp] theorem printed_fastZeroPage (s : Heap) (page : Nat) :
    (fastZeroPage s page).printed = s.printed := by
  unfold fastZeroPage
  refine forUpTo_rule (fun _ (t : Heap) => t.printed = s.printed) rfl fun i t _ ht => ?_
  rw [printed_writeWord, ht]

/-! ## The one text -/

/-- From `s` to `t` nothing was printed but the text of an empty free list. -/
def Says (s t : Heap) : Prop :=
  ∃ n, t.printed = s.printed ++ List.replicate n freelistUninitialized

section Says

variable {s t u : Heap}

theorem Says.of_eq (h : t.printed = s.printed) : Says s t :=
  ⟨0, by rw [h, List.replicate_zero, List.append_nil]⟩

theorem Says.refl (s : Heap) : Says s s := .of_eq rfl

theorem Says.trans (h : Says s t) (h' : Says t u) : Says s u := by
  obtain ⟨m, hm⟩ := h
  obtain ⟨n, hn⟩ := h'
  exact ⟨m + n, by rw [hn, hm, List.append_assoc, List.replicate_append_replicate]⟩

/-- Without the text nothing was printed at all. -/
theorem Says.printed_eq (h : Says s t) (hquiet : ¬ Exhausted t) : t.printed = s.printed := by
  obtain ⟨n, hn⟩ := h
  cases n with
  | zero => rw [hn, List.replicate_zero, List.append_nil]
  | succ n =>
    refine absurd (exhausted_iff.2 ?_) hquiet
    rw [hn, List.replicate_succ]
    exact List.mem_append_right _ List.mem_cons_self

theorem says_heapAllocPage (s : Heap) : Says s (heapAllocPage s).2 := by
  unfold heapAllocPage
  split
  · exact ⟨1, by simp [Heap.printed, Heap.print, Event.text?]⟩
  · refine .of_eq ?_
    dsimp only
    rw [printed_fastZeroPage]
    simp [Heap.printed, Heap.readWord, Event.text?]

theorem says_takeTable (s : Heap) (ptPage : Nat) : Says s (takeTable s ptPage).2 := by
  unfold takeTable
  split
  · exact says_heapAllocPage s
  · exact .refl s

theorem says_nextTable (virt level : Nat) (c : PteCursor) :
    Says c.heap (nextTable virt level c).heap := by
  set slot := c.pt + 8 * PGDIR_OFFSET virt level with hslot
  have hread : Says c.heap (c.heap.readWord slot).2 := .of_eq (printed_readWord _ _)
  unfold nextTable
  dsimp only
  split
  · refine (hread.trans (says_takeTable _ c.ptPage)).trans (.of_eq ?_)
    rw [printed_readWord, printed_writeWord, printed_memset]
  · exact hread.trans (.of_eq (printed_readWord _ _))

theorem says_installPage (s : Heap) (cr3 phys virt : Nat) :
    Says s (installPage s cr3 phys virt).2 := by
  have hwalk : Says s (forUpTo (fun i c => nextTable virt (PAGE_LEVEL - i) c) (PAGE_LEVEL - 1)
      ⟨cr3, 0, s⟩).heap := by
    refine forUpTo_rule (fun _ (c : PteCursor) => Says s c.heap) (.refl s) fun i c _ hc => ?_
    exact hc.trans (says_nextTable _ _ c)
  exact hwalk.trans (.of_eq (printed_writeWord _ _ _))

theorem says_installPages {cr3 phys len virt : Nat}
    (h : installPages s cr3 phys len virt = some t) : Says s t := by
  rw [installPages, Option.bind_eq_bind, Option.bind_eq_some_iff] at h
  obtain ⟨c, hloop, hret⟩ := h
  rw [← Option.some.inj hret]
  refine whileFuel_inv (fun c : Mapper => Says s c.heap) hloop (.refl s) fun c hc _ => ?_
  exact hc.trans (says_installPage _ _ _ _)

theorem says_setupMmu {k k' : Kernel} {endOfMemory root : Nat}
    (h : setupMmu k endOfMemory = some (root, k')) : Says k.toHeap k'.toHeap := by
  rw [setupMmu, Option.bind_eq_bind, Option.bind_eq_some_iff] at h
  obtain ⟨s, hpages, hret⟩ := h
  rw [← (Prod.mk.inj (Option.some.inj hret)).2]
  exact (says_heapAllocPage k.toHeap).trans (says_installPages hpages)

theorem says_mapIoram (g : Guest) : Says g.toHeap (mapIoram g).toHeap := by
  rw [mapIoram_eq_ioramAt, ioramAt]
  exact (says_installPage g.toHeap _ _ _).trans (says_installPage _ _ _ _)

/-! ## Operations and runs -/

variable {g g' : Guest}

theorem says_exec {op : Op} (h : exec g op = some g') : Says g.toHeap g'.toHeap := by
  rcases exec_cases h with ⟨e, r, k, hsetup, rfl⟩ | ⟨_, rfl⟩ | ⟨_, hlog, _⟩
  · exact says_setupMmu hsetup
  · exact says_mapIoram g
  · exact .of_eq (by rw [Heap.printed, hlog, Heap.printed])

theorem says_execAll {ops : List Op} (h : execAll g ops = some g') : Says g.toHeap g'.toHeap := by
  induction ops generalizing g with
  | nil =>
    obtain rfl : g = g' := Option.some.inj h
    exact .refl _
  | cons op ops ih =>
    obtain ⟨g₁, hexec, hrun⟩ := exists_of_execAll_cons h
    exact (says_exec hexec).trans (ih hrun)

end Says

end HyperBench
