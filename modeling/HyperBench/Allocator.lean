import HyperBench.FreeList

/-!
# Runs of the page allocator

A run interleaves three kinds of step in any order: `get_free_pages` on a
region that is disjoint from every region given before, `heap_alloc_page`,
and a store of a client into a page that it was given.

`AllocInv` is the invariant: the free list holds exactly the donated pages
that have not been handed out.  `allocator_no_loss_no_duplication` reads the
contract of the allocator off it.
-/

namespace HyperBench.Allocator

open ByteMem Transition

/-- A region that may be given to `get_free_pages`. -/
structure Region where
  mem : Nat
  size : Nat
  aligned : mem % PAGE_SIZE = 0
  whole : size % PAGE_SIZE = 0
  nonempty : 0 < size
  nowrap : mem + size ≤ 2 ^ 64
  /-- The region does not wrap, so it misses address 0 when it starts above
  it. -/
  nonzero : 0 < mem

namespace Region

/-- `p` is one of the pages of the region. -/
def Page (r : Region) (p : Nat) : Prop := p % 4096 = 0 ∧ r.mem ≤ p ∧ p < r.mem + r.size

def Disjoint (r r' : Region) : Prop := r.mem + r.size ≤ r'.mem ∨ r'.mem + r'.size ≤ r.mem

/-- The number of pages of the region. -/
def count (r : Region) : Nat := r.size / 4096

theorem size_eq (r : Region) : r.size = 4096 * r.count := by
  have h := r.whole
  rw [PAGE_SIZE_eq] at h
  unfold count
  omega

theorem count_pos (r : Region) : 0 < r.count := by
  have h := r.size_eq
  have := r.nonempty
  omega

theorem count_lt (r : Region) : r.count < 2 ^ 52 := by
  have h := r.size_eq
  have := r.nonzero
  have := r.nowrap
  omega

theorem mem_aligned (r : Region) : r.mem % 4096 = 0 := r.aligned

theorem mem_lt (r : Region) : r.mem < 2 ^ 64 := by
  have := r.nowrap
  have := r.nonempty
  omega

theorem pageFrom_eq (r : Region) {i : Nat} (hi : i < r.count) :
    pageFrom r.mem i = r.mem + 4096 * i := by
  have := r.nowrap
  have := r.size_eq
  exact Nat.mod_eq_of_lt (by omega)

theorem mem_regionPages (r : Region) {p : Nat} : p ∈ regionPages r.mem r.count ↔ r.Page p := by
  have hsize := r.size_eq
  have ha := r.mem_aligned
  unfold regionPages Page
  simp only [List.mem_map, List.mem_range]
  constructor
  · rintro ⟨i, hi, rfl⟩
    rw [r.pageFrom_eq hi]
    omega
  · rintro ⟨hp, hle, hlt⟩
    have hi : (p - r.mem) / 4096 < r.count := by omega
    refine ⟨(p - r.mem) / 4096, hi, ?_⟩
    rw [r.pageFrom_eq hi]
    omega

theorem Disjoint.not_page {r r' : Region} (h : r.Disjoint r') {p : Nat} (hp : r.Page p) :
    ¬ r'.Page p := by
  unfold Disjoint at h
  unfold Page at *
  omega

end Region

/-! ## The system -/

/-- The heap, the regions donated and the pages handed out so far. -/
structure State where
  heap : Heap
  donated : List Region
  returned : List Nat

/-- `p` is a page of a donated region. -/
def State.DonatedPage (s : State) (p : Nat) : Prop := ∃ r ∈ s.donated, r.Page p

inductive Action where
  | getFreePages (r : Region)
  | heapAllocPage
  | store (addr : Nat) (byte : UInt8)

def Step (s : State) : Action → State → Prop
  | .getFreePages r, t =>
    (∀ r' ∈ s.donated, r.Disjoint r') ∧
      ∃ ret heap, getFreePages s.heap r.mem r.size = some (ret, heap) ∧
        t = { s with heap := heap, donated := r :: s.donated }
  | .heapAllocPage, t =>
    t = { s with
      heap := (heapAllocPage s.heap).2
      returned :=
        if (heapAllocPage s.heap).1 = 0 then s.returned
        else (heapAllocPage s.heap).1 :: s.returned }
  | .store addr byte, t =>
    (∃ p ∈ s.returned, OnPage p addr) ∧
      t = { s with heap := { s.heap with mem := store s.heap.mem addr 1 byte.toNat } }

/-- The allocator starts with an empty list and any memory. -/
def allocator : System State Action where
  Init s := s.heap.freelist = 0 ∧ s.donated = [] ∧ s.returned = []
  Step := Step

/-! ## The invariant -/

structure AllocInv (s : State) (ps : List Nat) : Prop where
  free : FreeList s.heap ps
  mem_iff : ∀ p, p ∈ ps ↔ s.DonatedPage p ∧ p ∉ s.returned
  returned : ∀ p ∈ s.returned, s.DonatedPage p

theorem DonatedPage.ne_zero {s : State} {p : Nat} (h : s.DonatedPage p) : p ≠ 0 := by
  obtain ⟨r, _, hp⟩ := h
  have := r.nonzero
  unfold Region.Page at hp
  omega

theorem DonatedPage.aligned {s : State} {p : Nat} (h : s.DonatedPage p) : p % 4096 = 0 := by
  obtain ⟨r, _, hp⟩ := h
  exact hp.1

theorem allocInv_init {s : State} (h : allocator.Init s) : AllocInv s [] := by
  obtain ⟨hfree, hdon, hret⟩ := h
  refine ⟨⟨hfree, List.nodup_nil, by simp, by simp⟩, ?_, ?_⟩
  · intro p
    simp [State.DonatedPage, hdon]
  · simp [hret]

/-- A region disjoint from the donated ones has no free page. -/
theorem AllocInv.fresh {s : State} {ps : List Nat} (h : AllocInv s ps) {r : Region}
    (hdisj : ∀ r' ∈ s.donated, r.Disjoint r') {p : Nat} (hp : r.Page p) :
    ¬ s.DonatedPage p ∧ p ∉ ps := by
  have hnot : ¬ s.DonatedPage p := by
    rintro ⟨r', hr', hp'⟩
    exact (hdisj r' hr').not_page hp hp'
  exact ⟨hnot, fun hmem => hnot ((h.mem_iff p).1 hmem).1⟩

/-- A donation is answered, and its pages come to the front of the list. -/
theorem AllocInv.getFreePages {s : State} {ps : List Nat} (h : AllocInv s ps) (r : Region)
    (hdisj : ∀ r' ∈ s.donated, r.Disjoint r') :
    ∃ heap, HyperBench.getFreePages s.heap r.mem r.size = some (r.mem, heap) ∧
      AllocInv { s with heap := heap, donated := r :: s.donated }
        (regionPages r.mem r.count ++ ps) := by
  have hpage : ∀ i, i < r.count → r.Page (pageFrom r.mem i) := fun i hi =>
    r.mem_regionPages.1 (List.mem_map_of_mem (List.mem_range.2 hi))
  obtain ⟨heap, heq, hdon⟩ := getFreePages_eq (s := s.heap) r.mem_aligned r.mem_lt
    r.count_pos r.count_lt h.free.freelist_lt
  rw [← r.size_eq] at heq
  refine ⟨heap, heq, ?_, ?_, ?_⟩
  · refine hdon.freeList h.free r.mem_aligned r.mem_lt r.count_pos r.count_lt ?_ ?_
    · intro i hi
      have hp := hpage i hi
      have := r.nonzero
      unfold Region.Page at hp
      omega
    · exact fun i hi => (h.fresh hdisj (hpage i hi)).2
  · intro p
    rw [List.mem_append, r.mem_regionPages, h.mem_iff]
    constructor
    · rintro (hp | ⟨⟨r', hr', hp⟩, hret⟩)
      · exact ⟨⟨r, List.mem_cons_self, hp⟩, fun hret =>
          (h.fresh hdisj hp).1 (h.returned p hret)⟩
      · exact ⟨⟨r', List.mem_cons_of_mem r hr', hp⟩, hret⟩
    · rintro ⟨⟨r', hr', hp⟩, hret⟩
      rcases List.mem_cons.1 hr' with rfl | hr'
      · exact Or.inl hp
      · exact Or.inr ⟨⟨r', hr', hp⟩, hret⟩
  · intro p hp
    obtain ⟨r', hr', hpage'⟩ := h.returned p hp
    exact ⟨r', List.mem_cons_of_mem r hr', hpage'⟩

/-- An allocation hands out the head of the list. -/
theorem AllocInv.heapAllocPage_cons {s : State} {p : Nat} {ps : List Nat}
    (h : AllocInv s (p :: ps)) :
    AllocInv { s with heap := (heapAllocPage s.heap).2, returned := p :: s.returned } ps := by
  obtain ⟨_, _, _, hfree⟩ := HyperBench.heapAllocPage_cons h.free
  have hnotin := (List.nodup_cons.1 h.free.nodup).1
  refine ⟨hfree, ?_, ?_⟩
  · intro q
    have hq := h.mem_iff q
    rw [List.mem_cons] at hq
    simp only [State.DonatedPage, List.mem_cons, not_or] at hq ⊢
    constructor
    · intro hmem
      have hqp : q ≠ p := fun he => hnotin (he ▸ hmem)
      obtain ⟨hdon, hret⟩ := hq.1 (Or.inr hmem)
      exact ⟨hdon, hqp, hret⟩
    · rintro ⟨hdon, hqp, hret⟩
      exact (hq.2 ⟨hdon, hret⟩).resolve_left hqp
  · intro q hq
    rcases List.mem_cons.1 hq with rfl | hq
    · exact ((h.mem_iff q).1 List.mem_cons_self).1
    · exact h.returned q hq

/-- A store into a page that was handed out misses the free pages. -/
theorem AllocInv.store {s : State} {ps : List Nat} (h : AllocInv s ps) {addr : Nat}
    (byte : UInt8) (howned : ∃ p ∈ s.returned, OnPage p addr) :
    AllocInv { s with heap := { s.heap with mem := store s.heap.mem addr 1 byte.toNat } } ps := by
  obtain ⟨p, hp, haddr⟩ := howned
  have hpa := DonatedPage.aligned (h.returned p hp)
  refine ⟨⟨?_, h.free.nodup, h.free.aligned, h.free.bound⟩, h.mem_iff, h.returned⟩
  refine h.free.chain.congr fun q hq => load_store_of_disjoint ?_
  have hqa := h.free.aligned q hq
  have hqp : p ≠ q := fun he => ((h.mem_iff q).1 hq).2 (he ▸ hp)
  unfold OnPage InRange at haddr
  omega

theorem allocInv_step {s t : State} {a : Action} {ps : List Nat} (h : AllocInv s ps)
    (hstep : Step s a t) : ∃ qs, AllocInv t qs := by
  cases a with
  | getFreePages r =>
    obtain ⟨hdisj, ret, heap, heq, rfl⟩ := hstep
    obtain ⟨heap', heq', hinv⟩ := h.getFreePages r hdisj
    rw [heq] at heq'
    simp only [Option.some.injEq, Prod.mk.injEq] at heq'
    rw [heq'.2]
    exact ⟨_, hinv⟩
  | heapAllocPage =>
    obtain rfl : t = _ := hstep
    cases ps with
    | nil =>
      simp only [heapAllocPage_nil h.free, if_true]
      have hfree : FreeList (s.heap.print freelistUninitialized) [] :=
        ⟨h.free.chain, h.free.nodup, h.free.aligned, h.free.bound⟩
      exact ⟨[], hfree, h.mem_iff, h.returned⟩
    | cons p ps =>
      have hp0 := h.free.ne_zero (p := p) List.mem_cons_self
      have hfst := (HyperBench.heapAllocPage_cons h.free).1
      refine ⟨ps, ?_⟩
      simp only [hfst, if_neg hp0]
      exact h.heapAllocPage_cons
  | store addr byte =>
    obtain ⟨howned, rfl⟩ := hstep
    exact ⟨ps, h.store byte howned⟩

theorem allocInv_run {as : List Action} {s : State} (hrun : Run allocator as s) :
    ∃ ps, AllocInv s ps := by
  refine Run.invariant (fun _ s => ∃ ps, AllocInv s ps) (fun s h => ⟨[], allocInv_init h⟩) ?_ hrun
  rintro _ s a t ⟨ps, h⟩ hstep
  exact allocInv_step h hstep

/-! ## The contract -/

/-- In every state of every run the chain from `freelist` is a finite list
without repetition that holds exactly the donated pages not handed out yet.
The next `heap_alloc_page` returns a donated page that was never returned
before, all zero, and it returns 0 exactly when every donated page has been
handed out.  The next `get_free_pages` returns. -/
theorem allocator_no_loss_no_duplication {as : List Action} {s : State}
    (hrun : Run allocator as s) :
    (∃ ps, Chain s.heap.mem s.heap.freelist ps ∧ ps.Nodup ∧
        ∀ p, p ∈ ps ↔ s.DonatedPage p ∧ p ∉ s.returned) ∧
      ((heapAllocPage s.heap).1 ≠ 0 →
        s.DonatedPage (heapAllocPage s.heap).1 ∧ (heapAllocPage s.heap).1 ∉ s.returned ∧
          ∀ x, OnPage (heapAllocPage s.heap).1 x → (heapAllocPage s.heap).2.mem x = 0) ∧
      ((heapAllocPage s.heap).1 = 0 ↔ ∀ p, s.DonatedPage p → p ∈ s.returned) ∧
      ∀ r : Region, (∀ r' ∈ s.donated, r.Disjoint r') →
        ∃ heap, getFreePages s.heap r.mem r.size = some (r.mem, heap) := by
  obtain ⟨ps, h⟩ := allocInv_run hrun
  refine ⟨⟨ps, h.free.chain, h.free.nodup, h.mem_iff⟩, ?_, ?_, ?_⟩
  · cases ps with
    | nil =>
      intro hne
      rw [heapAllocPage_nil h.free] at hne
      exact absurd rfl hne
    | cons p ps =>
      intro _
      obtain ⟨hfst, hmem, _, _⟩ := HyperBench.heapAllocPage_cons h.free
      obtain ⟨hdon, hret⟩ := (h.mem_iff p).1 List.mem_cons_self
      rw [hfst, hmem]
      exact ⟨hdon, hret, fun x hx => fill_apply_of_inside hx.1 hx.2⟩
  · cases ps with
    | nil =>
      rw [heapAllocPage_nil h.free]
      refine ⟨fun _ p hp => ?_, fun _ => rfl⟩
      by_contra hret
      exact absurd ((h.mem_iff p).2 ⟨hp, hret⟩) (by simp)
    | cons p ps =>
      obtain ⟨hdon, hret⟩ := (h.mem_iff p).1 List.mem_cons_self
      rw [(HyperBench.heapAllocPage_cons h.free).1]
      exact ⟨fun h0 => absurd h0 (DonatedPage.ne_zero hdon), fun hall => absurd (hall p hdon) hret⟩
  · intro r hdisj
    obtain ⟨heap, heq, _⟩ := h.getFreePages r hdisj
    exact ⟨heap, heq⟩

/-- Two pages from address 4096 on. -/
def twoPages : Region := ⟨4096, 8192, rfl, rfl, by decide, by decide, by decide⟩

/-- The contract on the run that donates two pages and takes one. -/
theorem allocator_donate_then_take :
    ∃ s, Run allocator [.getFreePages twoPages, .heapAllocPage] s ∧
      (s.returned = [4096] ∧ s.DonatedPage 8192) ∧
      ((heapAllocPage s.heap).1 = 0 ↔ ∀ p, s.DonatedPage p → p ∈ s.returned) := by
  set s₀ : State := ⟨⟨fun _ => 0, [], 0⟩, [], []⟩ with hs₀
  have hinit : allocator.Init s₀ := ⟨rfl, rfl, rfl⟩
  obtain ⟨heap, heq, hinv⟩ := (allocInv_init hinit).getFreePages twoPages (by simp [hs₀])
  have hpages : regionPages twoPages.mem twoPages.count ++ [] = [4096, 8192] := by decide
  rw [hpages] at hinv
  have hfst := (HyperBench.heapAllocPage_cons hinv.free).1
  have hdonate : allocator.Step s₀ (.getFreePages twoPages)
      { s₀ with heap := heap, donated := [twoPages] } :=
    ⟨by simp [hs₀], 4096, heap, heq, rfl⟩
  have htake : allocator.Step { s₀ with heap := heap, donated := [twoPages] } .heapAllocPage
      { s₀ with heap := (heapAllocPage heap).2, donated := [twoPages], returned := [4096] } := by
    simp only [allocator, Step, hfst]
    rfl
  have hrun : Run allocator [.getFreePages twoPages, .heapAllocPage]
      { s₀ with heap := (heapAllocPage heap).2, donated := [twoPages], returned := [4096] } :=
    .step (.step (.init hinit) hdonate) htake
  have hlast : twoPages.Page 8192 := by
    unfold Region.Page twoPages
    decide
  exact ⟨_, hrun, ⟨rfl, twoPages, List.mem_cons_self, hlast⟩,
    (allocator_no_loss_no_duplication hrun).2.2.1⟩

end HyperBench.Allocator
