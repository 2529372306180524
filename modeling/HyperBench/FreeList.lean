import HyperBench.Frame
import HyperBench.Lib.Transition
import Mathlib.Data.List.Nodup
import Mathlib.Data.List.Range

/-!
# The free list

The free pages form a singly linked list whose links are the first words of
the pages themselves.  `FreeList s ps` says that the chain from `freelist`
is the list `ps` of distinct pages and ends in 0.

* `heapAllocPage_cons` and `heapAllocPage_nil` are the two cases of
  `heap_alloc_page`: it takes the head and clears it, or prints and answers
  0.
* `getFreePages_eq` computes `get_free_pages` on a region of whole pages.
  `Linked` is the invariant of its loop, and `regionPages` lists the pages
  in the order of the new chain.
-/

namespace HyperBench

open ByteMem Loop Transition

/-! ## The chain -/

/-- The chain from `head` visits the pages of the list and ends in 0. -/
def Chain (m : Mem) : Nat → List Nat → Prop
  | head, [] => head = 0
  | head, p :: ps => head = p ∧ p ≠ 0 ∧ Chain m (load m p 8) ps

/-- A chain depends on the first words of its pages only. -/
theorem Chain.congr {m m' : Mem} {head : Nat} {ps : List Nat} (h : Chain m head ps)
    (hm : ∀ p ∈ ps, load m' p 8 = load m p 8) : Chain m' head ps := by
  induction ps generalizing head with
  | nil => exact h
  | cons p ps ih =>
    obtain ⟨hhead, hne, htail⟩ := h
    refine ⟨hhead, hne, ?_⟩
    rw [hm p List.mem_cons_self]
    exact ih htail fun q hq => hm q (List.mem_cons_of_mem p hq)

/-- A chain grows at its front by pages that are linked one to the next. -/
theorem Chain.prepend {m : Mem} {ps : List Nat} {n : Nat} {f : Nat → Nat}
    (hlink : ∀ i, i < n → load m (f i) 8 = f (i + 1)) (hne : ∀ i, i < n → f i ≠ 0)
    (h : Chain m (f n) ps) : Chain m (f 0) ((List.range n).map f ++ ps) := by
  induction n generalizing f with
  | zero => exact h
  | succ n ih =>
    have htail := ih (f := fun i => f (i + 1)) (fun i hi => hlink (i + 1) (by omega))
      (fun i hi => hne (i + 1) (by omega)) h
    rw [List.range_succ_eq_map, List.map_cons, List.map_map, List.cons_append]
    refine ⟨rfl, hne 0 (by omega), ?_⟩
    rw [hlink 0 (by omega)]
    exact htail

/-- The free pages of a heap, in the order of the chain. -/
structure FreeList (s : Heap) (ps : List Nat) : Prop where
  chain : Chain s.mem s.freelist ps
  nodup : ps.Nodup
  aligned : ∀ p ∈ ps, p % 4096 = 0
  bound : ∀ p ∈ ps, p < 2 ^ 64

namespace FreeList

variable {s t : Heap} {ps : List Nat}

theorem freelist_lt (h : FreeList s ps) : s.freelist < 2 ^ 64 := by
  cases ps with
  | nil =>
    have h0 : s.freelist = 0 := h.chain
    omega
  | cons p ps =>
    rw [h.chain.1]
    exact h.bound p List.mem_cons_self

theorem ne_zero (h : FreeList s ps) {p : Nat} (hp : p ∈ ps) : p ≠ 0 := by
  have key : ∀ (head : Nat) (qs : List Nat), Chain s.mem head qs → p ∈ qs → p ≠ 0 := by
    intro head qs
    induction qs generalizing head with
    | nil => intro _ hq; simp at hq
    | cons q qs ih =>
      rintro ⟨_, hne, htail⟩ hq
      rcases List.mem_cons.1 hq with rfl | hq
      · exact hne
      · exact ih _ htail hq
  exact key _ _ h.chain hp

/-- The list depends on its own pages only. -/
theorem congr (h : FreeList s ps) (hhead : t.freelist = s.freelist)
    (hm : ∀ p ∈ ps, ∀ x, OnPage p x → t.mem x = s.mem x) : FreeList t ps := by
  refine ⟨?_, h.nodup, h.aligned, h.bound⟩
  rw [hhead]
  refine h.chain.congr fun p hp => load_congr fun x hx hx' => hm p hp x ?_
  unfold OnPage InRange
  omega

/-- The list survives a step that leaves its pages alone. -/
theorem frame {A : Nat → Prop} (h : FreeList s ps) (ht : Touches A s t)
    (hhead : t.freelist = s.freelist) (hA : ∀ p ∈ ps, ∀ x, OnPage p x → ¬ A x) :
    FreeList t ps :=
  h.congr hhead fun p hp x hx => ht.frame x (hA p hp x hx)

theorem freelist_ne_zero {p : Nat} (h : FreeList s (p :: ps)) : s.freelist ≠ 0 := by
  rw [h.chain.1]
  exact h.chain.2.1

theorem readWord (h : FreeList s ps) (a : Nat) : FreeList (s.readWord a).2 ps :=
  ⟨h.chain, h.nodup, h.aligned, h.bound⟩

end FreeList

/-! ## Allocation -/

theorem heapAllocPage_nil {s : Heap} (h : FreeList s []) :
    heapAllocPage s = (0, s.print freelistUninitialized) := by
  have h0 : s.freelist = 0 := h.chain
  rw [heapAllocPage, if_pos h0]

/-- `heap_alloc_page` prints only when the list is empty. -/
theorem exhausted_heapAllocPage {s : Heap} (h : s.freelist ≠ 0) :
    Exhausted (heapAllocPage s).2 ↔ Exhausted s := by
  rw [heapAllocPage, if_neg h]
  dsimp only
  rw [exhausted_fastZeroPage]
  simp [Exhausted, Heap.readWord]

/-- `heap_alloc_page` takes the head of the list, clears it and touches
nothing else. -/
theorem heapAllocPage_cons {s : Heap} {p : Nat} {ps : List Nat} (h : FreeList s (p :: ps)) :
    (heapAllocPage s).1 = p ∧ (heapAllocPage s).2.mem = fill s.mem p 4096 0 ∧
      Touches (OnPage p) s (heapAllocPage s).2 ∧ FreeList (heapAllocPage s).2 ps := by
  obtain ⟨hhead, hne, htail⟩ := h.chain
  obtain ⟨hnotin, hnodup⟩ := List.nodup_cons.1 h.nodup
  have hp := h.aligned p List.mem_cons_self
  have heq : heapAllocPage s =
      (p, fastZeroPage { (s.readWord p).2 with freelist := load s.mem p 8 } p) := by
    rw [heapAllocPage, if_neg (by rw [hhead]; exact hne)]
    simp only [hhead, readWord_fst]
  have hmem : (heapAllocPage s).2.mem = fill s.mem p 4096 0 := by
    rw [heq, fastZeroPage_mem]
    rfl
  have hread : Touches (OnPage p) s (s.readWord p).2 := by
    refine (touches_readWord s p).mono fun x hx => ?_
    unfold OnPage InRange at *
    omega
  have hpop : Touches (OnPage p) s { (s.readWord p).2 with freelist := load s.mem p 8 } :=
    hread.of_eq rfl rfl
  have htouch : Touches (OnPage p) s (heapAllocPage s).2 := by
    rw [heq]
    exact hpop.trans (fastZeroPage_touches _ p)
  refine ⟨congrArg Prod.fst heq, hmem, htouch, ?_, hnodup, ?_, ?_⟩
  · have hfree : (heapAllocPage s).2.freelist = load s.mem p 8 := by
      rw [heq, fastZeroPage_freelist]
    rw [hfree]
    refine htail.congr fun q hq => ?_
    have hqa := h.aligned q (List.mem_cons_of_mem p hq)
    have hqp : q ≠ p := fun he => hnotin (he ▸ hq)
    rw [hmem]
    exact load_fill_of_disjoint (by omega)
  · exact fun q hq => h.aligned q (List.mem_cons_of_mem p hq)
  · exact fun q hq => h.bound q (List.mem_cons_of_mem p hq)

/-! ## Donation -/

/-- The `i`-th page from `mem` on, modulo `2 ^ 64`. -/
def pageFrom (mem i : Nat) : Nat := (mem + 4096 * i) % 2 ^ 64

theorem pageFrom_zero {mem : Nat} (h : mem < 2 ^ 64) : pageFrom mem 0 = mem :=
  Nat.mod_eq_of_lt h

theorem nextPage_pageFrom (mem i : Nat) : nextPage (pageFrom mem i) = pageFrom mem (i + 1) := by
  unfold nextPage pageFrom
  rw [PAGE_SIZE_eq]
  omega

theorem pageFrom_inj {mem i j : Nat} (hi : i < 2 ^ 52) (hj : j < 2 ^ 52)
    (h : pageFrom mem i = pageFrom mem j) : i = j := by
  unfold pageFrom at h
  omega

theorem pageFrom_aligned {mem : Nat} (h : mem % 4096 = 0) (i : Nat) :
    pageFrom mem i % 4096 = 0 := by
  unfold pageFrom
  omega

/-- The pages of a region in address order, modulo `2 ^ 64`. -/
def regionPages (mem n : Nat) : List Nat := (List.range n).map (pageFrom mem)

/-- The loop of `get_free_pages` behind `i` rounds: the first `i` pages are
linked, and only their first words have been written. -/
structure Linked (mem : Nat) (s : Heap) (i : Nat) (c : Linker) : Prop where
  cursor : c.mem = pageFrom mem i
  freelist : c.heap.freelist = s.freelist
  link : ∀ j, j < i → load c.heap.mem (pageFrom mem j) 8 = pageFrom mem (j + 1)
  frame : ∀ x, (∀ j, j < i → ¬ InRange (pageFrom mem j) 8 x) → c.heap.mem x = s.mem x
  log : c.heap.log = s.log ++ (List.range i).map fun j => .store (pageFrom mem j) 8

theorem Linked.step {mem : Nat} {s : Heap} {i : Nat} {c : Linker} (hmem : mem % 4096 = 0)
    (hi : i < 2 ^ 52) (h : Linked mem s i c) : Linked mem s (i + 1) (linkPage c) := by
  have hlt : pageFrom mem (i + 1) < 256 ^ 8 := Nat.mod_lt _ (by decide)
  refine ⟨?_, h.freelist, ?_, ?_, ?_⟩
  · rw [linkPage, h.cursor, nextPage_pageFrom]
  · intro j hj
    simp only [linkPage, h.cursor, nextPage_pageFrom, writeWord_mem]
    by_cases hji : j = i
    · rw [hji, load_store_same, Nat.mod_eq_of_lt hlt]
    · have hne : pageFrom mem j ≠ pageFrom mem i := fun he =>
        hji (pageFrom_inj (by omega) hi he)
      have ha := pageFrom_aligned hmem i
      have hb := pageFrom_aligned hmem j
      rw [load_store_of_disjoint (by omega)]
      exact h.link j (by omega)
  · intro x hx
    have hxi := hx i (by omega)
    simp only [linkPage, h.cursor, writeWord_mem]
    rw [store_apply_of_outside (by unfold InRange at hxi; omega)]
    exact h.frame x fun j hj => hx j (by omega)
  · simp only [linkPage, h.cursor, Heap.writeWord, h.log]
    rw [List.range_succ, List.map_append, List.append_assoc]
    rfl

theorem linked_iterate {mem : Nat} (s : Heap) (hmem : mem % 4096 = 0) (hlt : mem < 2 ^ 64)
    {i : Nat} (hi : i ≤ 2 ^ 52) : Linked mem s i (linkPage^[i] ⟨mem, s⟩) := by
  induction i with
  | zero =>
    refine ⟨(pageFrom_zero hlt).symm, rfl, ?_, fun _ _ => rfl, by simp⟩
    intro j hj
    omega
  | succ i ih =>
    rw [Function.iterate_succ_apply']
    exact (ih (by omega)).step hmem (by omega)

/-- The loop is left behind `n - 1` rounds on a region of `n` pages. -/
theorem linkPages_eq {mem n : Nat} (s : Heap) (hmem : mem % 4096 = 0) (hlt : mem < 2 ^ 64)
    (hn : 0 < n) (hn' : n < 2 ^ 52) :
    linkPages ((mem + 4096 * n) % 2 ^ 64) (2 ^ 52) ⟨mem, s⟩
      = some (linkPage^[n - 1] ⟨mem, s⟩) := by
  have hcursor : ∀ i, i < n → nextPage (linkPage^[i] ⟨mem, s⟩).mem = pageFrom mem (i + 1) := by
    intro i hi
    rw [(linked_iterate s hmem hlt (by omega)).cursor, nextPage_pageFrom]
  refine whileFuel_eq_iterate (by omega) ?_ ?_
  · intro i hi
    rw [hcursor i (by omega), bne_iff_ne]
    intro he
    have hin : i + 1 = n := pageFrom_inj (by omega) hn' he
    omega
  · rw [hcursor (n - 1) (by omega), Nat.sub_add_cancel hn]
    exact bne_self_eq_false _

/-- What `get_free_pages` leaves behind on a region of `n` pages. -/
structure Donated (s : Heap) (mem n : Nat) (t : Heap) : Prop where
  freelist : t.freelist = mem
  link : ∀ j, j + 1 < n → load t.mem (pageFrom mem j) 8 = pageFrom mem (j + 1)
  last : load t.mem (pageFrom mem (n - 1)) 8 = s.freelist
  frame : ∀ x, (∀ j, j < n → ¬ InRange (pageFrom mem j) 8 x) → t.mem x = s.mem x
  log : t.log = s.log ++ (List.range n).map fun j => .store (pageFrom mem j) 8

/-- `get_free_pages` ends on every region of whole pages. -/
theorem getFreePages_eq {mem n : Nat} {s : Heap} (hmem : mem % 4096 = 0) (hlt : mem < 2 ^ 64)
    (hn : 0 < n) (hn' : n < 2 ^ 52) (hfree : s.freelist < 2 ^ 64) :
    ∃ t, getFreePages s mem (4096 * n) = some (mem, t) ∧ Donated s mem n t := by
  set s' : Heap := { s with freelist := mem } with hs'
  set c := linkPage^[n - 1] ⟨mem, s'⟩ with hc
  have hlinked : Linked mem s' (n - 1) c := linked_iterate s' hmem hlt (by omega)
  have hfl : c.heap.freelist = mem := hlinked.freelist
  refine ⟨c.heap.writeWord c.mem s.freelist, ?_, ?_⟩
  · have hrun := linkPages_eq s' hmem hlt hn hn'
    rw [← hc] at hrun
    rw [getFreePages, if_neg (by omega)]
    dsimp only
    rw [hrun, Option.bind_eq_bind, Option.bind_some, writeWord_freelist, hfl]
    rfl
  have hlast : n - 1 + 1 = n := Nat.sub_add_cancel hn
  have hne : ∀ j, j < n - 1 → pageFrom mem j ≠ pageFrom mem (n - 1) := by
    intro j hj he
    have := pageFrom_inj (by omega) (by omega) he
    omega
  refine ⟨hfl, ?_, ?_, ?_, ?_⟩
  · intro j hj
    have ha := pageFrom_aligned hmem j
    have hb := pageFrom_aligned hmem (n - 1)
    have := hne j (by omega)
    rw [writeWord_mem, hlinked.cursor, load_store_of_disjoint (by omega)]
    exact hlinked.link j (by omega)
  · rw [writeWord_mem, hlinked.cursor, load_store_same, Nat.mod_eq_of_lt (by omega)]
  · intro x hx
    have hxn := hx (n - 1) (by omega)
    rw [writeWord_mem, hlinked.cursor,
      store_apply_of_outside (by unfold InRange at hxn; omega)]
    exact hlinked.frame x fun j hj => hx j (by omega)
  · rw [Heap.writeWord, hlinked.cursor]
    simp only [hlinked.log, hs']
    rw [← hlast, List.range_succ, List.map_append, List.append_assoc, hlast]
    rfl

/-- On a size that is no whole number of pages the cursor steps over the
end. -/
theorem getFreePages_eq_none {mem size : Nat} {s : Heap} (hmem : mem % 4096 = 0)
    (hsize : size % 4096 ≠ 0) : getFreePages s mem size = none := by
  have hcursor : ∀ i, (linkPage^[i] ⟨mem, { s with freelist := mem }⟩).mem % 4096 = 0 := by
    intro i
    induction i with
    | zero => exact hmem
    | succ i ih =>
      rw [Function.iterate_succ_apply']
      show nextPage (linkPage^[i] ⟨mem, { s with freelist := mem }⟩).mem % 4096 = 0
      rw [nextPage, PAGE_SIZE_eq]
      omega
  have hloop : linkPages ((mem + size) % 2 ^ 64) (2 ^ 52) ⟨mem, { s with freelist := mem }⟩ = none := by
    refine whileFuel_eq_none (fun i => ?_) _
    have hi := hcursor i
    rw [bne_iff_ne, nextPage, PAGE_SIZE_eq]
    omega
  rw [getFreePages, if_neg (by omega)]
  dsimp only
  rw [hloop]
  rfl

/-- The region comes in front of the pages that were free before. -/
theorem Donated.freeList {s t : Heap} {mem n : Nat} {ps : List Nat} (h : Donated s mem n t)
    (hps : FreeList s ps) (hmem : mem % 4096 = 0) (hlt : mem < 2 ^ 64) (hn : 0 < n)
    (hn' : n < 2 ^ 52) (hne : ∀ i, i < n → pageFrom mem i ≠ 0)
    (hfresh : ∀ i, i < n → pageFrom mem i ∉ ps) : FreeList t (regionPages mem n ++ ps) := by
  have hold : Chain t.mem s.freelist ps := by
    refine hps.chain.congr fun p hp => load_congr fun x hx hx' => h.frame x fun j hj hin => ?_
    have ha := hps.aligned p hp
    have hb := pageFrom_aligned hmem j
    have hpj : p ≠ pageFrom mem j := fun he => hfresh j hj (he ▸ hp)
    unfold InRange at hin
    omega
  refine ⟨?_, ?_, ?_, ?_⟩
  · -- the link behind the last page of the region is the old head
    set f : Nat → Nat := fun i => if i < n then pageFrom mem i else s.freelist with hf
    have hmap : regionPages mem n = (List.range n).map f := by
      refine List.map_congr_left fun i hi => ?_
      rw [hf]
      simp [List.mem_range.1 hi]
    have hzero : t.freelist = f 0 := by
      rw [h.freelist, hf]
      simp [hn, pageFrom_zero hlt]
    rw [hmap, hzero]
    refine Chain.prepend ?_ ?_ ?_
    · intro i hi
      by_cases hi' : i + 1 < n
      · simp only [hf, hi, hi', if_true]
        exact h.link i hi'
      · have : i = n - 1 := by omega
        simp only [hf, hi, hi', if_true, if_false]
        rw [this]
        exact h.last
    · intro i hi
      simp only [hf, hi, if_true]
      exact hne i hi
    · simpa [hf] using hold
  · refine List.nodup_append.2 ⟨?_, hps.nodup, ?_⟩
    · refine List.Nodup.map_on ?_ List.nodup_range
      intro i hi j hj he
      rw [List.mem_range] at hi hj
      exact pageFrom_inj (by omega) (by omega) he
    · intro p hp q hq he
      obtain ⟨i, hi, rfl⟩ := List.mem_map.1 hp
      exact hfresh i (List.mem_range.1 hi) (he ▸ hq)
  · intro p hp
    rcases List.mem_append.1 hp with hp | hp
    · obtain ⟨i, _, rfl⟩ := List.mem_map.1 hp
      exact pageFrom_aligned hmem i
    · exact hps.aligned p hp
  · intro p hp
    rcases List.mem_append.1 hp with hp | hp
    · obtain ⟨i, _, rfl⟩ := List.mem_map.1 hp
      exact Nat.mod_lt _ (by decide)
    · exact hps.bound p hp

/-- A list of any length can be made, by one `get_free_pages` on empty
memory. -/
theorem exists_freeList {n : Nat} (hn : 0 < n) (hn' : n < 2 ^ 51) :
    ∃ s, ¬ Exhausted s ∧ FreeList s (regionPages 4096 n) := by
  have hempty : FreeList ⟨fun _ => 0, [], 0⟩ [] := ⟨rfl, List.nodup_nil, by simp, by simp⟩
  have hrun : ∃ t, getFreePages ⟨fun _ => 0, [], 0⟩ 4096 (4096 * n) = some (4096, t) ∧
      Donated ⟨fun _ => 0, [], 0⟩ 4096 n t :=
    getFreePages_eq rfl (by decide) hn (by omega) (by decide)
  rcases hrun with ⟨t, _, ht⟩
  refine ⟨t, ?_, ?_⟩
  · rw [Exhausted, ht.log]
    simp
  · have hfree := ht.freeList hempty rfl (by decide) hn (by omega) ?_ (by simp)
    · rwa [List.append_nil] at hfree
    · intro i hi
      unfold pageFrom
      omega

end HyperBench
