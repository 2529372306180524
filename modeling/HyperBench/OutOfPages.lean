import HyperBench.Directories
import HyperBench.SetupMmu

/-!
# Running out of pages

`heap_alloc_page` answers 0 when the free list is empty, and `install_pte`
does not look at the answer: it clears page 0 and enters it as a table.  This
module says when that happens in `install_page`, `install_pages` and
`setup_mmu`, for every table that is being built and every address range.

* `installPage_building` is the step: with enough pages the tables stay inside
  their own pages, without them the run is spoilt, it has written to page 0.
* `built_iterate` is the run, of which any round may be the first without a
  page.
* `Harmless A root s t` is what a caller may hope for.  The count of the
  tables that an address range needs decides it.
-/

namespace HyperBench

open ByteMem Loop Radix

/-! ## A write to page 0 -/

/-- Between the two heaps the first byte of memory was cleared. -/
def Spoils (s t : Heap) : Prop := ∃ es, t.log = s.log ++ es ∧ Event.store 0 1 ∈ es

theorem Spoils.trans_right {A : Nat → Prop} {s t u : Heap} (h : Spoils s t) (ht : Touches A t u) :
    Spoils s u := by
  obtain ⟨es, hlog, hmem⟩ := h
  obtain ⟨es', hlog', _⟩ := ht.log
  exact ⟨es ++ es', by rw [hlog', hlog, List.append_assoc], List.mem_append_left es' hmem⟩

theorem Spoils.trans_left {A : Nat → Prop} {s t u : Heap} (hs : Touches A s t) (h : Spoils t u) :
    Spoils s u := by
  obtain ⟨es, hlog, _⟩ := hs.log
  obtain ⟨es', hlog', hmem⟩ := h
  exact ⟨es ++ es', by rw [hlog', hlog, List.append_assoc], List.mem_append_right es hmem⟩

theorem memset_log (s : Heap) (a : Nat) (c : UInt8) (n : Nat) :
    (memset s a c n).log = s.log ++ (List.range n).map fun i => Event.store (a + i) 1 := by
  unfold memset
  refine forUpTo_rule (fun i (t : Heap) => t.log = s.log ++ (List.range i).map fun i =>
    Event.store (a + i) 1) (by simp) ?_
  intro i t _ ht
  show t.log ++ [Event.store (a + i) 1] = _
  rw [ht, List.range_succ, List.map_append, List.append_assoc]
  rfl

/-- Without a free page the new table is page 0. -/
theorem spoils_addTable {s : Heap} (h : FreeList s []) (slot : Nat) :
    Spoils s (addTable s slot) := by
  have hclear : Spoils ((s.readWord slot).2.print freelistUninitialized)
      (memset ((s.readWord slot).2.print freelistUninitialized) 0 0 PAGE_SIZE) := by
    refine ⟨_, memset_log _ 0 0 PAGE_SIZE, ?_⟩
    rw [List.mem_map]
    exact ⟨0, List.mem_range.2 (by decide), rfl⟩
  have hprint : Touches Anywhere s ((s.readWord slot).2.print freelistUninitialized) :=
    (touches_readWord s slot).anywhere.trans (touches_print _ _ _)
  rw [addTable_nil h]
  exact (hclear.trans_left hprint).trans_right (touches_writeWord _ slot _)

/-! ## One page -/

/-- The tables and the heap behind one round of `install_pte`. -/
structure Walked (s : Heap) (root : Nat) (T : RadixTree Nat) (ps : List Nat) (level k : Nat)
    (T' : RadixTree Nat) (ps' : List Nat) (c : PteCursor) : Prop where
  building : Building c.heap root T' ps'
  cursor : T' level k = some c.pt
  ptPage : c.ptPage = 0
  touches : Touches (Owned T ps) s c.heap

/-- The invariant that `install_pte` keeps on its way down. -/
theorem building_descent (root virt : Nat) :
    Descent root virt 1 fun s T ps => Building s root T ps := by
  refine ⟨Nat.one_pos, ?_, fun h => h.dirs.root_eq, fun h => h.readWord, ?_, ?_⟩
  · exact fun h => ⟨h.free, h.bound, h.fresh, h.dirs.page⟩
  · intro s T ps h level pt hpos hlevel hpt
    exact h.dirs.slots.entry_path hpos hlevel hpt
  · intro s T p ps h level pt hpos hlevel hpt hnone hadd
    refine ⟨?_, hadd.free, fun q hq => h.bound q (List.mem_cons_of_mem p hq),
      fresh_set h.free.nodup h.fresh _ _, fun h0 => ?_⟩
    · rw [hadd.mem]
      exact h.dirs.addTable hpos hlevel hpt hnone (h.free.aligned p List.mem_cons_self)
        (h.bound p List.mem_cons_self) (h.fresh p List.mem_cons_self)
    · rcases h0.of_set with h0 | h0
      · exact h.nonzero h0
      · exact h.free.ne_zero List.mem_cons_self h0.symm

theorem OutOfPage.spoils {s t : Heap} (h : OutOfPage s t) : Spoils s t := by
  obtain ⟨u, slot, hu, hfree, ht⟩ := h
  exact ((spoils_addTable hfree slot).trans_left hu).trans_right ht

theorem nextTable_loop_building {s : Heap} {root : Nat} (virt : Nat) {T : RadixTree Nat}
    {ps : List Nat} (h : Building s root T ps) {n : Nat} (hn : n ≤ 3) :
    match path 512 4 (vpn virt) n (T, ps) with
    | none => Spoils s (forUpTo (fun i c => nextTable virt (4 - i) c) n ⟨root, 0, s⟩).heap
    | some (T', ps') =>
      Walked s root T ps (4 - n) (vpn virt / 512 ^ (4 - n)) T' ps'
        (forUpTo (fun i c => nextTable virt (4 - i) c) n ⟨root, 0, s⟩) := by
  have hloop := (building_descent root virt).loop h (show n + 1 ≤ 4 by omega)
  cases hpath : path 512 4 (vpn virt) n (T, ps) with
  | none =>
    rw [hpath] at hloop
    exact hloop.spoils
  | some st =>
    obtain ⟨T', ps'⟩ := st
    rw [hpath] at hloop
    exact ⟨hloop.holds, hloop.cursor, hloop.ptPage,
      hloop.touches.mono fun x hx => hx.owned (path_extends (by omega) hpath)⟩

/-- `install_page` makes the path of its address, or spoils page 0.  Its last
store goes into a table of the last level. -/
theorem installPage_building {s : Heap} {root : Nat} {T : RadixTree Nat} {ps : List Nat}
    (h : Building s root T ps) (phys virt : Nat) :
    match path 512 4 (vpn virt) 3 (T, ps) with
    | none => Spoils s (installPage s root phys virt).2
    | some (T', ps') =>
      Building (installPage s root phys virt).2 root T' ps' ∧
        Touches (Owned T ps) s (installPage s root phys virt).2 := by
  have hloop := nextTable_loop_building virt h (Nat.le_refl 3)
  rw [← lastTable] at hloop
  rw [installPage_heap]
  set c := lastTable s root virt
  have hwrite := touches_writeWord c.heap (c.pt + 8 * PGDIR_OFFSET virt 1) (entryOf (some phys))
  cases hpath : path 512 4 (vpn virt) 3 (T, ps) with
  | none =>
    rw [hpath] at hloop
    exact hloop.trans_right hwrite
  | some st =>
    obtain ⟨T₁, ps₁⟩ := st
    rw [hpath] at hloop
    have hcursor : T₁ (0 + 1) (vpn virt / 512) = some c.pt := hloop.cursor
    have hnode : T₁.IsNode c.pt := ⟨0, _, hcursor⟩
    have hoff := PGDIR_OFFSET_lt virt 1
    have hbuilt := hloop.building
    have hpt := hbuilt.dirs.page c.pt hnode
    have hslot : ∀ q, q % 4096 = 0 → c.pt ≠ q → ∀ x, OnPage q x →
        ¬ InRange (c.pt + 8 * PGDIR_OFFSET virt 1) 8 x := by
      intro q hq hne x hx hx'
      unfold OnPage InRange at *
      omega
    refine ⟨⟨?_, ?_, hbuilt.bound, hbuilt.fresh, hbuilt.nonzero⟩, ?_⟩
    · apply hbuilt.dirs.frame
      intro l j q hq x hx
      apply hwrite.frame
      have hne : c.pt ≠ q := by
        intro he
        have hlevels := (hbuilt.dirs.inj _ _ _ _ _ hcursor (he ▸ hq)).1
        omega
      exact hslot q (hbuilt.dirs.page q ⟨_, _, hq⟩).1 hne x hx
    · refine hbuilt.free.frame hwrite rfl fun q hq => ?_
      have hne : c.pt ≠ q := fun he => hbuilt.fresh q hq (he ▸ hnode)
      exact hslot q (hbuilt.free.aligned q hq) hne
    · refine hloop.touches.trans (hwrite.mono fun x hx => ?_)
      exact (Owned.slot ps₁ hnode hoff hx).of_extends (path_extends (by decide) hpath)

/-! ## An address range -/

/-- The page numbers of `n` pages from `virt` on. -/
def pageNumbers (virt n : Nat) : List Nat := (List.range n).map fun i => vpn (pageFrom virt i)

theorem pageNumbers_succ (virt n : Nat) :
    pageNumbers virt (n + 1) = pageNumbers virt n ++ [vpn (pageFrom virt n)] := by
  simp [pageNumbers, List.range_succ]

/-- The address of the loop of `install_pages` behind `n` rounds. -/
theorem mapPage_iterate_virt (root : Nat) (c : Mapper) (n : Nat) :
    vpn ((mapPage root)^[n] c).virt = vpn (pageFrom c.virt n) := by
  have hmod : ((mapPage root)^[n] c).virt % 2 ^ 64 = pageFrom c.virt n := by
    induction n with
    | zero => rfl
    | succ n ih =>
      rw [Function.iterate_succ_apply']
      show nextPage ((mapPage root)^[n] c).virt % 2 ^ 64 = _
      unfold pageFrom at ih ⊢
      rw [nextPage, PAGE_SIZE_eq]
      omega
  rw [← hmod]
  unfold vpn
  omega

/-- From `s` the heap `t` was made by installing the pages `vs`. -/
structure Built (s : Heap) (root : Nat) (T : RadixTree Nat) (ps vs : List Nat)
    (T' : RadixTree Nat) (t : Heap) : Prop where
  building : Building t root T' (ps.drop (absent 512 4 T vs))
  path : ∀ l k, 0 < l → (T' l k ≠ none ↔ T l k ≠ none ∨ (l, k) ∈ above 512 4 vs)
  supply : Extends (T, ps) (T', ps.drop (absent 512 4 T vs))
  touches : Touches (Owned T ps) s t

section Range

variable {s t : Heap} {root : Nat} {T T' : RadixTree Nat} {ps vs : List Nat}

theorem built_nil (h : Building s root T ps) : Built s root T ps [] T s := by
  refine ⟨h, fun l k _ => ?_, Extends.refl _, Touches.refl _ s⟩
  simp [mem_above]

theorem Built.absent_step (h : Built s root T ps vs T' t) (v : Nat) :
    absent 512 4 T (vs ++ [v]) = absent 512 4 T vs + missing 512 4 v T' 3 := by
  rw [absent_append h.path, absent_singleton (by decide)]

/-- One more page, with enough free pages for its tables. -/
theorem Built.step (h : Built s root T ps vs T' t) (phys virt : Nat)
    (hroom : absent 512 4 T (vs ++ [vpn virt]) ≤ ps.length) :
    ∃ T'', Built s root T ps (vs ++ [vpn virt]) T'' (installPage t root phys virt).2 := by
  have hcount := h.absent_step (vpn virt)
  have hmissing : missing 512 4 (vpn virt) T' 3 ≤ (ps.drop (absent 512 4 T vs)).length := by
    rw [List.length_drop]
    omega
  obtain ⟨T'', hpath, _, hnode⟩ := path_exact (by decide : 3 < 4) hmissing
  have hinstall := installPage_building h.building phys virt
  rw [hpath, List.drop_drop, ← hcount] at hinstall
  have hext := path_extends (by decide) hpath
  rw [List.drop_drop, ← hcount] at hext
  refine ⟨T'', hinstall.1, ?_, h.supply.trans hext, ?_⟩
  · intro l k hl
    rw [hnode l k, h.path l k hl]
    simp only [mem_above, List.mem_append, List.mem_singleton]
    grind
  · exact h.touches.trans (hinstall.2.mono fun x hx => hx.of_extends h.supply)

/-- One more page, without them. -/
theorem Built.spoils (h : Built s root T ps vs T' t) (phys virt : Nat)
    (hroom : absent 512 4 T vs ≤ ps.length)
    (hfew : ps.length < absent 512 4 T (vs ++ [vpn virt])) :
    Spoils s (installPage t root phys virt).2 := by
  have hcount := h.absent_step (vpn virt)
  have hmissing : (ps.drop (absent 512 4 T vs)).length < missing 512 4 (vpn virt) T' 3 := by
    rw [List.length_drop]
    omega
  have hinstall := installPage_building h.building phys virt
  rw [path_eq_none (by decide : 3 < 4) hmissing] at hinstall
  exact hinstall.trans_left h.touches

/-- The rounds of `install_pages`, of which any may be the first without a
page. -/
theorem built_iterate (h : Building s root T ps) (phys virt n : Nat) :
    (absent 512 4 T (pageNumbers virt n) ≤ ps.length →
      ∃ T', Built s root T ps (pageNumbers virt n) T' ((mapPage root)^[n] ⟨phys, virt, s⟩).heap) ∧
      (ps.length < absent 512 4 T (pageNumbers virt n) →
        Spoils s ((mapPage root)^[n] ⟨phys, virt, s⟩).heap) := by
  induction n with
  | zero => exact ⟨fun _ => ⟨T, built_nil h⟩, fun hfew => absurd hfew (Nat.not_lt_zero _)⟩
  | succ n ih =>
    have hvpn := mapPage_iterate_virt root ⟨phys, virt, s⟩ n
    rw [pageNumbers_succ, Function.iterate_succ_apply', ← hvpn]
    set c := (mapPage root)^[n] ⟨phys, virt, s⟩
    have hmono := absent_mono 512 4 T (pageNumbers virt n) [vpn c.virt]
    constructor
    · intro hroom
      obtain ⟨T', hbuilt⟩ := ih.1 (hmono.trans hroom)
      exact hbuilt.step c.phys c.virt hroom
    · intro hfew
      by_cases hroom : absent 512 4 T (pageNumbers virt n) ≤ ps.length
      · obtain ⟨T', hbuilt⟩ := ih.1 hroom
        exact hbuilt.spoils c.phys c.virt hroom hfew
      · exact (ih.2 (Nat.lt_of_not_le hroom)).trans_right (installPte_anywhere _ _ _ _ _ _)

end Range

/-! ## What the callers may hope for -/

/-- From `s` to `t` only addresses in `A` were written, and no directory
entry below `root` points at page 0. -/
structure Harmless (A : Nat → Prop) (root : Nat) (s t : Heap) : Prop where
  stores : ∃ es, t.log = s.log ++ es ∧
    ∀ a n, Event.store a n ∈ es → ∀ x, InRange a n x → A x
  frame : ∀ x, ¬ A x → t.mem x = s.mem x
  entries : ∀ T, Directories t.mem root T → ∀ level k, level < 3 → T (level + 1) k ≠ some 0

theorem Harmless.of_touches {A : Nat → Prop} {root : Nat} {s t : Heap} {T : RadixTree Nat}
    {ps : List Nat} (htouch : Touches A s t) (h : Building t root T ps) :
    Harmless A root s t := by
  obtain ⟨es, hlog, hes⟩ := htouch.log
  refine ⟨⟨es, hlog, fun a n hmem x hx => hes _ hmem x hx.1 hx.2⟩, htouch.frame, ?_⟩
  intro T' hT' level k _ hzero
  rw [hT'.unique h.dirs (Nat.succ_pos level)] at hzero
  exact h.nonzero ⟨level, k, hzero⟩

theorem Harmless.not_spoils {A : Nat → Prop} {root : Nat} {s t : Heap}
    (h : Harmless A root s t) (hzero : ¬ A 0) : ¬ Spoils s t := by
  intro hspoils
  obtain ⟨es, hlog, hes⟩ := h.stores
  obtain ⟨es', hlog', hmem⟩ := hspoils
  have heq : es = es' := List.append_cancel_left (hlog.symm.trans hlog')
  exact hzero (hes 0 1 (heq ▸ hmem) 0 ⟨Nat.le_refl 0, by decide⟩)

/-- The heaps that `install_pages` goes through: `t` is the heap behind `n`
rounds of its loop. -/
def DuringInstallPages (s : Heap) (root phys len virt n : Nat) (t : Heap) : Prop :=
  ∃ c, Rounds (fun c => nextPage c.phys ≤ (len + phys) % 2 ^ 64) (mapPage root) ⟨phys, virt, s⟩ n c ∧
    t = c.heap

/-- The heaps that the loop of `setup_mmu` goes through. -/
def DuringSetupMmu (k : Kernel) (endOfMemory n : Nat) (t : Heap) : Prop :=
  DuringInstallPages (heapAllocPage k.toHeap).2 (heapAllocPage k.toHeap).1 0
    (if endOfMemory = 0 then 1 <<< 32 else endOfMemory) 0 n t

theorem duringInstallPages_of_eq_some {s t : Heap} {root phys len virt : Nat}
    (h : installPages s root phys len virt = some t) :
    ∃ n, DuringInstallPages s root phys len virt n t := by
  rw [installPages, Option.bind_eq_bind, Option.bind_eq_some_iff] at h
  obtain ⟨c, hloop, hret⟩ := h
  obtain ⟨n, hrounds, _⟩ := rounds_of_whileFuel hloop
  exact ⟨n, c, hrounds, (Option.some.inj hret).symm⟩

/-- The heap that `setup_mmu` leaves is the last one of its loop. -/
theorem duringSetupMmu_of_eq_some {k k' : Kernel} {endOfMemory root : Nat}
    (h : setupMmu k endOfMemory = some (root, k')) :
    ∃ n, DuringSetupMmu k endOfMemory n k'.toHeap := by
  rw [setupMmu, Option.bind_eq_bind, Option.bind_eq_some_iff] at h
  obtain ⟨t, hpages, hret⟩ := h
  cases hret
  exact duringInstallPages_of_eq_some hpages

theorem mapPage_harmless_iff {s : Heap} {root : Nat} {T : RadixTree Nat} {ps : List Nat}
    (h : Building s root T ps) (phys virt n : Nat) :
    Harmless (Owned T ps) root s ((mapPage root)^[n] ⟨phys, virt, s⟩).heap ↔
      absent 512 4 T (pageNumbers virt n) ≤ ps.length := by
  have hrounds := built_iterate h phys virt n
  constructor
  · intro hharmless
    by_contra hfew
    exact hharmless.not_spoils h.not_owned_zero (hrounds.2 (Nat.lt_of_not_le hfew))
  · intro hroom
    obtain ⟨T', hbuilt⟩ := hrounds.1 hroom
    exact .of_touches hbuilt.touches hbuilt.building

/-! ## A new root -/

/-- The root that `heap_alloc_page` hands out has no tables yet. -/
theorem building_root {s : Heap} {root : Nat} {ps : List Nat} (hfree : FreeList s (root :: ps))
    (hbound : ∀ p ∈ root :: ps, p < 2 ^ 52) :
    Building (heapAllocPage s).2 root (RadixTree.empty.set 4 0 root) ps := by
  have htables := tables_root hfree hbound
  refine ⟨.ofPageTable htables.table ?_, htables.free, htables.bound, htables.fresh, ?_⟩
  · intro level k _ hne
    by_contra hnot
    rw [RadixTree.set_of_ne hnot] at hne
    exact hne rfl
  · intro hzero
    exact hfree.ne_zero List.mem_cons_self (eq_root_of_isNode hzero).symm

/-- The root is above the tables that are counted. -/
theorem absent_root (root : Nat) (vs : List Nat) :
    absent 512 4 (RadixTree.empty.set 4 0 root) vs
      = absent 512 4 (RadixTree.empty : RadixTree Nat) vs := by
  apply absent_congr
  intro l _ hl
  funext j
  exact RadixTree.set_of_ne (by omega)

theorem mapPage_iterate_anywhere (root : Nat) (c : Mapper) (n : Nat) :
    Touches Anywhere c.heap ((mapPage root)^[n] c).heap := by
  induction n with
  | zero => exact Touches.refl _ _
  | succ n ih =>
    rw [Function.iterate_succ_apply']
    exact ih.trans (installPte_anywhere _ _ _ _ _ _)

/-- Every round of `install_pages` stores its entry somewhere. -/
theorem exists_store_mapPage (root : Nat) (c : Mapper) (n : Nat) :
    ∃ es a, ((mapPage root)^[n + 1] c).heap.log = c.heap.log ++ es ∧ Event.store a 8 ∈ es := by
  rw [Function.iterate_succ_apply']
  set c' := (mapPage root)^[n] c
  have hwalk : Touches Anywhere c'.heap (lastTable c'.heap root c'.virt).heap :=
    forUpTo_rule (fun _ (w : PteCursor) => Touches Anywhere c'.heap w.heap) (Touches.refl _ _)
      fun i w _ hw => hw.trans (nextTable_anywhere _ _ w)
  obtain ⟨es, hlog, _⟩ := ((mapPage_iterate_anywhere root c n).trans hwalk).log
  refine ⟨es ++ [.store ((lastTable c'.heap root c'.virt).pt + 8 * PGDIR_OFFSET c'.virt 1) 8], _, ?_,
    List.mem_append_right es List.mem_cons_self⟩
  show (installPage c'.heap root c'.phys c'.virt).2.log = _
  rw [installPage_heap, ← List.append_assoc, ← hlog]
  rfl

/-- With an empty list the first round already writes outside the tables. -/
theorem setupMmu_nil_harmless_iff (k : Kernel) (n : Nat) :
    Harmless (Pages []) 0 k.toHeap
        ((mapPage 0)^[n] ⟨0, 0, k.toHeap.print freelistUninitialized⟩).heap ↔ n = 0 := by
  cases n with
  | zero =>
    refine ⟨fun _ => rfl, fun _ => ⟨⟨[.print freelistUninitialized], rfl, ?_⟩, fun _ _ => rfl, ?_⟩⟩
    · intro a n hmem
      simp at hmem
    · -- the root is page 0 itself, and a table is not entered twice
      intro T hT level k hlevel hzero
      have hlevels := (hT.inj level k 3 0 0 hzero hT.root_eq).1
      omega
  | succ n =>
    refine ⟨fun hharmless => ?_, fun hn => absurd hn (Nat.succ_ne_zero n)⟩
    obtain ⟨es, hlog, hes⟩ := hharmless.stores
    obtain ⟨es', a, hlog', hmem⟩ :=
      exists_store_mapPage 0 ⟨0, 0, k.toHeap.print freelistUninitialized⟩ n
    have heq : es = [.print freelistUninitialized] ++ es' := by
      apply @List.append_cancel_left _ k.log
      rw [← hlog, hlog', ← List.append_assoc]
      rfl
    obtain ⟨p, hp, _⟩ := hes a 8 (by rw [heq]; exact List.mem_append_right _ hmem) a
      ⟨Nat.le_refl a, by omega⟩
    cases hp

theorem setupMmu_cons_harmless_iff {k : Kernel} {root : Nat} {ps : List Nat}
    (hfree : FreeList k.toHeap (root :: ps)) (hbound : ∀ p ∈ root :: ps, p < 2 ^ 52) (n : Nat) :
    Harmless (Pages (root :: ps)) root k.toHeap
        ((mapPage root)^[n] ⟨0, 0, (heapAllocPage k.toHeap).2⟩).heap ↔
      absent 512 4 (RadixTree.empty : RadixTree Nat) (pageNumbers 0 n) ≤ ps.length := by
  have hroot := building_root hfree hbound
  have hrounds := built_iterate hroot 0 0 n
  rw [absent_root] at hrounds
  have halloc : Touches (Pages (root :: ps)) k.toHeap (heapAllocPage k.toHeap).2 :=
    (heapAllocPage_cons hfree).2.2.1.mono fun x hx => ⟨root, List.mem_cons_self, hx⟩
  constructor
  · intro hharmless
    by_contra hfew
    have hzero : ¬ Pages (root :: ps) 0 := by
      intro hpages
      obtain ⟨p, hp, hx⟩ := hpages
      have hne := hfree.ne_zero hp
      unfold OnPage InRange at hx
      omega
    exact hharmless.not_spoils hzero ((hrounds.2 (Nat.lt_of_not_le hfew)).trans_left halloc)
  · intro hroom
    obtain ⟨T', hbuilt⟩ := hrounds.1 hroom
    refine .of_touches (halloc.trans (hbuilt.touches.mono fun x hx => ?_)) hbuilt.building
    obtain ⟨p, hp, hx⟩ := hx
    rcases hp with hp | hp
    · exact ⟨p, (eq_root_of_isNode hp) ▸ List.mem_cons_self, hx⟩
    · exact ⟨p, List.mem_cons_of_mem root hp, hx⟩

/-- `setup_mmu` behind `n` rounds, on any free list. -/
theorem setupMmu_harmless_iff {k : Kernel} {ps : List Nat} (hfree : FreeList k.toHeap ps)
    (hbound : ∀ p ∈ ps, p < 2 ^ 52) (n : Nat) :
    Harmless (Pages ps) (heapAllocPage k.toHeap).1 k.toHeap
        ((mapPage (heapAllocPage k.toHeap).1)^[n] ⟨0, 0, (heapAllocPage k.toHeap).2⟩).heap ↔
      (0 < n → 1 + absent 512 4 (RadixTree.empty : RadixTree Nat) (pageNumbers 0 n) ≤ ps.length) := by
  cases ps with
  | nil =>
    rw [heapAllocPage_nil hfree, setupMmu_nil_harmless_iff, List.length_nil]
    omega
  | cons root ps =>
    rw [(heapAllocPage_cons hfree).1, setupMmu_cons_harmless_iff hfree hbound, List.length_cons]
    constructor
    · intro hroom _
      omega
    · intro hroom
      rcases Nat.eq_zero_or_pos n with rfl | hn
      · exact Nat.zero_le _
      · have := hroom hn
        omega

/-- A fact about every point of the loop is one about its number of rounds. -/
theorem duringInstallPages_iff {s : Heap} {root phys len virt : Nat} {P : Heap → Prop}
    {Q : Nat → Prop} (h : ∀ n, P ((mapPage root)^[n] ⟨phys, virt, s⟩).heap ↔ Q n) :
    (∀ n t, DuringInstallPages s root phys len virt n t → P t) ↔
      ∀ n t, DuringInstallPages s root phys len virt n t → Q n := by
  apply forall_congr'
  intro n
  apply forall_congr'
  intro t
  apply imp_congr_right
  intro ht
  obtain ⟨c, ⟨_, rfl⟩, rfl⟩ := ht
  exact h n

/-- When the three functions write inside the pages of the table that is
built.  `install_page` needs the missing tables of its address in the free
list, `install_pages` those of all addresses of its range, and `setup_mmu`
one page more for the root, unless it maps nothing. -/
theorem out_of_pages_harmless_iff (phys len virt endOfMemory : Nat) :
    (∀ s root T ps, Building s root T ps →
      (Harmless (Owned T ps) root s (installPage s root phys virt).2 ↔
        absent 512 4 T [vpn virt] ≤ ps.length)) ∧
    (∀ s root T ps, Building s root T ps →
      ((∀ n t, DuringInstallPages s root phys len virt n t → Harmless (Owned T ps) root s t) ↔
        ∀ n t, DuringInstallPages s root phys len virt n t →
          absent 512 4 T (pageNumbers virt n) ≤ ps.length)) ∧
    ∀ k ps, FreeList k.toHeap ps → (∀ p ∈ ps, p < 2 ^ 52) →
      ((∀ n t, DuringSetupMmu k endOfMemory n t →
        Harmless (Pages ps) (heapAllocPage k.toHeap).1 k.toHeap t) ↔
        ∀ n t, DuringSetupMmu k endOfMemory n t → 0 < n →
          1 + absent 512 4 (RadixTree.empty : RadixTree Nat) (pageNumbers 0 n) ≤ ps.length) := by
  refine ⟨?_, ?_, ?_⟩
  · intro s root T ps h
    have hone := mapPage_harmless_iff h phys virt 1
    have hvpn : pageNumbers virt 1 = [vpn virt] := by
      have hvirt := mapPage_iterate_virt root ⟨phys, virt, s⟩ 0
      rw [pageNumbers_succ, ← hvirt]
      rfl
    simpa only [hvpn, Function.iterate_one, mapPage] using hone
  · intro s root T ps h
    exact duringInstallPages_iff (mapPage_harmless_iff h phys virt)
  · intro k ps hfree hbound
    exact duringInstallPages_iff (setupMmu_harmless_iff hfree hbound)

/-- One page is mapped in one round. -/
theorem duringSetupMmu_onePage {k : Kernel} {n : Nat} {t : Heap}
    (h : DuringSetupMmu k 4096 n t) : n ≤ 1 := by
  obtain ⟨c, ⟨htrue, _⟩, _⟩ := h
  by_contra hn
  have hcond : decide (nextPage (nextPage 0) ≤ 4096) = true := htrue 1 (by omega)
  exact absurd hcond (by decide)

theorem setupMmu_onePage (k : Kernel) :
    setupMmu k 4096 = some ((heapAllocPage k.toHeap).1,
      { k with
        toHeap := (mapPage (heapAllocPage k.toHeap).1 ⟨0, 0, (heapAllocPage k.toHeap).2⟩).heap
        startCr3 := k.cr3
        cr3 := (heapAllocPage k.toHeap).1 }) := by
  have hloop : ∀ root s, installPages s root 0 4096 0 = some (mapPage root ⟨0, 0, s⟩).heap := by
    intro root s
    have hrun : mapPages root 4096 (2 ^ 52) ⟨0, 0, s⟩ = some ((mapPage root)^[1] ⟨0, 0, s⟩) := by
      apply whileFuel_eq_iterate (by decide)
      · intro i hi
        obtain rfl : i = 0 := by omega
        show decide (nextPage 0 ≤ 4096) = true
        decide
      · show decide (nextPage (nextPage 0) ≤ 4096) = false
        decide
    rw [installPages]
    show (mapPages root 4096 (2 ^ 52) ⟨0, 0, s⟩).bind _ = _
    rw [hrun]
    rfl
  rw [setupMmu, if_neg (by decide)]
  dsimp only
  rw [hloop]
  rfl

/-- Five pages are enough for `setup_mmu` to map one page, and then the four behind
the root are. -/
theorem out_of_pages_harmless_onePage :
    ∃ k, FreeList k.toHeap [4096, 8192, 12288, 16384, 20480] ∧
      (∀ n t, DuringSetupMmu k 4096 n t →
        Harmless (Pages [4096, 8192, 12288, 16384, 20480]) 4096 k.toHeap t) ∧
      (∃ k', setupMmu k 4096 = some (4096, k') ∧
        Harmless (Pages [4096, 8192, 12288, 16384, 20480]) 4096 k.toHeap k'.toHeap) ∧
      Harmless (Owned (RadixTree.empty.set 4 0 4096) [8192, 12288, 16384, 20480]) 4096
        (heapAllocPage k.toHeap).2 (installPage (heapAllocPage k.toHeap).2 4096 0 0).2 := by
  obtain ⟨s, _, hfree⟩ := exists_freeList (n := 5) (by decide) (by decide)
  rw [show regionPages 4096 5 = [4096, 8192, 12288, 16384, 20480] by decide] at hfree
  let k : Kernel := ⟨s, 0, 0, 0, true, 0, 0⟩
  have hroot : (heapAllocPage k.toHeap).1 = 4096 := (heapAllocPage_cons hfree).1
  have hrun := setupMmu_onePage k
  have hall := out_of_pages_harmless_iff 0 0 0 4096
  have hsetup := (hall.2.2 k _ hfree (by decide)).2
  rw [hroot] at hrun hsetup
  have hduring : ∀ n t, DuringSetupMmu k 4096 n t →
      Harmless (Pages [4096, 8192, 12288, 16384, 20480]) 4096 k.toHeap t := by
    apply hsetup
    intro n t ht hn
    obtain rfl : n = 1 := Nat.le_antisymm (duringSetupMmu_onePage ht) hn
    decide
  refine ⟨k, hfree, hduring, ⟨_, hrun, ?_⟩, ?_⟩
  · obtain ⟨n, hn⟩ := duringSetupMmu_of_eq_some hrun
    exact hduring n _ hn
  · exact (hall.1 _ 4096 _ _ (building_root hfree (by decide))).2 (by decide)

/-- With one free page, the root, `setup_mmu` clears page 0. -/
theorem setupMmu_spoils {k : Kernel} {root : Nat} (hfree : FreeList k.toHeap [root])
    (hbound : root < 2 ^ 52) :
    ∃ k', setupMmu k 4096 = some (root, k') ∧ Spoils k.toHeap k'.toHeap := by
  have hrun := setupMmu_onePage k
  have hroot := (heapAllocPage_cons hfree).1
  rw [hroot] at hrun
  have hbuilding := building_root hfree fun p hp => List.mem_singleton.1 hp ▸ hbound
  have hmissing : ([] : List Nat).length
      < absent 512 4 (RadixTree.empty.set 4 0 root) (pageNumbers 0 1) := by
    rw [absent_root]
    decide
  have hspoils := (built_iterate hbuilding 0 0 1).2 hmissing
  exact ⟨_, hrun, hspoils.trans_left (heapAllocPage_anywhere k.toHeap)⟩

theorem setupMmu_spoils_rootOnly :
    ∃ k k', FreeList k.toHeap [4096] ∧ setupMmu k 4096 = some (4096, k') ∧
      Spoils k.toHeap k'.toHeap ∧ ¬ Harmless (Pages [4096]) 4096 k.toHeap k'.toHeap := by
  obtain ⟨s, _, hfree⟩ := exists_freeList (n := 1) (by decide) (by decide)
  rw [show regionPages 4096 1 = [4096] by decide] at hfree
  let k : Kernel := ⟨s, 0, 0, 0, true, 0, 0⟩
  obtain ⟨k', hrun, hspoils⟩ := @setupMmu_spoils k 4096 hfree (by decide)
  refine ⟨k, k', hfree, hrun, hspoils, ?_⟩
  intro hharmless
  refine hharmless.not_spoils ?_ hspoils
  intro hpages
  obtain ⟨p, hp, hx⟩ := hpages
  obtain rfl : p = 4096 := List.mem_singleton.1 hp
  unfold OnPage InRange at hx
  omega

end HyperBench
