import HyperBench.PageTable

/-!
# `setup_mmu`

`install_pages` from address 0 on inserts the page numbers in order, each
with its own frame.  `Identity s root n ps T t` is what the loop has done
after `n` pages: the tree holds the identity on the first `n` page numbers,
it has the nodes above them and no others, and those are the first
`need 512 4 n 3` pages of the free list.

`setupMmu_spec` is the result: with enough free pages `setup_mmu` ends, and
takes exactly the root and these pages.  `setupMmu_identity_map` reads it as
the walk of the hardware, with the number of pages as a sum over the levels.
-/

namespace HyperBench

open ByteMem Loop Radix

/-! ## One page -/

/-- `install_page` on the tree `T` with enough free pages. -/
structure Installed (s : Heap) (root phys virt : Nat) (T : RadixTree Nat) (ps : List Nat) (T' : RadixTree Nat)
    (t : Heap) : Prop where
  tables : Tables t root T' (ps.drop (missing 512 4 (vpn virt) T 3))
  values : ∀ w, T' 0 w = if w = vpn virt then some phys else T 0 w
  path : ∀ l k, 0 < l → (T' l k ≠ none ↔ T l k ≠ none ∨ l < 4 ∧ k = vpn virt / 512 ^ l)
  nodes : ∀ p, T'.IsNode p → T.IsNode p ∨ p ∈ ps.take (missing 512 4 (vpn virt) T 3)
  touches : Touches (Owned T ps) s t
  quiet : Exhausted t → Exhausted s

theorem installPage_exact {s : Heap} {root phys virt : Nat} {T : RadixTree Nat} {ps : List Nat}
    (h : Tables s root T ps) (hphys : phys % 4096 = 0) (hphys' : phys < 2 ^ 52)
    (hps : missing 512 4 (vpn virt) T 3 ≤ ps.length) :
    ∃ T', Installed s root phys virt T ps T' (installPage s root phys virt).2 := by
  rcases insert_exact (by decide) phys hps with ⟨T', hins, hpath, hnew⟩
  have hsim := installPage_sim h hphys hphys' virt
  rw [hins] at hsim
  rcases hsim with ⟨htables, htouch, hquiet⟩
  exact ⟨T', htables, insert_value (by decide) hins, hpath, hnew, htouch, hquiet⟩

/-! ## The loop of `install_pages` -/

/-- From `s` the heap `t` was made by mapping the first `n` pages to
themselves, with tables from the front of `ps`. -/
structure Identity (s : Heap) (root n : Nat) (ps : List Nat) (T : RadixTree Nat) (t : Heap) : Prop where
  tables : Tables t root T (ps.drop (need 512 4 n 3))
  values : ∀ w, T 0 w = if w < n then some (4096 * w) else none
  filled : Filled 512 4 n T
  nodes : ∀ p, T.IsNode p → p = root ∨ p ∈ ps.take (need 512 4 n 3)
  touches : Touches (Owned (RadixTree.empty.set 4 0 root) ps) s t
  quiet : Exhausted t → Exhausted s

section Identity

variable {s t : Heap} {root n : Nat} {ps : List Nat} {T : RadixTree Nat}

theorem isNode_root (root : Nat) : (RadixTree.empty.set 4 0 root).IsNode root :=
  ⟨3, 0, RadixTree.set_same _ 4 0 root⟩

theorem eq_root_of_isNode {p : Nat} (hp : (RadixTree.empty.set 4 0 root).IsNode p) : p = root :=
  hp.of_set.resolve_left (RadixTree.not_isNode_empty p)

theorem identity_zero (h : Tables s root (RadixTree.empty.set 4 0 root) ps) :
    Identity s root 0 ps (RadixTree.empty.set 4 0 root) s := by
  refine ⟨?_, ?_, ?_, fun p hp => Or.inl (eq_root_of_isNode hp), Touches.refl _ s, id⟩
  · exact h
  · intro w
    rw [RadixTree.set_of_ne (by omega), if_neg (Nat.not_lt_zero w)]
    rfl
  · intro l k hl hd
    rw [RadixTree.set_of_ne (by omega)]
    simp

/-- One round of the loop. -/
theorem Identity.step (h : Identity s root n ps T t) (hn : n < 2 ^ 36)
    (hps : need 512 4 (n + 1) 3 ≤ ps.length) :
    ∃ T', Identity s root (n + 1) ps T' (installPage t root (4096 * n) (4096 * n)).2 := by
  have hvpn : vpn (4096 * n) = n := by
    unfold vpn
    omega
  have hneed : need 512 4 (n + 1) 3 = need 512 4 n 3 + missing 512 4 n T 3 :=
    h.filled.need_succ (by decide) (by decide)
  have hroom : missing 512 4 (vpn (4096 * n)) T 3 ≤ (ps.drop (need 512 4 n 3)).length := by
    rw [List.length_drop, hvpn]
    omega
  rcases installPage_exact h.tables (Nat.mul_mod_right 4096 n) (by omega) hroom with ⟨T', hinst⟩
  have htables := hinst.tables
  have hvalues := hinst.values
  have hpath := hinst.path
  have hnodes := hinst.nodes
  rw [hvpn] at htables hvalues hpath hnodes
  rw [List.drop_drop, ← hneed] at htables
  refine ⟨T', htables, ?_, h.filled.insert (by decide) hpath, ?_, ?_,
    fun he => h.quiet (hinst.quiet he)⟩
  · intro w
    rw [hvalues, h.values w]
    by_cases hw : w = n
    · rw [if_pos hw, if_pos (by omega), hw]
    · rw [if_neg hw]
      by_cases hlt : w < n
      · rw [if_pos hlt, if_pos (by omega)]
      · rw [if_neg hlt, if_neg (by omega)]
  · intro p hp
    rw [hneed, List.take_add, List.mem_append]
    rcases hnodes p hp with hold | hp
    · exact (h.nodes p hold).imp_right Or.inl
    · exact Or.inr (Or.inr hp)
  · refine h.touches.trans (hinst.touches.mono fun x hx => ?_)
    refine hx.of_supply (List.take_append_drop (need 512 4 n 3) ps).symm fun p hp => ?_
    rcases h.nodes p hp with rfl | hp
    · exact Or.inl (isNode_root p)
    · exact Or.inr hp

/-- The state of the loop behind `i` rounds. -/
theorem identity_iterate (h : Tables s root (RadixTree.empty.set 4 0 root) ps) (hn : n ≤ 2 ^ 35)
    (hps : need 512 4 n 3 ≤ ps.length) {i : Nat} (hi : i ≤ n) :
    ∃ T t, (mapPage root)^[i] ⟨0, 0, s⟩ = ⟨4096 * i, 4096 * i, t⟩ ∧ Identity s root i ps T t := by
  induction i with
  | zero => exact ⟨_, s, rfl, identity_zero h⟩
  | succ i ih =>
    rcases ih (by omega) with ⟨T, t, hiter, hid⟩
    have hle : need 512 4 (i + 1) 3 ≤ ps.length := (need_mono hi).trans hps
    rcases hid.step (by omega) hle with ⟨T', hid'⟩
    refine ⟨T', _, ?_, hid'⟩
    have hnext : nextPage (4096 * i) = 4096 * (i + 1) := by
      rw [nextPage, PAGE_SIZE_eq]
      omega
    rw [Function.iterate_succ_apply', hiter, mapPage, hnext]

/-- `install_pages` of a region that starts at 0. -/
theorem installPages_identity {len : Nat} (h : Tables s root (RadixTree.empty.set 4 0 root) ps)
    (hlen : len / 4096 ≤ 2 ^ 35) (hps : need 512 4 (len / 4096) 3 ≤ ps.length) :
    ∃ T t, installPages s root 0 len 0 = some t ∧ Identity s root (len / 4096) ps T t := by
  rcases identity_iterate h hlen hps (Nat.le_refl _) with ⟨T, t, hiter, hid⟩
  refine ⟨T, t, ?_, hid⟩
  have hmax : (len + 0) % 2 ^ 64 = len := by omega
  have hphys : ∀ i, i ≤ len / 4096 → nextPage ((mapPage root)^[i] ⟨0, 0, s⟩).phys = 4096 * (i + 1) := by
    intro i hi
    rcases identity_iterate h hlen hps hi with ⟨_, _, hi', _⟩
    rw [hi']
    show nextPage (4096 * i) = _
    rw [nextPage, PAGE_SIZE_eq]
    omega
  have hloop : mapPages root len (2 ^ 52) ⟨0, 0, s⟩ = some ((mapPage root)^[len / 4096] ⟨0, 0, s⟩) := by
    refine whileFuel_eq_iterate (by omega) ?_ ?_
    · intro i hi
      rw [hphys i (by omega), decide_eq_true_eq]
      omega
    · rw [hphys _ (Nat.le_refl _), decide_eq_false_iff_not]
      omega
  rw [installPages, hmax, hloop, hiter]
  rfl

end Identity

/-! ## `setup_mmu` -/

/-- The pages that `setup_mmu` maps. -/
def mappedPages (endOfMemory : Nat) : Nat :=
  (if endOfMemory = 0 then 1 <<< 32 else endOfMemory) / 4096

/-- `setup_mmu` ends when there are enough free pages.  The new root is the
head of the free list. -/
theorem setupMmu_spec {k : Kernel} {root endOfMemory : Nat} {ps : List Nat}
    (hfree : FreeList k.toHeap (root :: ps)) (hbound : ∀ p ∈ root :: ps, p < 2 ^ 52)
    (hle : mappedPages endOfMemory ≤ 2 ^ 35)
    (hps : need 512 4 (mappedPages endOfMemory) 3 ≤ ps.length) :
    ∃ T t, setupMmu k endOfMemory
        = some (root, { k with toHeap := t, startCr3 := k.cr3, cr3 := root }) ∧
      Identity (heapAllocPage k.toHeap).2 root (mappedPages endOfMemory) ps T t := by
  have hroot := tables_root hfree hbound
  rcases installPages_identity hroot hle hps with ⟨T, t, hrun, hid⟩
  refine ⟨T, t, ?_, hid⟩
  have hfst : (heapAllocPage k.toHeap).1 = root := (heapAllocPage_cons hfree).1
  unfold setupMmu
  simp only [hfst]
  rw [hrun]
  rfl

/-! ## The identity map -/

/-- One table for each begun block, on each of the three lower levels. -/
theorem need_levels (n : Nat) :
    need 512 4 n 3
      = (n + 512 - 1) / 512 + (n + 512 ^ 2 - 1) / 512 ^ 2 + (n + 512 ^ 3 - 1) / 512 ^ 3 := by
  show 0 + (n + 512 ^ 3 - 1) / 512 ^ 3 + (n + 512 ^ 2 - 1) / 512 ^ 2 + (n + 512 ^ 1 - 1) / 512 ^ 1
    = _
  rw [Nat.pow_one]
  omega

/-- The addresses of the first `n` pages, among the canonical ones. -/
theorem vpn_lt_iff {va n : Nat} (hva : Canonical va) (hn : n ≤ 2 ^ 35) :
    vpn va < n ↔ va < 4096 * n := by
  unfold Canonical at hva
  unfold vpn
  omega

theorem Identity.walk_eq {s t : Heap} {root n : Nat} {ps : List Nat} {T : RadixTree Nat}
    (h : Identity s root n ps T t) (hn : n ≤ 2 ^ 35) {va : Nat} (hva : Canonical va) :
    walk t.mem root va = if va < 4096 * n then some ⟨va, true, true⟩ else none := by
  rw [h.tables.table.walk_eq, h.values]
  by_cases hlt : va < 4096 * n
  · have hvpn : 4096 * vpn va + va % 4096 = va := by
      unfold vpn
      omega
    rw [if_pos hlt, if_pos ((vpn_lt_iff hva hn).2 hlt), Option.map_some, hvpn]
  · rw [if_neg hlt, if_neg fun hvpn => hlt ((vpn_lt_iff hva hn).1 hvpn)]
    rfl

/-- `setup_mmu` takes the root and the tables of the three levels from the
free list and no other page.  The new root is the identity on the first pages
and maps no other canonical address.  Physical addresses have 52 bits. -/
theorem setupMmu_identity_map {k : Kernel} {ps : List Nat} (endOfMemory n : Nat)
    (hn : n = (if endOfMemory = 0 then 2 ^ 32 else endOfMemory) / 4096)
    (hlow : 1 ≤ n) (hhigh : n ≤ 2 ^ 35) (hfree : FreeList k.toHeap ps)
    (hbound : ∀ p ∈ ps, p < 2 ^ 52)
    (hps : 1 + (n + 511) / 512 + (n + (512 ^ 2 - 1)) / 512 ^ 2 + (n + (512 ^ 3 - 1)) / 512 ^ 3
      ≤ ps.length) :
    ∃ root k', setupMmu k endOfMemory = some (root, k') ∧ ps.head? = some root ∧
      FreeList k'.toHeap (ps.drop
        (1 + (n + 511) / 512 + (n + (512 ^ 2 - 1)) / 512 ^ 2 + (n + (512 ^ 3 - 1)) / 512 ^ 3)) ∧
      (∀ va, Canonical va →
        walk k'.mem root va = if va < 4096 * n then some ⟨va, true, true⟩ else none) ∧
      k'.cr3 = root ∧ k'.startCr3 = k.cr3 := by
  have hmapped : mappedPages endOfMemory = n := by
    rw [mappedPages, Nat.one_shiftLeft]
    exact hn.symm
  have hcount : 1 + (n + 511) / 512 + (n + (512 ^ 2 - 1)) / 512 ^ 2 + (n + (512 ^ 3 - 1)) / 512 ^ 3
      = need 512 4 n 3 + 1 := by
    rw [need_levels]
    omega
  rw [hcount] at hps ⊢
  cases ps with
  | nil => exact absurd hps (by simp)
  | cons root ps =>
    rw [List.length_cons, Nat.add_le_add_iff_right, ← hmapped] at hps
    rw [List.drop_succ_cons]
    obtain ⟨T, t, hrun, hid⟩ := setupMmu_spec hfree hbound (hmapped ▸ hhigh) hps
    rw [hmapped] at hid
    exact ⟨root, _, hrun, rfl, hid.tables.free, fun va hva => hid.walk_eq hhigh hva, rfl, rfl⟩

/-- One mapped page takes the root and one table of each lower level. -/
theorem setupMmu_identity_map_onePage :
    ∃ k, FreeList k.toHeap [4096, 8192, 12288, 16384, 20480] ∧
      ∃ root k', setupMmu k 4096 = some (root, k') ∧ FreeList k'.toHeap [20480] ∧
        walk k'.mem root 0x123 = some ⟨0x123, true, true⟩ ∧ walk k'.mem root 0x1000 = none := by
  obtain ⟨s, _, hfree⟩ := exists_freeList (n := 5) (by decide) (by decide)
  rw [show regionPages 4096 5 = [4096, 8192, 12288, 16384, 20480] by decide] at hfree
  let k : Kernel := ⟨s, 0, 0, 0, true, 0, 0⟩
  obtain ⟨root, k', hrun, _, hfree', hwalk, _⟩ := setupMmu_identity_map (k := k) 4096 1
    (by decide) (by decide) (by decide) hfree (by decide) (by decide)
  exact ⟨k, hfree, root, k', hrun, hfree', hwalk 0x123 (by decide), hwalk 0x1000 (by decide)⟩

end HyperBench
