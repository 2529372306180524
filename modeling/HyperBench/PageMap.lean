import HyperBench.PageTable

/-!
# A table root as a finite map

The abstract meaning of a sequence of `install_page` calls on one fresh root
is a finite map from pages to frames, where the last call on a page counts.
`installPage_refines_map` is the refinement: the hardware walk of the memory
behind the calls computes that map.
-/

namespace HyperBench

open ByteMem Radix

/-- The arguments of one `install_page` call. -/
structure MapCall where
  phys : Nat
  virt : Nat
  phys_aligned : phys % PAGE_SIZE = 0
  phys_lt : phys < 2 ^ 52
  virt_aligned : virt % PAGE_SIZE = 0
  virt_canonical : Canonical virt

/-- The calls in the order of the list, on the root `cr3`. -/
def installCalls (s : Heap) (cr3 : Nat) (calls : List MapCall) : Heap :=
  calls.foldl (fun s c => (installPage s cr3 c.phys c.virt).2) s

/-- The last call on the page of `va`. -/
def lastCall (calls : List MapCall) (va : Nat) : Option MapCall :=
  calls.reverse.find? fun c => c.virt / PAGE_SIZE = va / PAGE_SIZE

theorem installCalls_append (s : Heap) (cr3 : Nat) (calls : List MapCall) (c : MapCall) :
    installCalls s cr3 (calls ++ [c])
      = (installPage (installCalls s cr3 calls) cr3 c.phys c.virt).2 := by
  simp [installCalls]

theorem lastCall_append (calls : List MapCall) (c : MapCall) (va : Nat) :
    lastCall (calls ++ [c]) va
      = if c.virt / PAGE_SIZE = va / PAGE_SIZE then some c else lastCall calls va := by
  unfold lastCall
  rw [List.reverse_append, List.reverse_singleton, List.singleton_append, List.find?_cons]
  by_cases h : c.virt / PAGE_SIZE = va / PAGE_SIZE
  · rw [decide_eq_true h, if_pos h]
  · rw [decide_eq_false h, if_neg h]

theorem installCalls_anywhere (s : Heap) (cr3 : Nat) (calls more : List MapCall) :
    Touches Anywhere (installCalls s cr3 calls) (installCalls s cr3 (calls ++ more)) := by
  rw [installCalls, installCalls, List.foldl_append]
  exact Touches.foldl (fun s c => installPte_anywhere _ _ _ _ _ _) _ more

/-- The values of the tree are those of the last calls. -/
structure Maps (s : Heap) (root : Nat) (calls : List MapCall) (T : RadixTree Nat)
    (ps : List Nat) : Prop where
  tables : Tables s root T ps
  values : ∀ va, Canonical va → T 0 (vpn va) = (lastCall calls va).map (·.phys)

theorem Maps.walk_eq {s : Heap} {root : Nat} {calls : List MapCall} {T : RadixTree Nat}
    {ps : List Nat} (h : Maps s root calls T ps) {va : Nat} (hva : Canonical va) :
    walk s.mem root va
      = (lastCall calls va).map fun c => ⟨c.phys + va % PAGE_SIZE, true, true⟩ := by
  rw [h.tables.table.walk_eq, h.values va hva, Option.map_map]
  rfl

/-- The root that `heap_alloc_page` hands out maps nothing. -/
theorem maps_root {s : Heap} {root : Nat} {ps : List Nat} (hfree : FreeList s (root :: ps))
    (hbound : ∀ p ∈ root :: ps, p < 2 ^ 52) :
    Maps (heapAllocPage s).2 root [] (RadixTree.empty.set 4 0 root) ps := by
  refine ⟨tables_root hfree hbound, fun va _ => ?_⟩
  rw [RadixTree.set_of_ne (by omega)]
  rfl

/-- One more call is one more element of the map. -/
theorem Maps.install {s : Heap} {root : Nat} {calls : List MapCall} {T : RadixTree Nat}
    {ps : List Nat} (h : Maps s root calls T ps) (c : MapCall) :
    Exhausted (installPage s root c.phys c.virt).2 ∨
      ∃ T' ps', Maps (installPage s root c.phys c.virt).2 root (calls ++ [c]) T' ps' := by
  have hsim := installPage_sim h.tables c.phys_aligned c.phys_lt c.virt
  cases hins : Radix.insert 512 4 (vpn c.virt) c.phys (T, ps) with
  | none =>
    rw [hins] at hsim
    exact Or.inl hsim
  | some st =>
    rcases st with ⟨T', ps'⟩
    rw [hins] at hsim
    refine Or.inr ⟨T', ps', hsim.1, fun va hva => ?_⟩
    have hvalue : T' 0 (vpn va) = if vpn va = vpn c.virt then some c.phys else T 0 (vpn va) :=
      insert_value (by decide) hins (vpn va)
    have hpage := vpn_eq_iff hva c.virt_canonical
    rw [hvalue, lastCall_append, h.values va hva, PAGE_SIZE_eq]
    by_cases heq : c.virt / 4096 = va / 4096
    · rw [if_pos (hpage.2 heq.symm), if_pos heq]
      rfl
    · rw [if_neg fun hv => heq (hpage.1 hv).symm, if_neg heq]

theorem maps_installCalls {s : Heap} {root : Nat} {ps : List Nat}
    (hfree : FreeList s (root :: ps)) (hbound : ∀ p ∈ root :: ps, p < 2 ^ 52)
    (calls : List MapCall) :
    Exhausted (installCalls (heapAllocPage s).2 root calls) ∨
      ∃ T ps', Maps (installCalls (heapAllocPage s).2 root calls) root calls T ps' := by
  induction calls using List.reverseRecOn with
  | nil => exact Or.inr ⟨_, _, maps_root hfree hbound⟩
  | append_singleton calls c ih =>
    rw [installCalls_append]
    rcases ih with hex | ⟨T, ps', hmaps⟩
    · exact Or.inl ((installPte_anywhere _ _ _ _ _ _).exhausted hex)
    · exact hmaps.install c

/-- Behind any sequence of `install_page` calls on a root from
`heap_alloc_page` the hardware walk sends every canonical address to the
frame of the last call on its page, with all rights, and to nothing when
there is none.  A call does not change the translation of another page. -/
theorem installPage_refines_map {s : Heap} {root : Nat} {ps : List Nat}
    (hfree : FreeList s (root :: ps)) (hbound : ∀ p ∈ root :: ps, p < 2 ^ 52)
    (calls : List MapCall)
    (hnever : ¬ Exhausted (installCalls (heapAllocPage s).2 root calls)) :
    (heapAllocPage s).1 = root ∧
      (∀ va, Canonical va →
        walk (installCalls (heapAllocPage s).2 root calls).mem root va
          = (lastCall calls va).map fun c => ⟨c.phys + va % PAGE_SIZE, true, true⟩) ∧
      ∀ before c after, calls = before ++ c :: after → ∀ va, Canonical va →
        va / PAGE_SIZE ≠ c.virt / PAGE_SIZE →
        walk (installCalls (heapAllocPage s).2 root (before ++ [c])).mem root va
          = walk (installCalls (heapAllocPage s).2 root before).mem root va := by
  -- a list that never ran out had not run out after the first calls either
  have hmaps : ∀ first rest, calls = first ++ rest →
      ∃ T ps', Maps (installCalls (heapAllocPage s).2 root first) root first T ps' := by
    intro first rest heq
    refine (maps_installCalls hfree hbound first).resolve_left fun hex => hnever ?_
    rw [heq]
    exact (installCalls_anywhere _ _ first rest).exhausted hex
  refine ⟨(heapAllocPage_cons hfree).1, ?_, ?_⟩
  · intro va hva
    rcases hmaps calls [] (by simp) with ⟨T, ps', h⟩
    exact h.walk_eq hva
  · intro before c after heq va hva hne
    rcases hmaps before (c :: after) heq with ⟨T, ps', h⟩
    rcases hmaps (before ++ [c]) after (by simp [heq]) with ⟨T', ps'', h'⟩
    rw [h.walk_eq hva, h'.walk_eq hva, lastCall_append, if_neg fun he => hne he.symm]

/-- The calls find their pages when the inserts into the tree do. -/
theorem not_exhausted_installCalls {s : Heap} {root : Nat} {T : RadixTree Nat} {ps : List Nat}
    {calls : List MapCall} (h : Tables s root T ps) (hquiet : ¬ Exhausted s)
    (hsome : (calls.foldlM (fun st c => Radix.insert 512 4 (vpn c.virt) c.phys st)
      (T, ps)).isSome) :
    ¬ Exhausted (installCalls s root calls) := by
  induction calls generalizing s T ps with
  | nil => exact hquiet
  | cons c calls ih =>
    have hsim := installPage_sim h c.phys_aligned c.phys_lt c.virt
    rw [List.foldlM_cons] at hsome
    cases hins : Radix.insert 512 4 (vpn c.virt) c.phys (T, ps) with
    | none =>
      rw [hins] at hsome
      exact absurd hsome (by simp)
    | some st' =>
      rw [hins] at hsim hsome
      exact ih hsim.1 (fun hex => hquiet (hsim.2.2 hex)) hsome

/-- Two neighbouring pages, and then the first of them once more with another
frame. -/
def threeCalls : List MapCall :=
  [⟨0x5000, 0x7000, rfl, by decide, rfl, by decide⟩,
    ⟨0x6000, 0x8000, rfl, by decide, rfl, by decide⟩,
    ⟨0xa000, 0x7000, rfl, by decide, rfl, by decide⟩]

/-- The refinement on three calls, which share the three tables below the
root.  The last call on a page counts. -/
theorem installPage_refines_map_threeCalls :
    ∃ s, FreeList s [4096, 8192, 12288, 16384] ∧
      ¬ Exhausted (installCalls (heapAllocPage s).2 4096 threeCalls) ∧
      walk (installCalls (heapAllocPage s).2 4096 threeCalls).mem 4096 0x7123
        = some ⟨0xa123, true, true⟩ ∧
      walk (installCalls (heapAllocPage s).2 4096 threeCalls).mem 4096 0x8123
        = some ⟨0x6123, true, true⟩ ∧
      walk (installCalls (heapAllocPage s).2 4096 threeCalls).mem 4096 0x9123 = none := by
  rcases exists_freeList (n := 4) (by decide) (by decide) with ⟨s, hquiet, hfree⟩
  rw [show regionPages 4096 4 = [4096, 8192, 12288, 16384] by decide] at hfree
  have hbound : ∀ p ∈ [4096, 8192, 12288, 16384], p < 2 ^ 52 := by decide
  have hquiet' : ¬ Exhausted (heapAllocPage s).2 := fun hex =>
    hquiet ((exhausted_heapAllocPage hfree.freelist_ne_zero).1 hex)
  have hnever : ¬ Exhausted (installCalls (heapAllocPage s).2 4096 threeCalls) :=
    not_exhausted_installCalls (maps_root hfree hbound).tables hquiet' (by decide)
  have hmap := (installPage_refines_map hfree hbound threeCalls hnever).2.1
  refine ⟨s, hfree, hnever, (hmap 0x7123 (by decide)).trans (by decide), ?_, ?_⟩
  · exact (hmap 0x8123 (by decide)).trans (by decide)
  · exact (hmap 0x9123 (by decide)).trans (by decide)

end HyperBench
