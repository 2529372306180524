import HyperBench.FreeList
import HyperBench.Lib.Radix

/-!
# The rounds of `install_pte`

`install_pte` walks down from the root, and it puts a page of the free list
into each slot without a table.  What the slots mean is up to its caller, so
this module has the rounds for every invariant of the tables.

* `Slots low m T R` says that the tables of the tree `T` lie on distinct
  pages of the memory and that the relation `R` holds of their slots.
  `Slots.store` and `Slots.addTable` are the two changes that the kernel
  makes.
* `addTable` is the round that adds a table, and `TableAdded` what it does.
* `Descent root virt bottom P` is what an invariant `P` has to know of a table
  construction.  `Descent.loop` runs the loop of `install_pte` under it: the
  rounds are the nodes of `Radix.path`, and where the supply of the tree runs
  out the heap is `OutOfPage`.
-/

namespace HyperBench

open ByteMem Loop Radix

/-! ## Entries -/

/-- What `install_pte` reads off an entry: no table, or the table at `p`. -/
def Points (e : Nat) : Option Nat → Prop
  | none => e &&& PT_PRESENT_MASK = 0
  | some p => e &&& PT_PRESENT_MASK ≠ 0 ∧ e &&& PT_ADDR_MASK = p

theorem points_entryOf {q : Option Nat} (h : ∀ p, q = some p → p % 4096 = 0 ∧ p < 2 ^ 52) :
    Points (entryOf q) q := by
  cases q with
  | none => exact Nat.zero_and _
  | some p =>
    obtain ⟨ha, hb⟩ := h p rfl
    refine ⟨?_, entryOf_and_PT_ADDR_MASK ha hb⟩
    rw [entryOf_and_PT_PRESENT_MASK ha]
    decide

/-! ## Slots -/

/-- The slot `i` of the table `p` is the one of the element `k` in its table
`pt`. -/
theorem slot_iff {T : RadixTree Nat}
    (hinj : ∀ level k level' k' p, T (level + 1) k = some p → T (level' + 1) k' = some p →
      level = level' ∧ k = k')
    {level k pt l j p i : Nat} (hpt : T (level + 1) (k / 512) = some pt)
    (hp : T (l + 1) j = some p) (hi : i < 512) :
    p = pt ∧ i = k % 512 ↔ l = level ∧ 512 * j + i = k := by
  constructor
  · intro h
    obtain ⟨rfl, rfl⟩ := h
    obtain ⟨rfl, rfl⟩ := hinj _ _ _ _ _ hp hpt
    exact ⟨rfl, Nat.div_add_mod k 512⟩
  · intro h
    obtain ⟨rfl, rfl⟩ := h
    rw [show (512 * j + i) / 512 = j by omega, hp, Option.some.injEq] at hpt
    exact ⟨hpt, by omega⟩

/-- Two slots that are not one and the same have no byte in common. -/
theorem slots_disjoint {p pt i j : Nat} (hp : p % 4096 = 0) (hpt : pt % 4096 = 0) (hi : i < 512)
    (hj : j < 512) (hne : ¬ (p = pt ∧ i = j)) :
    pt + 8 * j + 8 ≤ p + 8 * i ∨ p + 8 * i + 8 ≤ pt + 8 * j := by
  by_cases hpage : p = pt
  · have hij : i ≠ j := fun h => hne ⟨hpage, h⟩
    omega
  · omega

theorem slot_outside_page {p q i : Nat} (hp : p % 4096 = 0) (hq : q % 4096 = 0) (hne : p ≠ q)
    (hi : i < 512) : q + 4096 ≤ p + 8 * i ∨ p + 8 * i + 8 ≤ q := by
  omega

/-- The tables of `T` are distinct pages, and from level `low` on the value of
each slot is in the relation `R` to its place in the tree. -/
structure Slots (low : Nat) (m : Mem) (T : RadixTree Nat) (R : Nat → Nat → Nat → Prop) : Prop where
  entry : ∀ level k p, low ≤ level → level < 4 → T (level + 1) k = some p → ∀ i, i < 512 →
    R level (512 * k + i) (load m (p + 8 * i) 8)
  page : ∀ p, T.IsNode p → p % 4096 = 0 ∧ p < 2 ^ 52
  inj : ∀ level k level' k' p, T (level + 1) k = some p → T (level' + 1) k' = some p →
    level = level' ∧ k = k'

namespace Slots

variable {low : Nat} {m : Mem} {T : RadixTree Nat} {R R' : Nat → Nat → Nat → Prop}

/-- The slot of `v` in its table of level `level + 1`. -/
theorem entry_path (h : Slots low m T R) {level v p : Nat} (hlow : low ≤ level) (hlevel : level < 4)
    (hp : T (level + 1) (v / 512 ^ (level + 1)) = some p) :
    R level (v / 512 ^ level) (load m (p + 8 * (v / 512 ^ level % 512)) 8) := by
  have hdiv : v / 512 ^ (level + 1) = v / 512 ^ level / 512 := by
    rw [Nat.pow_succ, Nat.div_div_eq_div_mul]
  rw [hdiv] at hp
  have he := h.entry level _ p hlow hlevel hp _ (Nat.mod_lt (v / 512 ^ level) (by decide : 0 < 512))
  rwa [Nat.div_add_mod] at he

/-- The slots depend on the pages of the tables only. -/
theorem frame {m' : Mem} (h : Slots low m T R)
    (hm : ∀ p, T.IsNode p → ∀ x, OnPage p x → m' x = m x) : Slots low m' T R := by
  refine ⟨fun level k p hlow hlevel hp i hi => ?_, h.page, h.inj⟩
  have hload : load m' (p + 8 * i) 8 = load m (p + 8 * i) 8 := by
    refine load_congr fun x hx hx' => hm p ⟨level, k, hp⟩ x ?_
    unfold OnPage InRange
    omega
  rw [hload]
  exact h.entry level k p hlow hlevel hp i hi

/-- A store into the slot of `k` changes the value of `k` only. -/
theorem store (h : Slots low m T R) {level k pt v : Nat} (hpt : T (level + 1) (k / 512) = some pt)
    (hv : v % 256 ^ 8 = v) (hold : ∀ l j e, ¬ (l = level ∧ j = k) → R l j e → R' l j e)
    (hnew : low ≤ level → R' level k v) :
    Slots low (ByteMem.store m (pt + 8 * (k % 512)) 8 v) T R' := by
  have hpta := h.page pt ⟨_, _, hpt⟩
  refine ⟨fun l j p hlow hl hp i hi => ?_, h.page, h.inj⟩
  have hpa := h.page p ⟨_, _, hp⟩
  have hslot := slot_iff h.inj hpt hp hi
  by_cases hlk : l = level ∧ 512 * j + i = k
  · obtain ⟨rfl, rfl⟩ := hslot.2 hlk
    obtain ⟨rfl, hlk⟩ := hlk
    rw [load_store_same, hv, hlk]
    exact hnew hlow
  · have hdisj := slots_disjoint hpa.1 hpta.1 hi (Nat.mod_lt k (by decide)) (mt hslot.1 hlk)
    rw [load_store_of_disjoint hdisj]
    exact hold l _ _ hlk (h.entry l j p hlow hl hp i hi)

/-- A page that is cleared and entered into the slot of `k` is a new table. -/
theorem addTable (h : Slots low m T R) {level k pt q : Nat}
    (hpt : T (level + 1) (k / 512) = some pt) (hqa : q % 4096 = 0) (hqb : q < 2 ^ 52)
    (hfresh : ¬ T.IsNode q) (hold : ∀ l j e, ¬ (l = level ∧ j = k) → R l j e → R' l j e)
    (hnew : R' level k (entryOf (some q)))
    (hbelow : ∀ l, low ≤ l → level = l + 1 → ∀ i, i < 512 → R' l (512 * k + i) 0) :
    Slots low (ByteMem.store (fill m q 4096 0) (pt + 8 * (k % 512)) 8 (entryOf (some q)))
      (T.set level k q) R' := by
  have hpta := h.page pt ⟨_, _, hpt⟩
  have hne : pt ≠ q := fun he => hfresh (he ▸ ⟨_, _, hpt⟩)
  refine ⟨?_, ?_, ?_⟩
  · intro l j p hlow hl hp i hi
    rcases RadixTree.set_eq_some hp with ⟨hlevel, rfl, rfl⟩ | ⟨_, hp₀⟩
    · -- the new table
      rw [load_store_of_disjoint (by omega), load_fill_zero (by omega) (by omega)]
      exact hbelow l hlow hlevel.symm i hi
    · -- an old table, whose slot may be the one of the store
      have hpa := h.page p ⟨_, _, hp₀⟩
      have hpq : p ≠ q := fun he => hfresh (he ▸ ⟨_, _, hp₀⟩)
      have hslot := slot_iff h.inj hpt hp₀ hi
      by_cases hlk : l = level ∧ 512 * j + i = k
      · obtain ⟨rfl, rfl⟩ := hslot.2 hlk
        obtain ⟨rfl, hlk⟩ := hlk
        rw [load_store_same, entryOf_mod hqa hqb, hlk]
        exact hnew
      · have hdisj := slots_disjoint hpa.1 hpta.1 hi (Nat.mod_lt k (by decide)) (mt hslot.1 hlk)
        rw [load_store_of_disjoint hdisj, load_fill_of_disjoint (slot_outside_page hpa.1 hqa hpq hi)]
        exact hold l _ _ hlk (h.entry l j p hlow hl hp₀ i hi)
  · intro p hp
    rcases hp.of_set with hp | rfl
    · exact h.page p hp
    · exact ⟨hqa, hqb⟩
  · intro l j l' j' p hp hp'
    rcases RadixTree.set_eq_some hp with ⟨hl, hj, rfl⟩ | ⟨_, hp₀⟩
    · rcases RadixTree.set_eq_some hp' with ⟨hl', hj', _⟩ | ⟨_, hp'₀⟩
      · omega
      · exact absurd ⟨_, _, hp'₀⟩ hfresh
    · rcases RadixTree.set_eq_some hp' with ⟨hl', hj', rfl⟩ | ⟨_, hp'₀⟩
      · exact absurd ⟨_, _, hp₀⟩ hfresh
      · exact h.inj _ _ _ _ _ hp₀ hp'₀

end Slots

/-- The values of the tree are no tables. -/
theorem Slots.set_value {low : Nat} {m : Mem} {T : RadixTree Nat} {R : Nat → Nat → Nat → Prop}
    (h : Slots low m T R) (v f : Nat) : Slots low m (T.set 0 v f) R := by
  have hnode : ∀ {level k : Nat}, T.set 0 v f (level + 1) k = T (level + 1) k :=
    RadixTree.set_of_ne (by omega)
  refine ⟨?_, ?_, ?_⟩
  · intro level k p hlow hlevel hp
    exact h.entry level k p hlow hlevel (hnode ▸ hp)
  · rintro p ⟨level, k, hp⟩
    exact h.page p ⟨level, k, hnode ▸ hp⟩
  · intro level k level' k' p hp hp'
    exact h.inj level k level' k' p (hnode ▸ hp) (hnode ▸ hp')

/-- There is nothing below a table that is not there. -/
theorem none_below {T : RadixTree Nat} {low l k i : Nat}
    (h : ∀ l j, low ≤ l → l < 4 → T l j ≠ none → T (l + 1) (j / 512) ≠ none) (hlow : low ≤ l)
    (hl : l < 4) (hnone : T (l + 1) k = none) (hi : i < 512) : T l (512 * k + i) = none := by
  by_contra hne
  apply h l _ hlow hl hne
  rw [show (512 * k + i) / 512 = k by omega]
  exact hnone

/-- A new element hangs below a table, as the others do. -/
theorem parent_set {T : RadixTree Nat} {low level k pt : Nat}
    (h : ∀ l j, low ≤ l → l < 4 → T l j ≠ none → T (l + 1) (j / 512) ≠ none)
    (hpt : T (level + 1) (k / 512) = some pt) (q l j : Nat) (hlow : low ≤ l) (hl : l < 4)
    (hne : T.set level k q l j ≠ none) : T.set level k q (l + 1) (j / 512) ≠ none := by
  apply RadixTree.set_isSome
  by_cases hlj : l = level ∧ j = k
  · rw [hlj.1, hlj.2, hpt]
    exact Option.some_ne_none pt
  · rw [RadixTree.set_of_ne hlj] at hne
    exact h l j hlow hl hne

/-! ## Pages of a construction -/

theorem InRange.onPage {pt i x : Nat} (hi : i < 512) (hx : InRange (pt + 8 * i) 8 x) :
    OnPage pt x := by
  unfold OnPage InRange at *
  omega

/-- The pages that a table construction may touch: its tables and the free
pages. -/
def Owned (T : RadixTree Nat) (ps : List Nat) (x : Nat) : Prop :=
  ∃ p, (T.IsNode p ∨ p ∈ ps) ∧ OnPage p x

theorem Owned.of_supply {T T' : RadixTree Nat} {ps ps' taken : List Nat} {x : Nat}
    (hps : ps = taken ++ ps') (hnode : ∀ p, T'.IsNode p → T.IsNode p ∨ p ∈ taken)
    (h : Owned T' ps' x) : Owned T ps x := by
  rcases h with ⟨p, hp | hp, hx⟩
  · rcases hnode p hp with hp | hp
    · exact ⟨p, Or.inl hp, hx⟩
    · exact ⟨p, Or.inr (hps ▸ List.mem_append_left ps' hp), hx⟩
  · exact ⟨p, Or.inr (hps ▸ List.mem_append_right taken hp), hx⟩

theorem Owned.of_extends {T T' : RadixTree Nat} {ps ps' : List Nat} (h : Extends (T, ps) (T', ps'))
    {x : Nat} (hx : Owned T' ps' x) : Owned T ps x := by
  rcases h.supply with ⟨taken, hps, hnode⟩
  exact hx.of_supply hps hnode

/-- A slot of a table lies in the pages of the construction. -/
theorem Owned.slot {T : RadixTree Nat} (ps : List Nat) {pt i x : Nat} (hpt : T.IsNode pt)
    (hi : i < 512) (hx : InRange (pt + 8 * i) 8 x) : Owned T ps x :=
  ⟨pt, Or.inl hpt, hx.onPage hi⟩

/-- The round of `install_pte` that finds a table. -/
theorem nextTable_of_present {virt level : Nat} {c : PteCursor}
    (he : load c.heap.mem (c.pt + 8 * PGDIR_OFFSET virt level) 8 &&& PT_PRESENT_MASK ≠ 0) :
    nextTable virt level c =
      ⟨load c.heap.mem (c.pt + 8 * PGDIR_OFFSET virt level) 8 &&& PT_ADDR_MASK, c.ptPage,
        ((c.heap.readWord (c.pt + 8 * PGDIR_OFFSET virt level)).2.readWord
          (c.pt + 8 * PGDIR_OFFSET virt level)).2⟩ := by
  simp [nextTable, he]

/-- The heap in which a round of `install_pte` has put a new table. -/
def addTable (s : Heap) (slot : Nat) : Heap :=
  let (newPt, s) := heapAllocPage (s.readWord slot).2
  (memset s newPt 0 PAGE_SIZE).writeWord slot (entryOf (some newPt))

/-- The round of `install_pte` that adds a table. -/
theorem nextTable_of_absent {virt level : Nat} {c : PteCursor} (hpage : c.ptPage = 0)
    (he : load c.heap.mem (c.pt + 8 * PGDIR_OFFSET virt level) 8 &&& PT_PRESENT_MASK = 0) :
    nextTable virt level c =
      ⟨load (addTable c.heap (c.pt + 8 * PGDIR_OFFSET virt level)).mem
          (c.pt + 8 * PGDIR_OFFSET virt level) 8 &&& PT_ADDR_MASK, 0,
        ((addTable c.heap (c.pt + 8 * PGDIR_OFFSET virt level)).readWord
          (c.pt + 8 * PGDIR_OFFSET virt level)).2⟩ := by
  simp [nextTable, takeTable, addTable, entryOf, hpage, he]

/-- What the new table changes. -/
theorem addTable_spec {s : Heap} {p slot : Nat} {ps : List Nat} (h : FreeList s (p :: ps))
    (hslot : ∀ q ∈ p :: ps, ∀ x, InRange slot 8 x → ¬ OnPage q x) :
    (addTable s slot).mem = store (fill s.mem p 4096 0) slot 8 (entryOf (some p)) ∧
      FreeList (addTable s slot) ps ∧
      Touches (fun x => InRange slot 8 x ∨ OnPage p x) s (addTable s slot) ∧
      (Exhausted (addTable s slot) → Exhausted s) := by
  have hread : FreeList (s.readWord slot).2 (p :: ps) := h.readWord slot
  rcases heapAllocPage_cons hread with ⟨hfst, hmem, htouch, hfree⟩
  have heq : addTable s slot = (memset (heapAllocPage (s.readWord slot).2).2 p 0 4096).writeWord
      slot (entryOf (some p)) := by
    simp [addTable, hfst]
  have htouch' : Touches (fun x => InRange slot 8 x ∨ OnPage p x) s (addTable s slot) := by
    rw [heq]
    refine Touches.trans ((touches_readWord s slot).mono fun x => Or.inl) ?_
    refine Touches.trans (htouch.mono fun x => Or.inr) ?_
    refine Touches.trans ((memset_touches _ p 0 4096).mono fun x => Or.inr) ?_
    exact (touches_writeWord _ slot _).mono fun x => Or.inl
  refine ⟨?_, ?_, htouch', ?_⟩
  · rw [heq, writeWord_mem, memset_mem, hmem]
    congr 1
    funext x
    by_cases hx : p ≤ x ∧ x < p + 4096
    · rw [fill_apply_of_inside hx.1 hx.2, fill_apply_of_inside hx.1 hx.2]
    · rw [fill_apply_of_outside (by omega)]
      rfl
  · have hset : Touches (fun x => InRange slot 8 x ∨ OnPage p x)
        (heapAllocPage (s.readWord slot).2).2 (addTable s slot) := by
      rw [heq]
      refine Touches.trans ((memset_touches _ p 0 4096).mono fun x => Or.inr) ?_
      exact (touches_writeWord _ slot _).mono fun x => Or.inl
    refine hfree.frame hset ?_ ?_
    · rw [heq, writeWord_freelist, memset_freelist]
    · intro q hq x hx hA
      rcases hA with hA | hA
      · exact hslot q (List.mem_cons_of_mem p hq) x hA hx
      · have hqp : q ≠ p := fun he => (List.nodup_cons.1 h.nodup).1 (he ▸ hq)
        exact hx.disjoint (h.aligned q (List.mem_cons_of_mem p hq))
          (h.aligned p List.mem_cons_self) hqp hA
  · rw [heq, exhausted_writeWord, exhausted_memset,
      exhausted_heapAllocPage hread.freelist_ne_zero, exhausted_readWord]
    exact id

/-- Without a free page the new table is page 0. -/
theorem addTable_nil {s : Heap} (h : FreeList s []) (slot : Nat) :
    addTable s slot = (memset ((s.readWord slot).2.print freelistUninitialized) 0 0
      PAGE_SIZE).writeWord slot (entryOf (some 0)) := by
  have hread : FreeList (s.readWord slot).2 [] := h.readWord slot
  simp [addTable, heapAllocPage_nil hread]

theorem addTable_exhausted {s : Heap} (h : FreeList s []) (slot : Nat) :
    Exhausted (addTable s slot) := by
  rw [addTable_nil h]
  apply (touches_writeWord _ slot _).exhausted
  apply (memset_touches _ 0 0 PAGE_SIZE).exhausted
  simp [Exhausted, Heap.print]

/-- From `s` to `t` the page `p` has become a table, with its entry in
`slot`. -/
structure TableAdded (T : RadixTree Nat) (p : Nat) (ps : List Nat) (slot : Nat) (s t : Heap) :
    Prop where
  mem : t.mem = store (fill s.mem p 4096 0) slot 8 (entryOf (some p))
  free : FreeList t ps
  touches : Touches (Owned T (p :: ps)) s t
  quiet : Exhausted t → Exhausted s
  value : load t.mem slot 8 = entryOf (some p)

/-- The slots of a table lie on no free page. -/
theorem slot_not_free {s : Heap} {T : RadixTree Nat} {pt i : Nat} {ps : List Nat}
    (h : FreeList s ps) (hfresh : ∀ q ∈ ps, ¬ T.IsNode q) (hpt : T.IsNode pt)
    (hpta : pt % 4096 = 0) (hi : i < 512) :
    ∀ q ∈ ps, ∀ x, InRange (pt + 8 * i) 8 x → ¬ OnPage q x := by
  intro q hq x hx
  have hne : pt ≠ q := fun he => hfresh q hq (he ▸ hpt)
  exact (hx.onPage hi).disjoint hpta (h.aligned q hq) hne

/-- A store into a table leaves the free list alone. -/
theorem FreeList.writeSlot {s : Heap} {T : RadixTree Nat} {pt i : Nat} {ps : List Nat}
    (h : FreeList s ps) (hfresh : ∀ q ∈ ps, ¬ T.IsNode q) (hpt : T.IsNode pt)
    (hpta : pt % 4096 = 0) (hi : i < 512) (e : Nat) : FreeList (s.writeWord (pt + 8 * i) e) ps :=
  h.frame (touches_writeWord s _ e) rfl fun q hq x hx hslot =>
    slot_not_free h hfresh hpt hpta hi q hq x hslot hx

theorem tableAdded_addTable {s : Heap} {T : RadixTree Nat} {p pt i : Nat} {ps : List Nat}
    (h : FreeList s (p :: ps)) (hbound : p < 2 ^ 52) (hfresh : ∀ q ∈ p :: ps, ¬ T.IsNode q)
    (hpt : T.IsNode pt) (hpta : pt % 4096 = 0) (hi : i < 512) :
    TableAdded T p ps (pt + 8 * i) s (addTable s (pt + 8 * i)) := by
  obtain ⟨hmem, hfree, htouch, hquiet⟩ :=
    addTable_spec h (slot_not_free h hfresh hpt hpta hi)
  refine ⟨hmem, hfree, htouch.mono fun x hx => ?_, hquiet, ?_⟩
  · rcases hx with hx | hx
    · exact ⟨pt, Or.inl hpt, hx.onPage hi⟩
    · exact ⟨p, Or.inr List.mem_cons_self, hx⟩
  · rw [hmem, load_store_same, entryOf_mod (h.aligned p List.mem_cons_self) hbound]

/-- The free pages behind the new table are no tables. -/
theorem fresh_set {T : RadixTree Nat} {p : Nat} {ps : List Nat} (hnodup : (p :: ps).Nodup)
    (hfresh : ∀ q ∈ p :: ps, ¬ T.IsNode q) (level k : Nat) :
    ∀ q ∈ ps, ¬ (T.set level k p).IsNode q := by
  intro q hq hnode
  rcases hnode.of_set with hnode | rfl
  · exact hfresh q (List.mem_cons_of_mem p hq) hnode
  · exact (List.nodup_cons.1 hnodup).1 hq

/-! ## The loop -/

/-- The free pages of a construction are none of its tables. -/
structure Supplied (s : Heap) (T : RadixTree Nat) (ps : List Nat) : Prop where
  free : FreeList s ps
  bound : ∀ p ∈ ps, p < 2 ^ 52
  fresh : ∀ p ∈ ps, ¬ T.IsNode p
  page : ∀ p, T.IsNode p → p % 4096 = 0 ∧ p < 2 ^ 52

/-- The addresses of the tables. -/
def OnTable (T : RadixTree Nat) (x : Nat) : Prop := ∃ p, T.IsNode p ∧ OnPage p x

theorem OnTable.slot {T : RadixTree Nat} {pt i x : Nat} (hpt : T.IsNode pt) (hi : i < 512)
    (hx : InRange (pt + 8 * i) 8 x) : OnTable T x := ⟨pt, hpt, hx.onPage hi⟩

theorem OnTable.owned {T T' : RadixTree Nat} {ps ps' : List Nat} (h : Extends (T, ps) (T', ps'))
    {x : Nat} (hx : OnTable T' x) : Owned T ps x := by
  obtain ⟨p, hp, hx⟩ := hx
  exact Owned.of_extends h ⟨p, Or.inl hp, hx⟩

/-- Between the two heaps a table was added without a free page for it. -/
def OutOfPage (s t : Heap) : Prop :=
  ∃ u slot, Touches Anywhere s u ∧ FreeList u [] ∧ Touches Anywhere (addTable u slot) t

theorem OutOfPage.exhausted {s t : Heap} (h : OutOfPage s t) : Exhausted t := by
  obtain ⟨u, slot, _, hfree, ht⟩ := h
  exact ht.exhausted (addTable_exhausted hfree slot)

theorem OutOfPage.trans_left {s t u : Heap} (hs : Touches Anywhere s t) (h : OutOfPage t u) :
    OutOfPage s u := by
  obtain ⟨v, slot, hv, hfree, ht⟩ := h
  exact ⟨v, slot, hs.trans hv, hfree, ht⟩

theorem OutOfPage.trans_right {s t u : Heap} (h : OutOfPage s t) (ht : Touches Anywhere t u) :
    OutOfPage s u := by
  obtain ⟨v, slot, hv, hfree, hu⟩ := h
  exact ⟨v, slot, hv, hfree, hu.trans ht⟩

/-- An invariant `P` of the heap, the tables and the free pages that the
rounds of `install_pte` on the path of `virt` down to level `bottom` keep. -/
structure Descent (root virt bottom : Nat) (P : Heap → RadixTree Nat → List Nat → Prop) : Prop where
  bottom_pos : 0 < bottom
  supplied : ∀ {s T ps}, P s T ps → Supplied s T ps
  root_eq : ∀ {s T ps}, P s T ps → T 4 0 = some root
  readWord : ∀ {s T ps}, P s T ps → ∀ a, P (s.readWord a).2 T ps
  points : ∀ {s T ps}, P s T ps → ∀ {level pt}, bottom ≤ level → level < 4 →
    T (level + 1) (vpn virt / 512 ^ (level + 1)) = some pt →
    Points (load s.mem (pt + 8 * (vpn virt / 512 ^ level % 512)) 8)
      (T level (vpn virt / 512 ^ level))
  addTable : ∀ {s T p ps}, P s T (p :: ps) → ∀ {level pt}, bottom ≤ level → level < 4 →
    T (level + 1) (vpn virt / 512 ^ level / 512) = some pt →
    T level (vpn virt / 512 ^ level) = none →
    TableAdded T p ps (pt + 8 * (vpn virt / 512 ^ level % 512)) s
      (addTable s (pt + 8 * (vpn virt / 512 ^ level % 512))) →
    P (addTable s (pt + 8 * (vpn virt / 512 ^ level % 512)))
      (T.set level (vpn virt / 512 ^ level) p) ps

/-- The loop of `install_pte` has reached the node `k` of a level, and the
tables and the free pages are `T` and `ps` now. -/
structure Reached (P : Heap → RadixTree Nat → List Nat → Prop) (s : Heap) (level k : Nat)
    (T : RadixTree Nat) (ps : List Nat) (c : PteCursor) : Prop where
  holds : P c.heap T ps
  cursor : T level k = some c.pt
  ptPage : c.ptPage = 0
  touches : Touches (OnTable T) s c.heap
  quiet : Exhausted c.heap → Exhausted s

variable {root virt bottom : Nat} {P : Heap → RadixTree Nat → List Nat → Prop}

/-- One round of `install_pte` is one `Radix.node`. -/
theorem Descent.round (hP : Descent root virt bottom P) {c : PteCursor} {level : Nat}
    {T : RadixTree Nat} {ps : List Nat} (h : P c.heap T ps) (hbottom : bottom ≤ level)
    (hlevel : level < 4) (hpt : T (level + 1) (vpn virt / 512 ^ (level + 1)) = some c.pt)
    (hpage : c.ptPage = 0) :
    match node level (vpn virt / 512 ^ level) (T, ps) with
    | none => OutOfPage c.heap (nextTable virt (level + 1) c).heap
    | some (T', ps') =>
      Reached P c.heap level (vpn virt / 512 ^ level) T' ps' (nextTable virt (level + 1) c) := by
  have hentry := hP.points h hbottom hlevel hpt
  have hptnode : T.IsNode c.pt := ⟨level, _, hpt⟩
  have hi : vpn virt / 512 ^ level % 512 < 512 := Nat.mod_lt _ (by decide)
  have hsup := hP.supplied h
  rw [← PGDIR_OFFSET_eq_index hlevel] at hentry hi
  cases hq : T level (vpn virt / 512 ^ level) with
  | some q =>
    rw [hq] at hentry
    have hread : ∀ s : Heap, Touches (OnTable T) s
        (s.readWord (c.pt + 8 * PGDIR_OFFSET virt (level + 1))).2 := fun s =>
      (touches_readWord s _).mono fun x hx => OnTable.slot hptnode hi hx
    rw [node_of_some hq, nextTable_of_present hentry.1, hentry.2]
    exact ⟨hP.readWord (hP.readWord h _) _, hq, hpage, (hread _).trans (hread _), by simp⟩
  | none =>
    rw [hq] at hentry
    rw [nextTable_of_absent hpage hentry]
    have hread := touches_readWord (HyperBench.addTable c.heap
      (c.pt + 8 * PGDIR_OFFSET virt (level + 1))) (c.pt + 8 * PGDIR_OFFSET virt (level + 1))
    cases ps with
    | nil =>
      rw [node_of_nil hq]
      exact ⟨c.heap, _, Touches.refl _ _, hsup.free, hread.anywhere⟩
    | cons p ps =>
      have hpb := hsup.bound p List.mem_cons_self
      have hadd := tableAdded_addTable hsup.free hpb hsup.fresh hptnode
        (hsup.page _ hptnode).1 hi
      have hpt' : T (level + 1) (vpn virt / 512 ^ level / 512) = some c.pt := by
        rw [Nat.div_div_eq_div_mul, ← Nat.pow_succ]
        exact hpt
      have hnode : (T.set level (vpn virt / 512 ^ level) p).IsNode p := by
        obtain ⟨l, rfl⟩ := Nat.exists_eq_succ_of_ne_zero
          (Nat.ne_of_gt (Nat.lt_of_lt_of_le hP.bottom_pos hbottom))
        exact ⟨l, _, RadixTree.set_same _ _ _ _⟩
      have hkeep : (T.set level (vpn virt / 512 ^ level) p).IsNode c.pt := by
        refine ⟨level, vpn virt / 512 ^ (level + 1), ?_⟩
        rw [RadixTree.set_of_ne (by omega)]
        exact hpt
      have htouch := (addTable_spec hsup.free
        (slot_not_free hsup.free hsup.fresh hptnode (hsup.page _ hptnode).1 hi)).2.2.1
      rw [node_of_none hq]
      refine ⟨?_, ?_, rfl, ?_, fun he => hadd.quiet ((exhausted_readWord _ _).1 he)⟩
      · rw [PGDIR_OFFSET_eq_index hlevel] at hadd ⊢
        exact hP.readWord (hP.addTable h hbottom hlevel hpt' hq hadd) _
      · rw [RadixTree.set_same, hadd.value,
          entryOf_and_PT_ADDR_MASK (hsup.free.aligned p List.mem_cons_self) hpb]
      · refine (htouch.mono ?_).trans (hread.mono fun x hx => OnTable.slot hkeep hi hx)
        rintro x (hx | hx)
        · exact OnTable.slot hkeep hi hx
        · exact ⟨p, hnode, hx⟩

/-- A store into the table that the loop has reached. -/
theorem Reached.touches_writeSlot {s : Heap} {level k : Nat} {T : RadixTree Nat} {ps : List Nat}
    {c : PteCursor} (h : Reached P s (level + 1) k T ps c) {i : Nat} (hi : i < 512) (e : Nat) :
    Touches (OnTable T) s (c.heap.writeWord (c.pt + 8 * i) e) :=
  h.touches.trans ((touches_writeWord _ _ e).mono fun _ hx =>
    OnTable.slot ⟨level, k, h.cursor⟩ hi hx)

/-- The rounds of `install_pte` are the nodes of `Radix.path`. -/
theorem Descent.loop (hP : Descent root virt bottom P) {s : Heap} {T : RadixTree Nat}
    {ps : List Nat} (h : P s T ps) {n : Nat} (hn : n + bottom ≤ 4) :
    match path 512 4 (vpn virt) n (T, ps) with
    | none => OutOfPage s (forUpTo (fun i c => nextTable virt (4 - i) c) n ⟨root, 0, s⟩).heap
    | some (T', ps') =>
      Reached P s (4 - n) (vpn virt / 512 ^ (4 - n)) T' ps'
        (forUpTo (fun i c => nextTable virt (4 - i) c) n ⟨root, 0, s⟩) := by
  induction n with
  | zero =>
    refine ⟨h, ?_, rfl, Touches.refl _ s, id⟩
    show T 4 (vpn virt / 512 ^ 4) = some root
    rw [Nat.div_eq_of_lt (vpn_lt virt)]
    exact hP.root_eq h
  | succ n ih =>
    have hih := ih (by omega)
    have hpos := hP.bottom_pos
    rw [forUpTo_succ, path]
    set c := forUpTo (fun i c => nextTable virt (4 - i) c) n ⟨root, 0, s⟩
    cases hpath : path 512 4 (vpn virt) n (T, ps) with
    | none =>
      rw [hpath] at hih
      exact hih.trans_right (nextTable_anywhere virt (4 - n) c)
    | some st =>
      obtain ⟨T₁, ps₁⟩ := st
      rw [hpath] at hih
      have hlevel : 4 - n = (3 - n) + 1 := by omega
      have hcursor := hih.cursor
      rw [hlevel] at hcursor
      have hround := hP.round hih.holds (by omega) (by omega) hcursor hih.ptPage
      rw [Option.bind_some, hlevel, show 4 - (n + 1) = 3 - n by omega,
        show 4 - 1 - n = 3 - n by omega]
      cases hnode : node (3 - n) (vpn virt / 512 ^ (3 - n)) (T₁, ps₁) with
      | none =>
        rw [hnode] at hround
        exact hround.trans_left hih.touches.anywhere
      | some st =>
        obtain ⟨T₂, ps₂⟩ := st
        rw [hnode] at hround
        refine ⟨hround.holds, hround.cursor, hround.ptPage,
          (hih.touches.mono ?_).trans hround.touches, fun he => hih.quiet (hround.quiet he)⟩
        rintro x ⟨p, ⟨l, j, hp⟩, hx⟩
        exact ⟨p, ⟨l, j, node_keeps hnode hp⟩, hx⟩

end HyperBench
