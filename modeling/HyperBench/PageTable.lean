import HyperBench.Construction

/-!
# Page tables in memory

`PageTable m root T` says that the memory `m` holds the radix tree `T` of
depth 4 and fan-out 512 as page tables: the tables of `T` are distinct
pages, and every slot of every table has the value that `T` gives it.  The
values of `T` are the mapped frames, by page number.

* `PageTable.walk_eq` reads the hardware walk off the tree.
* `PageTable.setValue` and `PageTable.addTable` are the two changes that the
  kernel makes: a store into one slot is `RadixTree.set`.
* `Tables s root T ps` adds the free list, whose pages are the supply of the
  tree.  `tables_descent` and `installPage_sim` are the simulation:
  `install_page` does to memory what `Radix.insert` does to the tree, and
  where the supply runs out the heap is `Exhausted`.
-/

namespace HyperBench

open ByteMem Loop Radix

/-! ## The tree in memory -/

/-- The memory holds the tree `T` as page tables below `root`. -/
structure PageTable (m : Mem) (root : Nat) (T : RadixTree Nat) : Prop where
  root_eq : T 4 0 = some root
  entry : ∀ level k p, level < 4 → T (level + 1) k = some p → ∀ i, i < 512 →
    load m (p + 8 * i) 8 = entryOf (T level (512 * k + i))
  parent : ∀ level k, level < 4 → T level k ≠ none → T (level + 1) (k / 512) ≠ none
  page : ∀ level k p, T level k = some p → p % 4096 = 0 ∧ p < 2 ^ 52
  inj : ∀ level k level' k' p, T (level + 1) k = some p → T (level' + 1) k' = some p →
    level = level' ∧ k = k'

namespace PageTable

variable {m m' : Mem} {root : Nat} {T : RadixTree Nat}

theorem isNode_page (h : PageTable m root T) {p : Nat} (hp : T.IsNode p) :
    p % 4096 = 0 ∧ p < 2 ^ 52 := by
  rcases hp with ⟨level, k, hp⟩
  exact h.page _ _ _ hp

theorem root_isNode (h : PageTable m root T) : T.IsNode root := ⟨3, 0, h.root_eq⟩

/-- The slots of the tables have the values of the tree. -/
theorem slots (h : PageTable m root T) : Slots 0 m T fun l j e => e = entryOf (T l j) :=
  ⟨fun level k p _ => h.entry level k p, fun _ => h.isNode_page, h.inj⟩

/-- A page table depends on its own pages only. -/
theorem frame (h : PageTable m root T)
    (hm : ∀ p, T.IsNode p → ∀ x, OnPage p x → m' x = m x) : PageTable m' root T :=
  ⟨h.root_eq, fun level k p => (h.slots.frame hm).entry level k p (Nat.zero_le level), h.parent,
    h.page, h.inj⟩

/-- The slot of `v` in its table of level `level + 1`. -/
theorem entry_path (h : PageTable m root T) {level v p : Nat} (hlevel : level < 4)
    (hp : T (level + 1) (v / 512 ^ (level + 1)) = some p) :
    load m (p + 8 * (v / 512 ^ level % 512)) 8 = entryOf (T level (v / 512 ^ level)) :=
  h.slots.entry_path (Nat.zero_le level) hlevel hp

/-- A missing table leaves no value below it. -/
theorem value_eq_none (h : PageTable m root T) {level v : Nat} (hlevel : level ≤ 4)
    (hnone : T level (v / 512 ^ level) = none) : T 0 v = none := by
  induction level with
  | zero => simpa using hnone
  | succ level ih =>
    apply ih (by omega)
    by_contra hne
    apply h.parent level _ (by omega) hne
    rw [Nat.div_div_eq_div_mul, ← Nat.pow_succ]
    exact hnone

/-- The walk from a table on the path of `va`. -/
theorem walkFrom_eq (h : PageTable m root T) {va level p : Nat} (hlevel : level < 4)
    (hp : T (level + 1) (vpn va / 512 ^ (level + 1)) = some p) (writable user : Bool) :
    walkFrom m va (level + 1) p writable user
      = (T 0 (vpn va)).map fun f => ⟨f + va % 4096, writable, user⟩ := by
  induction level generalizing p with
  | zero =>
    have he := h.entry_path hlevel hp
    rw [← PGDIR_OFFSET_eq_index hlevel, Nat.pow_zero, Nat.div_one] at he
    cases hf : T 0 (vpn va) with
    | none =>
      rw [hf] at he
      rw [walkFrom_of_empty he]
      rfl
    | some f =>
      rw [hf] at he
      rcases h.page _ _ _ hf with ⟨ha, hb⟩
      rw [walkFrom_of_frame ha hb he]
      rfl
  | succ level ih =>
    have he := h.entry_path hlevel hp
    rw [← PGDIR_OFFSET_eq_index hlevel] at he
    cases hq : T (level + 1) (vpn va / 512 ^ (level + 1)) with
    | none =>
      rw [hq] at he
      rw [walkFrom_of_empty he, h.value_eq_none (by omega) hq]
      rfl
    | some q =>
      rw [hq] at he
      rcases h.page _ _ _ hq with ⟨ha, hb⟩
      rw [walkFrom_of_table (Nat.succ_pos level) ha hb he]
      exact ih (by omega) hq

/-- The hardware walk finds exactly the values of the tree. -/
theorem walk_eq (h : PageTable m root T) (va : Nat) :
    walk m root va = (T 0 (vpn va)).map fun f => ⟨f + va % 4096, true, true⟩ := by
  rcases h.page _ _ _ h.root_eq with ⟨ha, hb⟩
  have htop : vpn va / 512 ^ 4 = 0 := Nat.div_eq_of_lt (vpn_lt va)
  rw [walk, root_and_PT_ADDR_MASK ha hb, PAGE_LEVEL_eq]
  refine h.walkFrom_eq (by decide) ?_ true true
  rw [htop]
  exact h.root_eq

/-- The slots of a tree with one more element. -/
theorem ofSlots (h : PageTable m root T) {level k pt q : Nat}
    (hslots : Slots 0 m' (T.set level k q) fun l j e => e = entryOf (T.set level k q l j))
    (hlevel : level < 4) (hpt : T (level + 1) (k / 512) = some pt) (hqa : q % 4096 = 0)
    (hqb : q < 2 ^ 52) : PageTable m' root (T.set level k q) := by
  refine ⟨?_, fun l j p => hslots.entry l j p (Nat.zero_le l), ?_, ?_, hslots.inj⟩
  · rw [RadixTree.set_of_ne (by omega)]
    exact h.root_eq
  · exact fun l j => parent_set (fun l j _ => h.parent l j) hpt q l j (Nat.zero_le l)
  · intro l j p hp
    rcases RadixTree.set_eq_some hp with ⟨_, _, rfl⟩ | ⟨_, hp⟩
    · exact ⟨hqa, hqb⟩
    · exact h.page _ _ _ hp

/-- A cleared page is a table without entries. -/
theorem ofRoot {root : Nat} (ha : root % 4096 = 0) (hb : root < 2 ^ 52)
    (hzero : ∀ x, OnPage root x → m x = 0) :
    PageTable m root (RadixTree.empty.set 4 0 root) := by
  have hcase : ∀ {level k p : Nat},
      RadixTree.empty.set 4 0 root level k = some p → level = 4 ∧ k = 0 ∧ p = root := by
    intro level k p hp
    rcases RadixTree.set_eq_some hp with h | ⟨_, h⟩
    · exact h
    · exact absurd h (by simp)
  refine ⟨RadixTree.set_same _ 4 0 root, ?_, ?_, ?_, ?_⟩
  · intro level k p hlevel hp i hi
    rcases hcase hp with ⟨hl, _, rfl⟩
    rw [RadixTree.set_of_ne (by omega), RadixTree.empty_apply, entryOf_none]
    apply load_eq_zero
    intro x hx hx'
    apply hzero
    unfold OnPage InRange
    omega
  · intro level k hlevel hne
    rw [RadixTree.set_of_ne (by omega)] at hne
    exact absurd rfl hne
  · intro level k p hp
    rcases hcase hp with ⟨_, _, rfl⟩
    exact ⟨ha, hb⟩
  · intro level k level' k' p hp hp'
    have h1 := hcase hp
    have h2 := hcase hp'
    omega

/-- A store into a slot of the last level sets a value. -/
theorem setValue (h : PageTable m root T) {v pt f : Nat} (hpt : T 1 (v / 512) = some pt)
    (hfa : f % 4096 = 0) (hfb : f < 2 ^ 52) :
    PageTable (store m (pt + 8 * (v % 512)) 8 (entryOf (some f))) root (T.set 0 v f) := by
  have hslots : Slots 0 (store m (pt + 8 * (v % 512)) 8 (entryOf (some f))) T
      fun l j e => e = entryOf (T.set 0 v f l j) := by
    refine h.slots.store hpt (entryOf_mod hfa hfb) (fun l j e hne he => ?_) fun _ => ?_
    · rw [RadixTree.set_of_ne hne]
      exact he
    · rw [RadixTree.set_same]
  exact ofSlots h (hslots.set_value v f) (show 0 < 4 by decide) hpt hfa hfb

/-- A page that is cleared and entered into a slot is a new table. -/
theorem addTable (h : PageTable m root T) {level k pt q : Nat} (hlevel : level < 4)
    (hpt : T (level + 1) (k / 512) = some pt) (hnone : T level k = none) (hqa : q % 4096 = 0)
    (hqb : q < 2 ^ 52) (hfresh : ¬ T.IsNode q) :
    PageTable (store (fill m q 4096 0) (pt + 8 * (k % 512)) 8 (entryOf (some q))) root
      (T.set level k q) := by
  refine ofSlots h (h.slots.addTable hpt hqa hqb hfresh (fun l j e hne he => ?_) ?_ ?_) hlevel hpt
    hqa hqb
  · rw [RadixTree.set_of_ne hne]
    exact he
  · rw [RadixTree.set_same]
  · intro l hlow hl i hi
    subst hl
    rw [RadixTree.set_of_ne (by omega),
      none_below (fun l j _ => h.parent l j) hlow (Nat.lt_of_succ_lt hlevel) hnone hi, entryOf_none]

end PageTable

/-! ## The tree and the free list -/

/-- The page tables below `root` hold `T`, and the free pages are `ps`. -/
structure Tables (s : Heap) (root : Nat) (T : RadixTree Nat) (ps : List Nat) : Prop where
  table : PageTable s.mem root T
  free : FreeList s ps
  bound : ∀ p ∈ ps, p < 2 ^ 52
  fresh : ∀ p ∈ ps, ¬ T.IsNode p

/-- The root that `heap_alloc_page` hands out is a table without entries. -/
theorem tables_root {s : Heap} {root : Nat} {ps : List Nat} (hfree : FreeList s (root :: ps))
    (hbound : ∀ p ∈ root :: ps, p < 2 ^ 52) :
    Tables (heapAllocPage s).2 root (RadixTree.empty.set 4 0 root) ps := by
  rcases heapAllocPage_cons hfree with ⟨_, hmem, _, hfree'⟩
  have hroot : PageTable (heapAllocPage s).2.mem root (RadixTree.empty.set 4 0 root) := by
    refine PageTable.ofRoot (hfree.aligned root List.mem_cons_self)
      (hbound root List.mem_cons_self) fun x hx => ?_
    rw [hmem]
    exact fill_apply_of_inside hx.1 hx.2
  refine ⟨hroot, hfree', fun p hp => hbound p (List.mem_cons_of_mem root hp), ?_⟩
  intro p hp hnode
  have hroot := hnode.of_set.resolve_left (RadixTree.not_isNode_empty p)
  exact (List.nodup_cons.1 hfree.nodup).1 (hroot ▸ hp)

theorem Tables.readWord {s : Heap} {root : Nat} {T : RadixTree Nat} {ps : List Nat}
    (h : Tables s root T ps) (a : Nat) : Tables (s.readWord a).2 root T ps :=
  ⟨h.table, h.free.readWord a, h.bound, h.fresh⟩

/-- The invariant that `install_pte` keeps on its way down. -/
theorem tables_descent (root virt : Nat) :
    Descent root virt 1 fun s T ps => Tables s root T ps := by
  refine ⟨Nat.one_pos, ?_, fun h => h.table.root_eq, fun h => h.readWord, ?_, ?_⟩
  · exact fun h => ⟨h.free, h.bound, h.fresh, fun p => h.table.isNode_page⟩
  · intro s T ps h level pt hpos hlevel hpt
    rw [h.table.entry_path hlevel hpt]
    exact points_entryOf fun p hp => h.table.page _ _ _ hp
  · intro s T p ps h level pt hpos hlevel hpt hnone hadd
    refine ⟨?_, hadd.free, fun q hq => h.bound q (List.mem_cons_of_mem p hq),
      fresh_set h.free.nodup h.fresh _ _⟩
    rw [hadd.mem]
    exact h.table.addTable hlevel hpt hnone (h.free.aligned p List.mem_cons_self)
      (h.bound p List.mem_cons_self) (h.fresh p List.mem_cons_self)

/-- The tree and the heap behind one round of `install_pte`: the cursor is
on the node that the round was looking for. -/
structure Descended (s : Heap) (root : Nat) (T : RadixTree Nat) (ps : List Nat) (level k : Nat)
    (T' : RadixTree Nat) (ps' : List Nat) (c : PteCursor) : Prop where
  tables : Tables c.heap root T' ps'
  cursor : T' level k = some c.pt
  ptPage : c.ptPage = 0
  touches : Touches (Owned T ps) s c.heap
  quiet : Exhausted c.heap → Exhausted s

/-! ## Installing a page -/

/-- The rounds of `install_pte` are the nodes of `Radix.path`. -/
theorem nextTable_loop_sim {s : Heap} {root : Nat} (virt : Nat) {T : RadixTree Nat} {ps : List Nat}
    (h : Tables s root T ps) {n : Nat} (hn : n ≤ 3) :
    match path 512 4 (vpn virt) n (T, ps) with
    | none => Exhausted (forUpTo (fun i c => nextTable virt (4 - i) c) n ⟨root, 0, s⟩).heap
    | some (T', ps') =>
      Descended s root T ps (4 - n) (vpn virt / 512 ^ (4 - n)) T' ps'
        (forUpTo (fun i c => nextTable virt (4 - i) c) n ⟨root, 0, s⟩) := by
  have hloop := (tables_descent root virt).loop h (show n + 1 ≤ 4 by omega)
  cases hpath : path 512 4 (vpn virt) n (T, ps) with
  | none =>
    rw [hpath] at hloop
    exact hloop.exhausted
  | some st =>
    obtain ⟨T', ps'⟩ := st
    rw [hpath] at hloop
    exact ⟨hloop.holds, hloop.cursor, hloop.ptPage,
      hloop.touches.mono fun x hx => hx.owned (path_extends (by omega) hpath), hloop.quiet⟩

/-- The cursor of `install_page` in front of its store. -/
def lastTable (s : Heap) (root virt : Nat) : PteCursor :=
  forUpTo (fun i c => nextTable virt (4 - i) c) 3 ⟨root, 0, s⟩

theorem installPage_heap (s : Heap) (root phys virt : Nat) :
    (installPage s root phys virt).2 = (lastTable s root virt).heap.writeWord
      ((lastTable s root virt).pt + 8 * PGDIR_OFFSET virt 1) (entryOf (some phys)) := by
  rw [installPage, installPte, PAGE_LEVEL_eq, lastTable]
  rfl

/-- `install_page` does to memory what `Radix.insert` does to the tree. -/
theorem installPage_sim {s : Heap} {root phys : Nat} {T : RadixTree Nat} {ps : List Nat}
    (h : Tables s root T ps) (hphys : phys % 4096 = 0) (hphys' : phys < 2 ^ 52) (virt : Nat) :
    match Radix.insert 512 4 (vpn virt) phys (T, ps) with
    | none => Exhausted (installPage s root phys virt).2
    | some (T', ps') =>
      Tables (installPage s root phys virt).2 root T' ps' ∧
        Touches (Owned T ps) s (installPage s root phys virt).2 ∧
        (Exhausted (installPage s root phys virt).2 → Exhausted s) := by
  have hloop := nextTable_loop_sim virt h (Nat.le_refl 3)
  rw [← lastTable] at hloop
  rw [installPage_heap]
  set c := lastTable s root virt
  have hwrite := touches_writeWord c.heap (c.pt + 8 * PGDIR_OFFSET virt 1) (entryOf (some phys))
  rw [Radix.insert]
  cases hpath : path 512 4 (vpn virt) (4 - 1) (T, ps) with
  | none =>
    rw [hpath] at hloop
    exact hwrite.exhausted hloop
  | some st =>
    rcases st with ⟨T₁, ps₁⟩
    rw [hpath] at hloop
    have hcursor : T₁ (0 + 1) (vpn virt / 512) = some c.pt := hloop.cursor
    have hnode : T₁.IsNode c.pt := ⟨0, _, hcursor⟩
    have hoff := PGDIR_OFFSET_lt virt 1
    refine ⟨⟨?_, ?_, hloop.tables.bound, ?_⟩, ?_, fun he => hloop.quiet ?_⟩
    · rw [writeWord_mem, PGDIR_OFFSET_eq_index (by decide), Nat.pow_zero, Nat.div_one]
      exact hloop.tables.table.setValue hcursor hphys hphys'
    · exact hloop.tables.free.writeSlot hloop.tables.fresh hnode
        (hloop.tables.table.isNode_page hnode).1 hoff _
    · rintro q hq ⟨l, j, hq'⟩
      rw [RadixTree.set_of_ne (by omega)] at hq'
      exact hloop.tables.fresh q hq ⟨l, j, hq'⟩
    · refine hloop.touches.trans (hwrite.mono fun x hx => ?_)
      exact (Owned.slot ps₁ hnode hoff hx).of_extends (path_extends (by decide) hpath)
    · exact (exhausted_writeWord _ _ _).1 he

end HyperBench
