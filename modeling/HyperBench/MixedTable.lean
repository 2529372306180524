import HyperBench.PageTable

/-!
# Tables with large pages

`install_large_page` and `install_page` work on the same tables, and a slot of
level 2 may hold a table or a page of 2 MB.  `install_pte` does not look at
the bit that tells them apart: it goes on from any present entry.

* `MixedTable m root L T` is a page table with the large pages `L`.  The tree
  `T` has all tables, also those whose slot a large page has taken over.
* `MixedTable.walk_eq` follows the walk of the processor down to a table.
* `installPage_mixed` and `installLargePage_mixed` are the calls.  A small page
  stays inside the tables as long as there is no large page at its place.
* `installPage_over_large` is the other case: the frame of the large page is
  taken for a table.
-/

namespace HyperBench

open ByteMem Loop Radix

def LARGE_PAGE_SIZE : Nat := 512 * PAGE_SIZE

theorem LARGE_PAGE_SIZE_eq : LARGE_PAGE_SIZE = 2097152 := rfl

theorem mod_PAGE_SIZE_of_large {f : Nat} (h : f % LARGE_PAGE_SIZE = 0) : f % 4096 = 0 := by
  rw [LARGE_PAGE_SIZE_eq] at h
  omega

/-! ## Entries of large pages -/

/-- The value of a slot with a large page. -/
def largeEntryOf (f : Nat) : Nat :=
  f ||| PT_PRESENT_MASK ||| PT_WRITABLE_MASK ||| PT_USER_MASK ||| PT_PAGE_SIZE_MASK

theorem largeEntryOf_eq {f : Nat} (hf : f % 4096 = 0) : largeEntryOf f = f + 0x87 := by
  rw [largeEntryOf, Nat.or_assoc, Nat.or_assoc, Nat.or_assoc]
  exact or_flags hf (by decide)

theorem largeEntryOf_mod {f : Nat} (ha : f % 4096 = 0) (hb : f < 2 ^ 52) :
    largeEntryOf f % 256 ^ 8 = largeEntryOf f := by
  rw [largeEntryOf_eq ha]
  omega

/-- `install_pte` takes a large page for a table. -/
theorem points_largeEntryOf {f : Nat} (ha : f % 4096 = 0) (hb : f < 2 ^ 52) :
    Points (largeEntryOf f) (some f) := by
  refine ⟨?_, ?_⟩
  · rw [largeEntryOf_eq ha, and_PT_PRESENT_MASK]
    omega
  · rw [largeEntryOf_eq ha, and_PT_ADDR_MASK]
    omega

/-- The walk of the processor ends at a large page. -/
theorem walkFrom_of_largeEntryOf {m : Mem} {va table f : Nat} {writable user : Bool}
    (ha : f % LARGE_PAGE_SIZE = 0) (hb : f < 2 ^ 52)
    (he : load m (table + 8 * PGDIR_OFFSET va 2) 8 = largeEntryOf f) :
    walkFrom m va 2 table writable user = some ⟨f + va % LARGE_PAGE_SIZE, writable, user⟩ := by
  have hspan : 2 ^ PGDIR_BITS 2 = LARGE_PAGE_SIZE := rfl
  have ha' := mod_PAGE_SIZE_of_large ha
  obtain ⟨hpresent, haddr⟩ := points_largeEntryOf ha' hb
  have hbit : ∀ i, i = 1 ∨ i = 2 ∨ i = 7 → largeEntryOf f &&& 2 ^ i ≠ 0 := by
    intro i hi
    rw [Ne, and_two_pow_eq_zero, largeEntryOf_eq ha']
    rcases hi with rfl | rfl | rfl <;> omega
  rw [walkFrom_of_large (by decide) (by decide) he hpresent (hbit 1 (.inl rfl))
    (hbit 2 (.inr (.inl rfl))) (hbit 7 (.inr (.inr rfl))), haddr, hspan,
    Nat.div_mul_cancel (Nat.dvd_of_mod_eq_zero ha)]

/-! ## Tables with large pages -/

/-- The value of the slot of an element: at level 1 a large page, if there is
one, and else the table or nothing. -/
def mixedEntry (L : Nat → Option Nat) (T : RadixTree Nat) (level k : Nat) : Nat :=
  match if level = 1 then L k else none with
  | some f => largeEntryOf f
  | none => entryOf (T level k)

theorem mixedEntry_of_none {L : Nat → Option Nat} {level k : Nat} (h : level = 1 → L k = none)
    (T : RadixTree Nat) : mixedEntry L T level k = entryOf (T level k) := by
  unfold mixedEntry
  by_cases hlevel : level = 1
  · rw [if_pos hlevel, h hlevel]
  · rw [if_neg hlevel]

theorem mixedEntry_of_some {L : Nat → Option Nat} {k f : Nat} (h : L k = some f)
    (T : RadixTree Nat) : mixedEntry L T 1 k = largeEntryOf f := by
  unfold mixedEntry
  rw [if_pos rfl, h]

theorem mixedEntry_update {L : Nat → Option Nat} {T : RadixTree Nat} {k l j : Nat}
    {f : Option Nat} (h : ¬ (l = 1 ∧ j = k)) :
    mixedEntry (Function.update L k f) T l j = mixedEntry L T l j := by
  unfold mixedEntry
  by_cases hl : l = 1
  · rw [if_pos hl, if_pos hl, Function.update_of_ne fun hj => h ⟨hl, hj⟩]
  · rw [if_neg hl, if_neg hl]

/-- The memory holds the tables `T` below `root`, and the large pages `L` in
their slots of level 2. -/
structure MixedTable (m : Mem) (root : Nat) (L : Nat → Option Nat) (T : RadixTree Nat) : Prop where
  root_eq : T 4 0 = some root
  slots : Slots 1 m T fun l j e => e = mixedEntry L T l j
  parent : ∀ level k, 0 < level → level < 4 → T level k ≠ none → T (level + 1) (k / 512) ≠ none
  large : ∀ k f, L k = some f → f % LARGE_PAGE_SIZE = 0 ∧ f < 2 ^ 52
  large_parent : ∀ k, L k ≠ none → T 2 (k / 512) ≠ none

namespace MixedTable

variable {m : Mem} {root : Nat} {L : Nat → Option Nat} {T : RadixTree Nat}

/-- The slot of `v` in its table of level `level + 1`, where there is no large
page. -/
theorem entry_path (h : MixedTable m root L T) {level v p : Nat} (hpos : 0 < level)
    (hlevel : level < 4) (hL : level = 1 → L (v / 512) = none)
    (hp : T (level + 1) (v / 512 ^ (level + 1)) = some p) :
    load m (p + 8 * (v / 512 ^ level % 512)) 8 = entryOf (T level (v / 512 ^ level)) := by
  have he := h.slots.entry_path hpos hlevel hp
  have hnone : level = 1 → L (v / 512 ^ level) = none := by
    intro h1
    rw [h1, Nat.pow_one]
    exact hL h1
  rw [mixedEntry_of_none hnone] at he
  exact he

/-- The walk of the processor comes to each table on the path of `va`. -/
theorem walk_eq (h : MixedTable m root L T) {va level n p : Nat} (hlevel : level + n = 4)
    (hpos : 0 < level) (hL : level = 1 → L (vpn va / 512) = none)
    (hp : T level (vpn va / 512 ^ level) = some p) :
    walk m root va = walkFrom m va level p true true := by
  -- from the root downwards, over the tables above this one
  induction n generalizing level p with
  | zero =>
    obtain rfl : level = 4 := hlevel
    rw [Nat.div_eq_of_lt (vpn_lt va), h.root_eq, Option.some.injEq] at hp
    obtain ⟨ha, hb⟩ := h.slots.page root ⟨3, 0, h.root_eq⟩
    rw [walk, root_and_PT_ADDR_MASK ha hb, hp, PAGE_LEVEL_eq]
  | succ n ih =>
    have hlt : level < 4 := by omega
    have hup : T (level + 1) (vpn va / 512 ^ (level + 1)) ≠ none := by
      rw [Nat.pow_succ, ← Nat.div_div_eq_div_mul]
      refine h.parent level _ hpos hlt ?_
      rw [hp]
      exact Option.some_ne_none p
    obtain ⟨q, hq⟩ := Option.ne_none_iff_exists'.1 hup
    have hentry := h.entry_path hpos hlt hL hq
    obtain ⟨l, rfl⟩ := Nat.exists_eq_succ_of_ne_zero (Nat.ne_of_gt hpos)
    obtain ⟨ha, hb⟩ := h.slots.page p ⟨l, _, hp⟩
    rw [← PGDIR_OFFSET_eq_index hlt, hp] at hentry
    rw [ih (by omega) (Nat.succ_pos _) (by omega) hq, walkFrom_of_table hpos ha hb hentry]

/-- The tables depend on their own pages only. -/
theorem frame (h : MixedTable m root L T) {m' : Mem}
    (hm : ∀ p, T.IsNode p → ∀ x, OnPage p x → m' x = m x) : MixedTable m' root L T :=
  ⟨h.root_eq, h.slots.frame hm, h.parent, h.large, h.large_parent⟩

/-- A store into a table of the last level changes no table above it. -/
theorem setValue (h : MixedTable m root L T) {v pt : Nat} (hpt : T 1 (v / 512) = some pt) {e : Nat}
    (he : e % 256 ^ 8 = e) : MixedTable (store m (pt + 8 * (v % 512)) 8 e) root L T :=
  ⟨h.root_eq, h.slots.store (show T (0 + 1) (v / 512) = some pt from hpt) he (fun _ _ _ _ h => h)
    fun h0 => absurd h0 (by decide), h.parent, h.large, h.large_parent⟩

/-- A large page takes over its slot. -/
theorem setLarge (h : MixedTable m root L T) {k pt f : Nat} (hpt : T 2 (k / 512) = some pt)
    (hfa : f % LARGE_PAGE_SIZE = 0) (hfb : f < 2 ^ 52) :
    MixedTable (store m (pt + 8 * (k % 512)) 8 (largeEntryOf f)) root
      (Function.update L k (some f)) T := by
  refine ⟨h.root_eq, ?_, h.parent, ?_, ?_⟩
  · refine h.slots.store hpt (largeEntryOf_mod (mod_PAGE_SIZE_of_large hfa) hfb)
      (fun l j e hne he => ?_) fun _ => ?_
    · rw [mixedEntry_update hne]
      exact he
    · exact (mixedEntry_of_some (Function.update_self k _ L) T).symm
  · intro j g hg
    by_cases hj : j = k
    · rw [hj, Function.update_self, Option.some.injEq] at hg
      exact hg ▸ ⟨hfa, hfb⟩
    · rw [Function.update_of_ne hj] at hg
      exact h.large j g hg
  · intro j hj
    by_cases hjk : j = k
    · rw [hjk, hpt]
      exact Option.some_ne_none pt
    · rw [Function.update_of_ne hjk] at hj
      exact h.large_parent j hj

/-- A page that is cleared and entered into a slot is a new table. -/
theorem addTable (h : MixedTable m root L T) {level k pt q : Nat} (hpos : 0 < level)
    (hlevel : level < 4) (hL : level = 1 → L k = none) (hpt : T (level + 1) (k / 512) = some pt)
    (hnone : T level k = none) (hqa : q % 4096 = 0) (hqb : q < 2 ^ 52) (hfresh : ¬ T.IsNode q) :
    MixedTable (store (fill m q 4096 0) (pt + 8 * (k % 512)) 8 (entryOf (some q))) root L
      (T.set level k q) := by
  refine ⟨?_, ?_, parent_set h.parent hpt q, h.large, ?_⟩
  · rw [RadixTree.set_of_ne (by omega)]
    exact h.root_eq
  · refine h.slots.addTable hpt hqa hqb hfresh (fun l j e hne he => ?_) ?_ ?_
    · rw [he]
      unfold mixedEntry
      rw [RadixTree.set_of_ne hne]
    · rw [mixedEntry_of_none hL, RadixTree.set_same]
    · intro l hlow hl i hi
      subst hl
      have hlarge : l = 1 → L (512 * k + i) = none := by
        rintro rfl
        by_contra hne
        apply h.large_parent _ hne
        rw [show (512 * k + i) / 512 = k by omega]
        exact hnone
      rw [mixedEntry_of_none hlarge, RadixTree.set_of_ne (by omega),
        none_below h.parent hlow (Nat.lt_of_succ_lt hlevel) hnone hi, entryOf_none]
  · exact fun j hj => RadixTree.set_isSome _ _ _ (h.large_parent j hj)

end MixedTable

/-- The tables with their large pages, and the free pages for further
tables. -/
structure Mixed (s : Heap) (root : Nat) (L : Nat → Option Nat) (T : RadixTree Nat)
    (ps : List Nat) : Prop where
  table : MixedTable s.mem root L T
  free : FreeList s ps
  bound : ∀ p ∈ ps, p < 2 ^ 52
  fresh : ∀ p ∈ ps, ¬ T.IsNode p

theorem Mixed.readWord {s : Heap} {root : Nat} {L : Nat → Option Nat} {T : RadixTree Nat}
    {ps : List Nat} (h : Mixed s root L T ps) (a : Nat) : Mixed (s.readWord a).2 root L T ps :=
  ⟨h.table, h.free.readWord a, h.bound, h.fresh⟩

/-- The invariant that `install_pte` keeps on its way down, as long as it does
not come to a large page. -/
theorem mixed_descent (root : Nat) {virt bottom : Nat} {L : Nat → Option Nat} (hpos : 0 < bottom)
    (hL : bottom = 1 → L (vpn virt / 512) = none) :
    Descent root virt bottom fun s T ps => Mixed s root L T ps := by
  have hL' : ∀ level, bottom ≤ level → level = 1 → L (vpn virt / 512) = none :=
    fun level hlevel h1 => hL (by omega)
  refine ⟨hpos, ?_, fun h => h.table.root_eq, fun h => h.readWord, ?_, ?_⟩
  · exact fun h => ⟨h.free, h.bound, h.fresh, h.table.slots.page⟩
  · intro s T ps h level pt hbottom hlevel hpt
    rw [h.table.entry_path (by omega) hlevel (hL' level hbottom) hpt]
    refine points_entryOf fun p hp => h.table.slots.page p ?_
    obtain ⟨l, rfl⟩ := Nat.exists_eq_succ_of_ne_zero
      (Nat.ne_of_gt (Nat.lt_of_lt_of_le hpos hbottom))
    exact ⟨l, _, hp⟩
  · intro s T p ps h level pt hbottom hlevel hpt hnone hadd
    have hnone' : level = 1 → L (vpn virt / 512 ^ level) = none := by
      intro h1
      rw [h1, Nat.pow_one]
      exact hL' level hbottom h1
    refine ⟨?_, hadd.free, fun q hq => h.bound q (List.mem_cons_of_mem p hq),
      fresh_set h.free.nodup h.fresh _ _⟩
    rw [hadd.mem]
    exact h.table.addTable (by omega) hlevel hnone' hpt hnone
      (h.free.aligned p List.mem_cons_self) (h.bound p List.mem_cons_self)
      (h.fresh p List.mem_cons_self)

/-- Down to level 2 there are no large pages. -/
theorem mixed_descent_two (root virt : Nat) (L : Nat → Option Nat) :
    Descent root virt 2 fun s T ps => Mixed s root L T ps :=
  mixed_descent root Nat.two_pos fun h => absurd h (by decide)

/-! ## One call -/

/-- What a call leaves behind: the tables, the large pages and the free pages
are those of the primed names. -/
structure InstalledAt (s : Heap) (T : RadixTree Nat) (ps : List Nat) (root virt phys : Nat)
    (L' : Nat → Option Nat) (T' : RadixTree Nat) (ps' : List Nat) (t : Heap) : Prop where
  mixed : Mixed t root L' T' ps'
  supply : Extends (T, ps) (T', ps')
  touches : Touches (OnTable T') s t
  quiet : Exhausted t → Exhausted s
  walk : walk t.mem root virt = some ⟨phys, true, true⟩

variable {s : Heap} {root : Nat} {L : Nat → Option Nat} {T : RadixTree Nat} {ps : List Nat}

/-- The last store of a call. -/
theorem installedAt_of_store {L' : Nat → Option Nat} {T' : RadixTree Nat} {ps' : List Nat}
    {virt phys n level k i e : Nat} {c : PteCursor} (hn : n < 4)
    (hpath : path 512 4 (vpn virt) n (T, ps) = some (T', ps'))
    (hloop : Reached (fun s T ps => Mixed s root L T ps) s (level + 1) k T' ps' c) (hi : i < 512)
    (htable : MixedTable (store c.heap.mem (c.pt + 8 * i) 8 e) root L' T')
    (hwalk : walk (store c.heap.mem (c.pt + 8 * i) 8 e) root virt = some ⟨phys, true, true⟩) :
    InstalledAt s T ps root virt phys L' T' ps' (c.heap.writeWord (c.pt + 8 * i) e) := by
  have hnode : T'.IsNode c.pt := ⟨level, k, hloop.cursor⟩
  have hpage := hloop.holds.table.slots.page _ hnode
  refine ⟨⟨htable, ?_, hloop.holds.bound, hloop.holds.fresh⟩, path_extends hn hpath, ?_, ?_, hwalk⟩
  · exact hloop.holds.free.writeSlot hloop.holds.fresh hnode hpage.1 hi e
  · exact hloop.touches_writeSlot hi e
  · exact fun hex => hloop.quiet ((exhausted_writeWord _ _ _).1 hex)

/-- `install_page` where there is no large page. -/
theorem installPage_mixed (h : Mixed s root L T ps) {phys virt : Nat}
    (hL : L (vpn virt / 512) = none) (hphys : phys % 4096 = 0) (hphys' : phys < 2 ^ 52)
    (hvirt : virt % 4096 = 0) :
    match path 512 4 (vpn virt) 3 (T, ps) with
    | none => Exhausted (installPage s root phys virt).2
    | some (T', ps') =>
      InstalledAt s T ps root virt phys L T' ps' (installPage s root phys virt).2 := by
  have hloop := (mixed_descent root Nat.one_pos fun _ => hL).loop h (Nat.le_refl 4)
  rw [installPage_heap, lastTable]
  set c := forUpTo (fun i c => nextTable virt (4 - i) c) 3 ⟨root, 0, s⟩
  cases hpath : path 512 4 (vpn virt) 3 (T, ps) with
  | none =>
    rw [hpath] at hloop
    exact (touches_writeWord _ _ _).exhausted hloop.exhausted
  | some st =>
    obtain ⟨T', ps'⟩ := st
    rw [hpath] at hloop
    have hoff : PGDIR_OFFSET virt 1 = vpn virt % 512 := by
      rw [PGDIR_OFFSET_eq_index (by decide), Nat.pow_zero, Nat.div_one]
    have htable := hloop.holds.table.setValue hloop.cursor (entryOf_mod hphys hphys')
    rw [← hoff] at htable
    have he : load (store c.heap.mem (c.pt + 8 * PGDIR_OFFSET virt 1) 8 (entryOf (some phys)))
        (c.pt + 8 * PGDIR_OFFSET virt 1) 8 = entryOf (some phys) := by
      rw [load_store_same, entryOf_mod hphys hphys']
    refine installedAt_of_store (by decide) hpath hloop (PGDIR_OFFSET_lt virt 1) htable ?_
    rw [htable.walk_eq (show 1 + 3 = 4 from rfl) Nat.one_pos (fun _ => hL) hloop.cursor,
      walkFrom_of_frame hphys hphys' he, hvirt, Nat.add_zero]

theorem installLargePage_heap (s : Heap) (root phys virt : Nat) :
    (installLargePage s root phys virt).2
      = (forUpTo (fun i c => nextTable virt (4 - i) c) 2 ⟨root, 0, s⟩).heap.writeWord
          ((forUpTo (fun i c => nextTable virt (4 - i) c) 2 ⟨root, 0, s⟩).pt
            + 8 * PGDIR_OFFSET virt 2) (largeEntryOf phys) := by
  rw [installLargePage, installPte, PAGE_LEVEL_eq]
  rfl

/-- `install_large_page` works at any place. -/
theorem installLargePage_mixed (h : Mixed s root L T ps) {phys virt : Nat}
    (hphys : phys % LARGE_PAGE_SIZE = 0) (hphys' : phys < 2 ^ 52)
    (hvirt : virt % LARGE_PAGE_SIZE = 0) :
    match path 512 4 (vpn virt) 2 (T, ps) with
    | none => Exhausted (installLargePage s root phys virt).2
    | some (T', ps') =>
      InstalledAt s T ps root virt phys (Function.update L (vpn virt / 512) (some phys)) T' ps'
        (installLargePage s root phys virt).2 := by
  have hloop := (mixed_descent_two root virt L).loop h (Nat.le_refl 4)
  rw [installLargePage_heap]
  set c := forUpTo (fun i c => nextTable virt (4 - i) c) 2 ⟨root, 0, s⟩
  cases hpath : path 512 4 (vpn virt) 2 (T, ps) with
  | none =>
    rw [hpath] at hloop
    exact (touches_writeWord _ _ _).exhausted hloop.exhausted
  | some st =>
    obtain ⟨T', ps'⟩ := st
    rw [hpath] at hloop
    have hcursor : T' 2 (vpn virt / 512 / 512) = some c.pt := by
      rw [Nat.div_div_eq_div_mul]
      exact hloop.cursor
    have hoff : PGDIR_OFFSET virt 2 = vpn virt / 512 % 512 := by
      rw [PGDIR_OFFSET_eq_index (by decide), Nat.pow_one]
    have htable := hloop.holds.table.setLarge hcursor hphys hphys'
    rw [← hoff] at htable
    have he : load (store c.heap.mem (c.pt + 8 * PGDIR_OFFSET virt 2) 8 (largeEntryOf phys))
        (c.pt + 8 * PGDIR_OFFSET virt 2) 8 = largeEntryOf phys := by
      rw [load_store_same, largeEntryOf_mod (mod_PAGE_SIZE_of_large hphys) hphys']
    refine installedAt_of_store (by decide) hpath hloop (PGDIR_OFFSET_lt virt 2) htable ?_
    rw [htable.walk_eq (show 2 + 2 = 4 from rfl) Nat.two_pos (fun h => absurd h (by decide))
      hloop.cursor, walkFrom_of_largeEntryOf hphys hphys' he, hvirt, Nat.add_zero]

/-- `install_page` at the place of a large page: it takes the frame of the
large page for the last table, and stores there. -/
theorem installPage_over_large (h : Mixed s root L T ps) {virt f : Nat}
    (hL : L (vpn virt / 512) = some f) (phys : Nat) :
    match path 512 4 (vpn virt) 2 (T, ps) with
    | none => Exhausted (installPage s root phys virt).2
    | some (T', ps') =>
      ∃ u, Mixed u root L T' ps' ∧ Touches (OnTable T') s u ∧ (Exhausted u → Exhausted s) ∧
        (installPage s root phys virt).2
          = u.writeWord (f + 8 * PGDIR_OFFSET virt 1) (entryOf (some phys)) := by
  have hloop := (mixed_descent_two root virt L).loop h (Nat.le_refl 4)
  have hround : lastTable s root virt
      = nextTable virt 2 (forUpTo (fun i c => nextTable virt (4 - i) c) 2 ⟨root, 0, s⟩) :=
    forUpTo_succ _ 2 _
  rw [installPage_heap, hround]
  set c := forUpTo (fun i c => nextTable virt (4 - i) c) 2 ⟨root, 0, s⟩
  cases hpath : path 512 4 (vpn virt) 2 (T, ps) with
  | none =>
    rw [hpath] at hloop
    exact (touches_writeWord _ _ _).exhausted
      ((nextTable_anywhere virt 2 c).exhausted hloop.exhausted)
  | some st =>
    obtain ⟨T', ps'⟩ := st
    rw [hpath] at hloop
    obtain ⟨hfa, hfb⟩ := hloop.holds.table.large _ f hL
    obtain ⟨hpresent, haddr⟩ := points_largeEntryOf (mod_PAGE_SIZE_of_large hfa) hfb
    have he := hloop.holds.table.slots.entry_path (Nat.le_refl 1) (by decide) hloop.cursor
    rw [Nat.pow_one, mixedEntry_of_some hL, ← Nat.pow_one 512,
      ← PGDIR_OFFSET_eq_index (show 1 < 4 by decide)] at he
    have hnext := nextTable_of_present (show load c.heap.mem (c.pt + 8 * PGDIR_OFFSET virt 2) 8
      &&& PT_PRESENT_MASK ≠ 0 by rw [he]; exact hpresent)
    have hread : ∀ s : Heap, Touches (OnTable T') s
        (s.readWord (c.pt + 8 * PGDIR_OFFSET virt 2)).2 := fun s =>
      (touches_readWord s _).mono fun x hx =>
        OnTable.slot ⟨1, _, hloop.cursor⟩ (PGDIR_OFFSET_lt virt 2) hx
    rw [he, haddr] at hnext
    rw [hnext]
    exact ⟨_, (hloop.holds.readWord _).readWord _, (hloop.touches.trans (hread _)).trans (hread _),
      fun hex => hloop.quiet (by simpa using hex), rfl⟩

/-- The address still translates into the large page, if its frame is apart
from the tables. -/
theorem walk_over_large (h : Mixed s root L T ps) {virt f i e : Nat}
    (hL : L (vpn virt / 512) = some f) (hi : i < 512) (hf : ∀ x, OnPage f x → ¬ OnTable T x) :
    walk (s.writeWord (f + 8 * i) e).mem root virt
      = some ⟨f + virt % LARGE_PAGE_SIZE, true, true⟩ := by
  have hframe : MixedTable (s.writeWord (f + 8 * i) e).mem root L T := by
    refine h.table.frame fun p hp x hx => ?_
    rw [writeWord_mem]
    refine store_apply_of_outside ?_
    have hout : ¬ OnPage f x := fun hfx => hf x hfx ⟨p, hp, hx⟩
    unfold OnPage InRange at hout
    omega
  have hup : T 2 (vpn virt / 512 / 512) ≠ none := by
    refine h.table.large_parent _ ?_
    rw [hL]
    exact Option.some_ne_none f
  obtain ⟨pt, hpt⟩ := Option.ne_none_iff_exists'.1 hup
  rw [Nat.div_div_eq_div_mul] at hpt
  obtain ⟨hfa, hfb⟩ := h.table.large _ f hL
  have he := hframe.slots.entry_path (Nat.le_refl 1) (by decide) hpt
  rw [Nat.pow_one, mixedEntry_of_some hL, ← Nat.pow_one 512,
    ← PGDIR_OFFSET_eq_index (show 1 < 4 by decide)] at he
  rw [hframe.walk_eq (show 2 + 2 = 4 from rfl) Nat.two_pos (fun h => absurd h (by decide)) hpt]
  exact walkFrom_of_largeEntryOf hfa hfb he

end HyperBench
