import HyperBench.PageTable

/-!
# The directories of a page table

What `install_pte` reads of a page table: the tables below a root, down to
those of the last level.  The entries of the last level and the other flags of
an entry play no part, so every page table with distinct tables has its
directories, whatever it maps.

* `Directories.unique`: the memory determines them.
* `Directories.addTable` enters a cleared page as a new table.
* `Building s root T ps` adds the free list.
-/

namespace HyperBench

open ByteMem Loop Radix

theorem Points.unique {e : Nat} {a b : Option Nat} (ha : Points e a) (hb : Points e b) : a = b := by
  cases a with
  | none =>
    cases b with
    | none => rfl
    | some q => exact absurd ha hb.1
  | some p =>
    cases b with
    | none => exact absurd hb ha.1
    | some q => rw [← ha.2, ← hb.2]

/-- The tables below `root` are the nodes of `T`. -/
structure Directories (m : Mem) (root : Nat) (T : RadixTree Nat) : Prop where
  root_eq : T 4 0 = some root
  top : ∀ level k, 4 ≤ level → T level k ≠ none → level = 4 ∧ k = 0
  entry : ∀ level k p, 0 < level → level < 4 → T (level + 1) k = some p → ∀ i, i < 512 →
    Points (load m (p + 8 * i) 8) (T level (512 * k + i))
  parent : ∀ level k, 0 < level → level < 4 → T level k ≠ none → T (level + 1) (k / 512) ≠ none
  page : ∀ p, T.IsNode p → p % 4096 = 0 ∧ p < 2 ^ 52
  inj : ∀ level k level' k' p, T (level + 1) k = some p → T (level' + 1) k' = some p →
    level = level' ∧ k = k'

namespace Directories

variable {m m' : Mem} {root : Nat} {T T' : RadixTree Nat}

/-- The directories of the page tables of `PageTable`. -/
theorem ofPageTable (h : PageTable m root T)
    (htop : ∀ level k, 4 ≤ level → T level k ≠ none → level = 4 ∧ k = 0) :
    Directories m root T := by
  refine ⟨h.root_eq, htop, ?_, fun level k _ => h.parent level k, fun p => h.isNode_page, h.inj⟩
  intro level k p _ hlevel hp i hi
  rw [h.entry level k p hlevel hp i hi]
  exact points_entryOf fun p hp => h.page _ _ _ hp

/-- The memory determines the nodes. -/
theorem unique (h : Directories m root T) (h' : Directories m root T') {level : Nat}
    (hpos : 0 < level) (k : Nat) : T level k = T' level k := by
  -- from the root downwards
  have key : ∀ n, n < 4 → ∀ k, T (4 - n) k = T' (4 - n) k := by
    intro n
    induction n with
    | zero =>
      intro _ k
      by_cases hk : k = 0
      · rw [hk, h.root_eq, h'.root_eq]
      · have hnone : ∀ {T : RadixTree Nat}, Directories m root T → T 4 k = none := by
          intro T hT
          by_contra hne
          exact hk (hT.top 4 k (Nat.le_refl 4) hne).2
        rw [hnone h, hnone h']
    | succ n ih =>
      intro hn k
      have hup := ih (by omega) (k / 512)
      rw [show 4 - n = (4 - (n + 1)) + 1 by omega] at hup
      cases hp : T (4 - (n + 1) + 1) (k / 512) with
      | none =>
        have hnone : T (4 - (n + 1)) k = none := by
          by_contra hne
          exact h.parent _ k (by omega) (by omega) hne hp
        have hnone' : T' (4 - (n + 1)) k = none := by
          by_contra hne
          exact h'.parent _ k (by omega) (by omega) hne (hup.symm.trans hp)
        rw [hnone, hnone']
      | some p =>
        have he := h.entry _ _ p (by omega) (by omega) hp (k % 512) (Nat.mod_lt _ (by decide))
        have he' := h'.entry _ _ p (by omega) (by omega) (hup.symm.trans hp) (k % 512)
          (Nat.mod_lt _ (by decide))
        rw [Nat.div_add_mod] at he he'
        exact he.unique he'
  by_cases hlevel : level ≤ 4
  · have hthis := key (4 - level) (by omega) k
    rwa [show 4 - (4 - level) = level by omega] at hthis
  · have hnone : ∀ {T : RadixTree Nat}, Directories m root T → T level k = none := by
      intro T hT
      by_contra hne
      have := (hT.top level k (by omega) hne).1
      omega
    rw [hnone h, hnone h']

/-- The directories depend on the tables above the last level only. -/
theorem frame (h : Directories m root T)
    (hm : ∀ level k p, T (level + 2) k = some p → ∀ x, OnPage p x → m' x = m x) :
    Directories m' root T := by
  refine ⟨h.root_eq, h.top, ?_, h.parent, h.page, h.inj⟩
  intro level k p hpos hlevel hp i hi
  have heq : load m' (p + 8 * i) 8 = load m (p + 8 * i) 8 := by
    apply load_congr
    intro x hx hx'
    obtain ⟨l, rfl⟩ := Nat.exists_eq_succ_of_ne_zero (Nat.ne_of_gt hpos)
    apply hm l k p hp
    unfold OnPage InRange
    omega
  rw [heq]
  exact h.entry level k p hpos hlevel hp i hi

/-- The slots of the tables point to the tables below. -/
theorem slots (h : Directories m root T) : Slots 1 m T fun l j e => Points e (T l j) :=
  ⟨h.entry, h.page, h.inj⟩

/-- A cleared page that is entered into a table is a new node. -/
theorem addTable (h : Directories m root T) {level k pt q : Nat} (hpos : 0 < level)
    (hlevel : level < 4) (hpt : T (level + 1) (k / 512) = some pt) (hnone : T level k = none)
    (hqa : q % 4096 = 0) (hqb : q < 2 ^ 52) (hfresh : ¬ T.IsNode q) :
    Directories (store (fill m q 4096 0) (pt + 8 * (k % 512)) 8 (entryOf (some q))) root
      (T.set level k q) := by
  have hslots : Slots 1 (store (fill m q 4096 0) (pt + 8 * (k % 512)) 8 (entryOf (some q)))
      (T.set level k q) fun l j e => Points e (T.set level k q l j) := by
    refine h.slots.addTable hpt hqa hqb hfresh (fun l j e hne he => ?_) ?_ ?_
    · rw [RadixTree.set_of_ne hne]
      exact he
    · rw [RadixTree.set_same]
      exact points_entryOf fun p hp => Option.some.inj hp ▸ ⟨hqa, hqb⟩
    · intro l hlow hl i hi
      subst hl
      rw [RadixTree.set_of_ne (by omega),
        none_below h.parent hlow (Nat.lt_of_succ_lt hlevel) hnone hi]
      exact Nat.zero_and _
  refine ⟨?_, ?_, hslots.entry, ?_, hslots.page, hslots.inj⟩
  · rw [RadixTree.set_of_ne (by omega)]
    exact h.root_eq
  · intro l j hl hne
    rw [RadixTree.set_of_ne (by omega)] at hne
    exact h.top l j hl hne
  · exact parent_set h.parent hpt q

end Directories

/-- The tables below `root`, with the free pages for further ones.  Page 0 is
not among them. -/
structure Building (s : Heap) (root : Nat) (T : RadixTree Nat) (ps : List Nat) : Prop where
  dirs : Directories s.mem root T
  free : FreeList s ps
  bound : ∀ p ∈ ps, p < 2 ^ 52
  fresh : ∀ p ∈ ps, ¬ T.IsNode p
  nonzero : ¬ T.IsNode 0

theorem Building.readWord {s : Heap} {root : Nat} {T : RadixTree Nat} {ps : List Nat}
    (h : Building s root T ps) (a : Nat) : Building (s.readWord a).2 root T ps :=
  ⟨h.dirs, h.free.readWord a, h.bound, h.fresh, h.nonzero⟩

/-- Page 0 is no page of the construction. -/
theorem Building.not_owned_zero {s : Heap} {root : Nat} {T : RadixTree Nat} {ps : List Nat}
    (h : Building s root T ps) : ¬ Owned T ps 0 := by
  intro howned
  obtain ⟨p, hp, hx⟩ := howned
  have hp0 : p = 0 := by
    unfold OnPage InRange at hx
    omega
  rcases hp with hp | hp
  · exact h.nonzero (hp0 ▸ hp)
  · exact h.free.ne_zero hp hp0

end HyperBench
