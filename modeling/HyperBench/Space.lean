import HyperBench.Phase
import Mathlib.Data.List.Basic

/-!
# The page tables of a run

A run of benchmarks starts on some root, with the free pages `ps`.  `Space`
is its invariant: the pages that are not free any more are the tables of the
roots that `setup_mmu` made, each root has its own, and each maps the first
4 GB to themselves.  `Space.step` and `Space.run` say that a run with enough
free pages keeps the invariant and comes to its end, and `Footprint` where
an operation stores.

The stores of `sgdt` and `sidt` go to addresses that the code does not
choose.  `Keep` are the addresses that they have to miss.
-/

namespace HyperBench

open ByteMem Function Radix

/-- Some page of the list holds the address. -/
def InPages (ps : List Nat) (x : Nat) : Prop := ∃ p ∈ ps, OnPage p x

/-! ## The invariant -/

/-- The state that a run starts in. -/
structure Setting (ps : List Nat) (Keep : Nat → Prop) (g₀ : Guest) : Prop where
  free : FreeList g₀.toHeap ps
  bound : ∀ p ∈ ps, p < 2 ^ 52
  length_le : ps.length ≤ 2 ^ 30
  keep : ∀ x, InPages ps x → Keep x
  vfreeTop : g₀.vfreeTop = 0
  roots : g₀.roots = []
  loaded : g₀.loaded = []

/-- The ten bytes at `va` have a translation. -/
def Mapped (T : RadixTree Nat) (va : Nat) : Prop :=
  ∀ i, i < 10 → Canonical ((va + i) % 2 ^ 64) ∧ T 0 (vpn ((va + i) % 2 ^ 64)) ≠ none

/-- What a phase says about the registers and the variables. -/
def Phase.Holds (start : Nat) (T : Nat → RadixTree Nat) (g : Guest) : Phase → Prop
  | .idle => g.cr3 = start
  | .fresh => g.roots.getLast? = some g.cr3 ∧ g.startCr3 = start ∧
      ∃ n, n ≤ 2 ^ 21 ∧ Filled 512 4 n (T g.cr3)
  | .mapped => g.roots.getLast? = some g.cr3 ∧ g.startCr3 = start ∧ Mapped (T g.cr3) g.vars.mem
  | .saved => g.roots.getLast? = some g.cr3 ∧ g.startCr3 = start ∧ g.vars.cr3 = g.cr3

/-- The first `used` pages of `ps` are the tables `T` of the roots, and the
others are free. -/
structure Space (ps : List Nat) (Keep : Nat → Prop) (g₀ : Guest) (T : Nat → RadixTree Nat) (used : Nat)
    (ph : Phase) (g : Guest) : Prop where
  used_le : used ≤ ps.length
  free : FreeList g.toHeap (ps.drop used)
  quiet : Exhausted g.toHeap → Exhausted g₀.toHeap
  nodup : g.roots.Nodup
  table : ∀ r ∈ g.roots, PageTable g.mem r (T r)
  nodes : ∀ r ∈ g.roots, ∀ p, (T r).IsNode p → p ∈ ps.take used
  apart : ∀ r ∈ g.roots, ∀ r' ∈ g.roots, r ≠ r' → ∀ p, (T r).IsNode p → ¬ (T r').IsNode p
  identity : ∀ r ∈ g.roots, ∀ w, w < 2 ^ 20 → T r 0 w = some (4096 * w)
  loaded : ∀ r ∈ g.loaded, r = g₀.cr3 ∨ r ∈ g.roots
  vfreeTop : ∃ c, c ≤ used ∧ g.vfreeTop = (2 ^ 64 - 8192 * c) % 2 ^ 64
  kept : ∀ x, Keep x → ¬ InPages ps x → g.mem x = g₀.mem x
  log : ∃ es, g.log = g₀.log ++ es ∧ ∀ e ∈ es, e.Within (InPages ps)
  phase : ph.Holds g₀.cr3 T g

section Space

variable {ps : List Nat} {Keep : Nat → Prop} {g₀ g g' : Guest} {T : Nat → RadixTree Nat} {used : Nat}
  {ph ph' : Phase}

theorem space_init (h : Setting ps Keep g₀) : Space ps Keep g₀ (fun _ => RadixTree.empty) 0 .idle g₀ := by
  have hroots := h.roots
  refine ⟨Nat.zero_le _, h.free, id, ?_, ?_, ?_, ?_, ?_, ?_, ⟨0, Nat.le_refl 0, ?_⟩, fun _ _ _ => rfl,
    ⟨[], by simp⟩, rfl⟩
  · rw [hroots]
    exact List.nodup_nil
  · simp [hroots]
  · simp [hroots]
  · simp [hroots]
  · simp [hroots]
  · simp [h.loaded]
  · rw [h.vfreeTop]
    rfl

/-- A used page is not free. -/
theorem Setting.not_free (hset : Setting ps Keep g₀) {p : Nat} (hp : p ∈ ps.take used) :
    p ∉ ps.drop used := by
  have hnodup := hset.free.nodup
  rw [← List.take_append_drop used ps] at hnodup
  exact fun hq => (List.nodup_append.1 hnodup).2.2 p hp p hq rfl

/-- The bytes of a used page are not on a free page. -/
theorem Setting.not_inPages (hset : Setting ps Keep g₀) {p x : Nat} (hp : p ∈ ps.take used)
    (hx : OnPage p x) : ¬ InPages (ps.drop used) x := by
  rintro ⟨q, hq, hxq⟩
  have hne : p ≠ q := by
    rintro rfl
    exact hset.not_free hp hq
  exact hx.disjoint (hset.free.aligned p (List.mem_of_mem_take hp))
    (hset.free.aligned q (List.mem_of_mem_drop hq)) hne hxq

theorem Space.tables (h : Space ps Keep g₀ T used ph g) (hset : Setting ps Keep g₀) {r : Nat}
    (hr : r ∈ g.roots) : Tables g.toHeap r (T r) (ps.drop used) := by
  refine ⟨h.table r hr, h.free, fun p hp => hset.bound p (List.mem_of_mem_drop hp), ?_⟩
  exact fun p hp hnode => hset.not_free (h.nodes r hr p hnode) hp

/-- An operation that leaves the pages of the run and the kept addresses
alone. -/
theorem Space.move (h : Space ps Keep g₀ T used ph g) (hset : Setting ps Keep g₀)
    (hfreelist : g'.freelist = g.freelist) (hlog : g'.log = g.log)
    (hvfree : g'.vfreeTop = g.vfreeTop) (hroots : g'.roots = g.roots)
    (hmem : ∀ x, Keep x → g'.mem x = g.mem x)
    (hloaded : ∀ r ∈ g'.loaded, r ∈ g.loaded ∨ r = g₀.cr3 ∨ r ∈ g.roots)
    (hphase : ph'.Holds g₀.cr3 T g') : Space ps Keep g₀ T used ph' g' := by
  have hpages : ∀ p ∈ ps, ∀ x, OnPage p x → g'.mem x = g.mem x :=
    fun p hp x hx => hmem x (hset.keep x ⟨p, hp, hx⟩)
  refine ⟨h.used_le, ?_, ?_, ?_, ?_, ?_, ?_, ?_, ?_, ?_, ?_, ?_, hphase⟩
  · exact h.free.congr hfreelist fun p hp => hpages p (List.mem_of_mem_drop hp)
  · intro hex
    apply h.quiet
    unfold Exhausted at *
    rwa [hlog] at hex
  · rw [hroots]
    exact h.nodup
  · intro r hr
    rw [hroots] at hr
    refine (h.table r hr).frame fun p hp => hpages p ?_
    exact List.mem_of_mem_take (h.nodes r hr p hp)
  · rw [hroots]
    exact h.nodes
  · rw [hroots]
    exact h.apart
  · rw [hroots]
    exact h.identity
  · intro r hr
    rw [hroots]
    rcases hloaded r hr with hr | hr
    · exact h.loaded r hr
    · exact hr
  · rw [hvfree]
    exact h.vfreeTop
  · exact fun x hx hx' => (hmem x hx).trans (h.kept x hx hx')
  · rw [hlog]
    exact h.log

/-- An operation that builds or extends the tables of the root `r` with the
next `n` free pages. -/
structure Grows (ps : List Nat) (T : Nat → RadixTree Nat) (used n r : Nat) (T' : RadixTree Nat)
    (g g' : Guest) : Prop where
  room : used + n ≤ ps.length
  roots : g'.roots = g.roots ∧ r ∈ g.roots ∨ g'.roots = g.roots ++ [r] ∧ r ∉ g.roots
  tables : Tables g'.toHeap r T' (ps.drop (used + n))
  nodes : ∀ p, T'.IsNode p → (r ∈ g.roots ∧ (T r).IsNode p) ∨ p ∈ (ps.drop used).take n
  identity : ∀ w, w < 2 ^ 20 → T' 0 w = some (4096 * w)
  touches : Touches (fun x => InPages (ps.drop used) x ∨
    r ∈ g.roots ∧ ∃ p, (T r).IsNode p ∧ OnPage p x) g.toHeap g'.toHeap
  quiet : Exhausted g'.toHeap → Exhausted g.toHeap
  loaded : ∀ x ∈ g'.loaded, x ∈ g.loaded ∨ x = r
  vfreeTop : ∃ c, c ≤ used + n ∧ g'.vfreeTop = (2 ^ 64 - 8192 * c) % 2 ^ 64

theorem Grows.mem_roots {r n : Nat} {T' : RadixTree Nat} (h : Grows ps T used n r T' g g') {q : Nat} :
    q ∈ g'.roots ↔ q ∈ g.roots ∨ q = r := by
  rcases h.roots with ⟨heq, hr⟩ | ⟨heq, _⟩
  · rw [heq]
    refine ⟨Or.inl, ?_⟩
    rintro (hq | rfl)
    · exact hq
    · exact hr
  · rw [heq, List.mem_append, List.mem_singleton]

/-- What such an operation touches belongs to the pages of the start. -/
theorem Space.inPages {r x : Nat} (h : Space ps Keep g₀ T used ph g)
    (hx : InPages (ps.drop used) x ∨ r ∈ g.roots ∧ ∃ p, (T r).IsNode p ∧ OnPage p x) :
    InPages ps x := by
  rcases hx with ⟨p, hp, hx⟩ | ⟨hr, p, hp, hx⟩
  · exact ⟨p, List.mem_of_mem_drop hp, hx⟩
  · exact ⟨p, List.mem_of_mem_take (h.nodes r hr p hp), hx⟩

/-- The tables of the other roots are not touched. -/
theorem Grows.other {r n : Nat} {T' : RadixTree Nat} (hg : Grows ps T used n r T' g g')
    (h : Space ps Keep g₀ T used ph g) (hset : Setting ps Keep g₀) {q : Nat} (hq : q ∈ g.roots)
    (hqr : q ≠ r) {p : Nat} (hp : (T q).IsNode p) {x : Nat} (hx : OnPage p x) :
    g'.mem x = g.mem x := by
  have haligned : ∀ q ∈ g.roots, ∀ p, (T q).IsNode p → p % 4096 = 0 := fun q hq p hp =>
    hset.free.aligned p (List.mem_of_mem_take (h.nodes q hq p hp))
  refine hg.touches.frame x ?_
  rintro (hfree | ⟨hr, p', hp', hx'⟩)
  · exact hset.not_inPages (h.nodes q hq p hp) hx hfree
  · have hne : p ≠ p' := by
      rintro rfl
      exact h.apart q hq r hr hqr p hp hp'
    exact hx.disjoint (haligned q hq p hp) (haligned r hr p' hp') hne hx'

/-- The new tables share no page with those of the other roots. -/
theorem Grows.apart {r n : Nat} {T' : RadixTree Nat} (hg : Grows ps T used n r T' g g')
    (h : Space ps Keep g₀ T used ph g) (hset : Setting ps Keep g₀) {q : Nat} (hq : q ∈ g.roots)
    (hqr : q ≠ r) {p : Nat} (hp : (T q).IsNode p) : ¬ T'.IsNode p := by
  intro hp'
  rcases hg.nodes p hp' with ⟨hr, hold⟩ | htaken
  · exact h.apart q hq r hr hqr p hp hold
  · exact hset.not_free (h.nodes q hq p hp) (List.mem_of_mem_take htaken)

/-- A root behind the operation is `r` or an old one. -/
theorem Grows.root_cases {r n : Nat} {T' : RadixTree Nat} (hg : Grows ps T used n r T' g g')
    {q : Nat} (hq : q ∈ g'.roots) :
    q = r ∧ update T r T' q = T' ∨ q ≠ r ∧ q ∈ g.roots ∧ update T r T' q = T q := by
  by_cases hqr : q = r
  · exact Or.inl ⟨hqr, by rw [hqr, update_self]⟩
  · exact Or.inr ⟨hqr, (hg.mem_roots.1 hq).resolve_right hqr, update_of_ne hqr _ _⟩

theorem Grows.nodup_roots {r n : Nat} {T' : RadixTree Nat} (hg : Grows ps T used n r T' g g')
    (h : g.roots.Nodup) : g'.roots.Nodup := by
  rcases hg.roots with ⟨heq, _⟩ | ⟨heq, hr⟩
  · rw [heq]
    exact h
  · rw [heq, List.nodup_append]
    refine ⟨h, List.nodup_singleton r, fun q hq q' hq' => ?_⟩
    rw [List.mem_singleton.1 hq']
    rintro rfl
    exact hr hq

theorem Space.grow {r n : Nat} {T' : RadixTree Nat} (h : Space ps Keep g₀ T used ph g)
    (hset : Setting ps Keep g₀) (hg : Grows ps T used n r T' g g')
    (hphase : ph'.Holds g₀.cr3 (update T r T') g') :
    Space ps Keep g₀ (update T r T') (used + n) ph' g' := by
  refine ⟨hg.room, hg.tables.free, fun hex => h.quiet (hg.quiet hex), hg.nodup_roots h.nodup,
    ?_, ?_, ?_, ?_, ?_, hg.vfreeTop, ?_, ?_, hphase⟩
  · intro q hq
    rcases hg.root_cases hq with ⟨rfl, heq⟩ | ⟨hqr, hq, heq⟩
    · rw [heq]
      exact hg.tables.table
    · rw [heq]
      exact (h.table q hq).frame fun p hp x hx => hg.other h hset hq hqr hp hx
  · intro q hq p hp
    rw [List.take_add, List.mem_append]
    rcases hg.root_cases hq with ⟨_, heq⟩ | ⟨hqr, hq, heq⟩
    · rw [heq] at hp
      exact (hg.nodes p hp).imp_left fun hold => h.nodes r hold.1 p hold.2
    · rw [heq] at hp
      exact Or.inl (h.nodes q hq p hp)
  · intro q hq q' hq' hne p hp hp'
    rcases hg.root_cases hq with ⟨hqr, heq⟩ | ⟨hqr, hq, heq⟩ <;>
      rcases hg.root_cases hq' with ⟨hqr', heq'⟩ | ⟨hqr', hq', heq'⟩ <;> rw [heq] at hp <;>
      rw [heq'] at hp'
    · exact hne (hqr.trans hqr'.symm)
    · exact hg.apart h hset hq' hqr' hp' hp
    · exact hg.apart h hset hq hqr hp hp'
    · exact h.apart q hq q' hq' hne p hp hp'
  · intro q hq w hw
    rcases hg.root_cases hq with ⟨_, heq⟩ | ⟨_, hq, heq⟩
    · rw [heq]
      exact hg.identity w hw
    · rw [heq]
      exact h.identity q hq w hw
  · intro q hq
    rw [hg.mem_roots]
    rcases hg.loaded q hq with hq | rfl
    · exact (h.loaded q hq).imp_right Or.inl
    · exact Or.inr (Or.inr rfl)
  · intro x hx hx'
    have hframe : g'.mem x = g.mem x := hg.touches.frame x fun hA => hx' (h.inPages hA)
    exact hframe.trans (h.kept x hx hx')
  · rcases h.log with ⟨es, hlog, hes⟩
    rcases hg.touches.log with ⟨es', hlog', hes'⟩
    refine ⟨es ++ es', ?_, fun e he => ?_⟩
    · rw [hlog', hlog, List.append_assoc]
    · rcases List.mem_append.1 he with he | he
      · exact hes e he
      · exact (hes' e he).mono fun x hA => h.inPages hA

/-! ## `setup_mmu` -/

theorem mappedPages_cases {e : Nat} (he : e = 1 <<< 32 ∨ e = 1 <<< 33) :
    2 ^ 20 ≤ mappedPages e ∧ mappedPages e ≤ 2 ^ 21 := by
  rcases he with rfl | rfl <;> decide

theorem grows_setupMmu {e : Nat} (h : Space ps Keep g₀ T used .idle g) (hset : Setting ps Keep g₀)
    (he : e = 1 <<< 32 ∨ e = 1 <<< 33) (hroom : used + (Op.setupMmu e).pages ≤ ps.length) :
    ∃ r T' g', ps[used]? = some r ∧ exec g (.setupMmu e) = some g' ∧ g'.roots = g.roots ++ [r] ∧
      g'.own = g.own ∧ Grows ps T used (Op.setupMmu e).pages r T' g g' ∧
      Phase.fresh.Holds g₀.cr3 (update T r T') g' := by
  rcases mappedPages_cases he with ⟨hlow, hhigh⟩
  have hpages : (Op.setupMmu e).pages = 1 + need 512 4 (mappedPages e) 3 := rfl
  rw [hpages] at hroom ⊢
  have hused : used < ps.length := by omega
  have hcons : ps.drop used = ps[used] :: ps.drop (used + 1) := List.drop_eq_getElem_cons hused
  set r := ps[used] with hr
  have hfree := h.free
  rw [hcons] at hfree
  have hbound : ∀ p ∈ r :: ps.drop (used + 1), p < 2 ^ 52 := by
    rw [← hcons]
    exact fun p hp => hset.bound p (List.mem_of_mem_drop hp)
  have henough : need 512 4 (mappedPages e) 3 ≤ (ps.drop (used + 1)).length := by
    rw [List.length_drop]
    omega
  rcases setupMmu_spec hfree hbound (by omega) henough with ⟨T', t, hrun, hid⟩
  have hfresh : r ∉ g.roots := by
    intro hmem
    have hnode : r ∈ ps.take used := h.nodes r hmem r (h.table r hmem).root_isNode
    exact hset.not_free hnode (hcons ▸ List.mem_cons_self)
  refine ⟨r, T', { g with
    toKernel := { g.toKernel with toHeap := t, startCr3 := g.cr3, cr3 := r }
    roots := g.roots ++ [r]
    loaded := g.loaded ++ [r] }, List.getElem?_eq_getElem hused, ?_, rfl, rfl,
    ⟨hroom, Or.inr ⟨rfl, hfresh⟩, ?_, ?_, ?_, ?_, ?_, ?_, ?_⟩, ?_⟩
  · rw [exec, hrun]
    rfl
  · have htables := hid.tables
    rw [List.drop_drop, Nat.add_assoc] at htables
    exact htables
  · intro p hp
    refine Or.inr ?_
    rw [hcons, Nat.add_comm 1, List.take_succ_cons, List.mem_cons]
    exact hid.nodes p hp
  · intro w hw
    rw [hid.values, if_pos (by omega)]
  · have hroot : Touches (OnPage r) g.toHeap (heapAllocPage g.toHeap).2 :=
      (heapAllocPage_cons hfree).2.2.1
    refine Touches.trans (hroot.mono fun x hx => Or.inl ⟨r, hcons ▸ List.mem_cons_self, hx⟩) ?_
    refine hid.touches.mono fun x hx => Or.inl ?_
    rcases hx with ⟨p, hp | hp, hx⟩
    · rw [eq_root_of_isNode hp] at hx
      exact ⟨r, hcons ▸ List.mem_cons_self, hx⟩
    · exact ⟨p, hcons ▸ List.mem_cons_of_mem r hp, hx⟩
  · exact fun hex => (exhausted_heapAllocPage hfree.freelist_ne_zero).1 (hid.quiet hex)
  · intro x hx
    rcases List.mem_append.1 hx with hx | hx
    · exact Or.inl hx
    · exact Or.inr (List.mem_singleton.1 hx)
  · rcases h.vfreeTop with ⟨c, hc, hvfree⟩
    exact ⟨c, by omega, hvfree⟩
  · refine ⟨List.getLast?_concat, h.phase, mappedPages e, hhigh, ?_⟩
    show Filled 512 4 (mappedPages e) (update T r T' r)
    rw [update_self]
    exact hid.filled

/-! ## The two pages of IORAM -/

/-- The two pages of IORAM at the address `v`. -/
def ioramAt (g : Guest) (v : Nat) : Guest :=
  let (_, s) := installPage g.toHeap g.cr3 IORAM_BASE_PHYS v
  let (_, s) := installPage s g.cr3 IORAM_BASE_PHYS ((v + 4096) % 2 ^ 64)
  { g with toKernel := { g.toKernel with toHeap := s, vfreeTop := v }, vars := { g.vars with mem := v } }

theorem ioramAt_anywhere (g : Guest) (v : Nat) :
    Touches Anywhere g.toHeap (ioramAt g v).toHeap :=
  (installPte_anywhere _ _ _ _ _ _).trans (installPte_anywhere _ _ _ _ _ _)

@[simp] theorem ioramAt_roots (g : Guest) (v : Nat) : (ioramAt g v).roots = g.roots := rfl

theorem mapIoram_eq_ioramAt (g : Guest) : mapIoram g = ioramAt g (allocVpages g.toKernel 2).1 := rfl

/-- The address that the next `alloc_vpages(2)` gives. -/
theorem mapIoram_eq {c : Nat} (hc : c < 2 ^ 31) (hvfree : g.vfreeTop = (2 ^ 64 - 8192 * c) % 2 ^ 64) :
    mapIoram g = ioramAt g (2 ^ 64 - 8192 * (c + 1)) := by
  have htop : (allocVpages g.toKernel 2).1 = 2 ^ 64 - 8192 * (c + 1) := by
    rw [allocVpages, hvfree, PAGE_SIZE_eq]
    omega
  rw [mapIoram_eq_ioramAt, htop]

/-- Two pages side by side behind the end of a filled tree take three
tables. -/
theorem install_two {s : Heap} {root phys virt n : Nat} {T : RadixTree Nat} {qs : List Nat}
    (h : Tables s root T qs) (hphys : phys % 4096 = 0) (hphys' : phys < 2 ^ 52)
    (hfilled : Filled 512 4 n T) (hn : n ≤ 2 ^ 21) (hvirt : 2 ^ 64 - 2 ^ 46 ≤ virt)
    (hvirt' : virt + 8192 ≤ 2 ^ 64) (heven : virt % 8192 = 0) (hqs : 3 ≤ qs.length) :
    ∃ T', Tables (installPage (installPage s root phys virt).2 root phys ((virt + 4096) % 2 ^ 64)).2
        root T' (qs.drop 3) ∧
      (∀ w, w < 2 ^ 21 → T' 0 w = T 0 w) ∧ T' 0 (vpn virt) = some phys ∧
      (∀ p, T'.IsNode p → T.IsNode p ∨ p ∈ qs.take 3) ∧
      Touches (Owned T qs) s
        (installPage (installPage s root phys virt).2 root phys ((virt + 4096) % 2 ^ 64)).2 ∧
      (Exhausted (installPage (installPage s root phys virt).2 root phys ((virt + 4096) % 2 ^ 64)).2 →
        Exhausted s) := by
  have hnext : vpn ((virt + 4096) % 2 ^ 64) = vpn virt + 1 := by
    unfold vpn
    omega
  have hv : 2 ^ 35 ≤ vpn virt ∧ vpn virt % 2 = 0 := by
    unfold vpn
    omega
  set v := vpn virt with hvdef
  have hthree : missing 512 4 v T 3 = 3 := by
    refine missing_of_none (fun l hl hl' => ?_) (by decide)
    by_contra hne
    have hlt := (hfilled l _ (by omega) (by omega)).1 hne
    interval_cases l <;> omega
  have hroom : missing 512 4 (vpn virt) T 3 ≤ qs.length := by
    rw [← hvdef, hthree]
    exact hqs
  rcases installPage_exact h hphys hphys' hroom with ⟨T₁, hfirst⟩
  -- the two pages have their tables in common
  have hzero : missing 512 4 (v + 1) T₁ 3 = 0 := by
    refine missing_of_some (fun l hl hl' => ?_) (by decide)
    refine (hfirst.path l _ (by omega)).2 (Or.inr ⟨by omega, ?_⟩)
    show (v + 1) / 512 ^ l = v / 512 ^ l
    interval_cases l <;> omega
  have htables := hfirst.tables
  have hnodes := hfirst.nodes
  rw [← hvdef, hthree] at htables hnodes
  have hroom' : missing 512 4 (vpn ((virt + 4096) % 2 ^ 64)) T₁ 3 ≤ (qs.drop 3).length := by
    rw [hnext, hzero]
    exact Nat.zero_le _
  rcases installPage_exact htables hphys hphys' hroom' with ⟨T₂, hsecond⟩
  have htables' := hsecond.tables
  have hnodes' := hsecond.nodes
  rw [hnext, hzero, List.drop_zero] at htables'
  rw [hnext, hzero, List.take_zero] at hnodes'
  refine ⟨T₂, htables', fun w hw => ?_, ?_, fun p hp => ?_, ?_, ?_⟩
  · rw [hsecond.values, hnext, if_neg (by omega), hfirst.values, if_neg (by omega)]
  · rw [hsecond.values, hnext, if_neg (by omega), hfirst.values, if_pos rfl]
  · rcases hnodes' p hp with hp | hp
    · exact hnodes p hp
    · exact absurd hp List.not_mem_nil
  · refine hfirst.touches.trans (hsecond.touches.mono fun x hx => ?_)
    exact hx.of_supply (List.take_append_drop 3 qs).symm hnodes
  · exact fun hex => hfirst.quiet (hsecond.quiet hex)

theorem grows_ioramAt {v : Nat} (h : Space ps Keep g₀ T used .fresh g) (hset : Setting ps Keep g₀)
    (hroom : used + 3 ≤ ps.length) (hlow : 2 ^ 64 - 2 ^ 46 ≤ v) (hhigh : v + 8192 ≤ 2 ^ 64)
    (heven : v % 8192 = 0) (hv : ∃ c, c ≤ used + 3 ∧ v = (2 ^ 64 - 8192 * c) % 2 ^ 64) :
    ∃ T', Grows ps T used 3 g.cr3 T' g (ioramAt g v) ∧ T' 0 (vpn v) = some IORAM_BASE_PHYS := by
  rcases h.phase with ⟨hlast, _, n, hn, hfilled⟩
  have hmem : g.cr3 ∈ g.roots := List.mem_of_getLast? hlast
  have henough : 3 ≤ (ps.drop used).length := by
    rw [List.length_drop]
    omega
  have hphys : IORAM_BASE_PHYS % 4096 = 0 ∧ IORAM_BASE_PHYS < 2 ^ 52 := by decide
  rcases install_two (h.tables hset hmem) hphys.1 hphys.2 hfilled hn hlow hhigh heven henough
    with ⟨T', htables, hvalues, hioram, hnodes, htouch, hquiet⟩
  rw [List.drop_drop] at htables
  refine ⟨T', ⟨hroom, Or.inl ⟨rfl, hmem⟩, htables, ?_, ?_, ?_, hquiet, fun x hx => Or.inl hx, hv⟩,
    hioram⟩
  · exact fun p hp => (hnodes p hp).imp_left fun hold => ⟨hmem, hold⟩
  · intro w hw
    rw [hvalues w (by omega)]
    exact h.identity _ hmem w hw
  · refine htouch.mono fun x hx => ?_
    rcases hx with ⟨p, hp | hp, hx⟩
    · exact Or.inr ⟨hmem, p, hp, hx⟩
    · exact Or.inl ⟨p, hp, hx⟩

theorem grows_mapIoram (h : Space ps Keep g₀ T used .fresh g) (hset : Setting ps Keep g₀)
    (hroom : used + 3 ≤ ps.length) :
    ∃ v T', mapIoram g = ioramAt g v ∧ Grows ps T used 3 g.cr3 T' g (ioramAt g v) ∧
      Canonical v ∧ v % 4096 = 0 ∧ T' 0 (vpn v) = some IORAM_BASE_PHYS := by
  rcases h.vfreeTop with ⟨c, hc, hvfree⟩
  have hlen := hset.length_le
  have heq := mapIoram_eq (by omega) hvfree
  generalize hv : 2 ^ 64 - 8192 * (c + 1) = v at heq
  have hlow : 2 ^ 64 - 2 ^ 46 ≤ v := by omega
  have hhigh : v + 8192 ≤ 2 ^ 64 := by omega
  have heven : v % 8192 = 0 := by omega
  have hvtop : v = (2 ^ 64 - 8192 * (c + 1)) % 2 ^ 64 := by omega
  rcases grows_ioramAt h hset hroom hlow hhigh heven ⟨c + 1, by omega, hvtop⟩
    with ⟨T', hgrow, hioram⟩
  have hcanonical : Canonical v := by
    unfold Canonical
    omega
  exact ⟨v, T', heq, hgrow, hcanonical, by omega, hioram⟩

/-! ## Translations -/

theorem isSome_mapM {α β : Type*} (f : α → Option β) (xs : List α) :
    (xs.mapM f).isSome ↔ ∀ x ∈ xs, (f x).isSome := by
  induction xs with
  | nil => simp
  | cons x xs ih =>
    cases hx : f x with
    | none => simp [List.mapM_cons, hx]
    | some y =>
      cases hxs : xs.mapM f with
      | none =>
        rw [hxs] at ih
        simpa [List.mapM_cons, hx, hxs] using ih
      | some ys =>
        rw [hxs] at ih
        simpa [List.mapM_cons, hx, hxs] using ih

theorem Space.translate_eq (h : Space ps Keep g₀ T used ph g) (hr : g.cr3 ∈ g.roots) (va : Nat) :
    g.translate va
      = if Canonical va then (T g.cr3 0 (vpn va)).map (· + va % 4096) else none := by
  rw [Guest.translate, (h.table _ hr).walk_eq, Option.map_map]
  rfl

theorem Space.mapped_iff (h : Space ps Keep g₀ T used ph g) (hr : g.cr3 ∈ g.roots) (va : Nat) :
    (g.descriptorBytes va).isSome ↔ Mapped (T g.cr3) va := by
  rw [Guest.descriptorBytes, isSome_mapM]
  refine forall_congr' fun i => ?_
  rw [List.mem_range, h.translate_eq hr]
  refine imp_congr_right fun _ => ?_
  by_cases hc : Canonical ((va + i) % 2 ^ 64)
  · rw [if_pos hc, Option.isSome_map, Option.isSome_iff_ne_none]
    exact (and_iff_right hc).symm
  · rw [if_neg hc]
    exact ⟨fun hfalse => Bool.noConfusion hfalse, fun hand => absurd hand.1 hc⟩

theorem Space.translate_low (h : Space ps Keep g₀ T used ph g) (hr : g.cr3 ∈ g.roots) {va : Nat}
    (hva : va < 2 ^ 32) : g.translate va = some va := by
  have hcanonical : Canonical va := Or.inl (by omega)
  have hvpn : vpn va < 2 ^ 20 ∧ 4096 * vpn va + va % 4096 = va := by
    unfold vpn
    omega
  rw [h.translate_eq hr, if_pos hcanonical, h.identity _ hr _ hvpn.1, Option.map_some, hvpn.2]

/-! ## One operation -/

theorem storeBytes_of_notMem {m : Mem} {addrs : List Nat} {x : Nat} (hx : x ∉ addrs)
    (bytes : List UInt8) : storeBytes m addrs bytes x = m x := by
  unfold storeBytes
  induction addrs generalizing m bytes with
  | nil => rfl
  | cons a addrs ih =>
    cases bytes with
    | nil => rfl
    | cons b bytes =>
      rw [List.mem_cons, not_or] at hx
      rw [List.zip_cons_cons, List.foldl_cons, ih hx.2, update_of_ne hx.1]

/-- The step from `g` to `g'` stores at `x`. -/
def Guest.Stores (g g' : Guest) (x : Nat) : Prop :=
  ∃ a n, (.store a n ∈ g'.log.drop g.log.length ∨ .store a n ∈ g'.own.drop g.own.length) ∧
    InRange a n x

/-- Only free pages and the tables of the last root are written, apart from
the stores that miss `Keep`. -/
def Footprint (ps : List Nat) (Keep : Nat → Prop) (T : Nat → RadixTree Nat) (used : Nat)
    (g g' : Guest) : Prop :=
  ∀ x, g.Stores g' x → InPages (ps.drop used) x ∨
    (g'.roots = g.roots ∧ ∃ r p, g.roots.getLast? = some r ∧ (T r).IsNode p ∧ OnPage p x) ∨ ¬ Keep x

theorem footprint_of_touches {A : Nat → Prop} (htouch : Touches A g.toHeap g'.toHeap)
    (hown : g'.own = g.own)
    (hA : ∀ x, A x → InPages (ps.drop used) x ∨
      (g'.roots = g.roots ∧ ∃ r p, g.roots.getLast? = some r ∧ (T r).IsNode p ∧ OnPage p x)) :
    Footprint ps Keep T used g g' := by
  rintro x ⟨a, n, hstore | hstore, hx⟩
  · rcases htouch.log with ⟨es, hlog, hes⟩
    rw [hlog, List.drop_left] at hstore
    rcases hA x (hes _ hstore x hx.1 hx.2) with hfree | htable
    · exact Or.inl hfree
    · exact Or.inr (Or.inl htable)
  · rw [hown, List.drop_length] at hstore
    exact absurd hstore List.not_mem_nil

/-- An operation that adds to the log of the benchmarks only. -/
theorem footprint_of_own {es : List Event} (hlog : g'.log = g.log) (hown : g'.own = g.own ++ es)
    (hes : ∀ a n, .store a n ∈ es → ∀ x, InRange a n x → ¬ Keep x) :
    Footprint ps Keep T used g g' := by
  rintro x ⟨a, n, hstore | hstore, hx⟩
  · rw [hlog, List.drop_length] at hstore
    exact absurd hstore List.not_mem_nil
  · rw [hown, List.drop_left] at hstore
    exact Or.inr (Or.inr (hes a n hstore x hx))

/-- The ten bytes of a descriptor store have a translation, and it misses the
addresses `Keep`. -/
def Op.Misses (Keep : Nat → Prop) (g : Guest) : Op → Prop
  | .storeDescriptor d => ∃ addrs, g.descriptorBytes d.reg = some addrs ∧ ∀ a ∈ addrs, ¬ Keep a
  | _ => True

theorem Phase.Holds.congr (h : ph.Holds g₀.cr3 T g) (hroots : g'.roots = g.roots)
    (hcr3 : g'.cr3 = g.cr3) (hstart : g'.startCr3 = g.startCr3) (hvars : g'.vars = g.vars) :
    ph.Holds g₀.cr3 T g' := by
  cases ph <;> simpa only [Phase.Holds, hroots, hcr3, hstart, hvars] using h

/-- The operation from `g` to `g'` takes `n` pages and ends in the phase
`ph'`. -/
def Advances (ps : List Nat) (Keep : Nat → Prop) (g₀ : Guest) (T : Nat → RadixTree Nat) (used n : Nat)
    (ph' : Phase) (g g' : Guest) : Prop :=
  (∃ T', Space ps Keep g₀ T' (used + n) ph' g') ∧ Footprint ps Keep T used g g'

/-- A new value in the root register or in the variable `cr3`. -/
theorem Space.step_register (h : Space ps Keep g₀ T used ph g) (hset : Setting ps Keep g₀)
    (hheap : g'.toHeap = g.toHeap) (hvfree : g'.vfreeTop = g.vfreeTop) (hroots : g'.roots = g.roots)
    (hown : g'.own = g.own)
    (hloaded : ∀ r ∈ g'.loaded, r ∈ g.loaded ∨ r = g₀.cr3 ∨ r ∈ g.roots)
    (hphase : ph'.Holds g₀.cr3 T g') : Advances ps Keep g₀ T used 0 ph' g g' := by
  have htouch : Touches (fun _ => False) g.toHeap g'.toHeap := by
    rw [hheap]
    exact Touches.refl _ _
  refine ⟨⟨T, h.move hset ?_ ?_ hvfree hroots ?_ hloaded hphase⟩,
    footprint_of_touches htouch hown fun _ => False.elim⟩
  · rw [hheap]
  · rw [hheap]
  · intro x _
    rw [hheap]

theorem not_store_mem_map_load (addrs : List Nat) (a n : Nat) :
    .store a n ∉ addrs.map (Event.load · 1) := by
  intro hmem
  rcases List.mem_map.1 hmem with ⟨b, _, heq⟩
  exact Event.noConfusion heq

/-- A load of a benchmark. -/
theorem Space.step_loads (h : Space ps Keep g₀ T used ph g) (hset : Setting ps Keep g₀)
    (addrs : List Nat) :
    Advances ps Keep g₀ T used 0 ph g { g with own := g.own ++ addrs.map (.load · 1) } := by
  refine ⟨⟨T, h.move hset rfl rfl rfl rfl (fun _ _ => rfl) (fun _ => Or.inl) ?_⟩,
    footprint_of_own rfl rfl fun a n hstore => ?_⟩
  · exact h.phase.congr rfl rfl rfl rfl
  · exact absurd hstore (not_store_mem_map_load addrs a n)

theorem Space.step_setupMmu {e : Nat} (h : Space ps Keep g₀ T used .idle g) (hset : Setting ps Keep g₀)
    (he : e = 1 <<< 32 ∨ e = 1 <<< 33) (hroom : used + (Op.setupMmu e).pages ≤ ps.length) :
    ∃ g', exec g (.setupMmu e) = some g' ∧
      Advances ps Keep g₀ T used (Op.setupMmu e).pages .fresh g g' := by
  rcases grows_setupMmu h hset he hroom with ⟨r, T', g', _, hrun, hroots, hown, hgrow, hphase⟩
  refine ⟨g', hrun, ⟨_, h.grow hset hgrow hphase⟩, footprint_of_touches hgrow.touches hown ?_⟩
  rintro x (hfree | ⟨hr, _⟩)
  · exact Or.inl hfree
  · rcases hgrow.roots with ⟨heq, _⟩ | ⟨_, hnew⟩
    · rw [hroots] at heq
      exact absurd heq (by simp)
    · exact absurd hr hnew

theorem Space.step_mapIoram (h : Space ps Keep g₀ T used .fresh g) (hset : Setting ps Keep g₀)
    (hroom : used + 3 ≤ ps.length) :
    Advances ps Keep g₀ T used 3 .mapped g (mapIoram g) := by
  rcases grows_mapIoram h hset hroom with ⟨v, T', heq, hgrow, hcanonical, haligned, hioram⟩
  rw [heq]
  rcases h.phase with ⟨hlast, hstart, _⟩
  refine ⟨⟨_, h.grow hset hgrow ⟨hlast, hstart, ?_⟩⟩, footprint_of_touches hgrow.touches rfl ?_⟩
  · show Mapped (update T g.cr3 T' g.cr3) v
    rw [update_self]
    intro i hi
    have hlt : (v + i) % 2 ^ 64 = v + i := by
      unfold Canonical at hcanonical
      omega
    have hvpn : vpn (v + i) = vpn v := by
      unfold vpn
      omega
    rw [hlt, hvpn, hioram]
    refine ⟨?_, Option.some_ne_none _⟩
    unfold Canonical at *
    omega
  · rintro x (hfree | ⟨_, p, hp, hx⟩)
    · exact Or.inl hfree
    · exact Or.inr ⟨rfl, g.cr3, p, hlast, hp, hx⟩

theorem Space.step_storeDescriptor {d : Descriptor} (h : Space ps Keep g₀ T used .mapped g)
    (hset : Setting ps Keep g₀) (hmiss : (Op.storeDescriptor d).Misses Keep g) :
    ∃ g', exec g (.storeDescriptor d) = some g' ∧ Advances ps Keep g₀ T used 0 .mapped g g' := by
  rcases hmiss with ⟨addrs, haddrs, hmiss⟩
  rcases h.phase with ⟨hlast, hstart, _⟩
  have hmapped : Mapped (T g.cr3) d.reg := by
    rw [← h.mapped_iff (List.mem_of_getLast? hlast), haddrs]
    rfl
  refine ⟨{ g with
    mem := storeBytes g.mem addrs d.value.toList
    vars := { g.vars with mem := d.reg }
    own := g.own ++ addrs.map (.store · 1) }, by rw [exec, haddrs]; rfl,
    ⟨T, h.move hset rfl rfl rfl rfl (fun x hx => ?_) (fun _ => Or.inl) ⟨hlast, hstart, hmapped⟩⟩,
    footprint_of_own rfl rfl fun a n hstore x hx => ?_⟩
  · exact storeBytes_of_notMem (fun hmem => hmiss x hmem hx) _
  · rcases List.mem_map.1 hstore with ⟨b, hb, heq⟩
    injection heq with hba hn
    have hxb : x = b := by
      unfold InRange at hx
      omega
    rw [hxb]
    exact hmiss b hb

theorem Space.step_loadCr3 (h : Space ps Keep g₀ T used .saved g) (hset : Setting ps Keep g₀) :
    Advances ps Keep g₀ T used 0 .saved g
      { g with cr3 := g.vars.cr3, loaded := g.loaded ++ [g.vars.cr3] } := by
  rcases h.phase with ⟨hlast, hstart, hvar⟩
  have hlast' : g.roots.getLast? = some g.vars.cr3 := hvar ▸ hlast
  refine h.step_register hset rfl rfl rfl rfl (fun r hr => ?_) ⟨hlast', hstart, rfl⟩
  refine (List.mem_append.1 hr).imp_right fun hr => Or.inr ?_
  rw [List.mem_singleton.1 hr]
  exact List.mem_of_getLast? hlast'

theorem Space.step_switchToStartCr3 (h : Space ps Keep g₀ T used ph g) (hset : Setting ps Keep g₀)
    (hph : ph ≠ .idle) :
    Advances ps Keep g₀ T used 0 .idle g
      { g with toKernel := switchToStartCr3 g.toKernel, loaded := g.loaded ++ [g.startCr3] } := by
  have hphase := h.phase
  have hstart : g.startCr3 = g₀.cr3 := by
    cases ph with
    | idle => exact absurd rfl hph
    | fresh | mapped | saved => exact hphase.2.1
  refine h.step_register hset rfl rfl rfl rfl (fun r hr => ?_) hstart
  refine (List.mem_append.1 hr).imp_right fun hr => Or.inl ?_
  rw [List.mem_singleton.1 hr]
  exact hstart

/-- An operation in its phase, with enough free pages, can be done and keeps
the invariant. -/
theorem Space.step {op : Op} (h : Space ps Keep g₀ T used ph g) (hset : Setting ps Keep g₀)
    (hnext : ph.next op = some ph') (hroom : used + op.pages ≤ ps.length)
    (hmiss : op.Misses Keep g) :
    ∃ g', exec g op = some g' ∧ Advances ps Keep g₀ T used op.pages ph' g g' := by
  cases op with
  | setupMmu e =>
    cases ph with
    | idle =>
      by_cases he : e = 1 <<< 32 ∨ e = 1 <<< 33
      · rw [Phase.next, if_pos he, Option.some.injEq] at hnext
        subst hnext
        exact h.step_setupMmu hset he hroom
      · rw [Phase.next, if_neg he] at hnext
        cases hnext
    | fresh | mapped | saved => cases hnext
  | mapIoram =>
    cases ph with
    | fresh =>
      obtain rfl : Phase.mapped = ph' := Option.some.inj hnext
      exact ⟨_, rfl, h.step_mapIoram hset hroom⟩
    | idle | mapped | saved => cases hnext
  | storeDescriptor d =>
    cases ph with
    | mapped =>
      obtain rfl : Phase.mapped = ph' := Option.some.inj hnext
      exact h.step_storeDescriptor hset hmiss
    | idle | fresh | saved => cases hnext
  | loadDescriptor =>
    cases ph with
    | mapped =>
      obtain rfl : Phase.mapped = ph' := Option.some.inj hnext
      rcases h.phase with ⟨hlast, _, hmapped⟩
      rw [← h.mapped_iff (List.mem_of_getLast? hlast), Option.isSome_iff_exists] at hmapped
      rcases hmapped with ⟨addrs, haddrs⟩
      exact ⟨_, by rw [exec, haddrs]; rfl, h.step_loads hset addrs⟩
    | idle | fresh | saved => cases hnext
  | read va =>
    cases ph with
    | fresh =>
      by_cases hva : va < 2 ^ 32
      · rw [Phase.next, if_pos hva, Option.some.injEq] at hnext
        subst hnext
        have haddr := h.translate_low (List.mem_of_getLast? h.phase.1) hva
        exact ⟨_, by rw [exec, haddr]; rfl, h.step_loads hset [va]⟩
      · rw [Phase.next, if_neg hva] at hnext
        cases hnext
    | idle | mapped | saved => cases hnext
  | onCpu i =>
    cases ph with
    | fresh =>
      obtain rfl : Phase.fresh = ph' := Option.some.inj hnext
      exact ⟨g, rfl, h.step_register hset rfl rfl rfl rfl (fun _ => Or.inl) h.phase⟩
    | idle | mapped | saved => cases hnext
  | saveCr3 =>
    cases ph with
    | fresh =>
      obtain rfl : Phase.saved = ph' := Option.some.inj hnext
      rcases h.phase with ⟨hlast, hstart, _⟩
      exact ⟨_, rfl, h.step_register hset rfl rfl rfl rfl (fun _ => Or.inl) ⟨hlast, hstart, rfl⟩⟩
    | idle | mapped | saved => cases hnext
  | loadCr3 =>
    cases ph with
    | saved =>
      obtain rfl : Phase.saved = ph' := Option.some.inj hnext
      exact ⟨_, rfl, h.step_loadCr3 hset⟩
    | idle | fresh | mapped => cases hnext
  | switchToStartCr3 =>
    have hphases : ph ≠ .idle ∧ ph' = .idle := by
      cases ph with
      | idle => cases hnext
      | fresh | mapped | saved =>
        refine ⟨?_, (Option.some.inj hnext).symm⟩
        intro hidle
        cases hidle
    rw [hphases.2]
    exact ⟨_, rfl, h.step_switchToStartCr3 hset hphases.1⟩

/-! ## A run -/

/-- The descriptor stores of a run from `g` miss `Keep`. -/
def AllMiss (Keep : Nat → Prop) (g : Guest) (ops : List Op) : Prop :=
  ∀ before op after, ops = before ++ op :: after → ∀ g', execAll g before = some g' → op.Misses Keep g'

theorem AllMiss.head {op : Op} {ops : List Op} (h : AllMiss Keep g (op :: ops)) :
    op.Misses Keep g :=
  h [] op ops rfl g rfl

theorem AllMiss.tail {op : Op} {ops : List Op} (h : AllMiss Keep g (op :: ops))
    (hexec : exec g op = some g') : AllMiss Keep g' ops := by
  intro before op' after heq g'' hrun
  refine h (op :: before) op' after (by rw [heq]; rfl) g'' ?_
  rw [execAll_cons hexec]
  exact hrun

theorem AllMiss.cons {op : Op} {ops : List Op} (hop : op.Misses Keep g)
    (h : ∀ g', exec g op = some g' → AllMiss Keep g' ops) : AllMiss Keep g (op :: ops) := by
  intro before op' after heq g' hrun
  cases before with
  | nil =>
    injection heq with hhead _
    obtain rfl : g = g' := Option.some.inj hrun
    rwa [← hhead]
  | cons op₁ before =>
    injection heq with hhead htail
    rw [← hhead] at hrun
    rcases exists_of_execAll_cons hrun with ⟨g₁, hexec, hrun⟩
    exact h g₁ hexec before op' after htail g' hrun

theorem allMiss_of_forall {ops : List Op} (h : ∀ op ∈ ops, ∀ g', op.Misses Keep g') :
    AllMiss Keep g ops := by
  intro before op after heq g' _
  refine h op ?_ g'
  rw [heq]
  exact List.mem_append_right before List.mem_cons_self

theorem AllMiss.of_append {ops ops' : List Op} (h : AllMiss Keep g (ops ++ ops')) :
    AllMiss Keep g ops := by
  intro before op after heq
  refine h before op (after ++ ops') ?_
  rw [heq, List.append_assoc, List.cons_append]

theorem Space.run {ops : List Op} (h : Space ps Keep g₀ T used ph g) (hset : Setting ps Keep g₀)
    (hnext : ops.foldlM Phase.next ph = some ph') (hroom : used + pagesFor ops ≤ ps.length)
    (hmiss : AllMiss Keep g ops) :
    ∃ T' g', execAll g ops = some g' ∧ Space ps Keep g₀ T' (used + pagesFor ops) ph' g' := by
  induction ops generalizing T used ph g with
  | nil =>
    obtain rfl : ph = ph' := Option.some.inj hnext
    exact ⟨T, g, rfl, h⟩
  | cons op ops ih =>
    rw [List.foldlM_cons] at hnext
    rw [pagesFor_cons] at hroom ⊢
    cases hph : ph.next op with
    | none =>
      rw [hph] at hnext
      exact nomatch hnext
    | some ph₁ =>
      rw [hph] at hnext
      rcases h.step hset hph (by omega) hmiss.head with ⟨g₁, hexec, ⟨T₁, h₁⟩, _⟩
      rcases ih h₁ hnext (by omega) (hmiss.tail hexec) with ⟨T', g', hrun, h'⟩
      refine ⟨T', g', ?_, ?_⟩
      · rw [execAll_cons hexec]
        exact hrun
      · rw [Nat.add_assoc] at h'
        exact h'

end Space

end HyperBench
