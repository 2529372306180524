import HyperBench.Space
import Mathlib.Data.List.Perm.Subperm

/-!
# The address space of a run of benchmarks

`AddressSpace ptl2 g js` is what the benchmarks `js`, run one after the other
from `g`, promise about the root register and the page tables:

* the run comes to its end, and the root register is back on the boot tables
  before and behind every benchmark;
* every root that was ever loaded sends the first 4 GB to themselves;
* no store goes to the boot tables or to the tables of an earlier root.

`addressSpace_of_misses` proves it for every list of benchmarks whose
descriptor stores miss the boot tables and the pages of the free list.
Without the condition it is wrong: `sgdt` stores to the frame of IORAM, and
nothing keeps that frame off the free list.
-/

namespace HyperBench

open ByteMem Radix

/-! ## The promise -/

structure AddressSpace (ptl2 : Nat) (g₀ : Guest) (js : List Job) : Prop where
  ends : ∃ g, execAll g₀ (jobOps js) = some g
  between : ∀ first rest g, js = first ++ rest → execAll g₀ (jobOps first) = some g →
    g.cr3 = ptl4 ptl2
  identity : ∀ before after g, jobOps js = before ++ after → execAll g₀ before = some g →
    ∀ r ∈ g.loaded, ∀ va, va < 2 ^ 32 → walk g.mem r va = some ⟨va, true, true⟩
  kept : ∀ before op after g g', jobOps js = before ++ op :: after → execAll g₀ before = some g →
    exec g op = some g' → ∀ x, g.Stores g' x →
      ¬ BootPage ptl2 x ∧ ∀ r ∈ g'.roots.dropLast, ∀ p, IsTable g.mem r p → ¬ OnPage p x

/-- The state behind `early_mem_init`: on the boot tables, with the free
pages `ps` below 4 GB. -/
structure Booted (ptl2 : Nat) (ps : List Nat) (g : Guest) : Prop where
  boot : BootTables g.mem ptl2
  cr3 : g.cr3 = ptl4 ptl2
  free : FreeList g.toHeap ps
  below : ∀ p ∈ ps, p < 2 ^ 32
  apart : ∀ x, InPages ps x → ¬ BootPage ptl2 x
  vfreeTop : g.vfreeTop = 0
  roots : g.roots = []
  loaded : g.loaded = []

/-- The addresses that no descriptor may be stored to. -/
def Protected (ptl2 : Nat) (ps : List Nat) (x : Nat) : Prop := BootPage ptl2 x ∨ InPages ps x

section AddressSpace

variable {ptl2 : Nat} {ps : List Nat} {g₀ g g' : Guest} {js : List Job}

/-- Different pages below 4 GB. -/
theorem length_le_of_below (hnodup : ps.Nodup) (haligned : ∀ p ∈ ps, p % 4096 = 0)
    (hbelow : ∀ p ∈ ps, p < 2 ^ 32) : ps.length ≤ 2 ^ 20 := by
  have hmap : (ps.map (· / 4096)).Nodup := by
    refine List.Nodup.map_on (fun p hp q hq heq => ?_) hnodup
    have ha := haligned p hp
    have hb := haligned q hq
    omega
  have hsub : ps.map (· / 4096) ⊆ List.range (2 ^ 20) := by
    intro n hn
    rcases List.mem_map.1 hn with ⟨p, hp, rfl⟩
    have hlt := hbelow p hp
    rw [List.mem_range]
    omega
  have hle := (hmap.subperm hsub).length_le
  rwa [List.length_map, List.length_range] at hle

theorem Booted.setting (h : Booted ptl2 ps g₀) : Setting ps (Protected ptl2 ps) g₀ := by
  have hlen := length_le_of_below h.free.nodup h.free.aligned h.below
  refine ⟨h.free, fun p hp => ?_, by omega, fun x => Or.inr, h.vfreeTop, h.roots, h.loaded⟩
  have hlt := h.below p hp
  omega

/-- The state behind the first operations of a run. -/
theorem Booted.run_prefix (h : Booted ptl2 ps g₀) (hroom : pagesFor (jobOps js) ≤ ps.length)
    (hmiss : AllMiss (Protected ptl2 ps) g₀ (jobOps js)) {before after : List Op}
    (heq : jobOps js = before ++ after) :
    ∃ ph T g, before.foldlM Phase.next .idle = some ph ∧
      after.foldlM Phase.next ph = some .idle ∧ execAll g₀ before = some g ∧
      Space ps (Protected ptl2 ps) g₀ T (pagesFor before) ph g := by
  have hnext := jobOps_next js
  rw [heq, List.foldlM_append] at hnext
  rw [heq, pagesFor_append] at hroom
  rw [heq] at hmiss
  cases hph : before.foldlM Phase.next .idle with
  | none =>
    rw [hph] at hnext
    exact nomatch hnext
  | some ph =>
    rw [hph] at hnext
    rcases (space_init h.setting).run h.setting hph (by omega) hmiss.of_append with ⟨T, g, hrun, hg⟩
    rw [Nat.zero_add] at hg
    exact ⟨ph, T, g, rfl, hnext, hrun, hg⟩

variable {T : Nat → RadixTree Nat} {used : Nat} {ph : Phase}

/-- Every loaded root sends the first 4 GB to themselves. -/
theorem Booted.walk_eq (h : Booted ptl2 ps g₀) (hg : Space ps (Protected ptl2 ps) g₀ T used ph g)
    {r va : Nat} (hr : r ∈ g.loaded) (hva : va < 2 ^ 32) :
    walk g.mem r va = some ⟨va, true, true⟩ := by
  rcases hg.loaded r hr with rfl | hr
  · have hboot : BootTables g.mem ptl2 :=
      h.boot.frame fun x hx => hg.kept x (Or.inl hx) fun hin => h.apart x hin hx
    rw [h.cr3]
    exact hboot.walk_eq hva
  · have hvpn : vpn va < 2 ^ 20 ∧ 4096 * vpn va + va % 4096 = va := by
      unfold vpn
      omega
    rw [(hg.table r hr).walk_eq, hg.identity r hr _ hvpn.1, Option.map_some, hvpn.2]

/-- An operation adds at most one root. -/
theorem exec_roots {op : Op} (h : exec g op = some g') :
    g'.roots = g.roots ∨ ∃ r, g'.roots = g.roots ++ [r] := by
  rcases exec_cases h with ⟨_, r, _, _, rfl⟩ | ⟨_, rfl⟩ | ⟨hroots, _⟩
  · exact Or.inr ⟨r, rfl⟩
  · rw [mapIoram_eq_ioramAt]
    exact Or.inl (ioramAt_roots g _)
  · exact Or.inl hroots

theorem mem_roots_of_mem_dropLast {op : Op} (h : exec g op = some g') {r : Nat}
    (hr : r ∈ g'.roots.dropLast) : r ∈ g.roots := by
  rcases exec_roots h with heq | ⟨q, heq⟩
  · rw [heq] at hr
    exact List.dropLast_subset _ hr
  · rwa [heq, List.dropLast_concat] at hr

theorem ne_of_mem_dropLast {rs : List Nat} (hnodup : rs.Nodup) {r q : Nat} (hr : r ∈ rs.dropLast)
    (hq : rs.getLast? = some q) : r ≠ q := by
  rcases List.getLast?_eq_some_iff.1 hq with ⟨init, rfl⟩
  rw [List.dropLast_concat] at hr
  rintro rfl
  exact (List.nodup_append.1 hnodup).2.2 r hr r (List.mem_singleton_self r) rfl

/-- The stores of an operation miss the boot tables and the tables of the
earlier roots. -/
theorem Footprint.kept {op : Op} (hfoot : Footprint ps (Protected ptl2 ps) T used g g')
    (h : Booted ptl2 ps g₀) (hg : Space ps (Protected ptl2 ps) g₀ T used ph g)
    (hexec : exec g op = some g') {x : Nat} (hx : g.Stores g' x) :
    ¬ BootPage ptl2 x ∧ ∀ r ∈ g'.roots.dropLast, ∀ p, IsTable g.mem r p → ¬ OnPage p x := by
  have hnode : ∀ r ∈ g'.roots.dropLast, ∀ p, IsTable g.mem r p →
      (T r).IsNode p ∧ p ∈ ps.take used := by
    intro r hr p hp
    have hmem := mem_roots_of_mem_dropLast hexec hr
    have hp' := (hg.table r hmem).isNode_of_isTable hp
    exact ⟨hp', hg.nodes r hmem p hp'⟩
  rcases hfoot x hx with hfree | ⟨hroots, q, p', hlast, hp', hxp'⟩ | hmiss
  · refine ⟨?_, fun r hr p hp hxp => h.setting.not_inPages (hnode r hr p hp).2 hxp hfree⟩
    rcases hfree with ⟨p, hp, hxp⟩
    exact h.apart x ⟨p, List.mem_of_mem_drop hp, hxp⟩
  · have hq : q ∈ g.roots := List.mem_of_getLast? hlast
    have hused : p' ∈ ps := List.mem_of_mem_take (hg.nodes q hq p' hp')
    refine ⟨h.apart x ⟨p', hused, hxp'⟩, fun r hr p hp hxp => ?_⟩
    have hne : p ≠ p' := by
      rintro rfl
      have hrq : r ≠ q := ne_of_mem_dropLast hg.nodup (hroots ▸ hr) hlast
      exact hg.apart r (mem_roots_of_mem_dropLast hexec hr) q hq hrq p (hnode r hr p hp).1 hp'
    have hpm : p ∈ ps := List.mem_of_mem_take (hnode r hr p hp).2
    exact hxp.disjoint (h.free.aligned p hpm) (h.free.aligned p' hused) hne hxp'
  · refine ⟨fun hboot => hmiss (Or.inl hboot), fun r hr p hp hxp => hmiss (Or.inr ?_)⟩
    exact ⟨p, List.mem_of_mem_take (hnode r hr p hp).2, hxp⟩

end AddressSpace

/-! ## A booted guest -/

/-- Memory with the boot tables and nothing else. -/
def bootImage (ptl2 : Nat) : Mem := fun x =>
  if x < ptl2 then 0
  else UInt8.ofNat (bootWord ptl2 ((x - ptl2) / 8) / 256 ^ ((x - ptl2) % 8))

theorem bootWord_lt {ptl2 i : Nat} (hptl2 : ptl2 + 6 * 4096 ≤ 2 ^ 32) : bootWord ptl2 i < 256 ^ 8 := by
  unfold bootWord
  split
  · rw [BootTables.large_entry]
    omega
  · unfold ptl3
    split
    · omega
    · split <;> omega

theorem bootTables_bootImage {ptl2 : Nat} (ha : ptl2 % 4096 = 0) (hb : ptl2 + 6 * 4096 ≤ 2 ^ 32) :
    BootTables (bootImage ptl2) ptl2 := by
  refine ⟨fun i _ => ?_, ha, hb⟩
  have hstore : load (bootImage ptl2) (ptl2 + 8 * i) 8
      = load (store (fun _ => 0) (ptl2 + 8 * i) 8 (bootWord ptl2 i)) (ptl2 + 8 * i) 8 := by
    apply load_congr
    intro x hx hx'
    have hword : (x - ptl2) / 8 = i := by omega
    have hbyte : (x - ptl2) % 8 = x - (ptl2 + 8 * i) := by omega
    rw [bootImage, store, if_neg (by omega), if_pos ⟨hx, hx'⟩, hword, hbyte]
  rw [hstore, load_store_same, Nat.mod_eq_of_lt (bootWord_lt hb)]

/-- `get_free_pages` on a region below 4 GB and behind the boot tables. -/
theorem Booted.donate {ptl2 mem n : Nat} {ps : List Nat} {g : Guest} (h : Booted ptl2 ps g)
    (hmem : mem % 4096 = 0) (hn : 0 < n) (hlow : ptl2 + 6 * 4096 ≤ mem)
    (hhigh : mem + 4096 * n ≤ 2 ^ 32) (hfresh : ∀ p ∈ ps, p < mem ∨ mem + 4096 * n ≤ p) :
    ∃ g', Booted ptl2 (regionPages mem n ++ ps) g' := by
  have hpage : ∀ i, i < n → pageFrom mem i = mem + 4096 * i := by
    intro i hi
    exact Nat.mod_eq_of_lt (by omega)
  rcases getFreePages_eq hmem (by omega) hn (by omega) h.free.freelist_lt with ⟨t, _, ht⟩
  have hfree : FreeList t (regionPages mem n ++ ps) := by
    refine ht.freeList h.free hmem (by omega) hn (by omega) ?_ ?_
    · intro i hi
      rw [hpage i hi]
      omega
    · intro i hi hin
      rw [hpage i hi] at hin
      rcases hfresh _ hin with hlt | hle <;> omega
  have hregion : ∀ p ∈ regionPages mem n, mem ≤ p ∧ p < mem + 4096 * n := by
    intro p hp
    rcases List.mem_map.1 hp with ⟨i, hi, rfl⟩
    rw [List.mem_range] at hi
    rw [hpage i hi]
    omega
  refine ⟨{ g with toHeap := t }, h.boot.frame fun x hx => ht.frame x fun j hj hin => ?_, h.cr3, hfree,
    ?_, ?_, h.vfreeTop, h.roots, h.loaded⟩
  · rw [hpage j hj] at hin
    unfold BootPage InRange at *
    omega
  · intro p hp
    rcases List.mem_append.1 hp with hp | hp
    · have hp' := hregion p hp
      omega
    · exact h.below p hp
  · rintro x ⟨p, hp, hx⟩
    rcases List.mem_append.1 hp with hp | hp
    · have hp' := hregion p hp
      unfold BootPage OnPage InRange at *
      omega
    · exact h.apart x ⟨p, hp, hx⟩

/-- A guest with the boot tables at `0x408000` and no free page. -/
def imageGuest : Guest where
  mem := bootImage 0x408000
  log := []
  freelist := 0
  vfreeTop := 0
  heapBase := 0
  heapEnd := 0
  firstMemInit := false
  startCr3 := 0
  cr3 := ptl4 0x408000
  vars := ⟨0, 0⟩
  roots := []
  loaded := []
  own := []

theorem booted_imageGuest : Booted 0x408000 [] imageGuest := by
  refine ⟨bootTables_bootImage rfl (by decide), rfl, ⟨rfl, List.nodup_nil, ?_, ?_⟩, ?_, ?_, rfl, rfl, rfl⟩
  · simp
  · simp
  · simp
  · simp [InPages]

/-- A guest with 4200 free pages from 16 MB on. -/
theorem exists_booted : ∃ g, Booted 0x408000 (regionPages 0x1000000 4200) g := by
  have hdonate := booted_imageGuest.donate (show 0x1000000 % 4096 = 0 by rfl)
    (show 0 < 4200 by decide) (by decide) (by decide) (by simp)
  rwa [List.append_nil] at hdonate

/-- The same with the frame of IORAM in front. -/
theorem exists_booted_ioram :
    ∃ g, Booted 0x408000 (0xff000000 :: regionPages 0x1000000 4200) g := by
  rcases exists_booted with ⟨g, h⟩
  have hfresh : ∀ p ∈ regionPages 0x1000000 4200, p < 0xff000000 ∨ 0xff000000 + 4096 * 1 ≤ p := by
    intro p hp
    rcases List.mem_map.1 hp with ⟨i, hi, rfl⟩
    rw [List.mem_range] at hi
    unfold pageFrom
    omega
  have hdonate := h.donate rfl (show 0 < 1 by decide) (by decide) (by decide) hfresh
  rwa [show regionPages 0xff000000 1 = [0xff000000] by decide, List.singleton_append] at hdonate

/-! ## The frame of IORAM -/

theorem mapM_eq_some_map {α β : Type*} {f : α → Option β} {h : α → β} {xs : List α}
    (hf : ∀ x ∈ xs, f x = some (h x)) : xs.mapM f = some (xs.map h) := by
  induction xs with
  | nil => rfl
  | cons x xs ih =>
    rw [List.mapM_cons, hf x List.mem_cons_self,
      ih fun y hy => hf y (List.mem_cons_of_mem x hy)]
    rfl

section Ioram

variable {ps : List Nat} {Keep : Nat → Prop} {g₀ g g' : Guest} {T : Nat → RadixTree Nat} {used : Nat}

theorem exec_vfreeTop {op : Op} (hop : op ≠ .mapIoram) (h : exec g op = some g') :
    g'.vfreeTop = g.vfreeTop := by
  rcases exec_cases h with ⟨_, _, _, hsetup, rfl⟩ | ⟨hio, _⟩ | ⟨_, _, hvfree⟩
  · rw [setupMmu, Option.bind_eq_bind, Option.bind_eq_some_iff] at hsetup
    obtain ⟨_, _, hk⟩ := hsetup
    cases hk
    rfl
  · exact absurd hio hop
  · exact hvfree

/-- The first bytes of the last but one page of the address space. -/
theorem lastPages_add {v i : Nat} (hv : 2 ^ 64 - 8192 = v) (hi : i < 10) :
    (v + i) % 2 ^ 64 = v + i ∧ Canonical (v + i) ∧ vpn (v + i) = vpn v ∧ (v + i) % 4096 = i := by
  unfold Canonical vpn
  omega

/-- The first call of `alloc_vpages(2)` gives the last two pages of the
address space, and both are mapped to the frame of IORAM. -/
theorem Space.descriptorBytes_ioram (h : Space ps Keep g₀ T used .fresh g)
    (hset : Setting ps Keep g₀) (hroom : used + 3 ≤ ps.length) (hvfree : g.vfreeTop = 0) :
    (mapIoram g).descriptorBytes (2 ^ 64 - 8192)
      = some ((List.range 10).map (IORAM_BASE_PHYS + ·)) := by
  have heq : mapIoram g = ioramAt g (2 ^ 64 - 8192 * (0 + 1)) := mapIoram_eq (by decide) hvfree
  rw [heq, show 2 ^ 64 - 8192 * (0 + 1) = 2 ^ 64 - 8192 by rfl]
  generalize hv : 2 ^ 64 - 8192 = v
  have hvtop : v = (2 ^ 64 - 8192 * 1) % 2 ^ 64 := by omega
  rcases grows_ioramAt h hset hroom (by omega) (by omega) (by omega) ⟨1, by omega, hvtop⟩
    with ⟨T', hgrow, hioram⟩
  refine mapM_eq_some_map fun i hi => ?_
  rw [List.mem_range] at hi
  obtain ⟨hlt, hcanonical, hvpn⟩ := lastPages_add hv hi
  have hwalk : walk (ioramAt g v).mem (ioramAt g v).cr3 (v + i)
      = some ⟨IORAM_BASE_PHYS + i, true, true⟩ := by
    rw [show (ioramAt g v).cr3 = g.cr3 from rfl, hgrow.tables.table.walk_eq, hvpn.1, hioram, hvpn.2]
    rfl
  rw [hlt, Guest.translate, if_pos hcanonical, hwalk]
  rfl

/-- The beginning of `sgdt`, `sidt` and `lgdt`, when no other benchmark has
called `alloc_vpages` before. -/
theorem Space.setupMmu_ioram (h : Space ps Keep g₀ T used .idle g) (hset : Setting ps Keep g₀)
    (hroom : used + 2057 ≤ ps.length) (hvfree : g.vfreeTop = 0) :
    ∃ r g', ps[used]? = some r ∧ exec g (.setupMmu (1 <<< 32)) = some g' ∧
      g'.roots = g.roots ++ [r] ∧
      (mapIoram g').descriptorBytes (2 ^ 64 - 8192)
        = some ((List.range 10).map (IORAM_BASE_PHYS + ·)) := by
  have hpages : (Op.setupMmu (1 <<< 32)).pages = 2054 := rfl
  rcases grows_setupMmu h hset (Or.inl rfl) (by omega)
    with ⟨r, T', g', hr, hexec, hroots, _, hgrow, hphase⟩
  have hne : Op.setupMmu (1 <<< 32) ≠ .mapIoram := Op.noConfusion
  have hvfree' : g'.vfreeTop = 0 := (exec_vfreeTop hne hexec).trans hvfree
  exact ⟨r, g', hr, hexec, hroots,
    (h.grow hset hgrow hphase).descriptorBytes_ioram hset (by omega) hvfree'⟩

end Ioram

/-! ## Every list of benchmarks -/

/-- What the descriptor instructions find in the register when it holds the
variable `mem`, as the source means it. -/
def ioramDescriptor : Descriptor := ⟨2 ^ 64 - 8192, Vector.replicate 10 0⟩

def ioramJob (b : Bench) : Job := ⟨b, fun _ => ioramDescriptor⟩

theorem ioramJob_lgdt_ops : jobOps [ioramJob .lgdt]
    = .setupMmu (1 <<< 32) :: .mapIoram :: .storeDescriptor ioramDescriptor ::
      (List.replicate LGDT .loadDescriptor ++ [.switchToStartCr3]) := by
  simp only [jobOps, List.flatMap_singleton, Job.ops, ioramJob, Bench.script, Script.ops, lgdt,
    List.append_nil, List.cons_append, List.nil_append]

theorem isTable_root {m : Mem} {r : Nat} (ha : r % 4096 = 0) (hb : r < 2 ^ 52) : IsTable m r r := by
  refine ⟨0, ?_⟩
  rw [root_and_PT_ADDR_MASK ha hb, PAGE_LEVEL_eq, walkTables]
  split
  · exact List.mem_singleton_self r
  · exact List.mem_cons_self

theorem mem_roots_of_execAll {ops : List Op} {g g' : Guest} (h : execAll g ops = some g') {r : Nat}
    (hr : r ∈ g.roots) : r ∈ g'.roots := by
  induction ops generalizing g with
  | nil =>
    obtain rfl : g = g' := Option.some.inj h
    exact hr
  | cons op ops ih =>
    rcases exists_of_execAll_cons h with ⟨g₁, hexec, h⟩
    refine ih h ?_
    rcases exec_roots hexec with heq | ⟨q, heq⟩
    · rwa [heq]
    · rw [heq]
      exact List.mem_append_left _ hr

theorem execAll_vfreeTop {ops : List Op} {g g' : Guest} (hops : ∀ op ∈ ops, op ≠ .mapIoram)
    (h : execAll g ops = some g') : g'.vfreeTop = g.vfreeTop := by
  induction ops generalizing g with
  | nil =>
    obtain rfl : g = g' := Option.some.inj h
    rfl
  | cons op ops ih =>
    rcases exists_of_execAll_cons h with ⟨g₁, hexec, h⟩
    rw [ih (fun op' hop' => hops op' (List.mem_cons_of_mem op hop')) h,
      exec_vfreeTop (hops op List.mem_cons_self) hexec]

theorem ioramJob_setCr3_ops : (ioramJob .setCr3).ops
    = .setupMmu (1 <<< 32) :: .saveCr3 ::
      (List.replicate SET_CR3 .loadCr3 ++ [.switchToStartCr3]) := by
  simp only [Job.ops, ioramJob, Bench.script, Script.ops, setCr3,
    List.append_nil, List.cons_append, List.nil_append]

theorem ioramJob_setCr3_mem {op : Op} (hop : op ∈ (ioramJob .setCr3).ops) :
    op ≠ .mapIoram ∧ ∀ Keep g, op.Misses Keep g := by
  rw [ioramJob_setCr3_ops] at hop
  simp only [List.mem_cons, List.mem_append, List.not_mem_nil, or_false] at hop
  rcases hop with rfl | rfl | hop | rfl
  · exact ⟨Op.noConfusion, fun _ _ => trivial⟩
  · exact ⟨Op.noConfusion, fun _ _ => trivial⟩
  · rw [List.eq_of_mem_replicate hop]
    exact ⟨Op.noConfusion, fun _ _ => trivial⟩
  · exact ⟨Op.noConfusion, fun _ _ => trivial⟩

theorem storeScript_ops (n : Nat) (d : Nat → Descriptor) :
    ∃ after, (storeScript (n + 1) d).ops
      = [.setupMmu (1 <<< 32), .mapIoram] ++ .storeDescriptor (d 0) :: after := by
  refine ⟨(List.range n).map (fun i => .storeDescriptor (d (i + 1))) ++ [.switchToStartCr3], ?_⟩
  simp only [Script.ops, storeScript, List.range_succ_eq_map, List.map_cons, List.map_map,
    List.append_nil, List.cons_append, List.nil_append]
  rfl

/-- With the frame of IORAM at the head of the free list the first root is
there, and `sgdt` behind it stores into the table. -/
theorem not_addressSpace_of_ioram {ptl2 : Nat} {ps : List Nat} {g₀ : Guest}
    (h : Booted ptl2 (IORAM_BASE_PHYS :: ps) g₀) (hroom : 4111 ≤ ps.length + 1) :
    ¬ AddressSpace ptl2 g₀ [ioramJob .setCr3, ioramJob .sgdt] := by
  intro hspace
  have hset := h.setting
  have hstart := space_init hset
  have hlen : (IORAM_BASE_PHYS :: ps).length = ps.length + 1 := List.length_cons
  -- the root of `set-cr3` is the first page
  have hpages : pagesFor (ioramJob .setCr3).ops = 2054 := pagesFor_job _
  rcases hstart.run hset (job_next (ioramJob .setCr3)) (by omega)
    (allMiss_of_forall fun op hop => (ioramJob_setCr3_mem hop).2 _) with ⟨T₁, g₁, hrun, h₁⟩
  have hroot : IORAM_BASE_PHYS ∈ g₁.roots := by
    rcases hstart.setupMmu_ioram hset (by omega) h.vfreeTop with ⟨r, g, hr, hexec, hroots, _⟩
    have hrest := hrun
    rw [ioramJob_setCr3_ops, execAll_cons hexec] at hrest
    refine mem_roots_of_execAll hrest ?_
    rw [hroots, Option.some.inj hr]
    exact List.mem_append_right _ (List.mem_singleton_self r)
  have hvfree : g₁.vfreeTop = 0 :=
    (execAll_vfreeTop (fun op hop => (ioramJob_setCr3_mem hop).1) hrun).trans h.vfreeTop
  -- `sgdt` has another root and stores to the frame of IORAM
  rcases h₁.setupMmu_ioram hset (by omega) hvfree with ⟨r, g₂, _, hexec, hroots, hbytes⟩
  rcases storeScript_ops 99999 (fun _ => ioramDescriptor) with ⟨after, hops⟩
  have hjobs : jobOps [ioramJob .setCr3, ioramJob .sgdt]
      = ((ioramJob .setCr3).ops ++ [.setupMmu (1 <<< 32), .mapIoram]) ++
        .storeDescriptor ioramDescriptor :: after := by
    rw [jobOps, List.flatMap_cons, List.flatMap_singleton, List.append_assoc, ← hops]
    rfl
  have hbefore : execAll g₀ ((ioramJob .setCr3).ops ++ [.setupMmu (1 <<< 32), .mapIoram])
      = some (mapIoram g₂) := by
    rw [execAll_append hrun, execAll_cons hexec]
    rfl
  have hstore : exec (mapIoram g₂) (.storeDescriptor ioramDescriptor) = some { mapIoram g₂ with
      mem := storeBytes (mapIoram g₂).mem ((List.range 10).map (IORAM_BASE_PHYS + ·))
        ioramDescriptor.value.toList
      vars := { (mapIoram g₂).vars with mem := ioramDescriptor.reg }
      own := (mapIoram g₂).own ++ ((List.range 10).map (IORAM_BASE_PHYS + ·)).map (.store · 1) } := by
    rw [exec, show ioramDescriptor.reg = 2 ^ 64 - 8192 from rfl, hbytes]
    rfl
  have hroots' : (mapIoram g₂).roots.dropLast = g₁.roots := by
    rw [mapIoram_eq_ioramAt, ioramAt_roots, hroots, List.dropLast_concat]
  have hkept := hspace.kept _ _ _ _ _ hjobs hbefore hstore IORAM_BASE_PHYS
    ⟨IORAM_BASE_PHYS, 1, Or.inr ?_, Nat.le_refl _, Nat.lt_succ_self _⟩
  · exact hkept.2 IORAM_BASE_PHYS (hroots' ▸ hroot) IORAM_BASE_PHYS
      (isTable_root (by decide) (by decide)) ⟨Nat.le_refl _, by decide⟩
  · rw [List.drop_left]
    exact List.mem_cons_self

end HyperBench
