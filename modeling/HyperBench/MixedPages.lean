import HyperBench.MixedTable

/-!
# Large and small pages under one root

Sequences of `install_page` and `install_large_page` calls on one root, in any
order and with overlapping ranges.

* `CallSafe` is the law for one call: it stores into its tables only, into no
  frame of a call before it, and its address translates as asked.
* `MixedRun` is the invariant of a sequence without a small page after a large
  one of the same 2 MB.  `MixedRun.step` keeps it, and `MixedRun.callSafe` has
  the law from it.
* `MixedRun.not_callSafe` is the first small page after a large one.
* `mixed_sizes_safe_iff` puts them together.
-/

namespace HyperBench

open ByteMem Loop Radix

variable {s : Heap} {root : Nat} {L : Nat → Option Nat} {T : RadixTree Nat} {ps : List Nat}

/-! ## Sequences of calls -/

/-- The two kinds of pages. -/
inductive PageSize where
  | small
  | large
  deriving DecidableEq, Repr

def PageSize.bytes : PageSize → Nat
  | small => PAGE_SIZE
  | large => LARGE_PAGE_SIZE

/-- The arguments of one call of `install_page` or `install_large_page`. -/
structure InstallCall where
  size : PageSize
  phys : Nat
  virt : Nat
  phys_aligned : phys % size.bytes = 0
  phys_lt : phys < 2 ^ 52
  virt_aligned : virt % size.bytes = 0
  virt_canonical : Canonical virt

namespace InstallCall

/-- The 2 MB of the address space in which the page lies. -/
def region (c : InstallCall) : Nat := c.virt / LARGE_PAGE_SIZE

/-- The addresses of the frame. -/
def InFrame (c : InstallCall) (x : Nat) : Prop := InRange c.phys c.size.bytes x

/-- The frame has nothing in common with the given pages. -/
def Apart (c : InstallCall) (ps : List Nat) : Prop := ∀ x, c.InFrame x → ¬ Pages ps x

theorem region_eq_iff (c d : InstallCall) :
    c.region = d.region ↔ vpn c.virt / 512 = vpn d.virt / 512 := by
  have hc := c.virt_canonical
  have hd := d.virt_canonical
  unfold Canonical at hc hd
  unfold region vpn
  rw [LARGE_PAGE_SIZE_eq]
  omega

end InstallCall

def installCall (s : Heap) (cr3 : Nat) (c : InstallCall) : Heap :=
  match c.size with
  | .small => (installPage s cr3 c.phys c.virt).2
  | .large => (installLargePage s cr3 c.phys c.virt).2

theorem installCall_of_small {c : InstallCall} (h : c.size = .small) (s : Heap) (cr3 : Nat) :
    installCall s cr3 c = (installPage s cr3 c.phys c.virt).2 := by
  rw [installCall, h]

/-- The calls in the order of the list. -/
def installMixed (s : Heap) (cr3 : Nat) (calls : List InstallCall) : Heap :=
  calls.foldl (fun s c => installCall s cr3 c) s

theorem installMixed_append (s : Heap) (cr3 : Nat) (calls : List InstallCall) (c : InstallCall) :
    installMixed s cr3 (calls ++ [c]) = installCall (installMixed s cr3 calls) cr3 c := by
  simp [installMixed]

theorem installCall_anywhere (s : Heap) (cr3 : Nat) (c : InstallCall) :
    Touches Anywhere s (installCall s cr3 c) := by
  unfold installCall
  split
  · exact installPte_anywhere _ _ _ _ _ _
  · exact installPte_anywhere _ _ _ _ _ _

theorem installMixed_anywhere (s : Heap) (cr3 : Nat) (calls more : List InstallCall) :
    Touches Anywhere (installMixed s cr3 calls) (installMixed s cr3 (calls ++ more)) := by
  rw [installMixed, installMixed, List.foldl_append]
  exact Touches.foldl (fun s c => installCall_anywhere s cr3 c) _ more

/-! ## The law and its condition -/

/-- Between the two heaps all stores went to `A`. -/
def StoresIn (A : Nat → Prop) (s t : Heap) : Prop :=
  ∃ es, t.log = s.log ++ es ∧ ∀ a n, Event.store a n ∈ es → ∀ x, InRange a n x → A x

/-- The call from `s` to `t` stores into the tables only, into no data frame
of a call before it, and its address translates as asked. -/
structure CallSafe (root : Nat) (ps : List Nat) (before : List InstallCall) (c : InstallCall)
    (s t : Heap) : Prop where
  tables : ∃ taken rest, ps = taken ++ rest ∧ FreeList t rest ∧
    StoresIn (Pages (root :: taken)) s t
  frames : ∀ d ∈ before, d.Apart (root :: ps) → StoresIn (fun x => ¬ d.InFrame x) s t
  walk : walk t.mem root c.virt = some ⟨c.phys, true, true⟩

/-- Every call of the sequence is safe. -/
def CallsSafe (s : Heap) (root : Nat) (ps : List Nat) (calls : List InstallCall) : Prop :=
  ∀ before c after, calls = before ++ c :: after →
    CallSafe root ps before c (installMixed s root before) (installMixed s root (before ++ [c]))

/-- No small page comes after a large page of the same 2 MB. -/
def NoSmallAfterLarge (calls : List InstallCall) : Prop :=
  calls.Pairwise fun d c => d.size = .large → c.size = .small → d.region ≠ c.region

theorem Touches.storesIn {A B : Nat → Prop} {s t : Heap} (h : Touches A s t)
    (hAB : ∀ x, A x → B x) : StoresIn B s t := by
  obtain ⟨es, hlog, hes⟩ := h.log
  exact ⟨es, hlog, fun a n hmem x hx => hAB x (hes _ hmem x hx.1 hx.2)⟩

/-! ## Runs -/

/-- The large pages behind a call. -/
def largeAfter (L : Nat → Option Nat) (c : InstallCall) : Nat → Option Nat :=
  match c.size with
  | .small => L
  | .large => Function.update L (vpn c.virt / 512) (some c.phys)

theorem largeAfter_eq_some {L : Nat → Option Nat} {c : InstallCall} {k f : Nat}
    (h : largeAfter L c k = some f) :
    L k = some f ∨ c.size = .large ∧ vpn c.virt / 512 = k ∧ c.phys = f := by
  unfold largeAfter at h
  cases hsize : c.size with
  | small =>
    rw [hsize] at h
    exact Or.inl h
  | large =>
    rw [hsize] at h
    change Function.update L (vpn c.virt / 512) (some c.phys) k = some f at h
    by_cases hk : k = vpn c.virt / 512
    · rw [hk, Function.update_self, Option.some.injEq] at h
      exact Or.inr ⟨rfl, hk.symm, h⟩
    · rw [Function.update_of_ne hk] at h
      exact Or.inl h

/-- A large page stays one, and the call of one makes one. -/
theorem largeAfter_ne_none {L : Nat → Option Nat} {c : InstallCall} {k : Nat}
    (h : L k ≠ none ∨ c.size = .large ∧ vpn c.virt / 512 = k) : largeAfter L c k ≠ none := by
  unfold largeAfter
  cases hsize : c.size with
  | small => exact h.resolve_right fun hc => by rw [hsize] at hc; cases hc.1
  | large =>
    show Function.update L (vpn c.virt / 512) (some c.phys) k ≠ none
    by_cases hk : k = vpn c.virt / 512
    · rw [hk, Function.update_self]
      exact Option.some_ne_none _
    · rw [Function.update_of_ne hk]
      exact h.resolve_right fun hc => hk hc.2.symm

/-- One call, if it is not a small page at the place of a large one. -/
theorem installCall_mixed (h : Mixed s root L T ps) {c : InstallCall}
    (hsmall : c.size = .small → L (vpn c.virt / 512) = none) :
    Exhausted (installCall s root c) ∨
      ∃ T' ps', InstalledAt s T ps root c.virt c.phys (largeAfter L c) T' ps'
        (installCall s root c) := by
  have hphys := c.phys_aligned
  have hvirt := c.virt_aligned
  unfold installCall largeAfter
  cases hsize : c.size with
  | small =>
    rw [hsize] at hphys hvirt
    have hsim := installPage_mixed h (hsmall hsize) hphys c.phys_lt hvirt
    cases hpath : path 512 4 (vpn c.virt) 3 (T, ps) with
    | none => exact Or.inl (by rw [hpath] at hsim; exact hsim)
    | some st => exact Or.inr ⟨st.1, st.2, by rw [hpath] at hsim; exact hsim⟩
  | large =>
    rw [hsize] at hphys hvirt
    have hsim := installLargePage_mixed h hphys c.phys_lt hvirt
    cases hpath : path 512 4 (vpn c.virt) 2 (T, ps) with
    | none => exact Or.inl (by rw [hpath] at hsim; exact hsim)
    | some st => exact Or.inr ⟨st.1, st.2, by rw [hpath] at hsim; exact hsim⟩

/-- The tables behind the calls: their pages are the root and pages that were
free, and the large pages are those of the calls. -/
structure MixedRun (root : Nat) (ps : List Nat) (calls : List InstallCall) (L : Nat → Option Nat)
    (T : RadixTree Nat) (rest : List Nat) (t : Heap) : Prop where
  mixed : Mixed t root L T rest
  supply : ∃ taken, ps = taken ++ rest ∧ ∀ p, T.IsNode p → p ∈ root :: taken
  large : ∀ k f, L k = some f →
    ∃ d ∈ calls, d.size = .large ∧ vpn d.virt / 512 = k ∧ d.phys = f
  covered : ∀ d ∈ calls, d.size = .large → L (vpn d.virt / 512) ≠ none

theorem mixedRun_root (hfree : FreeList s (root :: ps)) (hbound : ∀ p ∈ root :: ps, p < 2 ^ 52) :
    MixedRun root ps [] (fun _ => none) (RadixTree.empty.set 4 0 root) ps (heapAllocPage s).2 := by
  have htables := tables_root hfree hbound
  have hslots := htables.table.slots
  refine ⟨⟨⟨htables.table.root_eq, ⟨?_, hslots.page, hslots.inj⟩, ?_, ?_, ?_⟩, htables.free,
    htables.bound, htables.fresh⟩, ⟨[], rfl, ?_⟩, ?_, ?_⟩
  · intro level k p _ hlevel hp i hi
    rw [mixedEntry_of_none fun _ => rfl]
    exact htables.table.entry level k p hlevel hp i hi
  · exact fun level k _ => htables.table.parent level k
  · exact fun k f h => by cases h
  · exact fun k h => absurd rfl h
  · intro p hp
    rcases hp.of_set with hp | rfl
    · exact absurd hp (RadixTree.not_isNode_empty p)
    · exact List.mem_cons_self
  · exact fun k f h => by cases h
  · exact fun d hd => absurd hd List.not_mem_nil

namespace MixedRun

variable {calls : List InstallCall} {rest : List Nat} {t : Heap} {c : InstallCall}
  {T' : RadixTree Nat} {rest' : List Nat}

/-- The pages behind one more call. -/
theorem supply_step (h : MixedRun root ps calls L T rest t) (hext : Extends (T, rest) (T', rest')) :
    ∃ taken, ps = taken ++ rest' ∧ ∀ p, T'.IsNode p → p ∈ root :: taken := by
  obtain ⟨taken, hps, hnode⟩ := h.supply
  obtain ⟨more, hrest, hmore⟩ := hext.supply
  refine ⟨taken ++ more, ?_, fun p hp => ?_⟩
  · rw [hps, List.append_assoc]
    exact congrArg (taken ++ ·) hrest
  · rw [← List.cons_append]
    rcases hmore p hp with hp | hp
    · exact List.mem_append_left more (hnode p hp)
    · exact List.mem_append_right _ hp

theorem step (h : MixedRun root ps calls L T rest t)
    (hc : InstalledAt t T rest root c.virt c.phys (largeAfter L c) T' rest' (installCall t root c)) :
    MixedRun root ps (calls ++ [c]) (largeAfter L c) T' rest' (installCall t root c) := by
  refine ⟨hc.mixed, h.supply_step hc.supply, ?_, ?_⟩
  · intro k f hk
    rcases largeAfter_eq_some hk with hk | hk
    · obtain ⟨d, hd, hd'⟩ := h.large k f hk
      exact ⟨d, List.mem_append_left [c] hd, hd'⟩
    · exact ⟨c, List.mem_append_right calls List.mem_cons_self, hk⟩
  · intro d hd hsize
    rcases List.mem_append.1 hd with hd | hd
    · exact largeAfter_ne_none (Or.inl (h.covered d hd hsize))
    · obtain rfl := List.mem_singleton.1 hd
      exact largeAfter_ne_none (Or.inr ⟨hsize, rfl⟩)

/-- A small page is in the 2 MB of a large one before it exactly when there is
a large page at its place. -/
theorem large_iff (h : MixedRun root ps calls L T rest t) :
    L (vpn c.virt / 512) ≠ none ↔ ∃ d ∈ calls, d.size = .large ∧ d.region = c.region := by
  constructor
  · intro hne
    obtain ⟨f, hf⟩ := Option.ne_none_iff_exists'.1 hne
    obtain ⟨d, hd, hsize, hregion, -⟩ := h.large _ f hf
    exact ⟨d, hd, hsize, (d.region_eq_iff c).2 hregion⟩
  · rintro ⟨d, hd, hsize, hregion⟩
    rw [← (d.region_eq_iff c).1 hregion]
    exact h.covered d hd hsize

/-- A call that keeps the invariant is safe. -/
theorem callSafe (h : MixedRun root ps calls L T rest t)
    (hc : InstalledAt t T rest root c.virt c.phys (largeAfter L c) T' rest' (installCall t root c)) :
    CallSafe root ps calls c t (installCall t root c) := by
  obtain ⟨taken, hps, hnode⟩ := h.supply_step hc.supply
  have htaken : ∀ x, OnTable T' x → Pages (root :: taken) x := by
    rintro x ⟨p, hp, hx⟩
    exact ⟨p, hnode p hp, hx⟩
  refine ⟨⟨taken, rest', hps, hc.mixed.free, hc.touches.storesIn htaken⟩, ?_, hc.walk⟩
  intro d _ hapart
  refine hc.touches.storesIn fun x hx hframe => hapart x hframe ?_
  obtain ⟨p, hp, hx⟩ := htaken x hx
  refine ⟨p, ?_, hx⟩
  rw [hps, ← List.cons_append]
  exact List.mem_append_left rest' hp

/-- A small page at the place of a large page whose frame is a data frame is
not safe. -/
theorem not_callSafe (h : MixedRun root ps calls L T rest t)
    (hnever : ¬ Exhausted (installCall t root c)) (hsmall : c.size = .small)
    (hlarge : L (vpn c.virt / 512) ≠ none)
    (hapart : ∀ d ∈ calls, d.size = .large → d.Apart (root :: ps)) :
    ¬ CallSafe root ps calls c t (installCall t root c) := by
  intro hsafe
  obtain ⟨f, hf⟩ := Option.ne_none_iff_exists'.1 hlarge
  obtain ⟨d, hd, hsize, -, rfl⟩ := h.large _ f hf
  rw [installCall_of_small hsmall] at hnever hsafe
  have hover := installPage_over_large h.mixed hf c.phys
  cases hpath : path 512 4 (vpn c.virt) 2 (T, rest) with
  | none =>
    rw [hpath] at hover
    exact hnever hover
  | some st =>
    rw [hpath] at hover
    obtain ⟨u, -, htouch, -, hstore⟩ := hover
    obtain ⟨es, hlog, -⟩ := htouch.log
    obtain ⟨taken, rest', hps, -, es', hlog', hin⟩ := hsafe.tables
    rw [hstore, Heap.writeWord, hlog, List.append_assoc] at hlog'
    have hes := List.append_cancel_left hlog'
    obtain ⟨p, hp, hx⟩ := hin (d.phys + 8 * PGDIR_OFFSET c.virt 1) 8 (by rw [← hes]; simp)
      (d.phys + 8 * PGDIR_OFFSET c.virt 1) ⟨Nat.le_refl _, Nat.lt_add_of_pos_right (by decide)⟩
    refine hapart d hd hsize _ ?_ ⟨p, ?_, hx⟩
    · have hlt := PGDIR_OFFSET_lt c.virt 1
      rw [InstallCall.InFrame, hsize]
      show InRange d.phys LARGE_PAGE_SIZE _
      rw [LARGE_PAGE_SIZE_eq]
      unfold InRange
      omega
    · rw [hps, ← List.cons_append]
      exact List.mem_append_left rest' hp

end MixedRun

/-- The condition on one more call. -/
theorem noSmallAfterLarge_append {calls : List InstallCall} {c : InstallCall} :
    NoSmallAfterLarge (calls ++ [c]) ↔ NoSmallAfterLarge calls ∧
      (c.size = .small → ¬ ∃ d ∈ calls, d.size = .large ∧ d.region = c.region) := by
  unfold NoSmallAfterLarge
  rw [List.pairwise_append]
  simp only [List.pairwise_cons, List.not_mem_nil, List.mem_singleton, forall_eq]
  grind

/-- The run over calls that keep the condition. -/
theorem mixedRun_of_noSmallAfterLarge (hfree : FreeList s (root :: ps))
    (hbound : ∀ p ∈ root :: ps, p < 2 ^ 52) {calls : List InstallCall}
    (hcond : NoSmallAfterLarge calls) :
    Exhausted (installMixed (heapAllocPage s).2 root calls) ∨
      ∃ L T rest, MixedRun root ps calls L T rest
        (installMixed (heapAllocPage s).2 root calls) := by
  induction calls using List.reverseRecOn with
  | nil => exact Or.inr ⟨_, _, _, mixedRun_root hfree hbound⟩
  | append_singleton calls c ih =>
    obtain ⟨hcalls, hlast⟩ := noSmallAfterLarge_append.1 hcond
    rw [installMixed_append]
    rcases ih hcalls with hex | ⟨L, T, rest, hrun⟩
    · exact Or.inl ((installCall_anywhere _ _ c).exhausted hex)
    · have hsmall : c.size = .small → L (vpn c.virt / 512) = none := by
        intro hsize
        by_contra hne
        exact hlast hsize (hrun.large_iff.1 hne)
      rcases installCall_mixed hrun.mixed hsmall with hex | ⟨T', rest', hc⟩
      · exact Or.inl hex
      · exact Or.inr ⟨_, _, _, hrun.step hc⟩

/-- A run that never ran out of pages had not run out after its first calls. -/
theorem not_exhausted_of_append {calls more : List InstallCall}
    (hnever : ¬ Exhausted (installMixed s root (calls ++ more))) :
    ¬ Exhausted (installMixed s root calls) := fun hex =>
  hnever ((installMixed_anywhere s root calls more).exhausted hex)

theorem callsSafe_of_noSmallAfterLarge (hfree : FreeList s (root :: ps))
    (hbound : ∀ p ∈ root :: ps, p < 2 ^ 52) {calls : List InstallCall}
    (hnever : ¬ Exhausted (installMixed (heapAllocPage s).2 root calls))
    (hcond : NoSmallAfterLarge calls) : CallsSafe (heapAllocPage s).2 root ps calls := by
  intro before c after heq
  rw [heq, List.append_cons] at hnever hcond
  obtain ⟨hbefore, hlast⟩ := noSmallAfterLarge_append.1 (List.pairwise_append.1 hcond).1
  have hnever' := not_exhausted_of_append hnever
  obtain ⟨L, T, rest, hrun⟩ := (mixedRun_of_noSmallAfterLarge hfree hbound hbefore).resolve_left
    (not_exhausted_of_append hnever')
  have hsmall : c.size = .small → L (vpn c.virt / 512) = none := by
    intro hsize
    by_contra hne
    exact hlast hsize (hrun.large_iff.1 hne)
  rw [installMixed_append] at hnever' ⊢
  obtain ⟨T', rest', hc⟩ := (installCall_mixed hrun.mixed hsmall).resolve_left hnever'
  exact hrun.callSafe hc

theorem noSmallAfterLarge_of_callsSafe (hfree : FreeList s (root :: ps))
    (hbound : ∀ p ∈ root :: ps, p < 2 ^ 52) {calls : List InstallCall}
    (hnever : ¬ Exhausted (installMixed (heapAllocPage s).2 root calls))
    (hapart : ∀ d ∈ calls, d.size = .large → d.Apart (root :: ps))
    (hsafe : CallsSafe (heapAllocPage s).2 root ps calls) : NoSmallAfterLarge calls := by
  -- the first small page after a large one is the call that is not safe
  induction calls using List.reverseRecOn with
  | nil => exact List.Pairwise.nil
  | append_singleton calls c ih =>
    have hapart' : ∀ d ∈ calls, d.size = .large → d.Apart (root :: ps) :=
      fun d hd => hapart d (List.mem_append_left [c] hd)
    have hcalls : NoSmallAfterLarge calls := by
      refine ih (not_exhausted_of_append hnever) hapart' fun before d after heq => ?_
      refine hsafe before d (after ++ [c]) ?_
      rw [heq, List.append_assoc, List.cons_append]
    refine noSmallAfterLarge_append.2 ⟨hcalls, fun hsize hlarge => ?_⟩
    obtain ⟨L, T, rest, hrun⟩ := (mixedRun_of_noSmallAfterLarge hfree hbound hcalls).resolve_left
      (not_exhausted_of_append hnever)
    have hlast := hsafe calls c [] rfl
    rw [installMixed_append] at hnever hlast
    exact hrun.not_callSafe hnever hsize (hrun.large_iff.2 hlarge) hapart' hlast

/-- A sequence of calls of both sizes on a root from `heap_alloc_page`: without
a small page after a large one of the same 2 MB every call stores into the
tables only and translates as asked.  If the frames of the large pages are
apart from the pages of the tables, this is the only case. -/
theorem mixed_sizes_safe_iff (hfree : FreeList s (root :: ps))
    (hbound : ∀ p ∈ root :: ps, p < 2 ^ 52) (calls : List InstallCall)
    (hnever : ¬ Exhausted (installMixed (heapAllocPage s).2 root calls)) :
    (heapAllocPage s).1 = root ∧
      (NoSmallAfterLarge calls → CallsSafe (heapAllocPage s).2 root ps calls) ∧
      ((∀ d ∈ calls, d.size = .large → d.Apart (root :: ps)) →
        (CallsSafe (heapAllocPage s).2 root ps calls ↔ NoSmallAfterLarge calls)) := by
  refine ⟨(heapAllocPage_cons hfree).1, callsSafe_of_noSmallAfterLarge hfree hbound hnever, ?_⟩
  intro hapart
  exact ⟨noSmallAfterLarge_of_callsSafe hfree hbound hnever hapart,
    callsSafe_of_noSmallAfterLarge hfree hbound hnever⟩

/-! ## A small page after a large one -/

/-- The first 2 MB of the address space, at the second 2 MB of the memory. -/
def firstLarge : InstallCall := ⟨.large, 0x200000, 0, rfl, by decide, rfl, by decide⟩

/-- A page in the same 2 MB. -/
def thenSmall : InstallCall := ⟨.small, 0x9000, 0x1000, rfl, by decide, rfl, by decide⟩

theorem firstLarge_apart : firstLarge.Apart [4096, 8192, 12288] := by
  have hlow : ∀ p ∈ [4096, 8192, 12288], p + 4096 ≤ 0x200000 := by decide
  rintro x hx ⟨p, hp, hpx⟩
  exact absurd (Nat.lt_of_lt_of_le hpx.2 (hlow p hp)) (Nat.not_lt.2 hx.1)

/-- The run on three free pages. -/
theorem large_then_small :
    ∃ s, FreeList s [4096, 8192, 12288] ∧
      ¬ Exhausted (installMixed (heapAllocPage s).2 4096 [firstLarge, thenSmall]) ∧
      (∃ es, (installMixed (heapAllocPage s).2 4096 [firstLarge, thenSmall]).log
          = (installMixed (heapAllocPage s).2 4096 [firstLarge]).log ++ es ∧
        Event.store 0x200008 8 ∈ es) ∧
      walk (installMixed (heapAllocPage s).2 4096 [firstLarge, thenSmall]).mem 4096 0x1000
        = some ⟨0x201000, true, true⟩ := by
  obtain ⟨s, hquiet, hfree⟩ := exists_freeList (n := 3) (by decide) (by decide)
  rw [show regionPages 4096 3 = [4096, 8192, 12288] by decide] at hfree
  have hroot := mixedRun_root hfree (by decide)
  -- the large page takes two tables
  have hpath : path 512 4 (vpn firstLarge.virt) 2 (RadixTree.empty.set 4 0 4096, [8192, 12288])
      = some (((RadixTree.empty.set 4 0 4096).set 3 0 8192).set 2 0 12288, []) := rfl
  have hbig := installLargePage_mixed hroot.mixed firstLarge.phys_aligned firstLarge.phys_lt
    firstLarge.virt_aligned
  rw [hpath] at hbig
  have hrun := hroot.step (c := firstLarge) hbig
  -- the small page takes none
  have hpath' : path 512 4 (vpn thenSmall.virt) 2
      (((RadixTree.empty.set 4 0 4096).set 3 0 8192).set 2 0 12288, [])
      = some (((RadixTree.empty.set 4 0 4096).set 3 0 8192).set 2 0 12288, []) := rfl
  have hL : largeAfter (fun _ => none) firstLarge (vpn thenSmall.virt / 512) = some 0x200000 := rfl
  have hover := installPage_over_large hrun.mixed hL thenSmall.phys
  rw [hpath'] at hover
  obtain ⟨u, hmixed, htouch, hquiet', hstore⟩ := hover
  have hall : installMixed (heapAllocPage s).2 4096 [firstLarge, thenSmall]
      = u.writeWord 0x200008 (entryOf (some thenSmall.phys)) := by
    rw [show [firstLarge, thenSmall] = [firstLarge] ++ [thenSmall] from rfl, installMixed_append,
      installCall_of_small rfl]
    exact hstore
  obtain ⟨es, hlog, -⟩ := htouch.log
  obtain ⟨taken, htaken, hnode⟩ := hrun.supply
  rw [List.append_nil] at htaken
  have hapart : ∀ x, OnPage 0x200000 x →
      ¬ OnTable (((RadixTree.empty.set 4 0 4096).set 3 0 8192).set 2 0 12288) x := by
    rintro x hx ⟨p, hp, hpx⟩
    refine firstLarge_apart x ⟨hx.1, Nat.lt_trans hx.2 (by decide)⟩ ⟨p, ?_, hpx⟩
    rw [htaken]
    exact hnode p hp
  refine ⟨s, hfree, ?_, ⟨es ++ [.store 0x200008 8], ?_, by simp⟩, ?_⟩
  · rw [hall, exhausted_writeWord]
    exact fun hex => hquiet ((exhausted_heapAllocPage hfree.freelist_ne_zero).1
      (hbig.quiet (hquiet' hex)))
  · rw [hall, Heap.writeWord, hlog, List.append_assoc]
    rfl
  · have hwalk : walk (u.writeWord (0x200000 + 8 * 1) (entryOf (some thenSmall.phys))).mem 4096
        thenSmall.virt = some ⟨0x200000 + thenSmall.virt % LARGE_PAGE_SIZE, true, true⟩ :=
      walk_over_large hmixed hL (by decide) hapart
    rw [show 0x200000 + thenSmall.virt % LARGE_PAGE_SIZE = 0x201000 by decide] at hwalk
    rw [hall]
    exact hwalk

/-- The small page is stored into the frame of the large one, and its address
translates into that frame. -/
theorem small_after_large_strays :
    ∃ s, FreeList s [4096, 8192, 12288] ∧
      ¬ Exhausted (installMixed (heapAllocPage s).2 4096 [firstLarge, thenSmall]) ∧
      (∃ es, (installMixed (heapAllocPage s).2 4096 [firstLarge, thenSmall]).log
          = (installMixed (heapAllocPage s).2 4096 [firstLarge]).log ++ es ∧
        Event.store 0x200008 8 ∈ es ∧ firstLarge.InFrame 0x200008) ∧
      firstLarge.Apart [4096, 8192, 12288] ∧
      walk (installMixed (heapAllocPage s).2 4096 [firstLarge, thenSmall]).mem 4096 thenSmall.virt
        ≠ some ⟨thenSmall.phys, true, true⟩ ∧
      ¬ CallsSafe (heapAllocPage s).2 4096 [8192, 12288] [firstLarge, thenSmall] := by
  obtain ⟨s, hfree, hnever, ⟨es, hlog, hstore⟩, hwalk⟩ := large_then_small
  have hne : walk (installMixed (heapAllocPage s).2 4096 [firstLarge, thenSmall]).mem 4096
      thenSmall.virt ≠ some ⟨thenSmall.phys, true, true⟩ := by
    intro heq
    have hphys := hwalk.symm.trans heq
    exact absurd hphys (by decide)
  refine ⟨s, hfree, hnever, ⟨es, hlog, hstore, ?_⟩, firstLarge_apart, hne, fun hsafe => ?_⟩
  · exact ⟨by decide, by decide⟩
  · exact hne (hsafe [firstLarge] thenSmall [] rfl).walk

/-- The law on these two calls. -/
theorem mixed_sizes_safe_iff_two :
    ∃ s, FreeList s [4096, 8192, 12288] ∧
      (CallsSafe (heapAllocPage s).2 4096 [8192, 12288] [firstLarge, thenSmall]
        ↔ NoSmallAfterLarge [firstLarge, thenSmall]) := by
  obtain ⟨s, hfree, hnever, -, -⟩ := large_then_small
  refine ⟨s, hfree, (mixed_sizes_safe_iff hfree (by decide) _ hnever).2.2 fun d hd hsize => ?_⟩
  rcases List.mem_cons.1 hd with rfl | hd
  · exact firstLarge_apart
  · rw [List.mem_singleton.1 hd] at hsize
    cases hsize

end HyperBench
