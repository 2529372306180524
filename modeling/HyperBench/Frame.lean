import HyperBench.Heap

/-!
# What the functions of `heap.c` touch

`Touches A s t` says that the step from `s` to `t` reads and writes at
addresses in `A` only: memory outside `A` is unchanged, and the log of `t`
is the log of `s` with accesses inside `A` behind it.  It composes
(`Touches.trans`), so the footprint of a function is the union of the
footprints of its parts.

`memset_mem` and `fastZeroPage_mem` give the memory behind the two clearing
loops in closed form.

`Exhausted` is the run in which `heap_alloc_page` has found no page.  It
never goes away again (`Touches.exhausted`), so the proofs carry it as a
disjunct of their invariant and exclude it once, at the end of the run.
-/

namespace HyperBench

open ByteMem Loop

/-! ## Footprints -/

/-- The accesses of the event lie in `A`. -/
def Event.Within (A : Nat → Prop) : Event → Prop
  | .load a n => ∀ x, a ≤ x → x < a + n → A x
  | .store a n => ∀ x, a ≤ x → x < a + n → A x
  | .print _ => True

theorem Event.Within.mono {A B : Nat → Prop} {e : Event} (h : e.Within A)
    (hAB : ∀ x, A x → B x) : e.Within B := by
  cases e with
  | load a n => exact fun x hx hx' => hAB x (h x hx hx')
  | store a n => exact fun x hx hx' => hAB x (h x hx hx')
  | print text => trivial

/-- The step from `s` to `t` reads and writes in `A` only. -/
structure Touches (A : Nat → Prop) (s t : Heap) : Prop where
  frame : ∀ x, ¬ A x → t.mem x = s.mem x
  log : ∃ es, t.log = s.log ++ es ∧ ∀ e ∈ es, e.Within A

namespace Touches

variable {A B : Nat → Prop} {s t u : Heap}

theorem refl (A : Nat → Prop) (s : Heap) : Touches A s s :=
  ⟨fun _ _ => rfl, [], by simp, by simp⟩

theorem mono (h : Touches A s t) (hAB : ∀ x, A x → B x) : Touches B s t := by
  obtain ⟨es, hlog, hes⟩ := h.log
  exact ⟨fun x hx => h.frame x fun hA => hx (hAB x hA), es, hlog,
    fun e he => (hes e he).mono hAB⟩

theorem trans (h : Touches A s t) (h' : Touches A t u) : Touches A s u := by
  obtain ⟨es, hlog, hes⟩ := h.log
  obtain ⟨es', hlog', hes'⟩ := h'.log
  refine ⟨fun x hx => (h'.frame x hx).trans (h.frame x hx), es ++ es', ?_, ?_⟩
  · rw [hlog', hlog, List.append_assoc]
  · intro e he
    rcases List.mem_append.1 he with he | he
    · exact hes e he
    · exact hes' e he

/-- A run of steps that each touch `A` only. -/
theorem foldl {α : Type} {f : Heap → α → Heap} (h : ∀ s a, Touches A s (f s a)) (s : Heap)
    (l : List α) : Touches A s (l.foldl f s) := by
  induction l generalizing s with
  | nil => exact refl A s
  | cons a l ih => exact (h s a).trans (ih (f s a))

/-- The list head plays no part in a footprint. -/
theorem of_eq (h : Touches A s t) (hmem : u.mem = t.mem) (hlog : u.log = t.log) :
    Touches A s u := by
  refine ⟨fun x hx => ?_, ?_⟩
  · rw [hmem]
    exact h.frame x hx
  · rw [hlog]
    exact h.log

end Touches

/-- The addresses of a range. -/
def InRange (a n x : Nat) : Prop := a ≤ x ∧ x < a + n

/-- The addresses of the page at `p`. -/
def OnPage (p x : Nat) : Prop := InRange p 4096 x

/-- The addresses of the pages of a list. -/
def Pages (ps : List Nat) (x : Nat) : Prop := ∃ p ∈ ps, OnPage p x

/-- Two pages are equal or disjoint. -/
theorem OnPage.disjoint {p q x : Nat} (hp : p % 4096 = 0) (hq : q % 4096 = 0) (hpq : p ≠ q)
    (hx : OnPage p x) : ¬ OnPage q x := by
  unfold OnPage InRange at *
  omega

theorem touches_readWord (s : Heap) (a : Nat) : Touches (InRange a 8) s (s.readWord a).2 := by
  refine ⟨fun _ _ => rfl, [.load a 8], rfl, ?_⟩
  simp only [List.mem_singleton, forall_eq]
  exact fun x hx hx' => ⟨hx, hx'⟩

theorem touches_writeWord (s : Heap) (a v : Nat) : Touches (InRange a 8) s (s.writeWord a v) := by
  refine ⟨fun x hx => store_apply_of_outside ?_, [.store a 8], rfl, ?_⟩
  · unfold InRange at hx
    omega
  · simp only [List.mem_singleton, forall_eq]
    exact fun x hx hx' => ⟨hx, hx'⟩

theorem touches_writeByte (s : Heap) (a : Nat) (c : UInt8) :
    Touches (InRange a 1) s (s.writeByte a c) := by
  refine ⟨fun x hx => store_apply_of_outside ?_, [.store a 1], rfl, ?_⟩
  · unfold InRange at hx
    omega
  · simp only [List.mem_singleton, forall_eq]
    exact fun x hx hx' => ⟨hx, hx'⟩

theorem touches_print (A : Nat → Prop) (s : Heap) (text : List UInt8) :
    Touches A s (s.print text) :=
  ⟨fun _ _ => rfl, [.print text], rfl, by simp [Event.Within]⟩

/-! ## Words and bytes -/

@[simp] theorem readWord_fst (s : Heap) (a : Nat) : (s.readWord a).1 = load s.mem a 8 := rfl

@[simp] theorem readWord_mem (s : Heap) (a : Nat) : (s.readWord a).2.mem = s.mem := rfl

@[simp] theorem readWord_freelist (s : Heap) (a : Nat) :
    (s.readWord a).2.freelist = s.freelist := rfl

@[simp] theorem writeWord_mem (s : Heap) (a v : Nat) :
    (s.writeWord a v).mem = store s.mem a 8 v := rfl

@[simp] theorem writeWord_freelist (s : Heap) (a v : Nat) :
    (s.writeWord a v).freelist = s.freelist := rfl

/-! ## The clearing loops -/

theorem memset_touches (s : Heap) (a : Nat) (c : UInt8) (n : Nat) :
    Touches (InRange a n) s (memset s a c n) := by
  unfold memset
  refine forUpTo_rule (fun _ t => Touches (InRange a n) s t) (Touches.refl _ s) ?_
  intro i t hi ht
  refine ht.trans ((touches_writeByte t (a + i) c).mono ?_)
  intro x hx
  unfold InRange at *
  omega

theorem memset_mem (s : Heap) (a : Nat) (c : UInt8) (n : Nat) :
    (memset s a c n).mem = fill s.mem a n c := by
  unfold memset
  refine forUpTo_rule (fun i (t : Heap) => t.mem = fill s.mem a i c) ?_ ?_
  · funext x
    rw [fill_apply_of_outside (by omega)]
  · intro i t _ ht
    funext x
    change store t.mem (a + i) 1 c.toNat x = _
    rw [ht]
    by_cases hx : x = a + i
    · subst hx
      simp [store, fill]
    · rw [store_apply_of_outside (by omega)]
      unfold fill
      congr 1
      simp only [eq_iff_iff]
      omega

@[simp] theorem memset_freelist (s : Heap) (a : Nat) (c : UInt8) (n : Nat) :
    (memset s a c n).freelist = s.freelist := by
  unfold memset
  exact forUpTo_rule (fun _ (t : Heap) => t.freelist = s.freelist) rfl fun _ _ _ ht => ht

theorem fastZeroPage_touches (s : Heap) (page : Nat) :
    Touches (OnPage page) s (fastZeroPage s page) := by
  unfold fastZeroPage
  refine forUpTo_rule (fun _ t => Touches (OnPage page) s t) (Touches.refl _ s) ?_
  intro i t hi ht
  refine ht.trans ((touches_writeWord t (page + 8 * i) 0).mono ?_)
  intro x hx
  unfold OnPage InRange at *
  omega

theorem fastZeroPage_mem (s : Heap) (page : Nat) :
    (fastZeroPage s page).mem = fill s.mem page 4096 0 := by
  have h : (fastZeroPage s page).mem = fill s.mem page (8 * 0x200) 0 := by
    unfold fastZeroPage
    refine forUpTo_rule (fun i (t : Heap) => t.mem = fill s.mem page (8 * i) 0) ?_ ?_
    · funext x
      rw [fill_apply_of_outside (by omega)]
    · intro i t _ ht
      funext x
      change store t.mem (page + 8 * i) 8 0 x = _
      rw [ht]
      by_cases hx : page + 8 * i ≤ x ∧ x < page + 8 * i + 8
      · rw [store, if_pos hx, fill_apply_of_inside (by omega) (by omega), Nat.zero_div]
        rfl
      · rw [store_apply_of_outside (by omega)]
        unfold fill
        congr 1
        simp only [eq_iff_iff]
        omega
  exact h

@[simp] theorem fastZeroPage_freelist (s : Heap) (page : Nat) :
    (fastZeroPage s page).freelist = s.freelist := by
  unfold fastZeroPage
  exact forUpTo_rule (fun _ (t : Heap) => t.freelist = s.freelist) rfl fun _ _ _ ht => ht

/-! ## A run without pages -/

/-- `heap_alloc_page` has found the list empty. -/
def Exhausted (s : Heap) : Prop := Event.print freelistUninitialized ∈ s.log

theorem Touches.exhausted {A : Nat → Prop} {s t : Heap} (h : Touches A s t)
    (hs : Exhausted s) : Exhausted t := by
  obtain ⟨es, hlog, _⟩ := h.log
  unfold Exhausted at *
  rw [hlog]
  exact List.mem_append_left es hs

@[simp] theorem exhausted_readWord (s : Heap) (a : Nat) :
    Exhausted (s.readWord a).2 ↔ Exhausted s := by
  simp [Exhausted, Heap.readWord]

@[simp] theorem exhausted_writeWord (s : Heap) (a v : Nat) :
    Exhausted (s.writeWord a v) ↔ Exhausted s := by
  simp [Exhausted, Heap.writeWord]

@[simp] theorem exhausted_memset (s : Heap) (a : Nat) (c : UInt8) (n : Nat) :
    Exhausted (memset s a c n) ↔ Exhausted s := by
  unfold memset
  refine forUpTo_rule (fun _ (t : Heap) => Exhausted t ↔ Exhausted s) Iff.rfl ?_
  intro i t _ ht
  rw [← ht]
  simp [Exhausted, Heap.writeByte]

@[simp] theorem exhausted_fastZeroPage (s : Heap) (page : Nat) :
    Exhausted (fastZeroPage s page) ↔ Exhausted s := by
  unfold fastZeroPage
  refine forUpTo_rule (fun _ (t : Heap) => Exhausted t ↔ Exhausted s) Iff.rfl ?_
  intro i t _ ht
  rw [exhausted_writeWord, ht]

/-! ## The log only grows -/

/-- Every address. -/
def Anywhere (_ : Nat) : Prop := True

theorem Touches.anywhere {A : Nat → Prop} {s t : Heap} (h : Touches A s t) :
    Touches Anywhere s t := h.mono fun _ _ => trivial

theorem heapAllocPage_anywhere (s : Heap) : Touches Anywhere s (heapAllocPage s).2 := by
  unfold heapAllocPage
  split
  · exact touches_print _ s _
  · have hpop : Touches Anywhere s
        { (s.readWord s.freelist).2 with freelist := load s.mem s.freelist 8 } :=
      (touches_readWord s s.freelist).anywhere.of_eq rfl rfl
    exact hpop.trans (fastZeroPage_touches _ s.freelist).anywhere

theorem takeTable_anywhere (s : Heap) (ptPage : Nat) :
    Touches Anywhere s (takeTable s ptPage).2 := by
  unfold takeTable
  split
  · exact heapAllocPage_anywhere s
  · exact Touches.refl _ s

theorem nextTable_anywhere (virt level : Nat) (c : PteCursor) :
    Touches Anywhere c.heap (nextTable virt level c).heap := by
  unfold nextTable
  dsimp only
  have hread := (touches_readWord c.heap (c.pt + 8 * PGDIR_OFFSET virt level)).anywhere
  split
  · apply Touches.trans ?_ (touches_readWord _ _).anywhere
    apply Touches.trans ?_ (touches_writeWord _ _ _).anywhere
    apply Touches.trans ?_ (memset_touches _ _ _ _).anywhere
    exact hread.trans (takeTable_anywhere _ _)
  · exact hread.trans (touches_readWord _ _).anywhere

theorem installPte_anywhere (s : Heap) (cr3 pteLevel virt pte ptPage : Nat) :
    Touches Anywhere s (installPte s cr3 pteLevel virt pte ptPage).2 := by
  unfold installPte
  dsimp only
  apply Touches.trans ?_ (touches_writeWord _ _ _).anywhere
  refine forUpTo_rule (fun _ (c : PteCursor) => Touches Anywhere s c.heap) (Touches.refl _ s) ?_
  intro i c _ hc
  exact hc.trans (nextTable_anywhere _ _ c)

theorem installPages_anywhere {s t : Heap} {cr3 phys len virt : Nat}
    (h : installPages s cr3 phys len virt = some t) : Touches Anywhere s t := by
  rw [installPages, Option.bind_eq_bind, Option.bind_eq_some_iff] at h
  rcases h with ⟨c, hloop, hc⟩
  rw [← Option.some.inj hc]
  refine whileFuel_inv (fun c : Mapper => Touches Anywhere s c.heap) hloop (Touches.refl _ s) ?_
  intro c hc _
  exact hc.trans (installPte_anywhere _ _ _ _ _ _)

theorem setupMmu_anywhere {k k' : Kernel} {endOfMemory root : Nat}
    (h : setupMmu k endOfMemory = some (root, k')) : Touches Anywhere k.toHeap k'.toHeap := by
  rw [setupMmu, Option.bind_eq_bind, Option.bind_eq_some_iff] at h
  rcases h with ⟨s, hpages, hk⟩
  rw [← (Prod.mk.inj (Option.some.inj hk)).2]
  exact (heapAllocPage_anywhere _).trans (installPages_anywhere hpages)

end HyperBench
