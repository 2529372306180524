import HyperBench.Heap
import HyperBench.Lib.Transition
import Mathlib.Logic.Function.Basic

/-!
# `alloc_vpages` on several processors

`alloc_vpages` takes its pages off `vfree_top` under the lock, and reads
`vfree_top` once more for its answer, behind the lock.  One step of the system
is one of the four accesses, so a run is any interleaving of any calls on any
processors.  An attempt to take the lock that fails changes nothing and is not
a step.

* `alone_run`: a call without another one in between is `allocVpages`.
* `Guard` is the condition that keeps the answers apart: nobody subtracts
  while another processor still has to read its answer.
* `Inv` is the invariant of the runs that keep to it: the ranges that were
  handed out are stacked downwards from the address 0.
-/

namespace HyperBench.Vpages

open Transition Function

/-! ## The system -/

/-- Where a processor is in `alloc_vpages(nr)`. -/
inductive Pc where
  | idle
  | locked (nr : Nat)
  | subtracted (nr : Nat)
  | unlocked (nr : Nat)
  deriving DecidableEq, Repr

/-- What a call has answered, and the number of its pages. -/
structure Range where
  ret : Nat
  nr : Nat
  deriving DecidableEq, Repr

variable {ι : Type} [DecidableEq ι]

structure State (ι : Type) where
  lock : Bool
  vfreeTop : Nat
  pc : ι → Pc
  /-- The completed calls, newest first. -/
  returned : List Range

inductive Action (ι : Type) where
  | lock (i : ι) (nr : Nat)
  | subtract (i : ι)
  | unlock (i : ι)
  | read (i : ι)

/-- `vfree_top -= PAGE_SIZE * nr`. -/
def subtractPages (top nr : Nat) : Nat := (top + 2 ^ 64 - PAGE_SIZE * nr % 2 ^ 64) % 2 ^ 64

inductive Step : State ι → Action ι → State ι → Prop where
  | lock {s : State ι} {i : ι} {nr : Nat} (hpc : s.pc i = .idle) (hfree : s.lock = false)
      (hnr : 0 < nr) :
      Step s (.lock i nr) { s with lock := true, pc := update s.pc i (.locked nr) }
  | subtract {s : State ι} {i : ι} {nr : Nat} (hpc : s.pc i = .locked nr) :
      Step s (.subtract i)
        { s with
          vfreeTop := subtractPages s.vfreeTop nr
          pc := update s.pc i (.subtracted nr) }
  | unlock {s : State ι} {i : ι} {nr : Nat} (hpc : s.pc i = .subtracted nr) :
      Step s (.unlock i) { s with lock := false, pc := update s.pc i (.unlocked nr) }
  | read {s : State ι} {i : ι} {nr : Nat} (hpc : s.pc i = .unlocked nr) :
      Step s (.read i)
        { s with
          pc := update s.pc i .idle
          returned := ⟨s.vfreeTop, nr⟩ :: s.returned }

/-- At the start nobody is in `alloc_vpages`. -/
structure Init (s : State ι) : Prop where
  lock : s.lock = false
  vfreeTop : s.vfreeTop = 0
  pc : ∀ i, s.pc i = .idle
  returned : s.returned = []

def vpages (ι : Type) [DecidableEq ι] : System (State ι) (Action ι) := ⟨Init, Step⟩

/-- Nobody subtracts while a processor still has to read its answer. -/
def Guard (s : State ι) : Action ι → Prop
  | .subtract _ => ∀ j nr, s.pc j ≠ .unlocked nr
  | _ => True

/-- The runs whose steps all keep to the guard. -/
def guarded (ι : Type) [DecidableEq ι] : System (State ι) (Action ι) where
  Init := Init
  Step s a t := Step s a t ∧ Guard s a

/-- The pages that the calls of a run ask for. -/
def pagesAsked : List (Action ι) → Nat
  | [] => 0
  | .lock _ nr :: as => nr + pagesAsked as
  | _ :: as => pagesAsked as

/-- The addresses of a range, modulo `2 ^ 64`. -/
def Range.Has (r : Range) (x : Nat) : Prop := ∃ k, k < PAGE_SIZE * r.nr ∧ x = (r.ret + k) % 2 ^ 64

/-- No address is in two of the ranges. -/
def RangesDisjoint (s : State ι) : Prop :=
  s.returned.Pairwise fun r r' => ∀ x, r.Has x → ¬ r'.Has x

/-- A call that nobody comes between keeps to the guard, and is
`allocVpages`. -/
theorem alone_run {s : State ι} {as : List (Action ι)} (hrun : Run (guarded ι) as s)
    (hidle : ∀ j, s.pc j = .idle) (hfree : s.lock = false) (i : ι) {nr : Nat} (hnr : 0 < nr) :
    ∃ t, Run (guarded ι) (as ++ [.lock i nr] ++ [.subtract i] ++ [.unlock i] ++ [.read i]) t ∧
      t.lock = false ∧ (∀ j, t.pc j = .idle) ∧
      t.returned = ⟨t.vfreeTop, nr⟩ :: s.returned ∧
      ∀ k : Kernel, k.vfreeTop = s.vfreeTop →
        allocVpages k nr = (t.vfreeTop, { k with vfreeTop := t.vfreeTop }) := by
  have hlock := hrun.step ⟨Step.lock (hidle i) hfree hnr, trivial⟩
  have hguard : ∀ j m, update s.pc i (.locked nr) j ≠ .unlocked m := by
    intro j m
    by_cases hj : j = i
    · rw [hj, update_self]
      exact Pc.noConfusion
    · rw [update_of_ne hj, hidle j]
      exact Pc.noConfusion
  have hsubtract := hlock.step ⟨@Step.subtract ι _ _ i nr (update_self _ _ _), hguard⟩
  have hunlock := hsubtract.step ⟨@Step.unlock ι _ _ i nr (update_self _ _ _), trivial⟩
  have hread := hunlock.step ⟨@Step.read ι _ _ i nr (update_self _ _ _), trivial⟩
  refine ⟨_, hread, rfl, ?_, rfl, ?_⟩
  · intro j
    by_cases hj : j = i
    · rw [hj]
      exact update_self _ _ _
    · simp only [update_of_ne hj]
      exact hidle j
  · intro k hk
    rw [allocVpages, hk]
    rfl

/-! ## Stacked ranges -/

/-- The ranges, newest first, lie in the first `depth` pages below the address
0, each one below the older ones. -/
def Stacked : Nat → List Range → Prop
  | _, [] => True
  | depth, r :: rs => ∃ d, d ≤ depth ∧ r.nr ≤ d ∧ (r.ret + PAGE_SIZE * d) % 2 ^ 64 = 0 ∧
      Stacked (d - r.nr) rs

theorem Stacked.mono {depth depth' : Nat} {rs : List Range} (h : Stacked depth rs)
    (hle : depth ≤ depth') : Stacked depth' rs := by
  cases rs with
  | nil => trivial
  | cons r rs =>
    obtain ⟨d, hd, hrest⟩ := h
    exact ⟨d, hd.trans hle, hrest⟩

/-- Where the ranges of a stack are. -/
theorem Stacked.exists_depth {depth : Nat} {rs : List Range} (h : Stacked depth rs) {r : Range}
    (hr : r ∈ rs) : ∃ d, d ≤ depth ∧ r.nr ≤ d ∧ (r.ret + PAGE_SIZE * d) % 2 ^ 64 = 0 := by
  induction rs generalizing depth with
  | nil => cases hr
  | cons r' rs ih =>
    obtain ⟨d, hd, hnr, htop, hrest⟩ := h
    rcases List.mem_cons.1 hr with rfl | hr
    · exact ⟨d, hd, hnr, htop⟩
    · obtain ⟨d', hd', hrest'⟩ := ih hrest hr
      exact ⟨d', by omega, hrest'⟩

/-- Ranges at different depths have no address in common. -/
theorem Range.disjoint_of_depth {r r' : Range} {d d' : Nat}
    (htop : (r.ret + PAGE_SIZE * d) % 2 ^ 64 = 0) (htop' : (r'.ret + PAGE_SIZE * d') % 2 ^ 64 = 0)
    (hnr : r.nr ≤ d) (hnr' : r'.nr ≤ d') (hbelow : d' ≤ d - r.nr) (hd : d < 2 ^ 52) (x : Nat)
    (hx : r.Has x) : ¬ r'.Has x := by
  intro hx'
  obtain ⟨k, hk, rfl⟩ := hx
  obtain ⟨k', hk', heq⟩ := hx'
  rw [PAGE_SIZE_eq] at *
  -- the distance below 0, which is less than `2 ^ 64`
  omega

theorem Stacked.pairwise {depth : Nat} {rs : List Range} (h : Stacked depth rs)
    (hdepth : depth < 2 ^ 52) : rs.Pairwise fun r r' => ∀ x, r.Has x → ¬ r'.Has x := by
  induction rs generalizing depth with
  | nil => exact List.Pairwise.nil
  | cons r rs ih =>
    obtain ⟨d, hd, hnr, htop, hrest⟩ := h
    refine List.Pairwise.cons ?_ (ih hrest (by omega))
    intro r' hr' x
    obtain ⟨d', hd', hnr', htop'⟩ := hrest.exists_depth hr'
    exact Range.disjoint_of_depth htop htop' hnr hnr' hd' (by omega) x

/-! ## The invariant -/

/-- The processor is between taking the lock and releasing it. -/
def Pc.Holds : Pc → Prop
  | locked _ | subtracted _ => True
  | _ => False

/-- The processor has taken its pages, and has not read its answer yet. -/
def Pc.Pending : Pc → Prop
  | subtracted _ | unlocked _ => True
  | _ => False

/-- The number of pages of the call. -/
def Pc.nr : Pc → Nat
  | locked nr | subtracted nr | unlocked nr => nr
  | idle => 0

/-- The state of a guarded run: `taken` pages were taken, and the answers lie
in the first `depth` of them. -/
structure Inv (asked : Nat) (s : State ι) (taken depth : Nat) : Prop where
  holds : ∀ i, (s.pc i).Holds → s.lock = true
  mutex : ∀ i j, (s.pc i).Holds → (s.pc j).Holds → i = j
  pending : ∀ i j, (s.pc i).Pending → (s.pc j).Pending → i = j
  asked_le : taken ≤ asked
  locked : ∀ i nr, s.pc i = .locked nr → taken + nr ≤ asked
  top : (s.vfreeTop + PAGE_SIZE * taken) % 2 ^ 64 = 0
  stacked : Stacked depth s.returned
  depth_le : depth ≤ taken
  block : ∀ i, (s.pc i).Pending → depth + (s.pc i).nr = taken

section Step

variable {s t : State ι} {i j : ι} {asked taken depth : Nat}

omit [DecidableEq ι] in
theorem pagesAsked_append (as bs : List (Action ι)) :
    pagesAsked (as ++ bs) = pagesAsked as + pagesAsked bs := by
  induction as with
  | nil => exact (Nat.zero_add _).symm
  | cons a as ih =>
    rw [List.cons_append]
    cases a with
    | lock i nr =>
      show nr + pagesAsked (as ++ bs) = nr + pagesAsked as + pagesAsked bs
      rw [ih, Nat.add_assoc]
    | subtract i | unlock i | read i => exact ih

/-- What the new state of one processor does not have, the others had
before. -/
theorem of_update {P : Pc → Prop} {pc : ι → Pc} {new : Pc} (hnew : ¬ P new)
    (h : P (update pc i new j)) : j ≠ i ∧ P (pc j) := by
  by_cases hj : j = i
  · rw [hj, update_self] at h
    exact absurd h hnew
  · rw [update_of_ne hj] at h
    exact ⟨hj, h⟩

/-- What the processor had before its step, as the others. -/
theorem of_update_same {P : Pc → Prop} {pc : ι → Pc} {new : Pc} (hold : P (pc i))
    (h : P (update pc i new j)) : P (pc j) := by
  by_cases hj : j = i
  · rw [hj]
    exact hold
  · rwa [update_of_ne hj] at h

omit [DecidableEq ι] in
theorem inv_init (h : Init s) : Inv 0 s 0 0 := by
  have hidle : ∀ P : Pc → Prop, ¬ P .idle → ∀ i, ¬ P (s.pc i) := by
    intro P hP i
    rw [h.pc i]
    exact hP
  refine ⟨fun i hi => absurd hi (hidle Pc.Holds id i), fun i j hi => absurd hi (hidle Pc.Holds id i),
    fun i j hi => absurd hi (hidle Pc.Pending id i), Nat.le_refl 0, ?_, ?_, ?_, Nat.le_refl 0,
    fun i hi => absurd hi (hidle Pc.Pending id i)⟩
  · intro i nr hpc
    rw [h.pc i] at hpc
    cases hpc
  · rw [h.vfreeTop]
    rfl
  · rw [h.returned]
    trivial

theorem Inv.lock (h : Inv asked s taken depth) (hpc : s.pc i = .idle) (hfree : s.lock = false)
    (nr : Nat) :
    Inv (asked + nr) { s with lock := true, pc := update s.pc i (.locked nr) } taken depth := by
  have hnone : ∀ j, ¬ (s.pc j).Holds := by
    intro j hj
    rw [h.holds j hj] at hfree
    cases hfree
  have honly : ∀ j, (update s.pc i (.locked nr) j).Holds → j = i := by
    intro j hj
    by_contra hne
    rw [update_of_ne hne] at hj
    exact hnone j hj
  have hpending : ∀ j, (update s.pc i (.locked nr) j).Pending → j ≠ i ∧ (s.pc j).Pending :=
    fun j hj => of_update (P := Pc.Pending) id hj
  refine ⟨fun _ _ => rfl, fun j k hj hk => (honly j hj).trans (honly k hk).symm,
    fun j k hj hk => h.pending j k (hpending j hj).2 (hpending k hk).2, ?_, ?_, h.top, h.stacked,
    h.depth_le, ?_⟩
  · have := h.asked_le
    omega
  · intro j nr' hj
    change update s.pc i (.locked nr) j = .locked nr' at hj
    obtain rfl := honly j (by rw [hj]; trivial)
    rw [update_self] at hj
    cases hj
    have := h.asked_le
    omega
  · intro j hj
    obtain ⟨hne, hj⟩ := hpending j hj
    show depth + (update s.pc i (.locked nr) j).nr = taken
    rw [update_of_ne hne]
    exact h.block j hj

/-- The guard says that nobody is pending. -/
theorem Inv.subtract (h : Inv asked s taken depth) {nr : Nat} (hpc : s.pc i = .locked nr)
    (hguard : ∀ j nr, s.pc j ≠ .unlocked nr) :
    Inv asked { s with
      vfreeTop := subtractPages s.vfreeTop nr
      pc := update s.pc i (.subtracted nr) } (taken + nr) taken := by
  have hhold : (s.pc i).Holds := by
    rw [hpc]
    trivial
  have hnone : ∀ j, ¬ (s.pc j).Pending := by
    intro j hj
    cases hpcj : s.pc j with
    | idle | locked nr =>
      rw [hpcj] at hj
      exact hj
    | subtracted nr' =>
      obtain rfl := h.mutex j i (by rw [hpcj]; trivial) hhold
      rw [hpc] at hpcj
      cases hpcj
    | unlocked nr' => exact hguard j nr' hpcj
  have honly : ∀ j, (update s.pc i (.subtracted nr) j).Pending → j = i := by
    intro j hj
    by_contra hne
    rw [update_of_ne hne] at hj
    exact hnone j hj
  have hholds : ∀ j, (update s.pc i (.subtracted nr) j).Holds → (s.pc j).Holds :=
    fun j hj => of_update_same hhold hj
  refine ⟨fun j hj => h.holds j (hholds j hj),
    fun j k hj hk => h.mutex j k (hholds j hj) (hholds k hk),
    fun j k hj hk => (honly j hj).trans (honly k hk).symm, h.locked i nr hpc, ?_, ?_,
    h.stacked.mono h.depth_le, Nat.le_add_right _ _, ?_⟩
  · intro j nr' hj
    obtain ⟨hne, hj⟩ := of_update (P := (· = .locked nr')) Pc.noConfusion hj
    exact absurd (h.mutex j i (by rw [hj]; trivial) hhold) hne
  · have htop := h.top
    show (subtractPages s.vfreeTop nr + PAGE_SIZE * (taken + nr)) % 2 ^ 64 = 0
    unfold subtractPages
    rw [PAGE_SIZE_eq] at *
    omega
  · intro j hj
    obtain rfl := honly j hj
    show taken + (update s.pc j (.subtracted nr) j).nr = taken + nr
    rw [update_self]
    rfl

theorem Inv.unlock (h : Inv asked s taken depth) {nr : Nat} (hpc : s.pc i = .subtracted nr) :
    Inv asked { s with lock := false, pc := update s.pc i (.unlocked nr) } taken depth := by
  have hhold : (s.pc i).Holds := by
    rw [hpc]
    trivial
  have hpend : (s.pc i).Pending := by
    rw [hpc]
    trivial
  -- the processor was the only one with the lock
  have hnone : ∀ j, ¬ (update s.pc i (.unlocked nr) j).Holds := by
    intro j hj
    obtain ⟨hne, hj⟩ := of_update (P := Pc.Holds) id hj
    exact hne (h.mutex j i hj hhold)
  have hpending : ∀ j, (update s.pc i (.unlocked nr) j).Pending → (s.pc j).Pending :=
    fun j hj => of_update_same hpend hj
  refine ⟨fun j hj => absurd hj (hnone j), fun j k hj => absurd hj (hnone j),
    fun j k hj hk => h.pending j k (hpending j hj) (hpending k hk), h.asked_le, ?_, h.top, h.stacked,
    h.depth_le, ?_⟩
  · intro j nr' hj
    change update s.pc i (.unlocked nr) j = .locked nr' at hj
    exact absurd (by rw [hj]; trivial) (hnone j)
  · intro j hj
    obtain rfl := h.pending j i (hpending j hj) hpend
    have hblock := h.block j hpend
    rw [hpc] at hblock
    show depth + (update s.pc j (.unlocked nr) j).nr = taken
    rw [update_self]
    exact hblock

/-- The answer is the range that the call has taken. -/
theorem Inv.read (h : Inv asked s taken depth) {nr : Nat} (hpc : s.pc i = .unlocked nr) :
    Inv asked { s with
      pc := update s.pc i .idle
      returned := ⟨s.vfreeTop, nr⟩ :: s.returned } taken taken := by
  have hpend : (s.pc i).Pending := by
    rw [hpc]
    trivial
  have hblock := h.block i hpend
  rw [hpc] at hblock
  change depth + nr = taken at hblock
  have hholds : ∀ j, (update s.pc i .idle j).Holds → (s.pc j).Holds :=
    fun j hj => (of_update (P := Pc.Holds) id hj).2
  have hnone : ∀ j, ¬ (update s.pc i .idle j).Pending := by
    intro j hj
    obtain ⟨hne, hj⟩ := of_update (P := Pc.Pending) id hj
    exact hne (h.pending j i hj hpend)
  refine ⟨fun j hj => h.holds j (hholds j hj),
    fun j k hj hk => h.mutex j k (hholds j hj) (hholds k hk),
    fun j k hj => absurd hj (hnone j), h.asked_le, ?_, h.top, ?_, Nat.le_refl _,
    fun j hj => absurd hj (hnone j)⟩
  · intro j nr' hj
    exact h.locked j nr' (of_update (P := (· = .locked nr')) Pc.noConfusion hj).2
  · refine ⟨taken, Nat.le_refl _, show nr ≤ taken by omega, h.top, ?_⟩
    rw [← hblock, Nat.add_sub_cancel]
    exact h.stacked

theorem Inv.step (h : Inv asked s taken depth) {a : Action ι} (hstep : (guarded ι).Step s a t) :
    ∃ taken' depth', Inv (asked + pagesAsked [a]) t taken' depth' := by
  obtain ⟨hstep, hguard⟩ := hstep
  cases hstep with
  | lock hpc hfree _ => exact ⟨taken, depth, h.lock hpc hfree _⟩
  | subtract hpc => exact ⟨_, _, h.subtract hpc hguard⟩
  | unlock hpc => exact ⟨_, _, h.unlock hpc⟩
  | read hpc => exact ⟨_, _, h.read hpc⟩

end Step

theorem inv_run {as : List (Action ι)} {s : State ι} (hrun : Run (guarded ι) as s) :
    ∃ taken depth, Inv (pagesAsked as) s taken depth := by
  refine hrun.invariant (fun as s => ∃ taken depth, Inv (pagesAsked as) s taken depth) ?_ ?_
  · exact fun s hinit => ⟨0, 0, inv_init hinit⟩
  · intro as s a t h hstep
    obtain ⟨taken, depth, h⟩ := h
    rw [pagesAsked_append]
    exact h.step hstep

/-! ## The ranges -/

/-- A call has at least one page. -/
theorem nr_pos_run {as : List (Action ι)} {s : State ι} (hrun : Run (vpages ι) as s) :
    ∀ i, s.pc i ≠ .idle → 0 < (s.pc i).nr := by
  refine hrun.invariant (fun _ s => ∀ i, s.pc i ≠ .idle → 0 < (s.pc i).nr) ?_ ?_
  · intro s hinit i hpc
    exact absurd (hinit.pc i) hpc
  · intro as s a t h hstep j hj
    have key : ∀ i new, t.pc = update s.pc i new → (new ≠ .idle → 0 < new.nr) →
        0 < (t.pc j).nr := by
      intro i new ht hnew
      rw [ht] at hj ⊢
      by_cases hji : j = i
      · rw [hji, update_self] at hj ⊢
        exact hnew hj
      · rw [update_of_ne hji] at hj ⊢
        exact h j hj
    cases hstep with
    | @lock i nr hpc hfree hnr => exact key i _ rfl fun _ => hnr
    | @subtract i nr hpc | @unlock i nr hpc =>
      have hnr := h i (by rw [hpc]; exact Pc.noConfusion)
      rw [hpc] at hnr
      exact key i _ rfl fun _ => hnr
    | @read i nr hpc => exact key i _ rfl fun hidle => absurd rfl hidle

omit [DecidableEq ι] in
/-- Two answers with the same address. -/
theorem not_disjoint_of_same {s : State ι} {top nr nr' : Nat} {rs : List Range}
    (h : s.returned = ⟨top, nr⟩ :: ⟨top, nr'⟩ :: rs) (hnr : 0 < nr) (hnr' : 0 < nr') :
    ¬ RangesDisjoint s := by
  intro hdisjoint
  rw [RangesDisjoint, h, List.pairwise_cons] at hdisjoint
  refine hdisjoint.1 ⟨top, nr'⟩ List.mem_cons_self (top % 2 ^ 64) ⟨0, ?_, rfl⟩ ⟨0, ?_, rfl⟩
  · exact Nat.mul_pos (by decide) hnr
  · exact Nat.mul_pos (by decide) hnr'

/-- A subtraction while a processor still has to read its answer: it may then
read the address that the other one gets. -/
theorem exists_overlap {as : List (Action ι)} {s t : State ι} {i : ι}
    (hrun : Run (vpages ι) as s) (hstep : Step s (.subtract i) t)
    (hguard : ¬ Guard s (.subtract i)) :
    ∃ bs u, Run (vpages ι) (as ++ [.subtract i] ++ bs) u ∧ pagesAsked bs = 0 ∧
      ¬ RangesDisjoint u := by
  obtain ⟨j, nr', hj⟩ : ∃ j nr', s.pc j = .unlocked nr' := by
    by_contra hno
    exact hguard fun j nr hj => hno ⟨j, nr, hj⟩
  have hpos := nr_pos_run hrun
  have hsub := hrun.step (show (vpages ι).Step s (.subtract i) t from hstep)
  cases hstep with
  | @subtract _ nr hpc =>
    have hji : j ≠ i := by
      intro he
      rw [he, hpc] at hj
      cases hj
    have hnr : 0 < nr := by
      have := hpos i (by rw [hpc]; exact Pc.noConfusion)
      rwa [hpc] at this
    have hnr' : 0 < nr' := by
      have := hpos j (by rw [hj]; exact Pc.noConfusion)
      rwa [hj] at this
    have hunlock := hsub.step (@Step.unlock ι _ _ i nr (update_self _ _ _))
    have hread := hunlock.step (@Step.read ι _ _ i nr (update_self _ _ _))
    have hj' : update (update (update s.pc i (.subtracted nr)) i (.unlocked nr)) i .idle j =
        .unlocked nr' := by
      simp only [update_of_ne hji]
      exact hj
    have hother := hread.step (@Step.read ι _ _ j nr' hj')
    rw [List.append_assoc, List.append_assoc] at hother
    exact ⟨_, _, hother, rfl, not_disjoint_of_same rfl hnr' hnr⟩

/-- In every run in which nobody subtracts while another processor still has
to read its answer, the ranges of the completed calls are disjoint.  A step
that breaks this rule leads to two completed calls with a common address. -/
theorem alloc_vpages_disjoint :
    (∀ (as : List (Action ι)) (s : State ι), Run (guarded ι) as s → pagesAsked as < 2 ^ 52 →
      RangesDisjoint s) ∧
    ∀ (as : List (Action ι)) (s t : State ι) (i : ι), Run (vpages ι) as s →
      Step s (.subtract i) t → ¬ Guard s (.subtract i) →
      ∃ bs u, Run (vpages ι) (as ++ [.subtract i] ++ bs) u ∧ pagesAsked bs = 0 ∧
        ¬ RangesDisjoint u := by
  refine ⟨fun as s hrun hasked => ?_, fun as s t i => exists_overlap⟩
  obtain ⟨taken, depth, h⟩ := inv_run hrun
  have htaken := h.asked_le
  have hdepth := h.depth_le
  exact h.stacked.pairwise (by omega)

/-! ## Two processors -/

/-- The state before the first call. -/
def start : State Bool := ⟨false, 0, fun _ => .idle, []⟩

theorem init_start : Init start := ⟨rfl, rfl, fun _ => rfl, rfl⟩

/-- One call after the other. -/
theorem alloc_vpages_disjoint_inOrder :
    ∃ as s, Run (guarded Bool) as s ∧ pagesAsked as = 2 ∧ s.returned.length = 2 ∧
      RangesDisjoint s := by
  obtain ⟨s, hrun, hfree, hidle, hs, _⟩ :=
    alone_run (.init init_start) init_start.pc rfl false Nat.one_pos
  obtain ⟨t, hrun', _, _, ht, _⟩ := alone_run hrun hidle hfree true Nat.one_pos
  have hlen : t.returned.length = 2 := by
    rw [ht, hs]
    rfl
  exact ⟨_, t, hrun', rfl, hlen, alloc_vpages_disjoint.1 _ t hrun' (by decide)⟩

/-- Both processors have released the lock before the first one reads. -/
theorem alloc_vpages_overlap :
    ∃ as s, Run (vpages Bool) as s ∧ pagesAsked as = 2 ∧
      s.returned = [⟨2 ^ 64 - 8192, 1⟩, ⟨2 ^ 64 - 8192, 1⟩] ∧ ¬ RangesDisjoint s := by
  have hinit : Run (vpages Bool) [] start := .init init_start
  have hlock := hinit.step (@Step.lock Bool _ _ false 1 rfl rfl Nat.one_pos)
  have hsubtract := hlock.step (@Step.subtract Bool _ _ false 1 rfl)
  have hunlock := hsubtract.step (@Step.unlock Bool _ _ false 1 rfl)
  have hlock' := hunlock.step (@Step.lock Bool _ _ true 1 rfl rfl Nat.one_pos)
  have hsubtract' := hlock'.step (@Step.subtract Bool _ _ true 1 rfl)
  have hunlock' := hsubtract'.step (@Step.unlock Bool _ _ true 1 rfl)
  have hread := hunlock'.step (@Step.read Bool _ _ false 1 rfl)
  have hread' := hread.step (@Step.read Bool _ _ true 1 rfl)
  exact ⟨_, _, hread', rfl, by decide, not_disjoint_of_same rfl Nat.one_pos Nat.one_pos⟩

end HyperBench.Vpages
