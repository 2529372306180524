import HyperBench.MpSearch
import Mathlib.Data.List.Induction

/-!
# The entry loop of `mpinit` on arbitrary tables

The loop steps over a table by the sizes of its entries.  `Walks m start e ps q`
says that it has visited the entries at `ps` and is at `q` now.  A walk comes
to the end of the table or to an entry of an unknown type, and from the second
the loop does not get on (`walks_cases`).

Two results are read off the walk, each for every memory.

* `mpinit_ends_iff`: when the loop is left.
* `mpinit_unchanged_iff`: what `mpinit` does when there is no table.  It goes
  on with the address 0.
-/

namespace HyperBench.Mp

open ByteMem Reads Ascii Function Smp

/-! ## The walk -/

/-- The size of an entry, when its type is known. -/
def stride (type : UInt8) : Option Nat :=
  if type = MPPROC then some sizeofMpproc
  else if type = MPIOAPIC then some sizeofMpioapic
  else if type = MPBUS ∨ type = MPIOINTR ∨ type = MPLINTR then some 8
  else none

/-- What the entry at `p` does to the variables. -/
def effectAt (m : Mem) (g : Globals) (p : Nat) : Globals :=
  if m p = MPPROC then g.addCpu (m (p + 1))
  else if m p = MPIOAPIC then { g with ioapicid := m (p + 1) }
  else g

/-- From `start` the loop has visited the entries at `ps` and is at `q`. -/
inductive Walks (m : Mem) (start e : Nat) : List Nat → Nat → Prop where
  | start : Walks m start e [] start
  | next {ps : List Nat} {q k : Nat} : Walks m start e ps q → q < e → stride (m q) = some k →
      Walks m start e (ps ++ [q]) (q + k)

/-- The known types are those up to `MPLINTR`. -/
theorem stride_eq_none_iff {type : UInt8} : stride type = none ↔ MPLINTR.toNat < type.toNat := by
  have hlintr : MPLINTR.toNat = 4 := rfl
  have hproc : type = MPPROC ↔ type.toNat = 0 := UInt8.toNat_inj.symm
  have hbus : type = MPBUS ↔ type.toNat = 1 := UInt8.toNat_inj.symm
  have hioapic : type = MPIOAPIC ↔ type.toNat = 2 := UInt8.toNat_inj.symm
  have hiointr : type = MPIOINTR ↔ type.toNat = 3 := UInt8.toNat_inj.symm
  have hlintr' : type = MPLINTR ↔ type.toNat = 4 := UInt8.toNat_inj.symm
  unfold stride
  simp only [hproc, hbus, hioapic, hiointr, hlintr', hlintr]
  split
  · simp only [reduceCtorEq, false_iff]
    omega
  split
  · simp only [reduceCtorEq, false_iff]
    omega
  split
  · simp only [reduceCtorEq, false_iff]
    omega
  · simp only [true_iff]
    omega

theorem le_of_stride {type : UInt8} {k : Nat} (h : stride type = some k) : 8 ≤ k := by
  unfold stride sizeofMpproc sizeofMpioapic at h
  split at h
  · cases h
    decide
  split at h
  · cases h
    decide
  split at h
  · cases h
    decide
  · cases h

section Entry

variable {m : Mem} {c : Cursor}

theorem entry_val_of_stride {k : Nat} (h : stride (m c.p) = some k) :
    (entry c).val m = ⟨c.p + k, c.ismp, effectAt m c.globals c.p⟩ := by
  unfold stride at h
  rw [entry, val_bind, val_byte, effectAt]
  split at h
  · rename_i htype
    cases h
    rw [if_pos htype, if_pos htype]
    by_cases hroom : c.globals.ncpu < NCPU
    · rw [if_pos hroom]
      rfl
    · rw [if_neg hroom, Globals.addCpu, if_neg hroom]
      rfl
  · rename_i hproc
    rw [if_neg hproc, if_neg hproc]
    split at h
    · rename_i htype
      cases h
      rw [if_pos htype, if_pos htype]
      rfl
    · rename_i hioapic
      rw [if_neg hioapic, if_neg hioapic]
      split at h
      · rename_i htype
        cases h
        rw [if_pos htype]
        rfl
      · cases h

theorem entry_val_of_none (h : stride (m c.p) = none) :
    (entry c).val m = { c with ismp := false } := by
  unfold stride at h
  rw [entry, val_bind, val_byte]
  split at h
  · cases h
  split at h
  · cases h
  split at h
  · cases h
  rename_i hproc hioapic hother
  rw [if_neg hproc, if_neg hioapic, if_neg hother]
  rfl

end Entry

section Walk

variable {m : Mem} {start e : Nat} {ps : List Nat} {q : Nat}

/-- Every entry has at least eight bytes. -/
theorem Walks.length_le (h : Walks m start e ps q) :
    start + 8 * ps.length ≤ q ∧ (ps ≠ [] → start + 8 * (ps.length - 1) < e) := by
  induction h with
  | start => exact ⟨Nat.le_refl _, fun hne => absurd rfl hne⟩
  | next _ hlt hstride ih =>
    have hk := le_of_stride hstride
    rw [List.length_append, List.length_singleton]
    omega

/-- A walk comes to the end of the table or to an unknown type. -/
theorem walks_cases (m : Mem) (start e : Nat) :
    ∃ ps q, Walks m start e ps q ∧ (e ≤ q ∨ q < e ∧ stride (m q) = none) := by
  have key : ∀ n ps q, Walks m start e ps q → e - q ≤ n →
      ∃ ps q, Walks m start e ps q ∧ (e ≤ q ∨ q < e ∧ stride (m q) = none) := by
    intro n
    induction n with
    | zero => exact fun ps q h hle => ⟨ps, q, h, Or.inl (by omega)⟩
    | succ n ih =>
      intro ps q h hle
      by_cases hlt : q < e
      · cases hstride : stride (m q) with
        | none => exact ⟨ps, q, h, Or.inr ⟨hlt, hstride⟩⟩
        | some k =>
          have hk := le_of_stride hstride
          exact ih _ _ (h.next hlt hstride) (by omega)
      · exact ⟨ps, q, h, Or.inl (Nat.le_of_not_lt hlt)⟩
  exact key _ [] start .start (Nat.le_refl _)

variable {g : Globals}

/-- The state of the loop behind a walk. -/
theorem Walks.iterate (h : Walks m start e ps q) (g : Globals) :
    (fun c => (entry c).val m)^[ps.length] ⟨start, true, g⟩ = ⟨q, true, ps.foldl (effectAt m) g⟩ ∧
      ∀ i, i < ps.length → ((fun c => (entry c).val m)^[i] ⟨start, true, g⟩).p < e := by
  induction h with
  | start => exact ⟨rfl, fun i hi => absurd hi (Nat.not_lt_zero i)⟩
  | next _ hlt hstride ih =>
    rw [List.length_append, List.length_singleton, Function.iterate_succ_apply', ih.1,
      List.foldl_append]
    refine ⟨entry_val_of_stride hstride, fun i hi => ?_⟩
    rcases Nat.lt_succ_iff_lt_or_eq.1 hi with hi | rfl
    · exact ih.2 i hi
    · rw [ih.1]
      exact hlt

/-- A walk to the end of the table leaves the loop. -/
theorem Walks.loop_eq_some (h : Walks m start e ps q) (hend : e ≤ q) {fuel : Nat}
    (hfuel : ps.length < fuel) (g : Globals) :
    Loop.whileFuel (fun c => decide (c.p < e)) (fun c => (entry c).val m) fuel ⟨start, true, g⟩
      = some ⟨q, true, ps.foldl (effectAt m) g⟩ := by
  obtain ⟨hstate, hbefore⟩ := h.iterate g
  rw [← hstate]
  apply Loop.whileFuel_eq_iterate hfuel
  · intro i hi
    exact decide_eq_true (hbefore i hi)
  · rw [hstate, decide_eq_false_iff_not]
    exact Nat.not_lt.2 hend

/-- At an unknown type the loop stays where it is. -/
theorem Walks.iterate_stuck (h : Walks m start e ps q) (hnone : stride (m q) = none)
    (g : Globals) (n : Nat) :
    ((fun c => (entry c).val m)^[ps.length + n] ⟨start, true, g⟩).p = q := by
  induction n with
  | zero => rw [Nat.add_zero, (h.iterate g).1]
  | succ n ih =>
    rw [← Nat.add_assoc, Function.iterate_succ_apply']
    rw [entry_val_of_none (by rw [ih]; exact hnone)]
    exact ih

theorem Walks.loop_eq_none (h : Walks m start e ps q) (hlt : q < e) (hnone : stride (m q) = none)
    (g : Globals) (fuel : Nat) :
    Loop.whileFuel (fun c => decide (c.p < e)) (fun c => (entry c).val m) fuel ⟨start, true, g⟩
      = none := by
  apply Loop.whileFuel_eq_none
  intro i
  apply decide_eq_true
  rcases Nat.lt_or_ge i ps.length with hi | hi
  · exact (h.iterate g).2 i hi
  · obtain ⟨n, rfl⟩ := Nat.exists_eq_add_of_le hi
    rw [h.iterate_stuck hnone]
    exact hlt

end Walk

/-! ## When the loop is left -/

/-- What `mpinit` does behind `mpconfig`. -/
def parse (fuel : Nat) (g : Globals) (conf : Nat) : Reads (Option Globals) := do
  let g := if conf = 0 then g.print (ascii "Expect to run on an SMP") else g
  let lapic ← field (conf + 36) 4
  let length ← confLength conf
  let c ← Reads.whileFuel (fun c => decide (c.p < conf + length)) entry fuel
    ⟨conf + sizeofMpconf, true, { g with lapic := lapic }⟩
  pure (c.map fun c =>
    if c.ismp then c.globals else c.globals.print (ascii "Didn't find a suitable machine"))

theorem mpinit_eq_parse (fuel : Nat) (g : Globals) : mpinit fuel g = mpconfig >>= parse fuel g := rfl

/-- The end of the table at `conf`. -/
def tableEnd (m : Mem) (conf : Nat) : Nat := conf + (confLength conf).val m

/-- The entries of the table at `conf` that the loop comes to. -/
def Visits (m : Mem) (conf : Nat) (ps : List Nat) (q : Nat) : Prop :=
  Walks m (conf + sizeofMpconf) (tableEnd m conf) ps q

/-- The variables with which the loop starts. -/
def loopStart (m : Mem) (conf : Nat) (g : Globals) : Globals :=
  { (if conf = 0 then g.print (ascii "Expect to run on an SMP") else g) with
    lapic := load m (conf + 36) 4 }

section Parse

variable {m : Mem} {conf : Nat} {ps : List Nat} {q : Nat}

theorem parse_val (fuel : Nat) (g : Globals) (conf : Nat) (m : Mem) :
    (parse fuel g conf).val m
      = (Loop.whileFuel (fun c => decide (c.p < tableEnd m conf)) (fun c => (entry c).val m) fuel
          ⟨conf + sizeofMpconf, true, loopStart m conf g⟩).map fun c =>
            if c.ismp then c.globals else c.globals.print (ascii "Didn't find a suitable machine") := by
  unfold parse
  simp only [val_bind, val_pure, val_field, val_whileFuel]
  rfl

/-- The answer of a walk to the end of the table. -/
theorem parse_eq_some (h : Visits m conf ps q) (hend : tableEnd m conf ≤ q) {fuel : Nat}
    (hfuel : ps.length < fuel) (g : Globals) :
    (parse fuel g conf).val m = some (ps.foldl (effectAt m) (loopStart m conf g)) := by
  rw [parse_val, h.loop_eq_some hend hfuel]
  rfl

theorem parse_eq_none (h : Visits m conf ps q) (hlt : q < tableEnd m conf)
    (hnone : stride (m q) = none) (fuel : Nat) (g : Globals) : (parse fuel g conf).val m = none := by
  rw [parse_val, h.loop_eq_none hlt hnone]
  rfl

theorem parse_mono {fuel fuel' : Nat} {g g' : Globals} (h : (parse fuel g conf).val m = some g')
    (hle : fuel ≤ fuel') : (parse fuel' g conf).val m = some g' := by
  rw [parse_val, Option.map_eq_some_iff] at h ⊢
  obtain ⟨c, hloop, hc⟩ := h
  exact ⟨c, Loop.whileFuel_mono hloop hle, hc⟩

/-- Every entry that the loop comes to has a known type. -/
def KnownTypes (m : Mem) (conf : Nat) : Prop :=
  ∀ ps q, Visits m conf ps q → q < tableEnd m conf → (m q).toNat ≤ MPLINTR.toNat

theorem not_known_of_stuck (h : Visits m conf ps q) (hlt : q < tableEnd m conf)
    (hnone : stride (m q) = none) : ¬ KnownTypes m conf := fun hknown =>
  Nat.not_lt.2 (hknown ps q h hlt) (stride_eq_none_iff.1 hnone)

/-- An answer at any bound means that all types are known. -/
theorem known_of_parse {fuel : Nat} {g g' : Globals} (h : (parse fuel g conf).val m = some g') :
    KnownTypes m conf := by
  intro ps q hvisits hlt
  by_contra htype
  have hnone := stride_eq_none_iff.2 (Nat.lt_of_not_le htype)
  rw [parse_eq_none hvisits hlt hnone] at h
  cases h

theorem KnownTypes.walk (h : KnownTypes m conf) :
    ∃ ps q, Visits m conf ps q ∧ tableEnd m conf ≤ q := by
  obtain ⟨ps, q, hwalk, hend | ⟨hlt, hnone⟩⟩ :=
    walks_cases m (conf + sizeofMpconf) (tableEnd m conf)
  · exact ⟨ps, q, hwalk, hend⟩
  · exact absurd h (not_known_of_stuck hwalk hlt hnone)

/-- The rounds of the loop are at most one for eight bytes of the table. -/
theorem Visits.rounds_le (h : Visits m conf ps q) :
    ps.length ≤ (confLength conf).val m / 8 + 1 := by
  obtain ⟨_, hlast⟩ := Walks.length_le h
  cases ps with
  | nil => exact Nat.zero_le _
  | cons p ps =>
    have hlt := hlast (by simp)
    unfold tableEnd sizeofMpconf at hlt
    rw [List.length_cons] at hlt ⊢
    omega

/-- What `mpinit` has done when it ends. -/
theorem exists_parse_iff {P : Globals → Prop} (g : Globals) :
    (∃ fuel g', (parse fuel g conf).val m = some g' ∧ P g') ↔
      ∃ ps q, Visits m conf ps q ∧ tableEnd m conf ≤ q ∧
        P (ps.foldl (effectAt m) (loopStart m conf g)) := by
  constructor
  · intro hrun
    obtain ⟨fuel, g', hrun, hP⟩ := hrun
    obtain ⟨ps, q, hvisits, hend⟩ := (known_of_parse hrun).walk
    have hlong := parse_mono hrun (Nat.le_add_right fuel (ps.length + 1))
    rw [parse_eq_some hvisits hend (by omega) g] at hlong
    rw [← Option.some.inj hlong] at hP
    exact ⟨ps, q, hvisits, hend, hP⟩
  · intro hwalk
    obtain ⟨ps, q, hvisits, hend, hP⟩ := hwalk
    exact ⟨_, _, parse_eq_some hvisits hend (Nat.lt_succ_self _) g, hP⟩

end Parse

theorem mpinit_val (m : Mem) (fuel : Nat) (g : Globals) :
    (mpinit fuel g).val m = (parse fuel g (mpconfig.val m)).val m := by
  rw [mpinit_eq_parse, val_bind]

/-- The entry loop of `mpinit` is left after at most `length / 8 + 1` rounds
when all types that it comes to are known, and never otherwise. -/
theorem mpinit_ends_iff (m : Mem) (g : Globals) :
    ((∃ g', (mpinit ((confLength (mpconfig.val m)).val m / 8 + 2) g).val m = some g') ↔
        KnownTypes m (mpconfig.val m)) ∧
      ((∃ fuel g', (mpinit fuel g).val m = some g') ↔ KnownTypes m (mpconfig.val m)) := by
  have hends : KnownTypes m (mpconfig.val m) →
      ∃ g', (mpinit ((confLength (mpconfig.val m)).val m / 8 + 2) g).val m = some g' := by
    intro hknown
    obtain ⟨ps, q, hvisits, hend⟩ := hknown.walk
    have hrounds := hvisits.rounds_le
    rw [mpinit_val]
    exact ⟨_, parse_eq_some hvisits hend (by omega) g⟩
  have hknown : ∀ fuel g', (mpinit fuel g).val m = some g' → KnownTypes m (mpconfig.val m) := by
    intro fuel g' hrun
    rw [mpinit_val] at hrun
    exact known_of_parse hrun
  constructor
  · exact ⟨fun hrun => hknown _ _ hrun.choose_spec, hends⟩
  · exact ⟨fun hrun => hknown _ _ hrun.choose_spec.choose_spec, fun h => ⟨_, hends h⟩⟩

/-- An accepted table whose only entry has the type 5. -/
theorem mpinit_never_ends_unknownType :
    mpconfig.val (romTable 52 0xb5 [5, 0, 0, 0, 0, 0, 0, 0]) = 0xf0010 ∧
      ∀ fuel g, (mpinit fuel g).val (romTable 52 0xb5 [5, 0, 0, 0, 0, 0, 0, 0]) = none := by
  have hconf : mpconfig.val (romTable 52 0xb5 [5, 0, 0, 0, 0, 0, 0, 0]) = 0xf0010 := by
    decide +kernel
  refine ⟨hconf, fun fuel g => ?_⟩
  rw [mpinit_val, hconf]
  exact parse_eq_none .start (by decide +kernel) (by decide +kernel) fuel g

/-! ## Without a table -/

section Fold

variable (m : Mem)

theorem foldl_lapic (ps : List Nat) (g : Globals) :
    (ps.foldl (effectAt m) g).lapic = g.lapic := by
  induction ps generalizing g with
  | nil => rfl
  | cons p ps ih =>
    rw [List.foldl_cons, ih, effectAt]
    split
    · unfold Globals.addCpu
      split <;> rfl
    · split <;> rfl

/-- The processor entries count up to `NCPU`. -/
theorem foldl_ncpu (ps : List Nat) (g : Globals) :
    (ps.foldl (effectAt m) g).ncpu
      = max g.ncpu (min NCPU (g.ncpu + ps.countP fun p => m p = MPPROC)) := by
  induction ps generalizing g with
  | nil =>
    rw [List.foldl_nil, List.countP_nil]
    omega
  | cons p ps ih =>
    rw [List.foldl_cons, ih, List.countP_cons, effectAt]
    by_cases hproc : m p = MPPROC
    · rw [if_pos hproc, Globals.addCpu]
      simp only [hproc, decide_true, if_true]
      split
      · dsimp only
        omega
      · omega
    · rw [if_neg hproc]
      simp only [hproc, decide_false, Bool.false_eq_true, if_false]
      split <;> rfl

theorem foldl_cpus {ps : List Nat} {g : Globals}
    (h : NCPU ≤ g.ncpu ∨ ∀ p ∈ ps, m p ≠ MPPROC) :
    (ps.foldl (effectAt m) g).cpus = g.cpus := by
  induction ps generalizing g with
  | nil => rfl
  | cons p ps ih =>
    have hsame : (effectAt m g p).cpus = g.cpus ∧ (effectAt m g p).ncpu = g.ncpu := by
      rw [effectAt]
      split
      · rename_i hproc
        have hfull : ¬ g.ncpu < NCPU :=
          Nat.not_lt.2 (h.resolve_right fun hno => hno p List.mem_cons_self hproc)
        rw [Globals.addCpu, if_neg hfull]
        exact ⟨rfl, rfl⟩
      · split <;> exact ⟨rfl, rfl⟩
    rw [List.foldl_cons, ih, hsame.1]
    rw [hsame.2]
    exact h.imp_right fun hno q hq => hno q (List.mem_cons_of_mem p hq)

/-- The last I/O APIC entry counts. -/
theorem foldl_ioapicid (ps : List Nat) (g : Globals) :
    (ps.foldl (effectAt m) g).ioapicid
      = match (ps.filter fun p => m p = MPIOAPIC).getLast? with
        | some p => m (p + 1)
        | none => g.ioapicid := by
  induction ps using List.reverseRecOn with
  | nil => rfl
  | append_singleton ps p ih =>
    rw [List.foldl_append, List.foldl_cons, List.foldl_nil, List.filter_append, effectAt]
    by_cases hioapic : m p = MPIOAPIC
    · have hproc : ¬ m p = MPPROC := by
        rw [hioapic]
        decide
      rw [if_neg hproc, if_pos hioapic]
      simp [hioapic]
    · rw [if_neg hioapic]
      have hsame : (if m p = MPPROC then (ps.foldl (effectAt m) g).addCpu (m (p + 1))
          else ps.foldl (effectAt m) g).ioapicid = (ps.foldl (effectAt m) g).ioapicid := by
        split
        · unfold Globals.addCpu
          split <;> rfl
        · rfl
      rw [hsame, ih]
      simp [hioapic]

end Fold

/-- The variables that `mpinit` may set are as before. -/
structure SameVariables (g g' : Globals) : Prop where
  lapic : g'.lapic = g.lapic
  cpus : g'.cpus = g.cpus
  ncpu : g'.ncpu = g.ncpu
  ioapicid : g'.ioapicid = g.ioapicid

/-- What lies at the address 0 looks like a table that says nothing new: the
entries at `ps` lead to its end. -/
structure NothingNew (m : Mem) (g : Globals) (ps : List Nat) (q : Nat) : Prop where
  visits : Visits m 0 ps q
  ends : tableEnd m 0 ≤ q
  lapic : load m 36 4 = g.lapic
  procs : NCPU ≤ g.ncpu ∨ ∀ p ∈ ps, m p ≠ MPPROC
  ioapic : ∀ p, (ps.filter fun p => m p = MPIOAPIC).getLast? = some p → m (p + 1) = g.ioapicid

/-- The entries at `ps` leave the variables alone exactly when they say nothing
new. -/
theorem sameVariables_foldl_iff (m : Mem) (ps : List Nat) {g g₀ : Globals}
    (hcpus : g₀.cpus = g.cpus) (hncpu : g₀.ncpu = g.ncpu) (hioapicid : g₀.ioapicid = g.ioapicid) :
    SameVariables g (ps.foldl (effectAt m) g₀) ↔
      g₀.lapic = g.lapic ∧ (NCPU ≤ g.ncpu ∨ ∀ p ∈ ps, m p ≠ MPPROC) ∧
        ∀ p, (ps.filter fun p => m p = MPIOAPIC).getLast? = some p → m (p + 1) = g.ioapicid := by
  have hcount := foldl_ncpu m ps g₀
  have hlast := foldl_ioapicid m ps g₀
  rw [hncpu] at hcount
  rw [hioapicid] at hlast
  constructor
  · intro hsame
    refine ⟨(foldl_lapic m ps g₀).symm.trans hsame.lapic, ?_, fun p hp => ?_⟩
    · -- a processor entry that fits would have been counted
      rw [hsame.ncpu] at hcount
      by_cases hfull : NCPU ≤ g.ncpu
      · exact Or.inl hfull
      · refine Or.inr fun p hp hproc => ?_
        have hpos : 0 < ps.countP fun p => m p = MPPROC :=
          List.countP_pos_iff.2 ⟨p, hp, decide_eq_true hproc⟩
        omega
    · rw [hp] at hlast
      exact hlast.symm.trans hsame.ioapicid
  · intro hnew
    obtain ⟨hlapic, hprocs, hioapic⟩ := hnew
    refine ⟨(foldl_lapic m ps g₀).trans hlapic, ?_, ?_, ?_⟩
    · rw [foldl_cpus m (hncpu ▸ hprocs), hcpus]
    · rcases hprocs with hfull | hno
      · omega
      · have hzero : (ps.countP fun p => m p = MPPROC) = 0 := by
          rw [List.countP_eq_zero]
          intro p hp
          simpa using hno p hp
        omega
    · rw [hlast]
      split
      · rename_i p hp
        exact hioapic p hp
      · rfl

/-- Without a table `mpinit` takes the bytes at the address 0 for one.  It
ends and leaves its variables alone exactly when they say nothing new. -/
theorem mpinit_unchanged_iff {m : Mem} (hnone : mpconfig.val m = 0) (g : Globals) :
    (∃ fuel g', (mpinit fuel g).val m = some g' ∧ SameVariables g g') ↔
      ∃ ps q, NothingNew m g ps q := by
  simp only [mpinit_val, hnone]
  rw [exists_parse_iff]
  apply exists_congr
  intro ps
  apply exists_congr
  intro q
  have hsame := @sameVariables_foldl_iff m ps g (loopStart m 0 g) rfl rfl rfl
  rw [hsame]
  constructor
  · intro h
    obtain ⟨hvisits, hend, hlapic, hprocs, hioapic⟩ := h
    exact ⟨hvisits, hend, hlapic, hprocs, hioapic⟩
  · intro h
    exact ⟨h.visits, h.ends, h.lapic, h.procs, h.ioapic⟩

/-- The bytes from the address 0 on that read as a table of length 60, with a
local APIC at `0xfee00000`, a bus entry and the I/O APIC 5. -/
def lowTable : List UInt8 :=
  [0, 0, 0, 0, 60, 0] ++ List.replicate 30 0 ++ [0x00, 0x00, 0xe0, 0xfe, 0, 0, 0, 0] ++
    [1, 0, 0, 0, 0, 0, 0, 0] ++ [2, 5, 0, 0, 0, 0, 0, 0]

/-- The table of the ROM has a wrong checksum. -/
def wrongChecksum : Mem := fun a =>
  if 0xf0000 ≤ a then romTable 44 0 [] a else lowTable.getD a 0

/-- The variables when a table with one processor was read before. -/
def readBefore : Globals := { Globals.start with lapic := 0xfee00000, ncpu := 1, ioapicid := 5 }

/-- The loop comes to the two entries at the address 44, which say nothing
new. -/
theorem mpinit_unchanged_wrongChecksum :
    mpconfig.val wrongChecksum = 0 ∧
      ∃ fuel g', (mpinit fuel readBefore).val wrongChecksum = some g' ∧
        SameVariables readBefore g' := by
  have hnone : mpconfig.val wrongChecksum = 0 := by decide +kernel
  have hbus : Visits wrongChecksum 0 [44] 52 :=
    Walks.next (k := 8) .start (by decide +kernel) (by decide +kernel)
  have hioapic : Visits wrongChecksum 0 [44, 52] 60 :=
    Walks.next (k := 8) hbus (by decide +kernel) (by decide +kernel)
  refine ⟨hnone, (mpinit_unchanged_iff hnone readBefore).2
    ⟨[44, 52], 60, hioapic, by decide +kernel, by decide +kernel, Or.inr (by decide +kernel), ?_⟩⟩
  intro p hp
  have hlast : ([44, 52].filter fun p => wrongChecksum p = MPIOAPIC).getLast? = some 52 := by
    decide +kernel
  rw [← Option.some.inj (hlast.symm.trans hp)]
  rfl

/-- An interrupt vector 9 of the real mode, where a table at the address 0
would have its `lapicaddr`. -/
def vectorMemory : Mem := store (fun _ => 0) 36 4 0xf000e987

/-- Without a table `lapic` is set to the interrupt vector 9. -/
theorem mpinit_sets_lapic_vectorMemory :
    mpconfig.val vectorMemory = 0 ∧
      ∃ g', (mpinit 1 .start).val vectorMemory = some g' ∧ g'.lapic = 0xf000e987 ∧
        ¬ SameVariables .start g' := by
  have hnone : mpconfig.val vectorMemory = 0 := by
    have hzero : ∀ a, 40 ≤ a → vectorMemory a = 0 := fun a ha => store_apply_of_outside (by omega)
    rw [mpconfig_val, if_pos]
    refine Or.inl (mpsearch_eq_zero (by decide) fun p hp => ?_)
    rw [hzero p (by omega)]
    decide
  have hlapic : load vectorMemory 36 4 = 0xf000e987 := load_store_same _ _ _ _
  refine ⟨hnone, loopStart vectorMemory 0 .start, ?_, hlapic, fun hsame => ?_⟩
  · rw [mpinit_val, hnone]
    exact parse_eq_some .start (by decide +kernel) (Nat.lt_succ_self 0) .start
  · exact absurd (hlapic.symm.trans hsame.lapic) (by decide)

end HyperBench.Mp
