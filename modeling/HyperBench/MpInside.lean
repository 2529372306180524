import HyperBench.MpWalk

/-!
# What `mpinit` reads of the table

The length of a table is not checked against the header or the entries, so
`mpinit` may use bytes behind the end that the checksum covers.  The reads of
the loop are found by the visited entries of `MpWalk`: the type of each one,
and for an I/O APIC or a processor that still fits the byte behind it.
`mpinit_inside_iff` says for which tables all of them lie inside.
-/

namespace HyperBench.Mp

open ByteMem Reads Ascii Smp

/-- The type of an entry is read, and for two types the byte behind it. -/
theorem entry_addrs (m : Mem) (c : Cursor) :
    (entry c).addrs m = if m c.p = MPIOAPIC ∨ m c.p = MPPROC ∧ c.globals.ncpu < NCPU
      then [c.p, c.p + 1] else [c.p] := by
  rw [entry, addrs_bind, addrs_byte, val_byte]
  by_cases hproc : m c.p = MPPROC
  · have hioapic : ¬ m c.p = MPIOAPIC := by
      rw [hproc]
      decide
    rw [if_pos hproc]
    by_cases hroom : c.globals.ncpu < NCPU
    · rw [if_pos hroom, if_pos (Or.inr ⟨hproc, hroom⟩)]
      rfl
    · rw [if_neg hroom, if_neg fun h => h.elim hioapic fun h => hroom h.2]
      rfl
  · rw [if_neg hproc]
    by_cases hioapic : m c.p = MPIOAPIC
    · rw [if_pos hioapic, if_pos (Or.inl hioapic)]
      rfl
    · have hnone : ¬ (m c.p = MPIOAPIC ∨ m c.p = MPPROC ∧ c.globals.ncpu < NCPU) :=
        fun h => h.elim hioapic fun h => hproc h.1
      rw [if_neg hioapic, if_neg hnone]
      split <;> rfl

/-- The state of the loop at every round: on a walk, or behind one that is
stuck at an unknown type. -/
theorem loop_state {m : Mem} {start e : Nat} (g : Globals) {i : Nat}
    (hcond : ∀ j, j ≤ i → ((fun c => (entry c).val m)^[j] ⟨start, true, g⟩).p < e) :
    ∃ ps q ismp, Walks m start e ps q ∧ q < e ∧
      (fun c => (entry c).val m)^[i] ⟨start, true, g⟩ = ⟨q, ismp, ps.foldl (effectAt m) g⟩ := by
  induction i with
  | zero => exact ⟨[], start, true, .start, hcond 0 (Nat.le_refl 0), rfl⟩
  | succ i ih =>
    obtain ⟨ps, q, ismp, hwalk, hlt, hstate⟩ := ih fun j hj => hcond j (Nat.le_succ_of_le hj)
    have hnext := hcond (i + 1) (Nat.le_refl _)
    rw [Function.iterate_succ_apply', hstate] at hnext ⊢
    cases hstride : stride (m q) with
    | none => exact ⟨ps, q, false, hwalk, hlt, entry_val_of_none hstride⟩
    | some k =>
      rw [entry_val_of_stride hstride] at hnext ⊢
      refine ⟨ps ++ [q], q + k, ismp, hwalk.next hlt hstride, hnext, ?_⟩
      rw [List.foldl_append]
      rfl

/-- The bytes of the table at `conf`. -/
def InTable (m : Mem) (conf a : Nat) : Prop := conf ≤ a ∧ a < tableEnd m conf

/-- `mpinit` looks at the byte behind the type of the entry at `q`: it is an
I/O APIC, or a processor that still fits. -/
def LooksBehind (m : Mem) (g : Globals) (ps : List Nat) (q : Nat) : Prop :=
  m q = MPIOAPIC ∨ m q = MPPROC ∧ g.ncpu + (ps.countP fun p => m p = MPPROC) < NCPU

theorem looksBehind_iff (m : Mem) (g g' : Globals) (hncpu : g'.ncpu = g.ncpu) (ps : List Nat)
    (q : Nat) :
    m q = MPIOAPIC ∨ m q = MPPROC ∧ (ps.foldl (effectAt m) g').ncpu < NCPU ↔
      LooksBehind m g ps q := by
  unfold LooksBehind
  rw [foldl_ncpu, hncpu]
  refine or_congr_right (and_congr_right fun _ => ?_)
  omega

/-- `mpinit` reads two fields of the header and then the entries. -/
theorem mem_parse_addrs {m : Mem} {fuel conf a : Nat} {g : Globals} :
    a ∈ (parse fuel g conf).addrs m ↔
      (conf + 36 ≤ a ∧ a < conf + 40) ∨ (conf + 4 ≤ a ∧ a < conf + 6) ∨
        a ∈ (Reads.whileFuel (fun c => decide (c.p < tableEnd m conf)) entry fuel
          ⟨conf + sizeofMpconf, true, loopStart m conf g⟩).addrs m := by
  have hfields : (parse fuel g conf).addrs m = List.range' (conf + 36) 4 ++
      (List.range' (conf + 4) 2 ++ ((Reads.whileFuel (fun c => decide (c.p < tableEnd m conf)) entry
        fuel ⟨conf + sizeofMpconf, true, loopStart m conf g⟩).addrs m ++ [])) := rfl
  rw [hfields, List.append_nil, List.mem_append, List.mem_append, List.mem_range'_1,
    List.mem_range'_1]

/-- What is read in the round of the loop that is at `q`. -/
theorem mem_loop_addrs {m : Mem} {conf a : Nat} {g : Globals} :
    (∃ fuel, a ∈ (Reads.whileFuel (fun c => decide (c.p < tableEnd m conf)) entry fuel
        ⟨conf + sizeofMpconf, true, loopStart m conf g⟩).addrs m) ↔
      ∃ ps q, Visits m conf ps q ∧ q < tableEnd m conf ∧
        (a = q ∨ a = q + 1 ∧ LooksBehind m g ps q) := by
  have hncpu : (loopStart m conf g).ncpu = g.ncpu := by
    unfold loopStart
    split <;> rfl
  have hround : ∀ ps q ismp,
      a ∈ (entry ⟨q, ismp, ps.foldl (effectAt m) (loopStart m conf g)⟩).addrs m ↔
      a = q ∨ a = q + 1 ∧ LooksBehind m g ps q := by
    intro ps q ismp
    have hlook := looksBehind_iff m g (loopStart m conf g) hncpu ps q
    rw [entry_addrs]
    dsimp only
    split
    · rename_i hbehind
      simp [hlook.1 hbehind]
    · rename_i hbehind
      rw [hlook] at hbehind
      simp [hbehind]
  constructor
  · intro hread
    obtain ⟨fuel, hread⟩ := hread
    obtain ⟨i, _, hcond, hmem⟩ := mem_addrs_whileFuel.1 hread
    obtain ⟨ps, q, ismp, hwalk, hlt, hstate⟩ :=
      loop_state (loopStart m conf g) fun j hj => of_decide_eq_true (hcond j hj)
    rw [hstate] at hmem
    exact ⟨ps, q, hwalk, hlt, (hround ps q ismp).1 hmem⟩
  · intro hread
    obtain ⟨ps, q, hwalk, hlt, hmem⟩ := hread
    obtain ⟨hstate, hbefore⟩ := Walks.iterate hwalk (loopStart m conf g)
    refine ⟨ps.length + 1, mem_addrs_whileFuel.2 ⟨ps.length, Nat.lt_succ_self _, ?_, ?_⟩⟩
    · intro j hj
      apply decide_eq_true
      rcases Nat.lt_or_eq_of_le hj with hj | rfl
      · exact hbefore j hj
      · rw [hstate]
        exact hlt
    · rw [hstate]
      exact (hround ps q true).2 hmem

/-- The checksum is over the bytes of the table. -/
theorem sum_inside {m : Mem} {conf a : Nat}
    (h : a ∈ (sum conf ((confLength conf).val m)).addrs m) : InTable m conf a := by
  rw [sum_addrs, List.mem_map] at h
  obtain ⟨i, hi, rfl⟩ := h
  have hlt := List.mem_range.1 hi
  exact ⟨Nat.le_add_right conf i, Nat.add_lt_add_left hlt conf⟩

/-- What `mpinit` reads behind `mpconfig`. -/
theorem parse_inside_iff (m : Mem) (conf : Nat) (g : Globals) :
    (∀ fuel, ∀ a ∈ (parse fuel g conf).addrs m, InTable m conf a) ↔
      40 ≤ (confLength conf).val m ∧
        ∀ ps q, Visits m conf ps q → q < tableEnd m conf → LooksBehind m g ps q →
          q + 1 < tableEnd m conf := by
  have hend : tableEnd m conf = conf + (confLength conf).val m := rfl
  constructor
  · intro hown
    constructor
    · have hlast := hown 0 (conf + 39) (mem_parse_addrs.2 (Or.inl (by omega)))
      unfold InTable at hlast
      omega
    · intro ps q hvisits hlt hbehind
      obtain ⟨fuel, hread⟩ := mem_loop_addrs.2 ⟨ps, q, hvisits, hlt, Or.inr ⟨rfl, hbehind⟩⟩
      exact (hown fuel (q + 1) (mem_parse_addrs.2 (Or.inr (Or.inr hread)))).2
  · intro hcond fuel a ha
    obtain ⟨hlength, hbehind⟩ := hcond
    rcases mem_parse_addrs.1 ha with ha | ha | ha
    · exact ⟨by omega, by omega⟩
    · exact ⟨by omega, by omega⟩
    · obtain ⟨ps, q, hvisits, hlt, hread⟩ := mem_loop_addrs.1 ⟨fuel, ha⟩
      have hlow := (Walks.length_le hvisits).1
      unfold sizeofMpconf at hlow
      rcases hread with rfl | ⟨rfl, hlook⟩
      · exact ⟨by omega, hlt⟩
      · exact ⟨by omega, hbehind ps q hvisits hlt hlook⟩

/-- `mpconfig`'s checksum and `mpinit` read inside the table exactly when the
length covers the field `lapicaddr`, and the last byte of the table is not the
type of an entry whose second byte is looked at. -/
theorem mpinit_inside_iff (m : Mem) (g : Globals) :
    ((∀ a ∈ (sum (mpconfig.val m) ((confLength (mpconfig.val m)).val m)).addrs m,
        InTable m (mpconfig.val m) a) ∧
      ∀ fuel, ∃ own, (mpinit fuel g).addrs m = mpconfig.addrs m ++ own ∧
        ∀ a ∈ own, InTable m (mpconfig.val m) a) ↔
      40 ≤ (confLength (mpconfig.val m)).val m ∧
        ∀ ps q, Visits m (mpconfig.val m) ps q → q < tableEnd m (mpconfig.val m) →
          LooksBehind m g ps q → q + 1 < tableEnd m (mpconfig.val m) := by
  have haddrs : ∀ fuel, (mpinit fuel g).addrs m
      = mpconfig.addrs m ++ (parse fuel g (mpconfig.val m)).addrs m := by
    intro fuel
    rw [mpinit_eq_parse, addrs_bind]
  rw [← parse_inside_iff]
  constructor
  · intro hinside fuel a ha
    obtain ⟨own, heq, hown⟩ := hinside.2 fuel
    rw [haddrs] at heq
    exact hown a (List.append_cancel_left heq ▸ ha)
  · intro hown
    exact ⟨fun a ha => sum_inside ha, fun fuel => ⟨_, haddrs fuel, hown fuel⟩⟩

/-- A table of length 0 is accepted, and `lapic` is read behind it. -/
theorem mpinit_reads_outside_zeroLength :
    mpconfig.val (romTable 0 0 []) = 0xf0010 ∧
      0xf0034 ∈ (mpinit 1 .start).addrs (romTable 0 0 []) ∧
      0xf0034 ∉ mpconfig.addrs (romTable 0 0 []) ∧
      ¬ InTable (romTable 0 0 []) 0xf0010 0xf0034 := by
  have hconf : mpconfig.val (romTable 0 0 []) = 0xf0010 := by decide +kernel
  refine ⟨hconf, ?_, by decide +kernel, fun hinside => ?_⟩
  · rw [mpinit_eq_parse, addrs_bind, hconf]
    exact List.mem_append_right _ (mem_parse_addrs.2 (Or.inl (by decide)))
  · have hend : tableEnd (romTable 0 0 []) 0xf0010 = 0xf0010 := by decide +kernel
    have hlt := hinside.2
    omega

end HyperBench.Mp
