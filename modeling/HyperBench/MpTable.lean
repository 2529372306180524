import HyperBench.Mp

/-!
# Well-formed configuration tables

`Serialised m conf es` says that memory holds the entries `es` behind a header
at `conf`, with the length, the version and the checksum that belong to them,
and that the floating pointer structure points there.  `mpinit_exact` is the
decoder: `mpinit` sets its variables to what the entries say, and nothing
else.
-/

namespace HyperBench.Mp

open ByteMem Reads Ascii Smp

/-! ## The checks -/

/-- The three checks that a table at `conf` passes. -/
theorem checkConf_accepts {m : Mem} {conf : Nat} (hsig : Holds m conf (ascii "PCMP"))
    (hversion : m (conf + 6) = 1 ∨ m (conf + 6) = 4)
    (hsum : byteSum m conf (load m (conf + 4) 2) % 256 = 0) : (checkConf conf).val m = conf := by
  have hknown : ¬ (m (conf + 6) ≠ 1 ∧ m (conf + 6) ≠ 4) := by tauto
  rw [checkConf, val_bind, if_neg (not_not.2 (memcmp_val_eq_zero_iff.2 hsig)), val_bind, val_byte,
    if_neg hknown, val_bind, val_bind, confLength, val_field,
    if_neg (not_not.2 (sum_val_eq_zero_iff.2 hsum)), val_pure]

/-- A table whose bytes do not add up to 0 fails, whatever else it is. -/
theorem checkConf_rejects {m : Mem} {conf : Nat}
    (hsum : byteSum m conf (load m (conf + 4) 2) % 256 ≠ 0) : (checkConf conf).val m = 0 := by
  rw [checkConf, val_bind, val_ite]
  split
  · rfl
  · rw [val_bind, val_ite]
    split
    · rfl
    · rw [val_bind, val_bind, confLength, val_field, if_pos fun h => hsum (sum_val_eq_zero_iff.1 h),
        val_pure]

/-! ## The decoder -/

/-- Memory holds the table of the entries `es` at `conf`. -/
structure Serialised (m : Mem) (conf : Nat) (es : List Entry) : Prop where
  pointer : mpsearch.val m ≠ 0
  physaddr : load m (mpsearch.val m + 4) 4 = conf
  ne_null : conf ≠ 0
  signature : Holds m conf (ascii "PCMP")
  version : m (conf + 6) = 1 ∨ m (conf + 6) = 4
  length_eq : load m (conf + 4) 2 = sizeofMpconf + (es.flatMap Entry.bytes).length
  checksum : byteSum m conf (load m (conf + 4) 2) % 256 = 0
  entries : Holds m (conf + sizeofMpconf) (es.flatMap Entry.bytes)

/-- `mpconfig` accepts such a table. -/
theorem Serialised.tableAt {m : Mem} {conf : Nat} {es : List Entry} (h : Serialised m conf es) :
    TableAt m conf es := by
  refine ⟨?_, h.ne_null, h.length_eq, h.entries⟩
  have hphys : ¬ (mpsearch.val m = 0 ∨ load m (mpsearch.val m + 4) 4 = 0) := by
    rw [h.physaddr]
    exact not_or.2 ⟨h.pointer, h.ne_null⟩
  rw [mpconfig_val, if_neg hphys, h.physaddr]
  exact checkConf_accepts h.signature h.version h.checksum

def Entry.apicno? : Entry → Option UInt8
  | ioapic apicno _ => some apicno
  | _ => none

theorem lapic_table (es : List Entry) (g : Globals) :
    (es.foldl (fun g e => e.effect g) g).lapic = g.lapic := by
  induction es generalizing g with
  | nil => rfl
  | cons e es ih =>
    rw [List.foldl_cons, ih]
    cases e with
    | proc apicid rest =>
      show (g.addCpu apicid).lapic = g.lapic
      unfold Globals.addCpu
      split <;> rfl
    | bus rest | ioapic _ rest | iointr rest | lintr rest => rfl

/-- The last I/O APIC entry counts. -/
theorem ioapicid_table (es : List Entry) (g : Globals) :
    (es.foldl (fun g e => e.effect g) g).ioapicid
      = (es.filterMap Entry.apicno?).getLast?.getD g.ioapicid := by
  induction es generalizing g with
  | nil => rfl
  | cons e es ih =>
    rw [List.foldl_cons, ih]
    cases e with
    | proc apicid rest =>
      show _ = (es.filterMap Entry.apicno?).getLast?.getD g.ioapicid
      have hsame : (g.addCpu apicid).ioapicid = g.ioapicid := by
        unfold Globals.addCpu
        split <;> rfl
      exact congrArg _ hsame
    | ioapic apicno rest =>
      show (es.filterMap Entry.apicno?).getLast?.getD apicno
        = (apicno :: es.filterMap Entry.apicno?).getLast?.getD g.ioapicid
      rw [List.getLast?_cons]
      rfl
    | bus rest | iointr rest | lintr rest => rfl

/-- `mpinit` on a well-formed table, from no processors on; and a table whose
bytes do not add up to 0 is not accepted. -/
theorem mpinit_exact :
    (∀ m conf es g fuel, Serialised m conf es → g.ncpu = 0 → es.length < fuel →
      ∃ g', (mpinit fuel g).val m = some g' ∧
        g'.ncpu = min NCPU (procIds es).length ∧
        (∀ i, i < g'.ncpu → (procIds es)[i]? = some (g'.cpus i).toNat) ∧
        (∀ i, g'.ncpu ≤ i → g'.cpus i = g.cpus i) ∧
        g'.ioapicid = (es.filterMap Entry.apicno?).getLast?.getD g.ioapicid ∧
        g'.lapic = load m (conf + 36) 4) ∧
    ∀ m conf, load m (mpsearch.val m + 4) 4 = conf →
      byteSum m conf (load m (conf + 4) 2) % 256 ≠ 0 → mpconfig.val m = 0 := by
  constructor
  · intro m conf es g fuel hser hncpu hfuel
    let g₀ : Globals := { g with lapic := load m (conf + 36) 4 }
    have hids : (es.foldl (fun g e => e.effect g) g₀).apicids = (procIds es).take NCPU := by
      have hnone : g₀.apicids = [] := by
        rw [Globals.apicids, show g₀.ncpu = 0 from hncpu]
        rfl
      rw [apicids_table es (show g₀.ncpu ≤ NCPU by rw [show g₀.ncpu = 0 from hncpu]; decide), hnone,
        List.nil_append]
    refine ⟨_, mpinit_table hser.tableAt hfuel, ?_, ?_, ?_, ioapicid_table es g₀, lapic_table es g₀⟩
    · rw [← Globals.apicids_length, hids, List.length_take]
    · intro i hi
      have hget : (es.foldl (fun g e => e.effect g) g₀).apicids[i]?
          = some ((es.foldl (fun g e => e.effect g) g₀).cpus i).toNat := by
        rw [Globals.apicids, List.getElem?_map, List.getElem?_range hi]
        rfl
      rw [hids, List.getElem?_take] at hget
      split at hget
      · exact hget
      · cases hget
    · intro i hi
      exact cpus_unfilled es g₀ hi
  · intro m conf hphys hsum
    rw [mpconfig_val, hphys]
    split
    · rfl
    · exact checkConf_rejects hsum

/-- One processor and one I/O APIC. -/
def twoEntries : List Entry := [.proc 3 (Vector.replicate 18 0), .ioapic 5 (Vector.replicate 6 0)]

theorem serialised_twoEntries :
    Serialised (romTable 72 0x9c (twoEntries.flatMap Entry.bytes)) 0xf0010 twoEntries where
  pointer := by decide +kernel
  physaddr := by decide +kernel
  ne_null := by decide
  signature := memcmp_val_eq_zero_iff.1 (by decide +kernel)
  version := by decide +kernel
  length_eq := by decide +kernel
  checksum := by decide +kernel
  entries := holds_rom (romHeader 72 0x9c) _

theorem mpinit_exact_twoEntries :
    ∃ g', (mpinit 3 .start).val (romTable 72 0x9c (twoEntries.flatMap Entry.bytes)) = some g' ∧
      g'.ncpu = 1 ∧ (g'.cpus 0).toNat = 3 ∧ g'.cpus 1 = 0 ∧ g'.ioapicid = 5 := by
  obtain ⟨g', hrun, hncpu, hcpus, hother, hioapicid, _⟩ :=
    mpinit_exact.1 _ _ _ .start 3 serialised_twoEntries rfl (by decide)
  have hone : g'.ncpu = 1 := hncpu
  have hfirst : some 3 = some (g'.cpus 0).toNat := hcpus 0 (by omega)
  exact ⟨g', hrun, hone, (Option.some.inj hfirst).symm, hother 1 (by omega), hioapicid⟩

end HyperBench.Mp
