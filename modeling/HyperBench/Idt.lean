import HyperBench.ExceptionPath
import HyperBench.Lib.BitField
import HyperBench.Lib.ByteMem

/-!
# `boot_idt` as bytes

`set_idt_entry` writes the members of an `idt_entry_t` one after the other,
four of them as bit fields of one 16-bit word, and the processor reads the
sixteen bytes back when it delivers an interrupt.  `setup_idt` and `smp_init`
are the two functions that fill the table.

* `entryAt_setIdtEntry` is the round trip of one entry.
* `tables_setupIdt` says that `setup_idt` on bytes refines the `setup_idt` on
  tables, through which the exceptions are followed.
* `idt_after_calls` is the table behind any number of calls.
-/

namespace HyperBench.Idt

open ByteMem BitField Loop Function
open Exception (IdtEntry Image Tables Handler idtHandlers)

/-! ## One entry -/

/-- An assignment to a bit field of the word at offset 4. -/
def setBits (m : Mem) (e s w v : Nat) : Mem :=
  store m (e + 4) 2 (insert (load m (e + 4) 2) s w v)

/-- `set_idt_entry`, where `cs` is what `read_cs` answers. -/
def setIdtEntry (m : Mem) (bootIdt vec : Nat) (addr : UInt64) (cs : UInt16) (dpl : Int) : Mem :=
  let e := bootIdt + 16 * vec
  let m := fill m e 16 0
  let m := store m e 2 addr.toNat
  let m := store m (e + 2) 2 cs.toNat
  let m := setBits m e 0 3 0
  let m := setBits m e 8 4 14
  -- the conversion of an `int` to the two bits of the field
  let m := setBits m e 13 2 (dpl % 4).toNat
  let m := setBits m e 15 1 1
  let m := store m (e + 6) 2 (addr.toNat >>> 16)
  store m (e + 8) 4 (addr.toNat >>> 32)

/-- The entry that the processor reads at `e`. -/
def entryAt (m : Mem) (e : Nat) : IdtEntry where
  offset0 := UInt16.ofNat (load m e 2)
  selector := UInt16.ofNat (load m (e + 2) 2)
  ist := ⟨extract (load m (e + 4) 2) 0 3, extract_lt _ 0 3⟩
  type := ⟨extract (load m (e + 4) 2) 8 4, extract_lt _ 8 4⟩
  dpl := ⟨extract (load m (e + 4) 2) 13 2, extract_lt _ 13 2⟩
  p := ⟨extract (load m (e + 4) 2) 15 1, extract_lt _ 15 1⟩
  offset1 := UInt16.ofNat (load m (e + 6) 2)
  offset2 := UInt32.ofNat (load m (e + 8) 4)

/-- The privilege level that an `int` becomes in the field. -/
def dplOf (dpl : Int) : Fin 4 := ⟨(dpl % 4).toNat, by omega⟩

section Entry

variable {m : Mem} {e a k s w v : Nat}

theorem load_setBits_of_disjoint (h : e + 6 ≤ a ∨ a + k ≤ e + 4) :
    load (setBits m e s w v) a k = load m a k :=
  load_store_of_disjoint (by omega)

theorem load_setBits (h : s + w ≤ 16) :
    load (setBits m e s w v) (e + 4) 2 = insert (load m (e + 4) 2) s w v := by
  have hlt : load m (e + 4) 2 < 2 ^ 16 := load_lt m (e + 4) 2
  rw [setBits, load_store_same]
  exact Nat.mod_eq_of_lt (insert_lt hlt h v)

/-- The word of the bit fields that `set_idt_entry` leaves. -/
def flagsWord (dpl : Nat) : Nat := insert (insert (insert (insert 0 0 3 0) 8 4 14) 13 2 dpl) 15 1 1

theorem load_setIdtEntry (m : Mem) (bootIdt vec : Nat) (addr : UInt64) (cs : UInt16) (dpl : Int) :
    let m' := setIdtEntry m bootIdt vec addr cs dpl
    let e := bootIdt + 16 * vec
    load m' e 2 = addr.toNat % 2 ^ 16 ∧ load m' (e + 2) 2 = cs.toNat % 2 ^ 16 ∧
      load m' (e + 4) 2 = flagsWord (dpl % 4).toNat ∧
      load m' (e + 6) 2 = addr.toNat >>> 16 % 2 ^ 16 ∧
      load m' (e + 8) 4 = addr.toNat >>> 32 % 2 ^ 32 := by
  dsimp only [setIdtEntry]
  generalize bootIdt + 16 * vec = e
  refine ⟨?_, ?_, ?_, ?_, ?_⟩
  · rw [load_store_of_disjoint (by omega), load_store_of_disjoint (by omega),
      load_setBits_of_disjoint (by omega), load_setBits_of_disjoint (by omega),
      load_setBits_of_disjoint (by omega), load_setBits_of_disjoint (by omega),
      load_store_of_disjoint (by omega), load_store_same]
    rfl
  · rw [load_store_of_disjoint (by omega), load_store_of_disjoint (by omega),
      load_setBits_of_disjoint (by omega), load_setBits_of_disjoint (by omega),
      load_setBits_of_disjoint (by omega), load_setBits_of_disjoint (by omega), load_store_same]
    rfl
  · rw [load_store_of_disjoint (by omega), load_store_of_disjoint (by omega),
      load_setBits (by decide), load_setBits (by decide), load_setBits (by decide),
      load_setBits (by decide), load_store_of_disjoint (by omega),
      load_store_of_disjoint (by omega), load_fill_zero (by omega) (by omega)]
    rfl
  · rw [load_store_of_disjoint (by omega), load_store_same]
    rfl
  · rw [load_store_same]
    rfl

theorem extract_flagsWord (dpl : Nat) :
    extract (flagsWord dpl) 0 3 = 0 ∧ extract (flagsWord dpl) 8 4 = 14 ∧
      extract (flagsWord dpl) 13 2 = dpl % 4 ∧ extract (flagsWord dpl) 15 1 = 1 := by
  unfold flagsWord
  refine ⟨?_, ?_, ?_, ?_⟩
  · rw [extract_insert_of_disjoint (by omega), extract_insert_of_disjoint (by omega),
      extract_insert_of_disjoint (by omega), extract_insert_same]
    rfl
  · rw [extract_insert_of_disjoint (by omega), extract_insert_of_disjoint (by omega),
      extract_insert_same]
    rfl
  · rw [extract_insert_of_disjoint (by omega), extract_insert_same]
    rfl
  · rw [extract_insert_same]
    rfl

/-- The processor reads the gate that `set_idt_entry` was called for. -/
theorem entryAt_setIdtEntry (m : Mem) (bootIdt vec : Nat) (addr : UInt64) (cs : UInt16)
    (dpl : Int) :
    entryAt (setIdtEntry m bootIdt vec addr cs dpl) (bootIdt + 16 * vec)
      = Exception.setIdtEntry cs addr (dplOf dpl) := by
  obtain ⟨hoffset0, hselector, hflags, hoffset1, hoffset2⟩ :=
    load_setIdtEntry m bootIdt vec addr cs dpl
  obtain ⟨hist, htype, hdpl, hp⟩ := extract_flagsWord (dpl % 4).toNat
  unfold entryAt Exception.setIdtEntry
  simp only [hoffset0, hselector, hflags, hoffset1, hoffset2, hist, htype, hdpl, hp]
  congr 1
  · rw [← UInt16.toNat_inj]
    simp
  · rw [← UInt16.toNat_inj]
    simp
  · rw [Fin.ext_iff]
    show (dpl % 4).toNat % 4 = (dpl % 4).toNat
    omega
  · rw [← UInt16.toNat_inj]
    simp
  · rw [← UInt32.toNat_inj]
    simp

/-- Nothing else is written. -/
theorem setIdtEntry_of_outside {bootIdt vec x : Nat} (h : x < bootIdt + 16 * vec ∨
    bootIdt + 16 * vec + 16 ≤ x) (m : Mem) (addr : UInt64) (cs : UInt16) (dpl : Int) :
    setIdtEntry m bootIdt vec addr cs dpl x = m x := by
  dsimp only [setIdtEntry, setBits]
  iterate 8 rw [store_apply_of_outside (by omega)]
  exact fill_apply_of_outside h

end Entry

/-! ## The table -/

/-- The table at `bootIdt`. -/
def table (m : Mem) (bootIdt vec : Nat) : IdtEntry := entryAt m (bootIdt + 16 * vec)

theorem entryAt_congr {m m' : Mem} {e : Nat} (h : ∀ x, e ≤ x → x < e + 16 → m x = m' x) :
    entryAt m e = entryAt m' e := by
  have hload : ∀ i k, i + k ≤ 16 → load m (e + i) k = load m' (e + i) k :=
    fun i k hik => load_congr fun x hx hx' => h x (by omega) (by omega)
  have hfirst : load m e 2 = load m' e 2 := hload 0 2 (by decide)
  simp only [entryAt, hfirst, hload 2 2 (by decide), hload 4 2 (by decide), hload 6 2 (by decide),
    hload 8 4 (by decide)]

/-- On the table `set_idt_entry` is an update. -/
theorem table_setIdtEntry (m : Mem) (bootIdt vec : Nat) (addr : UInt64) (cs : UInt16) (dpl : Int) :
    table (setIdtEntry m bootIdt vec addr cs dpl) bootIdt
      = update (table m bootIdt) vec (Exception.setIdtEntry cs addr (dplOf dpl)) := by
  funext v
  by_cases hv : v = vec
  · rw [hv, update_self]
    exact entryAt_setIdtEntry m bootIdt vec addr cs dpl
  · rw [update_of_ne hv]
    exact entryAt_congr fun x hx hx' => setIdtEntry_of_outside (by omega) m addr cs dpl

/-! ## The functions that fill it -/

def IPI_VECTOR : Nat := 0x20

/-- What the linker and `read_cs` give. -/
structure Kernel where
  stubs : Image
  /-- `&ipi_entry` -/
  ipiEntry : UInt64
  /-- `boot_idt` -/
  bootIdt : Nat
  cs : UInt16

/-- The static data of `desc.c`, with the table as bytes, and the register that
`lidt` loads. -/
structure State where
  mem : Mem
  /-- `exception_handlers` -/
  handlers : Nat → Option Handler
  /-- `idt_initialized` -/
  initialized : Bool
  /-- The base and the limit. -/
  idtr : Nat × UInt16

/-- The data as the exceptions see it. -/
def State.tables (k : Kernel) (s : State) : Tables :=
  ⟨table s.mem k.bootIdt, s.handlers, s.initialized⟩

def handleException (v : Nat) (fn : Handler) (s : State) : State :=
  { s with handlers := update s.handlers v (some fn) }

/-- The body of the loop of `setup_idt`. -/
def setStub (k : Kernel) (i : Nat) (m : Mem) : Mem :=
  match idtHandlers i with
  | some stub => setIdtEntry m k.bootIdt i (k.stubs.address stub) k.cs 0
  | none => m

def setupIdt (k : Kernel) (s : State) : State :=
  if s.initialized then s
  else
    let s := { s with initialized := true, mem := forUpTo (setStub k) 32 s.mem }
    let s := handleException 0 .checkExceptionTable s
    let s := handleException 6 .checkExceptionTable s
    let s := handleException 13 .checkExceptionTable s
    -- `lidt(boot_idt, sizeof(boot_idt))`
    { s with idtr := (k.bootIdt, 4096) }

def smpInit (k : Kernel) (s : State) : State :=
  let s := setupIdt k s
  { s with mem := setIdtEntry s.mem k.bootIdt IPI_VECTOR k.ipiEntry k.cs 0 }

inductive Call where
  | setupIdt
  | smpInit
  deriving DecidableEq, Repr

def Call.run (k : Kernel) (s : State) : Call → State
  | .setupIdt => Idt.setupIdt k s
  | .smpInit => Idt.smpInit k s

def runCalls (k : Kernel) (s : State) (calls : List Call) : State := calls.foldl (Call.run k) s

section Calls

variable {k : Kernel} {s : State}

theorem setStub_of_outside {i x : Nat} (hi : i < 256)
    (hx : x < k.bootIdt ∨ k.bootIdt + 4096 ≤ x) (m : Mem) : setStub k i m x = m x := by
  rw [setStub]
  cases idtHandlers i with
  | some stub => exact setIdtEntry_of_outside (by omega) _ _ _ _
  | none => rfl

/-- The loop of `setup_idt` and a loop over tables that does the same. -/
theorem table_setStub {f : Nat → (Nat → IdtEntry) → Nat → IdtEntry}
    (hsome : ∀ i stub idt, idtHandlers i = some stub →
      f i idt = update idt i (Exception.setIdtEntry k.cs (k.stubs.address stub) 0))
    (hnone : ∀ i idt, idtHandlers i = none → f i idt = idt) (n : Nat) (m : Mem) :
    table (forUpTo (setStub k) n m) k.bootIdt = forUpTo f n (table m k.bootIdt) := by
  refine forUpTo_rule (fun i t => table t k.bootIdt = forUpTo f i (table m k.bootIdt)) rfl ?_
  intro i t _ ht
  rw [forUpTo_succ, ← ht, setStub]
  cases hi : idtHandlers i with
  | none => rw [hnone i _ hi]
  | some stub =>
    rw [hsome i stub _ hi]
    exact table_setIdtEntry t k.bootIdt i _ k.cs 0

/-- On tables, `setup_idt` is the one that the exceptions were followed
through. -/
theorem tables_setupIdt (k : Kernel) (s : State) :
    (setupIdt k s).tables k = Exception.setupIdt k.stubs k.cs (s.tables k) := by
  unfold setupIdt Exception.setupIdt
  by_cases hs : s.initialized = true
  · rw [if_pos hs, if_pos (show (s.tables k).initialized = true from hs)]
  rw [if_neg hs, if_neg (show ¬ (s.tables k).initialized = true from hs)]
  simp only [State.tables, handleException, Exception.handleException]
  congr 1
  refine table_setStub ?_ ?_ 32 s.mem
  · intro i stub idt hi
    rw [hi]
  · intro i idt hi
    rw [hi]

theorem setupIdt_of_outside {x : Nat} (hx : x < k.bootIdt ∨ k.bootIdt + 4096 ≤ x) (s : State) :
    (setupIdt k s).mem x = s.mem x := by
  unfold setupIdt
  split
  · rfl
  · refine forUpTo_rule (fun _ (m : Mem) => m x = s.mem x) rfl fun i m hi hm => ?_
    rw [setStub_of_outside (by omega) hx, hm]

theorem initialized_setupIdt (k : Kernel) (s : State) : (setupIdt k s).initialized = true := by
  unfold setupIdt
  split
  · assumption
  · rfl

theorem setupIdt_eq_self (hs : s.initialized = true) : setupIdt k s = s := by
  rw [setupIdt, if_pos hs]

/-- A call keeps the bytes around the table. -/
theorem Call.run_of_outside {x : Nat} (hx : x < k.bootIdt ∨ k.bootIdt + 4096 ≤ x) (c : Call)
    (s : State) : (c.run k s).mem x = s.mem x := by
  cases c with
  | setupIdt => exact setupIdt_of_outside hx s
  | smpInit =>
    refine Eq.trans (setIdtEntry_of_outside ?_ _ _ _ _) (setupIdt_of_outside hx s)
    unfold IPI_VECTOR
    omega

/-- The tables with the gate of the interprocessor interrupt. -/
def withIpi (k : Kernel) (t : Tables) : Tables :=
  { t with idt := update t.idt IPI_VECTOR (Exception.setIdtEntry k.cs k.ipiEntry (dplOf 0)) }

theorem withIpi_withIpi (k : Kernel) (t : Tables) : withIpi k (withIpi k t) = withIpi k t := by
  simp only [withIpi, update_idem]

theorem tables_smpInit (k : Kernel) (s : State) :
    (smpInit k s).tables k = withIpi k ((setupIdt k s).tables k) := by
  have htable := table_setIdtEntry (setupIdt k s).mem k.bootIdt IPI_VECTOR k.ipiEntry k.cs 0
  simp only [smpInit, State.tables, htable, withIpi]

/-- Behind the first call, `setup_idt` does nothing, and `smp_init` writes its
gate again. -/
theorem tables_of_initialized (hs : s.initialized = true) (calls : List Call) :
    (runCalls k s calls).tables k
      = if .smpInit ∈ calls then withIpi k (s.tables k) else s.tables k := by
  induction calls generalizing s with
  | nil => rfl
  | cons c calls ih =>
    cases c with
    | setupIdt =>
      have hrun : runCalls k s (.setupIdt :: calls) = runCalls k s calls :=
        congrArg (runCalls k · calls) (setupIdt_eq_self hs)
      rw [hrun, ih hs]
      simp
    | smpInit =>
      have hinit : (smpInit k s).initialized = true := initialized_setupIdt k s
      have htables : (smpInit k s).tables k = withIpi k (s.tables k) := by
        rw [tables_smpInit, setupIdt_eq_self hs]
      have hrun := ih hinit
      rw [htables, withIpi_withIpi, ite_self] at hrun
      rw [if_pos List.mem_cons_self]
      exact hrun

/-- The register is loaded by the first call only. -/
theorem idtr_runCalls (hs : s.initialized = true) (calls : List Call) :
    (runCalls k s calls).idtr = s.idtr := by
  induction calls generalizing s with
  | nil => rfl
  | cons c calls ih =>
    have hc : (c.run k s).initialized = true ∧ (c.run k s).idtr = s.idtr := by
      cases c with
      | setupIdt | smpInit =>
        simp only [Call.run, smpInit, setupIdt_eq_self hs, hs, and_self]
    exact (ih hc.1).trans hc.2

/-- The table behind any calls of `setup_idt` and `smp_init`, in any order: what
one call of `setup_idt` leaves, and the gate of the interprocessor interrupt
when there was an `smp_init`.  The register has all 256 entries of the table,
and the bytes around the table are kept. -/
theorem idt_after_calls (k : Kernel) {s : State} (hs : s.initialized = false) {calls : List Call}
    (hne : calls ≠ []) :
    (runCalls k s calls).tables k = (if .smpInit ∈ calls then withIpi k else id)
        (Exception.setupIdt k.stubs k.cs (s.tables k)) ∧
      (runCalls k s calls).idtr = (k.bootIdt, 4096) ∧
      ∀ x, x < k.bootIdt ∨ k.bootIdt + 4096 ≤ x → (runCalls k s calls).mem x = s.mem x := by
  refine ⟨?_, ?_, ?_⟩
  · cases calls with
    | nil => exact absurd rfl hne
    | cons c calls =>
      rw [← tables_setupIdt]
      cases c with
      | setupIdt =>
        refine (tables_of_initialized (initialized_setupIdt k s) calls).trans ?_
        by_cases hc : Call.smpInit ∈ calls <;> simp [hc]
      | smpInit =>
        have hinit : (smpInit k s).initialized = true := initialized_setupIdt k s
        refine (tables_of_initialized hinit calls).trans ?_
        rw [tables_smpInit, withIpi_withIpi, ite_self, if_pos List.mem_cons_self]
  · have hidtr : (setupIdt k s).idtr = (k.bootIdt, 4096) := by
      rw [setupIdt, hs]
      rfl
    cases calls with
    | nil => exact absurd rfl hne
    | cons c calls =>
      have hc : (c.run k s).initialized = true ∧ (c.run k s).idtr = (k.bootIdt, 4096) := by
        cases c with
        | setupIdt | smpInit => exact ⟨initialized_setupIdt k s, hidtr⟩
      exact (idtr_runCalls hc.1 calls).trans hc.2
  · intro x hx
    clear hne hs
    induction calls generalizing s with
    | nil => rfl
    | cons c calls ih => exact ih.trans (c.run_of_outside hx s)

end Calls

/-- `smp_init` twice, from a table of zeros. -/
theorem idt_after_calls_twice : ∃ (k : Kernel) (s : State),
    ((runCalls k s [.smpInit, .smpInit]).tables k).idt IPI_VECTOR
      = Exception.setIdtEntry 8 0x401000 0 ∧
    ((runCalls k s [.smpInit, .smpInit]).tables k).idt 6
      = Exception.setIdtEntry 8 (Exception.stubsInOrder.address .ud) 0 := by
  let k : Kernel := ⟨Exception.stubsInOrder, 0x401000, 0x500000, 8⟩
  let s : State := ⟨fun _ => 0, fun _ => none, false, (0, 0)⟩
  have hne : [Call.smpInit, .smpInit] ≠ [] := by decide
  have hud : idtHandlers 6 = some .ud := rfl
  have h := (idt_after_calls k (s := s) rfl hne).1
  refine ⟨k, s, ?_, ?_⟩
  · rw [h]
    rfl
  · rw [h]
    exact Exception.setupIdt_idt k.stubs 8 (t := s.tables k) rfl hud

end HyperBench.Idt
