import HyperBench.Apic

/-!
# Sequences of calls to `x86_64/apic.c`

`Spec` is what the calls are for: one device, that is on or off, without
interfaces.  `driver_refines` compares any sequence of the calls that both
interfaces have (`Call.Allowed`) with it, through either interface and with
changes of mode in between.
-/

namespace HyperBench.Apic

open Smp (Mode)

variable {σ : Type} (D : Device σ)

/-! ## Calls -/

inductive Call where
  | read (reg : Nat)
  | write (reg : Nat) (val : UInt32)
  | readBit (reg n : Nat)
  | icrWrite (val dest : UInt32)
  | id
  | eoi
  | enableX2apic
  | disableApic
  | resetApic
  deriving DecidableEq, Repr

/-- A call and what it returns.  A function without a result returns zero. -/
def exec (x2apic : Bool) (fuel : Nat) : Call → State σ → Except Stop (UInt32 × State σ)
  | .read reg, s => do
    let (v, c) ← apicRead D s.ops reg s.chip
    return (v, { s with chip := c })
  | .write reg val, s => do
    let c ← apicWrite D s.ops reg val s.chip
    return (0, { s with chip := c })
  | .readBit reg n, s => do
    let (b, c) ← apicReadBit D s.ops reg n s.chip
    return (b.toUInt32, { s with chip := c })
  | .icrWrite val dest, s => do
    let c ← apicIcrWrite D fuel s.ops val dest s.chip
    return (0, { s with chip := c })
  | .id, s => do
    let (v, c) ← apicId D s.ops s.chip
    return (v, { s with chip := c })
  | .eoi, s => do
    let c ← apicWrite D s.ops APIC_EOI 0 s.chip
    return (0, { s with chip := c })
  | .enableX2apic, s => enableX2apic D x2apic s
  | .disableApic, s => do
    let s ← disableApic D s
    return (0, s)
  | .resetApic, s => do
    let s ← resetApic D s
    return (0, s)

/-- The calls in turn, with the list of what they return. -/
def run {τ : Type} (step : Call → τ → Except Stop (UInt32 × τ)) :
    List Call → τ → Except Stop (List UInt32 × τ)
  | [], s => .ok ([], s)
  | call :: calls, s => do
    let (v, s) ← step call s
    let (vs, s) ← run step calls s
    return (v :: vs, s)

/-! ## The device that the calls are for -/

/-- A local APIC without interfaces. -/
@[ext]
structure Spec (σ : Type) where
  mode : Option Mode
  id : UInt32
  core : σ

namespace Spec

/-- The registers when the APIC is switched off. -/
def off (s : Spec σ) : σ := if s.mode = none then s.core else D.reset s.core

/-- What a call is for.  An APIC that is switched off answers all ones, and a
command never leaves it. -/
def exec (x2apic : Bool) : Call → Spec σ → Except Stop (UInt32 × Spec σ)
  | .read reg, s =>
    if s.mode = none then .ok (0xffffffff, s)
    else .ok ((D.read reg s.core).1, { s with core := (D.read reg s.core).2 })
  | .write reg val, s =>
    if s.mode = none then .ok (0, s) else .ok (0, { s with core := D.write reg val s.core })
  | .readBit reg n, s =>
    if s.mode = none then .ok (1, s)
    else
      .ok (((D.read (reg + 16 * (n / 32)) s.core).1.toNat.testBit (n % 32)).toUInt32,
        { s with core := (D.read (reg + 16 * (n / 32)) s.core).2 })
  | .icrWrite val dest, s =>
    if s.mode = none then .error .spinning
    else .ok (0, { s with core := D.command val dest s.core })
  | .id, s => .ok (if s.mode = none then 0xff else s.id, s)
  | .eoi, s =>
    if s.mode = none then .ok (0, s) else .ok (0, { s with core := D.write APIC_EOI 0 s.core })
  | .enableX2apic, s =>
    if x2apic then
      match s.mode with
      | none => .error .protection
      | some .xapic => .ok (1, { s with mode := some .x2apic, core := D.extend s.core })
      | some .x2apic => .ok (1, s)
    else .ok (0, s)
  | .disableApic, s => .ok (0, { s with mode := none, core := s.off D })
  | .resetApic, s => .ok (0, { s with mode := some .xapic, core := s.off D })

end Spec

/-! ## The driver and the device -/

namespace State

/-- `apic_ops` has the functions for the mode of the chip. -/
structure Matched (s : State σ) : Prop where
  ops : s.ops = s.chip.mode.getD .xapic
  id_lt : s.chip.id < 256

/-- What there is of a state without the interfaces. -/
def spec (s : State σ) : Spec σ := ⟨s.chip.mode, s.chip.id, s.chip.core⟩

end State

/-- The calls that both interfaces have: the register is not one that looks
different from the two sides and can be accessed as a model-specific one, and
the destination fits in a byte. -/
def Call.Allowed : Call → Prop
  | .read reg => Plain reg ∧ D.readable reg = true
  | .write reg val => Plain reg ∧ D.writable reg val = true
  | .readBit reg n => Plain (reg + 16 * (n / 32)) ∧ D.readable (reg + 16 * (n / 32)) = true
  | .icrWrite _ dest => dest < 256
  | .eoi => D.writable APIC_EOI 0 = true
  | _ => True

/-- The answer of the driver and the answer of the device. -/
inductive Answers : Except Stop (UInt32 × State σ) → Except Stop (UInt32 × Spec σ) → Prop where
  | ok {v : UInt32} {s : State σ} (h : s.Matched) : Answers (.ok (v, s)) (.ok (v, s.spec))
  | error (e : Stop) : Answers (.error e) (.error e)

section Calls

variable {D} {s : State σ} {x2apic : Bool} {call : Call}

/-- The mode is off and `apic_ops` has the functions of the page, or
`apic_ops` has those of the mode. -/
theorem State.Matched.cases (h : s.Matched) :
    s.spec.mode = none ∧ s.ops = .xapic ∨ s.spec.mode = some s.ops := by
  have hops : s.ops = s.spec.mode.getD .xapic := h.ops
  rcases hm : s.spec.mode with _ | m
  · exact Or.inl ⟨rfl, by rw [hops, hm]; rfl⟩
  · exact Or.inr (by rw [hops, hm]; rfl)

/-- A call that changes only the registers. -/
theorem State.Matched.core (h : s.Matched) {c : Chip σ} (hbase : c.base = s.chip.base)
    (hid : c.id = s.chip.id) : Matched { s with chip := c } where
  ops := h.ops.trans (congrArg (fun b => (modeOf b).getD .xapic) hbase.symm)
  id_lt := by
    rw [hid]
    exact h.id_lt

theorem answers_ok {r : Except Stop (UInt32 × State σ)} {spec : Except Stop (UInt32 × Spec σ)}
    {v : UInt32} {t : State σ} (hr : r = .ok (v, t)) (ht : t.Matched)
    (hspec : spec = .ok (v, t.spec)) : Answers r spec := by
  rw [hr, hspec]
  exact .ok ht

theorem answers_read {reg : Nat} (hs : s.Matched) (hreg : Plain reg)
    (hread : D.readable reg = true) (fuel : Nat) :
    Answers (exec D x2apic fuel (.read reg) s) (Spec.exec D x2apic (.read reg) s.spec) := by
  rcases hs.cases with ⟨hoff, hops⟩ | hon
  · refine answers_ok (v := 0xffffffff) (t := s) ?_ hs ?_
    · rw [exec, hops, apicRead_off hoff]
      rw [← hops]
      rfl
    · rw [Spec.exec, if_pos hoff]
  · refine answers_ok (v := (D.read reg s.chip.core).1)
      (t := { s with chip := { s.chip with core := (D.read reg s.chip.core).2 } }) ?_
      (hs.core rfl rfl) ?_
    · rw [exec, apicRead_eq hon hreg hread]
      rfl
    · rw [Spec.exec, if_neg (by simp [hon])]
      rfl

/-- A write to a register, which `eoi` is as well. -/
theorem answers_write {reg : Nat} {val : UInt32} (hs : s.Matched) (hreg : Plain reg)
    (hwrite : D.writable reg val = true) (fuel : Nat) :
    Answers (exec D x2apic fuel (.write reg val) s)
      (Spec.exec D x2apic (.write reg val) s.spec) := by
  rcases hs.cases with ⟨hoff, hops⟩ | hon
  · refine answers_ok (v := 0) (t := s) ?_ hs ?_
    · rw [exec, hops, apicWrite_off hoff]
      rw [← hops]
      rfl
    · rw [Spec.exec, if_pos hoff]
  · refine answers_ok (v := 0)
      (t := { s with chip := { s.chip with core := D.write reg val s.chip.core } }) ?_
      (hs.core rfl rfl) ?_
    · rw [exec, apicWrite_eq hon hreg hwrite]
      rfl
    · rw [Spec.exec, if_neg (by simp [hon])]
      rfl

theorem bit_offset (n : Nat) : (n >>> 5) <<< 4 = 16 * (n / 32) := by
  rw [Nat.shiftLeft_eq, Nat.shiftRight_eq_div_pow]
  omega

/-- The bit that `apic_read_bit` tests. -/
theorem and_bit (v : UInt32) (n : Nat) :
    decide (v &&& 1 <<< UInt32.ofNat (n &&& 31) ≠ 0) = v.toNat.testBit (n % 32) := by
  have hn : n &&& 31 = n % 32 := Nat.and_two_pow_sub_one_eq_mod n 5
  have hlt : n % 32 < 32 := Nat.mod_lt _ (by decide)
  have hshift : (1 <<< UInt32.ofNat (n % 32) : UInt32).toNat = 2 ^ (n % 32) := by
    rw [UInt32.toNat_shiftLeft, UInt32.toNat_ofNat', Nat.mod_eq_of_lt (by omega : n % 32 < 2 ^ 32),
      Nat.mod_mod, show (1 : UInt32).toNat = 1 from rfl, Nat.one_shiftLeft]
    exact Nat.mod_eq_of_lt (Nat.pow_lt_pow_right (by decide) hlt)
  have hzero : v &&& 1 <<< UInt32.ofNat (n % 32) = 0 ↔ v.toNat.testBit (n % 32) = false := by
    rw [← UInt32.toNat_inj, UInt32.toNat_and, hshift, Nat.and_two_pow]
    cases v.toNat.testBit (n % 32) <;> simp
  rw [hn]
  cases hbit : v.toNat.testBit (n % 32) with
  | false => simp [hzero.2 hbit]
  | true => simp [hzero, hbit]

theorem answers_readBit {reg n : Nat} (hs : s.Matched) (hreg : Plain (reg + 16 * (n / 32)))
    (hread : D.readable (reg + 16 * (n / 32)) = true) (fuel : Nat) :
    Answers (exec D x2apic fuel (.readBit reg n) s)
      (Spec.exec D x2apic (.readBit reg n) s.spec) := by
  rcases hs.cases with ⟨hoff, hops⟩ | hon
  · refine answers_ok (v := 1) (t := s) ?_ hs ?_
    · have hones : (0xffffffff : UInt32).toNat.testBit (n % 32) = true := by
        have hbit := Nat.testBit_two_pow_sub_one 32 (n % 32)
        rwa [decide_eq_true (Nat.mod_lt n (by decide))] at hbit
      rw [exec, apicReadBit, hops, apicRead_off hoff]
      simp only [bind, Except.bind, pure, Except.pure, and_bit, hones]
      rw [← hops]
      rfl
    · rw [Spec.exec, if_pos hoff]
  · refine answers_ok
      (v := ((D.read (reg + 16 * (n / 32)) s.chip.core).1.toNat.testBit (n % 32)).toUInt32)
      (t := { s with chip :=
        { s.chip with core := (D.read (reg + 16 * (n / 32)) s.chip.core).2 } }) ?_
      (hs.core rfl rfl) ?_
    · rw [exec, apicReadBit, bit_offset, apicRead_eq hon hreg hread]
      simp only [bind, Except.bind, pure, Except.pure, and_bit]
    · rw [Spec.exec, if_neg (by simp [hon])]
      rfl

theorem answers_icrWrite {val dest : UInt32} (hs : s.Matched) (hdest : dest < 256) : ∃ r,
    (∀ fuel, s.chip.busy + 1 ≤ fuel → exec D x2apic fuel (.icrWrite val dest) s = r) ∧
      Answers r (Spec.exec D x2apic (.icrWrite val dest) s.spec) := by
  rcases hs.cases with ⟨hoff, hops⟩ | hon
  · refine ⟨.error .spinning, fun fuel _ => ?_, ?_⟩
    · rw [exec, hops, apicIcrWrite_off hoff]
      rfl
    · rw [Spec.exec, if_pos hoff]
      exact .error _
  · refine ⟨.ok (0, { s with chip := sent D s.ops val dest s.chip }), fun fuel hfuel => ?_, ?_⟩
    · rw [exec, apicIcrWrite_eq hon hdest hfuel]
      rfl
    · rw [Spec.exec, if_neg (by simp [hon])]
      exact answers_ok rfl (hs.core rfl rfl) rfl

theorem answers_id (hs : s.Matched) (fuel : Nat) :
    Answers (exec D x2apic fuel .id s) (Spec.exec D x2apic .id s.spec) := by
  rcases hs.cases with ⟨hoff, hops⟩ | hon
  · refine answers_ok (v := 0xff) (t := s) ?_ hs ?_
    · rw [exec, hops, apicId_off hoff]
      rw [← hops]
      rfl
    · rw [Spec.exec, if_pos hoff]
  · refine answers_ok (v := s.chip.id) (t := s) ?_ hs ?_
    · rw [exec, apicId_eq hon hs.id_lt]
      rfl
    · rw [Spec.exec, if_neg (by simp [hon])]
      rfl

theorem answers_enableX2apic (hs : s.Matched) (fuel : Nat) :
    Answers (exec D x2apic fuel .enableX2apic s) (Spec.exec D x2apic .enableX2apic s.spec) := by
  cases x2apic with
  | false => exact .ok hs
  | true =>
    have hspec : s.spec.mode = s.chip.mode := rfl
    rw [exec, enableX2apic, if_pos rfl, setExtended_eq, Spec.exec, if_pos rfl, hspec]
    -- the extended mode, from either of the two
    have hextended : ∀ core : σ, s.chip.mode ≠ none →
        Answers (.ok (1, ⟨.x2apic, { s.chip with base := s.chip.base ||| APIC_EXTD, core := core }⟩))
          (.ok (1, { s.spec with mode := some .x2apic, core := core })) := by
      intro core hon
      refine answers_ok rfl ⟨?_, hs.id_lt⟩ ?_
      · exact (congrArg (·.getD Mode.xapic) (modeOf_or_extd hon)).symm
      · rw [← modeOf_or_extd hon]
        rfl
    rcases hm : s.chip.mode with _ | _ | _
    · exact .error _
    · exact hextended _ (by simp [hm])
    · have h := hextended s.chip.core (by simp [hm])
      rwa [show ({ s.spec with mode := some .x2apic, core := s.chip.core } : Spec σ) = s.spec from
        Spec.ext hm.symm rfl rfl] at h

theorem answers_disableApic (hs : s.Matched) (fuel : Nat) :
    Answers (exec D x2apic fuel .disableApic s) (Spec.exec D x2apic .disableApic s.spec) := by
  obtain ⟨_, hmode, hid, hcore⟩ := switchedOff_spec (D := D) s.chip
  refine answers_ok (v := 0) (t := ⟨.xapic, switchedOff D s.chip⟩) ?_ ⟨?_, ?_⟩ ?_
  · rw [exec, disableApic_eq]
    rfl
  · rw [hmode]
    rfl
  · rw [hid]
    exact hs.id_lt
  · have hspec : State.spec ⟨.xapic, switchedOff D s.chip⟩
        = { s.spec with mode := none, core := s.spec.off D } := Spec.ext hmode hid hcore
    rw [hspec]
    rfl

theorem answers_resetApic (hs : s.Matched) (fuel : Nat) :
    Answers (exec D x2apic fuel .resetApic s) (Spec.exec D x2apic .resetApic s.spec) := by
  obtain ⟨hbase, hmode, hid, hcore⟩ := switchedOff_spec (D := D) s.chip
  have hon : modeOf ((switchedOff D s.chip).base ||| APIC_EN) = some .xapic := by
    refine modeOf_or_en ?_
    rw [hbase]
    exact (testBit_and_off s.chip.base).2
  have hspec : State.spec ⟨.xapic,
      { switchedOff D s.chip with base := (switchedOff D s.chip).base ||| APIC_EN }⟩
      = { s.spec with mode := some .xapic, core := s.spec.off D } := Spec.ext hon hid hcore
  refine answers_ok (v := 0) (t := ⟨.xapic,
    { switchedOff D s.chip with base := (switchedOff D s.chip).base ||| APIC_EN }⟩) ?_ ⟨?_, ?_⟩ ?_
  · rw [exec, resetApic_eq]
    rfl
  · exact (congrArg (·.getD Mode.xapic) hon).symm
  · rw [hid]
    exact hs.id_lt
  · rw [hspec]
    rfl

/-- One call, with enough fuel for the command register. -/
theorem exec_answers (x2apic : Bool) (hs : s.Matched) (hcall : call.Allowed D) : ∃ r n,
    (∀ fuel, n ≤ fuel → exec D x2apic fuel call s = r) ∧
      Answers r (Spec.exec D x2apic call s.spec) := by
  cases call with
  | read reg => exact ⟨_, 0, fun _ _ => rfl, answers_read hs hcall.1 hcall.2 0⟩
  | write reg val => exact ⟨_, 0, fun _ _ => rfl, answers_write hs hcall.1 hcall.2 0⟩
  | readBit reg n => exact ⟨_, 0, fun _ _ => rfl, answers_readBit hs hcall.1 hcall.2 0⟩
  | icrWrite val dest =>
    obtain ⟨r, hr, hanswers⟩ := answers_icrWrite hs hcall
    exact ⟨r, s.chip.busy + 1, hr, hanswers⟩
  | id => exact ⟨_, 0, fun _ _ => rfl, answers_id hs 0⟩
  | eoi =>
    have h : Answers (exec D x2apic 0 (.write APIC_EOI 0) s)
        (Spec.exec D x2apic (.write APIC_EOI 0) s.spec) := answers_write hs plain_eoi hcall 0
    exact ⟨_, 0, fun _ _ => rfl, h⟩
  | enableX2apic => exact ⟨_, 0, fun _ _ => rfl, answers_enableX2apic hs 0⟩
  | disableApic => exact ⟨_, 0, fun _ _ => rfl, answers_disableApic hs 0⟩
  | resetApic => exact ⟨_, 0, fun _ _ => rfl, answers_resetApic hs 0⟩

/-- Any sequence of allowed calls through `apic_ops`, with the changes of mode in
between, does what the calls are for, when `apic_ops` fits the mode at its
beginning.  It returns the same values, leaves the same registers and sends the
same commands, in the page and in the model-specific registers alike.  It ends in
a fault when `enable_x2apic` finds the APIC off, and spins when a command is given
to an APIC that is off.  Calls for the registers that differ between the
interfaces (`APIC_ID` and the two of the command), for registers that are no
model-specific ones, and for destinations of more than a byte are not allowed. -/
theorem driver_refines (D : Device σ) (x2apic : Bool) {calls : List Call} {s : State σ}
    (hs : s.Matched) (hcalls : ∀ call ∈ calls, call.Allowed D) :
    ∃ n, ∀ fuel, n ≤ fuel →
      (run (exec D x2apic fuel) calls s).map (Prod.map id State.spec)
        = run (Spec.exec D x2apic) calls s.spec ∧
      ∀ vs t, run (exec D x2apic fuel) calls s = .ok (vs, t) → t.Matched := by
  induction calls generalizing s with
  | nil =>
    refine ⟨0, fun fuel _ => ⟨rfl, ?_⟩⟩
    rintro vs t h
    cases h
    exact hs
  | cons call calls ih =>
    obtain ⟨r, n, hr, hanswers⟩ := exec_answers x2apic hs (hcalls call (by simp))
    cases hspec : Spec.exec D x2apic call s.spec with
    | error e =>
      rw [hspec] at hanswers
      cases hanswers
      refine ⟨n, fun fuel hfuel => ?_⟩
      simp only [run, hr fuel hfuel, hspec, bind, Except.bind, Except.map]
      exact ⟨trivial, by simp⟩
    | ok p =>
      rw [hspec] at hanswers
      cases hanswers with
      | @ok v t ht =>
        obtain ⟨n', hrest⟩ := ih ht fun c hc => hcalls c (by simp [hc])
        refine ⟨max n n', fun fuel hfuel => ?_⟩
        obtain ⟨hmap, hmatched⟩ := hrest fuel (by omega)
        simp only [run, hr fuel (by omega), hspec, bind, Except.bind, ← hmap]
        cases hrun : run (exec D x2apic fuel) calls t with
        | error e => exact ⟨rfl, by simp⟩
        | ok q =>
          refine ⟨rfl, ?_⟩
          rintro vs u h
          cases h
          exact hmatched _ _ hrun

end Calls

/-- A device that keeps the commands and has no other register. -/
def recorder : Device (List (UInt32 × UInt32)) where
  read _ l := (0, l)
  write _ _ l := l
  command val dest l := l ++ [(val, dest)]
  delay l := l.length
  readable _ := true
  writable _ _ := true
  extend l := l
  reset _ := []

theorem driver_refines_switch : ∃ n, ∀ fuel, n ≤ fuel →
    (run (exec recorder true fuel) [.icrWrite 0x4020 1, .enableX2apic, .icrWrite 0x4021 1, .id]
      ⟨.xapic, ⟨0x800, 3, 0, 0, 5, []⟩⟩).map (Prod.map id State.spec)
      = .ok ([0, 1, 0, 3], ⟨some .x2apic, 3, [(0x4020, 1), (0x4021, 1)]⟩) := by
  have hs : State.Matched (⟨.xapic, ⟨0x800, 3, 0, 0, 5, []⟩⟩ : State (List (UInt32 × UInt32))) :=
    ⟨by decide, by decide⟩
  have hcalls : ∀ call ∈ [.icrWrite 0x4020 1, .enableX2apic, .icrWrite 0x4021 1, .id],
      Call.Allowed recorder call := by
    have hdest : (1 : UInt32) < 256 := by decide
    intro call hcall
    simp only [List.mem_cons, List.not_mem_nil, or_false] at hcall
    rcases hcall with rfl | rfl | rfl | rfl
    · exact hdest
    · trivial
    · exact hdest
    · trivial
  obtain ⟨n, h⟩ := driver_refines recorder true hs hcalls
  exact ⟨n, fun fuel hfuel => (h fuel hfuel).1⟩

end HyperBench.Apic
