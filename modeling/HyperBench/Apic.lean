import HyperBench.Smp
import Mathlib.Data.Nat.Bitwise

/-!
# `x86_64/apic.c`: the two register interfaces

A local APIC has one set of registers and two ways to them: a page of memory
in xAPIC mode, and a range of model-specific registers in x2APIC mode.  The
functions behind `apic_ops` come once for each way, and `enable_x2apic`,
`disable_apic` and `reset_apic` change the mode together with `apic_ops`.

The registers themselves are a parameter, `Device`, and so is the time that
the chip takes to send a command.  `Chip` puts the two interfaces over it:
the mode bits of `IA32_APIC_BASE`, the registers that look different from the
two sides, and the faults.

The lemmas give one equation for each function of `apic.c`, for a chip that is
on and for a chip that is off.
-/

namespace HyperBench.Apic

open Smp (Mode)

/-! ## Constants of `include/apic.h` and `include/msr.h` -/

def APIC_ID : Nat := 0x20

def APIC_EOI : Nat := 0xB0

def APIC_ICR : Nat := 0x300

def APIC_ICR_BUSY : UInt32 := 0x1000

def APIC_ICR2 : Nat := 0x310

def APIC_BASE_MSR : Nat := 0x800

def MSR_IA32_APICBASE : Nat := 0x1b

def APIC_EXTD : UInt64 := 0x400

def APIC_EN : UInt64 := 0x800

/-! ## The chip -/

/-- The registers behind both interfaces, by their offset in the page. -/
structure Device (σ : Type) where
  read : Nat → σ → UInt32 × σ
  write : Nat → UInt32 → σ → σ
  /-- Sends an interrupt command to a destination. -/
  command : UInt32 → UInt32 → σ → σ
  /-- For how many reads the command register says that it is busy. -/
  delay : σ → Nat
  /-- The registers that `rdmsr` reads. -/
  readable : Nat → Bool
  /-- The registers and values that `wrmsr` writes. -/
  writable : Nat → UInt32 → Bool
  /-- What the change from xAPIC to x2APIC mode does. -/
  extend : σ → σ
  /-- What switching the APIC off does. -/
  reset : σ → σ

structure Chip (σ : Type) where
  /-- `IA32_APIC_BASE`. -/
  base : UInt64
  id : UInt32
  icr : UInt32
  icr2 : UInt32
  /-- The number of reads for which the command register is still busy. -/
  busy : Nat
  core : σ

/-- The mode that the two bits of `IA32_APIC_BASE` stand for. -/
def modeOf (base : UInt64) : Option Mode :=
  if base.toNat.testBit 11 then
    if base.toNat.testBit 10 then some .x2apic else some .xapic
  else none

/-- The changes of mode that the processor accepts. -/
def legalChange : Option Mode → UInt64 → Bool
  | none, new => !new.toNat.testBit 10
  | some .xapic, new => new.toNat.testBit 11 || !new.toNat.testBit 10
  | some .x2apic, new => new.toNat.testBit 11 == new.toNat.testBit 10

variable {σ : Type} (D : Device σ)

namespace Chip

def mode (c : Chip σ) : Option Mode := modeOf c.base

/-- A read from the page.  It answers all ones when the page is not
there. -/
def mmioRead (reg : Nat) (c : Chip σ) : UInt32 × Chip σ :=
  if c.mode = some .xapic then
    if reg = APIC_ID then (c.id <<< 24, c)
    else if reg = APIC_ICR then
      (if c.busy = 0 then c.icr &&& ~~~APIC_ICR_BUSY else c.icr ||| APIC_ICR_BUSY,
        { c with busy := c.busy - 1 })
    else if reg = APIC_ICR2 then (c.icr2, c)
    else ((D.read reg c.core).1, { c with core := (D.read reg c.core).2 })
  else (0xffffffff, c)

/-- A write to the page.  The low half of the command register sends, to the
destination in the top byte of the high half. -/
def mmioWrite (reg : Nat) (val : UInt32) (c : Chip σ) : Chip σ :=
  if c.mode = some .xapic then
    if reg = APIC_ID then c
    else if reg = APIC_ICR then
      { c with
        icr := val
        busy := D.delay (D.command val (c.icr2 >>> 24) c.core)
        core := D.command val (c.icr2 >>> 24) c.core }
    else if reg = APIC_ICR2 then { c with icr2 := val }
    else { c with core := D.write reg val c.core }
  else c

/-- `rdmsr` of a register of the APIC.  `none` is a protection fault. -/
def rdmsr (msr : Nat) (c : Chip σ) : Option (UInt64 × Chip σ) :=
  let reg := 16 * (msr - APIC_BASE_MSR)
  if msr = MSR_IA32_APICBASE then some (c.base, c)
  else if c.mode = some .x2apic then
    if reg = APIC_ID then some (c.id.toUInt64, c)
    else if reg = APIC_ICR then some (c.icr.toUInt64 ||| c.icr2.toUInt64 <<< 32, c)
    else if D.readable reg then
      some ((D.read reg c.core).1.toUInt64, { c with core := (D.read reg c.core).2 })
    else none
  else none

/-- The chip behind a legal write to `IA32_APIC_BASE`. -/
def setBase (new : UInt64) (c : Chip σ) : Chip σ :=
  match c.mode, modeOf new with
  | some .xapic, some .x2apic => { c with base := new, core := D.extend c.core }
  | some _, none =>
    { c with base := new, icr := 0, icr2 := 0, busy := 0, core := D.reset c.core }
  | _, _ => { c with base := new }

/-- `wrmsr` to a register of the APIC. -/
def wrmsr (msr : Nat) (val : UInt64) (c : Chip σ) : Option (Chip σ) :=
  let reg := 16 * (msr - APIC_BASE_MSR)
  if msr = MSR_IA32_APICBASE then
    if legalChange c.mode val then some (c.setBase D val) else none
  else if c.mode = some .x2apic then
    if reg = APIC_ICR then
      some { c with
        icr := val.toUInt32
        icr2 := (val >>> 32).toUInt32
        core := D.command val.toUInt32 (val >>> 32).toUInt32 c.core }
    else if D.writable reg val.toUInt32 then
      some { c with core := D.write reg val.toUInt32 c.core }
    else none
  else none

end Chip

/-! ## The functions of the two interfaces -/

/-- What ends a call without a result. -/
inductive Stop where
  /-- A protection fault. -/
  | protection
  /-- The fuel was not enough for the loop of `xapic_icr_write`. -/
  | spinning
  deriving DecidableEq, Repr

def xapicRead (reg : Nat) (c : Chip σ) : UInt32 × Chip σ := c.mmioRead D reg

def xapicWrite (reg : Nat) (val : UInt32) (c : Chip σ) : Chip σ := c.mmioWrite D reg val

/-- `while (xapic_read(APIC_ICR) & APIC_ICR_BUSY);`. -/
def waitIcr : Nat → Chip σ → Except Stop (Chip σ)
  | 0, _ => .error .spinning
  | fuel + 1, c =>
    if (xapicRead D APIC_ICR c).1 &&& APIC_ICR_BUSY ≠ 0 then
      waitIcr fuel (xapicRead D APIC_ICR c).2
    else .ok (xapicRead D APIC_ICR c).2

def xapicIcrWrite (fuel : Nat) (val dest : UInt32) (c : Chip σ) : Except Stop (Chip σ) := do
  let c ← waitIcr D fuel c
  return xapicWrite D APIC_ICR val (xapicWrite D APIC_ICR2 (dest <<< 24) c)

def xapicId (c : Chip σ) : UInt32 × Chip σ :=
  ((xapicRead D APIC_ID c).1 >>> 24, (xapicRead D APIC_ID c).2)

/-- An instruction that can raise a protection fault. -/
def trap {α : Type} : Option α → Except Stop α
  | none => .error .protection
  | some a => .ok a

/-- `x2apic_read`, which returns the low half of the register. -/
def x2apicRead (reg : Nat) (c : Chip σ) : Except Stop (UInt32 × Chip σ) := do
  let (v, c) ← trap (c.rdmsr D (APIC_BASE_MSR + reg / 16))
  return (v.toUInt32, c)

def x2apicWrite (reg : Nat) (val : UInt32) (c : Chip σ) : Except Stop (Chip σ) :=
  trap (c.wrmsr D (APIC_BASE_MSR + reg / 16) val.toUInt64)

def x2apicIcrWrite (val dest : UInt32) (c : Chip σ) : Except Stop (Chip σ) :=
  trap (c.wrmsr D (APIC_BASE_MSR + APIC_ICR / 16) (val.toUInt64 ||| dest.toUInt64 <<< 32))

def x2apicId (c : Chip σ) : Except Stop (UInt32 × Chip σ) := x2apicRead D APIC_ID c

/-! ## The functions behind `apic_ops` -/

/-- The chip of a processor, and the variable `apic_ops`. -/
structure State (σ : Type) where
  ops : Mode
  chip : Chip σ

/-- `apic_ops->reg_read(reg)`. -/
def apicRead (ops : Mode) (reg : Nat) (c : Chip σ) : Except Stop (UInt32 × Chip σ) :=
  match ops with
  | .xapic => .ok (xapicRead D reg c)
  | .x2apic => x2apicRead D reg c

/-- `apic_ops->reg_write(reg, val)`. -/
def apicWrite (ops : Mode) (reg : Nat) (val : UInt32) (c : Chip σ) : Except Stop (Chip σ) :=
  match ops with
  | .xapic => .ok (xapicWrite D reg val c)
  | .x2apic => x2apicWrite D reg val c

/-- `apic_ops->icr_write(val, dest)`. -/
def apicIcrWrite (fuel : Nat) (ops : Mode) (val dest : UInt32) (c : Chip σ) :
    Except Stop (Chip σ) :=
  match ops with
  | .xapic => xapicIcrWrite D fuel val dest c
  | .x2apic => x2apicIcrWrite D val dest c

/-- `apic_ops->id()`. -/
def apicId (ops : Mode) (c : Chip σ) : Except Stop (UInt32 × Chip σ) :=
  match ops with
  | .xapic => .ok (xapicId D c)
  | .x2apic => x2apicId D c

/-- `apic_read_bit`, for a bit number that is not negative. -/
def apicReadBit (ops : Mode) (reg n : Nat) (c : Chip σ) : Except Stop (Bool × Chip σ) := do
  let (v, c) ← apicRead D ops (reg + (n >>> 5) <<< 4) c
  return (v &&& 1 <<< UInt32.ofNat (n &&& 31) ≠ 0, c)

/-- The part of `enable_x2apic` behind the test of `cpuid`. -/
def setExtended (c : Chip σ) : Except Stop (Chip σ) := do
  let (a, c) ← trap (c.rdmsr D MSR_IA32_APICBASE)
  trap (c.wrmsr D MSR_IA32_APICBASE (a ||| APIC_EXTD))

/-- `enable_x2apic`, where `x2apic` is the bit of `cpuid`. -/
def enableX2apic (x2apic : Bool) (s : State σ) : Except Stop (UInt32 × State σ) :=
  if x2apic then do
    let c ← setExtended D s.chip
    return (1, ⟨.x2apic, c⟩)
  else .ok (0, s)

def disableApic (s : State σ) : Except Stop (State σ) := do
  let (a, c) ← trap (s.chip.rdmsr D MSR_IA32_APICBASE)
  let c ← trap (c.wrmsr D MSR_IA32_APICBASE (a &&& ~~~(APIC_EN ||| APIC_EXTD)))
  return ⟨.xapic, c⟩

def resetApic (s : State σ) : Except Stop (State σ) := do
  let s ← disableApic D s
  let (a, c) ← trap (s.chip.rdmsr D MSR_IA32_APICBASE)
  let c ← trap (c.wrmsr D MSR_IA32_APICBASE (a ||| APIC_EN))
  return ⟨s.ops, c⟩

/-! ## One access -/

section Access

variable {D} {c : Chip σ} {m : Mode} {reg : Nat}

/-- A register that looks the same through both interfaces. -/
structure Plain (reg : Nat) : Prop where
  aligned : reg % 16 = 0
  lt : reg < 0x400
  ne_id : reg ≠ APIC_ID
  ne_icr : reg ≠ APIC_ICR
  ne_icr2 : reg ≠ APIC_ICR2

theorem plain_eoi : Plain APIC_EOI where
  aligned := by decide
  lt := by decide
  ne_id := by decide
  ne_icr := by decide
  ne_icr2 := by decide

theorem mode_of_base {c' : Chip σ} {p : Option Mode} (hm : c.mode = p) (h : c'.base = c.base) :
    c'.mode = p :=
  (congrArg modeOf h).trans hm

theorem msr_eq (h : reg % 16 = 0) : 16 * (APIC_BASE_MSR + reg / 16 - APIC_BASE_MSR) = reg := by
  omega

theorem msr_ne (reg : Nat) : APIC_BASE_MSR + reg / 16 ≠ MSR_IA32_APICBASE := by
  unfold APIC_BASE_MSR MSR_IA32_APICBASE
  omega

theorem apicRead_eq (hm : c.mode = some m) (hreg : Plain reg) (hread : D.readable reg = true) :
    apicRead D m reg c = .ok ((D.read reg c.core).1, { c with core := (D.read reg c.core).2 }) := by
  cases m with
  | xapic =>
    simp only [apicRead, xapicRead, Chip.mmioRead, if_pos hm, if_neg hreg.ne_id,
      if_neg hreg.ne_icr, if_neg hreg.ne_icr2]
  | x2apic =>
    simp only [apicRead, x2apicRead, Chip.rdmsr, if_neg (msr_ne reg), if_pos hm,
      msr_eq hreg.aligned, if_neg hreg.ne_id, if_neg hreg.ne_icr, if_pos hread]
    simp [trap, bind, Except.bind, pure, Except.pure]

theorem apicRead_off (hm : c.mode = none) (reg : Nat) :
    apicRead D .xapic reg c = .ok (0xffffffff, c) := by
  simp [apicRead, xapicRead, Chip.mmioRead, hm]

theorem apicWrite_eq {val : UInt32} (hm : c.mode = some m) (hreg : Plain reg)
    (hwrite : D.writable reg val = true) :
    apicWrite D m reg val c = .ok { c with core := D.write reg val c.core } := by
  cases m with
  | xapic =>
    simp only [apicWrite, xapicWrite, Chip.mmioWrite, if_pos hm, if_neg hreg.ne_id,
      if_neg hreg.ne_icr, if_neg hreg.ne_icr2]
  | x2apic =>
    have hval : val.toUInt64.toUInt32 = val := by simp
    simp only [apicWrite, x2apicWrite, Chip.wrmsr, if_neg (msr_ne reg), if_pos hm,
      msr_eq hreg.aligned, if_neg hreg.ne_icr, hval, if_pos hwrite, trap]

theorem apicWrite_off (hm : c.mode = none) (reg : Nat) (val : UInt32) :
    apicWrite D .xapic reg val c = .ok c := by
  simp [apicWrite, xapicWrite, Chip.mmioWrite, hm]

theorem shiftRight_shiftLeft {d : UInt32} (hd : d < 256) : d <<< 24 >>> 24 = d := by
  have hlt : d.toNat < 256 := hd
  rw [← UInt32.toNat_inj]
  simp only [UInt32.toNat_shiftRight, UInt32.toNat_shiftLeft, UInt32.reduceToNat, Nat.reduceMod,
    Nat.shiftLeft_eq, Nat.shiftRight_eq_div_pow]
  omega

theorem apicId_eq (hm : c.mode = some m) (hid : c.id < 256) : apicId D m c = .ok (c.id, c) := by
  cases m with
  | xapic => simp [apicId, xapicId, xapicRead, Chip.mmioRead, hm, shiftRight_shiftLeft hid]
  | x2apic =>
    simp only [apicId, x2apicId, x2apicRead, Chip.rdmsr, if_neg (msr_ne APIC_ID), if_pos hm]
    simp [APIC_ID, trap, bind, Except.bind, pure, Except.pure]

theorem apicId_off (hm : c.mode = none) : apicId D .xapic c = .ok (0xff, c) := by
  simp [apicId, xapicId, xapicRead, Chip.mmioRead, hm]
  decide

/-- The two halves of what `x2apic_icr_write` writes. -/
theorem icr_halves (val dest : UInt32) :
    (val.toUInt64 ||| dest.toUInt64 <<< 32).toUInt32 = val ∧
      ((val.toUInt64 ||| dest.toUInt64 <<< 32) >>> 32).toUInt32 = dest := by
  have hval := val.toNat_lt
  have hdest := dest.toNat_lt
  have hor : (val.toUInt64 ||| dest.toUInt64 <<< 32).toNat = dest.toNat * 2 ^ 32 + val.toNat := by
    rw [UInt64.toNat_or, UInt64.toNat_shiftLeft, UInt32.toNat_toUInt64, UInt32.toNat_toUInt64,
      show (32 : UInt64).toNat % 64 = 32 from rfl, Nat.mod_eq_of_lt (by rw [Nat.shiftLeft_eq]; omega),
      Nat.or_comm, ← Nat.shiftLeft_add_eq_or_of_lt hval, Nat.shiftLeft_eq]
  constructor
  · rw [← UInt32.toNat_inj, UInt64.toNat_toUInt32, hor]
    omega
  · rw [← UInt32.toNat_inj, UInt64.toNat_toUInt32, UInt64.toNat_shiftRight, hor,
      show (32 : UInt64).toNat % 64 = 32 from rfl, Nat.shiftRight_eq_div_pow]
    omega

/-! ## The command register -/

theorem and_busy_of_idle (v : UInt32) : v &&& ~~~APIC_ICR_BUSY &&& APIC_ICR_BUSY = 0 := by
  rw [UInt32.and_assoc, UInt32.not_and_self, UInt32.and_zero]

theorem and_busy_of_busy (v : UInt32) : (v ||| APIC_ICR_BUSY) &&& APIC_ICR_BUSY ≠ 0 := by
  intro h
  have hbit : ((v ||| APIC_ICR_BUSY) &&& APIC_ICR_BUSY).toNat.testBit 12 = false := by
    rw [h]
    rfl
  rw [UInt32.toNat_and, UInt32.toNat_or, Nat.testBit_and, Nat.testBit_or,
    show APIC_ICR_BUSY.toNat.testBit 12 = true from by decide] at hbit
  simp at hbit

/-- The loop reads the register once more than it is busy. -/
theorem waitIcr_eq (hm : c.mode = some .xapic) (fuel : Nat) :
    waitIcr D fuel c = if c.busy < fuel then .ok { c with busy := 0 } else .error .spinning := by
  -- by induction on the reads that are left
  induction fuel generalizing c with
  | zero => rfl
  | succ fuel ih =>
    have hread : xapicRead D APIC_ICR c
        = (if c.busy = 0 then c.icr &&& ~~~APIC_ICR_BUSY else c.icr ||| APIC_ICR_BUSY,
          { c with busy := c.busy - 1 }) := by
      simp [xapicRead, Chip.mmioRead, hm, APIC_ICR, APIC_ID]
    rw [waitIcr, hread]
    by_cases hb : c.busy = 0
    · rw [if_pos hb, if_neg (not_not.2 (and_busy_of_idle c.icr)), if_pos (by omega), hb]
    · have hlt : c.busy - 1 < fuel ↔ c.busy < fuel + 1 := by omega
      have hmode : Chip.mode { c with busy := c.busy - 1 } = some .xapic := mode_of_base hm rfl
      rw [if_neg hb, if_pos (and_busy_of_busy c.icr), ih hmode]
      simp only [hlt]

theorem waitIcr_off (hm : c.mode = none) (fuel : Nat) : waitIcr D fuel c = .error .spinning := by
  have hread : xapicRead D APIC_ICR c = (0xffffffff, c) := by
    simp [xapicRead, Chip.mmioRead, hm]
  induction fuel with
  | zero => rfl
  | succ fuel ih =>
    have hones : (0xffffffff : UInt32) &&& APIC_ICR_BUSY ≠ 0 := by decide
    rw [waitIcr, hread, if_pos hones]
    exact ih

theorem xapicWrite_icr2 (hm : c.mode = some .xapic) (val : UInt32) :
    xapicWrite D APIC_ICR2 val c = { c with icr2 := val } := by
  simp [xapicWrite, Chip.mmioWrite, hm, APIC_ICR2, APIC_ICR, APIC_ID]

theorem xapicWrite_icr (hm : c.mode = some .xapic) (val : UInt32) :
    xapicWrite D APIC_ICR val c = { c with
      icr := val
      busy := D.delay (D.command val (c.icr2 >>> 24) c.core)
      core := D.command val (c.icr2 >>> 24) c.core } := by
  simp [xapicWrite, Chip.mmioWrite, hm, APIC_ICR, APIC_ID]

/-- The chip behind `apic_icr_write`. -/
def sent (D : Device σ) (m : Mode) (val dest : UInt32) (c : Chip σ) : Chip σ :=
  { c with
    icr := val
    icr2 := match m with
      | .xapic => dest <<< 24
      | .x2apic => dest
    busy := match m with
      | .xapic => D.delay (D.command val dest c.core)
      | .x2apic => c.busy
    core := D.command val dest c.core }

theorem xapicIcrWrite_eq {val dest : UInt32} (hm : c.mode = some .xapic) (hdest : dest < 256)
    (fuel : Nat) :
    xapicIcrWrite D fuel val dest c
      = if c.busy < fuel then .ok (sent D .xapic val dest c) else .error .spinning := by
  rw [xapicIcrWrite, waitIcr_eq hm]
  split_ifs
  · have hidle : Chip.mode { c with busy := 0 } = some .xapic := mode_of_base hm rfl
    have hdirected : Chip.mode { c with icr2 := dest <<< 24, busy := 0 } = some .xapic :=
      mode_of_base hm rfl
    simp only [bind, Except.bind, pure, Except.pure]
    rw [xapicWrite_icr2 hidle, xapicWrite_icr hdirected, shiftRight_shiftLeft hdest]
    rfl
  · rfl

theorem x2apicIcrWrite_eq (hm : c.mode = some .x2apic) (val dest : UInt32) :
    x2apicIcrWrite D val dest c = .ok (sent D .x2apic val dest c) := by
  obtain ⟨hlow, hhigh⟩ := icr_halves val dest
  simp only [x2apicIcrWrite, Chip.wrmsr, if_neg (msr_ne APIC_ICR), if_pos hm,
    msr_eq (show APIC_ICR % 16 = 0 from rfl), if_true, hlow, hhigh, trap, sent]

theorem apicIcrWrite_eq {val dest : UInt32} (hm : c.mode = some m) (hdest : dest < 256)
    {fuel : Nat} (hfuel : c.busy < fuel) :
    apicIcrWrite D fuel m val dest c = .ok (sent D m val dest c) := by
  cases m with
  | xapic => rw [apicIcrWrite, xapicIcrWrite_eq hm hdest, if_pos hfuel]
  | x2apic => rw [apicIcrWrite, x2apicIcrWrite_eq hm]

/-- A call that returns has sent its command, whatever the fuel. -/
theorem sent_of_apicIcrWrite {val dest : UInt32} {fuel : Nat} {c' : Chip σ} (hm : c.mode = some m)
    (hdest : dest < 256) (h : apicIcrWrite D fuel m val dest c = .ok c') :
    c' = sent D m val dest c := by
  cases m with
  | xapic =>
    rw [apicIcrWrite, xapicIcrWrite_eq hm hdest] at h
    split_ifs at h
    exact (Except.ok.inj h).symm
  | x2apic =>
    rw [apicIcrWrite, x2apicIcrWrite_eq hm] at h
    exact (Except.ok.inj h).symm

theorem apicIcrWrite_off (hm : c.mode = none) (fuel : Nat) (val dest : UInt32) :
    apicIcrWrite D fuel .xapic val dest c = .error .spinning := by
  rw [apicIcrWrite, xapicIcrWrite, waitIcr_off hm]
  rfl

/-! ## Changes of mode -/

theorem rdmsr_base (c : Chip σ) : c.rdmsr D MSR_IA32_APICBASE = some (c.base, c) := by
  simp [Chip.rdmsr]

theorem wrmsr_base (c : Chip σ) (new : UInt64) :
    c.wrmsr D MSR_IA32_APICBASE new
      = if legalChange c.mode new then some (c.setBase D new) else none := by
  simp [Chip.wrmsr]

theorem testBit_or_extd (b : UInt64) :
    (b ||| APIC_EXTD).toNat.testBit 11 = b.toNat.testBit 11 ∧
      (b ||| APIC_EXTD).toNat.testBit 10 = true := by
  rw [UInt64.toNat_or, Nat.testBit_or, Nat.testBit_or,
    show APIC_EXTD.toNat.testBit 11 = false from by decide,
    show APIC_EXTD.toNat.testBit 10 = true from by decide, Bool.or_false, Bool.or_true]
  exact ⟨rfl, rfl⟩

theorem testBit_and_off (b : UInt64) :
    (b &&& ~~~(APIC_EN ||| APIC_EXTD)).toNat.testBit 11 = false ∧
      (b &&& ~~~(APIC_EN ||| APIC_EXTD)).toNat.testBit 10 = false := by
  rw [UInt64.toNat_and, Nat.testBit_and, Nat.testBit_and,
    show (~~~(APIC_EN ||| APIC_EXTD)).toNat.testBit 11 = false from by decide,
    show (~~~(APIC_EN ||| APIC_EXTD)).toNat.testBit 10 = false from by decide, Bool.and_false,
    Bool.and_false]
  exact ⟨rfl, rfl⟩

theorem testBit_or_en (b : UInt64) :
    (b ||| APIC_EN).toNat.testBit 11 = true ∧
      (b ||| APIC_EN).toNat.testBit 10 = b.toNat.testBit 10 := by
  rw [UInt64.toNat_or, Nat.testBit_or, Nat.testBit_or,
    show APIC_EN.toNat.testBit 11 = true from by decide,
    show APIC_EN.toNat.testBit 10 = false from by decide, Bool.or_false, Bool.or_true]
  exact ⟨rfl, rfl⟩

theorem mode_some_iff (c : Chip σ) : c.mode ≠ none ↔ c.base.toNat.testBit 11 = true := by
  unfold Chip.mode modeOf
  split_ifs <;> simp_all

/-- What `setExtended` makes of the mode. -/
theorem setExtended_eq (c : Chip σ) :
    setExtended D c = match c.mode with
      | none => .error .protection
      | some .xapic => .ok { c with base := c.base ||| APIC_EXTD, core := D.extend c.core }
      | some .x2apic => .ok { c with base := c.base ||| APIC_EXTD } := by
  obtain ⟨hen, hextd⟩ := testBit_or_extd c.base
  have hon := mode_some_iff c
  simp only [setExtended, rdmsr_base, trap, bind, Except.bind, wrmsr_base]
  generalize c.base ||| APIC_EXTD = new at hen hextd
  rcases hm : c.mode with _ | _ | _
  · simp [legalChange, hextd]
  · have hbit := hen.trans (hon.1 (by rw [hm]; simp))
    simp [legalChange, hextd, hbit, Chip.setBase, hm, modeOf]
  · have hbit := hen.trans (hon.1 (by rw [hm]; simp))
    simp [legalChange, hextd, hbit, Chip.setBase, hm, modeOf]

theorem modeOf_or_extd (hm : c.mode ≠ none) : modeOf (c.base ||| APIC_EXTD) = some .x2apic := by
  obtain ⟨hen, hextd⟩ := testBit_or_extd c.base
  rw [modeOf, hen, hextd, (mode_some_iff c).1 hm]
  rfl

/-- The chip behind `disable_apic`. -/
def switchedOff (D : Device σ) (c : Chip σ) : Chip σ :=
  c.setBase D (c.base &&& ~~~(APIC_EN ||| APIC_EXTD))

theorem switchedOff_spec (c : Chip σ) :
    (switchedOff D c).base = c.base &&& ~~~(APIC_EN ||| APIC_EXTD) ∧
      (switchedOff D c).mode = none ∧ (switchedOff D c).id = c.id ∧
      (switchedOff D c).core = if c.mode = none then c.core else D.reset c.core := by
  have hnew : modeOf (c.base &&& ~~~(APIC_EN ||| APIC_EXTD)) = none := by
    simp only [modeOf, (testBit_and_off c.base).1]
    rfl
  rcases hm : c.mode with _ | m
  · have hset : switchedOff D c = { c with base := c.base &&& ~~~(APIC_EN ||| APIC_EXTD) } := by
      simp only [switchedOff, Chip.setBase, hm]
    rw [hset]
    exact ⟨rfl, hnew, rfl, rfl⟩
  · have hset : switchedOff D c = { c with
        base := c.base &&& ~~~(APIC_EN ||| APIC_EXTD)
        icr := 0
        icr2 := 0
        busy := 0
        core := D.reset c.core } := by
      simp only [switchedOff, Chip.setBase, hm, hnew]
    rw [hset]
    exact ⟨rfl, hnew, rfl, rfl⟩

theorem disableApic_eq (s : State σ) :
    disableApic D s = .ok ⟨.xapic, switchedOff D s.chip⟩ := by
  obtain ⟨hen, hextd⟩ := testBit_and_off s.chip.base
  have hlegal : legalChange s.chip.mode (s.chip.base &&& ~~~(APIC_EN ||| APIC_EXTD)) = true := by
    rcases hm : s.chip.mode with _ | _ | _ <;> simp only [legalChange, hen, hextd] <;> rfl
  simp only [disableApic, rdmsr_base, trap, bind, Except.bind, wrmsr_base, hlegal, if_true, pure,
    Except.pure, switchedOff]

theorem resetApic_eq (s : State σ) :
    resetApic D s = .ok ⟨.xapic,
      { switchedOff D s.chip with base := (switchedOff D s.chip).base ||| APIC_EN }⟩ := by
  obtain ⟨hbase, hmode, _⟩ := switchedOff_spec (D := D) s.chip
  obtain ⟨hen, hextd⟩ := testBit_or_en (switchedOff D s.chip).base
  have hoff : (switchedOff D s.chip).base.toNat.testBit 10 = false := by
    rw [hbase]
    exact (testBit_and_off s.chip.base).2
  have hlegal : legalChange none ((switchedOff D s.chip).base ||| APIC_EN) = true := by
    simp only [legalChange, hextd, hoff]
    rfl
  have hset : (switchedOff D s.chip).setBase D ((switchedOff D s.chip).base ||| APIC_EN)
      = { switchedOff D s.chip with base := (switchedOff D s.chip).base ||| APIC_EN } := by
    simp only [Chip.setBase, hmode]
  simp only [resetApic, disableApic_eq, rdmsr_base, trap, bind, Except.bind, wrmsr_base, hmode,
    hlegal, if_true, pure, Except.pure, hset]

theorem modeOf_or_en (h : c.base.toNat.testBit 10 = false) :
    modeOf (c.base ||| APIC_EN) = some .xapic := by
  obtain ⟨hen, hextd⟩ := testBit_or_en c.base
  rw [modeOf, hen, hextd, h]
  rfl

end Access

end HyperBench.Apic
