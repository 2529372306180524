import HyperBench.Lib.BitField
import HyperBench.Lib.ByteMem
import Mathlib.Logic.Function.Basic

/-!
# The modes of an x86 processor

A processor comes up in real mode and is taken to 64-bit mode by a program:
protection, a table of segments, the bits of the control registers in an order
that the processor insists on, and two far jumps.  This is the machine that such
a program runs on, with the instructions that it is made of.

`exec` performs one instruction.  It has no answer when the processor faults,
and none for what is not described here: a segment that is not accessed yet,
that grows down or that is conforming, the paging modes of 32 bits, and what
happens in 64-bit mode.  A program that has an answer at every step does
therefore not depend on any of it.

* `Code P size a is b` says that the instructions `is` stand between `a` and
  `b`, and `At.exec` is what the processor does there.
* Where linear addresses are physical ones (`Direct`), `read_eq`, `write_eq`
  and `descriptor_eq` give the operands, and the `perform` lemmas say what the
  instructions do that change the mode.
-/

namespace Modes

open BitField ByteMem Function

/-! ## State -/

inductive Reg where
  | eax | ecx | edx | esp
  deriving DecidableEq, Repr

inductive Cr where
  | cr0 | cr3 | cr4
  deriving DecidableEq, Repr

inductive SegReg where
  | ds | es | fs | gs | ss
  deriving DecidableEq, Repr

/-- The part of a segment register that is not visible.  `writable` is the bit
that for a code segment says that it can be read. -/
structure Segment where
  base : Nat
  limit : Nat
  dpl : Nat
  code : Bool
  writable : Bool
  long : Bool
  big : Bool
  deriving DecidableEq, Repr

structure Core where
  eip : Nat
  reg : Reg → Nat
  cr : Cr → Nat
  efer : Nat
  gdtBase : Nat
  gdtLimit : Nat
  cs : Segment
  seg : SegReg → Segment

/-- The size of the instructions that the processor decodes. -/
inductive CodeSize where
  | bits16 | bits32 | bits64
  deriving DecidableEq, Repr

/-- `IA32_EFER` -/
def EFER : Nat := 0xC0000080

namespace Core

variable (c : Core)

/-- CR0.PE -/
def isProtected : Bool := (c.cr .cr0).testBit 0

/-- CR0.PG -/
def paging : Bool := (c.cr .cr0).testBit 31

/-- CR4.PAE -/
def pae : Bool := (c.cr .cr4).testBit 5

/-- CR4.LA57 -/
def la57 : Bool := (c.cr .cr4).testBit 12

/-- EFER.LME -/
def lme : Bool := c.efer.testBit 8

/-- EFER.LMA -/
def lma : Bool := c.efer.testBit 10

def cpl : Nat := c.cs.dpl

def codeSize : CodeSize :=
  if c.lma && c.cs.long then .bits64 else if c.cs.big then .bits32 else .bits16

def setReg (r : Reg) (v : Nat) : Core := { c with reg := update c.reg r v }

def goto (a : Nat) : Core := { c with eip := a }

end Core

/-! ## Instructions -/

/-- Immediate operands and addresses are the numbers that the assembler puts
in. -/
inductive Instr where
  /-- `mov %cr, %r` -/
  | movFromCr (cr : Cr) (r : Reg)
  /-- `mov %r, %cr` -/
  | movToCr (r : Reg) (cr : Cr)
  /-- `mov $v, %r` -/
  | movImm (v : Nat) (r : Reg)
  /-- `mov $v, %ax` -/
  | movAx (v : Nat)
  /-- `mov %ax, %s` -/
  | movSeg (s : SegReg)
  /-- `mov a, %r` -/
  | load (a : Nat) (r : Reg)
  /-- `or $v, %r` -/
  | orImm (v : Nat) (r : Reg)
  /-- `bts $i, %r` -/
  | bts (i : Nat) (r : Reg)
  /-- `lock xaddl %r, a` -/
  | lockXadd (r : Reg) (a : Nat)
  /-- `lgdtl a` -/
  | lgdt (a : Nat)
  /-- `ljmpl $sel, $a` -/
  | ljmp (sel a : Nat)
  | call (a : Nat)
  | ret
  | rdmsr
  | wrmsr
  deriving DecidableEq, Repr

/-- The program that is loaded, as the instructions and their lengths at
physical addresses, and the walk of the page tables from a root, which gives a
physical address and the right to write. -/
structure Processor where
  program : CodeSize → Nat → Option (Instr × Nat)
  walk : Mem → Nat → Nat → Option (Nat × Bool)

/-! ## Memory -/

namespace Processor

variable (P : Processor)

/-- The physical address of a linear one. -/
def phys (c : Core) (m : Mem) (write : Bool) (lin : Nat) : Option Nat :=
  if c.paging then
    if c.lma && !c.la57 then
      (P.walk m (c.cr .cr3) lin).bind fun p => if write && !p.2 then none else some p.1
    else none
  else some lin

/-- The frame of the `n` bytes at a linear address. -/
def frame (c : Core) (m : Mem) (write : Bool) (lin n : Nat) : Option Nat :=
  (P.phys c m write lin).bind fun p =>
    if ∀ i < n, P.phys c m write (lin + i) = some (p + i) then some p else none

/-- The frame of an operand of `n` bytes at the offset `off`. -/
def operand (c : Core) (m : Mem) (s : Segment) (write : Bool) (off n : Nat) : Option Nat :=
  if off + n ≤ s.limit + 1 ∧ (if write then s.writable && !s.code else s.writable || !s.code) then
    P.frame c m write ((s.base + off) % 2 ^ 32) n
  else none

def read (c : Core) (m : Mem) (s : Segment) (off n : Nat) : Option Nat :=
  (P.operand c m s false off n).map fun p => ByteMem.load m p n

def write (c : Core) (m : Mem) (s : Segment) (off n v : Nat) : Option Mem :=
  (P.operand c m s true off n).map fun p => store m p n v

/-! ## Segments -/

/-- The descriptor behind a selector. -/
def descriptor (c : Core) (m : Mem) (sel : Nat) : Option Nat :=
  if sel / 8 ≠ 0 ∧ sel.testBit 2 = false ∧ sel / 8 * 8 + 7 ≤ c.gdtLimit then
    (P.frame c m false ((c.gdtBase + sel / 8 * 8) % 2 ^ 32) 8).map fun p => ByteMem.load m p 8
  else none

end Processor

/-- The segment that a descriptor describes: present, of memory, and accessed
before. -/
def segmentOf (d : Nat) : Option Segment :=
  if d.testBit 47 && d.testBit 44 && d.testBit 40 && !d.testBit 42 then
    some {
      base := extract d 16 24 + extract d 56 8 * 2 ^ 24
      limit :=
        let limit := extract d 0 16 + extract d 48 4 * 2 ^ 16
        if d.testBit 55 then limit * 4096 + 4095 else limit
      dpl := extract d 45 2
      code := d.testBit 43
      writable := d.testBit 41
      long := d.testBit 53
      big := d.testBit 54 }
  else none

namespace Processor

variable (P : Processor)

/-- A far jump.  In real mode the selector is the base, and the rest of the
segment stays. -/
def farJump (c : Core) (m : Mem) (sel a : Nat) : Option Core :=
  if c.isProtected then
    ((P.descriptor c m sel).bind segmentOf).bind fun s =>
      if s.code ∧ s.dpl = c.cpl ∧ sel % 4 ≤ c.cpl ∧ (c.lma ∧ s.long → s.big = false) ∧
          (a ≤ s.limit ∨ c.lma ∧ s.long) then
        some { c with cs := s, eip := a }
      else none
  else if a ≤ c.cs.limit then some { c with cs := { c.cs with base := sel * 16 }, eip := a }
  else none

/-- A load of a data segment register. -/
def setSeg (c : Core) (m : Mem) (r : SegReg) (sel : Nat) : Option Core :=
  if c.isProtected then
    ((P.descriptor c m sel).bind segmentOf).bind fun s =>
      if (r = .ss → s.dpl = c.cpl ∧ sel % 4 = c.cpl ∧ s.writable ∧ s.code = false) ∧
          c.cpl ≤ s.dpl ∧ sel % 4 ≤ s.dpl ∧ (s.writable ∨ s.code = false) then
        some { c with seg := update c.seg r s }
      else none
  else some { c with seg := update c.seg r { c.seg r with base := sel * 16 } }

end Processor

/-! ## Control registers -/

namespace Core

/-- A write to CR0.  Paging needs protection, and long mode is entered from
code of 32 bits with the extension of the page tables. -/
def setCr0 (c : Core) (v : Nat) : Option Core :=
  if (v.testBit 31 → v.testBit 0) ∧ (v.testBit 29 → v.testBit 30) ∧
      (v.testBit 31 ∧ c.paging = false ∧ c.lme → c.pae ∧ c.cs.long = false) then
    some { c with
      cr := update c.cr .cr0 v
      efer := insert c.efer 10 1 (if v.testBit 31 && c.lme then 1 else 0) }
  else none

/-- A write to CR4, in long mode without a change of the paging mode. -/
def setCr4 (c : Core) (v : Nat) : Option Core :=
  if c.lma → v.testBit 5 ∧ v.testBit 12 = c.la57 then
    some { c with cr := update c.cr .cr4 v }
  else none

def setCr (c : Core) : Cr → Nat → Option Core
  | .cr0, v => c.setCr0 v
  | .cr3, v => some { c with cr := update c.cr .cr3 v }
  | .cr4, v => c.setCr4 v

/-- A write to the one model-specific register.  Long mode can only be enabled
while paging is off, and the bit that says that it is active cannot be
written. -/
def setEfer (c : Core) (v : Nat) : Option Core :=
  if c.paging → v.testBit 8 = c.lme then
    some { c with efer := insert v 10 1 (extract c.efer 10 1) }
  else none

end Core

/-! ## Execution -/

namespace Processor

variable (P : Processor)

/-- What an instruction does behind its fetch. -/
def perform (c : Core) (m : Mem) : Instr → Option (Core × Mem)
  | .movFromCr cr r => some (c.setReg r (c.cr cr), m)
  | .movToCr r cr => (c.setCr cr (c.reg r)).map (·, m)
  | .movImm v r => some (c.setReg r v, m)
  | .movAx v => some (c.setReg .eax (insert (c.reg .eax) 0 16 v), m)
  | .movSeg s => (P.setSeg c m s (c.reg .eax % 2 ^ 16)).map (·, m)
  | .load a r => (P.read c m (c.seg .ds) a 4).map fun v => (c.setReg r v, m)
  | .orImm v r => some (c.setReg r (c.reg r ||| v), m)
  | .bts i r => some (c.setReg r (c.reg r ||| 2 ^ i), m)
  | .lockXadd r a =>
    (P.read c m (c.seg .ds) a 4).bind fun v =>
      (P.write c m (c.seg .ds) a 4 ((v + c.reg r) % 2 ^ 32)).map (c.setReg r v, ·)
  | .lgdt a =>
    (P.read c m (c.seg .ds) a 2).bind fun limit =>
      (P.read c m (c.seg .ds) (a + 2) 4).map fun base =>
        ({ c with gdtBase := base, gdtLimit := limit }, m)
  | .ljmp sel a => (P.farJump c m sel a).map (·, m)
  | .call a =>
    if c.codeSize = .bits32 ∧ (c.seg .ss).big ∧ a ≤ c.cs.limit then
      (P.write c m (c.seg .ss) ((c.reg .esp + 2 ^ 32 - 4) % 2 ^ 32) 4 c.eip).map
        ((c.setReg .esp ((c.reg .esp + 2 ^ 32 - 4) % 2 ^ 32)).goto a, ·)
    else none
  | .ret =>
    if c.codeSize = .bits32 ∧ (c.seg .ss).big then
      (P.read c m (c.seg .ss) (c.reg .esp) 4).bind fun a =>
        if a ≤ c.cs.limit then
          some ((c.setReg .esp ((c.reg .esp + 4) % 2 ^ 32)).goto a, m)
        else none
    else none
  | .rdmsr =>
    if c.reg .ecx = EFER then
      some ((c.setReg .eax (c.efer % 2 ^ 32)).setReg .edx (c.efer / 2 ^ 32), m)
    else none
  | .wrmsr =>
    if c.reg .ecx = EFER then
      (c.setEfer (c.reg .edx * 2 ^ 32 + c.reg .eax)).map (·, m)
    else none

/-- The next instruction and its length. -/
def fetch (c : Core) (m : Mem) : Option (Instr × Nat) :=
  (P.phys c m false ((c.cs.base + c.eip) % 2 ^ 32)).bind fun p =>
    (P.program c.codeSize p).bind fun r =>
      if c.eip + r.2 ≤ c.cs.limit + 1 ∧
          P.frame c m false ((c.cs.base + c.eip) % 2 ^ 32) r.2 = some p then some r
      else none

/-- One instruction, and what it leaves. -/
def exec (c : Core) (m : Mem) : Option (Instr × Core × Mem) :=
  if c.codeSize = .bits64 then none
  else (P.fetch c m).bind fun r => (P.perform (c.goto (c.eip + r.2)) m r.1).map (r.1, ·)

end Processor

/-! ## Operands -/

section Operands

variable {P : Processor} {c : Core} {m : Mem} {s : Segment} {off n : Nat}

/-- Linear addresses are physical ones. -/
def Direct (P : Processor) (c : Core) (m : Mem) : Prop :=
  ∀ write x, x < 2 ^ 32 → P.phys c m write x = some x

theorem frame_eq (hid : Direct P c m) {lin : Nat} (write : Bool) (hn : 0 < n)
    (h : lin + n ≤ 2 ^ 32) : P.frame c m write lin n = some lin := by
  have hall : ∀ i < n, P.phys c m write (lin + i) = some (lin + i) :=
    fun i hi => hid write _ (by omega)
  rw [Processor.frame, hid write lin (by omega), Option.bind_some, if_pos hall]

theorem read_eq (hid : Direct P c m) (hbase : s.base = 0) (hwritable : s.writable = true)
    (hn : 0 < n) (hlimit : off + n ≤ s.limit + 1) (h : off + n ≤ 2 ^ 32) :
    P.read c m s off n = some (load m off n) := by
  rw [Processor.read, Processor.operand, if_pos ⟨hlimit, by simp [hwritable]⟩, hbase, Nat.zero_add,
    Nat.mod_eq_of_lt (by omega), frame_eq hid false hn h, Option.map_some]

theorem write_eq (hid : Direct P c m) (hbase : s.base = 0) (hwritable : s.writable = true)
    (hcode : s.code = false) (hn : 0 < n) (hlimit : off + n ≤ s.limit + 1)
    (h : off + n ≤ 2 ^ 32) (v : Nat) : P.write c m s off n v = some (store m off n v) := by
  rw [Processor.write, Processor.operand, if_pos ⟨hlimit, by simp [hwritable, hcode]⟩, hbase,
    Nat.zero_add, Nat.mod_eq_of_lt (by omega), frame_eq hid true hn h, Option.map_some]

theorem descriptor_eq (hid : Direct P c m) {sel : Nat} (hsel : sel / 8 ≠ 0)
    (htable : sel.testBit 2 = false) (hlimit : sel / 8 * 8 + 7 ≤ c.gdtLimit)
    (h : c.gdtBase + sel / 8 * 8 + 8 ≤ 2 ^ 32) :
    P.descriptor c m sel = some (load m (c.gdtBase + sel / 8 * 8) 8) := by
  rw [Processor.descriptor, if_pos ⟨hsel, htable, hlimit⟩, Nat.mod_eq_of_lt (by omega),
    frame_eq hid false (by decide) h, Option.map_some]

end Operands

/-! ## Code in memory -/

section Code

variable {P : Processor} {c : Core}

/-- The instructions `is` stand one behind the other between `a` and `b`. -/
def Code (P : Processor) (size : CodeSize) : Nat → List Instr → Nat → Prop
  | a, [], b => a ≤ b
  | a, i :: is, b => ∃ n, 0 < n ∧ P.program size a = some (i, n) ∧ Code P size (a + n) is b

theorem Code.le {size : CodeSize} {a b : Nat} {is : List Instr} (h : Code P size a is b) :
    a ≤ b := by
  induction is generalizing a with
  | nil => exact h
  | cons i is ih =>
    obtain ⟨n, -, -, hrest⟩ := h
    have hle := ih hrest
    omega

/-- The processor is at the instructions `is`, which end in front of `b`. -/
structure At (P : Processor) (c : Core) (is : List Instr) (b : Nat) : Prop where
  code : Code P c.codeSize c.eip is b
  size : c.codeSize ≠ .bits64
  base : c.cs.base = 0
  limit : b ≤ c.cs.limit + 1
  low : b ≤ 2 ^ 32

theorem At.exec {i : Instr} {is : List Instr} {b : Nat} (h : At P c (i :: is) b) :
    ∃ a, Code P c.codeSize a is b ∧
      ∀ m, Direct P c m → P.exec c m = (P.perform (c.goto a) m i).map (i, ·) := by
  obtain ⟨n, hn, hprogram, hrest⟩ := h.code
  have hle := hrest.le
  have hlimit := h.limit
  have hlow := h.low
  refine ⟨c.eip + n, hrest, fun m hid => ?_⟩
  have hframe : P.frame c m false c.eip n = some c.eip := frame_eq hid false hn (by omega)
  have hfetch : P.fetch c m = some (i, n) := by
    rw [Processor.fetch, h.base, Nat.zero_add, Nat.mod_eq_of_lt (by omega),
      hid false c.eip (by omega), Option.bind_some, hprogram, Option.bind_some,
      if_pos ⟨by omega, hframe⟩]
  rw [Processor.exec, if_neg h.size, hfetch, Option.bind_some]

end Code

/-! ## Single instructions -/

section Perform

variable {P : Processor} {m : Mem} {e efer gb gl : Nat} {reg : Reg → Nat} {cr : Cr → Nat}
  {cs : Segment} {seg : SegReg → Segment}

theorem direct_of_no_paging (hp : (cr .cr0).testBit 31 = false) (m : Mem) :
    Direct P ⟨e, reg, cr, efer, gb, gl, cs, seg⟩ m := by
  have hcore : Core.paging ⟨e, reg, cr, efer, gb, gl, cs, seg⟩ = false := hp
  intro write x _
  rw [Processor.phys, hcore]
  rfl

theorem perform_lgdt (hid : Direct P ⟨e, reg, cr, efer, gb, gl, cs, seg⟩ m) {a limit base : Nat}
    {s : Segment} (hds : seg .ds = s) (hbase : s.base = 0) (hwritable : s.writable = true)
    (hlimit : a + 6 ≤ s.limit + 1) (ha : a + 6 ≤ 2 ^ 32)
    (hl : ByteMem.load m a 2 = limit) (hb : ByteMem.load m (a + 2) 4 = base) :
    P.perform ⟨e, reg, cr, efer, gb, gl, cs, seg⟩ m (.lgdt a)
      = some (⟨e, reg, cr, efer, base, limit, cs, seg⟩, m) := by
  subst hds
  rw [Processor.perform, read_eq hid hbase hwritable (by decide) (by omega) (by omega),
    Option.bind_some, read_eq hid hbase hwritable (by decide) (by omega) (by omega),
    Option.map_some, hl, hb]

theorem perform_ljmp (hid : Direct P ⟨e, reg, cr, efer, gb, gl, cs, seg⟩ m)
    (hprot : (cr .cr0).testBit 0 = true) {a d : Nat} {s : Segment} (hgdt : 15 ≤ gl)
    (hbase : gb + 16 ≤ 2 ^ 32) (hd : ByteMem.load m (gb + 8) 8 = d) (hs : segmentOf d = some s)
    (hcode : s.code = true) (hdpl : s.dpl = 0) (hcpl : cs.dpl = 0)
    (hlong : efer.testBit 10 ∧ s.long → s.big = false)
    (ha : a ≤ s.limit ∨ efer.testBit 10 ∧ s.long) :
    P.perform ⟨e, reg, cr, efer, gb, gl, cs, seg⟩ m (.ljmp 8 a)
      = some (⟨a, reg, cr, efer, gb, gl, s, seg⟩, m) := by
  have hdesc : P.descriptor ⟨e, reg, cr, efer, gb, gl, cs, seg⟩ m 8 = some d := by
    rw [descriptor_eq hid (by decide) (by decide) hgdt hbase]
    exact congrArg some hd
  have hcond : s.code ∧ s.dpl = cs.dpl ∧ 8 % 4 ≤ cs.dpl ∧
      (efer.testBit 10 ∧ s.long → s.big = false) ∧ (a ≤ s.limit ∨ efer.testBit 10 ∧ s.long) :=
    ⟨hcode, hdpl.trans hcpl.symm, Nat.zero_le _, hlong, ha⟩
  have hjump : P.farJump ⟨e, reg, cr, efer, gb, gl, cs, seg⟩ m 8 a
      = some ⟨a, reg, cr, efer, gb, gl, s, seg⟩ := by
    have hcore : Core.isProtected ⟨e, reg, cr, efer, gb, gl, cs, seg⟩ = true := hprot
    rw [Processor.farJump, if_pos hcore, hdesc, Option.bind_some, hs, Option.bind_some]
    exact if_pos hcond
  rw [Processor.perform, hjump, Option.map_some]

theorem perform_movSeg (hid : Direct P ⟨e, reg, cr, efer, gb, gl, cs, seg⟩ m)
    (hprot : (cr .cr0).testBit 0 = true) (heax : reg .eax % 2 ^ 16 = 16) {d : Nat} {s : Segment}
    (hgdt : 23 ≤ gl) (hbase : gb + 24 ≤ 2 ^ 32) (hd : ByteMem.load m (gb + 16) 8 = d)
    (hs : segmentOf d = some s) (hcode : s.code = false) (hwritable : s.writable = true)
    (hdpl : s.dpl = 0) (hcpl : cs.dpl = 0) (r : SegReg) :
    P.perform ⟨e, reg, cr, efer, gb, gl, cs, seg⟩ m (.movSeg r)
      = some (⟨e, reg, cr, efer, gb, gl, cs, update seg r s⟩, m) := by
  have hdesc : P.descriptor ⟨e, reg, cr, efer, gb, gl, cs, seg⟩ m 16 = some d := by
    rw [descriptor_eq hid (by decide) (by decide) hgdt hbase]
    exact congrArg some hd
  have hcond : (r = .ss → s.dpl = cs.dpl ∧ 16 % 4 = cs.dpl ∧ s.writable ∧ s.code = false) ∧
      cs.dpl ≤ s.dpl ∧ 16 % 4 ≤ s.dpl ∧ (s.writable ∨ s.code = false) := by
    rw [hcpl, hdpl]
    exact ⟨fun _ => ⟨rfl, rfl, hwritable, hcode⟩, Nat.le_refl 0, Nat.le_refl 0, .inl hwritable⟩
  have hset : P.setSeg ⟨e, reg, cr, efer, gb, gl, cs, seg⟩ m r 16
      = some ⟨e, reg, cr, efer, gb, gl, cs, update seg r s⟩ := by
    have hcore : Core.isProtected ⟨e, reg, cr, efer, gb, gl, cs, seg⟩ = true := hprot
    rw [Processor.setSeg, if_pos hcore, hdesc, Option.bind_some, hs, Option.bind_some]
    exact if_pos hcond
  rw [Processor.perform, heax, hset, Option.map_some]

theorem perform_movToCr0 {r : Reg} {v : Nat} (hv : reg r = v) (hpe : v.testBit 31 → v.testBit 0)
    (hcache : v.testBit 29 → v.testBit 30)
    (hlong : v.testBit 31 → efer.testBit 8 → (cr .cr4).testBit 5 ∧ cs.long = false) :
    P.perform ⟨e, reg, cr, efer, gb, gl, cs, seg⟩ m (.movToCr r .cr0)
      = some (⟨e, reg, update cr .cr0 v,
          insert efer 10 1 (if v.testBit 31 && efer.testBit 8 then 1 else 0), gb, gl, cs, seg⟩,
        m) := by
  subst hv
  have hset : Core.setCr0 ⟨e, reg, cr, efer, gb, gl, cs, seg⟩ (reg r) = some ⟨e, reg,
      update cr .cr0 (reg r),
      insert efer 10 1 (if (reg r).testBit 31 && efer.testBit 8 then 1 else 0), gb, gl, cs, seg⟩ :=
    if_pos ⟨hpe, hcache, fun h => hlong h.1 h.2.2⟩
  exact congrArg (Option.map (·, m)) hset

theorem perform_movToCr4 {r : Reg} {v : Nat} (hv : reg r = v) (hlma : efer.testBit 10 = false) :
    P.perform ⟨e, reg, cr, efer, gb, gl, cs, seg⟩ m (.movToCr r .cr4)
      = some (⟨e, reg, update cr .cr4 v, efer, gb, gl, cs, seg⟩, m) := by
  subst hv
  have hset : Core.setCr4 ⟨e, reg, cr, efer, gb, gl, cs, seg⟩ (reg r)
      = some ⟨e, reg, update cr .cr4 (reg r), efer, gb, gl, cs, seg⟩ :=
    if_pos fun h => absurd (hlma.symm.trans h) (by decide)
  exact congrArg (Option.map (·, m)) hset

theorem perform_wrmsr {v : Nat} (hecx : reg .ecx = EFER)
    (hv : reg .edx * 2 ^ 32 + reg .eax = v) (hp : (cr .cr0).testBit 31 = false) :
    P.perform ⟨e, reg, cr, efer, gb, gl, cs, seg⟩ m .wrmsr
      = some (⟨e, reg, cr, insert v 10 1 (extract efer 10 1), gb, gl, cs, seg⟩, m) := by
  have hset : Core.setEfer ⟨e, reg, cr, efer, gb, gl, cs, seg⟩ v
      = some ⟨e, reg, cr, insert v 10 1 (extract efer 10 1), gb, gl, cs, seg⟩ :=
    if_pos fun h => absurd (hp.symm.trans h) (by decide)
  subst hv
  exact (if_pos hecx).trans (congrArg (Option.map (·, m)) hset)

theorem perform_lockXadd (hid : Direct P ⟨e, reg, cr, efer, gb, gl, cs, seg⟩ m) {a v : Nat}
    {s : Segment} {r : Reg} (hds : seg .ds = s) (hbase : s.base = 0) (hwritable : s.writable = true)
    (hcode : s.code = false) (hlimit : a + 4 ≤ s.limit + 1) (ha : a + 4 ≤ 2 ^ 32)
    (hv : reg r = v) :
    P.perform ⟨e, reg, cr, efer, gb, gl, cs, seg⟩ m (.lockXadd r a)
      = some (⟨e, update reg r (ByteMem.load m a 4), cr, efer, gb, gl, cs, seg⟩,
        store m a 4 ((ByteMem.load m a 4 + v) % 2 ^ 32)) := by
  subst hds hv
  have hread := read_eq hid hbase hwritable (by decide : 0 < 4) hlimit ha
  have hwrite := write_eq hid hbase hwritable hcode (by decide : 0 < 4) hlimit ha
    ((ByteMem.load m a 4 + reg r) % 2 ^ 32)
  exact (congrArg (Option.bind · _) hread).trans (congrArg (Option.map _) hwrite)

theorem perform_call (hid : Direct P ⟨e, reg, cr, efer, gb, gl, cs, seg⟩ m) {a sp : Nat}
    {s : Segment} (hsize : Core.codeSize ⟨e, reg, cr, efer, gb, gl, cs, seg⟩ = .bits32)
    (ha : a ≤ cs.limit) (hss : seg .ss = s) (hbig : s.big = true) (hbase : s.base = 0)
    (hwritable : s.writable = true) (hcode : s.code = false) (hlimit : sp + 4 ≤ s.limit + 1)
    (hsp : sp + 4 < 2 ^ 32) (hesp : reg .esp = sp + 4) :
    P.perform ⟨e, reg, cr, efer, gb, gl, cs, seg⟩ m (.call a)
      = some (⟨a, update reg .esp sp, cr, efer, gb, gl, cs, seg⟩, store m sp 4 e) := by
  subst hss
  have hpush : (reg .esp + 2 ^ 32 - 4) % 2 ^ 32 = sp := by
    rw [hesp]
    omega
  have hwrite := write_eq hid hbase hwritable hcode (by decide : 0 < 4) hlimit (by omega) e
  refine (if_pos ⟨hsize, hbig, ha⟩).trans ?_
  rw [hpush]
  exact congrArg (Option.map _) hwrite

theorem perform_ret (hid : Direct P ⟨e, reg, cr, efer, gb, gl, cs, seg⟩ m) {a sp : Nat}
    {s : Segment} (hsize : Core.codeSize ⟨e, reg, cr, efer, gb, gl, cs, seg⟩ = .bits32)
    (ha : a ≤ cs.limit) (hss : seg .ss = s) (hbig : s.big = true) (hbase : s.base = 0)
    (hwritable : s.writable = true) (hlimit : sp + 4 ≤ s.limit + 1) (hsp : sp + 4 < 2 ^ 32)
    (hesp : reg .esp = sp) (hret : ByteMem.load m sp 4 = a) :
    P.perform ⟨e, reg, cr, efer, gb, gl, cs, seg⟩ m .ret
      = some (⟨a, update reg .esp (sp + 4), cr, efer, gb, gl, cs, seg⟩, m) := by
  subst hss hesp
  have hread := read_eq hid hbase hwritable (by decide : 0 < 4) hlimit (by omega)
  rw [hret] at hread
  refine (if_pos ⟨hsize, hbig⟩).trans ?_
  rw [Nat.mod_eq_of_lt hsp]
  exact (congrArg (Option.bind · _) hread).trans (if_pos ha)

end Perform

end Modes
