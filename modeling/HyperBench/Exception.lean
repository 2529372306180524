import HyperBench.Lib.Loop
import HyperBench.Lib.WordStack

/-!
# `x86_64/desc.c`

The exceptions of the guest: the interrupt descriptor table, the stubs, the
assembly of `__handle_exception`, the C functions that it calls, and the two
functions that read the result.

* The assembly is a list of instructions, in the order of the source.
  `run` executes it on a `Cpu`.
* `struct ex_regs` is read off the stack as C lays it out, one word behind the
  other.
* `fault` is the whole way: what the processor pushes, the stub that the
  descriptor names, `__handle_exception`, and `iretq`.

The memory is one of words.  The stack frame, the exception table and the four
bytes at `gs:4` do not overlap.  The arithmetic flags that the assembly
changes are not modelled: `iretq` loads all flags from the frame.
-/

namespace HyperBench.Exception

open Loop WordStack

/-! ## The processor -/

inductive Reg where
  | rax | rcx | rdx | rbx | rsp | rbp | rsi | rdi
  | r8 | r9 | r10 | r11 | r12 | r13 | r14 | r15
  deriving DecidableEq, Repr

structure Cpu where
  reg : Reg → UInt64
  rip : UInt64
  cs : UInt64
  rflags : UInt64
  ss : UInt64
  mem : Mem
  /-- The four bytes at `gs:4`. -/
  gs4 : UInt32

/-- The instructions of the assembly. -/
inductive Instr where
  | push (r : Reg)
  | pushImm (v : UInt64)
  | pop (r : Reg)
  /-- `sub $8, %rsp` -/
  | subRsp
  /-- `add $8, %rsp` -/
  | addRsp
  /-- `mov %rsp, r` -/
  | movRsp (r : Reg)
  deriving DecidableEq, Repr

def Cpu.setReg (c : Cpu) (r : Reg) (v : UInt64) : Cpu := { c with reg := Function.update c.reg r v }

def Cpu.push (c : Cpu) (v : UInt64) : Cpu :=
  { c.setReg .rsp (c.reg .rsp - 8) with mem := Function.update c.mem (c.reg .rsp - 8) v }

def Cpu.pushAll (c : Cpu) (vs : List UInt64) : Cpu := vs.foldl Cpu.push c

def exec (c : Cpu) : Instr → Cpu
  | .push r => c.push (c.reg r)
  | .pushImm v => c.push v
  | .pop r => (c.setReg .rsp (c.reg .rsp + 8)).setReg r (c.mem (c.reg .rsp))
  | .subRsp => c.setReg .rsp (c.reg .rsp - 8)
  | .addRsp => c.setReg .rsp (c.reg .rsp + 8)
  | .movRsp r => c.setReg r (c.reg .rsp)

def run (code : List Instr) (c : Cpu) : Cpu := code.foldl exec c

def iretq (c : Cpu) : Cpu :=
  { c.setReg .rsp (word c.mem (c.reg .rsp) 3) with
    rip := word c.mem (c.reg .rsp) 0
    cs := word c.mem (c.reg .rsp) 1
    rflags := word c.mem (c.reg .rsp) 2
    ss := word c.mem (c.reg .rsp) 4 }

/-! ## The stubs -/

/-- The stubs that `EX` and `EX_E` make. -/
inductive Stub where
  | de | db | nmi | bp | of | br | ud | nm | df | ts | np | ss | gp | pf | mf | ac | mc | xm
  deriving DecidableEq, Repr

def Stub.all : List Stub :=
  [.de, .db, .nmi, .bp, .of, .br, .ud, .nm, .df, .ts, .np, .ss, .gp, .pf, .mf, .ac, .mc, .xm]

def EX (n : UInt64) : List Instr := [.pushImm 0, .pushImm n]

def EX_E (n : UInt64) : List Instr := [.pushImm n]

def Stub.code : Stub → List Instr
  | .de => EX 0
  | .db => EX 1
  | .nmi => EX 2
  | .bp => EX 3
  | .of => EX 4
  | .br => EX 5
  | .ud => EX 6
  | .nm => EX 7
  | .df => EX_E 8
  | .ts => EX_E 10
  | .np => EX_E 11
  | .ss => EX_E 12
  | .gp => EX_E 13
  | .pf => EX_E 14
  | .mf => EX 16
  | .ac => EX_E 17
  | .mc => EX 18
  | .xm => EX 19

/-- `idt_handlers`. -/
def idtHandlers : Nat → Option Stub
  | 0 => some .de
  | 1 => some .db
  | 2 => some .nmi
  | 3 => some .bp
  | 4 => some .of
  | 5 => some .br
  | 6 => some .ud
  | 7 => some .nm
  | 8 => some .df
  | 10 => some .ts
  | 11 => some .np
  | 12 => some .ss
  | 13 => some .gp
  | 14 => some .pf
  | 16 => some .mf
  | 17 => some .ac
  | 18 => some .mc
  | 19 => some .xm
  | _ => none

/-- Where the linker has put the stubs. -/
structure Image where
  address : Stub → UInt64
  address_injective : Function.Injective address

/-- The stub at an address. -/
def Image.stubAt (g : Image) (a : UInt64) : Option Stub := Stub.all.find? fun s => g.address s = a

/-- `__handle_exception` up to the call. -/
def handleExceptionEntry : List Instr :=
  [.push .r15, .push .r14, .push .r13, .push .r12,
   .push .r11, .push .r10, .push .r9, .push .r8,
   .push .rdi, .push .rsi, .push .rbp, .subRsp,
   .push .rbx, .push .rdx, .push .rcx, .push .rax,
   .movRsp .rdi]

/-- `__handle_exception` between the call and `iretq`. -/
def handleExceptionExit : List Instr :=
  [.pop .rax, .pop .rcx, .pop .rdx, .pop .rbx,
   .addRsp, .pop .rbp, .pop .rsi, .pop .rdi,
   .pop .r8, .pop .r9, .pop .r10, .pop .r11,
   .pop .r12, .pop .r13, .pop .r14, .pop .r15,
   .addRsp,
   .addRsp]

/-! ## The C functions -/

/-- `struct ex_regs`. -/
structure ExRegs where
  rax : UInt64
  rcx : UInt64
  rdx : UInt64
  rbx : UInt64
  dummy : UInt64
  rbp : UInt64
  rsi : UInt64
  rdi : UInt64
  r8 : UInt64
  r9 : UInt64
  r10 : UInt64
  r11 : UInt64
  r12 : UInt64
  r13 : UInt64
  r14 : UInt64
  r15 : UInt64
  vector : UInt64
  errorCode : UInt64
  rip : UInt64
  cs : UInt64
  rflags : UInt64
  deriving DecidableEq, Repr

/-- `*regs`. -/
def ExRegs.load (m : Mem) (regs : UInt64) : ExRegs where
  rax := word m regs 0
  rcx := word m regs 1
  rdx := word m regs 2
  rbx := word m regs 3
  dummy := word m regs 4
  rbp := word m regs 5
  rsi := word m regs 6
  rdi := word m regs 7
  r8 := word m regs 8
  r9 := word m regs 9
  r10 := word m regs 10
  r11 := word m regs 11
  r12 := word m regs 12
  r13 := word m regs 13
  r14 := word m regs 14
  r15 := word m regs 15
  vector := word m regs 16
  errorCode := word m regs 17
  rip := word m regs 18
  cs := word m regs 19
  rflags := word m regs 20

/-- `regs->rip = v`. -/
def setRip (m : Mem) (regs v : UInt64) : Mem := setWord m regs 18 v

/-- `struct ex_record`. -/
structure ExRecord where
  rip : UInt64
  handler : UInt64
  deriving DecidableEq, Repr

/-- The functions that `handle_exception` is given. -/
inductive Handler where
  | checkExceptionTable
  deriving DecidableEq, Repr

/-- What a C function of `desc.c` leaves: it returns, or it enters
`unhandled_exception`, which never does. -/
inductive Handled where
  | returned (mem : Mem) (gs4 : UInt32)
  | unhandled (cpu : Bool) (mem : Mem) (gs4 : UInt32)

/-- The value that `check_exception_table` stores at `gs:4`. -/
def exVal (r : ExRegs) : UInt32 :=
  (r.vector ||| (r.errorCode <<< 16) ||| (((r.rflags >>> 16) &&& 1) <<< 8)).toUInt32

/-- The loop over the records. -/
def findHandler : List ExRecord → UInt64 → Option UInt64
  | [], _ => none
  | ex :: table, rip => if ex.rip = rip then some ex.handler else findHandler table rip

def checkExceptionTable (table : List ExRecord) (m : Mem) (regs : UInt64) : Handled :=
  let gs4 := exVal (ExRegs.load m regs)
  match findHandler table (ExRegs.load m regs).rip with
  | some handler => .returned (setRip m regs handler) gs4
  | none => .unhandled false m gs4

def doHandleException (handlers : Nat → Option Handler) (table : List ExRecord) (m : Mem)
    (regs : UInt64) (gs4 : UInt32) : Handled :=
  let vector := (ExRegs.load m regs).vector.toNat
  match if vector < 256 then handlers vector else none with
  | some .checkExceptionTable => checkExceptionTable table m regs
  | none => .unhandled true m gs4

/-- `movb %gs:4`. -/
def exceptionVector (c : Cpu) : UInt32 := c.gs4.toUInt8.toUInt32

/-- `movb %gs:5`. -/
def exceptionRflagsRf (c : Cpu) : Bool := (c.gs4 >>> 8).toUInt8 &&& 1 ≠ 0

/-! ## The descriptor table -/

/-- `idt_entry_t`. -/
structure IdtEntry where
  offset0 : UInt16
  selector : UInt16
  ist : Fin 8
  type : Fin 16
  dpl : Fin 4
  p : Fin 2
  offset1 : UInt16
  offset2 : UInt32
  deriving DecidableEq, Repr

/-- The entry that `set_idt_entry` makes, where `cs` is what `read_cs`
answers. -/
def setIdtEntry (cs : UInt16) (addr : UInt64) (dpl : Fin 4) : IdtEntry where
  offset0 := addr.toUInt16
  selector := cs
  ist := 0
  type := 14
  dpl := dpl
  p := 1
  offset1 := (addr >>> 16).toUInt16
  offset2 := (addr >>> 32).toUInt32

/-- Where the processor goes through an entry. -/
def IdtEntry.offset (e : IdtEntry) : UInt64 :=
  UInt64.ofNat (e.offset0.toNat + 2 ^ 16 * e.offset1.toNat + 2 ^ 32 * e.offset2.toNat)

/-- The static data of `desc.c`. -/
structure Tables where
  /-- `boot_idt` -/
  idt : Nat → IdtEntry
  /-- `exception_handlers` -/
  handlers : Nat → Option Handler
  /-- `idt_initialized` -/
  initialized : Bool

def handleException (v : Nat) (fn : Handler) (t : Tables) : Tables :=
  { t with handlers := Function.update t.handlers v (some fn) }

/-- `setup_idt`. -/
def setupIdt (g : Image) (cs : UInt16) (t : Tables) : Tables :=
  if t.initialized then t
  else
    let idt := forUpTo (fun i idt =>
      match idtHandlers i with
      | some stub => Function.update idt i (setIdtEntry cs (g.address stub) 0)
      | none => idt) 32 t.idt
    let t := { t with initialized := true, idt := idt }
    let t := handleException 0 .checkExceptionTable t
    let t := handleException 6 .checkExceptionTable t
    handleException 13 .checkExceptionTable t

/-! ## A fault -/

/-- The vectors for which the processor pushes an error code. -/
def errorCodeVectors : List Nat := [8, 10, 11, 12, 13, 14, 17]

/-- What the processor pushes, oldest word first. -/
def Cpu.frame (c : Cpu) (vector : Nat) (errorCode : UInt64) : List UInt64 :=
  [c.ss, c.reg .rsp, c.rflags, c.cs, c.rip] ++
    if vector ∈ errorCodeVectors then [errorCode] else []

/-- The trap, interrupt, nested-task, resume and virtual-8086 flags. -/
def gateFlags : UInt64 := 0x34300

/-- The processor at the first instruction of a stub.  It aligns its stack
and clears some flags. -/
def deliver (c : Cpu) (e : IdtEntry) (vector : Nat) (errorCode : UInt64) : Cpu :=
  { (c.setReg .rsp (c.reg .rsp &&& ~~~15)).pushAll (c.frame vector errorCode) with
    rip := e.offset
    cs := e.selector.toUInt64
    rflags := c.rflags &&& ~~~gateFlags }

/-- What a compiled C function may change apart from what it says: the general
registers and the stack below its caller.  It restores the stack pointer. -/
structure Callee where
  reg : Reg → UInt64
  /-- The words below the stack pointer, highest first. -/
  scratch : List UInt64
  scratch_lt : scratch.length < 2 ^ 32

def Callee.clobber (f : Callee) (c : Cpu) : Cpu :=
  { c with
    reg := fun r => if r = .rsp then c.reg .rsp else f.reg r
    mem := (c.pushAll f.scratch).mem }

inductive Outcome where
  | resumed (c : Cpu)
  /-- `unhandled_exception(regs, cpu)` is entered. -/
  | unhandled (regs : UInt64) (cpu : Bool) (c : Cpu)

/-- The processor in front of the call in `__handle_exception`. -/
def atCall (stub : Stub) (c : Cpu) (e : IdtEntry) (vector : Nat) (errorCode : UInt64) : Cpu :=
  run handleExceptionEntry (run stub.code (deliver c e vector errorCode))

/-- `__handle_exception` behind the call, where `c` has the registers that the
call leaves. -/
def afterCall (c : Cpu) (regs : UInt64) : Handled → Outcome
  | .returned mem gs4 => .resumed (iretq (run handleExceptionExit { c with mem := mem, gs4 := gs4 }))
  | .unhandled cpu mem gs4 => .unhandled regs cpu { c with mem := mem, gs4 := gs4 }

/-- The way of a fault with the given vector.  There is no answer unless the
descriptor is an interrupt gate that stays on the stack and leads to a
stub. -/
def fault (g : Image) (t : Tables) (table : List ExRecord) (f : Callee) (c : Cpu) (vector : Nat)
    (errorCode : UInt64) : Option Outcome :=
  let e := t.idt vector
  if e.p = 1 ∧ e.type = 14 ∧ e.ist = 0 then do
    let stub ← g.stubAt e.offset
    let c := atCall stub c e vector errorCode
    let regs := c.reg .rdi
    let c := f.clobber c
    return afterCall c regs (doHandleException t.handlers table c.mem regs c.gs4)
  else none

end HyperBench.Exception
