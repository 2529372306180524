import HyperBench.Apic
import HyperBench.Idt
import Mathlib.Data.Finset.Basic

/-!
# The processors and their local APICs

In `smp` a command to another processor is one step with a known effect, and
the mode of a local APIC is a value beside the program counter.  Here every
processor has a chip, and a step that goes to a local APIC is made of accesses
to its registers: `lapicw` for `lapicstartap`, the functions behind `apic_ops`
for `__on_cpu` and the handler, `lapic[ID]` for `mycpu`.  A command leaves the
chip as a value and a destination, which the receiving side takes apart.

What the two levels differ in is what can go wrong: an access through the
wrong interface is lost or faults, a chip without its enable bit drops an
interrupt, and an interrupt stays in service until `APIC_EOI` is written.

`ApicSmp` compares the two levels.
-/

namespace HyperBench.Apic

open Transition Function BitField
open Idt (IPI_VECTOR)
open Smp (Mode Config Action IcrCommand BootPc ApPc)

/-! ## The registers -/

/-- The registers of a local APIC that interrupts between processors go
through. -/
structure Lapic where
  /-- The spurious vector register, with the enable bit. -/
  svr : UInt32
  /-- The vectors that are requested. -/
  irr : Finset Nat
  /-- The vectors in service. -/
  isr : Finset Nat
  /-- The commands on their way, with their destinations. -/
  outbox : List (UInt32 × UInt32)
  deriving DecidableEq

namespace Lapic

/-- Behind an INIT, or with the APIC switched off. -/
def reset : Lapic := ⟨0xff, ∅, ∅, []⟩

def Enabled (l : Lapic) : Prop := l.svr.toNat.testBit 8 = true

instance (l : Lapic) : Decidable l.Enabled := inferInstanceAs (Decidable (_ = _))

/-- A write to `APIC_EOI` ends the highest vector in service. -/
def endOfInterrupt (l : Lapic) : Lapic := { l with isr := l.isr.filter fun v => ∃ w ∈ l.isr, v < w }

/-- A fixed interrupt arrives. -/
def accept (vec : Nat) (l : Lapic) : Lapic :=
  if l.Enabled then { l with irr := insert vec l.irr } else l

/-- The vector that the processor is interrupted with: the highest one that
is requested, when its class is above everything in service. -/
def Delivers (l : Lapic) (vec : Nat) : Prop :=
  vec ∈ l.irr ∧ (∀ v ∈ l.irr, v ≤ vec) ∧ ∀ v ∈ l.isr, v / 16 < vec / 16

instance (l : Lapic) (vec : Nat) : Decidable (l.Delivers vec) :=
  inferInstanceAs (Decidable (_ ∧ _ ∧ _))

def deliver (vec : Nat) (l : Lapic) : Lapic :=
  { l with irr := l.irr.erase vec, isr := insert vec l.isr }

end Lapic

def APIC_SPIV : Nat := 0xF0

/-- The registers as a device.  The kernel reads none of them. -/
def lapic (delay : Lapic → Nat) : Device Lapic where
  read reg l := (if reg = APIC_SPIV then l.svr else 0, l)
  write reg val l :=
    if reg = APIC_SPIV then { l with svr := val }
    else if reg = APIC_EOI then l.endOfInterrupt
    else l
  command val dest l := { l with outbox := l.outbox ++ [(val, dest)] }
  delay := delay
  readable reg := reg = APIC_SPIV
  writable reg val := reg = APIC_SPIV ∨ reg = APIC_EOI ∧ val = 0
  extend := id
  reset _ := .reset

/-! ## Commands -/

inductive Message where
  | fixed (vec : Nat)
  | init
  | deassert
  | startup (page : Nat)
  deriving DecidableEq, Repr

/-- The command in a value of the command register, for one physical
destination. -/
def decode (val : UInt32) : Option Message :=
  let n := val.toNat
  if n.testBit 11 || extract n 18 2 != 0 then none
  else match extract n 8 3 with
    | 0 => some (.fixed (extract n 0 8))
    | 5 => some (if n.testBit 14 then .init else .deassert)
    | 6 => some (.startup (extract n 0 8))
    | _ => none

/-- `sipi_entry_mov` puts the code of `sipi_entry` at the address 0. -/
def SIPI_PAGE : Nat := 0

/-- What a command is to a processor of this kernel. -/
def Message.command? : Message → Option IcrCommand
  | .fixed _ => none
  | .init => some .initAssert
  | .deassert => some .initDeassert
  | .startup page => if page = SIPI_PAGE then some .startup else none

/-- What a command does to the registers of its target. -/
def Message.onCore : Message → Lapic → Lapic
  | .fixed vec, l => l.accept vec
  | .init, _ => .reset
  | _, l => l

/-- Where a command leaves the processor that it is for.  One that starts at
another page is none of this kernel any more. -/
def Message.onPc : Message → ApPc → ApPc
  | .init, _ => .waitSipi
  | .startup page, pc => if page = SIPI_PAGE then IcrCommand.startup.effect pc else .off
  | _, pc => pc

/-- `APIC_INT_ASSERT | APIC_DEST_PHYSICAL | APIC_DM_FIXED | IPI_VECTOR`. -/
def ipiCommand : UInt32 := 0x4000 ||| 0 ||| 0 ||| UInt32.ofNat IPI_VECTOR

def ICRLO : Nat := 0x300 / 4

def ICRHI : Nat := 0x310 / 4

def ID : Nat := 0x20 / 4

def INIT : UInt32 := 0x500

def STARTUP : UInt32 := 0x600

def ASSERT : UInt32 := 0x4000

def LEVEL : UInt32 := 0x8000

/-- The writes of `lapicstartap` to the local APIC.  A call of `microdelay`
stands behind each group. -/
def lapicstartap (apicid : UInt8) (addr : UInt32) : List (List (Nat × UInt32)) :=
  [[(ICRHI, apicid.toUInt32 <<< 24), (ICRLO, INIT ||| LEVEL ||| ASSERT)],
    [(ICRLO, INIT ||| LEVEL)],
    [(ICRHI, apicid.toUInt32 <<< 24), (ICRLO, STARTUP ||| addr >>> 12)],
    [(ICRHI, apicid.toUInt32 <<< 24), (ICRLO, STARTUP ||| addr >>> 12)]]

section Chips

variable (D : Device Lapic)

/-- `lapicw`, which reads the id so that the write comes to its end. -/
def lapicw (c : Chip Lapic) (w : Nat × UInt32) : Chip Lapic :=
  (xapicRead D (4 * ID) (xapicWrite D (4 * w.1) w.2 c)).2

/-- `lapicid`, behind the test of the pointer. -/
def lapicid (c : Chip Lapic) : Nat := ((xapicRead D (4 * ID) c).1 >>> 24).toNat

/-- `enable_x2apic` up to the variable `apic_ops`. -/
def enableMode (x2apic : Bool) (c : Chip Lapic) : Except Stop (Chip Lapic) :=
  if x2apic then setExtended D c else .ok c

end Chips

/-! ## The machine -/

/-- The processors and their chips.  The fields `mode` and `pending` of `cpu`
are not used at this level. -/
structure Machine where
  cpu : Smp.State
  chip : Nat → Chip Lapic

namespace Machine

/-- The registers of one chip change. -/
def setCore (m : Machine) (x : Nat) (f : Lapic → Lapic) : Machine :=
  { m with chip := update m.chip x { m.chip x with core := f (m.chip x).core } }

def setCpu (m : Machine) (cpu : Smp.State) : Machine := { m with cpu := cpu }

def setChip (m : Machine) (x : Nat) (c : Chip Lapic) : Machine :=
  { m with chip := update m.chip x c }

/-- The processor `dest` receives a command. -/
def receive (m : Machine) (dest : Nat) (msg : Message) : Machine :=
  (m.setCore dest msg.onCore).setCpu (m.cpu.setAp dest (msg.onPc (m.cpu.ap dest)))

/-- The processor `x` is left with the chip `c`, whose commands go out. -/
def leave (m : Machine) (x : Nat) (c : Chip Lapic) : Machine :=
  m.setChip x { c with core := { c.core with outbox := [] } }

end Machine

/-- The steps that do not go to a local APIC. -/
def Quiet : Action → Prop
  | .bootEnable | .poll | .allStarted | .bootOps | .pin | .onCpu _ | .clear | .loadIcr | .readDone
  | .stack _ | .printEnabling _ | .apOps _ | .sti _ | .store _ | .loadEoi _ | .iret _ => True
  | _ => False

/-- The loop of `mycpu` for the id that it has read. -/
def mycpu (cfg : Config) (id : Nat) : Option Nat := cfg.apicids.findIdx? (· = id)

/-- What `mycpu` may return. -/
def Mycpu (cfg : Config) (id r : Nat) : Prop := ∀ i, mycpu cfg id = some i → r = i

/-- What `mycpu` prints. -/
def unknownApicid (cfg : Config) (id : Nat) : List (List UInt8) :=
  if mycpu cfg id = none then [Ascii.ascii "unknown apicid\n"] else []

inductive Step (cfg : Config) (D : Device Lapic) : Machine → Action → Machine → Prop where
  | quiet {m a t} (ha : Quiet a) (h : Smp.Step cfg m.cpu a t) : Step cfg D m a (m.setCpu t)
  | bootSpurious {m} (h : m.cpu.boot = .spurious) :
      Step cfg D m .bootSpurious
        ((m.setCpu (m.cpu.setBoot (.loop 0))).setChip cfg.bsp
          (xapicWrite D APIC_SPIV 0x1ff (m.chip cfg.bsp)))
  | skip {m i} (h : m.cpu.boot = .loop i) (hi : i < cfg.apicids.length)
      (hr : Mycpu cfg (lapicid D (m.chip cfg.bsp)) i) :
      Step cfg D m .skip (m.setCpu ((m.cpu.print
        (unknownApicid cfg (lapicid D (m.chip cfg.bsp)))).setBoot (.loop (i + 1))))
  | startAp {m i r} (h : m.cpu.boot = .loop i) (hi : i < cfg.apicids.length)
      (hr : Mycpu cfg (lapicid D (m.chip cfg.bsp)) r) (hne : r ≠ i) :
      Step cfg D m (.startAp (cfg.apicid i)) (m.setCpu ((m.cpu.print
        (unknownApicid cfg (lapicid D (m.chip cfg.bsp)))).setBoot (.start i 0)))
  | icrCommand {m i k ws c val dest msg cmd} (h : m.cpu.boot = .start i k)
      (hws : (lapicstartap (UInt8.ofNat (cfg.apicid i)) 0)[k]? = some ws)
      (hc : ws.foldl (lapicw D) (m.chip cfg.bsp) = c) (hout : c.core.outbox = [(val, dest)])
      (hmsg : decode val = some msg) (hcmd : msg.command? = some cmd) :
      Step cfg D m (.icrCommand dest.toNat cmd)
        (((m.setCpu (m.cpu.setBoot
          (if k + 1 < (lapicstartap (UInt8.ofNat (cfg.apicid i)) 0).length then .start i (k + 1)
            else .wait i))).leave cfg.bsp c).receive dest.toNat msg)
  | bootMode {m c} (h : m.cpu.boot = .x2apicMode)
      (hc : enableMode D cfg.x2apic (m.chip cfg.bsp) = .ok c) :
      Step cfg D m .bootMode
        ((m.setCpu (m.cpu.setBoot (cfg.afterMode .x2apicOps .harness))).setChip cfg.bsp c)
  | sendIpi {m x ops fuel c val dest msg} (h : m.cpu.boot = .icr x ops)
      (hc : apicIcrWrite D fuel ops ipiCommand (UInt32.ofNat x) (m.chip cfg.bsp) = .ok c)
      (hout : c.core.outbox = [(val, dest)]) (hmsg : decode val = some msg) :
      Step cfg D m (.sendIpi dest.toNat ops)
        (((m.setCpu (m.cpu.setBoot (.done x))).leave cfg.bsp c).receive dest.toNat msg)
  | printStarting {m x r} (h : m.cpu.ap x = .starting) (hr : Mycpu cfg (lapicid D (m.chip x)) r) :
      Step cfg D m (.printStarting x) (m.setCpu ((m.cpu.print
        (unknownApicid cfg (lapicid D (m.chip x)) ++ unknownApicid cfg (lapicid D (m.chip x)) ++
          [Smp.startingText r])).setAp x .enableApic))
  | spurious {m x} (h : m.cpu.ap x = .spurious) :
      Step cfg D m (.spurious x)
        ((m.setCpu (m.cpu.setAp x .setStarted)).setChip x
          (xapicWrite D APIC_SPIV 0x1ff (m.chip x)))
  | setStarted {m x r} (h : m.cpu.ap x = .setStarted)
      (hr : Mycpu cfg (lapicid D (m.chip x)) r) :
      Step cfg D m (.setStarted x) (m.setCpu (({ m.cpu with
        started := update m.cpu.started r true }.print
          (unknownApicid cfg (lapicid D (m.chip x)))).setAp x .x2apicMode))
  | apMode {m x c} (h : m.cpu.ap x = .x2apicMode)
      (hc : enableMode D cfg.x2apic (m.chip x) = .ok c) :
      Step cfg D m (.apMode x)
        ((m.setCpu (m.cpu.setAp x (cfg.afterMode .x2apicOps .sti))).setChip x c)
  | deliver {m x} (h : m.cpu.ap x = .halted) (hv : (m.chip x).core.Delivers IPI_VECTOR) :
      Step cfg D m (.deliver x)
        ((m.setCpu (m.cpu.setAp x .store)).setCore x (·.deliver IPI_VECTOR))
  | eoi {m x ops c} (h : m.cpu.ap x = .eoi ops)
      (hc : apicWrite D ops APIC_EOI 0 (m.chip x) = .ok c) :
      Step cfg D m (.eoi x ops) ((m.setCpu (m.cpu.setAp x .iret)).setChip x c)

/-- The machine at the start of `enable_apic` in `main`.  Nothing is known
about the registers of the chips. -/
def machine (cfg : Config) (D : Device Lapic) : System Machine Action where
  Init m := (Smp.smp cfg).Init m.cpu ∧ ∀ x, (m.chip x).mode = some .xapic ∧
    (m.chip x).id = UInt32.ofNat x ∧ (m.chip x).core.outbox = []
  Step := Step cfg D

end HyperBench.Apic
