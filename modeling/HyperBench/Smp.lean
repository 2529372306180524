import HyperBench.Lib.Transition
import HyperBench.Printf
import Mathlib.Logic.Function.Basic

/-!
# The processors of the machine

The boot processor in `main` and every application processor from its
start-up interrupt on, as one transition system: `startothers`,
`lapicstartap` and `enable_x2apic` on one side, `ap_start32`, `mpenter` and
the handler `ipi` on the other.  One step is one access to something that
the processors share, so a run is any interleaving.

A processor is named by its APIC id.  The table `cpus` is the one that
`mpinit` left, and does not change any more.
-/

namespace HyperBench.Smp

open Transition Function Ascii Printf

def NCPU : Nat := 64

/-- The two modes of a local APIC, and the two values of `apic_ops`. -/
inductive Mode where
  | xapic
  | x2apic
  deriving DecidableEq, Repr

/-- The machine, as `mpinit` found it. -/
structure Config where
  /-- `cpus[i].apicid` for `i < ncpu`. -/
  apicids : List Nat
  /-- The APIC id of the boot processor. -/
  bsp : Nat
  /-- The x2APIC bit of `cpuid`, which is the same on all processors. -/
  x2apic : Bool
  nodup : apicids.Nodup
  length_le : apicids.length ≤ NCPU

/-- `cpus[i].apicid`.  The array starts as zero. -/
def Config.apicid (cfg : Config) (i : Nat) : Nat := cfg.apicids.getD i 0

/-- The mode that `enable_x2apic` leads to. -/
def Config.final (cfg : Config) : Mode := if cfg.x2apic then .x2apic else .xapic

/-- The interrupt commands of `lapicstartap`. -/
inductive IcrCommand where
  | initAssert
  | initDeassert
  | startup
  deriving DecidableEq, Repr

def lapicstartap : List IcrCommand := [.initAssert, .initDeassert, .startup, .startup]

/-- Where the boot processor is: in front of the step that the name says. -/
inductive BootPc where
  /-- `printf("enabling apic\r\n")` of `enable_apic`. -/
  | enableApic
  /-- `xapic_write(0xf0, 0x1ff)` of `enable_apic`. -/
  | spurious
  /-- The loop of `startothers` at `c = cpus + i`. -/
  | loop (i : Nat)
  /-- The command `k` of `lapicstartap`. -/
  | start (i k : Nat)
  /-- `while(c->started == 0)`. -/
  | wait (i : Nat)
  /-- The write to the mode register in `enable_x2apic`. -/
  | x2apicMode
  /-- `apic_ops = &x2apic_ops`. -/
  | x2apicOps
  /-- The first `printf` of `harness_main`. -/
  | harness
  /-- Between two calls of `on_cpu`. -/
  | ready
  /-- `ipi_done = 0` of `__on_cpu`. -/
  | clear (x : Nat)
  /-- The load of `apic_ops` in `apic_icr_write`. -/
  | load (x : Nat)
  /-- The call through the pointer that was loaded. -/
  | icr (x : Nat) (ops : Mode)
  /-- `while(!ipi_done)`. -/
  | done (x : Nat)
  deriving DecidableEq, Repr

/-- Where an application processor is. -/
inductive ApPc where
  /-- Not started by this kernel. -/
  | off
  /-- Reset by an INIT. -/
  | waitSipi
  /-- `sipi_entry`, up to the `xaddl` of `ap_start32`. -/
  | trampoline
  /-- The first `printf` of `mpenter`. -/
  | starting
  /-- `printf("enabling apic\r\n")` of `enable_apic`. -/
  | enableApic
  /-- `xapic_write(0xf0, 0x1ff)` of `enable_apic`. -/
  | spurious
  /-- `xchg(&(mycpu()->started), 1)`. -/
  | setStarted
  /-- The write to the mode register in `enable_x2apic`. -/
  | x2apicMode
  /-- `apic_ops = &x2apic_ops`. -/
  | x2apicOps
  /-- `sti` of `ap_start64`. -/
  | sti
  /-- The loop around `hlt`, with interrupts enabled. -/
  | halted
  /-- `ipi_done = 1` of the handler. -/
  | store
  /-- The load of `apic_ops` in `apic_write`. -/
  | load
  /-- The write to `APIC_EOI` through the pointer that was loaded. -/
  | eoi (ops : Mode)
  /-- `iretq`. -/
  | iret
  deriving DecidableEq, Repr

structure State where
  boot : BootPc
  ap : Nat → ApPc
  /-- The mode of each local APIC. -/
  mode : Nat → Mode
  apicOps : Mode
  /-- `cpus[i].started`. -/
  started : Nat → Bool
  smpStacktop : Nat
  /-- The stack pointer of `ap_start32`, once it is set. -/
  esp : Nat → Option Nat
  ipiDone : Bool
  /-- An interrupt of the vector `IPI_VECTOR` waits for delivery. -/
  pending : Nat → Bool
  /-- The texts that were printed. -/
  out : List (List UInt8)

namespace State

def setBoot (s : State) (pc : BootPc) : State := { s with boot := pc }

def setAp (s : State) (x : Nat) (pc : ApPc) : State := { s with ap := update s.ap x pc }

def print (s : State) (texts : List (List UInt8)) : State := { s with out := s.out ++ texts }

end State

/-! ## `x86_64/proc.c` -/

/-- `lapicid` on the processor `x`.  In x2APIC mode the memory-mapped
registers are not there, and a read gives all ones. -/
def lapicid (s : State) (x : Nat) : Nat :=
  match s.mode x with
  | .xapic => x
  | .x2apic => 0xff

/-- The index that the loop of `mycpu` returns. -/
def mycpu (cfg : Config) (s : State) (x : Nat) : Option Nat :=
  cfg.apicids.findIdx? (· = lapicid s x)

/-- What `mycpu` may return on the processor `x`.  When no entry has its id
the function runs off its end, and the value is not specified. -/
def Mycpu (cfg : Config) (s : State) (x r : Nat) : Prop := ∀ i, mycpu cfg s x = some i → r = i

/-- What `mycpu` prints. -/
def unknownApicid (cfg : Config) (s : State) (x : Nat) : List (List UInt8) :=
  if mycpu cfg s x = none then [ascii "unknown apicid\n"] else []

/-! ## The texts -/

def startingText (id : Nat) : List UInt8 :=
  (printf (fun _ => 0) (ascii "cpu%d: starting %d\r\n") [.word id, .word id]).getD []

def enablingText : List UInt8 := ascii "enabling apic\r\n"

def pinText : List UInt8 := ascii "*\r\n"

/-! ## The steps -/

inductive Action where
  | bootEnable
  | bootSpurious
  | skip
  | startAp (x : Nat)
  | icrCommand (x : Nat) (cmd : IcrCommand)
  | poll
  | allStarted
  | bootMode
  | bootOps
  | pin
  | onCpu (x : Nat)
  | clear
  | loadIcr
  | sendIpi (x : Nat) (ops : Mode)
  | readDone
  | stack (x : Nat)
  | printStarting (x : Nat)
  | printEnabling (x : Nat)
  | spurious (x : Nat)
  | setStarted (x : Nat)
  | apMode (x : Nat)
  | apOps (x : Nat)
  | sti (x : Nat)
  | deliver (x : Nat)
  | store (x : Nat)
  | loadEoi (x : Nat)
  | eoi (x : Nat) (ops : Mode)
  | iret (x : Nat)
  deriving DecidableEq, Repr

/-- What an interrupt command does to its target.  A processor that runs
already ignores a start-up interrupt. -/
def IcrCommand.effect : IcrCommand → ApPc → ApPc
  | .initAssert, _ => .waitSipi
  | .initDeassert, pc => pc
  | .startup, .waitSipi => .trampoline
  | .startup, pc => pc

/-- The program counter behind the mode register of `enable_x2apic`, which
does nothing without the bit of `cpuid`. -/
def Config.afterMode {α : Type} (cfg : Config) (ops skip : α) : α := if cfg.x2apic then ops else skip

inductive Step (cfg : Config) : State → Action → State → Prop where
  | bootEnable {s} (h : s.boot = .enableApic) :
      Step cfg s .bootEnable ((s.print [enablingText]).setBoot .spurious)
  | bootSpurious {s} (h : s.boot = .spurious) :
      Step cfg s .bootSpurious (s.setBoot (.loop 0))
  | skip {s i} (h : s.boot = .loop i) (hi : i < cfg.apicids.length) (hr : Mycpu cfg s cfg.bsp i) :
      Step cfg s .skip ((s.print (unknownApicid cfg s cfg.bsp)).setBoot (.loop (i + 1)))
  | startAp {s i r} (h : s.boot = .loop i) (hi : i < cfg.apicids.length)
      (hr : Mycpu cfg s cfg.bsp r) (hne : r ≠ i) :
      Step cfg s (.startAp (cfg.apicid i))
        ((s.print (unknownApicid cfg s cfg.bsp)).setBoot (.start i 0))
  | icrCommand {s i k cmd} (h : s.boot = .start i k) (hcmd : lapicstartap[k]? = some cmd) :
      Step cfg s (.icrCommand (cfg.apicid i) cmd)
        ((s.setAp (cfg.apicid i) (cmd.effect (s.ap (cfg.apicid i)))).setBoot
          (if k + 1 < lapicstartap.length then .start i (k + 1) else .wait i))
  | poll {s i} (h : s.boot = .wait i) :
      Step cfg s .poll (s.setBoot (if s.started i then .loop (i + 1) else .wait i))
  | allStarted {s i} (h : s.boot = .loop i) (hi : cfg.apicids.length ≤ i) :
      Step cfg s .allStarted (s.setBoot .x2apicMode)
  | bootMode {s} (h : s.boot = .x2apicMode) :
      Step cfg s .bootMode ({ s with mode := update s.mode cfg.bsp cfg.final }.setBoot
        (cfg.afterMode .x2apicOps .harness))
  | bootOps {s} (h : s.boot = .x2apicOps) :
      Step cfg s .bootOps ({ s with apicOps := .x2apic }.setBoot .harness)
  | pin {s} (h : s.boot = .harness) :
      Step cfg s .pin ((s.print [pinText]).setBoot .ready)
  | onCpu {s} (i : Nat) (h : s.boot = .ready) :
      Step cfg s (.onCpu (cfg.apicid i)) (s.setBoot (.clear (cfg.apicid i)))
  | clear {s x} (h : s.boot = .clear x) :
      Step cfg s .clear ({ s with ipiDone := false }.setBoot (.load x))
  | loadIcr {s x} (h : s.boot = .load x) :
      Step cfg s .loadIcr (s.setBoot (.icr x s.apicOps))
  | sendIpi {s x ops} (h : s.boot = .icr x ops) :
      Step cfg s (.sendIpi x ops) ({ s with pending := update s.pending x true }.setBoot (.done x))
  | readDone {s x} (h : s.boot = .done x) :
      Step cfg s .readDone (s.setBoot (if s.ipiDone then .ready else .done x))
  | stack {s x} (h : s.ap x = .trampoline) :
      Step cfg s (.stack x) ({ s with
        esp := update s.esp x (some s.smpStacktop)
        smpStacktop := (s.smpStacktop + 2 ^ 32 - 4096) % 2 ^ 32 }.setAp x .starting)
  | printStarting {s x r} (h : s.ap x = .starting) (hr : Mycpu cfg s x r) :
      Step cfg s (.printStarting x)
        ((s.print (unknownApicid cfg s x ++ unknownApicid cfg s x ++ [startingText r])).setAp x
          .enableApic)
  | printEnabling {s x} (h : s.ap x = .enableApic) :
      Step cfg s (.printEnabling x) ((s.print [enablingText]).setAp x .spurious)
  | spurious {s x} (h : s.ap x = .spurious) :
      Step cfg s (.spurious x) (s.setAp x .setStarted)
  | setStarted {s x r} (h : s.ap x = .setStarted) (hr : Mycpu cfg s x r) :
      Step cfg s (.setStarted x)
        (({ s with started := update s.started r true }.print (unknownApicid cfg s x)).setAp x
          .x2apicMode)
  | apMode {s x} (h : s.ap x = .x2apicMode) :
      Step cfg s (.apMode x) ({ s with mode := update s.mode x cfg.final }.setAp x
        (cfg.afterMode .x2apicOps .sti))
  | apOps {s x} (h : s.ap x = .x2apicOps) :
      Step cfg s (.apOps x) ({ s with apicOps := .x2apic }.setAp x .sti)
  | sti {s x} (h : s.ap x = .sti) : Step cfg s (.sti x) (s.setAp x .halted)
  | deliver {s x} (h : s.ap x = .halted) (hp : s.pending x = true) :
      Step cfg s (.deliver x) ({ s with pending := update s.pending x false }.setAp x .store)
  | store {s x} (h : s.ap x = .store) :
      Step cfg s (.store x) ({ s with ipiDone := true }.setAp x .load)
  | loadEoi {s x} (h : s.ap x = .load) :
      Step cfg s (.loadEoi x) (s.setAp x (.eoi s.apicOps))
  | eoi {s x ops} (h : s.ap x = .eoi ops) :
      Step cfg s (.eoi x ops) (s.setAp x .iret)
  | iret {s x} (h : s.ap x = .iret) : Step cfg s (.iret x) (s.setAp x .halted)

/-- The machine at the start of `enable_apic` in `main`, behind the
`early_mem_init` that prints the earlier lines. -/
def smp (cfg : Config) : System State Action where
  Init s := s.boot = .enableApic ∧ s.apicOps = .xapic ∧ s.smpStacktop = 0xa0000 ∧
    ∀ x, s.ap x = .off ∧ s.mode x = .xapic ∧ s.started x = false ∧ s.esp x = none ∧
      s.pending x = false
  Step := Step cfg

/-- The machine, when `early` was printed before `enable_apic`. -/
def boots (cfg : Config) (early : List (List UInt8)) : System State Action where
  Init s := (smp cfg).Init s ∧ s.out = early
  Step := Step cfg

theorem boots_run {cfg : Config} {early : List (List UInt8)} {as : List Action} {s : State}
    (hrun : Run (boots cfg early) as s) : Run (smp cfg) as s := by
  induction hrun with
  | init hinit => exact .init hinit.1
  | step _ hstep ih => exact ih.step hstep

end HyperBench.Smp
