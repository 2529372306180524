import HyperBench.BootTable
import HyperBench.SetupMmu

/-!
# The benchmarks in memory

What the benchmarks of `benchmark/` do to memory, to the page tables and to
the root register.  A function of a benchmark is the list of its operations
(`Op`), and `exec` runs one of them on a `Guest`.  The loops of the
benchmarks that do none of this (`idle`, `smsw`, `pushf_popf`, `hypercall`,
`ud2`, `in`, `out`, `print`) have no operations.

In `sgdt`, `sidt` and `lgdt` the operand of the store is the register of
`"=r"(mem)`.  That is an output of the `asm` statement and not an input, so
the address that the instruction stores to is whatever the register holds.
The address is a part of the operation here (`Descriptor.reg`), and `mem`
has it behind the statement.

A call of `on_cpu` in `ipi` does nothing to this state.  Whether it comes back
is a matter of the processors, and is asked in `Report`.

The kernel runs in ring 0 with the write-protect bit of `cr0` clear, so the
write bit of an entry is not asked for.  An access without a translation
ends the run, which is the answer `none`.
-/

namespace HyperBench

open ByteMem Function

def IORAM_BASE_PHYS : Nat := 0xff000000

def IPI : Nat := 100
def LGDT : Nat := 100000
def SET_CR3 : Nat := 100000
def SGDT : Nat := 100000
def SIDT : Nat := 100000
def COLD_ACCESS : Nat := 100000
def HOT_ACCESS : Nat := 100000

/-! ## The state -/

/-- The variables `mem` and `cr3` of the benchmarks. -/
structure Vars where
  mem : Nat
  cr3 : Nat

structure Guest extends Kernel where
  vars : Vars
  /-- The roots that `setup_mmu` made, oldest first. -/
  roots : List Nat
  /-- The values that were loaded into the root register. -/
  loaded : List Nat
  /-- The accesses of the benchmarks themselves, by physical address. -/
  own : List Event

/-- The address that the register of the operand holds, and the descriptor
register that is stored. -/
structure Descriptor where
  reg : Nat
  value : Vector UInt8 10

/-- The translation of an address under the current root. -/
def Guest.translate (g : Guest) (va : Nat) : Option Nat :=
  if Canonical va then (walk g.mem g.cr3 va).map (·.phys) else none

/-- The physical addresses of the ten bytes at `va`. -/
def Guest.descriptorBytes (g : Guest) (va : Nat) : Option (List Nat) :=
  (List.range 10).mapM fun i => g.translate ((va + i) % 2 ^ 64)

/-- Write one byte each at the addresses. -/
def storeBytes (m : Mem) (addrs : List Nat) (bytes : List UInt8) : Mem :=
  (addrs.zip bytes).foldl (fun m ab => update m ab.1 ab.2) m

/-! ## Operations -/

inductive Op where
  /-- `setup_mmu(end_of_memory)`. -/
  | setupMmu (endOfMemory : Nat)
  /-- `mem = alloc_vpages(2)` and the two calls of `install_page`. -/
  | mapIoram
  /-- `sgdt` or `sidt`. -/
  | storeDescriptor (d : Descriptor)
  /-- `lgdt (mem)`. -/
  | loadDescriptor
  /-- `cr3 = read_cr3()`. -/
  | saveCr3
  /-- `mov cr3, %cr3`. -/
  | loadCr3
  | switchToStartCr3
  /-- A read of one byte. -/
  | read (va : Nat)
  /-- `on_cpu(i, nop, 0)`. -/
  | onCpu (i : Nat)

/-- `mem = alloc_vpages(2)`, and a page of IORAM at `mem` and at
`mem + 4096`. -/
def mapIoram (g : Guest) : Guest :=
  let (mem, k) := allocVpages g.toKernel 2
  let (_, s) := installPage k.toHeap k.cr3 IORAM_BASE_PHYS mem
  let (_, s) := installPage s k.cr3 IORAM_BASE_PHYS ((mem + 4096) % 2 ^ 64)
  { g with toKernel := { k with toHeap := s }, vars := { g.vars with mem := mem } }

def exec (g : Guest) : Op → Option Guest
  | .setupMmu endOfMemory => do
    let (root, k) ← setupMmu g.toKernel endOfMemory
    return { g with toKernel := k, roots := g.roots ++ [root], loaded := g.loaded ++ [root] }
  | .mapIoram => some (mapIoram g)
  | .storeDescriptor d => do
    let addrs ← g.descriptorBytes d.reg
    return { g with
      mem := storeBytes g.mem addrs d.value.toList
      vars := { g.vars with mem := d.reg }
      own := g.own ++ addrs.map (.store · 1) }
  | .loadDescriptor => do
    let addrs ← g.descriptorBytes g.vars.mem
    return { g with own := g.own ++ addrs.map (.load · 1) }
  | .saveCr3 => some { g with vars := { g.vars with cr3 := g.cr3 } }
  | .loadCr3 => some { g with cr3 := g.vars.cr3, loaded := g.loaded ++ [g.vars.cr3] }
  | .switchToStartCr3 =>
    some { g with toKernel := switchToStartCr3 g.toKernel, loaded := g.loaded ++ [g.startCr3] }
  | .read va => do
    let addr ← g.translate va
    return { g with own := g.own ++ [.load addr 1] }
  | .onCpu _ => some g

def execAll (g : Guest) (ops : List Op) : Option Guest := ops.foldlM exec g

/-- What an operation can do to the kernel: it makes a new root, it maps IORAM,
or it leaves the roots, the log and `vfree_top` alone. -/
theorem exec_cases {g g' : Guest} {op : Op} (h : exec g op = some g') :
    (∃ e r k, setupMmu g.toKernel e = some (r, k) ∧
      g' = { g with toKernel := k, roots := g.roots ++ [r], loaded := g.loaded ++ [r] }) ∨
    (op = .mapIoram ∧ g' = mapIoram g) ∨
    g'.roots = g.roots ∧ g'.log = g.log ∧ g'.vfreeTop = g.vfreeTop := by
  cases op with
  | setupMmu e =>
    simp only [exec, Option.bind_eq_bind, Option.bind_eq_some_iff, Option.pure_def] at h
    obtain ⟨⟨r, k⟩, hsetup, h⟩ := h
    exact Or.inl ⟨e, r, k, hsetup, (Option.some.inj h).symm⟩
  | mapIoram => exact Or.inr (Or.inl ⟨rfl, (Option.some.inj h).symm⟩)
  | storeDescriptor | loadDescriptor | read =>
    simp only [exec, Option.bind_eq_bind, Option.bind_eq_some_iff, Option.pure_def] at h
    obtain ⟨_, _, h⟩ := h
    cases Option.some.inj h
    exact Or.inr (Or.inr ⟨rfl, rfl, rfl⟩)
  | saveCr3 | loadCr3 | switchToStartCr3 | onCpu =>
    cases Option.some.inj h
    exact Or.inr (Or.inr ⟨rfl, rfl, rfl⟩)

theorem execAll_cons {g g' : Guest} {op : Op} (h : exec g op = some g') (ops : List Op) :
    execAll g (op :: ops) = execAll g' ops := by
  rw [execAll, List.foldlM_cons, h]
  rfl

theorem execAll_append {g g' : Guest} {ops : List Op} (h : execAll g ops = some g')
    (ops' : List Op) : execAll g (ops ++ ops') = execAll g' ops' := by
  rw [execAll] at h
  rw [execAll, List.foldlM_append, h]
  rfl

theorem exists_of_execAll_cons {g g' : Guest} {op : Op} {ops : List Op}
    (h : execAll g (op :: ops) = some g') :
    ∃ g₁, exec g op = some g₁ ∧ execAll g₁ ops = some g' := by
  rw [execAll, List.foldlM_cons] at h
  exact Option.bind_eq_some_iff.1 h

/-! ## The benchmarks -/

/-- The functions of `benchmark_t`. -/
structure Script where
  init : List Op
  control : List Op
  benchmark : List Op
  cleanup : List Op

/-- The calls of `harness_execute`. -/
def Script.ops (s : Script) : List Op := s.init ++ s.control ++ s.benchmark ++ s.cleanup

/-- `sgdt.c` and `sidt.c`, with what the `n` rounds of the loop find in the
register. -/
def storeScript (n : Nat) (d : Nat → Descriptor) : Script where
  init := [.setupMmu (1 <<< 32), .mapIoram]
  control := []
  benchmark := (List.range n).map fun i => .storeDescriptor (d i)
  cleanup := [.switchToStartCr3]

def sgdt (d : Nat → Descriptor) : Script := storeScript SGDT d

def sidt (d : Nat → Descriptor) : Script := storeScript SIDT d

def lgdt (d : Nat → Descriptor) : Script where
  init := [.setupMmu (1 <<< 32), .mapIoram, .storeDescriptor (d 0)]
  control := []
  benchmark := List.replicate LGDT .loadDescriptor
  cleanup := [.switchToStartCr3]

def setCr3 : Script where
  init := [.setupMmu (1 <<< 32), .saveCr3]
  control := []
  benchmark := List.replicate SET_CR3 .loadCr3
  cleanup := [.switchToStartCr3]

def ipi : Script where
  init := [.setupMmu (1 <<< 32)]
  control := []
  benchmark := List.replicate IPI (.onCpu 1)
  cleanup := [.switchToStartCr3]

/-- `ptr` in the round `i` of `memory-cold.c`. -/
def coldPtr (i : Nat) : Nat := (fun ptr => (ptr + 1) % (1 <<< 30))^[i] 0x4000

/-- The addresses that the loop reads. -/
def coldReads : List Nat := (List.range COLD_ACCESS).map fun i => coldPtr i * 4096

def memoryCold : Script where
  init := [.setupMmu (1 <<< 33)]
  control := []
  benchmark := coldReads.map .read
  cleanup := [.switchToStartCr3]

/-- `address` in the round `i` of `memory-hot.c`. -/
def hotAddress (i : Nat) : Nat := (fun address => (address + 0x1000) % (1 <<< 30))^[i] 0x100000

def hotReads : List Nat := (List.range HOT_ACCESS).map hotAddress

def memoryHot : Script where
  init := .setupMmu (1 <<< 32) :: hotReads.map .read
  control := []
  benchmark := hotReads.map .read
  cleanup := [.switchToStartCr3]

def memoryPt : Script where
  init := []
  control := []
  benchmark := [.setupMmu (1 <<< 32)]
  cleanup := [.switchToStartCr3]

/-- A benchmark that leaves memory and the root register alone. -/
def plain : Script := ⟨[], [], [], []⟩

/-- The benchmarks of the repository. -/
inductive Bench where
  | hypercall
  | idle
  | ud2
  | inSerial
  | ipi
  | lgdt
  | memoryCold
  | memoryHot
  | memoryPt
  | outSerial
  | print
  | pushfPopf
  | setCr3
  | sgdt
  | sidt
  | smsw
  deriving DecidableEq, Repr

def Bench.script (d : Nat → Descriptor) : Bench → Script
  | .ipi => HyperBench.ipi
  | .lgdt => HyperBench.lgdt d
  | .memoryCold => HyperBench.memoryCold
  | .memoryHot => HyperBench.memoryHot
  | .memoryPt => HyperBench.memoryPt
  | .setCr3 => HyperBench.setCr3
  | .sgdt => HyperBench.sgdt d
  | .sidt => HyperBench.sidt d
  | .hypercall | .idle | .ud2 | .inSerial | .outSerial | .print | .pushfPopf | .smsw => plain

/-- A benchmark, with what its `asm` statements find in the register. -/
structure Job where
  bench : Bench
  found : Nat → Descriptor

def Job.ops (j : Job) : List Op := (j.bench.script j.found).ops

/-- The operations of the benchmarks one after the other. -/
def jobOps (js : List Job) : List Op := js.flatMap Job.ops

end HyperBench
