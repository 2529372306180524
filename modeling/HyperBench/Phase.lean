import HyperBench.Guest

/-!
# The phases of a benchmark

Between two of its operations a benchmark is in one of the phases of `Phase`.
`job_next` says that each benchmark comes back to the phase that it started
in, on the root that the run started with.  Its reads are below 4 GB
(`coldReads_lt`, `hotReads_lt`).

The number of pages that an operation takes from the free list is known
beforehand (`Op.pages`).
-/

namespace HyperBench

open Radix

/-! ## The addresses that are read -/

/-- The remainder does nothing in the rounds of the benchmark. -/
theorem coldPtr_eq {i : Nat} (hi : i < COLD_ACCESS) : coldPtr i = 0x4000 + i := by
  unfold coldPtr
  induction i with
  | zero => rfl
  | succ i ih =>
    rw [Function.iterate_succ_apply', ih (by omega), Nat.one_shiftLeft]
    unfold COLD_ACCESS at hi
    omega

theorem mem_coldReads {va : Nat} :
    va ∈ coldReads ↔ ∃ i, i < COLD_ACCESS ∧ va = (0x4000 + i) * 4096 := by
  simp only [coldReads, List.mem_map, List.mem_range]
  constructor
  · rintro ⟨i, hi, rfl⟩
    exact ⟨i, hi, by rw [coldPtr_eq hi]⟩
  · rintro ⟨i, hi, rfl⟩
    exact ⟨i, hi, by rw [coldPtr_eq hi]⟩

theorem coldReads_lt {va : Nat} (hva : va ∈ coldReads) : va < 2 ^ 32 := by
  rcases mem_coldReads.1 hva with ⟨i, hi, rfl⟩
  unfold COLD_ACCESS at hi
  omega

theorem hotReads_lt {va : Nat} (hva : va ∈ hotReads) : va < 2 ^ 32 := by
  simp only [hotReads, List.mem_map] at hva
  rcases hva with ⟨i, _, rfl⟩
  unfold hotAddress
  cases i with
  | zero => decide
  | succ i =>
    rw [Function.iterate_succ_apply', Nat.one_shiftLeft]
    omega

/-! ## Phases -/

/-- Where a benchmark is between two operations. -/
inductive Phase where
  /-- On the root that the run started with. -/
  | idle
  /-- On a new root that maps the beginning of memory and nothing else. -/
  | fresh
  /-- On a new root, with a mapped address in the variable `mem`. -/
  | mapped
  /-- On a new root, which is in the variable `cr3`. -/
  | saved
  deriving DecidableEq, Repr

def Phase.next : Phase → Op → Option Phase
  | .idle, .setupMmu endOfMemory =>
    if endOfMemory = 1 <<< 32 ∨ endOfMemory = 1 <<< 33 then some .fresh else none
  | .fresh, .mapIoram => some .mapped
  | .fresh, .saveCr3 => some .saved
  | .fresh, .read va => if va < 2 ^ 32 then some .fresh else none
  | .fresh, .onCpu _ => some .fresh
  | .mapped, .storeDescriptor _ => some .mapped
  | .mapped, .loadDescriptor => some .mapped
  | .saved, .loadCr3 => some .saved
  | .fresh, .switchToStartCr3 => some .idle
  | .mapped, .switchToStartCr3 => some .idle
  | .saved, .switchToStartCr3 => some .idle
  | _, _ => none

theorem foldlM_next_stay {ph : Phase} {ops : List Op} (h : ∀ op ∈ ops, ph.next op = some ph) :
    ops.foldlM Phase.next ph = some ph := by
  induction ops with
  | nil => rfl
  | cons op ops ih =>
    rw [List.foldlM_cons, h op List.mem_cons_self]
    exact ih fun op' hop' => h op' (List.mem_cons_of_mem op hop')

theorem Script.next {s : Script} {p q : Phase} (hinit : s.init.foldlM Phase.next .idle = some p)
    (hcontrol : s.control = []) (hbenchmark : s.benchmark.foldlM Phase.next p = some q)
    (hcleanup : s.cleanup.foldlM Phase.next q = some .idle) :
    s.ops.foldlM Phase.next .idle = some .idle := by
  rw [Script.ops, List.foldlM_append, List.foldlM_append, List.foldlM_append, hinit, hcontrol]
  show (s.benchmark.foldlM Phase.next p).bind (fun q => s.cleanup.foldlM Phase.next q) = some .idle
  rw [hbenchmark]
  exact hcleanup

theorem storeScript_next (n : Nat) (d : Nat → Descriptor) :
    (storeScript n d).ops.foldlM Phase.next .idle = some .idle := by
  refine Script.next (p := .mapped) (q := .mapped) rfl rfl (foldlM_next_stay fun op hop => ?_) rfl
  rcases List.mem_map.1 hop with ⟨i, _, rfl⟩
  rfl

theorem foldlM_next_read {reads : List Nat} (h : ∀ va ∈ reads, va < 2 ^ 32) :
    (reads.map Op.read).foldlM Phase.next .fresh = some .fresh := by
  refine foldlM_next_stay fun op hop => ?_
  rcases List.mem_map.1 hop with ⟨va, hva, rfl⟩
  rw [Phase.next, if_pos (h va hva)]

/-- Every benchmark comes back to the root that it started on. -/
theorem job_next (j : Job) : j.ops.foldlM Phase.next .idle = some .idle := by
  rcases j with ⟨b, d⟩
  cases b with
  | ipi =>
    refine Script.next (p := .fresh) (q := .fresh) rfl rfl (foldlM_next_stay fun op hop => ?_) rfl
    rw [List.eq_of_mem_replicate hop]
    rfl
  | memoryPt => exact Script.next (p := .idle) (q := .fresh) rfl rfl rfl rfl
  | sgdt => exact storeScript_next SGDT d
  | sidt => exact storeScript_next SIDT d
  | lgdt =>
    refine Script.next (p := .mapped) (q := .mapped) rfl rfl (foldlM_next_stay fun op hop => ?_) rfl
    rw [List.eq_of_mem_replicate hop]
    rfl
  | setCr3 =>
    refine Script.next (p := .saved) (q := .saved) rfl rfl (foldlM_next_stay fun op hop => ?_) rfl
    rw [List.eq_of_mem_replicate hop]
    rfl
  | memoryCold =>
    refine Script.next (p := .fresh) (q := .fresh) rfl rfl ?_ rfl
    simp only [Bench.script, memoryCold]
    exact foldlM_next_read fun _ => coldReads_lt
  | memoryHot =>
    refine Script.next (p := .fresh) (q := .fresh) ?_ rfl ?_ rfl
    · have hsetup : Phase.idle.next (.setupMmu (1 <<< 32)) = some .fresh := rfl
      simp only [Bench.script, memoryHot]
      rw [List.foldlM_cons, hsetup, Option.bind_eq_bind, Option.bind_some]
      exact foldlM_next_read fun _ => hotReads_lt
    · simp only [Bench.script, memoryHot]
      exact foldlM_next_read fun _ => hotReads_lt
  | hypercall | idle | ud2 | inSerial | outSerial | print | pushfPopf | smsw => rfl

theorem jobOps_next (js : List Job) : (jobOps js).foldlM Phase.next .idle = some .idle := by
  induction js with
  | nil => rfl
  | cons j js ih =>
    rw [jobOps, List.flatMap_cons, List.foldlM_append, job_next]
    exact ih

/-! ## Pages -/

/-- The number of pages that an operation takes. -/
def Op.pages : Op → Nat
  | .setupMmu endOfMemory => 1 + need 512 4 (mappedPages endOfMemory) 3
  | .mapIoram => 3
  | _ => 0

def pagesFor (ops : List Op) : Nat := (ops.map Op.pages).sum

theorem pagesFor_cons (op : Op) (ops : List Op) : pagesFor (op :: ops) = op.pages + pagesFor ops := by
  simp [pagesFor]

theorem pagesFor_append (ops ops' : List Op) :
    pagesFor (ops ++ ops') = pagesFor ops + pagesFor ops' := by
  simp [pagesFor]

theorem pagesFor_eq_zero {ops : List Op} (h : ∀ op ∈ ops, op.pages = 0) : pagesFor ops = 0 := by
  induction ops with
  | nil => rfl
  | cons op ops ih =>
    rw [pagesFor_cons, h op List.mem_cons_self, ih fun op' hop' => h op' (List.mem_cons_of_mem op hop')]

theorem pagesFor_read (reads : List Nat) : pagesFor (reads.map .read) = 0 := by
  refine pagesFor_eq_zero fun op hop => ?_
  rcases List.mem_map.1 hop with ⟨va, _, rfl⟩
  rfl

theorem pagesFor_replicate {n : Nat} {op : Op} (h : op.pages = 0) :
    pagesFor (List.replicate n op) = 0 := by
  refine pagesFor_eq_zero fun op' hop' => ?_
  rw [List.eq_of_mem_replicate hop', h]

/-- The number of pages that a benchmark takes. -/
def Bench.pages : Bench → Nat
  | .sgdt | .sidt | .lgdt => 2057
  | .ipi | .memoryHot | .memoryPt | .setCr3 => 2054
  | .memoryCold => 4106
  | .hypercall | .idle | .ud2 | .inSerial | .outSerial | .print | .pushfPopf | .smsw => 0

theorem pagesFor_storeScript (n : Nat) (d : Nat → Descriptor) :
    pagesFor (storeScript n d).ops = 2057 := by
  have hstores : pagesFor (storeScript n d).benchmark = 0 := by
    refine pagesFor_eq_zero fun op hop => ?_
    rcases List.mem_map.1 hop with ⟨i, _, rfl⟩
    rfl
  rw [Script.ops, pagesFor_append, pagesFor_append, hstores]
  rfl

theorem pagesFor_job (j : Job) : pagesFor j.ops = j.bench.pages := by
  rcases j with ⟨b, d⟩
  cases b with
  | sgdt => exact pagesFor_storeScript SGDT d
  | sidt => exact pagesFor_storeScript SIDT d
  | lgdt =>
    have hloads : pagesFor (lgdt d).benchmark = 0 := pagesFor_replicate rfl
    rw [Job.ops, Bench.script, Script.ops, pagesFor_append, pagesFor_append, hloads]
    rfl
  | setCr3 =>
    have hloads : pagesFor setCr3.benchmark = 0 := pagesFor_replicate rfl
    rw [Job.ops, Bench.script, Script.ops, pagesFor_append, pagesFor_append, hloads]
    rfl
  | memoryCold =>
    have hreads : pagesFor memoryCold.benchmark = 0 := by
      rw [memoryCold, pagesFor_read]
    rw [Job.ops, Bench.script, Script.ops, pagesFor_append, pagesFor_append, hreads]
    rfl
  | memoryHot =>
    have hreads : pagesFor memoryHot.benchmark = 0 := by
      rw [memoryHot, pagesFor_read]
    have hinit : pagesFor memoryHot.init = 2054 := by
      rw [memoryHot, pagesFor_cons, pagesFor_read]
      rfl
    rw [Job.ops, Bench.script, Script.ops, pagesFor_append, pagesFor_append, pagesFor_append, hreads, hinit]
    rfl
  | ipi =>
    have hcalls : pagesFor ipi.benchmark = 0 := pagesFor_replicate rfl
    rw [Job.ops, Bench.script, Script.ops, pagesFor_append, pagesFor_append, hcalls]
    rfl
  | memoryPt | hypercall | idle | ud2 | inSerial | outSerial | print | pushfPopf | smsw => rfl

theorem pagesFor_jobOps (js : List Job) :
    pagesFor (jobOps js) = (js.map (·.bench.pages)).sum := by
  induction js with
  | nil => rfl
  | cons j js ih =>
    rw [jobOps, List.flatMap_cons, pagesFor_append, pagesFor_job, List.map_cons, List.sum_cons, ← ih]
    rfl

end HyperBench
