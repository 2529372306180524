import HyperBench.AddressSpace
import HyperBench.OnCpu
import HyperBench.Output
import HyperBench.Protocol
import HyperBench.StartLines

/-!
# A whole session

The guest from its first line on, and the host program at the other end of
the serial line.  The texts of the guest come from three models: the start of
the processors (`Smp`), the memory of the benchmarks (`Guest`), and the
harness, which prints around the benchmarks.

* `runJob` ends only if every call of `on_cpu` comes back, which is a matter of
  the processors (`Op.returns`).
* `runJobs_quiet` says what the benchmarks print when there are enough pages.
* `host_reports_session` puts the three models together: the host reports
  every benchmark, whatever the interleaving of the start was.
* `host_stops_at_init` is the other side: a benchmark whose `init` prints
  ends the table.
-/

namespace HyperBench

open Ascii Printf Stdio Host Transition

/-! ## The benchmarks and what they print -/

def IDLE : Nat := 1
def SMSW : Nat := 100000
def PUSHF_POPF : Nat := 100000
def HYPERCALL : Nat := 1000
def IN_SERIAL_PORT : Nat := 1000
def OUT_SERIAL_PORT : Nat := 1000
def PRINTF : Nat := 1000

namespace Bench

/-- `.name` -/
def name : Bench → List UInt8
  | hypercall => ascii "hypercall"
  | idle => ascii "idle"
  | ud2 => ascii "ud2"
  | inSerial => ascii "in-serial"
  | ipi => ascii "ipi"
  | lgdt => ascii "lgdt"
  | memoryCold => ascii "cold-access"
  | memoryHot => ascii "hot-access"
  | memoryPt => ascii "set-pt"
  | outSerial => ascii "out-serial"
  | print => ascii "print"
  | pushfPopf => ascii "pushf-popf"
  | setCr3 => ascii "set-cr3"
  | sgdt => ascii "sgdt"
  | sidt => ascii "sidt"
  | smsw => ascii "smsw"

/-- `.category` -/
def category : Bench → List UInt8
  | hypercall | ud2 | ipi => ascii "exception"
  | idle => ascii "idle"
  | inSerial | outSerial | print => ascii "io"
  | lgdt | setCr3 => ascii "privileged"
  | memoryCold | memoryHot | memoryPt => ascii "memory"
  | pushfPopf | sgdt | sidt | smsw => ascii "critical"

/-- `.iteration_count` -/
def iterationCount : Bench → Nat
  | hypercall => HYPERCALL
  | idle => IDLE
  | ud2 => 1
  | inSerial => IN_SERIAL_PORT
  | ipi => IPI
  | lgdt => LGDT
  | memoryCold => COLD_ACCESS
  | memoryHot => HOT_ACCESS
  | memoryPt => 1
  | outSerial => OUT_SERIAL_PORT
  | print => PRINTF
  | pushfPopf => PUSHF_POPF * 10
  | setCr3 => SET_CR3
  | sgdt => SGDT
  | sidt => SIDT
  | smsw => SMSW * 10

/-- What the kernel of a benchmark sends to the data port itself: `print`
sends its string of 26 letters in every round. -/
def sends : Bench → List UInt8
  | print => (List.replicate PRINTF (List.replicate 26 (chr 'a'))).flatten
  | _ => []

end Bench

/-- What was printed between two states. -/
def Heap.printedSince (s t : Heap) : List UInt8 := (t.printed.drop s.printed.length).flatten

/-- A call of `on_cpu` comes back if its target is one of the processors that
`startothers` has started, and waits for ever otherwise. -/
def Op.returns (cfg : Smp.Config) : Op → Bool
  | .onCpu i => cfg.apicid i ∈ cfg.others
  | _ => true

/-- `harness_execute` on the memory of the guest: what the functions of the
benchmark print, and the state behind them.  There is no result if one of them
does not come to its end. -/
def runJob (cfg : Smp.Config) (g : Guest) (j : Job) : Option (Benchmark × Guest) := do
  let s := j.bench.script j.found
  guard (∀ op ∈ s.ops, op.returns cfg)
  let g₁ ← execAll g s.init
  let g₂ ← execAll g₁ s.control
  let g₃ ← execAll g₂ s.benchmark
  let g₄ ← execAll g₃ s.cleanup
  return ({
    name := j.bench.name
    category := j.bench.category
    init := g.printedSince g₁.toHeap
    benchmarkControl := g₁.printedSince g₂.toHeap
    benchmark := j.bench.sends ++ g₂.printedSince g₃.toHeap
    cleanup := g₃.printedSince g₄.toHeap
    iterationCount := j.bench.iterationCount }, g₄)

/-- The loop of `harness_main`. -/
def runJobs (cfg : Smp.Config) (g : Guest) : List Job → Option (List Benchmark × Guest)
  | [] => some ([], g)
  | j :: js => do
    let (b, g) ← runJob cfg g j
    let (bs, g) ← runJobs cfg g js
    return (b :: bs, g)

theorem notMem_sends (b : Bench) : chr ']' ∉ b.sends := by
  cases b with
  | print =>
    intro h
    obtain ⟨text, htext, hc⟩ := List.mem_flatten.1 h
    rw [List.eq_of_mem_replicate htext] at hc
    exact absurd (List.eq_of_mem_replicate hc) (by decide)
  | _ => exact List.not_mem_nil

/-- The row of a benchmark that prints nothing of its own. -/
def Bench.row (b : Bench) : RowBenchmark where
  name := b.name
  category := b.category
  init := []
  benchmark := b.sends
  benchmarkControl := []
  cleanup := []
  iterationCount := b.iterationCount
  category_ne := by cases b <;> decide
  category_word := by cases b <;> decide +kernel
  category_lt := by cases b <;> decide
  name_ne := by cases b <;> decide
  name_word := by cases b <;> decide +kernel
  name_lt := by cases b <;> decide
  iterationCount_lt := by cases b <;> decide
  init_quiet := idleRow.init_quiet
  cleanup_quiet := idleRow.cleanup_quiet
  control_open := idleRow.control_open
  benchmark_open := notMem_sends b

theorem Script.mem_ops {s : Script} {op : Op} :
    op ∈ s.ops ↔ op ∈ s.init ∨ op ∈ s.control ∨ op ∈ s.benchmark ∨ op ∈ s.cleanup := by
  simp only [Script.ops, List.mem_append, or_assoc]

/-- Only `ipi` calls `on_cpu`, and always for the second entry of the table. -/
theorem onCpu_mem_ops {j : Job} {i : Nat} (h : .onCpu i ∈ j.ops) : j.bench = .ipi ∧ i = 1 := by
  rcases j with ⟨b, d⟩
  rw [Job.ops, Script.mem_ops] at h
  cases b with
  | ipi =>
    simp only [Bench.script, ipi, List.mem_singleton, List.mem_replicate, List.not_mem_nil,
      reduceCtorEq, or_false, false_or, Op.onCpu.injEq] at h
    exact ⟨rfl, h.2⟩
  | _ =>
    simp [Bench.script, storeScript, sgdt, sidt, lgdt, setCr3, memoryCold, memoryHot, memoryPt,
      plain] at h

/-- The second entry of the table is a processor that was started. -/
theorem apicid_one_mem_others {cfg : Smp.Config} {id : Nat} (hid : cfg.apicids[1]? = some id)
    (hne : id ≠ cfg.bsp) : cfg.apicid 1 ∈ cfg.others := by
  have hlen : 1 < cfg.apicids.length := (List.getElem?_eq_some_iff.1 hid).1
  have heq : cfg.apicid 1 = id := by rw [Smp.Config.apicid, List.getD_eq_getElem?_getD, hid]; rfl
  exact Smp.Config.mem_others.2 ⟨heq ▸ hne, 1, hlen, rfl⟩

section Jobs

variable {cfg : Smp.Config} {g g' : Guest}

theorem printedSince_eq_nil {s t : Heap} (h : t.printed = s.printed) : s.printedSince t = [] := by
  rw [Heap.printedSince, h, List.drop_length, List.flatten_nil]

theorem Says.exhausted {s t : Heap} (h : Says s t) (hs : Exhausted s) : Exhausted t := by
  obtain ⟨n, hn⟩ := h
  rw [exhausted_iff] at hs ⊢
  rw [hn]
  exact List.mem_append_left _ hs

theorem exists_of_execAll_append {ops ops' : List Op} (h : execAll g (ops ++ ops') = some g') :
    ∃ g₁, execAll g ops = some g₁ ∧ execAll g₁ ops' = some g' := by
  rw [execAll, List.foldlM_append] at h
  exact Option.bind_eq_some_iff.1 h

/-- A benchmark that does not run out of pages prints nothing of its own. -/
theorem runJob_quiet {j : Job} (hreturns : ∀ op ∈ j.ops, op.returns cfg)
    (h : execAll g j.ops = some g') (hquiet : ¬ Exhausted g'.toHeap) :
    runJob cfg g j = some (j.bench.row.toBenchmark, g') := by
  obtain ⟨g₃, h, hcleanup⟩ := exists_of_execAll_append h
  obtain ⟨g₂, h, hbenchmark⟩ := exists_of_execAll_append h
  obtain ⟨g₁, hinit, hcontrol⟩ := exists_of_execAll_append h
  have hsays₁ := says_execAll hinit
  have hsays₂ := says_execAll hcontrol
  have hsays₃ := says_execAll hbenchmark
  have hsays₄ := says_execAll hcleanup
  have hquiet₃ : ¬ Exhausted g₃.toHeap := fun he => hquiet (hsays₄.exhausted he)
  have hquiet₂ : ¬ Exhausted g₂.toHeap := fun he => hquiet₃ (hsays₃.exhausted he)
  have hquiet₁ : ¬ Exhausted g₁.toHeap := fun he => hquiet₂ (hsays₂.exhausted he)
  have hguard : (guard (∀ op ∈ (j.bench.script j.found).ops, op.returns cfg) : Option Unit)
      = some () := if_pos hreturns
  simp only [runJob, Option.bind_eq_bind, hguard, hinit, hcontrol, hbenchmark, hcleanup,
    Option.bind_some,
    printedSince_eq_nil (hsays₁.printed_eq hquiet₁),
    printedSince_eq_nil (hsays₂.printed_eq hquiet₂),
    printedSince_eq_nil (hsays₃.printed_eq hquiet₃),
    printedSince_eq_nil (hsays₄.printed_eq hquiet), List.append_nil]
  rfl

theorem runJobs_quiet {js : List Job} (hreturns : ∀ op ∈ jobOps js, op.returns cfg)
    (h : execAll g (jobOps js) = some g') (hquiet : ¬ Exhausted g'.toHeap) :
    runJobs cfg g js = some (js.map fun j => j.bench.row.toBenchmark, g') := by
  induction js generalizing g with
  | nil =>
    obtain rfl : g = g' := Option.some.inj h
    rfl
  | cons j js ih =>
    obtain ⟨g₁, hjob, hjobs⟩ := exists_of_execAll_append h
    have hquiet₁ : ¬ Exhausted g₁.toHeap := fun he => hquiet ((says_execAll hjobs).exhausted he)
    have hjob' := runJob_quiet (fun op hop => hreturns op (List.mem_append_left _ hop)) hjob hquiet₁
    have hjobs' := ih (fun op hop => hreturns op (List.mem_append_right _ hop)) hjobs
    simp only [runJobs, hjob', hjobs', Option.bind_eq_bind, Option.bind_some, List.map_cons]
    rfl

end Jobs

/-! ## A session with enough pages -/

/-- What was printed before does not matter. -/
theorem Booted.forget {ptl2 : Nat} {ps : List Nat} {g : Guest} (h : Booted ptl2 ps g) :
    Booted ptl2 ps { g with log := [] } :=
  ⟨h.boot, h.cr3, ⟨h.free.chain, h.free.nodup, h.free.aligned, h.free.bound⟩, h.below, h.apart,
    h.vfreeTop, h.roots, h.loaded⟩

theorem ioramJob_ipi_mem {op : Op} (hop : op ∈ (ioramJob .ipi).ops) : ∀ Keep g, op.Misses Keep g := by
  rw [Job.ops, Script.mem_ops] at hop
  simp only [ioramJob, Bench.script, ipi, List.mem_singleton, List.mem_replicate, List.not_mem_nil,
    false_or] at hop
  rcases hop with rfl | ⟨_, rfl⟩ | rfl <;> exact fun _ _ => trivial

/-- A character that the number of a row cannot start with. -/
def EndsNumber (c : UInt8) : Prop :=
  isSpace c = false ∧ isDigit c = false ∧ c ≠ chr '-' ∧ c ≠ chr '+'

instance (c : UInt8) : Decidable (EndsNumber c) :=
  inferInstanceAs (Decidable (_ ∧ _))

theorem scanInt_ends {c : UInt8} (hc : EndsNumber c) {space : List UInt8}
    (hspace : ∀ c ∈ space, isSpace c = true) (rest : List UInt8) :
    scanInt (space ++ c :: rest) = (none, c :: rest) := by
  obtain ⟨hblank, hdigit, hminus, hplus⟩ := hc
  have hat : AtWord (c :: rest) := by
    intro d hd
    rwa [← Option.some.inj hd]
  have hdigits : (c :: rest).takeWhile isDigit = [] := by
    rw [List.takeWhile_cons_of_neg]
    rw [hdigit]
    exact Bool.false_ne_true
  unfold scanInt
  simp [skipSpace_append hspace hat, hminus, hplus, hdigits]

/-- `fscanf` stops at the text that stands in the place of the number. -/
theorem scanRow_ends (b : RowBenchmark) {c : UInt8} (hc : EndsNumber c) {space : List UInt8}
    (hspace : ∀ c ∈ space, isSpace c = true) (rest : List UInt8) :
    scanRow (space ++ (field 15 b.category ++ (field 15 b.name ++ c :: rest)))
      = (.stop, c :: rest) := by
  rw [scanRow_names b hspace, scanInt_ends hc fun c => blank_isSpace]
  rfl

/-- The row of a benchmark that prints anything, with the words of a row. -/
theorem harnessExecute_words (outside : Int → UInt8) (b : RowBenchmark) {d : Benchmark}
    (hcategory : d.category = b.category) (hname : d.name = b.name)
    (hcount : d.iterationCount = b.iterationCount) :
    ∃ rest, harnessExecute outside d
      = some (field 15 b.category ++ (field 15 b.name ++ (d.init ++ rest))) := by
  rw [harnessExecute, hcategory, hname, hcount, printf_names outside b,
    printf_count outside b.iterationCount_lt, printf_plain outside (by decide +kernel),
    printf_plain outside (by decide +kernel), printf_plain outside (by decide +kernel),
    printf_plain outside (by decide +kernel)]
  simp only [Option.bind_eq_bind, Option.bind_some, List.append_assoc]
  exact ⟨_, rfl⟩

/-- The last wait of the host program ends on every stream. -/
theorem waitEnd_cases (input : Input) (out : List Report) : ∃ input' seen,
    (seen = [] ∨ seen = [.line STR_BENCHMARK_END]) ∧ ∀ fuel, input.length < fuel →
      waitEnd fuel (.ended ⟨input, out⟩) = some (.ended ⟨input', out ++ seen⟩) := by
  rcases readStart_cases isLine_STR_BENCHMARK_END (by decide) input out (Nat.lt_succ_self _)
    with ⟨lines, rest, hlines, hlen, rfl⟩ | hnone
  · refine ⟨rest, _, Or.inr rfl, fun fuel hfuel => ?_⟩
    rw [waitEnd, readStart_append isLine_STR_BENCHMARK_END (by decide) hlines (by omega)]
    rfl
  · refine ⟨[], [], Or.inl rfl, fun fuel hfuel => ?_⟩
    rw [waitEnd, readStart_mono hnone hfuel, List.append_nil]
    rfl

/-- A benchmark whose `init` prints a text that begins with no blank, no digit and
no sign ends the table: the host reports the benchmarks in front of it and no
other, and comes to its end. -/
theorem host_stops_at_init (outside : Int → UInt8) (bs : List RowBenchmark) (b : RowBenchmark)
    {d : Benchmark} (hcategory : d.category = b.category) (hname : d.name = b.name)
    (hcount : d.iterationCount = b.iterationCount) {c : UInt8} {text : List UInt8}
    (hinit : d.init = c :: text) (hc : EndsNumber c) (bs' : List RowBenchmark)
    {lines : List (List UInt8)} (hlines : LinesBefore STR_PIN lines) :
    ∃ rest tail, harnessMain outside (bs.map (·.toBenchmark) ++ d :: bs'.map (·.toBenchmark))
        = some (STR_PIN ++ rest) ∧
      ∃ input seen n, (seen = [] ∨ seen = [.line STR_BENCHMARK_END]) ∧
        ∀ fuel, n ≤ fuel → main fuel (lines.flatten ++ (STR_PIN ++ rest)) = some (.ended ⟨input,
          hostStart ++ tableReport (bs.map (·.toBenchmark)) tail ++ seen⟩) := by
  obtain ⟨front, hrow⟩ := harnessExecute_words outside b hcategory hname hcount
  -- the stream behind the names of the benchmark
  set behind := c :: (text ++ (front ++ ((bs'.map fun b => rowText b.toBenchmark).flatten ++
    (STR_BENCHMARK_END ++ STR_BENCHMARK_END)))) with hbehind
  set tail := field 15 b.category ++ (field 15 b.name ++ behind) with htail
  have hsent : harnessMain outside (bs.map (·.toBenchmark) ++ d :: bs'.map (·.toBenchmark))
      = some (STR_PIN ++ (headerText ++ (STR_BENCHMARK_BEGIN ++
          ((bs.map fun b => rowText b.toBenchmark).flatten ++ tail)))) := by
    rw [harnessMain, harnessMainWith_eq, List.mapM_append, mapM_harnessExecute, List.mapM_cons, hrow,
      mapM_harnessExecute, hinit, htail, hbehind]
    simp only [Option.bind_eq_bind, Option.bind_some, Option.pure_def, Option.map_some,
      List.flatten_append, List.flatten_cons, List.append_assoc, List.cons_append]
    rfl
  obtain ⟨input, seen, hseen, hwait⟩ := waitEnd_cases behind
    (hostStart ++ tableReport (bs.map (·.toBenchmark)) tail)
  refine ⟨_, tail, hsent, input, seen, lines.length +
    ((bs.map fun b => rowText b.toBenchmark).flatten).length + tail.length + 2, hseen, ?_⟩
  intro fuel hfuel
  rw [main_table bs (fun space hspace => scanRow_ends b hc hspace _) hlines (by omega)]
  refine hwait fuel ?_
  rw [htail, List.length_append, List.length_append] at hfuel
  omega

/-- `set-cr3` between `idle` and `print`, when the free list is empty. -/
theorem host_stops_at_setCr3 : ∃ rest tail,
    harnessMain (fun _ => 0) [Bench.idle.row.toBenchmark,
      { Bench.setCr3.row.toBenchmark with init := freelistUninitialized },
      Bench.print.row.toBenchmark] = some (STR_PIN ++ rest) ∧
    ∃ input seen n, (seen = [] ∨ seen = [.line STR_BENCHMARK_END]) ∧
      ∀ fuel, n ≤ fuel → main fuel (STR_PIN ++ rest) = some (.ended ⟨input,
        hostStart ++ tableReport [Bench.idle.row.toBenchmark] tail ++ seen⟩) := by
  have hlines : LinesBefore STR_PIN [] := by simp [LinesBefore]
  have hinit : freelistUninitialized = chr 'f' :: ascii "reelist uninitialized!\n" := by decide
  have hstops := host_stops_at_init (fun _ => 0) [Bench.idle.row] Bench.setCr3.row
    (d := { Bench.setCr3.row.toBenchmark with init := freelistUninitialized }) rfl rfl rfl hinit
    (by decide) [Bench.print.row] hlines
  simpa only [List.map_cons, List.map_nil, List.singleton_append, List.flatten_nil,
    List.nil_append] using hstops

end HyperBench
