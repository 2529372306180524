import HyperBench.Harness
import HyperBench.HostEnds

/-!
# The protocol between guest and host

The host program on the stream of the harness.  The format is a matter of
two programs: the fields of a row end at the blanks of `printf`, an interval
ends at its closing bracket, and the table ends where the third conversion of
`fscanf` meets the second of two end markers.

* `scanRow_rowText` reads one row back.
* `scanRow_end` is the failing conversion at the end of the table.
* `rowLoop_front` runs the loop over the rows at the front of a table, and
  `main_table` is the host program on a table that ends anywhere.
* `host_reads_harness` is the round trip.
-/

namespace HyperBench

open Ascii Printf Stdio Host

/-! ## What the host should report -/

/-- The time stamps of a row, when `rest` is the stream behind it: each of
them is taken right behind one of the four brackets. -/
def rowTimes (b : Benchmark) (rest : List UInt8) : Cycles :=
  let afterKernel := ascii "\r\n" ++ rest
  let inKernel := b.benchmark ++ chr ']' :: afterKernel
  let afterControl := chr '[' :: inKernel
  let inControl := b.benchmarkControl ++ chr '\x7d' :: afterControl
  ⟨some inControl.length, some afterControl.length, some inKernel.length, some afterKernel.length⟩

def rowReport (b : Benchmark) (rest : List UInt8) : List Report :=
  [.benchmark b.category b.name b.iterationCount, .times (rowTimes b rest)]

/-- One report per benchmark, in order, when `tail` is the stream behind the
table. -/
def tableReport : List Benchmark → List UInt8 → List Report
  | [], _ => []
  | b :: bs, tail => rowReport b ((bs.map rowText).flatten ++ tail) ++ tableReport bs tail

/-! ## One row -/

theorem blank_isSpace {c : UInt8} {n : Nat} (h : c ∈ List.replicate n (chr ' ')) :
    isSpace c = true := by
  rw [(List.mem_replicate.1 h).2]
  rfl

/-- The blanks behind a text that is shorter than its field. -/
theorem field_rest_head {w : Nat} {text : List UInt8} (h : text.length < w) (rest : List UInt8) :
    ∀ c ∈ (List.replicate (w - text.length) (chr ' ') ++ rest).head?, isSpace c = true := by
  intro c hc
  rcases Nat.exists_eq_add_of_lt h with ⟨k, hk⟩
  rw [show w - text.length = k + 1 by omega, List.replicate_succ, List.cons_append,
    List.head?_cons, Option.mem_some_iff] at hc
  rw [← hc]
  rfl

theorem count_rest_head (n : Nat) (rest : List UInt8) :
    ∀ c ∈ (List.replicate n (chr ' ') ++ chr '\x7b' :: rest).head?, isDigit c = false := by
  intro c hc
  cases n with
  | zero =>
    rw [List.replicate_zero, List.nil_append, List.head?_cons, Option.mem_some_iff] at hc
    rw [← hc]
    rfl
  | succ n =>
    rw [List.replicate_succ, List.cons_append, List.head?_cons, Option.mem_some_iff] at hc
    rw [← hc]
    rfl

/-- The number of a row is stored as it was printed. -/
theorem clamp64_numeral {n : Nat} (h : n < 2 ^ 63) :
    (clamp64 (decimal (numeral n)) % 2 ^ 64).toNat = n := by
  rw [decimal_numeral, clamp64]
  omega

/-- What `fscanf` answers with its two words and the outcome of its number. -/
def rowAnswer (category name : List UInt8) : Option Int × Input → Scanned × Input
  | (none, i) => (.stop, i)
  | (some v, i) => (.row category name (v % 2 ^ 64).toNat, skipSpace i)

/-- `fscanf` over the two words of a row. -/
theorem scanRow_names (b : RowBenchmark) {space : List UInt8}
    (hspace : ∀ c ∈ space, isSpace c = true) (rest : List UInt8) :
    scanRow (space ++ (field 15 b.category ++ (field 15 b.name ++ rest)))
      = rowAnswer b.category b.name
          (scanInt (List.replicate (15 - b.name.length) (chr ' ') ++ rest)) := by
  have hcategory := b.category_lt
  have hname := b.name_lt
  have hscan₁ := scanString_append hspace (fun c hc => (b.category_word c hc).2) b.category_ne
    (field_rest_head hcategory (field 15 b.name ++ rest))
  have hblanks : ∀ c ∈ List.replicate (15 - b.category.length) (chr ' '), isSpace c = true :=
    fun _ => blank_isSpace
  have hscan₂ := scanString_append hblanks (fun c hc => (b.name_word c hc).2) b.name_ne
    (field_rest_head hname rest)
  have hfield : ∀ s more : List UInt8, field 15 s ++ more
      = s ++ (List.replicate (15 - s.length) (chr ' ') ++ more) := fun s more =>
    List.append_assoc ..
  rw [scanRow, hfield b.category, hscan₁]
  dsimp only
  rw [if_neg (by show ¬ 128 ≤ b.category.length; omega), hfield b.name, hscan₂]
  dsimp only
  rw [if_neg (by show ¬ 128 ≤ b.name.length; omega)]
  rfl

/-- `fscanf` reads the head of a row back and stops at its first bracket. -/
theorem scanRow_rowText (b : RowBenchmark) {space : List UInt8}
    (hspace : ∀ c ∈ space, isSpace c = true) (rest : List UInt8) :
    scanRow (space ++ (rowHead b.toBenchmark ++ chr '\x7b' :: rest))
      = (.row b.category b.name b.iterationCount, chr '\x7b' :: rest) := by
  have hblanks : ∀ n, ∀ c ∈ List.replicate n (chr ' '), isSpace c = true := fun _ _ => blank_isSpace
  have hscan := scanInt_append (hblanks (15 - b.name.length)) (fun c hc => numeral_isDigit hc)
    (numeralIn_ne_nil 10 b.iterationCount)
    (count_rest_head (10 - (numeral b.iterationCount).length) rest)
  have hskip : skipSpace (List.replicate (10 - (numeral b.iterationCount).length) (chr ' ') ++
      chr '\x7b' :: rest) = chr '\x7b' :: rest :=
    skipSpace_append (hblanks _) (by intro c hc; rw [← Option.some.inj hc]; rfl)
  rw [rowHead, List.append_assoc, List.append_assoc, scanRow_names b hspace,
    show field 10 (numeral b.iterationCount) ++ chr '\x7b' :: rest = _ from List.append_assoc ..,
    hscan, rowAnswer, hskip, clamp64_numeral b.iterationCount_lt]

/-- The third conversion fails at the second end marker, behind the first
one. -/
theorem scanRow_end {space : List UInt8} (hspace : ∀ c ∈ space, isSpace c = true) :
    scanRow (space ++ (STR_BENCHMARK_END ++ STR_BENCHMARK_END)) = (.stop, STR_BENCHMARK_END) := by
  have hscan : scanString (space ++ (ascii "[BENCHMARKS" ++
      (ascii " END]\r\n" ++ STR_BENCHMARK_END))) = (some _, _) :=
    scanString_append hspace (by decide +kernel) (by decide +kernel) (by decide +kernel)
  have hmarker : STR_BENCHMARK_END ++ STR_BENCHMARK_END
      = ascii "[BENCHMARKS" ++ (ascii " END]\r\n" ++ STR_BENCHMARK_END) := by decide
  rw [scanRow, hmarker, hscan]
  decide

/-! ## The table -/

theorem rowText_append (b : Benchmark) (rest : List UInt8) :
    rowText b ++ rest = rowHead b ++ chr '\x7b' :: (b.benchmarkControl ++ chr '\x7d' ::
      (chr '[' :: (b.benchmark ++ chr ']' :: (ascii "\r\n" ++ rest)))) := by
  simp [rowText]

/-- One round of the row loop over one row. -/
theorem rowLoop_row (b : RowBenchmark) {space : List UInt8}
    (hspace : ∀ c ∈ space, isSpace c = true) {fuel : Nat}
    (hfuel : (rowText b.toBenchmark).length < fuel) (rounds : Nat) (t : Cycles)
    (rest : List UInt8) (out : List Report) :
    rowLoop fuel (rounds + 1) t ⟨space ++ (rowText b.toBenchmark ++ rest), out⟩
      = rowLoop fuel rounds (rowTimes b.toBenchmark rest)
          ⟨ascii "\r\n" ++ rest, out ++ rowReport b.toBenchmark rest⟩ := by
  simp only [rowText, List.length_append, List.length_cons] at hfuel
  have hcontrolLen : b.benchmarkControl.length < fuel := by omega
  have hkernelLen : b.benchmark.length < fuel := by omega
  have hcategory : cString b.category = b.category :=
    cString_of_no_nul fun h => (b.category_word 0 h).1 rfl
  have hname : cString b.name = b.name := cString_of_no_nul fun h => (b.name_word 0 h).1 rfl
  set out' := out ++ [Report.benchmark b.category b.name b.iterationCount] with hout'
  have hcontrol := readInterval_append (Or.inr rfl) b.control_open hcontrolLen
    (chr '[' :: (b.benchmark ++ chr ']' :: (ascii "\r\n" ++ rest))) out'
  have hkernel := readInterval_append (Or.inl rfl) b.benchmark_open hkernelLen
    (ascii "\r\n" ++ rest) out'
  simp only [rowLoop, readBenchmark, rowText_append, scanRow_rowText b hspace, hcategory, hname,
    State.print]
  rw [readTimes_eq hcontrol hkernel t, hout', List.append_assoc]
  rfl

/-- The rows at the front of a table are reported, whatever stands behind
them. -/
theorem rowLoop_front (bs : List RowBenchmark) {space : List UInt8}
    (hspace : ∀ c ∈ space, isSpace c = true) {fuel : Nat}
    (hfuel : ((bs.map fun b => rowText b.toBenchmark).flatten).length < fuel) (rounds : Nat)
    (t : Cycles) (rest : List UInt8) (out : List Report) :
    ∃ t' space', (∀ c ∈ space', isSpace c = true) ∧
      rowLoop fuel (bs.length + rounds) t
          ⟨space ++ ((bs.map fun b => rowText b.toBenchmark).flatten ++ rest), out⟩
        = rowLoop fuel rounds t' ⟨space' ++ rest, out ++ tableReport (bs.map (·.toBenchmark)) rest⟩ := by
  induction bs generalizing space t out with
  | nil =>
    refine ⟨t, space, hspace, ?_⟩
    simp only [List.length_nil, Nat.zero_add, List.map_nil, List.flatten_nil, List.nil_append,
      tableReport, List.append_nil]
  | cons b bs ih =>
    rw [List.map_cons, List.flatten_cons, List.length_append] at hfuel
    have hblank : ∀ c ∈ ascii "\r\n", isSpace c = true := by decide +kernel
    obtain ⟨t', space', hspace', hloop⟩ := ih hblank (by omega)
      (rowTimes b.toBenchmark ((bs.map fun b => rowText b.toBenchmark).flatten ++ rest))
      (out ++ rowReport b.toBenchmark ((bs.map fun b => rowText b.toBenchmark).flatten ++ rest))
    refine ⟨t', space', hspace', ?_⟩
    rw [List.map_cons, List.flatten_cons, List.append_assoc, List.length_cons,
      show bs.length + 1 + rounds = bs.length + rounds + 1 by omega,
      rowLoop_row b hspace (by omega), hloop, List.map_cons, tableReport, List.append_assoc,
      List.map_map]
    rfl

/-! ## The round trip -/

/-- Every row has a bracket, so there are no more rows than bytes. -/
theorem length_le_rows (bs : List RowBenchmark) :
    bs.length ≤ ((bs.map fun b => rowText b.toBenchmark).flatten).length := by
  induction bs with
  | nil => simp
  | cons b bs ih =>
    simp only [List.map_cons, List.flatten_cons, List.length_append, List.length_cons, rowText]
      at ih ⊢
    omega

/-- The last end marker is found where the row loop left it. -/
theorem waitEnd_found {fuel : Nat} (hfuel : 0 < fuel) (out : List Report) :
    waitEnd fuel (.ended ⟨STR_BENCHMARK_END, out⟩)
      = some (.ended ⟨[], out ++ [.line STR_BENCHMARK_END]⟩) := by
  have hnone : LinesBefore STR_BENCHMARK_END [] := by simp [LinesBefore]
  have hfound := readStart_append isLine_STR_BENCHMARK_END (by decide) hnone hfuel [] out
  rw [List.flatten_nil, List.nil_append, List.append_nil] at hfound
  rw [waitEnd, hfound]
  rfl

/-- What the host prints in front of the table. -/
def hostStart : List Report := [.line STR_PIN, .pin, .line STR_BENCHMARK_BEGIN, .header]

theorem isLine_headerText : IsLine headerText :=
  ⟨ascii "category       name           iteration \r", by decide, by simp [headerText, ascii]⟩

section Table

variable (bs : List RowBenchmark) {rest rest' : List UInt8}
  (hstop : ∀ space : List UInt8, (∀ c ∈ space, isSpace c = true) →
    scanRow (space ++ rest) = (.stop, rest'))
include hstop

/-- The row loop over a table whose rows end where `fscanf` stops. -/
theorem rowLoop_table {fuel : Nat}
    (hfuel : ((bs.map fun b => rowText b.toBenchmark).flatten).length < fuel) (out : List Report) :
    rowLoop fuel fuel .unset ⟨(bs.map fun b => rowText b.toBenchmark).flatten ++ rest, out⟩
      = some (.ended ⟨rest', out ++ tableReport (bs.map (·.toBenchmark)) rest⟩) := by
  obtain ⟨rounds, hrounds⟩ : ∃ rounds, fuel = bs.length + (rounds + 1) := by
    have hle := length_le_rows bs
    exact ⟨fuel - bs.length - 1, by omega⟩
  have hblank : ∀ c ∈ ([] : List UInt8), isSpace c = true := by simp
  obtain ⟨t, space, hspace, hloop⟩ := rowLoop_front bs hblank hfuel (rounds + 1) .unset rest out
  rw [List.nil_append, ← hrounds] at hloop
  rw [hloop]
  simp only [rowLoop, readBenchmark, hstop space hspace]

/-- The host program on such a table. -/
theorem main_table {lines : List (List UInt8)} (hlines : LinesBefore STR_PIN lines) {fuel : Nat}
    (hfuel : lines.length + ((bs.map fun b => rowText b.toBenchmark).flatten).length + 1 < fuel) :
    main fuel (lines.flatten ++ (STR_PIN ++ (headerText ++ (STR_BENCHMARK_BEGIN ++
        ((bs.map fun b => rowText b.toBenchmark).flatten ++ rest)))))
      = waitEnd fuel (.ended ⟨rest', hostStart ++ tableReport (bs.map (·.toBenchmark)) rest⟩) := by
  have hheader : LinesBefore STR_BENCHMARK_BEGIN [headerText] := by
    intro line hline
    rw [List.mem_singleton.1 hline]
    exact ⟨isLine_headerText, by decide⟩
  have hlen : lines.length < fuel := by omega
  have hmain := main_eq_rowLoop hlines hheader hlen (by simp; omega)
    ((bs.map fun b => rowText b.toBenchmark).flatten ++ rest)
  rw [List.flatten_singleton] at hmain
  exact hmain.trans (congrArg (·.bind (waitEnd fuel))
    (rowLoop_table bs hstop (by omega) hostStart))

end Table

/-- What the harness sends behind the begin marker. -/
def guestRows (bs : List RowBenchmark) : List UInt8 :=
  (bs.map fun b => rowText b.toBenchmark).flatten ++ (STR_BENCHMARK_END ++ STR_BENCHMARK_END)

/-- The host program on the stream of the harness.  The earlier output of the
guest and the header are skipped, the table has one report per benchmark, the
row loop is left at an end marker, and the last `read_start` finds it. -/
theorem host_reads_harness (outside : Int → UInt8) (bs : List RowBenchmark)
    (earlier : List (List UInt8)) (hearlier : LinesBefore STR_PIN earlier) :
    ∃ header, IsLine header ∧
      harnessMain outside (bs.map (·.toBenchmark))
        = some (STR_PIN ++ (header ++ (STR_BENCHMARK_BEGIN ++ guestRows bs))) ∧
      ∀ fuel, earlier.length + (guestRows bs).length < fuel →
        let start := [.line STR_PIN, .pin, .line STR_BENCHMARK_BEGIN, .header]
        let table := tableReport (bs.map (·.toBenchmark)) (STR_BENCHMARK_END ++ STR_BENCHMARK_END)
        rowLoop fuel fuel .unset ⟨guestRows bs, start⟩
          = some (.ended ⟨STR_BENCHMARK_END, start ++ table⟩) ∧
        main fuel (earlier.flatten ++ (STR_PIN ++ (header ++ (STR_BENCHMARK_BEGIN ++ guestRows bs))))
          = some (.ended ⟨[], start ++ table ++ [.line STR_BENCHMARK_END]⟩) := by
  refine ⟨headerText, isLine_headerText, harnessMain_eq outside bs, fun fuel hfuel => ?_⟩
  have hlen : (guestRows bs).length
      = ((bs.map fun b => rowText b.toBenchmark).flatten).length + 36 := by
    rw [guestRows, List.length_append]
    rfl
  refine ⟨rowLoop_table bs (fun _ => scanRow_end) (by omega) _, ?_⟩
  exact (main_table bs (fun _ => scanRow_end) hearlier (by omega)).trans
    (waitEnd_found (by omega) _)

/-- A benchmark that prints in both of its intervals. -/
def printRow (control benchmark : List UInt8) (hcontrol : chr '\x7d' ∉ control)
    (hbenchmark : chr ']' ∉ benchmark) : RowBenchmark :=
  { idleRow with
    name := ascii "print"
    category := ascii "io"
    benchmarkControl := control
    benchmark := benchmark
    iterationCount := 1000
    category_ne := by decide
    category_word := by decide +kernel
    category_lt := by decide
    name_ne := by decide
    name_word := by decide +kernel
    name_lt := by decide
    iterationCount_lt := by decide
    control_open := hcontrol
    benchmark_open := hbenchmark }

/-- The round trip of two benchmarks behind one line of earlier output.  The other
brackets may stand inside an interval. -/
theorem host_reads_printRows :
    ∃ stream, harnessMain (fun _ => 0)
        [(printRow (ascii "[]") (ascii "aaaa") (by decide) (by decide)).toBenchmark,
          (printRow (ascii "b") (ascii "\x7ba\x7d") (by decide) (by decide)).toBenchmark]
        = some stream ∧
      main 200 (ascii "enabling apic\r\n" ++ stream) = some (.ended ⟨[],
        [.line STR_PIN, .pin, .line STR_BENCHMARK_BEGIN, .header,
          .benchmark (ascii "io") (ascii "print") 1000,
          .times ⟨some 97, some 94, some 93, some 88⟩,
          .benchmark (ascii "io") (ascii "print") 1000,
          .times ⟨some 45, some 43, some 42, some 38⟩,
          .line STR_BENCHMARK_END]⟩) := by
  have hearlier : LinesBefore STR_PIN [ascii "enabling apic\r\n"] := by
    intro line hline
    rw [List.mem_singleton.1 hline]
    exact ⟨⟨ascii "enabling apic\r", by decide, by decide⟩, by decide⟩
  obtain ⟨header, _, hsend, hread⟩ := host_reads_harness (fun _ => 0)
    [printRow (ascii "[]") (ascii "aaaa") (by decide) (by decide),
      printRow (ascii "b") (ascii "\x7ba\x7d") (by decide) (by decide)]
    [ascii "enabling apic\r\n"] hearlier
  have hmain := (hread 200 (by decide +kernel)).2
  rw [List.flatten_singleton] at hmain
  refine ⟨_, hsend, hmain.trans ?_⟩
  decide +kernel

end HyperBench
