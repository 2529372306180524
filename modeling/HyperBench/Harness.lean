import HyperBench.Lib.Stdio
import HyperBench.PrintfPieces

/-!
# `harness/harness.c`

What the guest sends over the serial line in the build without
`__BARE_METAL`.  The functions of a benchmark appear as the texts that they
print.

`harnessExecute_eq` gives the row of a benchmark in closed form.  The table
around the rows is the same in both builds, so `harnessMainWith` has the row as a
parameter, and `harnessMainWith_eq` is its text.
-/

namespace HyperBench

open Ascii CObject Printf Stdio

/-- `benchmark_t`, with what its functions print.  A benchmark without
`init` prints nothing there. -/
structure Benchmark where
  name : List UInt8
  category : List UInt8
  init : List UInt8
  benchmark : List UInt8
  benchmarkControl : List UInt8
  cleanup : List UInt8
  iterationCount : Nat
  deriving DecidableEq, Repr

/-- The texts in the order in which `harness_execute` makes them. -/
def harnessExecute (outside : Int → UInt8) (b : Benchmark) : Option (List UInt8) := do
  let names ← printf outside (ascii "%-15s%-15s") [.str b.category, .str b.name]
  let count ← printf outside (ascii "%-10ld") [.word b.iterationCount]
  let controlBegin ← printf outside (ascii "\x7b") []
  let controlEnd ← printf outside (ascii "\x7d") []
  let kernelBegin ← printf outside (ascii "[") []
  let kernelEnd ← printf outside (ascii "]\r\n") []
  return names ++ b.init ++ count ++ controlBegin ++ b.benchmarkControl ++ controlEnd
    ++ kernelBegin ++ b.benchmark ++ kernelEnd ++ b.cleanup

/-- `harness_main`, when a round of its loop prints `execute b`. -/
def harnessMainWith {β : Type} (outside : Int → UInt8) (execute : β → Option (List UInt8))
    (benchmarks : List β) : Option (List UInt8) := do
  let pin ← printf outside (ascii "*\r\n") []
  let header ← printf outside (ascii "%-15s%-15s%-10s\r\n")
    [.str (ascii "category"), .str (ascii "name"), .str (ascii "iteration")]
  let begin_ ← printf outside (ascii "[BENCHMARKS BEGIN]\r\n") []
  let rows ← benchmarks.mapM execute
  let end_ ← printf outside (ascii "[BENCHMARKS END]\r\n") []
  return pin ++ header ++ begin_ ++ rows.flatten ++ end_ ++ end_

def harnessMain (outside : Int → UInt8) (benchmarks : List Benchmark) : Option (List UInt8) :=
  harnessMainWith outside (harnessExecute outside) benchmarks

/-- A benchmark whose row can be told apart by its reader. -/
structure RowBenchmark extends Benchmark where
  category_ne : category ≠ []
  category_word : ∀ c ∈ category, c ≠ 0 ∧ isSpace c = false
  category_lt : category.length < 15
  name_ne : name ≠ []
  name_word : ∀ c ∈ name, c ≠ 0 ∧ isSpace c = false
  name_lt : name.length < 15
  iterationCount_lt : iterationCount < 2 ^ 63
  init_quiet : init = []
  cleanup_quiet : cleanup = []
  control_open : chr '\x7d' ∉ benchmarkControl
  benchmark_open : chr ']' ∉ benchmark

/-- The benchmark of `benchmark/idle.c`, which prints nothing. -/
def idleRow : RowBenchmark where
  name := ascii "idle"
  category := ascii "idle"
  init := []
  benchmark := []
  benchmarkControl := []
  cleanup := []
  iterationCount := 1
  category_ne := by decide
  category_word := by decide +kernel
  category_lt := by decide
  name_ne := by decide
  name_word := by decide +kernel
  name_lt := by decide
  iterationCount_lt := by decide
  init_quiet := rfl
  cleanup_quiet := rfl
  control_open := by decide
  benchmark_open := by decide

/-! ## The calls of `printf` -/

def width10 : Width := ⟨10, by decide⟩

def width15 : Width := ⟨15, by decide⟩

theorem printf_names (outside : Int → UInt8) (b : RowBenchmark) :
    printf outside (ascii "%-15s%-15s") [.str b.category, .str b.name]
      = some (field 15 b.category ++ field 15 b.name) := by
  have hcategory := b.category_lt
  have hname := b.name_lt
  have hlen := field_length_le 15 b.category
  have hlen' := field_length_le 15 b.name
  let d := Layout.column width15 .none
  have hfmt : ascii "%-15s%-15s" = d.format (chr 's') ++ d.format (chr 's') := by decide +kernel
  have hrun := printf_pieces [Piece.string outside d b.category (by omega),
    Piece.string outside d b.name (by omega)]
  simp only [List.flatMap_cons, List.flatMap_nil, List.append_nil, Piece.string_fmt,
    Piece.string_args, Piece.string_text, d, Layout.column_string] at hrun
  rw [hfmt]
  refine hrun ?_ ?_
  · show (field 15 b.category ++ field 15 b.name).length < 2000
    rw [List.length_append]
    omega
  · rw [List.mem_append, not_or]
    exact ⟨field_no_nul fun h => (b.category_word 0 h).1 rfl,
      field_no_nul fun h => (b.name_word 0 h).1 rfl⟩

theorem printf_count (outside : Int → UInt8) {n : Nat} (hn : n < 2 ^ 63) :
    printf outside (ascii "%-10ld") [.word n] = some (field 10 (numeral n)) := by
  have hlen := field_length_le 10 (numeral n)
  have hdigits : (numeral n).length ≤ 19 := numeral_length (by decide) (by omega)
  let d := Layout.column width10 .l
  have hfmt : ascii "%-10ld" = d.format (chr 'd') := by decide +kernel
  have hrun := printf_pieces [Piece.signed outside d n (by decide) (d.length.bmod_ne_least hn)]
  simp only [List.flatMap_singleton, Piece.signed_fmt, Piece.signed_args, Piece.signed_text,
    d.length.bmod_of_lt hn, d, Layout.column_signed] at hrun
  rw [hfmt]
  refine hrun ?_ (field_no_nul (numeral_no_nul n))
  show (field 10 (numeral n)).length < 2000
  omega

/-- The line with the names of the columns. -/
def headerText : List UInt8 := ascii "category       name           iteration \r\n"

theorem printf_header (outside : Int → UInt8) :
    printf outside (ascii "%-15s%-15s%-10s\r\n")
        [.str (ascii "category"), .str (ascii "name"), .str (ascii "iteration")]
      = some headerText := by
  let d := Layout.column width15 .none
  let d' := Layout.column width10 .none
  let qs : List (Piece outside) := [.string outside d (ascii "category") (by decide),
    .string outside d (ascii "name") (by decide), .string outside d' (ascii "iteration") (by decide),
    .plain outside (ascii "\r\n") (by decide +kernel) (by decide)]
  have hfmt : ascii "%-15s%-15s%-10s\r\n" = qs.flatMap (·.fmt) := by
    show _ = d.format (chr 's') ++ (d.format (chr 's') ++ (d'.format (chr 's') ++ (ascii "\r\n" ++ [])))
    decide +kernel
  have htext : headerText = qs.flatMap (·.text) := by
    show _ = field 15 (ascii "category") ++ (field 15 (ascii "name") ++
      (field 10 (ascii "iteration") ++ (ascii "\r\n" ++ [])))
    decide +kernel
  rw [hfmt, htext]
  refine printf_pieces qs ?_ ?_
  · rw [← htext]
    decide +kernel
  · rw [← htext]
    decide +kernel

/-! ## The stream -/

/-- What stands in front of the first interval of a row. -/
def rowHead (b : Benchmark) : List UInt8 :=
  field 15 b.category ++ (field 15 b.name ++ field 10 (numeral b.iterationCount))

/-- A row and its two intervals. -/
def rowText (b : Benchmark) : List UInt8 :=
  rowHead b ++ chr '\x7b' :: (b.benchmarkControl ++ chr '\x7d' ::
    (chr '[' :: (b.benchmark ++ chr ']' :: ascii "\r\n")))

theorem harnessExecute_eq (outside : Int → UInt8) (b : RowBenchmark) :
    harnessExecute outside b.toBenchmark = some (rowText b.toBenchmark) := by
  rw [harnessExecute, printf_names outside b, printf_count outside b.iterationCount_lt,
    printf_plain outside (by decide +kernel), printf_plain outside (by decide +kernel),
    printf_plain outside (by decide +kernel), printf_plain outside (by decide +kernel)]
  simp only [Option.bind_eq_bind, Option.bind_some, b.init_quiet, b.cleanup_quiet]
  simp [rowText, rowHead, ascii]

/-- The text of the table around the rows. -/
theorem harnessMainWith_eq {β : Type} (outside : Int → UInt8) (execute : β → Option (List UInt8))
    (bs : List β) :
    harnessMainWith outside execute bs = (bs.mapM execute).map fun rows =>
      ascii "*\r\n" ++ (headerText ++ (ascii "[BENCHMARKS BEGIN]\r\n" ++
        (rows.flatten ++ (ascii "[BENCHMARKS END]\r\n" ++ ascii "[BENCHMARKS END]\r\n")))) := by
  rw [harnessMainWith, printf_plain outside (by decide +kernel), printf_header,
    printf_plain outside (by decide +kernel), printf_plain outside (by decide +kernel)]
  cases bs.mapM execute with
  | none => rfl
  | some rows => simp only [Option.bind_eq_bind, Option.bind_some, Option.pure_def, Option.map_some,
      List.append_assoc]

/-- Rounds that all print their row. -/
theorem mapM_rows {α β : Type} (execute : β → Option (List UInt8)) (bench : α → β)
    (row : α → List UInt8) (h : ∀ a, execute (bench a) = some (row a)) (as : List α) :
    (as.map bench).mapM execute = some (as.map row) := by
  have hrow : execute ∘ bench = fun a => pure (row a) := funext h
  rw [List.mapM_map, hrow, List.mapM_pure]
  rfl

theorem mapM_harnessExecute (outside : Int → UInt8) (bs : List RowBenchmark) :
    (bs.map (·.toBenchmark)).mapM (harnessExecute outside)
      = some (bs.map fun b => rowText b.toBenchmark) :=
  mapM_rows (harnessExecute outside) (fun b : RowBenchmark => b.toBenchmark)
    (fun b => rowText b.toBenchmark) (fun b => harnessExecute_eq outside b) bs

/-- The whole stream of a run over benchmarks with rows. -/
theorem harnessMain_eq (outside : Int → UInt8) (bs : List RowBenchmark) :
    harnessMain outside (bs.map (·.toBenchmark))
      = some (ascii "*\r\n" ++ (headerText ++ (ascii "[BENCHMARKS BEGIN]\r\n" ++
          ((bs.map fun b => rowText b.toBenchmark).flatten ++
            (ascii "[BENCHMARKS END]\r\n" ++ ascii "[BENCHMARKS END]\r\n"))))) := by
  rw [harnessMain, harnessMainWith_eq, mapM_harnessExecute, Option.map_some]

end HyperBench
