import HyperBench.Harness

/-!
# `harness/harness.c` on bare metal

The build with `__BARE_METAL`.  There is no host that takes the time, so
`harness_execute` reads the time stamp counter around both functions of a
benchmark and prints the cycles in further columns of the row.

* A `Stamps` is the counter at the four places, as a number that never wraps
  around.  Each of the two functions takes less than 2^63 cycles.  `interval_eq`
  says that the difference of the two halves put together is the number of
  cycles.
* `readTable` reads the table as words between blanks, which is how its columns
  are meant.
* `bareTable_iff` says for which runs it finds the cycles again: a number that
  fills its column runs into the next one.
-/

namespace HyperBench.BareMetal

open Ascii Printf Stdio Columns

/-! ## The time stamp counter -/

/-- The counter around the control function and around the benchmark, each of which
takes less than 2^63 cycles. -/
structure Stamps where
  start : Nat
  end_ : Nat
  start1 : Nat
  end1 : Nat
  start_le : start ≤ end_
  start1_le : start1 ≤ end1
  control_lt : end_ - start < 2 ^ 63
  kernel_lt : end1 - start1 < 2 ^ 63

/-- `rdtsc(low, high)` when the counter has come to `t`. -/
def rdtsc (t : Nat) : UInt32 × UInt32 := (UInt32.ofNat t, UInt32.ofNat (t / 2 ^ 32))

/-- `((uint64_t)cycles_high << 32) | cycles_low` -/
def cycles (r : UInt32 × UInt32) : UInt64 := (r.2.toUInt64 <<< 32) ||| r.1.toUInt64

/-- `end - start` for two readings of the counter. -/
def interval (a b : Nat) : UInt64 := cycles (rdtsc b) - cycles (rdtsc a)

theorem cycles_rdtsc (t : Nat) : (cycles (rdtsc t)).toNat = t % 2 ^ 64 := by
  have hlow : t % 2 ^ 32 < 2 ^ 32 := Nat.mod_lt _ (by decide)
  have hshift : (t / 2 ^ 32 % 2 ^ 32) <<< 32 % 2 ^ 64 = (t / 2 ^ 32 % 2 ^ 32) <<< 32 := by
    rw [Nat.shiftLeft_eq]
    omega
  show ((UInt32.ofNat (t / 2 ^ 32)).toUInt64 <<< 32 ||| (UInt32.ofNat t).toUInt64).toNat = _
  rw [UInt64.toNat_or, UInt64.toNat_shiftLeft, UInt32.toNat_toUInt64, UInt32.toNat_toUInt64,
    UInt32.toNat_ofNat', UInt32.toNat_ofNat', show (32 : UInt64).toNat % 64 = 32 from rfl, hshift,
    ← Nat.shiftLeft_add_eq_or_of_lt hlow, Nat.shiftLeft_eq]
  omega

theorem interval_eq {a b : Nat} (hle : a ≤ b) (hlt : b - a < 2 ^ 64) :
    (interval a b).toNat = b - a := by
  rw [interval, UInt64.toNat_sub, cycles_rdtsc, cycles_rdtsc]
  omega

/-! ## The harness -/

def harnessExecute (outside : Int → UInt8) (b : Benchmark) (t : Stamps) : Option (List UInt8) := do
  let names ← printf outside (ascii "%-15s%-15s") [.str b.category, .str b.name]
  let count ← printf outside (ascii "%-10ld") [.word b.iterationCount]
  let timeControl := interval t.start t.end_
  let timeKernel := interval t.start1 t.end1
  let control ← printf outside (ascii "%-15lu") [.word timeControl.toNat]
  let kernel ← printf outside (ascii "%-15lu") [.word timeKernel.toNat]
  let difference ← printf outside (ascii "%ld\n") [.word (timeKernel - timeControl).toNat]
  return names ++ b.init ++ count ++ b.benchmarkControl ++ b.benchmark ++ b.cleanup
    ++ control ++ kernel ++ difference

def harnessMain (outside : Int → UInt8) (benchmarks : List (Benchmark × Stamps)) :
    Option (List UInt8) :=
  harnessMainWith outside (fun b => harnessExecute outside b.1 b.2) benchmarks

/-- A benchmark whose functions print nothing. -/
structure QuietBenchmark extends RowBenchmark where
  control_quiet : benchmarkControl = []
  benchmark_quiet : benchmark = []

/-! ## The reader -/

/-- A row of the table. -/
structure Record where
  category : List UInt8
  name : List UInt8
  count : Nat
  control : Nat
  kernel : Nat
  difference : Int
  deriving DecidableEq, Repr

/-- A word that is a number. -/
def readNat (word : List UInt8) : Option Nat := do
  let (n, rest) ← readNumber 10 word
  if rest = [] then some n else none

def readInt (word : List UInt8) : Option Int :=
  if word.head? = some (chr '-') then (readNat word.tail).map fun n : Nat => -(n : Int)
  else (readNat word).map fun n : Nat => (n : Int)

def readRow (line : List UInt8) : Option Record :=
  match words isSpace line with
  | [category, name, count, control, kernel, difference] => do
    let count ← readNat count
    let control ← readNat control
    let kernel ← readNat kernel
    let difference ← readInt difference
    return ⟨category, name, count, control, kernel, difference⟩
  | _ => none

/-- The rows up to the end marker, with at most `fuel` lines. -/
def readRows : Nat → Input → Option (List Record)
  | 0, _ => none
  | fuel + 1, i => do
    let line ← (getline i).1
    if line = ascii "[BENCHMARKS END]\r\n" then some []
    else do
      let row ← readRow line
      let rows ← readRows fuel (getline i).2
      return row :: rows

/-- What stands in front of the rows. -/
def tableHead : List UInt8 :=
  ascii "*\r\n" ++ (headerText ++ ascii "[BENCHMARKS BEGIN]\r\n")

def readTable (text : Input) : Option (List Record) := do
  let rows ← expect tableHead text
  readRows rows.length rows

/-! ## Rows -/

/-- What the row of a benchmark should say. -/
def record (b : Benchmark) (t : Stamps) : Record where
  category := b.category
  name := b.name
  count := b.iterationCount
  control := t.end_ - t.start
  kernel := t.end1 - t.start1
  difference := ((t.end1 - t.start1 : Nat) : Int) - (t.end_ - t.start : Nat)

/-- Every number of the row is shorter than its column. -/
def InColumns (b : Benchmark) (t : Stamps) : Prop :=
  b.iterationCount < 10 ^ 9 ∧ t.end_ - t.start < 10 ^ 14 ∧ t.end1 - t.start1 < 10 ^ 14

/-- The columns of a row but the last one. -/
def fields (b : Benchmark) (t : Stamps) : List (Nat × List UInt8) :=
  [(15, b.category), (15, b.name), (10, numeral b.iterationCount),
    (15, numeral (t.end_ - t.start)), (15, numeral (t.end1 - t.start1))]

def rowText (b : Benchmark) (t : Stamps) : List UInt8 :=
  columns (chr ' ') (fields b t) ++ (signedNumeral (record b t).difference ++ [chr '\n'])

section Printing

variable (outside : Int → UInt8)

theorem printf_cycles {n : Nat} (hn : n < 2 ^ 64) :
    printf outside (ascii "%-15lu") [.word n] = some (field 15 (numeral n)) := by
  have hlen := field_length_le 15 (numeral n)
  have hdigits : (numeral n).length ≤ 20 := numeral_length (by decide) (by omega)
  let d := Layout.column width15 .l
  have hfmt : ascii "%-15lu" = d.format (chr 'u') := by decide +kernel
  have hvalue : n % 2 ^ d.length.bits = n := Nat.mod_eq_of_lt hn
  have hrun := printf_pieces [Piece.unsigned outside d n]
  simp only [List.flatMap_singleton, Piece.unsigned_fmt, Piece.unsigned_args, Piece.unsigned_text,
    hvalue, d, Layout.column_unsigned] at hrun
  rw [hfmt]
  refine hrun ?_ (field_no_nul (numeral_no_nul n))
  show (field 15 (numeral n)).length < 2000
  omega

theorem printf_difference {w : Nat} {n : Int} (hw : Int.bmod w (2 ^ 64) = n) (hlo : -2 ^ 63 < n)
    (hhi : n < 2 ^ 63) :
    printf outside (ascii "%ld\n") [.word w] = some (signedNumeral n ++ [chr '\n']) := by
  let d := Layout.plain .l
  have hbits : Int.bmod w (2 ^ d.length.bits) = n := hw
  have hleast : Int.bmod w (2 ^ d.length.bits) ≠ -2 ^ 63 := by
    rw [hbits]
    omega
  have hfmt : ascii "%ld\n" = d.format (chr 'd') ++ [chr '\n'] := by decide +kernel
  have hlen := signedNumeral_length (by omega) hhi
  have hrun := printf_pieces [Piece.signed outside d w (by decide) hleast,
    Piece.plain outside [chr '\n'] (by decide +kernel) (by decide)]
  simp only [List.flatMap_cons, List.flatMap_nil, List.append_nil, Piece.signed_fmt,
    Piece.signed_args, Piece.signed_text, Piece.plain_fmt, Piece.plain_args, Piece.plain_text, hbits,
    d, Layout.plain_signed] at hrun
  rw [hfmt]
  refine hrun ?_ ?_
  · rw [List.length_append, List.length_singleton]
    omega
  · rw [List.mem_append, not_or]
    exact ⟨signedNumeral_no_nul n, by decide⟩

theorem difference_eq (b : Benchmark) (t : Stamps) :
    Int.bmod (interval t.start1 t.end1 - interval t.start t.end_).toNat (2 ^ 64)
      = (record b t).difference := by
  have hcontrol := interval_eq t.start_le (lt_trans t.control_lt (by decide))
  have hkernel := interval_eq t.start1_le (lt_trans t.kernel_lt (by decide))
  have hlt := t.control_lt
  have hlt1 := t.kernel_lt
  show _ = ((t.end1 - t.start1 : Nat) : Int) - (t.end_ - t.start : Nat)
  rw [UInt64.toNat_sub, hcontrol, hkernel, Int.bmod_def]
  split
  · omega
  · omega

theorem harnessExecute_eq (b : QuietBenchmark) (t : Stamps) :
    harnessExecute outside b.toBenchmark t = some (rowText b.toBenchmark t) := by
  have hlt := t.control_lt
  have hlt1 := t.kernel_lt
  have hcontrol := interval_eq t.start_le (lt_trans hlt (by decide))
  have hkernel := interval_eq t.start1_le (lt_trans hlt1 (by decide))
  have hdifference := printf_difference outside (difference_eq b.toBenchmark t)
    (by show (-2 ^ 63 : Int) < (_ : Nat) - (_ : Nat); omega)
    (by show ((_ : Nat) : Int) - (_ : Nat) < 2 ^ 63; omega)
  rw [harnessExecute, printf_names outside b.toRowBenchmark, printf_count outside b.iterationCount_lt]
  dsimp only
  rw [hdifference, hcontrol, hkernel, printf_cycles outside (by omega),
    printf_cycles outside (by omega)]
  simp only [Option.bind_eq_bind, Option.bind_some, b.init_quiet, b.cleanup_quiet, b.control_quiet,
    b.benchmark_quiet, Option.pure_def, List.append_nil]
  simp only [rowText, fields, columns, List.flatMap_cons, List.flatMap_nil, List.append_nil,
    List.append_assoc]

end Printing

/-! ## Rows read back -/

theorem length_endMarker : (ascii "[BENCHMARKS END]\r\n").length = 18 := by decide +kernel

theorem readNat_numeral (n : Nat) : readNat (numeral n) = some n := by
  have hread : readNumber 10 (List.replicate 0 (chr '0') ++ numeralIn 10 n ++ []) = some (n, []) :=
    readNumber_eq (by decide) (by decide) 0 n (by decide)
  have hnumeral : numeral n = List.replicate 0 (chr '0') ++ numeralIn 10 n ++ [] := by
    rw [List.append_nil]
    rfl
  rw [readNat, hnumeral, hread]
  rfl

theorem readInt_signedNumeral (n : Int) : readInt (signedNumeral n) = some n := by
  unfold signedNumeral
  split
  · rw [readInt, if_pos (by rfl), List.tail_cons, readNat_numeral, Option.map_some]
    exact congrArg some (by omega)
  · have hhead : (numeral n.natAbs).head? ≠ some (chr '-') := by
      intro h
      exact absurd (numeral_isDigit (List.mem_of_mem_head? h)) (by decide)
    rw [readInt, if_neg hhead, readNat_numeral, Option.map_some]
    exact congrArg some (by omega)

theorem isWord_numeral (n : Nat) : IsWord isSpace (numeral n) :=
  ⟨numeralIn_ne_nil 10 n, fun _ hc => isSpace_of_isDigit (numeral_isDigit hc)⟩

theorem isWord_signedNumeral (n : Int) : IsWord isSpace (signedNumeral n) := by
  rw [signedNumeral_eq]
  refine (isWord_numeral n.natAbs).append fun c hc => ?_
  split at hc
  · rw [List.mem_singleton.1 hc]
    rfl
  · cases hc

section Row

variable (b : QuietBenchmark) (t : Stamps)

theorem isWord_fields : ∀ f ∈ fields b.toBenchmark t, IsWord isSpace f.2 := by
  have hcategory : IsWord isSpace b.category := ⟨b.category_ne, fun c hc => (b.category_word c hc).2⟩
  have hname : IsWord isSpace b.name := ⟨b.name_ne, fun c hc => (b.name_word c hc).2⟩
  simp only [fields, List.forall_mem_cons]
  exact ⟨hcategory, hname, isWord_numeral _, isWord_numeral _, isWord_numeral _,
    fun f hf => (List.not_mem_nil hf).elim⟩

theorem fields_short_iff :
    (∀ f ∈ fields b.toBenchmark t, f.2.length < f.1) ↔ InColumns b.toBenchmark t := by
  have hshort : ∀ n k, 0 < k → ((numeral n).length < k + 1 ↔ n < 10 ^ k) := fun n k hk =>
    Nat.lt_succ_iff.trans (numeralIn_length_le_iff (by decide) hk)
  simp only [fields, List.forall_mem_cons, InColumns, ← hshort _ 9 (by decide),
    ← hshort _ 14 (by decide)]
  constructor
  · rintro ⟨_, _, hcount, hcontrol, hkernel, _⟩
    exact ⟨hcount, hcontrol, hkernel⟩
  · rintro ⟨hcount, hcontrol, hkernel⟩
    exact ⟨b.category_lt, b.name_lt, hcount, hcontrol, hkernel,
      fun f hf => (List.not_mem_nil hf).elim⟩

/-- A row with all numbers in their columns is read back. -/
theorem readRow_of_inColumns (h : InColumns b.toBenchmark t) :
    readRow (rowText b.toBenchmark t) = some (record b.toBenchmark t) := by
  have hwords : words isSpace (rowText b.toBenchmark t)
      = (fields b.toBenchmark t).map Prod.snd ++ [signedNumeral (record b.toBenchmark t).difference] :=
    (words_columns_iff (by decide) (by decide) (isWord_signedNumeral _) (isWord_fields b t)).2
      ((fields_short_iff b t).2 h)
  unfold readRow
  rw [hwords]
  show (do
    let count ← readNat (numeral b.iterationCount)
    let control ← readNat (numeral (t.end_ - t.start))
    let kernel ← readNat (numeral (t.end1 - t.start1))
    let difference ← readInt (signedNumeral (record b.toBenchmark t).difference)
    return (⟨b.category, b.name, count, control, kernel, difference⟩ : Record)) = _
  rw [readNat_numeral, readNat_numeral, readNat_numeral, readInt_signedNumeral]
  rfl

/-- Another row has fewer words than columns. -/
theorem readRow_of_not_inColumns (h : ¬ InColumns b.toBenchmark t) :
    readRow (rowText b.toBenchmark t) = none := by
  have hcount : (words isSpace ([] ++ rowText b.toBenchmark t)).length
      = (fields b.toBenchmark t).countP (fun f => f.2.length < f.1) + 1 :=
    length_words_columns (by decide) (by decide) (isWord_signedNumeral _) (isWord_fields b t)
      fun c hc => (List.not_mem_nil hc).elim
  have hfew : (fields b.toBenchmark t).countP (fun f => f.2.length < f.1) < 5 := by
    refine lt_of_le_of_ne List.countP_le_length fun heq => h ((fields_short_iff b t).1 ?_)
    exact fun f hf => of_decide_eq_true (List.countP_eq_length.1 heq f hf)
  rw [List.nil_append] at hcount
  unfold readRow
  split
  · rename_i hwords
    rw [hwords] at hcount
    simp only [List.length_cons, List.length_nil] at hcount
    omega
  · rfl

theorem isLine_rowText : IsLine (rowText b.toBenchmark t) := by
  refine ⟨columns (chr ' ') (fields b.toBenchmark t) ++
    signedNumeral (record b.toBenchmark t).difference, ?_, (List.append_assoc ..).symm⟩
  have hspace : isSpace (chr '\n') = true := by decide
  rw [List.mem_append, not_or]
  refine ⟨fun h => ?_, fun h => ?_⟩
  · obtain ⟨f, hf, hmem⟩ := List.mem_flatMap.1 h
    rcases List.mem_append.1 hmem with hmem | hmem
    · exact absurd (((isWord_fields b t) f hf).letters _ hmem) (by rw [hspace]; decide)
    · exact absurd (List.eq_of_mem_replicate hmem) (by decide)
  · exact absurd ((isWord_signedNumeral _).letters _ h) (by rw [hspace]; decide)

/-- A row is longer than the end marker. -/
theorem rowText_ne_end : rowText b.toBenchmark t ≠ ascii "[BENCHMARKS END]\r\n" := by
  intro h
  have hlen := congrArg List.length h
  simp only [length_endMarker, rowText, fields, columns, List.flatMap_cons, List.flatMap_nil,
    List.length_append, pad, List.length_replicate, List.length_nil, List.length_singleton] at hlen
  omega

end Row

/-! ## The table -/

/-- The rows and what stands behind them. -/
def rowsText (bs : List (QuietBenchmark × Stamps)) : List UInt8 :=
  bs.flatMap (fun b => rowText b.1.toBenchmark b.2) ++
    (ascii "[BENCHMARKS END]\r\n" ++ ascii "[BENCHMARKS END]\r\n")

/-- Every row has a line break, so the bytes are fuel enough. -/
theorem length_lt_rowsText (bs : List (QuietBenchmark × Stamps)) :
    bs.length < (rowsText bs).length := by
  have hrows : bs.length ≤ (bs.flatMap fun b => rowText b.1.toBenchmark b.2).length := by
    induction bs with
    | nil => exact Nat.le_refl 0
    | cons b bs ih =>
      rw [List.flatMap_cons, List.length_append, List.length_cons, rowText, List.length_append,
        List.length_append, List.length_singleton]
      omega
  rw [rowsText, List.length_append, List.length_append, length_endMarker]
  omega

theorem readRows_eq_some_iff (bs : List (QuietBenchmark × Stamps)) {fuel : Nat}
    (hfuel : bs.length < fuel) :
    readRows fuel (rowsText bs) = some (bs.map fun b => record b.1.toBenchmark b.2) ↔
      ∀ b ∈ bs, InColumns b.1.toBenchmark b.2 := by
  induction bs generalizing fuel with
  | nil =>
    obtain ⟨k, rfl⟩ : ∃ k, fuel = k + 1 := Nat.exists_eq_add_one.2 (by omega)
    have hline : IsLine (ascii "[BENCHMARKS END]\r\n") :=
      ⟨ascii "[BENCHMARKS END]\r", by decide +kernel, by decide +kernel⟩
    have hread : readRows (k + 1) (rowsText []) = some [] := by
      rw [readRows, rowsText, List.flatMap_nil, List.nil_append, getline_append hline]
      rfl
    simp [hread]
  | cons b bs ih =>
    obtain ⟨k, rfl⟩ : ∃ k, fuel = k + 1 := Nat.exists_eq_add_one.2 (by omega)
    have hline := getline_append (isLine_rowText b.1 b.2) (rowsText bs)
    have htext : rowsText (b :: bs) = rowText b.1.toBenchmark b.2 ++ rowsText bs := by
      rw [rowsText, List.flatMap_cons, List.append_assoc]
      rfl
    have hbs := ih (show bs.length < k by rw [List.length_cons] at hfuel; omega)
    rw [htext, readRows, hline]
    show (if rowText b.1.toBenchmark b.2 = ascii "[BENCHMARKS END]\r\n" then some []
      else do
        let row ← readRow (rowText b.1.toBenchmark b.2)
        let rows ← readRows k (rowsText bs)
        return row :: rows) = _ ↔ _
    rw [if_neg (rowText_ne_end b.1 b.2), List.forall_mem_cons, List.map_cons]
    by_cases hb : InColumns b.1.toBenchmark b.2
    · rw [readRow_of_inColumns b.1 b.2 hb, ← hbs]
      cases readRows k (rowsText bs) with
      | none => simp
      | some rows => simp [hb]
    · rw [readRow_of_not_inColumns b.1 b.2 hb]
      simp [hb]

theorem harnessMain_eq (outside : Int → UInt8) (bs : List (QuietBenchmark × Stamps)) :
    harnessMain outside (bs.map fun b => (b.1.toBenchmark, b.2)) = some (tableHead ++ rowsText bs) := by
  have hrows := mapM_rows (fun b : Benchmark × Stamps => harnessExecute outside b.1 b.2)
    (fun b : QuietBenchmark × Stamps => (b.1.toBenchmark, b.2))
    (fun b => rowText b.1.toBenchmark b.2) (fun b => harnessExecute_eq outside b.1 b.2) bs
  rw [harnessMain, harnessMainWith_eq, hrows, Option.map_some]
  simp only [tableHead, rowsText, List.append_assoc, List.flatMap_def]

/-- For every list of benchmarks that print nothing themselves and every course of
the time stamp counter in which no function takes 2^63 cycles or more: the harness
prints its table, and the table reads back as the cycles of each benchmark if and
only if every number is shorter than its column. -/
theorem bareTable_iff (outside : Int → UInt8) (bs : List (QuietBenchmark × Stamps)) :
    ∃ text, harnessMain outside (bs.map fun b => (b.1.toBenchmark, b.2)) = some text ∧
      (readTable text = some (bs.map fun b => record b.1.toBenchmark b.2) ↔
        ∀ b ∈ bs, InColumns b.1.toBenchmark b.2) := by
  refine ⟨_, harnessMain_eq outside bs, ?_⟩
  rw [readTable, expect_append, Option.bind_eq_bind, Option.bind_some]
  exact readRows_eq_some_iff bs (length_lt_rowsText bs)

def idleBenchmark : QuietBenchmark := ⟨idleRow, rfl, rfl⟩

/-- 60 cycles for the control function and 45 for the benchmark. -/
def shortStamps : Stamps where
  start := 2 ^ 64 - 20
  end_ := 2 ^ 64 + 40
  start1 := 2 ^ 64 + 50
  end1 := 2 ^ 64 + 95
  start_le := by decide
  start1_le := by decide
  control_lt := by decide
  kernel_lt := by decide

/-- A benchmark that takes 10^14 cycles, a number of 15 digits. -/
def longStamps : Stamps where
  start := 0
  end_ := 60
  start1 := 100
  end1 := 100 + 10 ^ 14
  start_le := by decide
  start1_le := by decide
  control_lt := by decide
  kernel_lt := by decide

/-- The counter may wrap around in a row that is read back.  A number that fills its
column is lost. -/
theorem bareTable_short_long :
    (∃ text, harnessMain (fun _ => 0) [(idleBenchmark.toBenchmark, shortStamps)] = some text ∧
      readTable text = some [⟨ascii "idle", ascii "idle", 1, 60, 45, -15⟩]) ∧
    ∃ text, harnessMain (fun _ => 0) [(idleBenchmark.toBenchmark, shortStamps),
        (idleBenchmark.toBenchmark, longStamps)] = some text ∧
      readTable text ≠ some [⟨ascii "idle", ascii "idle", 1, 60, 45, -15⟩,
        ⟨ascii "idle", ascii "idle", 1, 60, 10 ^ 14, 10 ^ 14 - 60⟩] := by
  have hshort : InColumns idleBenchmark.toBenchmark shortStamps := by unfold InColumns; decide
  have hlong : ¬ InColumns idleBenchmark.toBenchmark longStamps := by unfold InColumns; decide
  obtain ⟨text, htext, hread⟩ := bareTable_iff (fun _ => 0) [(idleBenchmark, shortStamps)]
  obtain ⟨text', htext', hread'⟩ := bareTable_iff (fun _ => 0)
    [(idleBenchmark, shortStamps), (idleBenchmark, longStamps)]
  refine ⟨⟨text, htext, hread.2 ?_⟩, text', htext', fun h => hlong (hread'.1 h (_, longStamps) ?_)⟩
  · intro b hb
    rw [List.mem_singleton.1 hb]
    exact hshort
  · exact List.mem_cons_of_mem _ List.mem_cons_self

end HyperBench.BareMetal
