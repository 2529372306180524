import HyperBench.HostEnds

/-!
# Whose time stamps the host program prints

The time-stamp variables of `main` live across the rows, and each pair of them
is assigned only when its interval was opened.  A row that is out of step
prints what an earlier row left there, or what was never assigned.

A time stamp is the number of bytes that were not read yet, and a row takes
at least one byte, so it tells the row in which it was taken: `Fresh` is that
it was taken between the end of the row's header and the end of the row.

A word that does not fit its array of `read_benchmark` is a store outside of
it, and nothing is known of the rows behind that.  `NoStale` takes it for a
failure, as `main_ends_iff` does.

`no_stale_iff` says on which streams all printed rows are fresh.  It is about
every row that is printed, also in a run that does not end.
-/

namespace HyperBench.Host

open Ascii Stdio

/-! ## The printed rows -/

/-- The state in which the row loop starts. -/
def TableStarts (stdin : Input) (h : State) : Prop :=
  ∃ fuel found h₁ h₂, readStart STR_PIN fuel ⟨stdin, []⟩ = some (found, h₁) ∧
    readStart STR_BENCHMARK_BEGIN fuel (if found then h₁.print .pin else h₁) = some (true, h₂) ∧
    h = h₂.print .header

/-- The variables and the state with which the row loop comes to its
condition. -/
inductive AtHead (stdin : Input) : Cycles → State → Prop where
  | first {h : State} : TableStarts stdin h → AtHead stdin .unset h
  | next {t t' : Cycles} {h h₁ h₂ : State} {category name : List UInt8} {iterations fuel : Nat} :
      AtHead stdin t h → readBenchmark h = (.row category name iterations, h₁) →
      readTimes fuel t h₁ = some (t', h₂) → AtHead stdin t' h₂

/-- A row with the time stamps `t` is printed: `h₁` is the state behind its
header and `h₂` the state behind the row. -/
inductive Printed (stdin : Input) (h₁ h₂ : State) (t : Cycles) : Prop where
  | row {t₀ : Cycles} {h : State} {category name : List UInt8} {iterations fuel : Nat} :
      AtHead stdin t₀ h → readBenchmark h = (.row category name iterations, h₁) →
      readTimes fuel t₀ h₁ = some (t, h₂) → Printed stdin h₁ h₂ t

def Cycles.stamps (t : Cycles) : List (Option Nat) := [t.cycles, t.cycles1, t.cycles2, t.cycles3]

/-- The time stamps are assigned, and between the two states. -/
def Fresh (h₁ h₂ : State) (t : Cycles) : Prop :=
  ∀ stamp ∈ t.stamps, ∃ n, stamp = some n ∧ h₂.input.length ≤ n ∧ n ≤ h₁.input.length

/-- No printed row has a time stamp of another row or one without a value, and
`read_benchmark` never stores outside of its arrays. -/
structure NoStale (stdin : Input) : Prop where
  fresh : ∀ h₁ h₂ t, Printed stdin h₁ h₂ t → Fresh h₁ h₂ t
  inside : ∀ t h h', AtHead stdin t h → readBenchmark h ≠ (.overrun, h')

/-! ## One row -/

/-- What one half of the loop body does: it finds no interval and takes no
time stamp, or it takes one behind each end of the interval. -/
theorem readInterval_cases {first last : UInt8} (hfirst : Opening first) (hlast : last ≠ 0xff)
    {fuel : Nat} {h h' : State} {times : Option (Nat × Nat)}
    (heq : readInterval first last fuel h = some (times, h')) :
    h'.out = h.out ∧ h'.input.length ≤ h.input.length ∧
      (h.input.head? ≠ some first ∧ times = none ∨
        h.input.head? = some first ∧ ∃ before, times = some (before, h'.input.length) ∧
          h'.input.length ≤ before ∧ before ≤ h.input.length) := by
  obtain ⟨hout, hcase⟩ := readInterval_eq_some hfirst hlast heq
  rcases hcase with ⟨hhead, rfl, hinput⟩ | ⟨text, _, hinput, rfl⟩
  · have hle : h'.input.length ≤ h.input.length := by
      rw [hinput, List.length_tail]
      omega
    exact ⟨hout, hle, Or.inl ⟨hhead, rfl⟩⟩
  · have hlen : h'.input.length ≤ (text ++ last :: h'.input).length := by
      rw [List.length_append, List.length_cons]
      omega
    have htail : (text ++ last :: h'.input).length ≤ h.input.length := by
      rw [hinput, List.length_cons]
      omega
    exact ⟨hout, hlen.trans htail, Or.inr ⟨by rw [hinput]; rfl, _, rfl, hlen, htail⟩⟩

theorem readBenchmark_of_scanRow {i i₁ : Input} {category name : List UInt8} {iterations : Nat}
    (h : scanRow i = (.row category name iterations, i₁)) (out : List Report) :
    readBenchmark ⟨i, out⟩ = (.row category name iterations,
      ⟨i₁, out ++ [.benchmark (cString category) (cString name) iterations]⟩) := by
  rw [readBenchmark]
  dsimp only
  rw [h]
  rfl

theorem scanRow_of_readBenchmark {h h₁ : State} {category name : List UInt8} {iterations : Nat}
    (heq : readBenchmark h = (.row category name iterations, h₁)) :
    scanRow h.input = (.row category name iterations, h₁.input) ∧
      h₁.out = h.out ++ [.benchmark (cString category) (cString name) iterations] := by
  rw [readBenchmark] at heq
  split at heq
  · rename_i hscan
    cases heq
    exact ⟨hscan, rfl⟩
  · rename_i hne _
    cases heq
    exact absurd rfl (hne category name iterations)

theorem readBenchmark_of_overrun {i i' : Input} (h : scanRow i = (.overrun, i'))
    (out : List Report) : readBenchmark ⟨i, out⟩ = (.overrun, ⟨i', out⟩) := by
  rw [readBenchmark]
  dsimp only
  rw [h]

theorem scanRow_of_overrun {h h' : State} (heq : readBenchmark h = (.overrun, h')) :
    scanRow h.input = (.overrun, h'.input) := by
  rw [readBenchmark] at heq
  split at heq
  · cases heq
  · rename_i hscan
    cases heq
    exact hscan

/-- The header of a row takes at least one byte. -/
theorem length_scanRow_lt {i i' : Input} {category name : List UInt8} {iterations : Nat}
    (h : scanRow i = (.row category name iterations, i')) : i'.length < i.length := by
  unfold scanRow at h
  split at h
  · cases h
  rename_i _ i₁ hcategory
  split at h
  · cases h
  split at h
  · cases h
  rename_i _ i₂ hname
  split at h
  · cases h
  have hint := length_scanInt_le i₂
  split at h
  · cases h
  rename_i v i₃ hv
  have hspace := length_skipSpace_le i₃
  have hfirst := length_scanString_lt hcategory
  have hsecond := length_scanString_lt hname
  rw [hv] at hint
  dsimp only at hint
  cases h
  omega

/-- The time stamps that have a value were taken before the state. -/
def Past (h : State) (t : Cycles) : Prop := ∀ n, some n ∈ t.stamps → h.input.length ≤ n

theorem Past.mono {h h' : State} {t : Cycles} (hpast : Past h t)
    (hle : h'.input.length ≤ h.input.length) : Past h' t :=
  fun n hn => hle.trans (hpast n hn)

theorem Past.setControl {h : State} {t : Cycles} (hpast : Past h t) {before after : Nat}
    (hbefore : h.input.length ≤ before) (hafter : h.input.length ≤ after) :
    Past h (t.setControl (some (before, after))) := by
  intro n hn
  have hold := hpast n
  simp only [Cycles.stamps, Cycles.setControl, List.mem_cons, Option.some.injEq, List.not_mem_nil,
    or_false] at hn hold
  grind

theorem Past.setKernel {h : State} {t : Cycles} (hpast : Past h t) {before after : Nat}
    (hbefore : h.input.length ≤ before) (hafter : h.input.length ≤ after) :
    Past h (t.setKernel (some (before, after))) := by
  intro n hn
  have hold := hpast n
  simp only [Cycles.stamps, Cycles.setKernel, List.mem_cons, Option.some.injEq, List.not_mem_nil,
    or_false] at hn hold
  grind

section Row

variable {fuel : Nat} {t : Cycles} {h h₁ h₂ h₃ : State} {control kernel : Option (Nat × Nat)}
  (hcontrol : readInterval (chr '\x7b') (chr '\x7d') fuel h₁ = some (control, h₂))
  (hkernel : readInterval (chr '[') (chr ']') fuel h₂ = some (kernel, h₃))

include hcontrol hkernel

/-- Behind a row all time stamps are from before its end. -/
theorem past_row (hpast : Past h₁ t) : Past h₃ ((t.setControl control).setKernel kernel) := by
  obtain ⟨_, hle₂, hcontrol⟩ := readInterval_cases (Or.inr rfl) (by decide) hcontrol
  obtain ⟨_, hle₃, hkernel⟩ := readInterval_cases (Or.inl rfl) (by decide) hkernel
  have hmid : Past h₂ (t.setControl control) := by
    rcases hcontrol with ⟨_, rfl⟩ | ⟨_, before, rfl, hbefore, _⟩
    · exact hpast.mono hle₂
    · exact (hpast.mono hle₂).setControl hbefore le_rfl
  rcases hkernel with ⟨_, rfl⟩ | ⟨_, before, rfl, hbefore, _⟩
  · exact hmid.mono hle₃
  · exact (hmid.mono hle₃).setKernel hbefore le_rfl

/-- A row is fresh when it has both intervals.  Otherwise it prints a stamp
without a value, or one from before its header. -/
theorem fresh_row_iff (hpast : Past h t) (hlt : h₁.input.length < h.input.length) :
    Fresh h₁ h₃ ((t.setControl control).setKernel kernel)
      ↔ h₁.input.head? = some (chr '\x7b') ∧ h₂.input.head? = some (chr '[') := by
  obtain ⟨_, hle₂, hcontrol⟩ := readInterval_cases (Or.inr rfl) (by decide) hcontrol
  obtain ⟨_, hle₃, hkernel⟩ := readInterval_cases (Or.inl rfl) (by decide) hkernel
  -- a stamp that the row did not take is not fresh
  have hstale : ∀ stamp ∈ t.stamps,
      ¬ ∃ n, stamp = some n ∧ h₃.input.length ≤ n ∧ n ≤ h₁.input.length := by
    intro stamp hmem hfresh
    obtain ⟨n, rfl, _, hn⟩ := hfresh
    have := hpast n hmem
    omega
  constructor
  · intro hfresh
    constructor
    · rcases hcontrol with ⟨_, rfl⟩ | ⟨hhead, _⟩
      · have hsame : ((t.setControl none).setKernel kernel).cycles = t.cycles := by
          cases kernel <;> rfl
        have := hfresh _ (List.mem_cons_self)
        rw [hsame] at this
        exact absurd this (hstale _ List.mem_cons_self)
      · exact hhead
    · rcases hkernel with ⟨_, rfl⟩ | ⟨hhead, _⟩
      · have hsame : ((t.setControl control).setKernel none).cycles2 = t.cycles2 := by
          cases control <;> rfl
        have := hfresh ((t.setControl control).setKernel none).cycles2 (by simp [Cycles.stamps])
        rw [hsame] at this
        exact absurd this (hstale _ (by simp [Cycles.stamps]))
      · exact hhead
  · intro hheads
    rcases hcontrol with ⟨hno, _⟩ | ⟨_, before, rfl, hbefore, hbefore'⟩
    · exact absurd hheads.1 hno
    rcases hkernel with ⟨hno, _⟩ | ⟨_, before₂, rfl, hbefore₂, hbefore₂'⟩
    · exact absurd hheads.2 hno
    intro stamp hstamp
    simp only [Cycles.stamps, Cycles.setControl, Cycles.setKernel, List.mem_cons, List.not_mem_nil,
      or_false] at hstamp
    rcases hstamp with rfl | rfl | rfl | rfl
    · exact ⟨before, rfl, by omega, hbefore'⟩
    · exact ⟨_, rfl, hle₃, hle₂⟩
    · exact ⟨before₂, rfl, hbefore₂, by omega⟩
    · exact ⟨_, rfl, le_rfl, by omega⟩

end Row

/-- Whenever the loop comes to its condition, the time stamps that have a
value were taken before. -/
theorem AtHead.past {stdin : Input} {t : Cycles} {h : State} (hat : AtHead stdin t h) :
    Past h t := by
  induction hat with
  | first _ =>
    intro n hn
    simp [Cycles.stamps, Cycles.unset] at hn
  | next _ hrow htimes ih =>
    obtain ⟨control, kernel, h₂, h₃, hcontrol, hkernel, rfl, rfl⟩ := readTimes_eq_some htimes
    have hlt := length_scanRow_lt (scanRow_of_readBenchmark hrow).1
    show Past h₃ _
    exact past_row hcontrol hkernel (ih.mono hlt.le)

/-! ## The start of the table -/

theorem readStart_eq_true {str : List UInt8} (hstr : IsLine str) (hnul : (0 : UInt8) ∉ str)
    {fuel : Nat} {input : Input} {out : List Report} {h : State}
    (heq : readStart str fuel ⟨input, out⟩ = some (true, h)) :
    ∃ lines rest, LinesBefore str lines ∧ input = lines.flatten ++ (str ++ rest) ∧
      h = ⟨rest, out ++ [.line str]⟩ := by
  rcases readStart_cases hstr hnul input out (Nat.lt_succ_self _) with
    ⟨lines, rest, hlines, _, rfl⟩ | hend
  · have hfound := readStart_eq_found hstr hnul hlines heq
    exact ⟨lines, rest, hlines, rfl, congrArg Prod.snd hfound⟩
  · have hlong := readStart_mono heq (Nat.le_add_right fuel input.length.succ)
    rw [readStart_mono hend (Nat.le_add_left input.length.succ fuel)] at hlong
    cases hlong

theorem readStart_eq_false {str : List UInt8} (hstr : IsLine str) (hnul : (0 : UInt8) ∉ str)
    {fuel : Nat} {input : Input} {out : List Report} {h : State}
    (heq : readStart str fuel ⟨input, out⟩ = some (false, h)) : h = ⟨[], out⟩ := by
  rcases readStart_cases hstr hnul input out (Nat.lt_succ_self _) with
    ⟨lines, rest, hlines, _, rfl⟩ | hend
  · cases readStart_eq_found hstr hnul hlines heq
  · have hlong := readStart_mono heq (Nat.le_add_right fuel input.length.succ)
    rw [readStart_mono hend (Nat.le_add_left input.length.succ fuel)] at hlong
    cases hlong
    rfl

/-- The row loop starts behind the two lines that the program waits for. -/
theorem tableStarts_iff {stdin : Input} {h : State} :
    TableStarts stdin h ↔ ∃ lines lines' rest,
      LinesBefore STR_PIN lines ∧ LinesBefore STR_BENCHMARK_BEGIN lines' ∧
      stdin = lines.flatten ++ (STR_PIN ++ (lines'.flatten ++ (STR_BENCHMARK_BEGIN ++ rest))) ∧
      h = ⟨rest, [.line STR_PIN, .pin, .line STR_BENCHMARK_BEGIN, .header]⟩ := by
  constructor
  · intro hstarts
    obtain ⟨fuel, found, h₁, h₂, hpin, hbegin, rfl⟩ := hstarts
    cases found with
    | false =>
      -- at the end of the stream there is no second line to find
      rw [readStart_eq_false isLine_STR_PIN (by decide) hpin] at hbegin
      obtain ⟨lines, rest, _, hnil, _⟩ :=
        readStart_eq_true isLine_STR_BENCHMARK_BEGIN (by decide) hbegin
      have hlen := congrArg List.length hnil
      simp only [List.length_append, List.length_nil] at hlen
      have hpos : 0 < STR_BENCHMARK_BEGIN.length := by decide
      omega
    | true =>
      obtain ⟨lines, rest₁, hlines, rfl, rfl⟩ :=
        readStart_eq_true isLine_STR_PIN (by decide) hpin
      obtain ⟨lines', rest, hlines', rfl, rfl⟩ :=
        readStart_eq_true isLine_STR_BENCHMARK_BEGIN (by decide) hbegin
      exact ⟨lines, lines', rest, hlines, hlines', rfl, rfl⟩
  · intro hlines
    obtain ⟨lines, lines', rest, hlines, hlines', rfl, rfl⟩ := hlines
    have hlen : lines.length < lines.length + lines'.length + 1 := by omega
    have hlen' : lines'.length < lines.length + lines'.length + 1 := by omega
    exact ⟨_, true, _, _, readStart_append isLine_STR_PIN (by decide) hlines hlen _ _,
      readStart_append isLine_STR_BENCHMARK_BEGIN (by decide) hlines' hlen' rest _, rfl⟩

/-! ## The streams without stale rows -/

/-- The places in a stream behind the begin marker where the program looks
for the header of a row. -/
inductive RowAt (i : Input) : Input → Prop where
  | here : RowAt i i
  | next {j j₁ j₂ j₃ : Input} {category name : List UInt8} {iterations : Nat} :
      RowAt i j → scanRow j = (.row category name iterations, j₁) →
      Interval (chr '\x7b') (chr '\x7d') j₁ j₂ → Interval (chr '[') (chr ']') j₂ j₃ → RowAt i j₃

/-- At every place where the program looks for a header the words fit their
arrays.  Every row that comes to its end has the opening brace right behind its
header, and the opening bracket right behind the closing brace. -/
structure RowsTimed (i : Input) : Prop where
  fit : ∀ j j', RowAt i j → scanRow j ≠ (.overrun, j')
  timed : ∀ j j₁ j₂ j₃ category name iterations, RowAt i j →
    scanRow j = (.row category name iterations, j₁) →
    Interval (chr '\x7b') (chr '\x7d') j₁ j₂ → Interval (chr '[') (chr ']') j₂ j₃ →
    j₁.head? = some (chr '\x7b') ∧ j₂.head? = some (chr '[')

/-- Behind the two lines that the program waits for, the words fit and the rows
have both intervals. -/
def IntervalsSeen (stream : List UInt8) : Prop :=
  ∀ lines lines' rest, LinesBefore STR_PIN lines → LinesBefore STR_BENCHMARK_BEGIN lines' →
    stream = lines.flatten ++ (STR_PIN ++ (lines'.flatten ++ (STR_BENCHMARK_BEGIN ++ rest))) →
    RowsTimed rest

/-- The program reads the rows of its stream one after the other. -/
theorem rowAt_of_atHead {stdin : Input} {t : Cycles} {h : State} (hat : AtHead stdin t h) :
    ∃ h₀, TableStarts stdin h₀ ∧ RowAt h₀.input h.input := by
  induction hat with
  | first hstarts => exact ⟨_, hstarts, .here⟩
  | next _ hrow htimes ih =>
    obtain ⟨h₀, hstarts, hrows⟩ := ih
    obtain ⟨i, hcontrol, hkernel⟩ := closed_of_readTimes htimes
    exact ⟨h₀, hstarts, .next hrows (scanRow_of_readBenchmark hrow).1 hcontrol hkernel⟩

theorem atHead_of_rowAt {stdin i : Input} {h₀ : State} (hstarts : TableStarts stdin h₀)
    (hrows : RowAt h₀.input i) : ∃ t out, AtHead stdin t ⟨i, out⟩ := by
  induction hrows with
  | here => exact ⟨.unset, h₀.out, .first hstarts⟩
  | @next j j₁ j₂ j₃ category name iterations _ hscan hcontrol hkernel ih =>
    obtain ⟨t, out, hat⟩ := ih
    have hlen : j₁.length < j₁.length + j₂.length + 1 := by omega
    obtain ⟨t', out', htimes⟩ := readTimes_closed hcontrol hkernel hlen (by omega) t
      (out ++ [.benchmark (cString category) (cString name) iterations])
    exact ⟨t', out', .next hat (readBenchmark_of_scanRow hscan out) htimes⟩

/-- A row that comes to its end is printed, so it has its intervals where all
printed rows are fresh. -/
theorem heads_of_fresh {stdin j j₁ j₂ j₃ : Input} {t : Cycles} {out : List Report}
    {category name : List UInt8} {iterations : Nat}
    (hfresh : ∀ h₁ h₂ t, Printed stdin h₁ h₂ t → Fresh h₁ h₂ t) (hat : AtHead stdin t ⟨j, out⟩)
    (hscan : scanRow j = (.row category name iterations, j₁))
    (hcontrol : Interval (chr '\x7b') (chr '\x7d') j₁ j₂)
    (hkernel : Interval (chr '[') (chr ']') j₂ j₃) :
    j₁.head? = some (chr '\x7b') ∧ j₂.head? = some (chr '[') := by
  have hrow := readBenchmark_of_scanRow hscan out
  -- enough rounds for both intervals of the row
  have hlen : j₁.length < j₁.length + j₂.length + 1 := by omega
  have hlen₂ : j₂.length < j₁.length + j₂.length + 1 := by omega
  obtain ⟨control, hcontrol⟩ := readInterval_closed (Or.inr rfl) hcontrol hlen
    (out ++ [.benchmark (cString category) (cString name) iterations])
  obtain ⟨kernel, hkernel⟩ := readInterval_closed (Or.inl rfl) hkernel hlen₂
    (out ++ [.benchmark (cString category) (cString name) iterations])
  have hprinted := hfresh _ _ _ (.row hat hrow (readTimes_eq hcontrol hkernel t))
  exact (fresh_row_iff hcontrol hkernel hat.past (length_scanRow_lt hscan)).1 hprinted

/-- A row with its intervals in their places is fresh. -/
theorem RowsTimed.fresh {stdin i : Input} (htimed : RowsTimed i) {h h₁ h₂ : State}
    {t t' : Cycles} {category name : List UInt8} {iterations fuel : Nat}
    (hrows : RowAt i h.input) (hat : AtHead stdin t h)
    (hrow : readBenchmark h = (.row category name iterations, h₁))
    (htimes : readTimes fuel t h₁ = some (t', h₂)) : Fresh h₁ h₂ t' := by
  have hscan := (scanRow_of_readBenchmark hrow).1
  obtain ⟨control, kernel, h₂, h₃, hcontrol, hkernel, rfl, rfl⟩ := readTimes_eq_some htimes
  have hheads := htimed.timed _ _ _ _ _ _ _ hrows hscan
    (interval_of_readInterval (Or.inr rfl) (by decide) hcontrol)
    (interval_of_readInterval (Or.inl rfl) (by decide) hkernel)
  exact (fresh_row_iff hcontrol hkernel hat.past (length_scanRow_lt hscan)).2 hheads

/-- No row is printed with a stale or unset time stamp, and no word is stored
outside of its array, exactly on the streams whose words fit and whose rows have
both intervals in their places. -/
theorem no_stale_iff (stdin : Input) : NoStale stdin ↔ IntervalsSeen stdin := by
  constructor
  · intro hstale lines lines' rest hlines hlines' hstdin
    have hstarts := tableStarts_iff.2 ⟨lines, lines', rest, hlines, hlines', hstdin, rfl⟩
    refine ⟨fun j j' hrows hscan => ?_, fun j _ _ _ _ _ _ hrows hscan hcontrol hkernel => ?_⟩
    · obtain ⟨t, out, hat⟩ := atHead_of_rowAt hstarts hrows
      exact hstale.inside t _ _ hat (readBenchmark_of_overrun hscan out)
    · obtain ⟨t, out, hat⟩ := atHead_of_rowAt hstarts hrows
      exact heads_of_fresh hstale.fresh hat hscan hcontrol hkernel
  · intro hseen
    have htimed : ∀ t h, AtHead stdin t h → ∃ i, RowsTimed i ∧ RowAt i h.input := by
      intro t h hat
      obtain ⟨h₀, hstarts, hrows⟩ := rowAt_of_atHead hat
      obtain ⟨lines, lines', rest, hlines, hlines', hstdin, rfl⟩ := tableStarts_iff.1 hstarts
      exact ⟨rest, hseen lines lines' rest hlines hlines' hstdin, hrows⟩
    refine ⟨fun h₁ h₂ t hprinted => ?_, fun t h h' hat hrow => ?_⟩
    · obtain ⟨hat, hrow, htimes⟩ := hprinted
      obtain ⟨i, hrowsTimed, hrows⟩ := htimed _ _ hat
      exact hrowsTimed.fresh hrows hat hrow htimes
    · obtain ⟨i, hrowsTimed, hrows⟩ := htimed _ _ hat
      exact hrowsTimed.fit _ _ hrows (scanRow_of_overrun hrow)

/-! ## The output -/

/-- `read_start` prints no time stamps. -/
theorem times_of_readStart {str : List UInt8} {fuel : Nat} {h : State} {r : Bool × State}
    (heq : readStart str fuel h = some r) {t : Cycles} (ht : .times t ∈ r.2.out) :
    .times t ∈ h.out := by
  induction fuel generalizing h with
  | zero => cases heq
  | succ fuel ih =>
    rw [readStart] at heq
    split at heq
    · cases heq
      exact ht
    · split at heq
      · cases heq
        simpa [State.print] using ht
      · have hmem := ih heq
        exact hmem

/-- A row adds its own time stamps to the output and no others. -/
theorem times_of_row {h h₁ h₂ : State} {t t' u : Cycles} {category name : List UInt8}
    {iterations fuel : Nat} (hrow : readBenchmark h = (.row category name iterations, h₁))
    (htimes : readTimes fuel t h₁ = some (t', h₂)) (hu : .times u ∈ h₂.out) :
    .times u ∈ h.out ∨ u = t' := by
  obtain ⟨control, kernel, ha, hb, hcontrol, hkernel, _, rfl⟩ := readTimes_eq_some htimes
  have hout₁ := (scanRow_of_readBenchmark hrow).2
  have houta := (readInterval_cases (Or.inr rfl) (by decide) hcontrol).1
  have houtb := (readInterval_cases (Or.inl rfl) (by decide) hkernel).1
  simpa [State.print, houtb, houta, hout₁] using hu

theorem printed_of_rowLoop {stdin : Input} {fuel rounds : Nat} {t u : Cycles} {h h' : State}
    (hat : AtHead stdin t h) (heq : rowLoop fuel rounds t h = some (.ended h'))
    (hu : .times u ∈ h'.out) : .times u ∈ h.out ∨ ∃ h₁ h₂, Printed stdin h₁ h₂ u := by
  induction rounds generalizing t h with
  | zero => cases heq
  | succ rounds ih =>
    rw [rowLoop] at heq
    split at heq
    · rename_i h₁ hstop
      cases heq
      rw [readBenchmark] at hstop
      split at hstop <;> cases hstop
      exact Or.inl hu
    · cases heq
    · rename_i hrow
      rw [Option.bind_eq_bind, Option.bind_eq_some_iff] at heq
      obtain ⟨⟨t', h₂⟩, htimes, hloop⟩ := heq
      rcases ih (.next hat hrow htimes) hloop with hmem | hprinted
      · rcases times_of_row hrow htimes hmem with hmem | rfl
        · exact Or.inl hmem
        · exact Or.inr ⟨_, _, .row hat hrow htimes⟩
      · exact Or.inr hprinted

/-- All time stamps in the output of a run that ends are those of printed
rows. -/
theorem printed_of_main {stdin : Input} {fuel : Nat} {h : State} {t : Cycles}
    (heq : main fuel stdin = some (.ended h)) (ht : .times t ∈ h.out) :
    ∃ h₁ h₂, Printed stdin h₁ h₂ t := by
  rw [main, Option.bind_eq_bind, Option.bind_eq_some_iff] at heq
  obtain ⟨⟨found, h₁⟩, hpin, heq⟩ := heq
  dsimp only at heq
  rw [Option.bind_eq_some_iff] at heq
  obtain ⟨⟨found', h₂⟩, hbegin, heq⟩ := heq
  dsimp only at heq
  rw [Option.bind_eq_some_iff] at heq
  obtain ⟨outcome, htable, hwait⟩ := heq
  -- nothing in front of the table prints time stamps
  have hnone : .times t ∉ h₂.out := by
    intro hmem
    have hmem₁ := times_of_readStart hbegin hmem
    have hmem₂ : .times t ∈ h₁.out := by
      cases found <;> simpa [State.print] using hmem₁
    cases times_of_readStart hpin hmem₂
  cases outcome with
  | overrun => cases hwait
  | ended h₃ =>
    rw [waitEnd, Option.bind_eq_bind, Option.bind_eq_some_iff] at hwait
    obtain ⟨r, hend, hret⟩ := hwait
    cases hret
    have hmem := times_of_readStart hend ht
    cases found' with
    | false =>
      cases htable
      exact absurd hmem hnone
    | true =>
      have hat : AtHead stdin .unset (h₂.print .header) :=
        .first ⟨fuel, found, h₁, h₂, hpin, hbegin, rfl⟩
      rcases printed_of_rowLoop hat htable hmem with hmem | hprinted
      · exact absurd (by simpa [State.print] using hmem) hnone
      · exact hprinted

/-- Two rows, the second without its intervals. -/
def staleRows : List UInt8 := ascii "CPU idle 1 \x7b\x7d[]CPU smsw 1 ()"

def staleStream : List UInt8 := STR_PIN ++ (STR_BENCHMARK_BEGIN ++ staleRows)

/-- The second row is printed with the time stamps of the first one. -/
theorem stale_row_staleStream :
    ∃ h₁ h₂ h₃ h₄ t, Printed staleStream h₁ h₂ t ∧ Printed staleStream h₃ h₄ t ∧
      h₃.input.length < h₂.input.length ∧ ¬ Fresh h₃ h₄ t := by
  have hstarts : TableStarts staleStream
      ⟨staleRows, [.line STR_PIN, .pin, .line STR_BENCHMARK_BEGIN, .header]⟩ :=
    tableStarts_iff.2 ⟨[], [], _, by simp [LinesBefore], by simp [LinesBefore], rfl, rfl⟩
  have hscan : scanRow staleRows
      = (.row (ascii "CPU") (ascii "idle") 1, ascii "\x7b\x7d[]CPU smsw 1 ()") := by
    decide +kernel
  have hscan' : scanRow (ascii "CPU smsw 1 ()")
      = (.row (ascii "CPU") (ascii "smsw") 1, ascii "()") := by
    decide +kernel
  let t : Cycles := ⟨some 16, some 15, some 14, some 13⟩
  have htimes : ∀ out, readTimes 3 .unset ⟨ascii "\x7b\x7d[]CPU smsw 1 ()", out⟩
      = some (t, ⟨ascii "CPU smsw 1 ()", out ++ [.times t]⟩) := fun _ => rfl
  have htimes' : ∀ out, readTimes 3 t ⟨ascii "()", out⟩
      = some (t, ⟨[], out ++ [.times t]⟩) := fun _ => rfl
  have hrow := readBenchmark_of_scanRow hscan
    [.line STR_PIN, .pin, .line STR_BENCHMARK_BEGIN, .header]
  have hnext := AtHead.next (.first hstarts) hrow (htimes _)
  refine ⟨_, _, _, _, t, .row (.first hstarts) hrow (htimes _),
    .row hnext (readBenchmark_of_scanRow hscan' _) (htimes' _), by decide +kernel, ?_⟩
  -- sixteen bytes are left at the first stamp, and two behind the header of the second row
  intro hfresh
  obtain ⟨n, hn, _, hle⟩ := hfresh (some 16) List.mem_cons_self
  cases hn
  exact absurd hle (by decide +kernel)

end HyperBench.Host
