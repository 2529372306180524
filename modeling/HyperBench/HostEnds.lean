import HyperBench.Host

/-!
# When the host program ends

Three of the four readers of `host.c` end at the end of the stream.  The
fourth, `read_time_end_char`, does not look for it.  `RowsClosed` is the
grammar of the streams that keep it from running for ever: every row has its
words, and every interval that a row opens is closed again.

`main_ends_iff` says that the program ends exactly on these streams.
-/

namespace HyperBench.Host

open Ascii Stdio

/-! ## Intervals -/

/-- One interval at the front of a stream, and what is left behind it. -/
inductive Interval (first last : UInt8) : Input → Input → Prop where
  | absent {i : Input} : i.head? ≠ some first → Interval first last i i.tail
  | closed {text rest : List UInt8} : last ∉ text →
      Interval first last (first :: (text ++ last :: rest)) rest

/-- The loop over one interval ends when the interval is closed. -/
theorem readInterval_closed {first last : UInt8} (hfirst : Opening first) {i i' : Input}
    (h : Interval first last i i') {fuel : Nat} (hfuel : i.length < fuel) (out : List Report) :
    ∃ times, readInterval first last fuel ⟨i, out⟩ = some (times, ⟨i', out⟩) := by
  cases h with
  | absent hne => exact ⟨none, readInterval_absent hfirst hne fuel out⟩
  | @closed text rest htext =>
    have hlen : text.length < fuel := by
      rw [List.length_cons, List.length_append] at hfuel
      omega
    exact ⟨_, readInterval_append hfirst htext hlen i' out⟩

/-- A loop over an interval that has ended found it closed. -/
theorem interval_of_readInterval {first last : UInt8} (hfirst : Opening first)
    (hlast : last ≠ 0xff) {fuel : Nat} {h h' : State} {times : Option (Nat × Nat)}
    (heq : readInterval first last fuel h = some (times, h')) :
    Interval first last h.input h'.input := by
  obtain ⟨_, hcase⟩ := readInterval_eq_some hfirst hlast heq
  rcases hcase with ⟨hhead, _, hinput⟩ | ⟨text, htext, hinput, _⟩
  · rw [hinput]
    exact .absent hhead
  · rw [hinput]
    exact .closed htext

/-! ## Rows -/

/-- The streams behind the begin marker on which the row loop ends.  It ends
where `fscanf` does not find a row. -/
inductive RowsClosed : Input → Prop where
  | stop {i i' : Input} : scanRow i = (.stop, i') → RowsClosed i
  | row {i i₁ i₂ i₃ : Input} {category name : List UInt8} {iterations : Nat} :
      scanRow i = (.row category name iterations, i₁) →
      Interval (chr '\x7b') (chr '\x7d') i₁ i₂ → Interval (chr '[') (chr ']') i₂ i₃ →
      RowsClosed i₃ → RowsClosed i

theorem readTimes_closed {i i₁ i₂ : Input} (h₁ : Interval (chr '\x7b') (chr '\x7d') i i₁)
    (h₂ : Interval (chr '[') (chr ']') i₁ i₂) {fuel : Nat} (hfuel : i.length < fuel)
    (hfuel' : i₁.length < fuel) (t : Cycles) (out : List Report) :
    ∃ t' out', readTimes fuel t ⟨i, out⟩ = some (t', ⟨i₂, out'⟩) := by
  rcases readInterval_closed (Or.inr rfl) h₁ hfuel out with ⟨control, hcontrol⟩
  rcases readInterval_closed (Or.inl rfl) h₂ hfuel' out with ⟨kernel, hkernel⟩
  exact ⟨_, _, readTimes_eq hcontrol hkernel t⟩

theorem closed_of_readTimes {fuel : Nat} {t t' : Cycles} {h h' : State}
    (heq : readTimes fuel t h = some (t', h')) :
    ∃ i, Interval (chr '\x7b') (chr '\x7d') h.input i ∧ Interval (chr '[') (chr ']') i h'.input := by
  obtain ⟨control, kernel, h₁, h₂, hcontrol, hkernel, _, rfl⟩ := readTimes_eq_some heq
  have hclosed := interval_of_readInterval (Or.inl rfl) (by decide) hkernel
  exact ⟨h₁.input, interval_of_readInterval (Or.inr rfl) (by decide) hcontrol, hclosed⟩

theorem rowLoop_closed {i : Input} (h : RowsClosed i) :
    ∃ n i', ∀ fuel rounds t out, n ≤ fuel → n ≤ rounds →
      ∃ out', rowLoop fuel rounds t ⟨i, out⟩ = some (.ended ⟨i', out'⟩) := by
  induction h with
  | @stop i i' hscan =>
    refine ⟨1, i', fun fuel rounds t out _ hrounds => ?_⟩
    rcases Nat.exists_eq_succ_of_ne_zero (Nat.ne_of_gt hrounds) with ⟨rounds, rfl⟩
    refine ⟨out, ?_⟩
    simp only [rowLoop, readBenchmark, hscan]
  | @row i i₁ i₂ i₃ category name iterations hscan h₁ h₂ _ ih =>
    rcases ih with ⟨n, i', hn⟩
    refine ⟨n + i₁.length + i₂.length + 1, i', fun fuel rounds t out hfuel hrounds => ?_⟩
    rcases Nat.exists_eq_succ_of_ne_zero (n := rounds) (by omega) with ⟨rounds, rfl⟩
    simp only [rowLoop, readBenchmark, hscan, State.print]
    have hlen : i₁.length < fuel := by omega
    rcases readTimes_closed h₁ h₂ hlen (by omega) t _ with ⟨t', out', htimes⟩
    rw [htimes]
    exact hn fuel rounds t' out' (by omega) (by omega)

theorem closed_of_rowLoop {fuel rounds : Nat} {t : Cycles} {h h' : State}
    (heq : rowLoop fuel rounds t h = some (.ended h')) : RowsClosed h.input := by
  induction rounds generalizing t h with
  | zero => exact absurd heq (by simp [rowLoop])
  | succ rounds ih =>
    rw [rowLoop, readBenchmark] at heq
    rcases hscan : scanRow h.input with ⟨_ | _ | _, i⟩
    · rename_i category name iterations
      rw [hscan] at heq
      rcases Option.bind_eq_some_iff.1 heq with ⟨⟨t', h₁⟩, htimes, hloop⟩
      rcases closed_of_readTimes htimes with ⟨i', hcontrol, hkernel⟩
      exact .row hscan hcontrol hkernel (ih hloop)
    · exact .stop hscan
    · rw [hscan] at heq
      exact absurd heq (by simp)

/-- A row that opens its first interval and never closes it keeps the host
program for ever. -/
theorem rowLoop_open {i rest : Input} {category name : List UInt8} {iterations : Nat}
    (hscan : scanRow i = (.row category name iterations, chr '\x7b' :: rest))
    (hopen : chr '\x7d' ∉ rest) (fuel rounds : Nat) (t : Cycles) (out : List Report) :
    rowLoop fuel rounds t ⟨i, out⟩ = none := by
  cases rounds with
  | zero => rfl
  | succ rounds =>
    have hnone : ∀ out, readInterval (chr '\x7b') (chr '\x7d') fuel ⟨chr '\x7b' :: rest, out⟩
        = none := by
      intro out
      rw [readInterval]
      dsimp only
      rw [if_pos ((readTimeStartChar_fst (Or.inr rfl) _).2 rfl), readTimeStartChar_snd,
        readTimeEndChar_eq_none (by decide) hopen]
      rfl
    simp only [rowLoop, readBenchmark, hscan, State.print, readTimes, hnone]
    rfl

/-! ## The program -/

/-- The lines in front of a line that is looked for. -/
def LinesBefore (str : List UInt8) (lines : List (List UInt8)) : Prop :=
  ∀ line ∈ lines, IsLine line ∧ line ≠ str

/-- Behind the two lines that the program waits for, the rows are closed. -/
def IntervalsClosed (stream : List UInt8) : Prop :=
  ∀ lines lines' rest, LinesBefore STR_PIN lines → LinesBefore STR_BENCHMARK_BEGIN lines' →
    stream = lines.flatten ++ (STR_PIN ++ (lines'.flatten ++ (STR_BENCHMARK_BEGIN ++ rest))) →
    RowsClosed rest

theorem waitEnd_ended (h : State) {fuel : Nat} (hfuel : h.input.length < fuel) :
    ∃ h', waitEnd fuel (.ended h) = some (.ended h') := by
  rcases h with ⟨input, out⟩
  rcases readStart_cases isLine_STR_BENCHMARK_END (by decide) input out hfuel with
    ⟨lines, rest, hlines, hlen, hinput⟩ | hend
  · refine ⟨⟨rest, out ++ [.line STR_BENCHMARK_END]⟩, ?_⟩
    rw [waitEnd, hinput, readStart_append isLine_STR_BENCHMARK_END (by decide) hlines hlen]
    rfl
  · refine ⟨⟨[], out⟩, ?_⟩
    rw [waitEnd, hend]
    rfl

/-- `main` behind the line of the guest that waits to be pinned. -/
theorem main_eq_begin {lines : List (List UInt8)} (hlines : LinesBefore STR_PIN lines)
    {fuel : Nat} (hlen : lines.length < fuel) (rest : List UInt8) :
    main fuel (lines.flatten ++ (STR_PIN ++ rest))
      = (readStart STR_BENCHMARK_BEGIN fuel ⟨rest, [.line STR_PIN, .pin]⟩).bind fun r =>
          (if r.1 then rowLoop fuel fuel .unset (r.2.print .header) else some (.ended r.2)).bind
            (waitEnd fuel) := by
  rw [main, readStart_append isLine_STR_PIN (by decide) hlines hlen]
  rfl

/-- `main` behind the begin marker. -/
theorem main_eq_rowLoop {lines lines' : List (List UInt8)} (hlines : LinesBefore STR_PIN lines)
    (hlines' : LinesBefore STR_BENCHMARK_BEGIN lines') {fuel : Nat} (hlen : lines.length < fuel)
    (hlen' : lines'.length < fuel) (rest : List UInt8) :
    main fuel (lines.flatten ++ (STR_PIN ++ (lines'.flatten ++ (STR_BENCHMARK_BEGIN ++ rest))))
      = (rowLoop fuel fuel .unset
          ⟨rest, [.line STR_PIN, .pin, .line STR_BENCHMARK_BEGIN, .header]⟩).bind
          (waitEnd fuel) := by
  rw [main_eq_begin hlines hlen,
    readStart_append isLine_STR_BENCHMARK_BEGIN (by decide) hlines' hlen']
  rfl

/-- The host program ends on a stream, without an undefined store, exactly
when every interval that a row opens is closed in the stream. -/
theorem main_ends_iff (stream : List UInt8) :
    (∃ fuel h, main fuel stream = some (.ended h)) ↔ IntervalsClosed stream := by
  constructor
  · rintro ⟨fuel, h, heq⟩ lines lines' rest hlines hlines' rfl
    rcases Option.bind_eq_some_iff.1 heq with ⟨r, hpin, heq⟩
    rw [readStart_eq_found isLine_STR_PIN (by decide) hlines hpin] at heq
    rcases Option.bind_eq_some_iff.1 heq with ⟨r', hbegin, heq⟩
    rw [readStart_eq_found isLine_STR_BENCHMARK_BEGIN (by decide) hlines' hbegin] at heq
    rcases Option.bind_eq_some_iff.1 heq with ⟨_ | _, hloop, hwait⟩
    · exact closed_of_rowLoop hloop
    · exact absurd hwait (by simp [waitEnd])
  · intro hclosed
    rcases readStart_cases isLine_STR_PIN (by decide) stream [] (Nat.lt_succ_self _) with
      ⟨lines, rest₁, hlines, hlen, rfl⟩ | hpin
    · rcases readStart_cases isLine_STR_BENCHMARK_BEGIN (by decide) rest₁ [.line STR_PIN, .pin]
        (Nat.lt_succ_self _) with ⟨lines', rest, hlines', hlen', rfl⟩ | hbegin
      · rcases rowLoop_closed (hclosed lines lines' rest hlines hlines' rfl) with ⟨n, i', hn⟩
        set fuel := n + i'.length + lines.length + lines'.length + 1 with hfuel
        rcases hn fuel fuel .unset [.line STR_PIN, .pin, .line STR_BENCHMARK_BEGIN, .header]
          (by omega) (by omega) with ⟨out', hloop⟩
        have hlen : i'.length < fuel := by omega
        rcases waitEnd_ended ⟨i', out'⟩ hlen with ⟨h', hwait⟩
        refine ⟨fuel, h', ?_⟩
        rw [main_eq_rowLoop hlines hlines' (by omega) (by omega), hloop]
        exact hwait
      · set fuel := (lines.flatten ++ (STR_PIN ++ rest₁)).length.succ + rest₁.length.succ with hfuel
        refine ⟨fuel, ⟨[], [.line STR_PIN, .pin]⟩, ?_⟩
        rw [main_eq_begin hlines (by omega), readStart_mono hbegin (by omega), hfuel]
        rfl
    · -- no line to wait for: every reader is at the end of the stream
      refine ⟨stream.length + 1, ⟨[], []⟩, ?_⟩
      rw [main, hpin]
      rfl

/-- The stream of a guest that stopped inside its first benchmark. -/
def cutStream : List UInt8 := STR_PIN ++ (STR_BENCHMARK_BEGIN ++ ascii "CPU idle 1 \x7b")

/-- On a stream that was cut inside an interval the program never ends. -/
theorem main_never_ends_cutStream : ¬ ∃ fuel outcome, main fuel cutStream = some outcome := by
  rintro ⟨fuel, outcome, heq⟩
  have hno : LinesBefore STR_PIN [] := by simp [LinesBefore]
  have hno' : LinesBefore STR_BENCHMARK_BEGIN [] := by simp [LinesBefore]
  rcases Option.bind_eq_some_iff.1 heq with ⟨r, hpin, heq⟩
  rw [readStart_eq_found isLine_STR_PIN (by decide) hno hpin] at heq
  rcases Option.bind_eq_some_iff.1 heq with ⟨r', hbegin, heq⟩
  rw [readStart_eq_found isLine_STR_BENCHMARK_BEGIN (by decide) hno' hbegin] at heq
  rcases Option.bind_eq_some_iff.1 heq with ⟨r'', hloop, _⟩
  have hscan : scanRow (ascii "CPU idle 1 \x7b")
      = (.row (ascii "CPU") (ascii "idle") 1, [chr '\x7b']) := by decide
  have hnone := rowLoop_open hscan (by simp) fuel fuel .unset
    [.line STR_PIN, .pin, .line STR_BENCHMARK_BEGIN, .header]
  exact Option.some_ne_none _ (hloop.symm.trans hnone)

end HyperBench.Host
