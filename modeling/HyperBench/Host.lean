import HyperBench.Lib.Stdio

/-!
# `host/host.c`

The host program reads the serial line of the guest and reports one row per
benchmark.  A time stamp is the number of bytes that were not read yet when
it was taken, so it says between which two bytes of the stream the program
looked at the clock.

The loops take a bound on their rounds, and answer `none` when it was not
enough: a loop that is never left answers `none` at every bound.  `overrun`
is a word that does not fit the array of `read_benchmark`, which C leaves
undefined.

The lemmas run each reader over a stream whose next bytes are known.
-/

namespace HyperBench.Host

open Ascii Stdio

def STR_BENCHMARK_BEGIN : List UInt8 := ascii "[BENCHMARKS BEGIN]\r\n"
def STR_BENCHMARK_END : List UInt8 := ascii "[BENCHMARKS END]\r\n"

/-- The line on which the guest waits for its processors to be pinned. -/
def STR_PIN : List UInt8 := ascii "*\r\n"

/-! ## The program -/

/-- The time-stamp variables of `main`.  They live across the rounds of its
loop, and `none` is their state before the first assignment. -/
structure Cycles where
  cycles : Option Nat
  cycles1 : Option Nat
  cycles2 : Option Nat
  cycles3 : Option Nat
  deriving DecidableEq, Repr

/-- What the program prints. -/
inductive Report where
  /-- The line that `read_start` found. -/
  | line (str : List UInt8)
  /-- `do_command("./script/pin")`. -/
  | pin
  /-- The header of the table. -/
  | header
  /-- The first half of a row, printed by `read_benchmark`. -/
  | benchmark (category name : List UInt8) (iterations : Nat)
  /-- The second half of a row: the differences of the time stamps. -/
  | times (t : Cycles)
  deriving DecidableEq, Repr

structure State where
  input : Input
  out : List Report
  deriving DecidableEq, Repr

def State.print (h : State) (r : Report) : State := { h with out := h.out ++ [r] }

/-- `char c = fgetc(stdin)`: the value of `EOF` as a character is `0xff`. -/
def getChar (h : State) : UInt8 × State :=
  let (c, input) := fgetc h.input
  (c.getD 0xff, { h with input := input })

/-- The answer is `true` when the line was found, which `read_start` returns
as 0. -/
def readStart (str : List UInt8) : Nat → State → Option (Bool × State)
  | 0, _ => none
  | fuel + 1, h =>
    match getline h.input with
    | (none, input) => some (false, { h with input := input })
    | (some line, input) =>
      -- `strcmp` sees the line up to its first NUL
      if cString line = str then some (true, { h with input := input }.print (.line str))
      else readStart str fuel { h with input := input }

def readTimeStartChar (h : State) : UInt8 × State :=
  let (c, h) := getChar h
  (if c = chr '[' ∨ c = chr '\x7b' then c else 0, h)

def readTimeEndChar (target : UInt8) : Nat → State → Option State
  | 0, _ => none
  | fuel + 1, h =>
    let (c, h) := getChar h
    if c = target then some h else readTimeEndChar target fuel h

/-- The size of the arrays `category` and `benchmark`. -/
def wordSize : Nat := 128

/-- The three ways in which `read_benchmark` ends. -/
inductive Scanned where
  | row (category name : List UInt8) (iterations : Nat)
  | stop
  | overrun
  deriving DecidableEq, Repr

/-- `fscanf(stdin, "%s%s%lld ", category, benchmark, &iterations)`, with
`stop` for an answer other than 3.  `iterations` is unsigned, so a negative
number is stored modulo `2 ^ 64`. -/
def scanRow (i : Input) : Scanned × Input :=
  match scanString i with
  | (none, i) => (.stop, i)
  | (some category, i) =>
    if wordSize ≤ category.length then (.overrun, i)
    else match scanString i with
      | (none, i) => (.stop, i)
      | (some name, i) =>
        if wordSize ≤ name.length then (.overrun, i)
        else match scanInt i with
          | (none, i) => (.stop, i)
          | (some v, i) => (.row category name (v % 2 ^ 64).toNat, skipSpace i)

/-- `printf("%-15s%-20s%-15llu", ...)` is the report of a row. -/
def readBenchmark (h : State) : Scanned × State :=
  match scanRow h.input with
  | (.row category name iterations, input) =>
    (.row category name iterations, { h with input := input }.print
      (.benchmark (cString category) (cString name) iterations))
  | (r, input) => (r, { h with input := input })

/-- One of the two halves of the loop body: when the next character is
`first`, the time stamps in front of and behind `read_time_end_char`. -/
def readInterval (first last : UInt8) (fuel : Nat) (h : State) :
    Option (Option (Nat × Nat) × State) := do
  let (timeStartChar, h) := readTimeStartChar h
  if timeStartChar = first then
    let before := h.input.length
    let h ← readTimeEndChar last fuel h
    return (some (before, h.input.length), h)
  else return (none, h)

def Cycles.setControl (t : Cycles) : Option (Nat × Nat) → Cycles
  | some (before, after) => { t with cycles := some before, cycles1 := some after }
  | none => t

def Cycles.setKernel (t : Cycles) : Option (Nat × Nat) → Cycles
  | some (before, after) => { t with cycles2 := some before, cycles3 := some after }
  | none => t

/-- The body of the row loop. -/
def readTimes (fuel : Nat) (t : Cycles) (h : State) : Option (Cycles × State) := do
  let (control, h) ← readInterval (chr '\x7b') (chr '\x7d') fuel h
  let t := t.setControl control
  let (kernel, h) ← readInterval (chr '[') (chr ']') fuel h
  let t := t.setKernel kernel
  return (t, h.print (.times t))

inductive Outcome where
  | ended (h : State)
  | overrun
  deriving DecidableEq, Repr

/-- `while(!read_benchmark()) ...`. -/
def rowLoop (fuel : Nat) : Nat → Cycles → State → Option Outcome
  | 0, _, _ => none
  | rounds + 1, t, h =>
    match readBenchmark h with
    | (.stop, h) => some (.ended h)
    | (.overrun, _) => some .overrun
    | (.row _ _ _, h) => do
      let (t, h) ← readTimes fuel t h
      rowLoop fuel rounds t h

/-- The variables of `main` before they are assigned. -/
def Cycles.unset : Cycles := ⟨none, none, none, none⟩

/-- The last call of `main`, which waits until the guest has finished. -/
def waitEnd (fuel : Nat) : Outcome → Option Outcome
  | .overrun => some .overrun
  | .ended h => do
    let (_, h) ← readStart STR_BENCHMARK_END fuel h
    return .ended h

def main (fuel : Nat) (stdin : Input) : Option Outcome := do
  let (found, h) ← readStart STR_PIN fuel ⟨stdin, []⟩
  let h := if found then h.print .pin else h
  let (found, h) ← readStart STR_BENCHMARK_BEGIN fuel h
  let table := if found then rowLoop fuel fuel .unset (h.print .header) else some (.ended h)
  table.bind (waitEnd fuel)

/-! ## Lines -/

theorem isLine_STR_PIN : IsLine STR_PIN := ⟨ascii "*\r", by decide, by decide⟩

theorem isLine_STR_BENCHMARK_BEGIN : IsLine STR_BENCHMARK_BEGIN :=
  ⟨ascii "[BENCHMARKS BEGIN]\r", by decide, by decide⟩

theorem isLine_STR_BENCHMARK_END : IsLine STR_BENCHMARK_END :=
  ⟨ascii "[BENCHMARKS END]\r", by decide, by decide⟩

/-- A line that `strcmp` takes for the line `str` is that line. -/
theorem cString_eq_iff {line str : List UInt8} (hline : IsLine line) (hstr : IsLine str)
    (hnul : (0 : UInt8) ∉ str) : cString line = str ↔ line = str := by
  constructor
  · intro h
    have hpre : str <+: line := by
      rw [← h]
      exact List.takeWhile_prefix _
    rcases hpre with ⟨rest, rfl⟩
    have hrest : lineOf (str ++ rest ++ []) = str ++ rest := lineOf_append hline []
    rw [List.append_nil, lineOf_append hstr rest] at hrest
    exact hrest.symm
  · intro h
    rw [h]
    exact cString_of_no_nul hnul

theorem readStart_append {str : List UInt8} (hstr : IsLine str) (hnul : (0 : UInt8) ∉ str)
    {lines : List (List UInt8)} (hlines : ∀ line ∈ lines, IsLine line ∧ line ≠ str)
    {fuel : Nat} (hfuel : lines.length < fuel) (rest : List UInt8) (out : List Report) :
    readStart str fuel ⟨lines.flatten ++ (str ++ rest), out⟩
      = some (true, ⟨rest, out ++ [.line str]⟩) := by
  induction lines generalizing fuel with
  | nil =>
    rcases Nat.exists_eq_succ_of_ne_zero (Nat.ne_of_gt hfuel) with ⟨fuel, rfl⟩
    have hfound : cString str = str := (cString_eq_iff hstr hstr hnul).2 rfl
    simp only [List.flatten_nil, List.nil_append, readStart, getline_append hstr, hfound, if_true,
      State.print]
  | cons line lines ih =>
    rcases Nat.exists_eq_succ_of_ne_zero (Nat.ne_of_gt (Nat.zero_lt_of_lt hfuel)) with ⟨fuel, rfl⟩
    rcases hlines line List.mem_cons_self with ⟨hline, hne⟩
    have hskip : ¬ cString line = str := fun h => hne ((cString_eq_iff hline hstr hnul).1 h)
    rw [List.flatten_cons, List.append_assoc, readStart, getline_append hline]
    dsimp only
    rw [if_neg hskip]
    exact ih (fun l hl => hlines l (List.mem_cons_of_mem line hl)) (Nat.lt_of_succ_lt_succ hfuel)

/-- `read_start` ends on every stream: it has found its line behind other
lines, or it is at the end of the stream. -/
theorem readStart_cases {str : List UInt8} (hstr : IsLine str) (hnul : (0 : UInt8) ∉ str)
    {fuel : Nat} (input : Input) (out : List Report) (hfuel : input.length < fuel) :
    (∃ (lines : List (List UInt8)) (rest : List UInt8),
        (∀ line ∈ lines, IsLine line ∧ line ≠ str) ∧ lines.length < fuel ∧
        input = lines.flatten ++ (str ++ rest)) ∨
      readStart str fuel ⟨input, out⟩ = some (false, ⟨[], out⟩) := by
  induction fuel generalizing input with
  | zero => omega
  | succ fuel ih =>
    rcases lineOf_cases input with ⟨line, rest', hline, rfl⟩ | ⟨hnot, hlast⟩
    · have hpos : 0 < line.length := by
        rcases hline with ⟨text, _, rfl⟩
        simp
      rw [List.length_append] at hfuel
      by_cases hfound : line = str
      · exact Or.inl ⟨[], rest', by simp, by simp, by simp [hfound]⟩
      · have hskip : ¬ cString line = str := fun h => hfound ((cString_eq_iff hline hstr hnul).1 h)
        have hstep : readStart str (fuel + 1) ⟨line ++ rest', out⟩
            = readStart str fuel ⟨rest', out⟩ := by
          rw [readStart, getline_append hline]
          dsimp only
          rw [if_neg hskip]
        rcases ih rest' (by omega) with ⟨lines, rest, hlines, hlen, hrest⟩ | hend
        · refine Or.inl ⟨line :: lines, rest, ?_, ?_, ?_⟩
          · intro l hl
            rcases List.mem_cons.1 hl with rfl | hl
            · exact ⟨hline, hfound⟩
            · exact hlines l hl
          · simpa using hlen
          · rw [hrest, List.flatten_cons, List.append_assoc]
        · exact Or.inr (hstep.trans hend)
    · -- the last bytes have no newline, so they are not the line
      refine Or.inr ?_
      cases input with
      | nil => rfl
      | cons c rest =>
        rw [List.length_cons] at hfuel
        rcases Nat.exists_eq_succ_of_ne_zero (n := fuel) (by omega) with ⟨fuel, rfl⟩
        have hskip : ¬ cString (c :: rest) = str := by
          intro h
          rcases hstr with ⟨text, _, rfl⟩
          have hmem : chr '\n' ∈ cString (c :: rest) := by simp [h]
          exact hnot ((List.takeWhile_prefix _).subset hmem)
        rw [readStart, getline, if_neg (by simp), hlast]
        dsimp only
        rw [if_neg hskip, List.drop_length]
        rfl

theorem readStart_mono {str : List UInt8} {fuel fuel' : Nat} {h : State} {r : Bool × State}
    (heq : readStart str fuel h = some r) (hle : fuel ≤ fuel') :
    readStart str fuel' h = some r := by
  induction fuel generalizing fuel' h with
  | zero => exact absurd heq (by simp [readStart])
  | succ fuel ih =>
    rcases Nat.exists_eq_add_of_le' (Nat.le_of_add_left_le hle) with ⟨k, rfl⟩
    rw [readStart] at heq ⊢
    rcases hget : getline h.input with ⟨_ | line, input⟩
    · rw [hget] at heq
      exact heq
    · rw [hget] at heq
      dsimp only at heq ⊢
      by_cases hfound : cString line = str
      · rw [if_pos hfound] at heq ⊢
        exact heq
      · rw [if_neg hfound] at heq ⊢
        exact ih heq (by omega)

/-- An answer of `read_start` on a stream that has the line. -/
theorem readStart_eq_found {str : List UInt8} (hstr : IsLine str) (hnul : (0 : UInt8) ∉ str)
    {lines : List (List UInt8)} (hlines : ∀ line ∈ lines, IsLine line ∧ line ≠ str)
    {rest : List UInt8} {out : List Report} {fuel : Nat} {r : Bool × State}
    (heq : readStart str fuel ⟨lines.flatten ++ (str ++ rest), out⟩ = some r) :
    r = (true, ⟨rest, out ++ [.line str]⟩) := by
  have hlen : lines.length < fuel + lines.length + 1 := by omega
  have hlong := readStart_append hstr hnul hlines hlen rest out
  rw [readStart_mono heq (by omega)] at hlong
  exact Option.some.inj hlong

/-! ## Characters -/

theorem readTimeEndChar_append {target : UInt8} {text : List UInt8} (htext : target ∉ text)
    {fuel : Nat} (hfuel : text.length < fuel) (rest : List UInt8) (out : List Report) :
    readTimeEndChar target fuel ⟨text ++ target :: rest, out⟩ = some ⟨rest, out⟩ := by
  induction text generalizing fuel with
  | nil =>
    rcases Nat.exists_eq_succ_of_ne_zero (Nat.ne_of_gt hfuel) with ⟨fuel, rfl⟩
    simp [readTimeEndChar, getChar, fgetc]
  | cons c text ih =>
    rcases Nat.exists_eq_succ_of_ne_zero (Nat.ne_of_gt (Nat.zero_lt_of_lt hfuel)) with ⟨fuel, rfl⟩
    rw [List.mem_cons, not_or] at htext
    have hc : ¬ c = target := fun he => htext.1 he.symm
    rw [List.cons_append, readTimeEndChar]
    show (if c = target then _ else readTimeEndChar target fuel ⟨text ++ target :: rest, out⟩) = _
    rw [if_neg hc]
    exact ih htext.2 (Nat.lt_of_succ_lt_succ hfuel)

/-- The loop is left at the first occurrence of its character.  The end of
the stream does not leave it: it is one more character that is not the
target. -/
theorem readTimeEndChar_eq_some {target : UInt8} (htarget : target ≠ 0xff) {fuel : Nat}
    {h h' : State} (heq : readTimeEndChar target fuel h = some h') :
    h'.out = h.out ∧ ∃ text, target ∉ text ∧ h.input = text ++ target :: h'.input := by
  induction fuel generalizing h with
  | zero => exact absurd heq (by simp [readTimeEndChar])
  | succ fuel ih =>
    rcases h with ⟨_ | ⟨c, rest⟩, out⟩
    · have hstep : readTimeEndChar target fuel ⟨[], out⟩ = some h' := by
        rw [readTimeEndChar] at heq
        dsimp only at heq
        rwa [if_neg (by exact htarget.symm)] at heq
      exact ih hstep
    · rw [readTimeEndChar] at heq
      change (if c = target then some ⟨rest, out⟩ else readTimeEndChar target fuel ⟨rest, out⟩)
        = some h' at heq
      by_cases hc : c = target
      · rw [if_pos hc, Option.some.injEq] at heq
        rw [← heq, hc]
        exact ⟨rfl, [], by simp, rfl⟩
      · rw [if_neg hc] at heq
        rcases ih heq with ⟨hout, text, hnot, htext⟩
        refine ⟨hout, c :: text, ?_, ?_⟩
        · simp [hnot, Ne.symm hc]
        · rw [List.cons_append, ← htext]

/-- Without its character in the stream the loop is never left. -/
theorem readTimeEndChar_eq_none {target : UInt8} (htarget : target ≠ 0xff) {h : State}
    (hrest : target ∉ h.input) (fuel : Nat) : readTimeEndChar target fuel h = none := by
  rw [Option.eq_none_iff_forall_ne_some]
  intro h' heq
  rcases readTimeEndChar_eq_some htarget heq with ⟨_, text, _, htext⟩
  exact hrest (by simp [htext])

/-- The two characters that open an interval. -/
def Opening (first : UInt8) : Prop := first = chr '[' ∨ first = chr '\x7b'

theorem readTimeStartChar_fst {first : UInt8} (hfirst : Opening first) (h : State) :
    (readTimeStartChar h).1 = first ↔ h.input.head? = some first := by
  rcases h with ⟨_ | ⟨c, rest⟩, out⟩
  · show (0 : UInt8) = first ↔ none = some first
    rcases hfirst with rfl | rfl <;> decide
  · show (if c = chr '[' ∨ c = chr '\x7b' then c else 0) = first ↔ some c = some first
    rw [Option.some.injEq]
    by_cases hc : c = chr '[' ∨ c = chr '\x7b'
    · rw [if_pos hc]
    · rw [if_neg hc]
      constructor
      · intro h0
        rcases hfirst with rfl | rfl <;> exact absurd h0 (by decide)
      · intro hcf
        exact absurd (hcf ▸ hfirst) hc

theorem readTimeStartChar_snd (h : State) :
    (readTimeStartChar h).2 = { h with input := h.input.tail } := rfl

/-- The time stamps of an interval are taken right behind the character that
opens it and right behind the one that closes it. -/
theorem readInterval_append {first last : UInt8} (hfirst : Opening first) {text : List UInt8}
    (htext : last ∉ text) {fuel : Nat} (hfuel : text.length < fuel) (rest : List UInt8)
    (out : List Report) :
    readInterval first last fuel ⟨first :: (text ++ last :: rest), out⟩
      = some (some ((text ++ last :: rest).length, rest.length), ⟨rest, out⟩) := by
  rw [readInterval]
  dsimp only
  rw [if_pos ((readTimeStartChar_fst hfirst _).2 rfl), readTimeStartChar_snd]
  dsimp only
  rw [List.tail_cons, readTimeEndChar_append htext hfuel]
  rfl

theorem readInterval_absent {first last : UInt8} (hfirst : Opening first) {i : Input}
    (hne : i.head? ≠ some first) (fuel : Nat) (out : List Report) :
    readInterval first last fuel ⟨i, out⟩ = some (none, ⟨i.tail, out⟩) := by
  rw [readInterval]
  dsimp only
  rw [if_neg fun he => hne ((readTimeStartChar_fst hfirst ⟨i, out⟩).1 he)]
  rfl

/-- The two ways in which the code for one interval ends. -/
theorem readInterval_eq_some {first last : UInt8} (hfirst : Opening first) (hlast : last ≠ 0xff)
    {fuel : Nat} {h h' : State} {times : Option (Nat × Nat)}
    (heq : readInterval first last fuel h = some (times, h')) :
    h'.out = h.out ∧
      (h.input.head? ≠ some first ∧ times = none ∧ h'.input = h.input.tail ∨
        ∃ text, last ∉ text ∧ h.input = first :: (text ++ last :: h'.input) ∧
          times = some ((text ++ last :: h'.input).length, h'.input.length)) := by
  obtain ⟨i, out⟩ := h
  have hstart := readTimeStartChar_fst hfirst ⟨i, out⟩
  rw [readInterval] at heq
  dsimp only at heq
  by_cases hopen : (readTimeStartChar ⟨i, out⟩).1 = first
  · rw [if_pos hopen, readTimeStartChar_snd, Option.bind_eq_bind, Option.bind_eq_some_iff] at heq
    obtain ⟨h'', hend, hret⟩ := heq
    obtain ⟨hout, text, htext, hrest⟩ := readTimeEndChar_eq_some hlast hend
    obtain ⟨rest, rfl⟩ := List.head?_eq_some_iff.1 (hstart.1 hopen)
    change rest = text ++ last :: h''.input at hrest
    cases hret
    subst hrest
    exact ⟨hout, Or.inr ⟨text, htext, rfl, rfl⟩⟩
  · rw [if_neg hopen, readTimeStartChar_snd] at heq
    cases heq
    exact ⟨rfl, Or.inl ⟨fun he => hopen (hstart.2 he), rfl, rfl⟩⟩

theorem readTimes_eq {fuel : Nat} {i i₁ i₂ : Input} {out : List Report}
    {control kernel : Option (Nat × Nat)}
    (hcontrol : readInterval (chr '\x7b') (chr '\x7d') fuel ⟨i, out⟩ = some (control, ⟨i₁, out⟩))
    (hkernel : readInterval (chr '[') (chr ']') fuel ⟨i₁, out⟩ = some (kernel, ⟨i₂, out⟩))
    (t : Cycles) :
    readTimes fuel t ⟨i, out⟩
      = some ((t.setControl control).setKernel kernel,
          ⟨i₂, out ++ [.times ((t.setControl control).setKernel kernel)]⟩) := by
  rw [readTimes, hcontrol, Option.bind_eq_bind, Option.bind_some]
  dsimp only
  rw [hkernel]
  rfl

/-- The two halves of a loop body that has ended. -/
theorem readTimes_eq_some {fuel : Nat} {t t' : Cycles} {h h' : State}
    (heq : readTimes fuel t h = some (t', h')) :
    ∃ control kernel h₁ h₂,
      readInterval (chr '\x7b') (chr '\x7d') fuel h = some (control, h₁) ∧
      readInterval (chr '[') (chr ']') fuel h₁ = some (kernel, h₂) ∧
      t' = (t.setControl control).setKernel kernel ∧ h' = h₂.print (.times t') := by
  rw [readTimes, Option.bind_eq_bind, Option.bind_eq_some_iff] at heq
  obtain ⟨⟨control, h₁⟩, hcontrol, heq⟩ := heq
  dsimp only at heq
  rw [Option.bind_eq_some_iff] at heq
  obtain ⟨⟨kernel, h₂⟩, hkernel, heq⟩ := heq
  cases heq
  exact ⟨control, kernel, h₁, h₂, hcontrol, hkernel, rfl, rfl⟩

end HyperBench.Host
