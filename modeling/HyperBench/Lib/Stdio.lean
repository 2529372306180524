import HyperBench.Lib.Ascii
import Mathlib.Algebra.Group.Int.Defs
import Mathlib.Algebra.Group.Nat.Defs

/-!
# Input streams of C

A stream of finite length that ends for good is the list of its bytes that
were not read yet.  This module has the readers of the C library over it:
`fgetc`, `getline`, and the conversions `%s` and `%lld` of `fscanf`.

The lemmas run each reader over a stream whose next bytes are known.
-/

namespace Stdio

open Ascii

abbrev Input := List UInt8

/-! ## Characters and lines -/

/-- The next byte.  `none` is `EOF`, and every further call gives it again. -/
def fgetc (i : Input) : Option UInt8 × Input := (i.head?, i.tail)

/-- The bytes up to the first newline and with it, or all of them. -/
def lineOf : List UInt8 → List UInt8
  | [] => []
  | c :: rest => if c = chr '\n' then [c] else c :: lineOf rest

/-- The answer is `none` at the end of the stream. -/
def getline (i : Input) : Option (List UInt8) × Input :=
  if i = [] then (none, i) else (some (lineOf i), i.drop (lineOf i).length)

/-- A line ends at its only newline. -/
def IsLine (line : List UInt8) : Prop := ∃ text, chr '\n' ∉ text ∧ line = text ++ [chr '\n']

theorem lineOf_append {line : List UInt8} (h : IsLine line) (rest : List UInt8) :
    lineOf (line ++ rest) = line := by
  rcases h with ⟨text, hnot, rfl⟩
  induction text with
  | nil => simp [lineOf]
  | cons c text ih =>
    rw [List.mem_cons, not_or] at hnot
    have htail : lineOf (text ++ [chr '\n'] ++ rest) = text ++ [chr '\n'] := ih hnot.2
    rw [List.cons_append, List.cons_append, lineOf, if_neg fun hc => hnot.1 hc.symm, htail]

theorem getline_append {line : List UInt8} (h : IsLine line) (rest : List UInt8) :
    getline (line ++ rest) = (some line, rest) := by
  have hne : line ++ rest ≠ [] := by
    rcases h with ⟨text, _, rfl⟩
    simp
  rw [getline, if_neg hne, lineOf_append h rest, List.drop_left]

/-- The front of a stream is a line, or the stream has no newline at all. -/
theorem lineOf_cases (rest : List UInt8) :
    (∃ line rest', IsLine line ∧ rest = line ++ rest') ∨
      chr '\n' ∉ rest ∧ lineOf rest = rest := by
  induction rest with
  | nil => exact Or.inr ⟨by simp, rfl⟩
  | cons c rest ih =>
    by_cases hc : c = chr '\n'
    · exact Or.inl ⟨[c], rest, ⟨[], by simp, by rw [hc]; rfl⟩, rfl⟩
    · rcases ih with ⟨line, rest', ⟨text, hnot, hline⟩, hrest⟩ | ⟨hnot, hline⟩
      · refine Or.inl ⟨c :: line, rest', ⟨c :: text, ?_, ?_⟩, ?_⟩
        · simp [hnot, Ne.symm hc]
        · rw [hline, List.cons_append]
        · rw [hrest, List.cons_append]
      · refine Or.inr ⟨by simp [hnot, Ne.symm hc], ?_⟩
        rw [lineOf, if_neg hc, hline]

/-! ## White space, words and numbers -/

/-- `isspace` in the C locale. -/
def isSpace (c : UInt8) : Bool := c = chr ' ' ∨ 9 ≤ c ∧ c ≤ 13

/-- The next byte, when there is one, is not white space. -/
def AtWord (rest : List UInt8) : Prop := ∀ c ∈ rest.head?, isSpace c = false

/-- A white-space directive. -/
def skipSpace (i : Input) : Input := i.dropWhile isSpace

/-- `%s`: the answer is `none` when only white space is left. -/
def scanString (i : Input) : Option (List UInt8) × Input :=
  let i := skipSpace i
  let word := i.takeWhile fun c => !isSpace c
  if word = [] then (none, i) else (some word, i.drop word.length)

/-- The value that a signed 64-bit conversion stores: out of range it is the
nearest end of the range. -/
def clamp64 (v : Int) : Int := max (-2 ^ 63) (min v (2 ^ 63 - 1))

/-- `%lld`.  A conversion without digits fails, and has consumed the sign. -/
def scanInt (i : Input) : Option Int × Input :=
  let i := skipSpace i
  let negative : Bool := i.head? = some (chr '-')
  let i := if negative ∨ i.head? = some (chr '+') then i.tail else i
  let ds := i.takeWhile isDigit
  if ds = [] then (none, i)
  else
    let v : Int := decimal ds
    (some (clamp64 (if negative then -v else v)), i.drop ds.length)

theorem skipSpace_append {space rest : List UInt8} (hspace : ∀ c ∈ space, isSpace c = true)
    (hrest : AtWord rest) : skipSpace (space ++ rest) = rest :=
  dropWhile_append_stop hspace hrest

theorem scanString_append {space word rest : List UInt8}
    (hspace : ∀ c ∈ space, isSpace c = true) (hword : ∀ c ∈ word, isSpace c = false)
    (hne : word ≠ []) (hrest : ∀ c ∈ rest.head?, isSpace c = true) :
    scanString (space ++ (word ++ rest)) = (some word, rest) := by
  have hat : AtWord (word ++ rest) := by
    cases word with
    | nil => exact absurd rfl hne
    | cons c word => simpa [AtWord] using hword c List.mem_cons_self
  have htake : (word ++ rest).takeWhile (fun c => !isSpace c) = word :=
    takeWhile_append_stop (fun c hc => by simp [hword c hc]) fun c hc => by simp [hrest c hc]
  unfold scanString
  simp only [skipSpace_append hspace hat, htake, if_neg hne, List.drop_left]

theorem length_skipSpace_le (i : Input) : (skipSpace i).length ≤ i.length :=
  (List.dropWhile_suffix _).length_le

/-- A word that was read is gone from the stream. -/
theorem length_scanString_lt {i i' : Input} {word : List UInt8}
    (h : scanString i = (some word, i')) : i'.length < i.length := by
  have hle := length_skipSpace_le i
  unfold scanString at h
  dsimp only at h
  split at h
  · cases h
  · rename_i hne
    have htake : ((skipSpace i).takeWhile fun c => !isSpace c).length ≤ (skipSpace i).length :=
      (List.takeWhile_prefix _).length_le
    have hpos := List.length_pos_iff.2 hne
    cases h
    rw [List.length_drop]
    omega

theorem length_scanInt_le (i : Input) : (scanInt i).2.length ≤ i.length := by
  have hle := length_skipSpace_le i
  have htail : (skipSpace i).tail.length ≤ i.length := by
    rw [List.length_tail]
    omega
  have hdrop : ∀ (i' : Input) (k : Nat), i'.length ≤ i.length → (i'.drop k).length ≤ i.length := by
    intro i' k hi'
    rw [List.length_drop]
    omega
  unfold scanInt
  dsimp only
  -- with and without a sign, without digits and with digits
  split
  · split
    · exact htail
    · exact hdrop _ _ htail
  · split
    · exact hle
    · exact hdrop _ _ hle

theorem isSpace_of_isDigit {c : UInt8} (h : isDigit c = true) : isSpace c = false := by
  simp only [isDigit, chr, decide_eq_true_eq, UInt8.le_iff_toNat_le] at h
  simp only [isSpace, chr, decide_eq_false_iff_not, UInt8.le_iff_toNat_le, ← UInt8.toNat_inj]
  simp at h ⊢
  omega

theorem isDigit_ne {c d : UInt8} (h : isDigit c = true) (hd : isDigit d = false) : c ≠ d := by
  intro hcd
  rw [hcd, hd] at h
  exact Bool.false_ne_true h

theorem scanInt_append {space ds rest : List UInt8}
    (hspace : ∀ c ∈ space, isSpace c = true) (hds : ∀ c ∈ ds, isDigit c = true)
    (hne : ds ≠ []) (hrest : ∀ c ∈ rest.head?, isDigit c = false) :
    scanInt (space ++ (ds ++ rest)) = (some (clamp64 (decimal ds)), rest) := by
  have hhead : ∀ c ∈ (ds ++ rest).head?, isDigit c = true := by
    cases ds with
    | nil => exact absurd rfl hne
    | cons d ds => simpa using hds d List.mem_cons_self
  have hat : AtWord (ds ++ rest) := fun c hc => isSpace_of_isDigit (hhead c hc)
  have hsign : ∀ d, isDigit d = false → (ds ++ rest).head? ≠ some d := fun d hd he =>
    isDigit_ne (hhead d he) hd rfl
  have hminus := hsign (chr '-') (by decide)
  have hplus := hsign (chr '+') (by decide)
  unfold scanInt
  simp only [skipSpace_append hspace hat, hminus, hplus, decide_false, Bool.false_eq_true,
    or_self, if_false, takeWhile_append_stop hds hrest, hne, List.drop_left]

end Stdio
