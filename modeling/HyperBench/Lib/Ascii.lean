import Mathlib.Data.List.TakeWhile

/-!
# ASCII text as bytes

Program text and its string literals are lists of bytes.  `chr` and `ascii`
write a character and a string literal as bytes, `decimal` is the value of
digits, and `cString` is what a reader of a NUL-terminated buffer sees.

A run of characters is what `takeWhile` takes.  It ends where the text behind it
has a character of another kind (`takeWhile_append_of_head`).
-/

namespace Ascii

/-- The code of a character. -/
def chr (c : Char) : UInt8 := UInt8.ofNat c.toNat

/-- The bytes of a string literal. -/
def ascii (s : String) : List UInt8 := s.toList.map chr

/-- A decimal digit. -/
def isDigit (c : UInt8) : Bool := chr '0' ≤ c ∧ c ≤ chr '9'

/-- The value of a digit string. -/
def decimal (ds : List UInt8) : Nat := ds.foldl (fun v c => 10 * v + (c.toNat - 48)) 0

/-- The bytes in front of the first NUL. -/
def cString (buf : List UInt8) : List UInt8 := buf.takeWhile (· ≠ 0)

theorem cString_of_no_nul {text : List UInt8} (h : (0 : UInt8) ∉ text) : cString text = text := by
  rw [cString, List.takeWhile_eq_self_iff]
  intro c hc
  have hne : c ≠ 0 := fun h0 => h (h0 ▸ hc)
  simpa using hne

/-- A reader stops at the NUL behind a text. -/
theorem cString_append (text rest : List UInt8) : cString (text ++ 0 :: rest) = cString text := by
  induction text with
  | nil => rfl
  | cons c text ih =>
    unfold cString at ih ⊢
    rw [List.cons_append, List.takeWhile_cons, List.takeWhile_cons, ih]

/-- A text without NUL is read back whole from a terminated buffer. -/
theorem cString_append_nul {text rest : List UInt8} (h : (0 : UInt8) ∉ text) :
    cString (text ++ 0 :: rest) = text := by
  rw [cString_append, cString_of_no_nul h]

/-! ## Runs of characters -/

section Runs

variable {p : UInt8 → Bool} {text rest : List UInt8}

/-- What a reader of a NUL-terminated text sees behind a run. -/
theorem head_of_headD (h : p (rest.headD 0) = false) : ∀ c ∈ rest.head?, p c = false := by
  intro c hc
  cases rest with
  | nil => cases hc
  | cons d rest => rwa [← Option.some.inj hc]

theorem takeWhile_of_head (hrest : ∀ c ∈ rest.head?, p c = false) : rest.takeWhile p = [] := by
  cases rest with
  | nil => rfl
  | cons c rest => exact List.takeWhile_cons_of_neg (by simp [hrest c rfl])

theorem takeWhile_append_of_head (hrest : ∀ c ∈ rest.head?, p c = false) (text : List UInt8) :
    (text ++ rest).takeWhile p = text.takeWhile p := by
  induction text with
  | nil => exact takeWhile_of_head hrest
  | cons c text ih => rw [List.cons_append, List.takeWhile_cons, List.takeWhile_cons, ih]

theorem dropWhile_append_of_head (hrest : ∀ c ∈ rest.head?, p c = false) (text : List UInt8) :
    (text ++ rest).dropWhile p = text.dropWhile p ++ rest := by
  have hsplit := List.takeWhile_append_dropWhile (p := p) (l := text ++ rest)
  rw [takeWhile_append_of_head hrest] at hsplit
  rw [← List.append_right_inj (text.takeWhile p)]
  rw [hsplit, ← List.append_assoc, List.takeWhile_append_dropWhile]

/-- A whole text that is one run. -/
theorem takeWhile_append_stop (htext : ∀ c ∈ text, p c = true)
    (hrest : ∀ c ∈ rest.head?, p c = false) : (text ++ rest).takeWhile p = text := by
  rw [takeWhile_append_of_head hrest, List.takeWhile_eq_self_iff.2 htext]

theorem dropWhile_append_stop (htext : ∀ c ∈ text, p c = true)
    (hrest : ∀ c ∈ rest.head?, p c = false) : (text ++ rest).dropWhile p = rest := by
  rw [dropWhile_append_of_head hrest, List.dropWhile_eq_nil_iff.2 htext, List.nil_append]

end Runs

end Ascii
