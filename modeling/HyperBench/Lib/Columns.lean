import Mathlib.Data.List.Basic
import Mathlib.Tactic.TypeStar

/-!
# Words in columns

A table row of texts, each filled up with blanks to the width of its column.
A reader that cuts the row into words finds the texts again if and only if each
of them is shorter than its column: a text that fills its column runs into the
next one.

* `words` cuts a text at its separators.
* `pad` fills a text up to a width and `columns` is a row.
* `length_words_columns` counts the words of a row, and `words_columns_iff` is the
  condition.
-/

namespace Columns

variable {α : Type*}

/-- The pieces of a text between its separators, without the empty ones. -/
def words (p : α → Bool) (text : List α) : List (List α) := (text.splitOnP p).filter (!·.isEmpty)

/-- A text filled up with blanks. -/
def pad (blank : α) (w : Nat) (s : List α) : List α := s ++ List.replicate (w - s.length) blank

/-- Texts in columns of the given widths. -/
def columns (blank : α) (fs : List (Nat × List α)) : List α := fs.flatMap fun f => pad blank f.1 f.2

/-- A text that is one word. -/
structure IsWord (p : α → Bool) (s : List α) : Prop where
  ne_nil : s ≠ []
  letters : ∀ c ∈ s, p c = false

theorem columns_cons (blank : α) (f : Nat × List α) (fs : List (Nat × List α)) :
    columns blank (f :: fs) = pad blank f.1 f.2 ++ columns blank fs := List.flatMap_cons

theorem pad_of_le (blank : α) {w : Nat} {s : List α} (h : w ≤ s.length) : pad blank w s = s := by
  rw [pad, Nat.sub_eq_zero_of_le h, List.replicate_zero, List.append_nil]

section Words

variable {p : α → Bool}

@[simp] theorem words_nil : words p [] = [] := by simp [words, List.splitOnP_nil]

theorem words_append_sep {sep : α} (hsep : p sep = true) (x y : List α) :
    words p (x ++ sep :: y) = words p x ++ words p y := by
  rw [words, List.splitOnP_append_cons x y hsep, List.filter_append]
  rfl

theorem words_of_isWord {s : List α} (h : IsWord p s) : words p s = [s] := by
  rw [words, List.splitOnP_eq_singleton h.letters]
  simp [h.ne_nil]

/-- Separators at the front belong to no word. -/
theorem words_replicate {blank : α} (hblank : p blank = true) (n : Nat) (y : List α) :
    words p (List.replicate n blank ++ y) = words p y := by
  induction n with
  | zero => rfl
  | succ n ih =>
    have hsep := words_append_sep hblank [] (List.replicate n blank ++ y)
    rw [List.replicate_succ, List.cons_append]
    rwa [words_nil, List.nil_append, List.nil_append, ih] at hsep

/-- A word that is shorter than its column. -/
theorem words_pad {blank : α} (hblank : p blank = true) {w : Nat} {s : List α} (hs : IsWord p s)
    (hlen : s.length < w) (y : List α) : words p (pad blank w s ++ y) = s :: words p y := by
  obtain ⟨k, hk⟩ : ∃ k, w - s.length = k + 1 := Nat.exists_eq_add_one.2 (by omega)
  rw [pad, hk, List.replicate_succ, List.append_assoc, List.cons_append,
    words_append_sep hblank, words_of_isWord hs, words_replicate hblank]
  rfl

theorem IsWord.append {s t : List α} (hs : ∀ c ∈ s, p c = false) (ht : IsWord p t) :
    IsWord p (s ++ t) := by
  refine ⟨fun h => ht.ne_nil (List.append_eq_nil_iff.1 h).2, fun c hc => ?_⟩
  rcases List.mem_append.1 hc with hc | hc
  · exact hs c hc
  · exact ht.letters c hc

end Words

section Row

variable {p : α → Bool} {blank sep : α} (hblank : p blank = true) (hsep : p sep = true)
  {fs : List (Nat × List α)} {last : List α} (hlast : IsWord p last)
include hblank hsep hlast

/-- The number of words of a row behind the letters `s`: one for every text that
is shorter than its column, and one at the end. -/
theorem length_words_columns (hfs : ∀ f ∈ fs, IsWord p f.2) {s : List α}
    (hs : ∀ c ∈ s, p c = false) :
    (words p (s ++ (columns blank fs ++ (last ++ [sep])))).length
      = fs.countP (fun f => f.2.length < f.1) + 1 := by
  induction fs generalizing s with
  | nil =>
    have hword := hlast.append hs
    rw [columns, List.flatMap_nil, List.nil_append, ← List.append_assoc, words_append_sep hsep,
      words_of_isWord hword]
    rfl
  | cons f fs ih =>
    have hf := hfs f List.mem_cons_self
    have hrest : ∀ f ∈ fs, IsWord p f.2 := fun g hg => hfs g (List.mem_cons_of_mem f hg)
    have hjoin : IsWord p (s ++ f.2) := hf.append hs
    rw [columns_cons, List.append_assoc, List.countP_cons]
    by_cases hlen : f.2.length < f.1
    · -- the blanks of the column end the word
      obtain ⟨k, hk⟩ : ∃ k, f.1 - f.2.length = k + 1 := Nat.exists_eq_add_one.2 (by omega)
      have hnil := ih hrest (s := []) (fun c hc => (List.not_mem_nil hc).elim)
      rw [List.nil_append] at hnil
      rw [pad, hk, List.replicate_succ, List.append_assoc, List.cons_append, ← List.append_assoc,
        words_append_sep hblank, words_of_isWord hjoin, words_replicate hblank, List.length_append,
        hnil, if_pos (decide_eq_true hlen), List.length_singleton]
      omega
    · rw [pad_of_le blank (Nat.le_of_not_lt hlen), ← List.append_assoc, ih hrest hjoin.letters,
        if_neg (by simpa using hlen)]

/-- The words of a row are its texts if and only if each is shorter than its
column. -/
theorem words_columns_iff (hfs : ∀ f ∈ fs, IsWord p f.2) :
    words p (columns blank fs ++ (last ++ [sep])) = fs.map Prod.snd ++ [last] ↔
      ∀ f ∈ fs, f.2.length < f.1 := by
  constructor
  · intro h
    have hcount := length_words_columns hblank hsep hlast hfs (s := [])
      (fun c hc => (List.not_mem_nil hc).elim)
    rw [List.nil_append, h, List.length_append, List.length_map, List.length_singleton] at hcount
    have hall := List.countP_eq_length.1 (Nat.succ.inj hcount).symm
    exact fun f hf => of_decide_eq_true (hall f hf)
  · intro hlen
    induction fs with
    | nil =>
      rw [columns, List.flatMap_nil, List.nil_append, words_append_sep hsep, words_of_isWord hlast]
      rfl
    | cons f fs ih =>
      rw [columns_cons, List.append_assoc, words_pad hblank (hfs f List.mem_cons_self)
        (hlen f List.mem_cons_self), ih (fun g hg => hfs g (List.mem_cons_of_mem f hg))
        (fun g hg => hlen g (List.mem_cons_of_mem f hg))]
      rfl

end Row

end Columns
