import HyperBench.PrintfRun

/-!
# The buffer of `vsnprintf`

The full output of a call is its text in a buffer without an end.

* `vsnprintf_truncation`: a call with room for `size` bytes stores the first
  `size - 1` characters of the full output and a NUL, and returns the length
  of the full output.
* `vsnprintf_inside_iff`: the bytes stored lie in the caller's buffer when
  its size is positive.  No call that returns keeps to a buffer of size zero
  or less: the final NUL is stored in any case, and `remain` starts below
  zero, where it does not stop the output.
-/

namespace HyperBench.Printf

open Ascii CObject

/-! ## Runs into a buffer -/

/-- A run into the caller's buffer is a run into a buffer without an end. -/
theorem scanFormat_pstream (outside : Int → UInt8) (fuel : Nat) (size : Int) (fmt : List UInt8)
    (args : List Arg) :
    scanFormat outside (terminated fmt) fuel (.start (PStream.start size) args)
      = (scanFormat outside (terminated fmt) fuel (.start (⟨[]⟩ : Unlimited) args)).map
          (Printer.onto (PStream.start size)) :=
  scanFormat_onto (PStream.start size) fuel (.start ⟨[]⟩ args)

theorem vsnprintf_of_output {outside : Int → UInt8} {fuel : Nat} {fmt : List UInt8}
    {args : List Arg} {full : List UInt8} (hfull : output outside fuel fmt args = some full)
    (size : Int) :
    vsnprintf outside fuel size fmt args
      = some ((put (PStream.start size) full).buffer ++ [0],
          (put (PStream.start size) full).added) := by
  obtain ⟨st, hst, htext⟩ := output_eq_some_iff.1 hfull
  unfold vsnprintf
  rw [scanFormat_pstream, hst, ← htext]
  rfl

theorem PStream.start_remain {size : Int} (h : 1 ≤ size) (h' : size < 2 ^ 31) :
    (PStream.start size).remain = size - 1 :=
  toInt32_of_mem (by omega) (by omega)

/-- What a buffer of positive size holds of a text. -/
theorem put_start_buffer {size : Int} (h : 1 ≤ size) (h' : size < 2 ^ 31) (text : List UInt8) :
    (put (PStream.start size) text).buffer = text.take (size - 1).toNat := by
  have hremain := PStream.start_remain h h'
  rw [PStream.put_buffer (by omega) (by omega), hremain]
  rfl

theorem put_start_added (size : Int) {text : List UInt8} (h : text.length < 2 ^ 31) :
    (put (PStream.start size) text).added = text.length := by
  have hzero : (PStream.start size).added = 0 := rfl
  rw [PStream.put_added (by omega) (by omega), hzero, Int.zero_add]

/-! ## The truncation law -/

theorem vsnprintf_eq_take {outside : Int → UInt8} {fuel : Nat} {size : Int} {fmt : List UInt8}
    {args : List Arg} {full : List UInt8} (hfull : output outside fuel fmt args = some full)
    (hlen : full.length < 2 ^ 31) (hsize : 1 ≤ size) (hint : size < 2 ^ 31) :
    vsnprintf outside fuel size fmt args
      = some (full.take (size - 1).toNat ++ [0], (full.length : Int)) := by
  rw [vsnprintf_of_output hfull, put_start_buffer hsize hint, put_start_added size hlen]

/-- For every format and arguments with the full output `full`: a call with
room for `size` bytes stores the characters of `full` that fit in front of a
NUL, stores that NUL, and returns the length of `full`.  So the text of a
smaller buffer is a prefix of the text of a larger one, and both calls return
the same number. -/
theorem vsnprintf_truncation (outside : Int → UInt8) (fuel : Nat) (fmt : List UInt8)
    (args : List Arg) (full : List UInt8) (hfull : output outside fuel fmt args = some full)
    (hlen : full.length < 2 ^ 31) :
    (∀ size : Int, 1 ≤ size → size < 2 ^ 31 →
      vsnprintf outside fuel size fmt args
        = some (full.take (min (size - 1).toNat full.length) ++ [0], (full.length : Int))) ∧
    ∀ m n : Int, 1 ≤ m → m ≤ n → n < 2 ^ 31 →
      ∃ short long : List UInt8, ∃ result : Int,
        vsnprintf outside fuel m fmt args = some (short ++ [0], result) ∧
        vsnprintf outside fuel n fmt args = some (long ++ [0], result) ∧ short <+: long := by
  constructor
  · intro size hsize hint
    rw [vsnprintf_eq_take hfull hlen hsize hint]
    congr 3
    rcases Nat.le_total (size - 1).toNat full.length with hle | hle
    · rw [Nat.min_eq_left hle]
    · rw [Nat.min_eq_right hle, List.take_length, List.take_of_length_le hle]
  · intro m n hm hmn hn
    refine ⟨full.take (m - 1).toNat, full.take (n - 1).toNat, full.length,
      vsnprintf_eq_take hfull hlen hm (by omega), vsnprintf_eq_take hfull hlen (by omega) hn, ?_⟩
    exact List.take_prefix_take_left (by omega)

/-- A cut inside the prefix of a padded hexadecimal number. -/
theorem vsnprintf_truncation_hex :
    output (fun _ => 0) 20 (ascii "a%#6x%-3s|") [.word 255, .str (ascii "z")]
        = some (ascii "a  0xffz  |") ∧
      vsnprintf (fun _ => 0) 20 5 (ascii "a%#6x%-3s|") [.word 255, .str (ascii "z")]
        = some (ascii "a  0" ++ [0], 11) := by
  have hfull : output (fun _ => 0) 20 (ascii "a%#6x%-3s|") [.word 255, .str (ascii "z")]
      = some (ascii "a  0xffz  |") := by decide +kernel
  refine ⟨hfull, ?_⟩
  have hcut := (vsnprintf_truncation (fun _ => 0) 20 _ _ _ hfull (by decide)).1 5
    (by decide) (by decide)
  exact hcut

/-! ## The bytes stored -/

/-- A call of `vsnprintf` stores a byte at offset `i` of the caller's buffer:
in one of its rounds, or as the NUL behind the last one. -/
def Stores (outside : Int → UInt8) (size : Int) (fmt : List UInt8) (args : List Arg) (i : Nat) :
    Prop :=
  (∃ n st, stepN outside (terminated fmt) n (.start (PStream.start size) args) = some st ∧
      i < st.stream.buffer.length) ∨
    ∃ fuel st, scanFormat outside (terminated fmt) fuel (.start (PStream.start size) args) = some st
      ∧ i = st.stream.buffer.length

/-- Every state of a call has got some text. -/
theorem stream_of_stepN {outside : Int → UInt8} {size : Int} {fmt : List UInt8} {args : List Arg}
    {n : Nat} {st : Printer PStream}
    (h : stepN outside (terminated fmt) n (.start (PStream.start size) args) = some st) :
    ∃ text, st.stream = put (PStream.start size) text := by
  rw [← Printer.onto_start, stepN_onto] at h
  obtain ⟨st', _, rfl⟩ := Option.map_eq_some_iff.1 h
  exact ⟨st'.stream.text, rfl⟩

theorem stores_lt {outside : Int → UInt8} {size : Int} {fmt : List UInt8} {args : List Arg}
    (hsize : 1 ≤ size) (hint : size < 2 ^ 31) {i : Nat} (h : Stores outside size fmt args i) :
    (i : Int) < size := by
  -- the buffer of every state has room for the NUL
  have hroom : ∀ n st, stepN outside (terminated fmt) n (.start (PStream.start size) args) = some st
      → st.stream.buffer.length < size := by
    intro n st hst
    obtain ⟨text, htext⟩ := stream_of_stepN hst
    rw [htext, put_start_buffer hsize hint, List.length_take]
    omega
  rcases h with ⟨n, st, hst, hi⟩ | ⟨fuel, st, hst, rfl⟩
  · exact Int.lt_trans (Int.ofNat_lt.2 hi) (hroom n st hst)
  · obtain ⟨n, hn, _⟩ := stepN_of_scanFormat hst
    exact hroom n st hn

/-- A call that returns stores a NUL. -/
theorem exists_stores {outside : Int → UInt8} {fuel : Nat} {fmt : List UInt8} {args : List Arg}
    {full : List UInt8} (hfull : output outside fuel fmt args = some full) (size : Int) :
    ∃ i, Stores outside size fmt args i := by
  obtain ⟨st, hst, _⟩ := output_eq_some_iff.1 hfull
  refine ⟨_, Or.inr ⟨fuel, st.onto (PStream.start size), ?_, rfl⟩⟩
  rw [scanFormat_pstream, hst, Option.map_some]

/-- For every `int` size, format and arguments: with a positive size all
bytes lie in the buffer, and a call that returns keeps to its buffer only if
the size is positive. -/
theorem vsnprintf_inside_iff (outside : Int → UInt8) (size : Int) (hlo : -2 ^ 31 ≤ size)
    (hint : size < 2 ^ 31) (fmt : List UInt8) (args : List Arg) :
    (1 ≤ size → ∀ i, Stores outside size fmt args i → (i : Int) < max size 0) ∧
    ∀ fuel full, output outside fuel fmt args = some full →
      ((∀ i, Stores outside size fmt args i → (i : Int) < max size 0) ↔ 1 ≤ size) := by
  have hinside : 1 ≤ size → ∀ i, Stores outside size fmt args i → (i : Int) < max size 0 := by
    intro hsize i hi
    have hlt := stores_lt hsize hint hi
    omega
  refine ⟨hinside, fun fuel full hfull => ⟨fun h => ?_, hinside⟩⟩
  obtain ⟨i, hi⟩ := exists_stores hfull size
  have hlt := h i hi
  omega

/-- Two characters and their NUL fill a buffer of three bytes. -/
theorem vsnprintf_inside_three :
    (∀ i, Stores (fun _ => 0) 3 (ascii "ab") [] i → (i : Int) < max 3 0) ↔ (1 : Int) ≤ 3 :=
  (vsnprintf_inside_iff (fun _ => 0) 3 (by decide) (by decide) (ascii "ab") []).2 5 (ascii "ab")
    (by decide +kernel)

/-- `snprintf(buf, 0, "ab")` stores the whole text and its NUL. -/
theorem snprintf_zero_stores :
    vsnprintf (fun _ => 0) 5 0 (ascii "ab") [] = some (ascii "ab" ++ [0], 2) ∧
      ¬ ∀ i, Stores (fun _ => 0) 0 (ascii "ab") [] i → (i : Int) < max 0 0 := by
  have hfull : output (fun _ => 0) 5 (ascii "ab") [] = some (ascii "ab") := by decide +kernel
  refine ⟨by decide +kernel, fun h => ?_⟩
  obtain ⟨i, hi⟩ := exists_stores hfull 0
  have hlt := h i hi
  omega

end HyperBench.Printf
