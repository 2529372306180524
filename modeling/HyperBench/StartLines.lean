import HyperBench.HostEnds
import HyperBench.PrintfPieces
import HyperBench.Transcript

/-!
# The lines in front of the harness

What the guest prints before `harness_main`, as bytes: the line of
`early_mem_init` and the lines of the processors.

`linesBefore_transcript` says that the host program takes none of them for
the line that it waits for.
-/

namespace HyperBench

open Ascii CObject Printf Stdio Host

/-- What `early_mem_init` prints, with the size of the memory in bytes. -/
def memUpperText (endOfMemory : Nat) : List UInt8 :=
  (printf (fun _ => 0) (ascii "mbi->mem_upper = %lx\n") [.word endOfMemory]).getD []

/-- `%lx` is the shortest hexadecimal numeral. -/
theorem memUpperText_eq (w : Nat) :
    memUpperText w = ascii "mbi->mem_upper = " ++ (numeralIn 16 (w % 2 ^ 64) ++ ascii "\n") := by
  let qs : List (Piece fun _ => 0) :=
    [.plain _ (ascii "mbi->mem_upper = ") (by decide +kernel) (by decide),
      .hex _ (.plain .l) w, .plain _ (ascii "\n") (by decide +kernel) (by decide)]
  have hfmt : ascii "mbi->mem_upper = %lx\n" = qs.flatMap (·.fmt) := by
    show _ = ascii "mbi->mem_upper = " ++ ((Layout.plain .l).format (chr 'x') ++ (ascii "\n" ++ []))
    decide +kernel
  have htext : ascii "mbi->mem_upper = " ++ (numeralIn 16 (w % 2 ^ 64) ++ ascii "\n")
      = qs.flatMap (·.text) := by
    simp only [qs, List.flatMap_cons, List.flatMap_nil, Piece.plain_text, Piece.hex_text,
      Layout.plain_unsigned, List.append_nil]
    rfl
  have hlen : (numeralIn 16 (w % 2 ^ 64)).length ≤ 16 :=
    (numeralIn_length_le_iff (by decide) (by decide)).2 (Nat.mod_lt w (by decide))
  have hprintf := printf_pieces qs
  rw [← hfmt, ← htext] at hprintf
  rw [memUpperText, show [Arg.word w] = qs.flatMap (·.args) from rfl, hprintf ?_ ?_]
  · rfl
  · rw [List.length_append, List.length_append]
    show 17 + (_ + 1) < 2000
    omega
  · simp only [List.mem_append, not_or]
    exact ⟨by decide, numeralIn_no_nul (by decide) (by decide) _, by decide⟩

/-- The two numbers are the index of the processor in the table. -/
theorem startingText_eq {id : Nat} (hid : id < 2 ^ 31) :
    Smp.startingText id = ascii "cpu" ++ (numeral id ++ (ascii ": starting " ++
      (numeral id ++ ascii "\r\n"))) := by
  let d := Layout.plain .none
  let qs : List (Piece fun _ => 0) :=
    [.plain _ (ascii "cpu") (by decide +kernel) (by decide),
      .signed _ d id (by decide) (d.length.bmod_ne_least hid),
      .plain _ (ascii ": starting ") (by decide +kernel) (by decide),
      .signed _ d id (by decide) (d.length.bmod_ne_least hid),
      .plain _ (ascii "\r\n") (by decide +kernel) (by decide)]
  have hfmt : ascii "cpu%d: starting %d\r\n" = qs.flatMap (·.fmt) := by
    show _ = ascii "cpu" ++ (d.format (chr 'd') ++ (ascii ": starting " ++
      (d.format (chr 'd') ++ (ascii "\r\n" ++ []))))
    decide +kernel
  have htext : ascii "cpu" ++ (numeral id ++ (ascii ": starting " ++ (numeral id ++ ascii "\r\n")))
      = qs.flatMap (·.text) := by
    simp only [qs, List.flatMap_cons, List.flatMap_nil, Piece.plain_text, Piece.signed_text,
      d.length.bmod_of_lt hid, d, Layout.plain_signed, signedNumeral_natCast, List.append_nil]
  have hlen : (numeral id).length ≤ 10 := numeral_length (by decide) (by omega)
  have hprintf := printf_pieces qs
  rw [← hfmt, ← htext] at hprintf
  rw [Smp.startingText, show [Arg.word id, Arg.word id] = qs.flatMap (·.args) from rfl,
    hprintf ?_ ?_]
  · rfl
  · simp only [List.length_append]
    show 3 + (_ + (11 + (_ + 2))) < 2000
    omega
  · simp only [List.mem_append, not_or]
    exact ⟨by decide, numeral_no_nul id, by decide, numeral_no_nul id, by decide⟩

/-- No digit ends a line. -/
theorem numeral_no_newline (n : Nat) : chr '\n' ∉ numeral n := fun h =>
  absurd (numeral_isDigit h) (by decide)

theorem isLine_memUpperText (w : Nat) : IsLine (memUpperText w) ∧ memUpperText w ≠ STR_PIN := by
  have hdigits : chr '\n' ∉ numeralIn 16 (w % 2 ^ 64) := fun h =>
    absurd (numeralIn_isDigitIn (by decide) (by decide) _ _ h) (by decide)
  rw [memUpperText_eq]
  refine ⟨⟨ascii "mbi->mem_upper = " ++ numeralIn 16 (w % 2 ^ 64), ?_, ?_⟩, ?_⟩
  · rw [List.mem_append, not_or]
    exact ⟨by decide, hdigits⟩
  · rw [List.append_assoc]
    rfl
  · intro heq
    exact absurd (congrArg List.head? heq) (by simp [ascii, STR_PIN, chr])

theorem isLine_startingText {id : Nat} (hid : id < 2 ^ 31) :
    IsLine (Smp.startingText id) ∧ Smp.startingText id ≠ STR_PIN := by
  rw [startingText_eq hid]
  refine ⟨⟨ascii "cpu" ++ (numeral id ++ (ascii ": starting " ++ (numeral id ++ ascii "\r"))),
    ?_, ?_⟩, ?_⟩
  · simp only [List.mem_append, not_or]
    exact ⟨by decide, numeral_no_newline id, by decide, numeral_no_newline id, by decide⟩
  · simp only [List.append_assoc]
    rfl
  · intro heq
    exact absurd (congrArg List.head? heq) (by simp [ascii, STR_PIN, chr])

theorem isLine_enablingText : IsLine Smp.enablingText ∧ Smp.enablingText ≠ STR_PIN :=
  ⟨⟨ascii "enabling apic\r", by decide, by decide⟩, by decide⟩

/-- What the processors print in front of the harness. -/
def startLines (cfg : Smp.Config) : List (List UInt8) :=
  Smp.enablingText :: (cfg.started cfg.apicids.length).flatMap Smp.apTexts

/-- None of the lines in front of the harness is the one that the host waits
for. -/
theorem linesBefore_transcript (cfg : Smp.Config) (w : Nat) :
    LinesBefore STR_PIN (memUpperText w :: startLines cfg) := by
  intro line hline
  rcases List.mem_cons.1 hline with rfl | hline
  · exact isLine_memUpperText w
  rcases List.mem_cons.1 hline with rfl | hline
  · exact isLine_enablingText
  obtain ⟨i, hi, htext⟩ := List.mem_flatMap.1 hline
  have hlt : i < 2 ^ 31 := by
    have hrange := List.mem_range.1 (List.mem_filter.1 hi).1
    have hle : cfg.apicids.length ≤ 64 := cfg.length_le
    omega
  rcases List.mem_cons.1 htext with htext | htext
  · rw [htext]
    exact isLine_startingText hlt
  · rw [List.mem_singleton.1 htext]
    exact isLine_enablingText

end HyperBench
