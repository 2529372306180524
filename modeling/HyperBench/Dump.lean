import HyperBench.ExceptionPath
import HyperBench.PrintfPieces

/-!
# `unhandled_exception`

A fault that nobody handles ends in a report on the serial line: the exception,
the page that was missing, and the registers.

* `unhandledException` is the text of the report, made by the three calls of
  `printf` in the source.
* `readReport` reads such a report.  It is the person in front of the terminal.
* `readReport_eq` says that the report of saved registers reads back as these
  registers.
* `unhandled_fault_reported` puts it behind the way of a fault: what is read is
  the state of the processor at the fault.
-/

namespace HyperBench.Exception

open Ascii Printf WordStack

/-! ## The report -/

def exceptionMnemonic : Int → List UInt8
  | 0 => ascii "#DE"
  | 1 => ascii "#DB"
  | 2 => ascii "#NMI"
  | 3 => ascii "#BP"
  | 4 => ascii "#OF"
  | 5 => ascii "#BR"
  | 6 => ascii "#UD"
  | 7 => ascii "#NM"
  | 8 => ascii "#DF"
  | 10 => ascii "#TS"
  | 11 => ascii "#NP"
  | 12 => ascii "#SS"
  | 13 => ascii "#GP"
  | 14 => ascii "#PF"
  | 16 => ascii "#MF"
  | 17 => ascii "#AC"
  | 18 => ascii "#MC"
  | 19 => ascii "#XM"
  | _ => ascii "#??"

/-- What `read_cr0`, `read_cr2`, `read_cr3`, `read_cr4` and `read_cr8` answer. -/
structure ControlRegs where
  cr0 : UInt64
  cr2 : UInt64
  cr3 : UInt64
  cr4 : UInt64
  cr8 : UInt64
  deriving DecidableEq, Repr

/-- The format of the registers. -/
def dumpFormat : List UInt8 :=
  ascii "error_code=%04lx      rflags=%08lx      cs=%08lx\n" ++
  ascii "rax=%016lx rcx=%016lx rdx=%016lx rbx=%016lx\n" ++
  ascii "rbp=%016lx rsi=%016lx rdi=%016lx\n" ++
  ascii " r8=%016lx  r9=%016lx r10=%016lx r11=%016lx\n" ++
  ascii "r12=%016lx r13=%016lx r14=%016lx r15=%016lx\n" ++
  ascii "cr0=%016lx cr2=%016lx cr3=%016lx cr4=%016lx\n" ++
  ascii "cr8=%016lx\n"

/-- The arguments for it. -/
def dumpValues (regs : ExRegs) (cr : ControlRegs) : List UInt64 :=
  [regs.errorCode, regs.rflags, regs.cs,
    regs.rax, regs.rcx, regs.rdx, regs.rbx,
    regs.rbp, regs.rsi, regs.rdi,
    regs.r8, regs.r9, regs.r10, regs.r11,
    regs.r12, regs.r13, regs.r14, regs.r15,
    cr.cr0, cr.cr2, cr.cr3, cr.cr4,
    cr.cr8]

/-- `%ld` and `%lx` with a register. -/
def longArg (v : UInt64) : Arg := .word v.toNat

/-- The text that `unhandled_exception` prints in front of its endless loop.
The vector goes into the `int` of `exception_mnemonic`. -/
def unhandledException (outside : Int → UInt8) (regs : ExRegs) (cpu : Bool) (cr : ControlRegs) :
    Option (List UInt8) := do
  let head ← printf outside (ascii "Unhandled %sexception %ld %s at ip %016lx\n")
    [.str (if cpu then ascii "cpu " else ascii ""), longArg regs.vector,
      .str (exceptionMnemonic (toInt32 regs.vector.toNat)), longArg regs.rip]
  let page ← (if regs.vector = 14 then
      printf outside (ascii "PF at %#lx addr %#lx\n") [longArg regs.rip, longArg cr.cr2]
    else some [])
  let dump ← printf outside dumpFormat ((dumpValues regs cr).map longArg)
  return head ++ page ++ dump

/-! ## Its reader -/

/-- A number of the dump and the text behind it. -/
structure Field where
  width : Nat
  after : List UInt8
  width_pos : 0 < width
  width_le : width ≤ 16
  after_plain : ∀ c ∈ after, c ≠ 0 ∧ c ≠ chr '%'
  after_length : after.length ≤ 16
  after_ne : after ≠ []
  /-- The text shows where the number ends. -/
  after_head : isDigitIn 16 (after.headD 0) = false

/-- The widths of the numbers of the dump, and what stands behind each. -/
def dumpTable : List (Nat × List UInt8) :=
  [(4, ascii "      rflags="), (8, ascii "      cs="), (8, ascii "\nrax="),
    (16, ascii " rcx="), (16, ascii " rdx="), (16, ascii " rbx="), (16, ascii "\nrbp="),
    (16, ascii " rsi="), (16, ascii " rdi="), (16, ascii "\n r8="),
    (16, ascii "  r9="), (16, ascii " r10="), (16, ascii " r11="), (16, ascii "\nr12="),
    (16, ascii " r13="), (16, ascii " r14="), (16, ascii " r15="), (16, ascii "\ncr0="),
    (16, ascii " cr2="), (16, ascii " cr3="), (16, ascii " cr4="), (16, ascii "\ncr8="),
    (16, ascii "\n")]

theorem dumpTable_valid : ∀ f ∈ dumpTable, (0 < f.1 ∧ f.1 ≤ 16) ∧
    (∀ c ∈ f.2, c ≠ 0 ∧ c ≠ chr '%') ∧ (f.2.length ≤ 16 ∧ f.2 ≠ []) ∧
      isDigitIn 16 (f.2.headD 0) = false := by
  decide +kernel

def dumpFields : List Field :=
  dumpTable.attach.map fun f =>
    have h := dumpTable_valid f.1 f.2
    ⟨f.1.1, f.1.2, h.1.1, h.1.2, h.2.1, h.2.2.1.1, h.2.2.1.2, h.2.2.2⟩

/-- The numbers of the dump. -/
def readFields : List Field → List UInt8 → Option (List Nat × List UInt8)
  | [], text => some ([], text)
  | f :: fs, text => do
    let (v, text) ← readNumber 16 text
    let text ← expect f.after text
    let (vs, text) ← readFields fs text
    return (v :: vs, text)

/-- A number of `%#lx`. -/
def readPointer (text : List UInt8) : Option (Nat × List UInt8) :=
  readNumber 16 ((expect (ascii "0x") text).getD text)

/-- The line of a page fault, if there is one: the instruction and the page. -/
def readPage (text : List UInt8) : Option (Option (Nat × Nat) × List UInt8) :=
  match expect (ascii "PF at ") text with
  | none => some (none, text)
  | some text => do
    let (rip, text) ← readPointer text
    let text ← expect (ascii " addr ") text
    let (addr, text) ← readPointer text
    let text ← expect (ascii "\n") text
    return (some (rip, addr), text)

/-- What a report says. -/
structure Report where
  cpu : Bool
  vector : Nat
  mnemonic : List UInt8
  rip : Nat
  page : Option (Nat × Nat)
  registers : List Nat
  deriving DecidableEq, Repr

def readReport (text : List UInt8) : Option Report := do
  let text ← expect (ascii "Unhandled ") text
  let cpu := (expect (ascii "cpu ") text).isSome
  let text ← expect (ascii "exception ") ((expect (ascii "cpu ") text).getD text)
  let (vector, text) ← readNumber 10 text
  let text ← expect (ascii " ") text
  let mnemonic := text.takeWhile (· ≠ chr ' ')
  let text ← expect (ascii " at ip ") (text.dropWhile (· ≠ chr ' '))
  let (rip, text) ← readNumber 16 text
  let text ← expect (ascii "\n") text
  let (page, text) ← readPage text
  let text ← expect (ascii "error_code=") text
  let (registers, text) ← readFields dumpFields text
  if text = [] then some ⟨cpu, vector, mnemonic, rip, page, registers⟩ else none

/-! ## Texts of numbers -/

theorem numeralIn_length_le (v : UInt64) : (numeralIn 16 v.toNat).length ≤ 16 :=
  (numeralIn_length_le_iff (by decide) (by decide)).2 (lt_of_lt_of_eq v.toNat_lt (by decide))

/-- The text of `%0wlx`. -/
def padHex (w : Nat) (v : UInt64) : List UInt8 :=
  List.replicate (w - (numeralIn 16 v.toNat).length) (chr '0') ++ numeralIn 16 v.toNat

/-- The directive `%0wlx`. -/
def hexLayout {w : Nat} (hpos : 0 < w) (hle : w ≤ 16) : Layout :=
  ⟨false, .zero, some ⟨w, hpos, lt_of_le_of_lt hle (Nat.le_of_ble_eq_true rfl)⟩, .l⟩

theorem unsigned_hexLayout {w : Nat} (hpos : 0 < w) (hle : w ≤ 16) (v : UInt64) :
    (hexLayout hpos hle).unsigned 16 (v.toNat % 2 ^ (hexLayout hpos hle).length.bits)
      = padHex w v := by
  have hv : v.toNat % 2 ^ (hexLayout hpos hle).length.bits = v.toNat := Nat.mod_eq_of_lt v.toNat_lt
  rw [hv]
  rfl

theorem padHex_length_le {w : Nat} (hw : w ≤ 16) (v : UInt64) : (padHex w v).length ≤ 16 := by
  have hlen := numeralIn_length_le v
  rw [padHex, List.length_append, List.length_replicate]
  omega

theorem padHex_no_nul (w : Nat) (v : UInt64) : (0 : UInt8) ∉ padHex w v := by
  intro h
  rcases List.mem_append.1 h with hzero | hnumeral
  · exact absurd (List.eq_of_mem_replicate hzero) (by decide)
  · exact numeralIn_no_nul (by decide) (by decide) _ hnumeral

theorem readNumber_padHex (w : Nat) (v : UInt64) {rest : List UInt8}
    (hrest : isDigitIn 16 (rest.headD 0) = false) :
    readNumber 16 (padHex w v ++ rest) = some (v.toNat, rest) :=
  readNumber_eq (by decide) (by decide) _ _ hrest

/-- The text of `%#lx`. -/
def pointerText (v : UInt64) : List UInt8 :=
  (if v.toNat ≠ 0 then ascii "0x" else []) ++ numeralIn 16 v.toNat

theorem readPointer_pointerText (v : UInt64) {rest : List UInt8}
    (hrest : isDigitIn 16 (rest.headD 0) = false) (hx : rest.headD 0 ≠ chr 'x') :
    readPointer (pointerText v ++ rest) = some (v.toNat, rest) := by
  have hread : readNumber 16 (numeralIn 16 v.toNat ++ rest) = some (v.toNat, rest) :=
    readNumber_eq (by decide) (by decide) 0 _ hrest
  unfold readPointer pointerText
  by_cases hv : v.toNat = 0
  · -- the number 0 has no prefix
    have hnone : expect (ascii "0x") (chr '0' :: rest) = none := by
      cases rest with
      | nil => rfl
      | cons c rest =>
        have hne : (chr 'x' == c) = false := beq_false_of_ne fun h => hx h.symm
        show (if (chr '0' == chr '0' && (chr 'x' == c && true)) = true then _ else _) = _
        rw [hne]
        rfl
    have hzero : numeralIn 16 v.toNat = [chr '0'] := by rw [hv]; rfl
    rw [hzero] at hread ⊢
    rw [if_neg (not_not.2 hv), List.nil_append, List.singleton_append, hnone]
    exact hread
  · rw [if_pos hv, List.append_assoc, expect_append]
    exact hread

/-! ## The fields of the dump -/

section Fields

variable (outside : Int → UInt8)

def Field.pieces (f : Field) (v : UInt64) : List (Piece outside) :=
  [.hex outside (hexLayout f.width_pos f.width_le) v.toNat,
    .plain outside f.after f.after_plain (lt_of_le_of_lt f.after_length (by decide))]

/-- The format of a field and what stands behind it. -/
def Field.fmt (f : Field) : List UInt8 :=
  (hexLayout f.width_pos f.width_le).format (chr 'x') ++ f.after

def Field.text (p : Field × UInt64) : List UInt8 := padHex p.1.width p.2 ++ p.1.after

variable (ps : List (Field × UInt64))

/-- The pieces of the dump behind its first label. -/
def fieldPieces : List (Piece outside) := ps.flatMap fun p => p.1.pieces outside p.2

@[simp] theorem fieldPieces_cons (p : Field × UInt64) :
    fieldPieces outside (p :: ps) = p.1.pieces outside p.2 ++ fieldPieces outside ps := rfl

theorem fieldPieces_fmt :
    (fieldPieces outside ps).flatMap (·.fmt) = (ps.map Prod.fst).flatMap Field.fmt := by
  induction ps with
  | nil => rfl
  | cons p ps ih => simp [ih, Field.pieces, Field.fmt]

theorem fieldPieces_args :
    (fieldPieces outside ps).flatMap (·.args) = (ps.map Prod.snd).map longArg := by
  induction ps with
  | nil => rfl
  | cons p ps ih => exact congrArg (longArg p.2 :: ·) ih

theorem fieldPieces_text : (fieldPieces outside ps).flatMap (·.text) = ps.flatMap Field.text := by
  induction ps with
  | nil => rfl
  | cons p ps ih => simp [ih, Field.pieces, Field.text, unsigned_hexLayout]

theorem fields_length_le : (ps.flatMap Field.text).length ≤ 32 * ps.length := by
  induction ps with
  | nil => exact Nat.le_refl 0
  | cons p ps ih =>
    have hnumber := padHex_length_le p.1.width_le p.2
    have hafter := p.1.after_length
    rw [List.flatMap_cons, List.length_append, List.length_cons, Field.text, List.length_append]
    omega

theorem fields_no_nul : (0 : UInt8) ∉ ps.flatMap Field.text := by
  intro h
  obtain ⟨p, -, hp⟩ := List.mem_flatMap.1 h
  rcases List.mem_append.1 hp with hnumber | hafter
  · exact padHex_no_nul _ _ hnumber
  · exact (p.1.after_plain 0 hafter).1 rfl

/-- The fields read back as their values. -/
theorem readFields_eq :
    readFields (ps.map Prod.fst) (ps.flatMap Field.text) = some (ps.map (·.2.toNat), []) := by
  induction ps with
  | nil => rfl
  | cons p ps ih =>
    have hhead : isDigitIn 16 ((p.1.after ++ ps.flatMap Field.text).headD 0) = false := by
      obtain ⟨c, t, hct⟩ := List.exists_cons_of_ne_nil p.1.after_ne
      have hafter := p.1.after_head
      rw [hct] at hafter ⊢
      exact hafter
    rw [List.map_cons, List.flatMap_cons, Field.text, List.append_assoc, readFields,
      readNumber_padHex _ _ hhead]
    simp only [Option.bind_eq_bind, Option.bind_some, expect_append, ih]
    rfl

end Fields

/-! ## The three calls -/

section Calls

variable (outside : Int → UInt8) (regs : ExRegs) (cr : ControlRegs)

/-- `%#lx` -/
def pointerLayout : Layout := ⟨true, .right, none, .l⟩

def cpuText (cpu : Bool) : List UInt8 := if cpu then ascii "cpu " else ascii ""

theorem mnemonic_word (v : Int) :
    (exceptionMnemonic v).length ≤ 4 ∧ ∀ c ∈ exceptionMnemonic v, c ≠ 0 ∧ c ≠ chr ' ' := by
  unfold exceptionMnemonic
  split <;> decide +kernel

theorem unsigned_pointer (v : UInt64) :
    pointerLayout.unsigned 16 (v.toNat % 2 ^ pointerLayout.length.bits) = pointerText v := by
  have hv : v.toNat % 2 ^ pointerLayout.length.bits = v.toNat := Nat.mod_eq_of_lt v.toNat_lt
  rw [hv]
  refine (c99Field_zero _ _ _).trans ?_
  show (if true = true ∧ 16 = 16 ∧ v.toNat ≠ 0 then [chr '0', chr 'x'] else []) ++ _ = _
  simp only [true_and]
  rfl

theorem pointerText_length_le (v : UInt64) : (pointerText v).length ≤ 18 := by
  have hlen := numeralIn_length_le v
  have hstart : (if v.toNat ≠ 0 then ascii "0x" else []).length ≤ 2 := by
    split <;> decide +kernel
  rw [pointerText, List.length_append]
  omega

theorem pointerText_no_nul (v : UInt64) : (0 : UInt8) ∉ pointerText v := by
  intro h
  rcases List.mem_append.1 h with hstart | hnumeral
  · split at hstart
    · exact absurd hstart (by decide)
    · cases hstart
  · exact numeralIn_no_nul (by decide) (by decide) _ hnumeral

/-- The first line. -/
def headText (cpu : Bool) : List UInt8 :=
  ascii "Unhandled " ++ (cpuText cpu ++ (ascii "exception " ++ (numeral regs.vector.toNat ++
    (ascii " " ++ (exceptionMnemonic (toInt32 regs.vector.toNat) ++ (ascii " at ip " ++
      (padHex 16 regs.rip ++ ascii "\n")))))))

theorem headText_fits (cpu : Bool) (hvector : regs.vector.toNat < 2 ^ 31) :
    (headText regs cpu).length < 2000 ∧ (0 : UInt8) ∉ headText regs cpu := by
  obtain ⟨hmnemonic, hword⟩ := mnemonic_word (toInt32 regs.vector.toNat)
  have hcpu : (cpuText cpu).length ≤ 4 ∧ (0 : UInt8) ∉ cpuText cpu := by
    cases cpu <;> decide
  have hnumber : (numeral regs.vector.toNat).length ≤ 10 := numeral_length (by decide) (by omega)
  have hrip := padHex_length_le (Nat.le_refl 16) regs.rip
  have hlabels : (ascii "Unhandled ").length = 10 ∧ (ascii "exception ").length = 10 ∧
      (ascii " ").length = 1 ∧ (ascii " at ip ").length = 7 ∧ (ascii "\n").length = 1 := by
    decide +kernel
  have hplain : (0 : UInt8) ∉ ascii "Unhandled " ∧ (0 : UInt8) ∉ ascii "exception " ∧
      (0 : UInt8) ∉ ascii " " ∧ (0 : UInt8) ∉ ascii " at ip " ∧ (0 : UInt8) ∉ ascii "\n" := by
    decide +kernel
  constructor
  · simp only [headText, List.length_append]
    omega
  · have hmnemonic0 : (0 : UInt8) ∉ exceptionMnemonic (toInt32 regs.vector.toNat) :=
      fun h => (hword 0 h).1 rfl
    simp only [headText, List.mem_append, not_or]
    exact ⟨hplain.1, hcpu.2, hplain.2.1, numeral_no_nul _, hplain.2.2.1, hmnemonic0,
      hplain.2.2.2.1, padHex_no_nul _ _, hplain.2.2.2.2⟩

theorem printf_head (cpu : Bool) (hvector : regs.vector.toNat < 2 ^ 31) :
    printf outside (ascii "Unhandled %sexception %ld %s at ip %016lx\n")
        [.str (cpuText cpu), longArg regs.vector,
          .str (exceptionMnemonic (toInt32 regs.vector.toNat)), longArg regs.rip]
      = some (headText regs cpu) := by
  have hmnemonic := (mnemonic_word (toInt32 regs.vector.toNat)).1
  have hcpu : (cpuText cpu).length ≤ 4 := by
    cases cpu <;> decide
  obtain ⟨hlen, hnul⟩ := headText_fits regs cpu hvector
  have hlong : regs.vector.toNat < 2 ^ ((Layout.plain .l).length.bits - 1) :=
    lt_trans hvector (by decide)
  let qs : List (Piece outside) :=
    [.plain outside (ascii "Unhandled ") (by decide +kernel) (by decide +kernel),
      .string outside (.plain .none) (cpuText cpu) (by omega),
      .plain outside (ascii "exception ") (by decide +kernel) (by decide +kernel),
      .signed outside (.plain .l) regs.vector.toNat (by decide)
        ((Layout.plain .l).length.bmod_ne_least hlong),
      .plain outside (ascii " ") (by decide +kernel) (by decide +kernel),
      .string outside (.plain .none) (exceptionMnemonic (toInt32 regs.vector.toNat)) (by omega),
      .plain outside (ascii " at ip ") (by decide +kernel) (by decide +kernel),
      .hex outside (hexLayout (w := 16) (by decide) (by decide)) regs.rip.toNat,
      .plain outside (ascii "\n") (by decide +kernel) (by decide +kernel)]
  have hfmt : ascii "Unhandled %sexception %ld %s at ip %016lx\n" = qs.flatMap (·.fmt) := by
    show _ = ascii "Unhandled " ++ ((Layout.plain .none).format (chr 's') ++ (ascii "exception " ++
      ((Layout.plain .l).format (chr 'd') ++ (ascii " " ++ ((Layout.plain .none).format (chr 's') ++
        (ascii " at ip " ++ ((hexLayout (w := 16) (by decide) (by decide)).format (chr 'x') ++
          (ascii "\n" ++ []))))))))
    decide +kernel
  have htext : headText regs cpu = qs.flatMap (·.text) := by
    simp [qs, headText, Layout.plain_string, Layout.plain_signed, Length.bmod_of_lt _ hlong,
      signedNumeral_natCast, unsigned_hexLayout]
  rw [hfmt, htext]
  exact printf_pieces qs (htext ▸ hlen) (htext ▸ hnul)

/-- The line of a page fault. -/
def pageText : List UInt8 :=
  ascii "PF at " ++ (pointerText regs.rip ++ (ascii " addr " ++ (pointerText cr.cr2 ++ ascii "\n")))

theorem printf_page :
    printf outside (ascii "PF at %#lx addr %#lx\n") [longArg regs.rip, longArg cr.cr2]
      = some (pageText regs cr) := by
  let qs : List (Piece outside) :=
    [.plain outside (ascii "PF at ") (by decide +kernel) (by decide +kernel),
      .hex outside pointerLayout regs.rip.toNat,
      .plain outside (ascii " addr ") (by decide +kernel) (by decide +kernel),
      .hex outside pointerLayout cr.cr2.toNat,
      .plain outside (ascii "\n") (by decide +kernel) (by decide +kernel)]
  have hfmt : ascii "PF at %#lx addr %#lx\n" = qs.flatMap (·.fmt) := by
    show _ = ascii "PF at " ++ (pointerLayout.format (chr 'x') ++ (ascii " addr " ++
      (pointerLayout.format (chr 'x') ++ (ascii "\n" ++ []))))
    decide +kernel
  have htext : pageText regs cr = qs.flatMap (·.text) := by
    simp [qs, pageText, unsigned_pointer]
  have hlabels : (ascii "PF at ").length = 6 ∧ (ascii " addr ").length = 6 ∧
      (ascii "\n").length = 1 := by
    decide +kernel
  have hplain : (0 : UInt8) ∉ ascii "PF at " ∧ (0 : UInt8) ∉ ascii " addr " ∧
      (0 : UInt8) ∉ ascii "\n" := by
    decide +kernel
  have hlen : (pageText regs cr).length < 2000 := by
    have hrip := pointerText_length_le regs.rip
    have haddr := pointerText_length_le cr.cr2
    simp only [pageText, List.length_append]
    omega
  have hnul : (0 : UInt8) ∉ pageText regs cr := by
    simp only [pageText, List.mem_append, not_or]
    exact ⟨hplain.1, pointerText_no_nul _, hplain.2.1, pointerText_no_nul _, hplain.2.2⟩
  rw [hfmt, htext]
  exact printf_pieces qs (htext ▸ hlen) (htext ▸ hnul)

/-- The fields of the dump with their values. -/
def dumpPairs : List (Field × UInt64) := dumpFields.zip (dumpValues regs cr)

theorem dumpPairs_fst : (dumpPairs regs cr).map Prod.fst = dumpFields :=
  List.map_fst_zip (Nat.le_of_eq rfl)

theorem dumpPairs_snd : (dumpPairs regs cr).map Prod.snd = dumpValues regs cr :=
  List.map_snd_zip (Nat.le_of_eq rfl)

theorem dumpPairs_length : (dumpPairs regs cr).length = 23 := rfl

/-- The format of the source is the first label and the fields. -/
theorem dumpFormat_eq : dumpFormat = ascii "error_code=" ++ dumpFields.flatMap Field.fmt := by
  decide +kernel

theorem printf_dump :
    printf outside dumpFormat ((dumpValues regs cr).map longArg)
      = some (ascii "error_code=" ++ (dumpPairs regs cr).flatMap Field.text) := by
  let qs : List (Piece outside) :=
    .plain outside (ascii "error_code=") (by decide +kernel) (by decide +kernel) ::
      fieldPieces outside (dumpPairs regs cr)
  have hfmt : dumpFormat = qs.flatMap (·.fmt) := by
    rw [dumpFormat_eq, List.flatMap_cons, fieldPieces_fmt, dumpPairs_fst]
    rfl
  have hargs : (dumpValues regs cr).map longArg = qs.flatMap (·.args) := by
    rw [List.flatMap_cons, fieldPieces_args, dumpPairs_snd]
    rfl
  have htext : ascii "error_code=" ++ (dumpPairs regs cr).flatMap Field.text
      = qs.flatMap (·.text) := by
    rw [List.flatMap_cons, fieldPieces_text]
    rfl
  have hlabel : (ascii "error_code=").length = 11 ∧ (0 : UInt8) ∉ ascii "error_code=" := by
    decide +kernel
  have hlen : (ascii "error_code=" ++ (dumpPairs regs cr).flatMap Field.text).length < 2000 := by
    have hfields := fields_length_le (dumpPairs regs cr)
    rw [dumpPairs_length] at hfields
    rw [List.length_append]
    omega
  have hnul : (0 : UInt8) ∉ ascii "error_code=" ++ (dumpPairs regs cr).flatMap Field.text := by
    rw [List.mem_append, not_or]
    exact ⟨hlabel.2, fields_no_nul _⟩
  rw [hfmt, hargs, htext]
  exact printf_pieces qs (htext ▸ hlen) (htext ▸ hnul)

/-! ## The report reads back -/

/-- What the report should say. -/
def ExRegs.report (cpu : Bool) : Report where
  cpu := cpu
  vector := regs.vector.toNat
  mnemonic := exceptionMnemonic (toInt32 regs.vector.toNat)
  rip := regs.rip.toNat
  page := if regs.vector = 14 then some (regs.rip.toNat, cr.cr2.toNat) else none
  registers := (dumpValues regs cr).map UInt64.toNat

/-- The text behind the first line. -/
def tailText : List UInt8 :=
  (if regs.vector = 14 then pageText regs cr else []) ++
    (ascii "error_code=" ++ (dumpPairs regs cr).flatMap Field.text)

/-- The characters behind the numbers of the first two lines end them. -/
theorem ends_number (rest : List UInt8) :
    (isDigitIn 16 ((ascii " addr " ++ rest).headD 0) = false ∧
      (ascii " addr " ++ rest).headD 0 ≠ chr 'x') ∧
    (isDigitIn 16 ((ascii "\n" ++ rest).headD 0) = false ∧
      (ascii "\n" ++ rest).headD 0 ≠ chr 'x') ∧
    isDigitIn 10 ((ascii " " ++ rest).headD 0) = false := by
  show (isDigitIn 16 (chr ' ') = false ∧ chr ' ' ≠ chr 'x') ∧
    (isDigitIn 16 (chr '\n') = false ∧ chr '\n' ≠ chr 'x') ∧ isDigitIn 10 (chr ' ') = false
  decide

theorem readPage_tailText :
    readPage (tailText regs cr)
      = some ((regs.report cr false).page,
          ascii "error_code=" ++ (dumpPairs regs cr).flatMap Field.text) := by
  unfold tailText ExRegs.report
  generalize (dumpPairs regs cr).flatMap Field.text = rest
  by_cases hv : regs.vector = 14
  · simp only [hv, if_true]
    rw [pageText, List.append_assoc, readPage, expect_append]
    simp only [List.append_assoc]
    rw [readPointer_pointerText _ (ends_number _).1.1 (ends_number _).1.2]
    simp only [Option.bind_eq_bind, Option.bind_some, expect_append]
    rw [readPointer_pointerText _ (ends_number _).2.1.1 (ends_number _).2.1.2]
    simp only [Option.bind_some, expect_append, Option.pure_def]
  · simp only [hv, if_false]
    rfl

/-- The word between the blanks of the first line. -/
theorem mnemonic_between (v : Int) (rest : List UInt8) :
    (exceptionMnemonic v ++ (ascii " at ip " ++ rest)).takeWhile (· ≠ chr ' ')
        = exceptionMnemonic v ∧
      (exceptionMnemonic v ++ (ascii " at ip " ++ rest)).dropWhile (· ≠ chr ' ')
        = ascii " at ip " ++ rest := by
  have hhead : ∀ c ∈ (ascii " at ip " ++ rest).head?, decide (c ≠ chr ' ') = false :=
    head_of_headD (p := fun c => decide (c ≠ chr ' ')) rfl
  have hword : ∀ c ∈ exceptionMnemonic v, decide (c ≠ chr ' ') = true := fun c hc =>
    decide_eq_true ((mnemonic_word v).2 c hc).2
  exact ⟨takeWhile_append_stop hword hhead, dropWhile_append_stop hword hhead⟩

theorem expect_cpu (cpu : Bool) (rest : List UInt8) :
    (expect (ascii "cpu ") (cpuText cpu ++ (ascii "exception " ++ rest))).isSome = cpu ∧
      (expect (ascii "cpu ") (cpuText cpu ++ (ascii "exception " ++ rest))).getD
          (cpuText cpu ++ (ascii "exception " ++ rest))
        = ascii "exception " ++ rest := by
  cases cpu with
  | false => exact ⟨rfl, rfl⟩
  | true =>
    rw [cpuText, if_pos rfl, expect_append]
    exact ⟨rfl, rfl⟩

theorem readFields_dump :
    readFields dumpFields ((dumpPairs regs cr).flatMap Field.text)
      = some ((dumpValues regs cr).map UInt64.toNat, []) := by
  have hread := readFields_eq (dumpPairs regs cr)
  have hvalues : (dumpPairs regs cr).map (·.2.toNat) = (dumpValues regs cr).map UInt64.toNat := by
    rw [← dumpPairs_snd, List.map_map]
    rfl
  rwa [dumpPairs_fst, hvalues] at hread

theorem readNumber_vector (n : Nat) (rest : List UInt8) :
    readNumber 10 (numeral n ++ (ascii " " ++ rest)) = some (n, ascii " " ++ rest) := by
  have hnumeral : numeral n = numeralIn 10 n := rfl
  rw [hnumeral]
  exact readNumber_eq (by decide) (by decide) 0 n (ends_number rest).2.2

theorem readReport_text (cpu : Bool) :
    readReport (headText regs cpu ++ tailText regs cr) = some (regs.report cr cpu) := by
  have hrip : ∀ rest, readNumber 16 (padHex 16 regs.rip ++ (ascii "\n" ++ rest))
      = some (regs.rip.toNat, ascii "\n" ++ rest) := fun rest =>
    readNumber_padHex 16 regs.rip (ends_number rest).2.1.1
  unfold readReport headText
  simp only [List.append_assoc]
  rw [expect_append]
  simp only [Option.bind_eq_bind, Option.bind_some]
  rw [(expect_cpu cpu _).1, (expect_cpu cpu _).2, expect_append, Option.bind_some,
    readNumber_vector, Option.bind_some, expect_append, Option.bind_some,
    (mnemonic_between _ _).1, (mnemonic_between _ _).2, expect_append, Option.bind_some, hrip,
    Option.bind_some, expect_append, Option.bind_some, readPage_tailText, Option.bind_some,
    expect_append, Option.bind_some, readFields_dump, Option.bind_some, if_pos rfl]
  rfl

/-- The report of saved registers reads back as these registers. -/
theorem readReport_eq (cpu : Bool) (hvector : regs.vector.toNat < 2 ^ 31) :
    ∃ text, unhandledException outside regs cpu cr = some text ∧
      readReport text = some (regs.report cr cpu) := by
  refine ⟨_, ?_, readReport_text regs cr cpu⟩
  have hpage : (if regs.vector = 14 then
      printf outside (ascii "PF at %#lx addr %#lx\n") [longArg regs.rip, longArg cr.cr2]
      else some []) = some (if regs.vector = 14 then pageText regs cr else []) := by
    split
    · exact printf_page outside regs cr
    · rfl
  unfold unhandledException
  rw [show (if cpu = true then ascii "cpu " else ascii "") = cpuText cpu from rfl,
    printf_head outside regs cpu hvector, hpage, printf_dump]
  simp only [Option.bind_eq_bind, Option.bind_some, Option.pure_def, tailText, List.append_assoc]

end Calls

/-! ## The way of a fault -/

/-- The functions of `desc.c` have no answer for a fault. -/
def Unhandled (t : Tables) (table : List ExRecord) (c : Cpu) (vector : Nat) : Prop :=
  t.handlers vector = none ∨ ∀ r ∈ table, r.rip ≠ c.rip

theorem doHandleException_unhandled {handlers : Nat → Option Handler} {table : List ExRecord}
    {m : Mem} {a : UInt64} {c : Cpu} {dummy errorCode : UInt64} {vector : Nat}
    (hvector : vector < 256)
    (h : Holds m a (savedWords c.reg dummy (faultWords c vector errorCode c.rip)))
    (hnone : handlers vector = none ∨ ∀ r ∈ table, r.rip ≠ c.rip) (gs4 : UInt32) :
    ∃ gs4', doHandleException handlers table m a gs4
      = .unhandled (handlers vector).isNone m gs4' := by
  cases hhandler : handlers vector with
  | none =>
    refine ⟨gs4, ?_⟩
    unfold doHandleException
    rw [load_savedWords h]
    simp only [exRegs_vector c dummy hvector errorCode, hvector, if_true, hhandler]
    rfl
  | some fn =>
    cases fn
    rw [hhandler] at hnone
    rw [doHandleException_eq hvector hhandler h,
      findHandler_of_not_mem (hnone.resolve_left (Option.some_ne_none _))]
    exact ⟨_, rfl⟩

/-- What the report of a fault should say. -/
def Cpu.report (c : Cpu) (cpu : Bool) (vector : Nat) (errorCode : UInt64) (cr : ControlRegs) :
    Report where
  cpu := cpu
  vector := vector
  mnemonic := exceptionMnemonic vector
  rip := c.rip.toNat
  page := if vector = 14 then some (c.rip.toNat, cr.cr2.toNat) else none
  registers :=
    ([errorWord vector errorCode, c.rflags, c.cs] ++
      [Reg.rax, .rcx, .rdx, .rbx, .rbp, .rsi, .rdi, .r8, .r9, .r10, .r11, .r12, .r13, .r14,
        .r15].map c.reg ++ [cr.cr0, cr.cr2, cr.cr3, cr.cr4, cr.cr8]).map UInt64.toNat

theorem report_exRegs (c : Cpu) (cpu : Bool) {vector : Nat} (h : vector < 256) (dummy : UInt64)
    (errorCode : UInt64) (cr : ControlRegs) :
    (c.exRegs dummy vector errorCode).report cr cpu = c.report cpu vector errorCode cr := by
  have hword := exRegs_vector c dummy h errorCode
  have hpage : (c.exRegs dummy vector errorCode).vector = 14 ↔ vector = 14 := by
    rw [← UInt64.toNat_inj, hword]
    rfl
  unfold ExRegs.report Cpu.report
  simp only [hword, hpage, toInt32_of_mem (x := (vector : Int)) (by omega) (by omega)]
  rfl

/-- For every state of the processor and every fault that is not handled: the
report on the serial line reads back as the registers at the fault, with the
vector, the error code and the address of the missing page. -/
theorem unhandled_fault_reported (outside : Int → UInt8) (g : Image) (cs : UInt16) (t : Tables)
    (ht : t.initialized = false) (table : List ExRecord) (f : Callee) (c : Cpu) (vector : Nat)
    (stub : Stub) (hstub : idtHandlers vector = some stub) (errorCode : UInt64) (cr : ControlRegs)
    (h : Unhandled (setupIdt g cs t) table c vector) :
    ∃ regs cpu c' text,
      fault g (setupIdt g cs t) table f c vector errorCode = some (.unhandled regs cpu c') ∧
      (cpu = true ↔ (setupIdt g cs t).handlers vector = none) ∧
      unhandledException outside (ExRegs.load c'.mem regs) cpu cr = some text ∧
      readReport text = some (c.report cpu vector errorCode cr) := by
  have hlt : vector < 256 := lt_trans (idtHandlers_lt hstub) (by decide)
  obtain ⟨c₁, dummy, hstack, hfault⟩ := fault_frame hstub (setupIdt_idt g cs ht hstub) table f c
    errorCode
  obtain ⟨gs4, hhandled⟩ := doHandleException_unhandled hlt hstack h c₁.gs4
  have hload := load_savedWords hstack
  have hvector := exRegs_vector c dummy hlt errorCode
  obtain ⟨text, htext, hread⟩ := readReport_eq outside (c.exRegs dummy vector errorCode) cr
    ((setupIdt g cs t).handlers vector).isNone (by omega)
  rw [hhandled] at hfault
  rw [report_exRegs c _ hlt] at hread
  refine ⟨c₁.reg .rsp, _, _, text, hfault, Option.isNone_iff_eq_none, ?_, hread⟩
  rw [← hload] at htext
  exact htext

/-- A page fault, for which there is no handler. -/
theorem unhandled_fault_reported_page :
    ∃ regs c' text,
      fault stubsInOrder
        (setupIdt stubsInOrder 8 ⟨fun _ => ⟨0, 0, 0, 0, 0, 0, 0, 0⟩, fun _ => none, false⟩)
        [] ⟨fun _ => 7, [1, 2, 3], by decide⟩
        ⟨fun _ => 9, 0x1000, 8, 0x10002, 16, fun _ => 0, 0⟩ 14 2 = some (.unhandled regs true c') ∧
      unhandledException (fun _ => 0) (ExRegs.load c'.mem regs) true ⟨1, 0xdead000, 2, 3, 0⟩
        = some text ∧
      readReport text = some ⟨true, 14, ascii "#PF", 0x1000, some (0x1000, 0xdead000),
        [2, 0x10002, 8] ++ List.replicate 15 9 ++ [1, 0xdead000, 2, 3, 0]⟩ := by
  have hnone : (setupIdt stubsInOrder 8
      ⟨fun _ => ⟨0, 0, 0, 0, 0, 0, 0, 0⟩, fun _ => none, false⟩).handlers 14 = none := rfl
  obtain ⟨regs, cpu, c', text, hfault, hcpu, htext, hread⟩ := unhandled_fault_reported (fun _ => 0)
    stubsInOrder 8 ⟨fun _ => ⟨0, 0, 0, 0, 0, 0, 0, 0⟩, fun _ => none, false⟩ rfl []
    ⟨fun _ => 7, [1, 2, 3], by decide⟩ ⟨fun _ => 9, 0x1000, 8, 0x10002, 16, fun _ => 0, 0⟩ 14 .pf
    rfl 2 ⟨1, 0xdead000, 2, 3, 0⟩ (.inl hnone)
  obtain rfl : cpu = true := hcpu.2 hnone
  exact ⟨regs, c', text, hfault, htext, hread⟩

end HyperBench.Exception
