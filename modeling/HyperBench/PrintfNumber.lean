import HyperBench.PrintfFlags

/-!
# Decimal numbers of `printf.c` and `atol`

* `atolText_digits` and `atolText_minus` say what `atol` reads off digits.
* `intBuffer_reverse` is the text of `print_int` for every number except the
  least 64-bit integer: an optional minus sign and the shortest numeral.
* `printIntBuffer` is what `print_int` does with its local buffer, with
  checked accesses.  `printInt_of_buffer` ties it to `printInt`.
* `printInt_atol_iff`: printing and parsing are inverse and stay inside the
  digit table and the buffer if and only if the number is not the least
  64-bit integer, whose negation is negative again.
-/

namespace HyperBench.Printf

open Ascii CObject

/-! ## Reading digits -/

theorem decimal_append (ds : List UInt8) (c : UInt8) :
    decimal (ds ++ [c]) = 10 * decimal ds + (c.toNat - 48) := by
  rw [decimal, List.foldl_append]
  rfl

theorem toInt64_of_mem {x : Int} (h : -2 ^ 63 ≤ x) (h' : x < 2 ^ 63) : toInt64 x = x :=
  Int.bmod_eq_of_le (by omega) (by omega)

theorem isDigit_iff {c : UInt8} : isDigit c = true ↔ 48 ≤ c.toNat ∧ c.toNat ≤ 57 := by
  simp only [isDigit, decide_eq_true_eq, UInt8.le_iff_toNat_le]
  rfl

/-- The accumulator of `atol` does not wrap on a number that a `long`
holds. -/
theorem foldl_atol {ds : List UInt8} (hds : ∀ c ∈ ds, isDigit c = true)
    (hv : decimal ds < 2 ^ 63) :
    ds.foldl (fun acc c => toInt64 (acc * 10 + (c.toNat - (chr '0').toNat : Int))) 0
      = decimal ds := by
  induction ds using List.reverseRecOn with
  | nil => rfl
  | append_singleton ds c ih =>
    have hc := isDigit_iff.1 (hds c (by simp))
    have hzero : (chr '0').toNat = 48 := rfl
    rw [decimal_append] at hv ⊢
    rw [List.foldl_append, ih (fun d hd => hds d (List.mem_append_left _ hd)) (by omega)]
    show toInt64 (decimal ds * 10 + (c.toNat - (chr '0').toNat : Int)) = _
    rw [hzero, toInt64_of_mem (by omega) (by omega)]
    omega

/-- A character behind which `atol` finds no number. -/
def endsNumber (c : UInt8) : Bool :=
  ¬ (isDigit c ∨ c = chr ' ' ∨ c = chr '\t' ∨ c = chr '-' ∨ c = chr '+')

/-- `atol` starts with a digit or finds no number. -/
theorem headD_append_digits {ds rest : List UInt8} (hds : ∀ c ∈ ds, isDigit c = true)
    (hrest : endsNumber (rest.headD 0) = true) :
    ¬ ((ds ++ rest).headD 0 = chr ' ' ∨ (ds ++ rest).headD 0 = chr '\t') ∧
      ¬ ((ds ++ rest).headD 0 = chr '-' ∨ (ds ++ rest).headD 0 = chr '+') := by
  cases ds with
  | nil =>
    simp only [endsNumber, not_or, decide_eq_true_eq] at hrest
    exact ⟨not_or.2 ⟨hrest.2.1, hrest.2.2.1⟩, not_or.2 hrest.2.2.2⟩
  | cons c ds =>
    have hc := isDigit_iff.1 (hds c List.mem_cons_self)
    have h1 : (chr ' ').toNat = 32 := rfl
    have h2 : (chr '\t').toNat = 9 := rfl
    have h3 : (chr '-').toNat = 45 := rfl
    have h4 : (chr '+').toNat = 43 := rfl
    simp only [List.cons_append, List.headD_cons, ← UInt8.toNat_inj]
    omega

/-- `atol` at digits. -/
theorem atolText_digits {ds rest : List UInt8} (hds : ∀ c ∈ ds, isDigit c = true)
    (hrest : endsNumber (rest.headD 0) = true) (hv : decimal ds < 2 ^ 63) :
    atolText (ds ++ rest) = decimal ds := by
  obtain ⟨hblank, hsign⟩ := headD_append_digits hds hrest
  have hdigit : isDigit (rest.headD 0) = false := by
    simp only [endsNumber, not_or, decide_eq_true_eq] at hrest
    exact Bool.eq_false_iff.2 hrest.1
  have hdrop : (ds ++ rest).dropWhile (fun c => c = chr ' ' ∨ c = chr '\t') = ds ++ rest := by
    cases hs : ds ++ rest with
    | nil => rfl
    | cons c t =>
      rw [hs, List.headD_cons] at hblank
      exact List.dropWhile_cons_of_neg (by simpa using hblank)
  unfold atolText
  simp only [hdrop, hsign, if_false, takeWhile_append_stop hds (head_of_headD hdigit),
    foldl_atol hds hv]
  rw [if_neg fun h => hsign (Or.inl h)]

/-- `atol` at a minus sign and digits. -/
theorem atolText_minus {ds rest : List UInt8} (hds : ∀ c ∈ ds, isDigit c = true)
    (hrest : isDigit (rest.headD 0) = false) (hv : decimal ds < 2 ^ 63) :
    atolText (chr '-' :: (ds ++ rest)) = -(decimal ds : Int) := by
  have hblank : (chr '-' :: (ds ++ rest)).dropWhile (fun c => c = chr ' ' ∨ c = chr '\t')
      = chr '-' :: (ds ++ rest) := List.dropWhile_cons_of_neg (by decide)
  unfold atolText
  simp only [hblank, List.headD_cons, true_or, if_true, List.tail_cons,
    takeWhile_append_stop hds (head_of_headD hrest), foldl_atol hds hv]
  exact toInt64_of_mem (by omega) (by omega)

/-! ## The text of a signed number -/

/-- An optional minus sign and the shortest numeral. -/
def signedNumeral (n : Int) : List UInt8 :=
  if n < 0 then chr '-' :: numeral n.natAbs else numeral n.natAbs

/-- The text of `print_int` for every number but the least one. -/
theorem intBuffer_reverse (outside : Int → UInt8) {n : Int} (hlo : -2 ^ 63 < n) (hhi : n < 2 ^ 63) :
    (intBuffer outside n 10).reverse = signedNumeral n := by
  rcases Int.lt_or_le n 0 with hneg | hpos
  · have habs : toInt64 (-n) = (n.natAbs : Int) := by
      rw [toInt64_of_mem (by omega) (by omega)]
      omega
    have hne : n.natAbs ≠ 0 := by omega
    unfold intBuffer
    simp only [hneg, if_true, habs, map_digitAt_intIndices outside (show n.natAbs < 10 ^ 64 by omega)]
    rw [if_neg (by simp), List.reverse_append, signedNumeral, if_pos hneg, numeral, numeralIn, if_neg hne]
    rfl
  · obtain ⟨m, rfl⟩ := Int.eq_ofNat_of_zero_le hpos
    rw [signedNumeral, if_neg (Int.not_lt.2 hpos), Int.natAbs_natCast]
    exact intBuffer_eq outside (by omega)

theorem signedNumeral_no_nul (n : Int) : (0 : UInt8) ∉ signedNumeral n := by
  unfold signedNumeral
  split
  · rw [List.mem_cons, not_or]
    exact ⟨by decide, numeral_no_nul _⟩
  · exact numeral_no_nul _

theorem signedNumeral_length {n : Int} (hlo : -2 ^ 63 ≤ n) (hhi : n < 2 ^ 63) :
    (signedNumeral n).length ≤ 20 := by
  have hlen : (numeral n.natAbs).length ≤ 19 := numeral_length (by decide) (by omega)
  unfold signedNumeral
  split
  · rw [List.length_cons]
    omega
  · omega

/-- `atol` reads a printed number back. -/
theorem atolText_signedNumeral {n : Int} (hlo : -2 ^ 63 < n) (hhi : n < 2 ^ 63) :
    atolText (signedNumeral n) = n := by
  have hdigits : ∀ c ∈ numeral n.natAbs, isDigit c = true := fun c => numeral_isDigit
  have hvalue : decimal (numeral n.natAbs) < 2 ^ 63 := by
    rw [decimal_numeral]
    omega
  unfold signedNumeral
  split
  · have hread : atolText (chr '-' :: (numeral n.natAbs ++ [])) = _ :=
      atolText_minus hdigits (by decide) hvalue
    rw [List.append_nil, decimal_numeral] at hread
    omega
  · have hread : atolText (numeral n.natAbs ++ []) = _ :=
      atolText_digits hdigits (by decide) hvalue
    rw [List.append_nil, decimal_numeral] at hread
    omega

/-- A text with no field is printed as it is. -/
theorem strText_plain {s : List UInt8} (hs : s.length < 2 ^ 31) : strText s .start = s := by
  have hprint : printStr (⟨[]⟩ : Unlimited) s .start = put ⟨[]⟩ (padded s .start) :=
    printStr_eq _ hs (by decide) (by decide)
  have hblanks : (-(0 : Int) - s.length).toNat = 0 := by omega
  have hpadded : padded s .start = s := by
    show s ++ List.replicate (-(0 : Int) - s.length).toNat (chr ' ') = s
    rw [hblanks, List.replicate_zero, List.append_nil]
  rw [strText, hprint, put_unlimited, List.nil_append, hpadded]

/-! ## The local buffer -/

/-- The indices at which `print_int` reads its digit table. -/
def tableIndices (n base : Int) : List Int := intIndices base 64 (if n < 0 then toInt64 (-n) else n)

/-- `while (n) { *p++ = digits[n % base]; n /= base; }`. -/
def storeDigits (outside : Int → UInt8) (base : Int) :
    Nat → Int → Int → List UInt8 → Option (Int × List UInt8)
  | 0, _, p, buf => some (p, buf)
  | rounds + 1, n, p, buf =>
    if n = 0 then some (p, buf)
    else do
      let buf ← store buf p (digitAt outside (n.tmod base))
      storeDigits outside base rounds (n.tdiv base) (p + 1) buf

/-- What `print_int` does with its local buffer. -/
def printIntBuffer (outside : Int → UInt8) (buf : List UInt8) (n base : Int) :
    Option (List UInt8) := do
  let (p, buf) ← storeDigits outside base 64 (if n < 0 then toInt64 (-n) else n) 0 buf
  let (p, buf) ← if n < 0 then (store buf p (chr '-')).map (p + 1, ·) else some (p, buf)
  let (p, buf) ← if p = 0 then (store buf p (chr '0')).map (p + 1, ·) else some (p, buf)
  let buf ← reverseInPlace p.toNat buf
  store buf p 0

theorem storeDigits_eq (outside : Int → UInt8) (base : Int) (rounds : Nat) (n : Int)
    (w rest : List UInt8) (h : (intIndices base rounds n).length ≤ rest.length) :
    storeDigits outside base rounds n w.length (w ++ rest)
      = some (((w.length + (intIndices base rounds n).length : Nat) : Int),
          w ++ (intIndices base rounds n).map (digitAt outside)
            ++ rest.drop (intIndices base rounds n).length) := by
  induction rounds generalizing n w rest with
  | zero => simp [storeDigits, intIndices]
  | succ rounds ih =>
    by_cases hn : n = 0
    · simp [storeDigits, intIndices, hn]
    · have hindices : intIndices base (rounds + 1) n
          = n.tmod base :: intIndices base rounds (n.tdiv base) := by rw [intIndices, if_neg hn]
      rw [hindices, List.length_cons] at h
      obtain ⟨d, rest, rfl⟩ := List.exists_cons_of_length_pos (show 0 < rest.length by omega)
      rw [List.length_cons] at h
      have hnext : w ++ digitAt outside (n.tmod base) :: rest
          = (w ++ [digitAt outside (n.tmod base)]) ++ rest := by
        rw [List.append_assoc, List.singleton_append]
      have hlen : (w.length : Int) + 1 = (w ++ [digitAt outside (n.tmod base)]).length := by
        rw [List.length_append, List.length_singleton, Nat.cast_succ]
      rw [storeDigits, if_neg hn, store_append, hindices]
      show storeDigits outside base rounds (n.tdiv base) ((w.length : Int) + 1) _ = _
      rw [hlen, hnext, ih _ _ _ (by omega)]
      simp only [List.length_append, List.length_nil, List.length_cons, List.map_cons,
        List.append_assoc, List.singleton_append, List.drop_succ_cons, Nat.add_assoc, Nat.zero_add,
        Nat.add_comm 1]

theorem intIndices_neg (base : Int) (rounds : Nat) (n : Int) :
    intIndices base rounds (-n) = (intIndices base rounds n).map (-·) := by
  induction rounds generalizing n with
  | zero => rfl
  | succ rounds ih =>
    by_cases hn : n = 0
    · simp [intIndices, hn]
    · rw [intIndices, if_neg (by omega), intIndices, if_neg hn, Int.neg_tmod, Int.neg_tdiv, ih,
        List.map_cons]

theorem toInt64_range (x : Int) : -2 ^ 63 ≤ toInt64 x ∧ toInt64 x < 2 ^ 63 := by
  have hle : -2 ^ 63 ≤ toInt64 x := Int.le_bmod (m := 2 ^ 64) (by decide)
  have hlt : toInt64 x < 2 ^ 63 := Int.bmod_lt (m := 2 ^ 64) (by decide)
  exact ⟨hle, hlt⟩

/-- A 64-bit number has at most 19 decimal digits. -/
theorem length_intIndices {n : Int} (hlo : -2 ^ 63 ≤ n) (hhi : n < 2 ^ 63) :
    (intIndices 10 64 n).length ≤ 19 := by
  have hnat : ∀ m : Nat, m ≤ 2 ^ 63 → (intIndices 10 64 m).length ≤ 19 := by
    intro m hm
    rw [intIndices_eq (by omega), List.length_map]
    exact (Nat.digits_length_le_iff (by decide) m).2 (by omega)
  rcases Int.lt_or_le n 0 with hneg | hpos
  · obtain ⟨m, hm⟩ := Int.eq_ofNat_of_zero_le (show 0 ≤ -n by omega)
    obtain rfl : n = -(m : Int) := by omega
    rw [intIndices_neg, List.length_map]
    exact hnat m (by omega)
  · obtain ⟨m, rfl⟩ := Int.eq_ofNat_of_zero_le hpos
    exact hnat m (by omega)

/-- The reversal of the characters `w` and the NUL behind them. -/
theorem reverse_and_terminate (w : List UInt8) (d : UInt8) (rest : List UInt8) :
    (reverseInPlace w.length (w ++ d :: rest)).bind (fun buf => store buf w.length 0)
      = some (w.reverse ++ 0 :: rest) := by
  have hstore := store_append w.reverse d 0 rest
  rw [List.length_reverse] at hstore
  rw [reverseInPlace_eq, Option.bind_some, hstore]

theorem length_tableIndices {n : Int} (hlo : -2 ^ 63 ≤ n) (hhi : n < 2 ^ 63) :
    (tableIndices n 10).length ≤ 19 := by
  unfold tableIndices
  split
  · exact length_intIndices (toInt64_range _).1 (toInt64_range _).2
  · exact length_intIndices hlo hhi

/-- The digits at the start of the local buffer.  Two bytes are left for the
sign and the NUL. -/
theorem storeDigits_table (outside : Int → UInt8) {buf : List UInt8} (hbuf : buf.length = 26)
    {n : Int} (hlo : -2 ^ 63 ≤ n) (hhi : n < 2 ^ 63) :
    ∃ w d e rest, w = (tableIndices n 10).map (digitAt outside) ∧
      storeDigits outside 10 64 (if n < 0 then toInt64 (-n) else n) 0 buf
        = some ((w.length : Int), w ++ d :: e :: rest) := by
  have hlen := length_tableIndices hlo hhi
  have hdigits := storeDigits_eq outside 10 64 (if n < 0 then toInt64 (-n) else n) [] buf
    (by rw [hbuf]; exact Nat.le_trans hlen (by decide))
  obtain ⟨d, tail, htail⟩ := List.exists_cons_of_length_pos
    (show 0 < (buf.drop (tableIndices n 10).length).length by rw [List.length_drop]; omega)
  obtain ⟨e, rest, rfl⟩ := List.exists_cons_of_length_pos (show 0 < tail.length by
    have h := congrArg List.length htail
    rw [List.length_drop, List.length_cons] at h
    omega)
  refine ⟨_, d, e, rest, rfl, ?_⟩
  rw [List.length_nil, Nat.zero_add, List.nil_append] at hdigits
  rw [← htail, List.length_map]
  exact hdigits

/-- The local buffer holds what `intBuffer` says, reversed and with its
NUL. -/
theorem printIntBuffer_eq (outside : Int → UInt8) {buf : List UInt8} (hbuf : buf.length = 26)
    {n : Int} (hlo : -2 ^ 63 ≤ n) (hhi : n < 2 ^ 63) :
    ∃ rest, printIntBuffer outside buf n 10
      = some ((intBuffer outside n 10).reverse ++ 0 :: rest) := by
  obtain ⟨w, d, e, rest, hw, hdigits⟩ := storeDigits_table outside hbuf hlo hhi
  have hbuffer : intBuffer outside n 10
      = if (if n < 0 then w ++ [chr '-'] else w) = [] then [chr '0']
        else if n < 0 then w ++ [chr '-'] else w := by
    rw [hw]
    rfl
  unfold printIntBuffer
  rw [hdigits, hbuffer]
  simp only [Option.bind_eq_bind, Option.bind_some]
  by_cases hneg : n < 0
  · have hfinish := reverse_and_terminate (w ++ [chr '-']) e rest
    rw [List.length_append, List.length_singleton, List.append_assoc, List.singleton_append]
      at hfinish
    refine ⟨rest, ?_⟩
    simp only [hneg, if_true, store_append, Option.map_some, Option.bind_some]
    rw [if_neg (by omega), if_neg (by simp)]
    exact hfinish
  · simp only [hneg, if_false]
    by_cases hnil : w = []
    · -- the number is 0
      subst hnil
      have hfinish := reverse_and_terminate [chr '0'] e rest
      have hstore := store_append [] d (chr '0') (e :: rest)
      refine ⟨rest, ?_⟩
      rw [if_pos rfl, if_pos (show (([] : List UInt8).length : Int) = 0 from rfl), hstore,
        Option.map_some, Option.bind_some]
      exact hfinish
    · have hpos : 0 < w.length := List.length_pos_iff.2 hnil
      refine ⟨e :: rest, ?_⟩
      rw [if_neg (by omega), if_neg hnil]
      exact reverse_and_terminate w d (e :: rest)

/-- `print_int` prints the string that it leaves in its local buffer. -/
theorem printInt_of_buffer {σ : Type} [Sink σ] (outside : Int → UInt8) {buf : List UInt8}
    (hbuf : buf.length = 26) {n : Int} (hlo : -2 ^ 63 ≤ n) (hhi : n < 2 ^ 63) (ps : σ)
    (props : StrProps) :
    ∃ buf', printIntBuffer outside buf n 10 = some buf' ∧
      printInt outside ps n 10 props = printStr ps (cString buf') props := by
  obtain ⟨rest, hrest⟩ := printIntBuffer_eq outside hbuf hlo hhi
  refine ⟨_, hrest, ?_⟩
  rw [printInt, cString_append]

/-! ## Printing and parsing -/

/-- The slot of a signed argument. -/
def slot (n : Int) : Nat := (n % 2 ^ 64).toNat

theorem bmod_slot {n : Int} (hlo : -2 ^ 63 ≤ n) (hhi : n < 2 ^ 63) :
    Int.bmod (slot n % 2 ^ 64 : Nat) (2 ^ 64) = n := by
  have hslot : ((slot n % 2 ^ 64 : Nat) : Int) = n % 2 ^ 64 := by
    unfold slot
    omega
  rw [hslot]
  exact Int.emod_bmod n (2 ^ 64) |>.trans (Int.bmod_eq_of_le (by omega) (by omega))

/-- `%ld` prints the string of `print_int`. -/
theorem output_ld (outside : Int → UInt8) {n : Int} (hlo : -2 ^ 63 ≤ n) (hhi : n < 2 ^ 63) :
    output outside 6 (ascii "%ld") [.word (slot n)]
      = some (strText (cString (intBuffer outside n 10).reverse) .start) := by
  have hrun : scanFormat outside (terminated (ascii "%ld")) 6
      (.start (⟨[]⟩ : Unlimited) [.word (slot n)])
      = some ⟨printInt outside ⟨[]⟩
          (Int.bmod (slot n % 2 ^ VaType.long.width : Nat) (2 ^ VaType.long.width)) 10 .start,
          [], 3, .text, [⟨2, some .long⟩]⟩ := rfl
  refine output_eq_some_iff.2 ⟨_, hrun, ?_⟩
  rw [show VaType.long.width = 64 from rfl, bmod_slot hlo hhi, printInt_put, put_unlimited,
    List.nil_append]

theorem tableIndices_mem {n : Int} (hlo : -2 ^ 63 < n) (hhi : n < 2 ^ 63) {i : Int}
    (hi : i ∈ tableIndices n 10) : 0 ≤ i ∧ i < 16 := by
  have hmag : tableIndices n 10 = intIndices 10 64 (n.natAbs : Int) := by
    unfold tableIndices
    split
    · rw [toInt64_of_mem (by omega) (by omega)]
      congr 1
      omega
    · congr 1
      omega
  rw [hmag, intIndices_eq (by omega), List.mem_map] at hi
  obtain ⟨d, hd, rfl⟩ := hi
  have hlt : d < 10 := Nat.digits_lt_base (by decide) hd
  show (0 : Int) ≤ d ∧ (d : Int) < 16
  omega

/-- Printing the least 64-bit integer reads in front of the table. -/
theorem tableIndices_least : -8 ∈ tableIndices (-2 ^ 63) 10 := by decide +kernel

/-- For every 64-bit number: `%ld` reads its digit table and its local buffer
only inside of them, and `atol` reads the number back from the text, if and
only if the number is not the least one. -/
theorem printInt_atol_iff (n : Int) (hlo : -2 ^ 63 ≤ n) (hhi : n < 2 ^ 63) :
    ((∀ i ∈ tableIndices n 10, 0 ≤ i ∧ i < 16) ∧
      ∀ outside : Int → UInt8,
        (∀ buf : List UInt8, buf.length = 26 → (printIntBuffer outside buf n 10).isSome = true) ∧
        ∃ fuel text, output outside fuel (ascii "%ld") [.word (slot n)] = some text ∧
          atol (terminated text) 0 = some n) ↔
      n ≠ -2 ^ 63 := by
  constructor
  · intro h hleast
    have hindex := h.1 (-8) (by rw [hleast]; exact tableIndices_least)
    omega
  · intro hne
    have hlo' : -2 ^ 63 < n := by omega
    refine ⟨fun i hi => tableIndices_mem hlo' hhi hi, fun outside => ⟨fun buf hbuf => ?_, ?_⟩⟩
    · obtain ⟨rest, hrest⟩ := printIntBuffer_eq outside hbuf hlo hhi
      rw [hrest]
      rfl
    · have hlen := signedNumeral_length hlo hhi
      refine ⟨6, _, output_ld outside hlo hhi, ?_⟩
      rw [intBuffer_reverse outside hlo' hhi, cString_of_no_nul (signedNumeral_no_nul n),
        strText_plain (by omega)]
      have hatol := atol_eq (s := signedNumeral n) (Nat.zero_le _)
      rw [List.drop_zero, atolText_signedNumeral hlo' hhi] at hatol
      exact hatol

/-- A negative number and its way back. -/
theorem printInt_atol_minusFortyTwo :
    ∃ fuel text, output (fun _ => 0) fuel (ascii "%ld") [.word (slot (-42))] = some text ∧
      atol (terminated text) 0 = some (-42) :=
  (((printInt_atol_iff (-42) (by decide) (by decide)).2 (by decide)).2 fun _ => 0).2

/-- The least 64-bit integer: the table is read at -8, and with zero bytes
in front of it only the sign is printed. -/
theorem printInt_leaves_table_least :
    (-8 ∈ tableIndices (-2 ^ 63) 10 ∧ ¬ (0 : Int) ≤ -8) ∧
      output (fun _ => 0) 6 (ascii "%ld") [.word (slot (-2 ^ 63))] = some (ascii "-") ∧
      atol (terminated (ascii "-")) 0 = some 0 := by
  refine ⟨⟨tableIndices_least, by decide⟩, ?_, ?_⟩
  · decide +kernel
  · decide +kernel

end HyperBench.Printf
