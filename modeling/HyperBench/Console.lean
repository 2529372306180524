import HyperBench.Lib.Ascii
import HyperBench.Lib.Loop

/-!
# `x86_64/console.c`

The text screen at 0xb8000: 25 rows of 80 cells.

* `newLine` and `consolePutc` work on the cells as the source does.  A null
  pointer of `slot_from_xy` that is read or written leaves them without an
  answer.
* `Page` is the screen without an end that the console stands for.  Nothing
  is ever scrolled there.
* `Shows` says that the cells are the last 25 rows of a page.
  `consolePutc_shows` is the step, and `console_refines_page` is the run of
  any number of calls.

The port writes that switch the cursor off and the lock around a call do not
touch the cells and are left out.
-/

namespace HyperBench.Console

open Ascii Loop

def ROWS : Nat := 25

def COLUMNS : Nat := 80

structure Screen where
  /-- The cells from 0xb8000 on. -/
  vga : Nat → UInt16
  curX : Nat
  curY : Nat
  /-- `console_cleared` -/
  cleared : Bool

/-! ## The code -/

/-- The index of a cell, or the null pointer. -/
def slotFromXy (x y : Nat) : Option Nat :=
  if COLUMNS ≤ x then none else if ROWS ≤ y then none else some (x + y * COLUMNS)

/-- `*slot`. -/
def readSlot (vga : Nat → UInt16) (slot : Option Nat) : Option UInt16 := slot.map vga

/-- `*slot = v`. -/
def writeSlot (vga : Nat → UInt16) (slot : Option Nat) (v : UInt16) : Option (Nat → UInt16) :=
  slot.map fun i => Function.update vga i v

def consoleClear (s : Screen) : Screen :=
  { s with
    vga := forUpTo (fun i vga => Function.update vga i 0) (ROWS * COLUMNS) s.vga
    curX := 0
    curY := 0 }

/-- The inner loop of the scroll: row `y + 1` goes to row `y`. -/
def copyRow (y : Nat) (vga : Nat → UInt16) : Option (Nat → UInt16) :=
  forUpToM (fun x vga => do
    let v ← readSlot vga (slotFromXy x (y + 1))
    writeSlot vga (slotFromXy x y) v) COLUMNS vga

/-- The loops of `new_line`. -/
def scroll (vga : Nat → UInt16) : Option (Nat → UInt16) := do
  let vga ← forUpToM copyRow (ROWS - 1) vga
  forUpToM (fun x vga => writeSlot vga (slotFromXy x (ROWS - 1)) 0) COLUMNS vga

def newLine (s : Screen) : Option Screen :=
  let s := { s with curX := 0, curY := s.curY + 1 }
  if ROWS ≤ s.curY then do
    let vga ← scroll s.vga
    return { s with vga := vga, curY := ROWS - 1 }
  else some s

/-- `0x0700 | ch` in a cell.  A `char` is signed. -/
def cell (ch : UInt8) : UInt16 := 0x0700 ||| ch.toInt8.toInt16.toUInt16

def consolePutc (s : Screen) (ch : UInt8) : Option Screen :=
  if ch = chr '\n' then newLine s
  else if ch = chr '\r' then some { s with curX := 0 }
  else do
    let vga ← writeSlot s.vga (slotFromXy s.curX s.curY) (cell ch)
    let s := { s with vga := vga, curX := s.curX + 1 }
    if COLUMNS ≤ s.curX then newLine s else some s

/-- `if (!console_cleared)`. -/
def prepare (s : Screen) : Screen :=
  if s.cleared then s else { consoleClear s with cleared := true }

def consolePuts (s : Screen) (buf : List UInt8) : Option Screen :=
  buf.foldlM consolePutc (prepare s)

/-- The state behind some calls and `k` characters of a further one. -/
def afterChars (s : Screen) (calls : List (List UInt8)) (buf : List UInt8) (k : Nat) :
    Option Screen := do
  let s ← calls.foldlM consolePuts s
  (buf.take k).foldlM consolePutc (prepare s)

/-! ## The page -/

/-- A page of 80 columns without an end, and the place of the next
character. -/
structure Page where
  cells : Nat → Nat → UInt16
  row : Nat
  column : Nat

def Page.blank : Page := ⟨fun _ _ => 0, 0, 0⟩

def Page.newRow (p : Page) : Page := { p with row := p.row + 1, column := 0 }

/-- The page with one cell overwritten. -/
def Page.write (p : Page) (v : UInt16) : Page :=
  { p with cells := fun r c => if r = p.row ∧ c = p.column then v else p.cells r c }

def Page.put (p : Page) (ch : UInt8) : Page :=
  if ch = chr '\n' then p.newRow
  else if ch = chr '\r' then { p with column := 0 }
  else
    let p := p.write (0x0700 ||| ch.toUInt16)
    if p.column = 79 then p.newRow else { p with column := p.column + 1 }

/-- The page behind a text. -/
def page (text : List UInt8) : Page := text.foldl Page.put Page.blank

/-- Row `y` of the last 25 rows. -/
def Page.lastRow (p : Page) (y x : Nat) : UInt16 := p.cells (p.row - 24 + y) x

/-- The screen shows the last rows of the page, with the cursor in its row. -/
structure Window (s : Screen) (p : Page) : Prop where
  cleared : s.cleared = true
  row : s.curY = min p.row 24
  cells : ∀ x y, x < 80 → y < 25 → s.vga (x + y * 80) = p.lastRow y x
  below : ∀ r x, p.row < r → p.cells r x = 0

structure Shows (s : Screen) (p : Page) : Prop extends Window s p where
  column : s.curX = p.column
  column_lt : p.column < 80

/-! ## Cells -/

theorem slotFromXy_eq {x y : Nat} (hx : x < 80) (hy : y < 25) :
    slotFromXy x y = some (x + y * 80) := by
  unfold slotFromXy COLUMNS ROWS
  rw [if_neg (Nat.not_le.2 hx), if_neg (Nat.not_le.2 hy)]

theorem writeSlot_eq {x y : Nat} (hx : x < 80) (hy : y < 25) (vga : Nat → UInt16) (v : UInt16) :
    writeSlot vga (slotFromXy x y) v = some (Function.update vga (x + y * 80) v) := by
  rw [slotFromXy_eq hx hy]
  rfl

theorem update_cell (vga : Nat → UInt16) (v : UInt16) {x y x' y' : Nat} (hx : x < 80)
    (hx' : x' < 80) :
    Function.update vga (x + y * 80) v (x' + y' * 80)
      = if y' = y ∧ x' = x then v else vga (x' + y' * 80) := by
  rw [Function.update_apply]
  refine if_congr ?_ rfl rfl
  omega

theorem consoleClear_cell (s : Screen) {i : Nat} (hi : i < 2000) : (consoleClear s).vga i = 0 := by
  have hloop : ∀ j, j < 2000 →
      forUpTo (fun i vga => Function.update vga i 0) 2000 s.vga j = (0 : UInt16) := by
    refine forUpTo_rule (fun n (vga : Nat → UInt16) => ∀ j, j < n → vga j = 0)
      (fun j hj => absurd hj (Nat.not_lt_zero j)) ?_
    intro n vga _ hvga j hj
    rw [Function.update_apply]
    split
    · rfl
    · exact hvga j (by omega)
  exact hloop i hi

/-- One row is copied over the row above it. -/
theorem copyRow_eq {y : Nat} (hy : y < 24) (vga : Nat → UInt16) :
    ∃ vga', copyRow y vga = some vga' ∧ ∀ x' y', x' < 80 →
      vga' (x' + y' * 80) = if y' = y then vga (x' + (y + 1) * 80) else vga (x' + y' * 80) := by
  have hloop : ∃ vga', copyRow y vga = some vga' ∧ ∀ x' y', x' < 80 → vga' (x' + y' * 80)
      = if y' = y ∧ x' < 80 then vga (x' + (y + 1) * 80) else vga (x' + y' * 80) := by
    refine forUpToM_rule (fun x (vga' : Nat → UInt16) => ∀ x' y', x' < 80 → vga' (x' + y' * 80)
      = if y' = y ∧ x' < x then vga (x' + (y + 1) * 80) else vga (x' + y' * 80)) ?_ ?_
    · intro x' y' _
      rw [if_neg fun h => Nat.not_lt_zero x' h.2]
    · intro x vga' hx hvga'
      replace hx : x < 80 := hx
      -- the cell below has not been written yet
      have hbelow : vga' (x + (y + 1) * 80) = vga (x + (y + 1) * 80) := by
        rw [hvga' x (y + 1) hx, if_neg fun h => Nat.succ_ne_self y h.1]
      refine ⟨Function.update vga' (x + y * 80) (vga' (x + (y + 1) * 80)), ?_, fun x' y' hx' => ?_⟩
      · rw [slotFromXy_eq hx (by omega), slotFromXy_eq hx (by omega)]
        rfl
      · rw [update_cell _ _ hx hx', hvga' x' y' hx', hbelow]
        by_cases hsame : y' = y ∧ x' = x
        · rw [if_pos hsame, if_pos ⟨hsame.1, by omega⟩, hsame.2]
        · rw [if_neg hsame]
          refine if_congr ?_ rfl rfl
          omega
  obtain ⟨vga', hrun, hcells⟩ := hloop
  refine ⟨vga', hrun, fun x' y' hx' => ?_⟩
  rw [hcells x' y' hx']
  exact if_congr (and_iff_left hx') rfl rfl

/-- The rows up to the last one are copied. -/
theorem copyRows_eq (vga : Nat → UInt16) :
    ∃ vga', forUpToM copyRow (ROWS - 1) vga = some vga' ∧ ∀ x y, x < 80 →
      vga' (x + y * 80) = if y < 24 then vga (x + (y + 1) * 80) else vga (x + y * 80) := by
  refine forUpToM_rule (fun n (vga' : Nat → UInt16) => ∀ x y, x < 80 → vga' (x + y * 80)
    = if y < n then vga (x + (y + 1) * 80) else vga (x + y * 80)) ?_ ?_
  · intro x y _
    rw [if_neg (Nat.not_lt_zero y)]
  · intro n vga' hn hvga'
    obtain ⟨vga'', hrun, hcopy⟩ := copyRow_eq hn vga'
    refine ⟨vga'', hrun, fun x y hx => ?_⟩
    have hbelow : vga' (x + (n + 1) * 80) = vga (x + (n + 1) * 80) := by
      rw [hvga' x (n + 1) hx, if_neg (by omega)]
    rw [hcopy x y hx, hbelow, hvga' x y hx]
    by_cases hy : y = n
    · rw [if_pos hy, if_pos (by omega), hy]
    · rw [if_neg hy]
      refine if_congr ?_ rfl rfl
      omega

/-- The last row becomes empty. -/
theorem clearRow_eq (vga : Nat → UInt16) :
    ∃ vga', forUpToM (fun x vga => writeSlot vga (slotFromXy x (ROWS - 1)) 0) COLUMNS vga
        = some vga' ∧
      ∀ x y, x < 80 → vga' (x + y * 80) = if y = 24 ∧ x < 80 then 0 else vga (x + y * 80) := by
  refine forUpToM_rule (fun n (vga' : Nat → UInt16) => ∀ x y, x < 80 → vga' (x + y * 80)
    = if y = 24 ∧ x < n then 0 else vga (x + y * 80)) ?_ ?_
  · intro x y _
    rw [if_neg fun h => Nat.not_lt_zero x h.2]
  · intro n vga' hn hvga'
    have hwrite : writeSlot vga' (slotFromXy n (ROWS - 1)) 0
        = some (Function.update vga' (n + 24 * 80) 0) := writeSlot_eq hn (by decide) vga' 0
    refine ⟨_, hwrite, fun x y hx => ?_⟩
    rw [update_cell _ _ hn hx, hvga' x y hx]
    by_cases hsame : y = 24 ∧ x = n
    · rw [if_pos hsame, if_pos ⟨hsame.1, by omega⟩]
    · rw [if_neg hsame]
      refine if_congr ?_ rfl rfl
      omega

/-- The rows move up by one. -/
theorem scroll_eq (vga : Nat → UInt16) :
    ∃ vga', scroll vga = some vga' ∧ ∀ x y, x < 80 → y < 25 →
      vga' (x + y * 80) = if y < 24 then vga (x + (y + 1) * 80) else 0 := by
  obtain ⟨vga₁, hrun₁, hcells₁⟩ := copyRows_eq vga
  obtain ⟨vga₂, hrun₂, hcells₂⟩ := clearRow_eq vga₁
  refine ⟨vga₂, ?_, fun x y hx hy => ?_⟩
  · rw [scroll, hrun₁]
    exact hrun₂
  · rw [hcells₂ x y hx, hcells₁ x y hx]
    by_cases hlast : y < 24
    · rw [if_neg (by omega), if_pos hlast, if_pos hlast]
    · rw [if_pos (by omega), if_neg hlast]

/-! ## One character -/

theorem newLine_shows {s : Screen} {p : Page} (h : Window s p) :
    ∃ s', newLine s = some s' ∧ Shows s' p.newRow := by
  have hrow := h.row
  have hbelow : ∀ r x, p.row + 1 < r → p.cells r x = 0 := fun r x hr => h.below r x (by omega)
  unfold newLine ROWS
  by_cases hscroll : 25 ≤ s.curY + 1
  · obtain ⟨vga', hrun, hcells⟩ := scroll_eq s.vga
    refine ⟨{ s with vga := vga', curX := 0, curY := 24 }, ?_, ⟨h.cleared, ?_, ?_, hbelow⟩, rfl, ?_⟩
    · show (if 25 ≤ s.curY + 1 then _ else _) = _
      rw [if_pos hscroll, hrun]
      rfl
    · show 24 = min (p.row + 1) 24
      omega
    · intro x y hx hy
      show vga' (x + y * 80) = p.cells (p.row + 1 - 24 + y) x
      rw [hcells x y hx hy]
      by_cases hy' : y < 24
      · rw [if_pos hy', h.cells x (y + 1) hx (by omega), Page.lastRow]
        congr 1
        omega
      · rw [if_neg hy', h.below _ x (by omega)]
    · exact (by decide : 0 < 80)
  · refine ⟨{ s with curX := 0, curY := s.curY + 1 }, ?_, ⟨h.cleared, ?_, ?_, hbelow⟩, rfl, ?_⟩
    · show (if 25 ≤ s.curY + 1 then _ else _) = _
      rw [if_neg hscroll]
    · show s.curY + 1 = min (p.row + 1) 24
      omega
    · intro x y hx hy
      show s.vga (x + y * 80) = p.cells (p.row + 1 - 24 + y) x
      rw [h.cells x y hx hy, Page.lastRow]
      congr 1
      omega
    · exact (by decide : 0 < 80)

/-- A 7-bit character is not changed by its sign. -/
theorem cell_eq {ch : UInt8} (h : ch < 128) : cell ch = 0x0700 ||| ch.toUInt16 := by
  have htable : ∀ n, n < 128 → cell (UInt8.ofNat n) = 0x0700 ||| (UInt8.ofNat n).toUInt16 := by
    decide
  have hch := htable ch.toNat (UInt8.lt_iff_toNat_lt.1 h)
  rwa [UInt8.ofNat_toNat] at hch

/-- Writing the cell under the cursor. -/
theorem Shows.write {s : Screen} {p : Page} (h : Shows s p) (v : UInt16) :
    ∃ vga', writeSlot s.vga (slotFromXy s.curX s.curY) v = some vga' ∧
      ∀ x, Window { s with vga := vga', curX := x } (p.write v) := by
  have hrow := h.row
  have hcol := h.column
  have hlt := h.column_lt
  refine ⟨_, writeSlot_eq (by omega) (by omega) s.vga v, fun x => ⟨h.cleared, h.row, ?_, ?_⟩⟩
  · intro x y hx hy
    show Function.update s.vga (s.curX + s.curY * 80) v (x + y * 80)
      = if p.row - 24 + y = p.row ∧ x = p.column then v else p.cells (p.row - 24 + y) x
    rw [update_cell _ _ (by omega) hx, h.cells x y hx hy]
    refine if_congr ?_ rfl rfl
    omega
  · intro r x hr
    show (if r = p.row ∧ x = p.column then v else p.cells r x) = 0
    replace hr : p.row < r := hr
    rw [if_neg (by omega), h.below r x hr]

/-- One character on the screen and on the page. -/
theorem consolePutc_shows {s : Screen} {p : Page} (h : Shows s p) {ch : UInt8} (hch : ch < 128) :
    ∃ s', consolePutc s ch = some s' ∧ Shows s' (p.put ch) := by
  unfold consolePutc Page.put
  by_cases hline : ch = chr '\n'
  · rw [if_pos hline, if_pos hline]
    exact newLine_shows h.toWindow
  rw [if_neg hline, if_neg hline]
  by_cases hreturn : ch = chr '\r'
  · rw [if_pos hreturn, if_pos hreturn]
    exact ⟨_, rfl, ⟨h.cleared, h.row, h.cells, h.below⟩, rfl, (by decide : 0 < 80)⟩
  rw [if_neg hreturn, if_neg hreturn, cell_eq hch]
  obtain ⟨vga', hwrite, hwindow⟩ := h.write (0x0700 ||| ch.toUInt16)
  have hcol := h.column
  have hlt := h.column_lt
  rw [hwrite]
  show ∃ s', (if 80 ≤ s.curX + 1 then newLine { s with vga := vga', curX := s.curX + 1 }
    else some { s with vga := vga', curX := s.curX + 1 }) = some s' ∧ _
  by_cases hwrap : p.column = 79
  · rw [if_pos (by omega)]
    obtain ⟨s', hs', hshows⟩ := newLine_shows (hwindow (s.curX + 1))
    refine ⟨s', hs', ?_⟩
    show Shows s' (if p.column = 79 then _ else _)
    rw [if_pos hwrap]
    exact hshows
  · rw [if_neg (by omega)]
    refine ⟨_, rfl, ?_⟩
    show Shows _ (if p.column = 79 then _ else _)
    rw [if_neg hwrap]
    have hw := hwindow (s.curX + 1)
    exact ⟨⟨hw.cleared, hw.row, hw.cells, hw.below⟩, by show s.curX + 1 = p.column + 1; omega,
      by show p.column + 1 < 80; omega⟩

/-! ## Calls -/

/-- The screen in front of a call, when `text` is what was written. -/
def Ready (s : Screen) (text : List UInt8) : Prop :=
  s.cleared = false ∧ text = [] ∨ Shows s (page text)

theorem Ready.prepare {s : Screen} {text : List UInt8} (h : Ready s text) :
    Shows (prepare s) (page text) := by
  unfold Console.prepare
  rcases h with ⟨hcleared, rfl⟩ | h
  · rw [hcleared]
    refine ⟨⟨rfl, rfl, fun x y hx hy => ?_, fun _ _ _ => rfl⟩, rfl, by decide⟩
    exact consoleClear_cell s (by omega)
  · rw [h.cleared]
    exact h

theorem page_append (text text' : List UInt8) :
    page (text ++ text') = text'.foldl Page.put (page text) :=
  List.foldl_append

theorem putc_run {s : Screen} {text buf : List UInt8} (h : Shows s (page text))
    (hbuf : ∀ c ∈ buf, c < 128) :
    ∃ s', buf.foldlM consolePutc s = some s' ∧ Shows s' (page (text ++ buf)) := by
  rw [page_append]
  exact foldlM_simulates (f := consolePutc) (g := Page.put) Shows
    (fun _ _ c hc h => consolePutc_shows h (hbuf c hc)) h

theorem puts_run {s : Screen} {text : List UInt8} (h : Ready s text) {calls : List (List UInt8)}
    (hcalls : ∀ c ∈ calls.flatten, c < 128) :
    ∃ s', calls.foldlM consolePuts s = some s' ∧ Ready s' (text ++ calls.flatten) := by
  have hfold : calls.foldl (fun text buf => text ++ id buf) text = text ++ (calls.map id).flatten :=
    List.foldl_append_eq_append
  rw [List.map_id] at hfold
  rw [← hfold]
  refine foldlM_simulates Ready (fun s t buf hbuf h => ?_) h
  obtain ⟨s', hs', hshows⟩ := putc_run h.prepare
    fun c hc => hcalls c (List.mem_flatten.2 ⟨buf, hbuf, hc⟩)
  exact ⟨s', hs', .inr hshows⟩

theorem afterChars_ready {s : Screen} (hs : s.cleared = false) {calls : List (List UInt8)}
    {buf : List UInt8} (k : Nat) (hascii : ∀ c ∈ calls.flatten ++ buf, c < 128) :
    ∃ s', afterChars s calls buf k = some s' ∧ Shows s' (page (calls.flatten ++ buf.take k)) := by
  obtain ⟨mid, hmid, hready⟩ := puts_run (.inl ⟨hs, rfl⟩)
    fun c hc => hascii c (List.mem_append_left _ hc)
  have hbuf : ∀ c ∈ buf.take k, c < 128 := fun c hc =>
    hascii c (List.mem_append_right _ (List.mem_of_mem_take hc))
  obtain ⟨s', hs', hshows⟩ := putc_run hready.prepare hbuf
  refine ⟨s', ?_, hshows⟩
  rw [afterChars, hmid]
  exact hs'

/-- For every sequence of calls on 7-bit texts, in front of which the screen
may hold anything: behind every character the cursor is inside of the screen,
and the cells are the last 25 rows of the page with the same text.  They do not
depend on how the text is cut into calls. -/
theorem console_refines_page (s : Screen) (hs : s.cleared = false) (calls : List (List UInt8))
    (buf : List UInt8) (k : Nat) (hascii : ∀ c ∈ calls.flatten ++ buf, c < 128) :
    ∃ s', afterChars s calls buf k = some s' ∧ s'.curX < COLUMNS ∧ s'.curY < ROWS ∧
      (∀ x y, x < COLUMNS → y < ROWS →
        s'.vga (x + y * COLUMNS) = (page (calls.flatten ++ buf.take k)).lastRow y x) ∧
      ∀ calls', calls' ≠ [] → calls'.flatten = calls.flatten ++ buf.take k →
        ∃ s'', calls'.foldlM consolePuts s = some s'' ∧
          ∀ x y, x < COLUMNS → y < ROWS → s''.vga (x + y * COLUMNS) = s'.vga (x + y * COLUMNS) := by
  obtain ⟨s', hs', hshows⟩ := afterChars_ready hs k hascii
  have hcol := hshows.column
  have hlt := hshows.column_lt
  have hrow := hshows.row
  refine ⟨s', hs', by show s'.curX < 80; omega, by show s'.curY < 25; omega, hshows.cells, ?_⟩
  intro calls' hne hflatten
  have hascii' : ∀ c ∈ calls'.flatten, c < 128 := by
    intro c hc
    rw [hflatten, List.mem_append] at hc
    rcases hc with hc | hc
    · exact hascii c (List.mem_append_left _ hc)
    · exact hascii c (List.mem_append_right _ (List.mem_of_mem_take hc))
  -- the last call leaves the screen cleared, even when it writes nothing
  obtain ⟨init, last, rfl⟩ : ∃ init last, calls' = init ++ [last] :=
    ⟨_, _, (List.dropLast_concat_getLast hne).symm⟩
  rw [List.flatten_append, List.flatten_singleton] at hflatten hascii'
  obtain ⟨s'', hs'', hshows'⟩ := afterChars_ready hs last.length hascii'
  rw [List.take_length, hflatten] at hshows'
  refine ⟨s'', ?_, fun x y hx hy => (hshows'.cells x y hx hy).trans (hshows.cells x y hx hy).symm⟩
  rw [← hs'', afterChars, List.take_length, List.foldlM_append]
  simp only [List.foldlM_cons, List.foldlM_nil, bind_pure]
  rfl

/-- A line that is overwritten from its start, cut in two ways. -/
theorem console_refines_rewritten :
    ∃ s', afterChars ⟨fun _ => 7, 0, 0, false⟩ [ascii "ab\r"] (ascii "c\nd") 3 = some s' ∧
      s'.vga 0 = 0x0763 ∧ s'.vga 1 = 0x0762 ∧ s'.vga 80 = 0x0764 ∧ s'.vga 81 = 0 := by
  obtain ⟨s', hs', -, -, hcells, -⟩ := console_refines_page ⟨fun _ => 7, 0, 0, false⟩ rfl
    [ascii "ab\r"] (ascii "c\nd") 3 (by decide +kernel)
  have hpage : (page (ascii "ab\rc\nd")).lastRow 0 0 = 0x0763 ∧
      (page (ascii "ab\rc\nd")).lastRow 0 1 = 0x0762 ∧
      (page (ascii "ab\rc\nd")).lastRow 1 0 = 0x0764 ∧
      (page (ascii "ab\rc\nd")).lastRow 1 1 = 0 := by decide
  have htext : [ascii "ab\r"].flatten ++ (ascii "c\nd").take 3 = ascii "ab\rc\nd" := by decide
  rw [htext] at hcells
  refine ⟨s', hs', ?_, ?_, ?_, ?_⟩
  · exact (hcells 0 0 (by decide) (by decide)).trans hpage.1
  · exact (hcells 1 0 (by decide) (by decide)).trans hpage.2.1
  · exact (hcells 0 1 (by decide) (by decide)).trans hpage.2.2.1
  · exact (hcells 1 1 (by decide) (by decide)).trans hpage.2.2.2

end HyperBench.Console
