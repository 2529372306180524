import HyperBench.AddressSpace
import HyperBench.LongMode
import HyperBench.Lib.Transition

/-!
# One processor starts among others

The runs of a processor from its start-up interrupt on.  An action is one of its
own instructions, or anything that the others may do to memory.

* `OnWay` is the invariant: the instructions taken and those to come are 30, and
  memory is as the processor relies on.
* `start_enters_long_mode` says that no instruction on the way faults and where
  the last one leads.  To the others each of the instructions is such a move as
  they are allowed, as long as stacks are left, so that the statement holds of all
  of them at once.
-/

namespace HyperBench.LongMode

open ByteMem Function Modes Transition

/-! ## The start of one processor among others -/

/-- A processor on its way, memory, and the stack that it has taken. -/
structure State where
  core : Core
  mem : Mem
  stack : Option Nat

inductive Action where
  | own (i : Instr)
  | others

def Action.isOwn : Action → Bool
  | .own _ => true
  | .others => false

/-- What the other processors may do: they write neither the bytes that the code
reads nor the stack that is taken, and as long as none is taken they leave
one.  The accessed flags that they set in the page tables are not part of memory
here. -/
structure Others (L : Symbols) (stack : Option Nat) (m m' : Mem) : Prop where
  fixed : ∀ x, L.Fixed x → m' x = m x
  kept : ∀ top, stack = some top → ∀ x, top - 4096 ≤ x → x < top → m' x = m x
  left : stack = none → IsStack (load m' L.smpStacktop 4)

/-- The `xadd` leaves the stack in `esp`. -/
def stackAfter (i : Instr) (c : Core) (stack : Option Nat) : Option Nat :=
  if isLocked i then some (c.reg .esp) else stack

inductive Step (P : Processor) (L : Symbols) : State → Action → State → Prop where
  | own {s : State} {i : Instr} {c' : Core} {m' : Mem}
      (hexec : P.exec s.core s.mem = some (i, c', m')) :
      Step P L s (.own i) ⟨c', m', stackAfter i c' s.stack⟩
  | others {s : State} {m' : Mem} (hothers : Others L s.stack s.mem m') :
      Step P L s .others { s with mem := m' }

/-- The processor `c₀` starts, with a stack left for it. -/
def startUp (P : Processor) (L : Symbols) (c₀ : Core) : System State Action where
  Init s := s.core = c₀ ∧ s.stack = none ∧ Rely L .none s.mem
  Step := Step P L

/-- The number of its own instructions. -/
def instructions (as : List Action) : Nat := as.countP Action.isOwn

theorem instructions_own (as : List Action) (i : Instr) :
    instructions (as ++ [.own i]) = instructions as + 1 := by
  rw [instructions, List.countP_append]
  rfl

theorem instructions_others (as : List Action) :
    instructions (as ++ [.others]) = instructions as := by
  rw [instructions, List.countP_append]
  rfl

def Own.top : Own → Option Nat
  | .none => Option.none
  | .stack top => some top
  | .call top _ => some top

section Runs

variable {program : CodeSize → Nat → Option (Instr × Nat)} {L : Layout} {c₀ : Core}
  {i : Instr} {c : Core} {m m' : Mem} {w w' : Own}

theorem Rely.others (h : Rely L.toSymbols w m) (hothers : Others L.toSymbols w.top m m') :
    Rely L.toSymbols w m' := by
  refine ⟨h.1.frame hothers.fixed, ?_⟩
  cases w with
  | none => exact hothers.left rfl
  | stack top => exact h.2
  | call top ret =>
    obtain ⟨htop, hret⟩ := h.2
    refine ⟨htop, hret ▸ load_congr fun x hx hx' => hothers.kept top rfl x ?_ ?_⟩
    · omega
    · unfold IsStack at htop
      omega

theorem Guar.top (h : Guar L.toSymbols i w m c w' m') : w'.top = stackAfter i c w.top := by
  cases h with
  | quiet hi => rw [stackAfter, hi]; rfl
  | take hesp => exact congrArg some hesp.symm
  | push => rfl

/-- To a processor with another stack, an instruction is a move of the others. -/
theorem Guar.others (h : Guar L.toSymbols i w m c w' m') (hm : Rely L.toSymbols w m)
    {stack : Option Nat}
    (hstack : ∀ top, stack = some top → IsStack top ∧
      ∀ top', w.top = some top' → top ≤ top' - 4096 ∨ top' ≤ top - 4096)
    (hleft : stack = none → IsStack (load m' L.smpStacktop 4)) :
    Others L.toSymbols stack m m' := by
  cases h with
  | quiet => exact ⟨fun _ _ => rfl, fun _ _ _ _ _ => rfl, hleft⟩
  | take =>
    refine ⟨fun x hx => store_apply_of_outside (L.fixed x hx).2.1,
      fun top htop x _ hx => store_apply_of_outside ?_, hleft⟩
    have hlow := (hstack top htop).1.2
    have hhigh := L.smpStacktop_ge
    omega
  | @push a top' ret =>
    have htop' : IsStack top' := hm.2
    unfold IsStack at htop'
    refine ⟨fun x hx => store_apply_of_outside ?_,
      fun top htop x hx hx' => store_apply_of_outside ?_, hleft⟩
    · have hfixed := (L.fixed x hx).1
      omega
    · have hapart := (hstack top htop).2 top' rfl
      omega

/-- Where the processor is after `as`. -/
def OnWay (P : Processor) (L : Symbols) (c₀ : Core) (as : List Action) (s : State) : Prop :=
  ∃ n w, instructions as + n = 30 ∧ Safe P L c₀ n w s.core ∧ Rely L w s.mem ∧ w.top = s.stack

theorem Entered.exec_eq_none {top : Nat} (h : Entered L.toSymbols c₀ c top) :
    (processor program).exec c m = none :=
  if_pos h.size

theorem OnWay.step {as : List Action} {s t : State} {a : Action}
    (h : OnWay (processor program) L.toSymbols c₀ as s)
    (hstep : Step (processor program) L.toSymbols s a t) :
    OnWay (processor program) L.toSymbols c₀ (as ++ [a]) t := by
  obtain ⟨n, w, hn, hsafe, hm, htop⟩ := h
  cases hstep with
  | others hothers =>
    exact ⟨n, w, by rw [instructions_others, hn], hsafe, hm.others (htop ▸ hothers), htop⟩
  | own hexec =>
    cases n with
    | zero =>
      -- The processor has arrived, and its code there is not modelled.
      obtain ⟨top, _, _, hentered⟩ := hsafe
      rw [hentered.exec_eq_none] at hexec
      exact nomatch hexec
    | succ n =>
      obtain ⟨i', c', m', w', hexec', hguar, hsafe'⟩ := hsafe s.mem hm
      cases hexec.symm.trans hexec'
      refine ⟨n, w', ?_, hsafe', hm.guar hguar, ?_⟩
      · rw [instructions_own]
        omega
      · rw [← htop]
        exact hguar.top

theorem onWay_run (hload : Loaded program L.toSymbols) (hc : AfterSipi c₀) {as : List Action}
    {s : State} (hrun : Run (startUp (processor program) L.toSymbols c₀) as s) :
    OnWay (processor program) L.toSymbols c₀ as s := by
  refine hrun.invariant (OnWay (processor program) L.toSymbols c₀) ?_ fun _ _ _ _ h hstep =>
    h.step hstep
  rintro s ⟨rfl, hstack, hm⟩
  exact ⟨30, .none, rfl, safe_start hload hc, hm, hstack.symm⟩

/-- A processor that gets the start-up interrupt comes to `ap_start64` in 64-bit
mode with 30 instructions, whatever the others do in between.  It takes one
stack, none of its instructions faults, and each of them is a move of the
others to a processor whose stack is another one. -/
theorem start_enters_long_mode (hload : Loaded program L.toSymbols) (hc : AfterSipi c₀)
    {as : List Action} {s : State}
    (hrun : Run (startUp (processor program) L.toSymbols c₀) as s) :
    (instructions as < 30 → ∃ i c' m', (processor program).exec s.core s.mem = some (i, c', m') ∧
      ∀ stack, (∀ top, stack = some top → IsStack top ∧
          ∀ top', s.stack = some top' → top ≤ top' - 4096 ∨ top' ≤ top - 4096) →
        (stack = none → IsStack (load m' L.smpStacktop 4)) →
        Others L.toSymbols stack s.mem m') ∧
    (30 ≤ instructions as → instructions as = 30 ∧
      ∃ top, s.stack = some top ∧ IsStack top ∧ Entered L.toSymbols c₀ s.core top) := by
  obtain ⟨n, w, hn, hsafe, hm, htop⟩ := onWay_run hload hc hrun
  refine ⟨fun hlt => ?_, fun hle => ⟨by omega, ?_⟩⟩
  · obtain ⟨n, rfl⟩ : ∃ k, n = k + 1 := ⟨n - 1, by omega⟩
    obtain ⟨i, c', m', w', hexec, hguar, -⟩ := hsafe s.mem hm
    refine ⟨i, c', m', hexec, fun stack hstack hleft => hguar.others hm ?_ hleft⟩
    rw [htop]
    exact hstack
  · obtain rfl : n = 0 := by omega
    obtain ⟨top, ret, rfl, hentered⟩ := hsafe
    exact ⟨top, htop.symm, hm.2.1, hentered⟩

/-- The processor can always go on. -/
theorem exists_run (hload : Loaded program L.toSymbols) (hc : AfterSipi c₀)
    (hm : Rely L.toSymbols .none m) {k : Nat} (hk : k ≤ 30) :
    ∃ as s, Run (startUp (processor program) L.toSymbols c₀) as s ∧ instructions as = k := by
  induction k with
  | zero => exact ⟨[], ⟨c₀, m, none⟩, .init ⟨rfl, rfl, hm⟩, rfl⟩
  | succ k ih =>
    obtain ⟨as, s, hrun, hcount⟩ := ih (by omega)
    obtain ⟨n, w, hn, hsafe, hrely, -⟩ := onWay_run hload hc hrun
    obtain ⟨n, rfl⟩ : ∃ l, n = l + 1 := ⟨n - 1, by omega⟩
    obtain ⟨i, c', m', w', hexec, -⟩ := hsafe s.mem hrely
    exact ⟨_, _, hrun.step (Step.own hexec), by rw [instructions_own, hcount]⟩

end Runs

/-! ### An image -/

/-- The symbols of an image at 4 MB. -/
def imageSymbols : Symbols where
  descr := 0x20
  gdt32 := 0x401000
  gdt64Desc := 0x401100
  gdt64 := 0x401200
  ptRoot := 0x401300
  ptl2 := 0x408000
  smpStacktop := 0x401400
  prepare64 := 0x401500
  apStart32 := 0x401600
  apStart64 := 0x401700

def imageLayout : Layout where
  toSymbols := imageSymbols
  descr_le := by decide
  fixed := by
    intro x hx
    simp only [Symbols.Fixed, InRange, BootPage, imageSymbols] at hx ⊢
    omega
  smpStacktop_ge := by decide
  smpStacktop_le := by decide

/-- Words of eight bytes, the first one lowest. -/
def packed : List Nat → Nat
  | [] => 0
  | w :: ws => w + 2 ^ 64 * packed ws

def imageMem : Mem :=
  store (store (store (store (store (store (bootImage 0x408000) 0x20 6 (23 + 2 ^ 16 * 0x401000))
    0x401000 24 (packed gdt32)) 0x401100 10 (127 + 2 ^ 16 * 0x401200))
    0x401200 128 (packed gdt64)) 0x401300 8 (ptl4 0x408000)) 0x401400 4 0xa0000

theorem imageMem_rely : Rely imageSymbols .none imageMem := by
  refine ⟨⟨by decide +kernel, ?_, by decide +kernel, ?_, by decide +kernel, ?_⟩, ?_⟩
  · have hwords : ∀ i : Fin 3, gdt32[i.1]? = some (load imageMem (0x401000 + 8 * i.1) 8) := by
      decide +kernel
    intro i w hw
    have hi : i < 3 := (List.getElem?_eq_some_iff.1 hw).1
    exact Option.some.inj ((hwords ⟨i, hi⟩).symm.trans hw)
  · have hwords : ∀ i : Fin 16, gdt64[i.1]? = some (load imageMem (0x401200 + 8 * i.1) 8) := by
      decide +kernel
    intro i w hw
    have hi : i < 16 := (List.getElem?_eq_some_iff.1 hw).1
    exact Option.some.inj ((hwords ⟨i, hi⟩).symm.trans hw)
  · refine (bootTables_bootImage rfl (by decide)).frame fun x hx => ?_
    simp only [BootPage, InRange, imageSymbols] at hx
    unfold imageMem
    repeat rw [store_apply_of_outside (by omega)]
    rfl
  · show IsStack _
    unfold IsStack
    decide +kernel

/-- The code with one byte for each instruction. -/
def imageProgram : CodeSize → Nat → Option (Instr × Nat)
  | .bits16, a => ((sipiEntry imageSymbols)[a]?).map (·, 1)
  | .bits32, a =>
    if a < 0x401600 then ((prepare64 imageSymbols)[a - 0x401500]?).map (·, 1)
    else ((apStart32 imageSymbols)[a - 0x401600]?).map (·, 1)
  | .bits64, _ => none

theorem code_of_getElem {P : Processor} {size : CodeSize} {b : Nat} {is : List Instr} {a : Nat}
    (hprogram : ∀ j i, is[j]? = some i → P.program size (a + j) = some (i, 1))
    (hb : a + is.length ≤ b) : Code P size a is b := by
  induction is generalizing a with
  | nil => exact hb
  | cons i is ih =>
    refine ⟨1, by decide, hprogram 0 i rfl, ih (fun j i' hj => ?_) ?_⟩
    · rw [Nat.add_assoc, Nat.add_comm 1 j]
      exact hprogram (j + 1) i' hj
    · rw [List.length_cons] at hb
      omega

theorem loaded_imageProgram : Loaded imageProgram imageSymbols := by
  refine ⟨code_of_getElem (fun j i hj => ?_) (by decide),
    code_of_getElem (fun j i hj => ?_) (by decide), code_of_getElem (fun j i hj => ?_) (by decide)⟩
  · show ((sipiEntry imageSymbols)[0 + j]?).map (·, 1) = _
    rw [Nat.zero_add, hj]
    rfl
  · have happ : imageProgram .bits32 (0x401600 + j)
        = ((apStart32 imageSymbols)[0x401600 + j - 0x401600]?).map (·, 1) := if_neg (by omega)
    rw [Nat.add_sub_cancel_left, hj] at happ
    exact happ
  · have hlen : j < 15 := (List.getElem?_eq_some_iff.1 hj).1
    have happ : imageProgram .bits32 (0x401500 + j)
        = ((prepare64 imageSymbols)[0x401500 + j - 0x401500]?).map (·, 1) := if_pos (by omega)
    rw [Nat.add_sub_cancel_left, hj] at happ
    exact happ

/-- A processor with the values of a reset. -/
def resetCore : Core :=
  ⟨0, fun _ => 0, update (fun _ => 0) .cr0 0x60000010, 0, 0, 0xffff, realCode, fun _ => realData⟩

theorem afterSipi_resetCore : AfterSipi resetCore :=
  ⟨rfl, rfl, rfl, by decide, by decide, fun _ => by decide, by decide, by decide⟩

theorem image_enters_long_mode : ∃ as s top,
    Run (startUp (processor imageProgram) imageSymbols resetCore) as s ∧ s.stack = some top ∧
      IsStack top ∧ Entered imageSymbols resetCore s.core top := by
  obtain ⟨as, s, hrun, hcount⟩ := exists_run (L := imageLayout) loaded_imageProgram
    afterSipi_resetCore imageMem_rely (Nat.le_refl 30)
  obtain ⟨-, top, hstack, htop, hentered⟩ :=
    (start_enters_long_mode (L := imageLayout) loaded_imageProgram afterSipi_resetCore hrun).2
      (Nat.le_of_eq hcount.symm)
  exact ⟨as, s, top, hrun, hstack, htop, hentered⟩

end HyperBench.LongMode
