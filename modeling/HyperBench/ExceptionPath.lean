import HyperBench.Exception

/-!
# The way of an exception and back

Four places of the source describe one frame: what the processor pushes, what
the stub and `__handle_exception` push, `struct ex_regs`, and what
`__handle_exception` pops.

* `OnStack` says which words are on the stack.  `onStack_pushAll` and
  `run_pops` are the rules for it.
* `onStack_atCall` is the frame in front of the call, for every stub.
* `load_savedWords` is the frame as `struct ex_regs`.
* `run_exit` is the way back, with any return address in the frame.
* `exception_transparent` puts them together.
-/

namespace HyperBench.Exception

open Loop WordStack

/-! ## Words on the stack -/

@[simp] theorem setReg_self (c : Cpu) (r : Reg) (v : UInt64) : (c.setReg r v).reg r = v := by
  simp [Cpu.setReg]

theorem setReg_of_ne (c : Cpu) {r r' : Reg} (h : r' ≠ r) (v : UInt64) :
    (c.setReg r v).reg r' = c.reg r' := by
  simp [Cpu.setReg, h]

def OnStack (c : Cpu) (ws : List UInt64) : Prop := Holds c.mem (c.reg .rsp) ws

theorem push_rsp (c : Cpu) (v : UInt64) : (c.push v).reg .rsp = c.reg .rsp - 8 :=
  setReg_self c .rsp _

theorem onStack_push {c : Cpu} {ws : List UInt64} (h : OnStack c ws) (hlen : ws.length < 2 ^ 60)
    (v : UInt64) : OnStack (c.push v) (v :: ws) := by
  unfold OnStack
  rw [push_rsp]
  exact Holds.push h hlen v

theorem push_reg (c : Cpu) (v : UInt64) {r : Reg} (hr : r ≠ .rsp) : (c.push v).reg r = c.reg r :=
  setReg_of_ne c hr _

theorem onStack_pushAll {c : Cpu} {ws vs : List UInt64} (h : OnStack c ws)
    (hlen : ws.length + vs.length < 2 ^ 60) : OnStack (c.pushAll vs) (vs.reverse ++ ws) := by
  induction vs generalizing c ws with
  | nil => exact h
  | cons v vs ih =>
    rw [List.length_cons] at hlen
    have hrest := ih (onStack_push h (by omega) v) (by rw [List.length_cons]; omega)
    rw [List.reverse_cons, List.append_assoc, List.singleton_append]
    exact hrest

theorem pushAll_reg (c : Cpu) (vs : List UInt64) {r : Reg} (hr : r ≠ .rsp) :
    (c.pushAll vs).reg r = c.reg r := by
  induction vs generalizing c with
  | nil => rfl
  | cons v vs ih => exact (ih (c.push v)).trans (push_reg c v hr)

theorem run_append (code code' : List Instr) (c : Cpu) :
    run (code ++ code') c = run code' (run code c) := List.foldl_append

/-- Pushing registers, of which none is the stack pointer. -/
theorem run_pushes (c : Cpu) {rs : List Reg} (hrs : .rsp ∉ rs) :
    run (rs.map .push) c = c.pushAll (rs.map c.reg) := by
  induction rs generalizing c with
  | nil => rfl
  | cons r rs ih =>
    rw [List.mem_cons, not_or] at hrs
    show run (rs.map .push) (c.push (c.reg r)) = (c.push (c.reg r)).pushAll (rs.map c.reg)
    rw [ih (c.push (c.reg r)) hrs.2]
    congr 1
    refine List.map_congr_left fun r' hr' => push_reg c _ ?_
    rintro rfl
    exact hrs.2 hr'

/-- Registers pushed from the last one to the first one. -/
theorem onStack_pushRegs {c : Cpu} {rs : List Reg} {ws : List UInt64} (hrs : .rsp ∉ rs)
    (h : OnStack c ws) (hlen : ws.length + rs.length < 2 ^ 60) :
    OnStack (run (rs.reverse.map .push) c) (rs.map c.reg ++ ws) ∧
      ∀ r, r ≠ .rsp → (run (rs.reverse.map .push) c).reg r = c.reg r := by
  rw [run_pushes c fun hmem => hrs (List.mem_reverse.1 hmem)]
  refine ⟨?_, fun r hr => pushAll_reg c _ hr⟩
  have hall := onStack_pushAll h
    (show ws.length + (rs.reverse.map c.reg).length < _ by
      rw [List.length_map, List.length_reverse]
      exact hlen)
  rw [List.map_reverse, List.reverse_reverse] at hall
  rw [List.map_reverse]
  exact hall

theorem onStack_pop {c : Cpu} {w : UInt64} {ws : List UInt64} (h : OnStack c (w :: ws)) :
    c.mem (c.reg .rsp) = w ∧ Holds c.mem (c.reg .rsp + 8) ws := by
  refine ⟨?_, h.drop 1⟩
  have hword := h 0 w rfl
  rwa [word, add_zero_offset] at hword

/-- Popping registers whose values are on the stack. -/
theorem run_pops {c : Cpu} {rs : List Reg} {f : Reg → UInt64} {ws : List UInt64} (hrs : .rsp ∉ rs)
    (h : OnStack c (rs.map f ++ ws)) :
    OnStack (run (rs.map .pop) c) ws ∧
      ∀ r, r ≠ .rsp → (run (rs.map .pop) c).reg r = if r ∈ rs then f r else c.reg r := by
  induction rs generalizing c with
  | nil => exact ⟨h, fun r _ => (if_neg List.not_mem_nil).symm⟩
  | cons r rs ih =>
    rw [List.mem_cons, not_or] at hrs
    obtain ⟨htop, hrest⟩ := onStack_pop h
    have hrsp : (exec c (.pop r)).reg .rsp = c.reg .rsp + 8 :=
      (setReg_of_ne _ hrs.1 _).trans (setReg_self c .rsp _)
    have hreg : ∀ r', r' ≠ .rsp →
        (exec c (.pop r)).reg r' = if r' = r then f r else c.reg r' := by
      intro r' hr'
      by_cases hsame : r' = r
      · subst hsame
        rw [if_pos rfl, ← htop]
        exact setReg_self _ r' _
      · rw [if_neg hsame]
        exact (setReg_of_ne _ hsame _).trans (setReg_of_ne c hr' _)
    have hstack : OnStack (exec c (.pop r)) (rs.map f ++ ws) := by
      unfold OnStack
      rw [hrsp]
      exact hrest
    obtain ⟨hws, hregs⟩ := ih hrs.2 hstack
    refine ⟨hws, fun r' hr' => (hregs r' hr').trans ?_⟩
    rw [hreg r' hr']
    by_cases hmem : r' ∈ rs
    · rw [if_pos hmem, if_pos (List.mem_cons_of_mem r hmem)]
    · rw [if_neg hmem]
      by_cases hsame : r' = r
      · subst hsame
        rw [if_pos rfl, if_pos List.mem_cons_self]
      · rw [if_neg hsame, if_neg (by simp [hsame, hmem])]

/-- The room for `dummy`. -/
theorem onStack_subRsp {c : Cpu} {ws : List UInt64} (h : OnStack c ws) (hlen : ws.length < 2 ^ 60) :
    OnStack (exec c .subRsp) (c.mem (c.reg .rsp - 8) :: ws) := by
  have hpush := Holds.push h hlen (c.mem (c.reg .rsp - 8))
  rw [Function.update_eq_self] at hpush
  unfold OnStack exec
  rw [setReg_self]
  exact hpush

theorem onStack_addRsp {c : Cpu} {w : UInt64} {ws : List UInt64} (h : OnStack c (w :: ws)) :
    OnStack (exec c .addRsp) ws := by
  unfold OnStack exec
  rw [setReg_self]
  exact (onStack_pop h).2

/-- The argument of the call. -/
theorem onStack_movRsp {c : Cpu} {ws : List UInt64} (h : OnStack c ws) :
    OnStack (exec c (.movRsp .rdi)) ws ∧
      (exec c (.movRsp .rdi)).reg .rdi = (exec c (.movRsp .rdi)).reg .rsp := by
  have hrsp : (c.setReg .rdi (c.reg .rsp)).reg .rsp = c.reg .rsp := setReg_of_ne c (by decide) _
  unfold OnStack exec
  rw [hrsp, setReg_self]
  exact ⟨h, rfl⟩

theorem run_gs4 (code : List Instr) (c : Cpu) : (run code c).gs4 = c.gs4 := by
  induction code generalizing c with
  | nil => rfl
  | cons i code ih =>
    refine (ih (exec c i)).trans ?_
    cases i <;> rfl

/-! ## The call -/

theorem pushAll_rsp (c : Cpu) (vs : List UInt64) :
    (c.pushAll vs).reg .rsp + UInt64.ofNat (8 * vs.length) = c.reg .rsp := by
  induction vs generalizing c with
  | nil => exact add_zero_offset _
  | cons v vs ih =>
    have height : UInt64.ofNat (8 * 1) = 8 := rfl
    rw [List.length_cons, ← add_offset]
    show ((c.push v).pushAll vs).reg .rsp + _ + _ = _
    rw [ih, push_rsp, height, UInt64.sub_add_cancel]

/-- A C function leaves the words of its caller. -/
theorem onStack_clobber {c : Cpu} {ws : List UInt64} (f : Callee) (h : OnStack c ws)
    (hlen : ws.length < 2 ^ 32) : OnStack (f.clobber c) ws := by
  have hscratch := f.scratch_lt
  have hall : Holds (c.pushAll f.scratch).mem ((c.pushAll f.scratch).reg .rsp)
      (f.scratch.reverse ++ ws) := onStack_pushAll h (by omega)
  have hdrop := hall.drop f.scratch.length
  rw [pushAll_rsp, List.drop_left' List.length_reverse] at hdrop
  exact hdrop

/-! ## The frame -/

/-- The registers below `dummy`, lowest first. -/
def lowerRegs : List Reg := [.rax, .rcx, .rdx, .rbx]

/-- The registers above `dummy`, lowest first. -/
def upperRegs : List Reg := [.rbp, .rsi, .rdi, .r8, .r9, .r10, .r11, .r12, .r13, .r14, .r15]

theorem rsp_not_mem_lowerRegs : .rsp ∉ lowerRegs := by decide

theorem rsp_not_mem_upperRegs : .rsp ∉ upperRegs := by decide

theorem handleExceptionEntry_eq :
    handleExceptionEntry = upperRegs.reverse.map .push
      ++ ([.subRsp] ++ (lowerRegs.reverse.map .push ++ [.movRsp .rdi])) := rfl

theorem handleExceptionExit_eq :
    handleExceptionExit = lowerRegs.map .pop ++ ([.addRsp] ++ (upperRegs.map .pop
      ++ [.addRsp, .addRsp])) := rfl

/-- The words on the stack in front of the call: top first, above them what the
processor and the stub have pushed. -/
def savedWords (reg : Reg → UInt64) (dummy : UInt64) (above : List UInt64) : List UInt64 :=
  lowerRegs.map reg ++ dummy :: (upperRegs.map reg ++ above)

theorem savedWords_congr {reg reg' : Reg → UInt64} (h : ∀ r, r ≠ .rsp → reg r = reg' r)
    (dummy : UInt64) (above : List UInt64) :
    savedWords reg dummy above = savedWords reg' dummy above := by
  have hlower : lowerRegs.map reg = lowerRegs.map reg' := by
    refine List.map_congr_left fun r hr => h r ?_
    rintro rfl
    exact rsp_not_mem_lowerRegs hr
  have hupper : upperRegs.map reg = upperRegs.map reg' := by
    refine List.map_congr_left fun r hr => h r ?_
    rintro rfl
    exact rsp_not_mem_upperRegs hr
  rw [savedWords, savedWords, hlower, hupper]

/-- The error code in the frame.  `EX` pushes 0 for one that the processor
does not push. -/
def errorWord (vector : Nat) (errorCode : UInt64) : UInt64 :=
  if vector ∈ errorCodeVectors then errorCode else 0

/-- What the processor and the stub push, top first. -/
def faultWords (c : Cpu) (vector : Nat) (errorCode rip : UInt64) : List UInt64 :=
  [UInt64.ofNat vector, errorWord vector errorCode, rip, c.cs, c.rflags, c.reg .rsp, c.ss]

/-- A stub is declared with `EX_E` exactly for the vectors with an error
code. -/
theorem stub_code {vector : Nat} {stub : Stub} (h : idtHandlers vector = some stub) :
    stub.code = if vector ∈ errorCodeVectors then EX_E (UInt64.ofNat vector)
      else EX (UInt64.ofNat vector) := by
  unfold idtHandlers at h
  split at h
  all_goals first
    | cases h; rfl
    | cases h

theorem onStack_deliver (c : Cpu) (e : IdtEntry) (vector : Nat) (errorCode : UInt64) :
    OnStack (deliver c e vector errorCode) (c.frame vector errorCode).reverse := by
  have hlen : (c.frame vector errorCode).length ≤ 6 := by
    unfold Cpu.frame
    split
    · exact Nat.le_refl 6
    · exact Nat.le_succ 5
  have hnil : OnStack (c.setReg .rsp (c.reg .rsp &&& ~~~15)) [] := holds_nil _ _
  have hframe : OnStack _ ((c.frame vector errorCode).reverse ++ []) :=
    onStack_pushAll hnil (by rw [List.length_nil]; omega)
  rw [List.append_nil] at hframe
  unfold OnStack at hframe ⊢
  rw [deliver]
  exact hframe

theorem deliver_reg (c : Cpu) (e : IdtEntry) (vector : Nat) (errorCode : UInt64) {r : Reg}
    (hr : r ≠ .rsp) : (deliver c e vector errorCode).reg r = c.reg r :=
  (pushAll_reg _ _ hr).trans (setReg_of_ne c hr _)

theorem onStack_stub {vector : Nat} {stub : Stub} (h : idtHandlers vector = some stub) (c : Cpu)
    (e : IdtEntry) (errorCode : UInt64) :
    OnStack (run stub.code (deliver c e vector errorCode)) (faultWords c vector errorCode c.rip) ∧
      ∀ r, r ≠ .rsp → (run stub.code (deliver c e vector errorCode)).reg r = c.reg r := by
  have hframe := onStack_deliver c e vector errorCode
  rw [stub_code h]
  unfold faultWords errorWord
  unfold Cpu.frame at hframe
  by_cases hmem : vector ∈ errorCodeVectors
  · rw [if_pos hmem] at hframe
    rw [if_pos hmem, if_pos hmem]
    have hpushed := onStack_push hframe (by simp) (UInt64.ofNat vector)
    exact ⟨hpushed, fun r hr => (push_reg _ _ hr).trans (deliver_reg c e vector errorCode hr)⟩
  · rw [if_neg hmem] at hframe
    rw [if_neg hmem, if_neg hmem]
    have hzero := onStack_push hframe (by simp) 0
    have hpushed := onStack_push hzero (by simp) (UInt64.ofNat vector)
    refine ⟨hpushed, fun r hr => ?_⟩
    exact (push_reg _ _ hr).trans ((push_reg _ _ hr).trans (deliver_reg c e vector errorCode hr))

/-- The pushes of `__handle_exception`. -/
theorem run_entry {c : Cpu} {above : List UInt64} (h : OnStack c above)
    (hlen : above.length < 2 ^ 32) :
    ∃ dummy, OnStack (run handleExceptionEntry c) (savedWords c.reg dummy above) ∧
      (run handleExceptionEntry c).reg .rdi = (run handleExceptionEntry c).reg .rsp := by
  have hupper : upperRegs.length = 11 := rfl
  have hlower : lowerRegs.length = 4 := rfl
  rw [handleExceptionEntry_eq, run_append, run_append, run_append]
  obtain ⟨hstack₁, hreg₁⟩ := onStack_pushRegs rsp_not_mem_upperRegs h (by omega)
  generalize run (upperRegs.reverse.map .push) c = c₁ at hstack₁ hreg₁ ⊢
  have hlen₁ : (upperRegs.map c.reg ++ above).length < 2 ^ 33 := by
    rw [List.length_append, List.length_map]
    omega
  have hstack₂ := onStack_subRsp hstack₁ (by omega)
  have hreg₂ : ∀ r, r ≠ .rsp → (run [.subRsp] c₁).reg r = c.reg r := fun r hr =>
    (setReg_of_ne c₁ hr _).trans (hreg₁ r hr)
  obtain ⟨hstack₃, -⟩ := onStack_pushRegs rsp_not_mem_lowerRegs hstack₂
    (by rw [List.length_cons]; omega)
  obtain ⟨hstack₄, hrdi⟩ := onStack_movRsp hstack₃
  have hlow : lowerRegs.map (run [.subRsp] c₁).reg = lowerRegs.map c.reg :=
    List.map_congr_left fun r hr => hreg₂ r fun hrsp => rsp_not_mem_lowerRegs (hrsp ▸ hr)
  refine ⟨c₁.mem (c₁.reg .rsp - 8), ?_, hrdi⟩
  rw [savedWords, ← hlow]
  exact hstack₄

/-- The frame in front of the call. -/
theorem onStack_atCall {vector : Nat} {stub : Stub} (h : idtHandlers vector = some stub) (c : Cpu)
    (e : IdtEntry) (errorCode : UInt64) :
    ∃ dummy, OnStack (atCall stub c e vector errorCode)
        (savedWords c.reg dummy (faultWords c vector errorCode c.rip)) ∧
      (atCall stub c e vector errorCode).reg .rdi = (atCall stub c e vector errorCode).reg .rsp := by
  obtain ⟨hstack, hreg⟩ := onStack_stub h c e errorCode
  have hshort : (faultWords c vector errorCode c.rip).length = 7 := rfl
  obtain ⟨dummy, hentry, hrdi⟩ := run_entry hstack (by omega)
  rw [savedWords_congr hreg] at hentry
  exact ⟨dummy, hentry, hrdi⟩

/-- The frame as `struct ex_regs`. -/
def Cpu.exRegs (c : Cpu) (dummy : UInt64) (vector : Nat) (errorCode : UInt64) : ExRegs :=
  ⟨c.reg .rax, c.reg .rcx, c.reg .rdx, c.reg .rbx, dummy, c.reg .rbp, c.reg .rsi, c.reg .rdi,
    c.reg .r8, c.reg .r9, c.reg .r10, c.reg .r11, c.reg .r12, c.reg .r13, c.reg .r14, c.reg .r15,
    UInt64.ofNat vector, errorWord vector errorCode, c.rip, c.cs, c.rflags⟩

theorem exRegs_rflags (c : Cpu) (dummy : UInt64) (vector : Nat) (errorCode : UInt64) :
    (c.exRegs dummy vector errorCode).rflags = c.rflags := rfl

theorem exRegs_vector (c : Cpu) (dummy : UInt64) {vector : Nat} (h : vector < 256)
    (errorCode : UInt64) : (c.exRegs dummy vector errorCode).vector.toNat = vector := by
  show (UInt64.ofNat vector).toNat = vector
  rw [UInt64.toNat_ofNat']
  omega

theorem load_savedWords {m : Mem} {a : UInt64} {c : Cpu} {dummy : UInt64} {vector : Nat}
    {errorCode : UInt64}
    (h : Holds m a (savedWords c.reg dummy (faultWords c vector errorCode c.rip))) :
    ExRegs.load m a = c.exRegs dummy vector errorCode := by
  unfold ExRegs.load
  rw [h 0 _ rfl, h 1 _ rfl, h 2 _ rfl, h 3 _ rfl, h 4 _ rfl, h 5 _ rfl, h 6 _ rfl, h 7 _ rfl,
    h 8 _ rfl, h 9 _ rfl, h 10 _ rfl, h 11 _ rfl, h 12 _ rfl, h 13 _ rfl, h 14 _ rfl, h 15 _ rfl,
    h 16 _ rfl, h 17 _ rfl, h 18 _ rfl, h 19 _ rfl, h 20 _ rfl]
  rfl

/-- The return address is the word that `check_exception_table` changes. -/
theorem holds_setRip {m : Mem} {a : UInt64} {reg : Reg → UInt64} {dummy : UInt64} {c : Cpu}
    {vector : Nat} {errorCode rip : UInt64}
    (h : Holds m a (savedWords reg dummy (faultWords c vector errorCode rip))) (v : UInt64) :
    Holds (setRip m a v) a (savedWords reg dummy (faultWords c vector errorCode v)) := by
  have hlen : (savedWords reg dummy (faultWords c vector errorCode rip)).length = 23 := rfl
  exact h.set (n := 18) (by omega) (by omega) v

/-! ## The way back -/

theorem run_exit {c : Cpu} {reg : Reg → UInt64} {dummy : UInt64} {ws : List UInt64}
    {vector errorCode : UInt64}
    (h : OnStack c (savedWords reg dummy (vector :: errorCode :: ws))) :
    OnStack (run handleExceptionExit c) ws ∧
      ∀ r, r ≠ .rsp → (run handleExceptionExit c).reg r = reg r := by
  rw [handleExceptionExit_eq, run_append, run_append, run_append]
  obtain ⟨hstack₁, hreg₁⟩ := run_pops rsp_not_mem_lowerRegs h
  have hstack₂ : OnStack (run [.addRsp] (run (lowerRegs.map .pop) c)) _ := onStack_addRsp hstack₁
  obtain ⟨hstack₃, hreg₃⟩ := run_pops rsp_not_mem_upperRegs hstack₂
  have hstack₄ := onStack_addRsp (onStack_addRsp hstack₃)
  refine ⟨hstack₄, fun r hr => ?_⟩
  have hlast : ∀ c : Cpu, (run [.addRsp, .addRsp] c).reg r = c.reg r := fun c =>
    (setReg_of_ne _ hr _).trans (setReg_of_ne c hr _)
  have hgap : ∀ c : Cpu, (run [.addRsp] c).reg r = c.reg r := fun c => setReg_of_ne c hr _
  have hall : r ∈ upperRegs ∨ r ∈ lowerRegs := by
    revert hr
    cases r <;> decide
  rw [hlast, hreg₃ r hr, hgap, hreg₁ r hr]
  by_cases hupper : r ∈ upperRegs
  · rw [if_pos hupper]
  · rw [if_neg hupper, if_pos (hall.resolve_left hupper)]

theorem iretq_eq {c : Cpu} {rip cs rflags rsp ss : UInt64}
    (h : OnStack c [rip, cs, rflags, rsp, ss]) :
    iretq c = { c.setReg .rsp rsp with rip := rip, cs := cs, rflags := rflags, ss := ss } := by
  unfold iretq
  rw [h 0 _ rfl, h 1 _ rfl, h 2 _ rfl, h 3 _ rfl, h 4 _ rfl]

/-! ## The C functions -/

/-- The records are searched from the first one on. -/
theorem findHandler_of_first {before after : List ExRecord} {ex : ExRecord} {rip : UInt64}
    (hbefore : ∀ r ∈ before, r.rip ≠ rip) (hex : ex.rip = rip) :
    findHandler (before ++ ex :: after) rip = some ex.handler := by
  induction before with
  | nil => rw [List.nil_append, findHandler, if_pos hex]
  | cons r before ih =>
    rw [List.cons_append, findHandler, if_neg (hbefore r List.mem_cons_self),
      ih fun r' hr' => hbefore r' (List.mem_cons_of_mem r hr')]

theorem findHandler_of_not_mem {table : List ExRecord} {rip : UInt64}
    (h : ∀ r ∈ table, r.rip ≠ rip) : findHandler table rip = none := by
  induction table with
  | nil => rfl
  | cons r table ih =>
    rw [findHandler, if_neg (h r List.mem_cons_self),
      ih fun r' hr' => h r' (List.mem_cons_of_mem r hr')]

/-! ## The status word -/

theorem toNat_exVal (r : ExRegs) :
    (exVal r).toNat = (r.vector.toNat ||| r.errorCode.toNat * 2 ^ 16 % 2 ^ 64 |||
      r.rflags.toNat / 2 ^ 16 % 2 * 2 ^ 8) % 2 ^ 32 := by
  have hrf : (((r.rflags >>> 16) &&& 1) <<< 8).toNat = r.rflags.toNat / 2 ^ 16 % 2 * 2 ^ 8 := by
    have h16 : (16 : UInt64).toNat % 64 = 16 := rfl
    have h8 : (8 : UInt64).toNat % 64 = 8 := rfl
    have h1 : (1 : UInt64).toNat = 1 := rfl
    rw [UInt64.toNat_shiftLeft, UInt64.toNat_and, UInt64.toNat_shiftRight, h16, h8, h1,
      Nat.and_one_is_mod, Nat.shiftRight_eq_div_pow, Nat.shiftLeft_eq]
    omega
  have herr : (r.errorCode <<< 16).toNat = r.errorCode.toNat * 2 ^ 16 % 2 ^ 64 := by
    have h16 : (16 : UInt64).toNat % 64 = 16 := rfl
    rw [UInt64.toNat_shiftLeft, h16, Nat.shiftLeft_eq]
  rw [exVal, UInt64.toNat_toUInt32, UInt64.toNat_or, UInt64.toNat_or, hrf, herr]

/-- The low byte is the vector, whatever the error code is. -/
theorem exVal_vector {r : ExRegs} (h : r.vector.toNat < 256) :
    (exVal r).toNat % 2 ^ 8 = r.vector.toNat := by
  have herr : r.errorCode.toNat * 2 ^ 16 % 2 ^ 64 % 2 ^ 8 = 0 := by omega
  have hrf : r.rflags.toNat / 2 ^ 16 % 2 * 2 ^ 8 % 2 ^ 8 = 0 := by omega
  rw [toNat_exVal, Nat.mod_mod_of_dvd _ (by decide), Nat.or_mod_two_pow, Nat.or_mod_two_pow, herr,
    hrf, Nat.or_zero, Nat.or_zero]
  omega

/-- The bit behind it is the resume flag. -/
theorem exVal_rf {r : ExRegs} (h : r.vector.toNat < 256) :
    (exVal r).toNat / 2 ^ 8 % 2 ^ 1 = r.rflags.toNat / 2 ^ 16 % 2 := by
  have hword : ∀ x : Nat, x % 2 ^ 32 / 2 ^ 8 % 2 ^ 1 = x / 2 ^ 8 % 2 ^ 1 := fun x => by omega
  have herr : r.errorCode.toNat * 2 ^ 16 % 2 ^ 64 / 2 ^ 8 % 2 ^ 1 = 0 := by omega
  have hrf : r.rflags.toNat / 2 ^ 16 % 2 * 2 ^ 8 / 2 ^ 8 % 2 ^ 1 = r.rflags.toNat / 2 ^ 16 % 2 := by
    omega
  have hvector : r.vector.toNat / 2 ^ 8 = 0 := by omega
  rw [toNat_exVal, hword, ← Nat.shiftRight_eq_div_pow, Nat.shiftRight_or_distrib,
    Nat.shiftRight_or_distrib, Nat.or_mod_two_pow, Nat.or_mod_two_pow]
  simp only [Nat.shiftRight_eq_div_pow]
  rw [herr, hrf, hvector, Nat.zero_mod, Nat.zero_or, Nat.zero_or]

theorem exceptionVector_eq {c : Cpu} {r : ExRegs} (hgs : c.gs4 = exVal r)
    (h : r.vector.toNat < 256) : (exceptionVector c).toNat = r.vector.toNat := by
  rw [exceptionVector, hgs, UInt8.toNat_toUInt32, UInt32.toNat_toUInt8]
  exact exVal_vector h

theorem exceptionRflagsRf_eq {c : Cpu} {r : ExRegs} (hgs : c.gs4 = exVal r)
    (h : r.vector.toNat < 256) : exceptionRflagsRf c = r.rflags.toNat.testBit 16 := by
  have hbyte : ((exVal r >>> 8).toUInt8 &&& 1).toNat = r.rflags.toNat / 2 ^ 16 % 2 := by
    have h8 : (8 : UInt32).toNat % 32 = 8 := rfl
    have h1 : (1 : UInt8).toNat = 1 := rfl
    rw [UInt8.toNat_and, UInt32.toNat_toUInt8, UInt32.toNat_shiftRight, h8, h1, Nat.and_one_is_mod,
      Nat.shiftRight_eq_div_pow, Nat.mod_mod_of_dvd _ (by decide)]
    exact exVal_rf h
  rw [Nat.testBit_eq_decide_div_mod_eq, ← hbyte, exceptionRflagsRf, hgs, decide_eq_decide,
    ne_eq, ← UInt8.toNat_inj]
  have hzero : (0 : UInt8).toNat = 0 := rfl
  omega

/-! ## The tables behind `setup_idt` -/

theorem offset_setIdtEntry (cs : UInt16) (addr : UInt64) (dpl : Fin 4) :
    (setIdtEntry cs addr dpl).offset = addr := by
  have h16 : (16 : UInt64).toNat % 64 = 16 := rfl
  have h32 : (32 : UInt64).toNat % 64 = 32 := rfl
  have hlt := addr.toNat_lt
  apply UInt64.toNat.inj
  unfold IdtEntry.offset setIdtEntry
  rw [UInt64.toNat_ofNat', UInt64.toNat_toUInt16, UInt64.toNat_toUInt16, UInt64.toNat_toUInt32,
    UInt64.toNat_shiftRight, UInt64.toNat_shiftRight, h16, h32, Nat.shiftRight_eq_div_pow,
    Nat.shiftRight_eq_div_pow]
  omega

theorem stubAt_address (g : Image) (stub : Stub) : g.stubAt (g.address stub) = some stub := by
  have hmem : stub ∈ Stub.all := by cases stub <;> decide
  unfold Image.stubAt
  cases hfind : Stub.all.find? fun s => g.address s = g.address stub with
  | none =>
    have hnot := List.find?_eq_none.1 hfind stub hmem
    exact absurd (decide_eq_true rfl) hnot
  | some s =>
    have hsame := List.find?_some hfind
    rw [g.address_injective (of_decide_eq_true hsame)]

theorem idtHandlers_lt {vector : Nat} {stub : Stub} (h : idtHandlers vector = some stub) :
    vector < 32 := by
  unfold idtHandlers at h
  split at h
  all_goals first
    | decide
    | cases h

theorem setupIdt_idt (g : Image) (cs : UInt16) {t : Tables} (ht : t.initialized = false)
    {vector : Nat} {stub : Stub} (h : idtHandlers vector = some stub) :
    (setupIdt g cs t).idt vector = setIdtEntry cs (g.address stub) 0 := by
  unfold setupIdt
  rw [ht]
  refine forUpTo_rule (fun n (idt : Nat → IdtEntry) => ∀ v s, v < n → idtHandlers v = some s →
    idt v = setIdtEntry cs (g.address s) 0) (fun v s hv => absurd hv (Nat.not_lt_zero v)) ?_
    vector stub (idtHandlers_lt h) h
  intro n idt _ hidt v s hv hs
  by_cases hsame : v = n
  · subst hsame
    rw [hs]
    exact Function.update_self _ _ _
  · cases hn : idtHandlers n with
    | none => exact hidt v s (by omega) hs
    | some s' => exact (Function.update_of_ne hsame _ _).trans (hidt v s (by omega) hs)

theorem setupIdt_handlers (g : Image) (cs : UInt16) {t : Tables} (ht : t.initialized = false)
    {vector : Nat} (h : vector = 0 ∨ vector = 6 ∨ vector = 13) :
    (setupIdt g cs t).handlers vector = some .checkExceptionTable := by
  unfold setupIdt handleException
  rw [ht]
  rcases h with rfl | rfl | rfl
  · simp
  · simp
  · simp

/-! ## The whole way -/

/-- What `do_handle_exception` does with the frame of a fault. -/
theorem doHandleException_eq {handlers : Nat → Option Handler} {table : List ExRecord} {m : Mem}
    {a : UInt64} {c : Cpu} {dummy errorCode : UInt64} {vector : Nat} (hvector : vector < 256)
    (hhandler : handlers vector = some .checkExceptionTable)
    (h : Holds m a (savedWords c.reg dummy (faultWords c vector errorCode c.rip))) (gs4 : UInt32) :
    doHandleException handlers table m a gs4
      = match findHandler table c.rip with
        | some handler => .returned (setRip m a handler) (exVal (c.exRegs dummy vector errorCode))
        | none => .unhandled false m (exVal (c.exRegs dummy vector errorCode)) := by
  have hload := load_savedWords h
  have hword := exRegs_vector c dummy hvector errorCode
  unfold doHandleException
  rw [hload]
  simp only [hword, hvector, if_true, hhandler]
  unfold checkExceptionTable
  rw [hload]
  rfl

/-- The way of a fault up to the end of the call, whatever the call does: the
frame is on the stack, and `regs` points to it. -/
theorem fault_frame {g : Image} {t : Tables} {cs : UInt16} {vector : Nat} {stub : Stub}
    (hstub : idtHandlers vector = some stub)
    (hidt : t.idt vector = setIdtEntry cs (g.address stub) 0) (table : List ExRecord) (f : Callee)
    (c : Cpu) (errorCode : UInt64) :
    ∃ (c₁ : Cpu) (dummy : UInt64),
      OnStack c₁ (savedWords c.reg dummy (faultWords c vector errorCode c.rip)) ∧
      fault g t table f c vector errorCode
        = some (afterCall c₁ (c₁.reg .rsp)
            (doHandleException t.handlers table c₁.mem (c₁.reg .rsp) c₁.gs4)) := by
  have hgate : (t.idt vector).p = 1 ∧ (t.idt vector).type = 14 ∧ (t.idt vector).ist = 0 := by
    rw [hidt]
    exact ⟨rfl, rfl, rfl⟩
  have hat : g.stubAt (t.idt vector).offset = some stub := by
    rw [hidt, offset_setIdtEntry, stubAt_address]
  obtain ⟨dummy, hcall, hrdi⟩ := onStack_atCall hstub c (t.idt vector) errorCode
  unfold fault
  rw [if_pos hgate, hat, Option.bind_eq_bind, Option.bind_some]
  generalize atCall stub c (t.idt vector) vector errorCode = c₀ at hcall hrdi ⊢
  have hlen : (savedWords c.reg dummy (faultWords c vector errorCode c.rip)).length = 23 := rfl
  have hrsp : (f.clobber c₀).reg .rsp = c₀.reg .rsp := by
    simp [Callee.clobber]
  refine ⟨f.clobber c₀, dummy, onStack_clobber f hcall (by omega), ?_⟩
  rw [hrsp, ← hrdi]
  rfl

/-- The way of a fault whose vector has `check_exception_table` for its handler. -/
theorem fault_eq {g : Image} {t : Tables} {cs : UInt16} {vector : Nat} {stub : Stub}
    (hstub : idtHandlers vector = some stub)
    (hidt : t.idt vector = setIdtEntry cs (g.address stub) 0) (hvector : vector < 256)
    (hhandler : t.handlers vector = some .checkExceptionTable) (table : List ExRecord) (f : Callee)
    (c : Cpu) (errorCode : UInt64) :
    ∃ (c₁ : Cpu) (dummy : UInt64),
      OnStack c₁ (savedWords c.reg dummy (faultWords c vector errorCode c.rip)) ∧
      fault g t table f c vector errorCode
        = match findHandler table c.rip with
          | some handler => some (.resumed (iretq (run handleExceptionExit
              { c₁ with
                mem := setRip c₁.mem (c₁.reg .rsp) handler
                gs4 := exVal (c.exRegs dummy vector errorCode) })))
          | none => some (.unhandled (c₁.reg .rsp) false
              { c₁ with gs4 := exVal (c.exRegs dummy vector errorCode) }) := by
  obtain ⟨c₁, dummy, hstack, hfault⟩ := fault_frame hstub hidt table f c errorCode
  refine ⟨c₁, dummy, hstack, hfault.trans ?_⟩
  unfold OnStack at hstack
  rw [doHandleException_eq hvector hhandler hstack]
  cases findHandler table c.rip with
  | none => rfl
  | some handler => rfl

/-- The processor behind `iretq`, with the frame of `c` on the stack and the
return address `rip` in it. -/
theorem iretq_run_exit {c c₁ : Cpu} {dummy errorCode rip : UInt64} {vector : Nat}
    (h : OnStack c₁ (savedWords c.reg dummy (faultWords c vector errorCode rip))) :
    ∃ c', iretq (run handleExceptionExit c₁) = c' ∧ c'.rip = rip ∧ (∀ r, c'.reg r = c.reg r) ∧
      c'.cs = c.cs ∧ c'.rflags = c.rflags ∧ c'.ss = c.ss ∧ c'.gs4 = c₁.gs4 := by
  obtain ⟨hstack, hreg⟩ := run_exit h
  have hgs4 := run_gs4 handleExceptionExit c₁
  generalize run handleExceptionExit c₁ = c₂ at hstack hreg hgs4 ⊢
  refine ⟨_, iretq_eq hstack, rfl, fun r => ?_, rfl, rfl, rfl, hgs4⟩
  show (c₂.setReg .rsp (c.reg .rsp)).reg r = c.reg r
  by_cases hr : r = .rsp
  · rw [hr, setReg_self]
  · rw [setReg_of_ne _ hr, hreg r hr]

/-- The same, when `check_exception_table` has stored the return address. -/
theorem resumed_eq {c c₁ : Cpu} {dummy errorCode : UInt64} {vector : Nat} (handler : UInt64)
    (gs4 : UInt32) (h : OnStack c₁ (savedWords c.reg dummy (faultWords c vector errorCode c.rip))) :
    ∃ c', iretq (run handleExceptionExit
        { c₁ with mem := setRip c₁.mem (c₁.reg .rsp) handler, gs4 := gs4 }) = c' ∧
      c'.rip = handler ∧ (∀ r, c'.reg r = c.reg r) ∧ c'.cs = c.cs ∧ c'.rflags = c.rflags ∧
      c'.ss = c.ss ∧ c'.gs4 = gs4 := by
  have hset : OnStack { c₁ with mem := setRip c₁.mem (c₁.reg .rsp) handler, gs4 := gs4 }
      (savedWords c.reg dummy (faultWords c vector errorCode handler)) := by
    unfold OnStack
    exact holds_setRip h handler
  exact iretq_run_exit hset

/-- For every state of the processor and every table: a fault with vector 0, 6
or 13 at an address of the table resumes at the handler of its first record,
with every register as it was, and the two functions then answer the vector
and the resume flag.  At another address the frame is as it was saved when
`unhandled_exception` is entered. -/
theorem exception_transparent (g : Image) (cs : UInt16) (t : Tables) (ht : t.initialized = false)
    (table : List ExRecord) (f : Callee) (c : Cpu) (vector : Nat)
    (hvector : vector = 0 ∨ vector = 6 ∨ vector = 13) (errorCode : UInt64) :
    (∀ before ex after, table = before ++ ex :: after → (∀ r ∈ before, r.rip ≠ c.rip) →
      ex.rip = c.rip →
      ∃ c', fault g (setupIdt g cs t) table f c vector errorCode = some (.resumed c') ∧
        c'.rip = ex.handler ∧ (∀ r, c'.reg r = c.reg r) ∧ c'.cs = c.cs ∧ c'.rflags = c.rflags ∧
        c'.ss = c.ss ∧ (exceptionVector c').toNat = vector ∧
        exceptionRflagsRf c' = c.rflags.toNat.testBit 16) ∧
    ((∀ r ∈ table, r.rip ≠ c.rip) →
      ∃ regs c' dummy,
        fault g (setupIdt g cs t) table f c vector errorCode = some (.unhandled regs false c') ∧
        ExRegs.load c'.mem regs = c.exRegs dummy vector errorCode ∧
        word c'.mem regs 21 = c.reg .rsp ∧ word c'.mem regs 22 = c.ss) := by
  obtain ⟨stub, hstub⟩ : ∃ stub, idtHandlers vector = some stub := by
    rcases hvector with rfl | rfl | rfl
    · exact ⟨.de, rfl⟩
    · exact ⟨.ud, rfl⟩
    · exact ⟨.gp, rfl⟩
  have hlt : vector < 256 := by omega
  obtain ⟨c₁, dummy, hstack, hfault⟩ := fault_eq hstub (setupIdt_idt g cs ht hstub) hlt
    (setupIdt_handlers g cs ht hvector) table f c errorCode
  have hword := exRegs_vector c dummy hlt errorCode
  constructor
  · intro before ex after htable hbefore hex
    obtain ⟨c', hc', hrip, hreg, hcs, hrflags, hss, hgs4⟩ := resumed_eq ex.handler
      (exVal (c.exRegs dummy vector errorCode)) hstack
    rw [htable, findHandler_of_first hbefore hex] at hfault
    refine ⟨c', ?_, hrip, hreg, hcs, hrflags, hss, ?_, ?_⟩
    · rw [htable, hfault, ← hc']
    · rw [exceptionVector_eq hgs4 (by omega), hword]
    · rw [exceptionRflagsRf_eq hgs4 (by omega), exRegs_rflags]
  · intro hnot
    rw [findHandler_of_not_mem hnot] at hfault
    exact ⟨c₁.reg .rsp, _, dummy, hfault, load_savedWords hstack, hstack 21 _ rfl, hstack 22 _ rfl⟩

/-- Stubs that lie behind each other. -/
def stubsInOrder : Image where
  address stub := UInt64.ofNat (Stub.all.idxOf stub)
  address_injective := by
    have hinverse : ∀ s : Stub, Stub.all[(UInt64.ofNat (Stub.all.idxOf s)).toNat]? = some s := by
      intro s
      cases s <;> rfl
    intro a b h
    replace h : UInt64.ofNat (Stub.all.idxOf a) = UInt64.ofNat (Stub.all.idxOf b) := h
    have hab := hinverse a
    rw [h, hinverse b] at hab
    exact (Option.some.inj hab).symm

/-- A general protection fault with an error code, and two records for its
address. -/
theorem exception_transparent_gp :
    ∃ c', fault stubsInOrder
        (setupIdt stubsInOrder 8 ⟨fun _ => ⟨0, 0, 0, 0, 0, 0, 0, 0⟩, fun _ => none, false⟩)
        [⟨0x1000, 0x2000⟩, ⟨0x1000, 0x3000⟩] ⟨fun _ => 7, [1, 2, 3], by decide⟩
        ⟨fun _ => 9, 0x1000, 8, 0x10002, 16, fun _ => 0, 0⟩ 13 0x18 = some (.resumed c') ∧
      c'.rip = 0x2000 ∧ (∀ r, c'.reg r = 9) ∧ (exceptionVector c').toNat = 13 ∧
      exceptionRflagsRf c' = true := by
  obtain ⟨c', hfault, hrip, hreg, -, -, -, hvector, hrf⟩ := (exception_transparent stubsInOrder 8
    ⟨fun _ => ⟨0, 0, 0, 0, 0, 0, 0, 0⟩, fun _ => none, false⟩ rfl
    [⟨0x1000, 0x2000⟩, ⟨0x1000, 0x3000⟩] ⟨fun _ => 7, [1, 2, 3], by decide⟩
    ⟨fun _ => 9, 0x1000, 8, 0x10002, 16, fun _ => 0, 0⟩ 13 (.inr (.inr rfl)) 0x18).1
    [] ⟨0x1000, 0x2000⟩ [⟨0x1000, 0x3000⟩] rfl (fun r hr => absurd hr List.not_mem_nil) rfl
  exact ⟨c', hfault, hrip, hreg, hvector, hrf.trans (by decide)⟩

end HyperBench.Exception
