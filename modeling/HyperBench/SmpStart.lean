import HyperBench.SmpMode
import Mathlib.Data.List.Perm.Subperm

/-!
# Starting the application processors

`StartInv` says, for a run of the machine, how far `startothers` has come and
what every application processor has done up to its program counter: the
stack it took, the texts it printed, and its store into `started`.

`startup_protocol` collects what this means for the start-up protocol.
-/

namespace HyperBench.Smp

open Transition Function

/-! ## The actions of a run -/

/-- The processors in the order in which `lapicstartap` was called for them. -/
def starts (as : List Action) : List Nat :=
  as.filterMap fun
    | .startAp x => some x
    | _ => none

/-- The interrupt commands in the order in which they were sent. -/
def commands (as : List Action) : List (Nat × IcrCommand) :=
  as.filterMap fun
    | .icrCommand x cmd => some (x, cmd)
    | _ => none

/-- The processors in the order in which they took their stacks. -/
def stackOrder (as : List Action) : List Nat :=
  as.filterMap fun
    | .stack x => some x
    | _ => none

/-- The commands of one call of `lapicstartap`. -/
def commandsTo (x : Nat) : List (Nat × IcrCommand) := lapicstartap.map (x, ·)

/-- The other processors among the first `n` entries of the table. -/
def Config.othersUpTo (cfg : Config) (n : Nat) : List Nat :=
  (cfg.apicids.take n).filter (· ≠ cfg.bsp)

/-- The processors that `startothers` has to start. -/
def Config.others (cfg : Config) : List Nat := cfg.apicids.filter (· ≠ cfg.bsp)

namespace Config

variable {cfg : Config} {i : Nat}

theorem othersUpTo_length : cfg.othersUpTo cfg.apicids.length = cfg.others := by
  rw [othersUpTo, List.take_length, others]

theorem othersUpTo_succ (hi : i < cfg.apicids.length) :
    cfg.othersUpTo (i + 1)
      = cfg.othersUpTo i ++ if cfg.apicid i = cfg.bsp then [] else [cfg.apicid i] := by
  rw [apicid_eq hi, othersUpTo, List.take_add_one, List.getElem?_eq_getElem hi, List.filter_append]
  by_cases h : cfg.apicids[i] = cfg.bsp <;> simp [h, othersUpTo]

theorem mem_others {x : Nat} :
    x ∈ cfg.others ↔ x ≠ cfg.bsp ∧ ∃ i, i < cfg.apicids.length ∧ cfg.apicid i = x := by
  rw [others, List.mem_filter, List.mem_iff_getElem]
  constructor
  · rintro ⟨⟨j, hj, hx⟩, hne⟩
    exact ⟨by simpa using hne, j, hj, by rw [apicid_eq hj, hx]⟩
  · rintro ⟨hne, j, hj, hx⟩
    exact ⟨⟨j, hj, by rw [← hx, apicid_eq hj]⟩, by simpa using hne⟩

theorem others_nodup (cfg : Config) : cfg.others.Nodup := List.Nodup.filter _ cfg.nodup

theorem others_length (hbsp : cfg.bsp ∈ cfg.apicids) : cfg.others.length < NCPU := by
  have hlt : cfg.others.length < cfg.apicids.length := by
    rw [others, List.length_filter_lt_length_iff_exists]
    exact ⟨cfg.bsp, hbsp, by simp⟩
  have := cfg.length_le
  omega

end Config

/-! ## What a program counter says about the past -/

namespace ApPc

/-- How far the processor has come. -/
def rank : ApPc → Nat
  | off => 0
  | waitSipi => 1
  | trampoline => 2
  | starting => 3
  | enableApic => 4
  | spurious => 5
  | setStarted => 6
  | x2apicMode => 7
  | x2apicOps => 8
  | sti => 9
  | halted | store | load | eoi _ | iret => 10

end ApPc

/-- What the processor `x` has done when it is at `pc`. -/
structure ApHist (as : List Action) (x : Nat) (pc : ApPc) : Prop where
  stack : x ∈ stackOrder as ↔ 3 ≤ pc.rank
  starting : 4 ≤ pc.rank → .printStarting x ∈ as
  enabling : 5 ≤ pc.rank → .printEnabling x ∈ as
  started : 7 ≤ pc.rank → .setStarted x ∈ as

theorem mem_stacks {as : List Action} {x : Nat} : x ∈ stackOrder as ↔ .stack x ∈ as := by
  simp only [stackOrder, List.mem_filterMap]
  constructor
  · rintro ⟨a, ha, hx⟩
    cases a <;> simp_all
  · intro h
    exact ⟨_, h, rfl⟩

/-- The processor goes on from `p` to `q`, or stays, with the action `a`. -/
theorem ApHist.move {as : List Action} {x : Nat} {p q : ApPc} {a : Action} (h : ApHist as x p)
    (hstack : 3 ≤ q.rank ↔ 3 ≤ p.rank ∨ a = .stack x)
    (hstarting : 4 ≤ q.rank → 4 ≤ p.rank ∨ a = .printStarting x)
    (henabling : 5 ≤ q.rank → 5 ≤ p.rank ∨ a = .printEnabling x)
    (hstarted : 7 ≤ q.rank → 7 ≤ p.rank ∨ a = .setStarted x) : ApHist (as ++ [a]) x q := by
  refine ⟨?_, fun hq => ?_, fun hq => ?_, fun hq => ?_⟩
  · rw [mem_stacks, List.mem_append, List.mem_singleton, hstack, ← h.stack, mem_stacks, eq_comm]
  · rcases hstarting hq with hp | ha
    · exact List.mem_append_left _ (h.starting hp)
    · simp [ha]
  · rcases henabling hq with hp | ha
    · exact List.mem_append_left _ (h.enabling hp)
    · simp [ha]
  · rcases hstarted hq with hp | ha
    · exact List.mem_append_left _ (h.started hp)
    · simp [ha]

namespace BootPc

/-- The entries of the table that the loop of `startothers` has come to. -/
def begun (cfg : Config) : BootPc → Nat
  | enableApic | spurious => 0
  | loop i => i
  | start i _ | wait i => i + 1
  | _ => cfg.apicids.length

/-- The entries of the table that the loop is done with. -/
def finished (cfg : Config) : BootPc → Nat
  | enableApic | spurious => 0
  | loop i | start i _ | wait i => i
  | _ => cfg.apicids.length

/-- The commands of the call of `lapicstartap` that is under way. -/
def current (cfg : Config) : BootPc → List (Nat × IcrCommand)
  | start i k => (lapicstartap.take k).map (cfg.apicid i, ·)
  | wait i => commandsTo (cfg.apicid i)
  | _ => []

/-- Behind `startothers`. -/
def Returned : BootPc → Prop
  | enableApic | spurious | loop _ | start _ _ | wait _ => False
  | _ => True

/-- Behind the first line of `harness_main`. -/
def Pinned : BootPc → Prop
  | ready | clear _ | load _ | icr _ _ | done _ => True
  | _ => False

end BootPc

structure StartInv (cfg : Config) (as : List Action) (s : State) : Prop where
  hist : ∀ x, ApHist as x (s.ap x)
  listed : ∀ x, s.ap x ≠ .off → x ∈ cfg.others
  begun_le : s.boot.begun cfg ≤ cfg.apicids.length
  starts_eq : starts as = cfg.othersUpTo (s.boot.begun cfg)
  commands_eq : commands as
    = (cfg.othersUpTo (s.boot.finished cfg)).flatMap commandsTo ++ s.boot.current cfg
  up : ∀ i, i < s.boot.finished cfg → cfg.apicid i ≠ cfg.bsp → s.started i = true
  started : ∀ i, s.started i = true → i < cfg.apicids.length ∧ 7 ≤ (s.ap (cfg.apicid i)).rank
  stacktop : s.smpStacktop = 0xa0000 - 4096 * (stackOrder as).length
  esp : ∀ x e, s.esp x = some e ↔ ∃ n, (stackOrder as)[n]? = some x ∧ e = 0xa0000 - 4096 * n
  stacks_nodup : (stackOrder as).Nodup
  pinned : .pin ∈ as → s.boot.Pinned

theorem startInv_init {cfg : Config} {s : State} (h : (smp cfg).Init s) : StartInv cfg [] s := by
  rcases h with ⟨hboot, _, hstacktop, hoff⟩
  have hap : ∀ x, s.ap x = .off := fun x => (hoff x).1
  have hstarted : ∀ x, s.started x = false := fun x => (hoff x).2.2.1
  have hesp : ∀ x, s.esp x = none := fun x => (hoff x).2.2.2.1
  constructor <;> simp [hboot, hap, hstarted, hesp, hstacktop, BootPc.begun, BootPc.finished,
    BootPc.current, starts, commands, stackOrder, Config.othersUpTo]
  intro x
  constructor <;> simp [ApPc.rank, stackOrder]

/-! ## The steps -/

/-- An action that none of the three lists counts. -/
def Action.Plain : Action → Prop
  | .startAp _ | .icrCommand _ _ | .stack _ => False
  | _ => True

theorem filterMap_concat_none {β : Type} {f : Action → Option β} {a : Action} (h : f a = none)
    (as : List Action) : (as ++ [a]).filterMap f = as.filterMap f := by
  rw [List.filterMap_append, List.filterMap_cons_none h, List.filterMap_nil, List.append_nil]

theorem Action.Plain.append {a : Action} (ha : a.Plain) (as : List Action) :
    starts (as ++ [a]) = starts as ∧ commands (as ++ [a]) = commands as ∧
      stackOrder (as ++ [a]) = stackOrder as := by
  cases a with
  | startAp x | icrCommand x cmd | stack x => exact ha.elim
  | _ =>
    exact ⟨filterMap_concat_none rfl as, filterMap_concat_none rfl as, filterMap_concat_none rfl as⟩

section Steps

variable {cfg : Config} {as : List Action} {s t : State} {a : Action} {x : Nat}

/-- An action that the processor `x` has no part in. -/
theorem ApHist.other {pc : ApPc} (h : ApHist as x pc) (ha : a ≠ .stack x) :
    ApHist (as ++ [a]) x pc :=
  h.move (by simp [ha]) Or.inl Or.inl Or.inl

/-- A step of an application processor that is neither off nor takes its
stack. -/
theorem StartInv.ap_step {q : ApPc} (h : StartInv cfg as s) (hoff : s.ap x ≠ .off)
    (ha : a.Plain) (hpin : a ≠ .pin) (hboot : t.boot = s.boot) (hap : t.ap = update s.ap x q)
    (hhist : ApHist (as ++ [a]) x q) (hrank : (s.ap x).rank ≤ q.rank)
    (hkept : ∀ i, s.started i = true → t.started i = true)
    (hstarted : ∀ i, t.started i = true → s.started i = true ∨
      i < cfg.apicids.length ∧ cfg.apicid i = x ∧ 7 ≤ q.rank)
    (hstacktop : t.smpStacktop = s.smpStacktop) (hesp : t.esp = s.esp) :
    StartInv cfg (as ++ [a]) t := by
  rcases ha.append as with ⟨hstarts, hcommands, hstacks⟩
  have hmono : ∀ y, (s.ap y).rank ≤ (t.ap y).rank := by
    intro y
    rw [hap]
    by_cases hy : y = x
    · rw [hy, update_self]
      exact hrank
    · rw [update_of_ne hy]
  refine ⟨?_, ?_, ?_, ?_, ?_, ?_, ?_, ?_, ?_, ?_, ?_⟩
  · intro y
    rw [hap]
    by_cases hy : y = x
    · rw [hy, update_self]
      exact hhist
    · rw [update_of_ne hy]
      refine (h.hist y).other ?_
      rintro rfl
      exact ha
  · intro y hy
    by_cases hyx : y = x
    · rw [hyx]
      exact h.listed x hoff
    · rw [hap, update_of_ne hyx] at hy
      exact h.listed y hy
  · rw [hboot]
    exact h.begun_le
  · rw [hstarts, hboot]
    exact h.starts_eq
  · rw [hcommands, hboot]
    exact h.commands_eq
  · intro i hi hne
    rw [hboot] at hi
    exact hkept i (h.up i hi hne)
  · intro i hi
    rcases hstarted i hi with hs | ⟨hlt, hx, hq⟩
    · exact ⟨(h.started i hs).1, (h.started i hs).2.trans (hmono _)⟩
    · rw [hap, hx, update_self]
      exact ⟨hlt, hq⟩
  · rw [hstacktop, hstacks]
    exact h.stacktop
  · rw [hesp, hstacks]
    exact h.esp
  · rw [hstacks]
    exact h.stacks_nodup
  · intro hmem
    rw [hboot]
    refine h.pinned ?_
    simpa [Ne.symm hpin] using hmem

/-- A step of the boot processor that leaves the application processors
alone. -/
theorem StartInv.boot_step (h : StartInv cfg as s) (hstack : ∀ y, a ≠ .stack y)
    (hap : t.ap = s.ap) (hstarted : t.started = s.started)
    (hstacktop : t.smpStacktop = s.smpStacktop) (hesp : t.esp = s.esp)
    (hbegun : t.boot.begun cfg ≤ cfg.apicids.length)
    (hstarts : starts (as ++ [a]) = cfg.othersUpTo (t.boot.begun cfg))
    (hcommands : commands (as ++ [a])
      = (cfg.othersUpTo (t.boot.finished cfg)).flatMap commandsTo ++ t.boot.current cfg)
    (hup : ∀ i, i < t.boot.finished cfg → cfg.apicid i ≠ cfg.bsp → s.started i = true)
    (hpinned : .pin ∈ as ++ [a] → t.boot.Pinned) : StartInv cfg (as ++ [a]) t := by
  have hstacks : stackOrder (as ++ [a]) = stackOrder as := by
    cases a with
    | stack y => exact absurd rfl (hstack y)
    | _ => exact filterMap_concat_none rfl as
  refine ⟨?_, ?_, hbegun, hstarts, hcommands, ?_, ?_, ?_, ?_, ?_, hpinned⟩
  · intro y
    rw [hap]
    exact (h.hist y).other (hstack y)
  · rw [hap]
    exact h.listed
  · rw [hstarted]
    exact hup
  · rw [hap, hstarted]
    exact h.started
  · rw [hstacktop, hstacks]
    exact h.stacktop
  · rw [hesp, hstacks]
    exact h.esp
  · rw [hstacks]
    exact h.stacks_nodup

/-- A step of the boot processor that does not go on in the table. -/
theorem StartInv.boot_move (h : StartInv cfg as s) (ha : a.Plain) (hap : t.ap = s.ap)
    (hstarted : t.started = s.started) (hstacktop : t.smpStacktop = s.smpStacktop)
    (hesp : t.esp = s.esp) (hbegun : t.boot.begun cfg = s.boot.begun cfg)
    (hfinished : t.boot.finished cfg = s.boot.finished cfg)
    (hcurrent : t.boot.current cfg = s.boot.current cfg)
    (hpinned : a = .pin ∨ s.boot.Pinned → t.boot.Pinned) : StartInv cfg (as ++ [a]) t := by
  rcases ha.append as with ⟨hstarts, hcommands, _⟩
  refine h.boot_step ?_ hap hstarted hstacktop hesp ?_ ?_ ?_ ?_ ?_
  · rintro y rfl
    exact ha
  · rw [hbegun]
    exact h.begun_le
  · rw [hstarts, hbegun]
    exact h.starts_eq
  · rw [hcommands, hfinished, hcurrent]
    exact h.commands_eq
  · rw [hfinished]
    exact h.up
  · intro hmem
    rcases List.mem_append.1 hmem with hmem | hmem
    · exact hpinned (Or.inr (h.pinned hmem))
    · exact hpinned (Or.inl (List.mem_singleton.1 hmem).symm)

theorem StartInv.pin_notMem (h : StartInv cfg as s) (hboot : ¬ s.boot.Pinned) : .pin ∉ as :=
  fun hmem => hboot (h.pinned hmem)

/-- The boot processor skips its own entry only. -/
theorem skip_eq_bsp {i : Nat} (hinv : Inv cfg s) (hbsp : cfg.bsp ∈ cfg.apicids)
    (hboot : s.boot = .loop i) (hr : Mycpu cfg s cfg.bsp i) :
    cfg.apicid i = cfg.bsp := by
  rcases List.mem_iff_getElem.1 hbsp with ⟨j, hj, hjbsp⟩
  have hmode : s.mode cfg.bsp = .xapic := by
    rw [hinv.bootMode, hboot]
    rfl
  have hid : cfg.apicid j = cfg.bsp := (Config.apicid_eq hj).trans hjbsp
  rw [hr j (mycpu_eq hmode hj hid), hid]

theorem startInv_skip {i : Nat} (h : StartInv cfg as s) (hinv : Inv cfg s)
    (hbsp : cfg.bsp ∈ cfg.apicids) (hboot : s.boot = .loop i) (hi : i < cfg.apicids.length)
    (hr : Mycpu cfg s cfg.bsp i) (texts : List (List UInt8)) :
    StartInv cfg (as ++ [.skip]) ((s.print texts).setBoot (.loop (i + 1))) := by
  have hown := skip_eq_bsp hinv hbsp hboot hr
  have hplain : Action.skip.Plain := trivial
  have hsame : cfg.othersUpTo (i + 1) = cfg.othersUpTo i := by
    rw [Config.othersUpTo_succ hi, if_pos hown, List.append_nil]
  have hold := h.starts_eq
  have hcommands := h.commands_eq
  have hup := h.up
  rw [hboot] at hold hcommands hup
  refine h.boot_step (by simp) rfl rfl rfl rfl hi ?_ ?_ ?_ ?_
  · exact (hplain.append as).1.trans (hold.trans hsame.symm)
  · rw [(hplain.append as).2.1, hcommands]
    exact congrArg (fun l => l.flatMap commandsTo ++ []) hsame.symm
  · intro j hj hne
    rcases Nat.lt_succ_iff_lt_or_eq.1 hj with hlt | rfl
    · exact hup j hlt hne
    · exact absurd hown hne
  · exact fun hmem => absurd (by simpa using hmem) (h.pin_notMem (by rw [hboot]; exact id))

theorem startInv_startAp {i r : Nat} (h : StartInv cfg as s) (hinv : Inv cfg s)
    (hboot : s.boot = .loop i) (hi : i < cfg.apicids.length) (hr : Mycpu cfg s cfg.bsp r)
    (hne : r ≠ i) (texts : List (List UInt8)) :
    StartInv cfg (as ++ [.startAp (cfg.apicid i)]) ((s.print texts).setBoot (.start i 0)) := by
  have hother := startAp_ne_bsp hinv hboot hi hr hne
  have hold := h.starts_eq
  have hcommands := h.commands_eq
  have hup := h.up
  rw [hboot] at hold hcommands hup
  refine h.boot_step (by simp) rfl rfl rfl rfl hi ?_ ?_ hup ?_
  · have happend : starts (as ++ [.startAp (cfg.apicid i)]) = starts as ++ [cfg.apicid i] := by
      simp [starts]
    rw [happend, hold]
    show _ = cfg.othersUpTo (i + 1)
    rw [Config.othersUpTo_succ hi, if_neg hother]
    rfl
  · have happend : commands (as ++ [.startAp (cfg.apicid i)]) = commands as := by simp [commands]
    rw [happend]
    exact hcommands
  · exact fun hmem => absurd (by simpa using hmem) (h.pin_notMem (by rw [hboot]; exact id))

/-- A command of `lapicstartap` reaches a processor that is not up yet, or
one that ignores it. -/
theorem icr_effect {i k : Nat} {cmd : IcrCommand} (hinv : Inv cfg s)
    (hstart : s.boot = .start i k) (hcmd : lapicstartap[k]? = some cmd) :
    cmd.effect (s.ap (cfg.apicid i)) = s.ap (cfg.apicid i) ∨
      (s.ap (cfg.apicid i)).rank ≤ 1 ∧ (cmd.effect (s.ap (cfg.apicid i))).rank ≤ 2 := by
  rcases hinv.target i k hstart with ⟨hi, _, hreset, hrunning⟩
  rcases k with _ | _ | _ | _ | k
  · have hoff : s.ap (cfg.apicid i) = .off := hinv.fresh i hi (by rw [hstart]; exact Nat.le_refl i)
    obtain rfl : IcrCommand.initAssert = cmd := Option.some.inj hcmd
    rw [hoff]
    exact Or.inr (by decide)
  · obtain rfl : IcrCommand.initDeassert = cmd := Option.some.inj hcmd
    exact Or.inl rfl
  · obtain rfl : IcrCommand.startup = cmd := Option.some.inj hcmd
    rw [hreset (Or.inr rfl)]
    exact Or.inr (by decide)
  · obtain rfl : IcrCommand.startup = cmd := Option.some.inj hcmd
    exact Or.inl (startup_effect_of_running (hrunning rfl))
  · exact absurd hcmd (by simp [lapicstartap])

/-- A step of `lapicstartap`, which leaves its target in the state `q`. -/
theorem StartInv.icr_step {i k : Nat} {cmd : IcrCommand} {p : BootPc} {q : ApPc}
    (h : StartInv cfg as s) (hi : i < cfg.apicids.length) (hne : cfg.apicid i ≠ cfg.bsp)
    (hstart : s.boot = .start i k)
    (hq : q = s.ap (cfg.apicid i) ∨ (s.ap (cfg.apicid i)).rank ≤ 1 ∧ q.rank ≤ 2)
    (hbegun : p.begun cfg = i + 1) (hfinished : p.finished cfg = i)
    (hcurrent : p.current cfg = (s.boot.current cfg) ++ [(cfg.apicid i, cmd)]) :
    StartInv cfg (as ++ [.icrCommand (cfg.apicid i) cmd])
      ((s.setAp (cfg.apicid i) q).setBoot p) := by
  have hrank : ∀ y n, 3 ≤ n →
      (n ≤ (update s.ap (cfg.apicid i) q y).rank ↔ n ≤ (s.ap y).rank) := by
    intro y n hn
    by_cases hy : y = cfg.apicid i
    · rw [hy, update_self]
      rcases hq with rfl | ⟨hold, hnew⟩
      · rfl
      · omega
    · rw [update_of_ne hy]
  have hhist : ∀ y, ApHist (as ++ [.icrCommand (cfg.apicid i) cmd]) y
      (update s.ap (cfg.apicid i) q y) := by
    intro y
    refine (h.hist y).move ?_ ?_ ?_ ?_
    · simp [hrank y 3 (Nat.le_refl 3)]
    · exact fun hn => Or.inl ((hrank y 4 (by omega)).1 hn)
    · exact fun hn => Or.inl ((hrank y 5 (by omega)).1 hn)
    · exact fun hn => Or.inl ((hrank y 7 (by omega)).1 hn)
  have hold := h.starts_eq
  have hcommands := h.commands_eq
  have hup := h.up
  have hpin := h.pin_notMem (by rw [hstart]; exact id)
  rw [hstart] at hold hcommands hup
  have hstarts : starts (as ++ [.icrCommand (cfg.apicid i) cmd]) = starts as := by simp [starts]
  have hstacks : stackOrder (as ++ [.icrCommand (cfg.apicid i) cmd]) = stackOrder as := by simp [stackOrder]
  have happend : commands (as ++ [.icrCommand (cfg.apicid i) cmd])
      = commands as ++ [(cfg.apicid i, cmd)] := by simp [commands]
  refine ⟨hhist, ?_, ?_, ?_, ?_, ?_, ?_, ?_, ?_, ?_, ?_⟩
  · intro y hy
    by_cases hyx : y = cfg.apicid i
    · exact Config.mem_others.2 ⟨hyx ▸ hne, i, hi, hyx.symm⟩
    · exact h.listed y fun hoff => hy ((update_of_ne hyx _ _).trans hoff)
  · show p.begun cfg ≤ cfg.apicids.length
    rw [hbegun]
    exact hi
  · show _ = cfg.othersUpTo (p.begun cfg)
    rw [hstarts, hold, hbegun]
    rfl
  · show _ = (cfg.othersUpTo (p.finished cfg)).flatMap commandsTo ++ p.current cfg
    rw [happend, hcommands, hfinished, hcurrent, hstart, List.append_assoc]
    rfl
  · intro j hj hnej
    change j < p.finished cfg at hj
    rw [hfinished] at hj
    exact hup j hj hnej
  · intro j hj
    exact ⟨(h.started j hj).1, (hrank _ 7 (by omega)).2 (h.started j hj).2⟩
  · rw [hstacks]
    exact h.stacktop
  · rw [hstacks]
    exact h.esp
  · rw [hstacks]
    exact h.stacks_nodup
  · exact fun hmem => absurd (by simpa using hmem) hpin

theorem startInv_icrCommand {i k : Nat} {cmd : IcrCommand} (h : StartInv cfg as s)
    (hinv : Inv cfg s) (hstart : s.boot = .start i k) (hcmd : lapicstartap[k]? = some cmd) :
    StartInv cfg (as ++ [.icrCommand (cfg.apicid i) cmd])
      ((s.setAp (cfg.apicid i) (cmd.effect (s.ap (cfg.apicid i)))).setBoot
        (if k + 1 < lapicstartap.length then .start i (k + 1) else .wait i)) := by
  rcases hinv.target i k hstart with ⟨hi, hne, _, _⟩
  have htake : (lapicstartap.take (k + 1)).map (cfg.apicid i, ·)
      = (lapicstartap.take k).map (cfg.apicid i, ·) ++ [(cfg.apicid i, cmd)] := by
    rw [List.take_add_one, hcmd, List.map_append]
    rfl
  have hcurrent : s.boot.current cfg = (lapicstartap.take k).map (cfg.apicid i, ·) := by
    rw [hstart]
    rfl
  refine h.icr_step hi hne hstart (icr_effect hinv hstart hcmd) ?_ ?_ ?_
  · split <;> rfl
  · split <;> rfl
  · rw [hcurrent, ← htake]
    split
    · rfl
    · rename_i hlast
      rw [List.take_of_length_le (Nat.le_of_not_lt hlast)]
      rfl

theorem startInv_poll {i : Nat} (h : StartInv cfg as s) (hinv : Inv cfg s)
    (hboot : s.boot = .wait i) :
    StartInv cfg (as ++ [.poll])
      (s.setBoot (if s.started i then .loop (i + 1) else .wait i)) := by
  have hplain : Action.poll.Plain := trivial
  cases hstarted : s.started i with
  | false =>
    refine h.boot_move hplain rfl rfl rfl rfl ?_ ?_ ?_ ?_ <;>
      simp [State.setBoot, hboot, BootPc.Pinned]
  | true =>
    rcases hinv.waiting i hboot with ⟨hi, hne, _⟩
    have hold := h.starts_eq
    have hcommands := h.commands_eq
    have hup := h.up
    rw [hboot] at hold hcommands hup
    refine h.boot_step (by simp) rfl rfl rfl rfl hi ?_ ?_ ?_ ?_
    · exact (hplain.append as).1.trans hold
    · rw [(hplain.append as).2.1, hcommands]
      show _ = (cfg.othersUpTo (i + 1)).flatMap commandsTo ++ []
      rw [Config.othersUpTo_succ hi, if_neg hne, List.flatMap_append, List.append_nil]
      simp [BootPc.finished, BootPc.current]
    · intro j hj hnej
      rcases Nat.lt_succ_iff_lt_or_eq.1 hj with hlt | rfl
      · exact hup j hlt hnej
      · exact hstarted
    · exact fun hmem => absurd (by simpa using hmem) (h.pin_notMem (by rw [hboot]; exact id))

theorem startInv_allStarted {i : Nat} (h : StartInv cfg as s) (hboot : s.boot = .loop i)
    (hi : cfg.apicids.length ≤ i) : StartInv cfg (as ++ [.allStarted]) (s.setBoot .x2apicMode) := by
  have hle := h.begun_le
  rw [hboot] at hle
  have hlast : i = cfg.apicids.length := Nat.le_antisymm hle hi
  have hplain : Action.allStarted.Plain := trivial
  refine h.boot_move hplain rfl rfl rfl rfl ?_ ?_ ?_ ?_ <;>
    simp [State.setBoot, hboot, BootPc.Pinned, BootPc.begun, BootPc.finished, BootPc.current, hlast]

/-- A new last element is at the last index only. -/
theorem concat_index {l : List Nat} {n : Nat} (hx : x ∉ l) (h : (l ++ [x])[n]? = some x) :
    n = l.length := by
  by_contra hne
  have hlt : n < l.length + 1 := by
    have := (List.getElem?_eq_some_iff.1 h).1
    simpa using this
  rw [List.getElem?_append_left (by omega)] at h
  exact hx (List.mem_of_getElem? h)

theorem concat_ne {l : List Nat} {n y : Nat} (hy : y ≠ x) :
    (l ++ [x])[n]? = some y ↔ l[n]? = some y := by
  rcases Nat.lt_or_ge n l.length with hn | hn
  · rw [List.getElem?_append_left hn]
  · rw [List.getElem?_append_right hn, List.getElem?_eq_none hn]
    rcases hk : n - l.length with _ | k <;> simp [Ne.symm hy]

theorem StartInv.stacks_subset (h : StartInv cfg as s) : stackOrder as ⊆ cfg.others := by
  intro y hy
  apply h.listed y
  intro hoff
  have hrank := (h.hist y).stack.1 hy
  rw [hoff] at hrank
  exact absurd hrank (by decide)

/-- Not every stack is taken while a processor is in front of its `xaddl`. -/
theorem StartInv.stacks_length (h : StartInv cfg as s) (hbsp : cfg.bsp ∈ cfg.apicids)
    (hx : s.ap x = .trampoline) : (stackOrder as).length + 1 < NCPU := by
  have hfresh : x ∉ stackOrder as := by
    rw [(h.hist x).stack, hx]
    decide
  have hnodup : (x :: stackOrder as).Nodup := List.nodup_cons.2 ⟨hfresh, h.stacks_nodup⟩
  have hsub : x :: stackOrder as ⊆ cfg.others :=
    List.cons_subset.2 ⟨h.listed x (by rw [hx]; simp), h.stacks_subset⟩
  have hle := (List.Nodup.subperm hnodup hsub).length_le
  have hlt := Config.others_length hbsp
  rw [List.length_cons] at hle
  omega

theorem startInv_stack (h : StartInv cfg as s) (hbsp : cfg.bsp ∈ cfg.apicids)
    (hx : s.ap x = .trampoline) :
    StartInv cfg (as ++ [.stack x]) ({ s with
      esp := update s.esp x (some s.smpStacktop)
      smpStacktop := (s.smpStacktop + 2 ^ 32 - 4096) % 2 ^ 32 }.setAp x .starting) := by
  have hlen : (stackOrder as).length + 1 < 64 := h.stacks_length hbsp hx
  have hstarts : starts (as ++ [.stack x]) = starts as := by simp [starts]
  have hcommands : commands (as ++ [.stack x]) = commands as := by simp [commands]
  have hstacks : stackOrder (as ++ [.stack x]) = stackOrder as ++ [x] := by simp [stackOrder]
  have hfresh : x ∉ stackOrder as := by
    rw [(h.hist x).stack, hx]
    decide
  have hmono : ∀ y, (s.ap y).rank ≤ (update s.ap x ApPc.starting y).rank := by
    intro y
    by_cases hy : y = x
    · rw [hy, update_self, hx]
      decide
    · rw [update_of_ne hy]
  refine ⟨?_, ?_, h.begun_le, ?_, ?_, ?_, ?_, ?_, ?_, ?_, ?_⟩
  · intro y
    show ApHist _ y (update s.ap x ApPc.starting y)
    by_cases hy : y = x
    · rw [hy, update_self]
      have hhist := h.hist x
      rw [hx] at hhist
      exact hhist.move (by simp [ApPc.rank]) (by simp [ApPc.rank]) (by simp [ApPc.rank])
        (by simp [ApPc.rank])
    · rw [update_of_ne hy]
      exact (h.hist y).other (by simpa using Ne.symm hy)
  · intro y hy
    by_cases hyx : y = x
    · rw [hyx]
      exact h.listed x (by rw [hx]; simp)
    · exact h.listed y fun hoff => hy ((update_of_ne hyx _ _).trans hoff)
  · rw [hstarts]
    exact h.starts_eq
  · rw [hcommands]
    exact h.commands_eq
  · exact h.up
  · exact fun j hj => ⟨(h.started j hj).1, (h.started j hj).2.trans (hmono _)⟩
  · show (s.smpStacktop + 2 ^ 32 - 4096) % 2 ^ 32 = _
    rw [hstacks, h.stacktop, List.length_append, List.length_singleton]
    omega
  · intro y e
    show update s.esp x (some s.smpStacktop) y = some e ↔ _
    rw [hstacks]
    by_cases hy : y = x
    · rw [hy, update_self, Option.some.injEq, h.stacktop]
      constructor
      · intro he
        exact ⟨(stackOrder as).length, List.getElem?_concat_length, he.symm⟩
      · rintro ⟨n, hn, he⟩
        rw [he, concat_index hfresh hn]
    · rw [update_of_ne hy, h.esp y e]
      exact exists_congr fun n => and_congr_left fun _ => (concat_ne hy).symm
  · rw [hstacks, List.nodup_append]
    refine ⟨h.stacks_nodup, by simp, ?_⟩
    intro y hy z hz
    rw [List.mem_singleton.1 hz]
    rintro rfl
    exact hfresh hy
  · exact fun hmem => h.pinned (by simpa using hmem)

/-- A processor that sets a flag sets its own. -/
theorem setStarted_index {r : Nat} (h : StartInv cfg as s) (hinv : Inv cfg s)
    (hx : s.ap x = .setStarted) (hr : Mycpu cfg s x r) :
    r < cfg.apicids.length ∧ cfg.apicid r = x := by
  rcases Config.mem_others.1 (h.listed x (by rw [hx]; simp)) with ⟨_, i, hi, hid⟩
  have hmode : s.mode x = .xapic := by
    rw [hinv.mode_of_running (by rw [hx]; trivial), hx]
    rfl
  rw [hr i (mycpu_eq hmode hi hid)]
  exact ⟨hi, hid⟩

/-- A step of an application processor from `p` to `q` that leaves the flags
and the stacks alone. -/
theorem StartInv.ap_move {p q : ApPc} (h : StartInv cfg as s) (hp : s.ap x = p) (hoff : p ≠ .off)
    (ha : a.Plain) (hpin : a ≠ .pin) (hboot : t.boot = s.boot) (hap : t.ap = update s.ap x q)
    (hstarted : t.started = s.started) (hstacktop : t.smpStacktop = s.smpStacktop)
    (hesp : t.esp = s.esp) (hrank : p.rank ≤ q.rank) (hstack : 3 ≤ p.rank)
    (hstarting : 4 ≤ q.rank → 4 ≤ p.rank ∨ a = .printStarting x)
    (henabling : 5 ≤ q.rank → 5 ≤ p.rank ∨ a = .printEnabling x)
    (hset : 7 ≤ q.rank → 7 ≤ p.rank) : StartInv cfg (as ++ [a]) t := by
  subst hp
  refine h.ap_step hoff ha hpin hboot hap ?_ hrank (fun i hi => ?_) (fun i hi => Or.inl ?_)
    hstacktop hesp
  · refine (h.hist x).move ?_ hstarting henabling fun hq => Or.inl (hset hq)
    exact ⟨fun _ => Or.inl hstack, fun _ => hstack.trans hrank⟩
  · rw [hstarted]
    exact hi
  · rw [← hstarted]
    exact hi

theorem startInv_setStarted {r : Nat} (h : StartInv cfg as s) (hinv : Inv cfg s)
    (hx : s.ap x = .setStarted) (hr : Mycpu cfg s x r) (texts : List (List UInt8)) :
    StartInv cfg (as ++ [.setStarted x])
      (({ s with started := update s.started r true }.print texts).setAp x .x2apicMode) := by
  rcases setStarted_index h hinv hx hr with ⟨hlt, hid⟩
  have hplain : (Action.setStarted x).Plain := trivial
  have hhist := h.hist x
  rw [hx] at hhist
  refine h.ap_step (by rw [hx]; simp) hplain (by simp) rfl rfl
    (hhist.move (by simp [ApPc.rank]) (by simp [ApPc.rank]) (by simp [ApPc.rank])
      (by simp [ApPc.rank])) (by rw [hx]; decide) ?_ ?_ rfl rfl
  · intro i hi
    show update s.started r true i = true
    rw [update_apply, hi, ite_self]
  · intro i hi
    change update s.started r true i = true at hi
    by_cases hir : i = r
    · rw [hir]
      exact Or.inr ⟨hlt, hid, by decide⟩
    · rw [update_of_ne hir] at hi
      exact Or.inl hi

theorem startInv_step (h : StartInv cfg as s) (hinv : Inv cfg s) (hbsp : cfg.bsp ∈ cfg.apicids)
    (hstep : Step cfg s a t) : StartInv cfg (as ++ [a]) t := by
  cases hstep with
  | bootEnable hb | bootSpurious hb | bootOps hb | pin hb | onCpu i hb | clear hb | loadIcr hb
  | sendIpi hb =>
    refine h.boot_move trivial rfl rfl rfl rfl ?_ ?_ ?_ ?_ <;>
      simp [State.setBoot, hb, BootPc.begun, BootPc.finished, BootPc.current, BootPc.Pinned]
  | bootMode hb =>
    rcases afterMode_cases cfg BootPc.x2apicOps .harness with ⟨_, hpc, _⟩ | ⟨_, hpc, _⟩ <;>
      refine h.boot_move trivial rfl rfl rfl rfl ?_ ?_ ?_ ?_ <;>
        simp [State.setBoot, hb, hpc, BootPc.begun, BootPc.finished, BootPc.current, BootPc.Pinned]
  | @readDone x hb =>
    refine h.boot_move trivial rfl rfl rfl rfl ?_ ?_ ?_ ?_ <;> cases s.ipiDone <;>
      simp [State.setBoot, hb, BootPc.begun, BootPc.finished, BootPc.current, BootPc.Pinned]
  | skip hb hi hr => exact startInv_skip h hinv hbsp hb hi hr _
  | startAp hb hi hr hne => exact startInv_startAp h hinv hb hi hr hne _
  | icrCommand hb hcmd => exact startInv_icrCommand h hinv hb hcmd
  | poll hb => exact startInv_poll h hinv hb
  | allStarted hb hi => exact startInv_allStarted h hb hi
  | stack ha => exact startInv_stack h hbsp ha
  | setStarted ha hr => exact startInv_setStarted h hinv ha hr _
  | @printStarting x r ha hr =>
    refine h.ap_move (x := x) (q := .enableApic) ha (by simp) trivial (by simp) rfl rfl rfl rfl rfl
      ?_ ?_ ?_ ?_ ?_ <;> simp [ApPc.rank]
  | @printEnabling x ha =>
    refine h.ap_move (x := x) (q := .spurious) ha (by simp) trivial (by simp) rfl rfl rfl rfl rfl
      ?_ ?_ ?_ ?_ ?_ <;> simp [ApPc.rank]
  | @apMode x ha =>
    rcases afterMode_cases cfg ApPc.x2apicOps .sti with ⟨_, hpc, _⟩ | ⟨_, hpc, _⟩ <;>
      refine h.ap_move (x := x) ha (by simp) trivial (by simp) rfl rfl rfl rfl rfl
        ?_ ?_ ?_ ?_ ?_ <;> simp [ApPc.rank, hpc]
  | @spurious x ha | @apOps x ha | @sti x ha | @deliver x ha | @store x ha | @loadEoi x ha
  | @eoi x _ ha | @iret x ha =>
    refine h.ap_move (x := x) ha (by simp) trivial (by simp) rfl rfl rfl rfl rfl
      ?_ ?_ ?_ ?_ ?_ <;> simp [ApPc.rank]

end Steps

theorem startInv_run {cfg : Config} {as : List Action} {s : State} (hbsp : cfg.bsp ∈ cfg.apicids)
    (hrun : Run (smp cfg) as s) : StartInv cfg as s := by
  have hboth := hrun.invariant (fun as s => Inv cfg s ∧ StartInv cfg as s)
    (fun _ h => ⟨inv_init h, startInv_init h⟩)
    fun _ _ _ _ h hstep => ⟨inv_step h.1 hstep, startInv_step h.2 h.1 hbsp hstep⟩
  exact hboth.2

/-! ## The protocol -/

section Protocol

variable {cfg : Config} {as : List Action} {s t : State} {a : Action} {x : Nat}

theorem BootPc.finished_of_returned {p : BootPc} (hp : p.Returned) :
    p.begun cfg = cfg.apicids.length ∧ p.finished cfg = cfg.apicids.length ∧
      p.current cfg = [] := by
  cases p <;> first | exact hp.elim | exact ⟨rfl, rfl, rfl⟩

theorem BootPc.returned_of_pinned {p : BootPc} (hp : p.Pinned) : p.Returned := by
  cases p <;> first | exact hp.elim | trivial

theorem Config.othersUpTo_prefix (cfg : Config) (n : Nat) : cfg.othersUpTo n <+: cfg.others :=
  (List.take_prefix n cfg.apicids).filter _

theorem flatMap_isPrefix {l l' : List Nat} (h : l <+: l') :
    l.flatMap commandsTo <+: l'.flatMap commandsTo := by
  rcases h with ⟨r, rfl⟩
  rw [List.flatMap_append]
  exact List.prefix_append _ _

theorem StartInv.commands_prefix (h : StartInv cfg as s) (hinv : Inv cfg s) :
    commands as <+: cfg.others.flatMap commandsTo := by
  -- the call that is under way is the one for the next entry
  have hnext : ∀ i l, i < cfg.apicids.length → cfg.apicid i ≠ cfg.bsp →
      l <+: commandsTo (cfg.apicid i) →
      (cfg.othersUpTo i).flatMap commandsTo ++ l <+: cfg.others.flatMap commandsTo := by
    intro i l hi hne hl
    refine List.IsPrefix.trans ?_ (flatMap_isPrefix (cfg.othersUpTo_prefix (i + 1)))
    rw [Config.othersUpTo_succ hi, if_neg hne, List.flatMap_append, List.flatMap_singleton]
    exact (List.prefix_append_right_inj _).2 hl
  have hnone : ∀ n, (cfg.othersUpTo n).flatMap commandsTo ++ [] <+: cfg.others.flatMap commandsTo := by
    intro n
    rw [List.append_nil]
    exact flatMap_isPrefix (cfg.othersUpTo_prefix n)
  rw [h.commands_eq]
  cases hboot : s.boot with
  | start i k =>
    rcases hinv.target i k hboot with ⟨hi, hne, _, _⟩
    exact hnext i _ hi hne ((List.take_prefix k lapicstartap).map _)
  | wait i =>
    rcases hinv.waiting i hboot with ⟨hi, hne, _⟩
    exact hnext i _ hi hne (List.prefix_refl _)
  | _ => exact hnone _

/-- Every processor that the loop is done with is up. -/
theorem StartInv.rank_of_returned (h : StartInv cfg as s) (hret : s.boot.Returned)
    (hx : x ∈ cfg.others) : 7 ≤ (s.ap x).rank := by
  rcases Config.mem_others.1 hx with ⟨hne, i, hi, rfl⟩
  refine (h.started i (h.up i ?_ hne)).2
  rw [(BootPc.finished_of_returned hret).2.1]
  exact hi

/-- A processor that runs is one that the loop has come to, and behind
`startothers` it has printed its texts. -/
theorem StartInv.rank_of_running (h : StartInv cfg as s) (hret : s.boot.Returned)
    (hx : s.ap x ≠ .off) : 7 ≤ (s.ap x).rank :=
  h.rank_of_returned hret (h.listed x hx)

/-- Behind `startothers` only the boot processor prints. -/
theorem StartInv.out_of_returned (h : StartInv cfg as s) (hret : s.boot.Returned)
    (hstep : Step cfg s a t) : a = .pin ∨ t.out = s.out := by
  have hup : ∀ y, s.ap y ≠ .off → 7 ≤ (s.ap y).rank := fun y => h.rank_of_running hret
  cases hstep with
  | pin hb => exact Or.inl rfl
  | bootEnable hb | skip hb | startAp hb =>
    rw [hb] at hret
    exact hret.elim
  | @printStarting y r ha | @printEnabling y ha | @setStarted y r ha =>
    have := hup y (by rw [ha]; simp)
    rw [ha] at this
    exact absurd this (by decide)
  | _ => exact Or.inr rfl

/-- Where the stack of a processor ends. -/
theorem StartInv.esp_index {e : Nat} (h : StartInv cfg as s) (hbsp : cfg.bsp ∈ cfg.apicids)
    (hx : s.esp x = some e) : ∃ n, n < 63 ∧ (stackOrder as)[n]? = some x ∧ e = 0xa0000 - 4096 * n := by
  rcases (h.esp x e).1 hx with ⟨n, hn, he⟩
  have hnlt := (List.getElem?_eq_some_iff.1 hn).1
  have hle := (List.Nodup.subperm h.stacks_nodup h.stacks_subset).length_le
  have hlt : cfg.others.length < 64 := Config.others_length hbsp
  exact ⟨n, by omega, hn, he⟩

/-- The stacks of two processors, which end at `e` and `e'`. -/
theorem StartInv.stacks_disjoint {y e e' : Nat} (h : StartInv cfg as s)
    (hbsp : cfg.bsp ∈ cfg.apicids) (hne : x ≠ y) (hx : s.esp x = some e)
    (hy : s.esp y = some e') : e + 4096 ≤ e' ∨ e' + 4096 ≤ e := by
  rcases h.esp_index hbsp hx with ⟨n, hn63, hn, rfl⟩
  rcases h.esp_index hbsp hy with ⟨m, hm63, hm, rfl⟩
  have hnm : n ≠ m := by
    rintro rfl
    exact hne (Option.some.inj (hn.symm.trans hm))
  omega

/-- Only a processor that sets its own flag changes one. -/
theorem StartInv.flag_changed {i : Nat} (h : StartInv cfg as s) (hinv : Inv cfg s)
    (hstep : Step cfg s a t) (hi : t.started i ≠ s.started i) :
    i < cfg.apicids.length ∧ a = .setStarted (cfg.apicid i) := by
  cases hstep with
  | @setStarted y r ha hr =>
    rcases setStarted_index h hinv ha hr with ⟨hlt, hid⟩
    have hir : i = r := by
      by_contra hne
      exact hi (update_of_ne hne _ _)
    rw [hir, hid]
    exact ⟨hlt, rfl⟩
  | _ => exact absurd rfl hi

/-- The processors that were started before the next call. -/
theorem StartInv.waits {y i : Nat} (h : StartInv cfg as s) (hstep : Step cfg s (.startAp y) t)
    (hi : i < cfg.apicids.length) (hmem : cfg.apicid i ∈ starts as) : s.started i = true := by
  generalize hact : Action.startAp y = a at hstep
  cases hstep with
  | @startAp n r hb hn hr hne =>
    rw [h.starts_eq, hb] at hmem
    rcases List.mem_filter.1 hmem with ⟨htake, hbsp⟩
    rcases List.mem_take_iff_getElem.1 htake with ⟨j, hj, hid⟩
    have hjn : j < n := Nat.lt_of_lt_of_le hj (Nat.min_le_left n _)
    have hji : j = i := by
      refine Config.apicid_inj (by omega) hi ?_
      rw [Config.apicid_eq (by omega), hid]
    refine h.up i ?_ (by simpa using hbsp)
    rw [hb, ← hji]
    exact hjn
  | _ => exact absurd hact (by simp)

end Protocol

/-- What the boot processor and the application processors guarantee to each
other in a run `as` that has come to `s`. -/
structure StartupContract (cfg : Config) (as : List Action) (s : State) : Prop where
  /-- One call of `lapicstartap` for each other processor, in table order. -/
  starts_prefix : starts as <+: cfg.others
  starts_nodup : (starts as).Nodup
  commands_prefix : commands as <+: cfg.others.flatMap commandsTo
  bsp_notMem : cfg.bsp ∉ starts as ∧ ∀ cmd, (cfg.bsp, cmd) ∉ commands as
  /-- The next call waits for the flags of the processors before. -/
  waits : ∀ y t, Step cfg s (.startAp y) t →
    ∀ i, i < cfg.apicids.length → cfg.apicid i ∈ starts as → s.started i = true
  /-- A flag is stored by the processor that it belongs to, and by no other. -/
  own_flag : ∀ x r, s.ap x = .setStarted → Mycpu cfg s x r →
    r < cfg.apicids.length ∧ cfg.apicid r = x
  flag_changed : ∀ a t i, Step cfg s a t → t.started i ≠ s.started i →
    i < cfg.apicids.length ∧ a = .setStarted (cfg.apicid i)
  /-- A processor has its stack before it goes on from the trampoline. -/
  has_stack : ∀ x, 3 ≤ (s.ap x).rank → ∃ e, s.esp x = some e
  stacks_disjoint : ∀ x y e e', x ≠ y → s.esp x = some e → s.esp y = some e' →
    e + 4096 ≤ e' ∨ e' + 4096 ≤ e
  /-- The stacks are above the page of the trampoline. -/
  stack_above : ∀ x e, s.esp x = some e → 4096 ≤ e - 4096 ∧ e ≤ 0xa0000
  /-- Behind `startothers` every other processor was started, has set its
  flag and has printed. -/
  all_started : s.boot.Returned → starts as = cfg.others ∧
    commands as = cfg.others.flatMap commandsTo ∧
    ∀ x ∈ cfg.others, .setStarted x ∈ as ∧ .printStarting x ∈ as ∧ .printEnabling x ∈ as
  /-- From there on the only text is the one of `harness_main`. -/
  quiet : s.boot.Returned → ∀ a t, Step cfg s a t → a = .pin ∨ t.out = s.out
  pin_returned : ∀ t, Step cfg s .pin t → s.boot.Returned ∧ t.out = s.out ++ [pinText]
  quiet_after_pin : .pin ∈ as → ∀ a t, Step cfg s a t → t.out = s.out

/-- The start-up protocol, for every table that lists the boot processor and
every interleaving of the processors. -/
theorem startup_protocol {cfg : Config} {as : List Action} {s : State}
    (hbsp : cfg.bsp ∈ cfg.apicids) (hrun : Run (smp cfg) as s) : StartupContract cfg as s := by
  have hinv := inv_run hrun
  have h := startInv_run hbsp hrun
  have hstarts : starts as <+: cfg.others := by
    rw [h.starts_eq]
    exact cfg.othersUpTo_prefix _
  have hcommands := h.commands_prefix hinv
  have hother : ∀ x ∈ cfg.others, x ≠ cfg.bsp := fun x hx => (Config.mem_others.1 hx).1
  refine ⟨hstarts, ?_, hcommands, ⟨?_, ?_⟩, ?_, ?_, ?_, ?_, ?_, ?_, ?_, ?_, ?_, ?_⟩
  · exact List.Nodup.sublist hstarts.sublist cfg.others_nodup
  · exact fun hmem => hother _ (hstarts.subset hmem) rfl
  · intro cmd hmem
    rcases List.mem_flatMap.1 (hcommands.subset hmem) with ⟨x, hx, hcmd⟩
    rcases List.mem_map.1 hcmd with ⟨_, _, heq⟩
    exact hother x hx (Prod.mk.inj heq).1
  · exact fun y t hstep i hi hmem => h.waits hstep hi hmem
  · exact fun x r hx hr => setStarted_index h hinv hx hr
  · exact fun a t i hstep hi => h.flag_changed hinv hstep hi
  · intro x hx
    rcases List.mem_iff_getElem?.1 ((h.hist x).stack.2 hx) with ⟨n, hn⟩
    exact ⟨_, (h.esp x _).2 ⟨n, hn, rfl⟩⟩
  · exact fun x y e e' hne hx hy => h.stacks_disjoint hbsp hne hx hy
  · intro x e hx
    rcases h.esp_index hbsp hx with ⟨n, hn, _, rfl⟩
    omega
  · intro hret
    rcases BootPc.finished_of_returned hret with ⟨hbegun, hfinished, hcurrent⟩
    refine ⟨?_, ?_, fun x hx => ?_⟩
    · rw [h.starts_eq, hbegun, Config.othersUpTo_length]
    · rw [h.commands_eq, hfinished, hcurrent, Config.othersUpTo_length, List.append_nil]
    · have hrank := h.rank_of_returned hret hx
      exact ⟨(h.hist x).started hrank, (h.hist x).starting (by omega), (h.hist x).enabling (by omega)⟩
  · exact fun hret a t hstep => h.out_of_returned hret hstep
  · intro t hstep
    cases hstep with
    | pin hb =>
      rw [hb]
      exact ⟨trivial, rfl⟩
  · intro hmem a t hstep
    have hpinned := h.pinned hmem
    rcases h.out_of_returned (BootPc.returned_of_pinned hpinned) hstep with rfl | hout
    · -- `harness_main` prints the line once
      cases hstep with
      | pin hb =>
        rw [hb] at hpinned
        exact hpinned.elim
    · exact hout

theorem startup_protocol_twoCpus : ∃ as s, Run (smp twoCpus) as s ∧ s.boot = .ready ∧
    s.ap 1 = .halted ∧ StartupContract twoCpus as s := by
  obtain ⟨as, s, hrun, hboot, hhalted, _⟩ := twoCpus_ready []
  exact ⟨as, s, boots_run hrun, hboot, hhalted, startup_protocol (by decide) (boots_run hrun)⟩

end HyperBench.Smp
