import HyperBench.Smp
import Mathlib.Data.List.Nodup

/-!
# The mode of the local APICs

`apic_ops` is one variable for all processors, but the mode of a local APIC
belongs to its processor.  `Inv` ties the mode of each processor to its
program counter, and says that a processor which may go through `apic_ops`
finds in it the functions for its own mode.

An INIT would send a processor that has left xAPIC mode through `mpenter`
again, so the invariant also says how far `startothers` has come: every
processor behind its loop variable is still off.
-/

namespace HyperBench.Smp

open Transition Function

/-! ## The table -/

namespace Config

variable {cfg : Config} {i j : Nat}

theorem apicid_eq (hi : i < cfg.apicids.length) : cfg.apicid i = cfg.apicids[i] := by
  simp [apicid, hi]

theorem apicid_inj (hi : i < cfg.apicids.length) (hj : j < cfg.apicids.length)
    (h : cfg.apicid i = cfg.apicid j) : i = j := by
  rw [apicid_eq hi, apicid_eq hj] at h
  exact (List.Nodup.getElem_inj_iff cfg.nodup).1 h

end Config

/-- In xAPIC mode a processor of the table finds its own entry. -/
theorem mycpu_eq {cfg : Config} {s : State} {x i : Nat} (hmode : s.mode x = .xapic)
    (hi : i < cfg.apicids.length) (hx : cfg.apicid i = x) : mycpu cfg s x = some i := by
  rw [Config.apicid_eq hi] at hx
  have hid : lapicid s x = x := by
    unfold lapicid
    rw [hmode]
  rw [mycpu, hid, List.findIdx?_eq_some_iff_getElem]
  refine ⟨hi, by simpa using hx, ?_⟩
  intro j hj
  have hne : cfg.apicids[j] ≠ x := by
    intro he
    have := (List.Nodup.getElem_inj_iff cfg.nodup).1 (he.trans hx.symm)
    omega
  simpa using hne

theorem Mycpu.of_mode {cfg : Config} {s : State} {x i : Nat} (hmode : s.mode x = .xapic)
    (hi : i < cfg.apicids.length) (hx : cfg.apicid i = x) : Mycpu cfg s x i := by
  intro j hj
  rw [mycpu_eq hmode hi hx] at hj
  exact Option.some.inj hj

/-! ## Program counters -/

namespace BootPc

/-- The mode of the boot processor. -/
def mode (cfg : Config) : BootPc → Mode
  | enableApic | spurious | loop _ | start _ _ | wait _ | x2apicMode => .xapic
  | _ => cfg.final

/-- Behind `enable_x2apic`. -/
def Switched : BootPc → Prop
  | enableApic | spurious | loop _ | start _ _ | wait _ | x2apicMode | x2apicOps => False
  | _ => True

/-- The first entry of the table that no INIT was sent to. -/
def next (cfg : Config) : BootPc → Nat
  | enableApic | spurious => 0
  | loop i | start i 0 => i
  | start i (_ + 1) | wait i => i + 1
  | _ => cfg.apicids.length

end BootPc

namespace ApPc

/-- The mode of an application processor. -/
def mode (cfg : Config) : ApPc → Mode
  | off | waitSipi | trampoline | starting | enableApic | spurious | setStarted | x2apicMode =>
    .xapic
  | _ => cfg.final

/-- Behind `mpenter`. -/
def Switched : ApPc → Prop
  | sti | halted | store | load | eoi _ | iret => True
  | _ => False

/-- Behind its start-up interrupt. -/
def Running : ApPc → Prop
  | off | waitSipi => False
  | _ => True

end ApPc

/-! ## The invariant -/

structure Inv (cfg : Config) (s : State) : Prop where
  bspOff : s.ap cfg.bsp = .off
  bootMode : s.mode cfg.bsp = s.boot.mode cfg
  apMode : ∀ x, x ≠ cfg.bsp → s.mode x = (s.ap x).mode cfg
  opsNone : cfg.x2apic = false → s.apicOps = .xapic
  bootOps : s.boot.Switched → s.apicOps = cfg.final
  apOps : ∀ x, (s.ap x).Switched → s.apicOps = cfg.final
  bootSwitch : s.boot = .x2apicOps → cfg.x2apic = true
  apSwitch : ∀ x, s.ap x = .x2apicOps → cfg.x2apic = true
  bootLoaded : ∀ x ops, s.boot = .icr x ops → ops = cfg.final
  apLoaded : ∀ x ops, s.ap x = .eoi ops → ops = cfg.final
  /-- `startothers` has not come to these processors yet. -/
  fresh : ∀ i, i < cfg.apicids.length → s.boot.next cfg ≤ i → s.ap (cfg.apicid i) = .off
  /-- The processor that `lapicstartap` is called for. -/
  target : ∀ i k, s.boot = .start i k → i < cfg.apicids.length ∧ cfg.apicid i ≠ cfg.bsp ∧
    (k = 1 ∨ k = 2 → s.ap (cfg.apicid i) = .waitSipi) ∧ (k = 3 → (s.ap (cfg.apicid i)).Running)
  waiting : ∀ i, s.boot = .wait i → i < cfg.apicids.length ∧ cfg.apicid i ≠ cfg.bsp ∧
    (s.ap (cfg.apicid i)).Running

theorem inv_init {cfg : Config} {s : State} (h : (smp cfg).Init s) : Inv cfg s := by
  rcases h with ⟨hboot, hops, _, hoff⟩
  have hap : ∀ x, s.ap x = .off := fun x => (hoff x).1
  have hmode : ∀ x, s.mode x = .xapic := fun x => (hoff x).2.1
  constructor <;> simp [hboot, hap, hmode, hops, BootPc.mode, ApPc.mode, BootPc.Switched,
    ApPc.Switched]

section Steps

variable {cfg : Config} {s t : State} {x : Nat}

/-- A step of a running application processor from one program counter to
the next. -/
theorem Inv.ap_step {q : ApPc} (h : Inv cfg s) (hp : (s.ap x).Running) (hq : q.Running)
    (hboot : t.boot = s.boot) (hap : t.ap = update s.ap x q)
    (hmode : t.mode = update s.mode x (q.mode cfg))
    (hops : s.apicOps = cfg.final → t.apicOps = cfg.final)
    (hnone : cfg.x2apic = false → t.apicOps = .xapic)
    (hswitched : q.Switched → t.apicOps = cfg.final)
    (hswitch : q = .x2apicOps → cfg.x2apic = true)
    (hloaded : ∀ ops, q = .eoi ops → ops = cfg.final) : Inv cfg t := by
  have hx : x ≠ cfg.bsp := by
    intro hx
    rw [hx, h.bspOff] at hp
    exact hp
  have hoff : ∀ y, s.ap y = .off → t.ap y = .off := by
    intro y hy
    rw [hap, update_of_ne, hy]
    rintro rfl
    rw [hy] at hp
    exact hp
  have hrun : ∀ y, (s.ap y).Running → (t.ap y).Running := by
    intro y hy
    rw [hap]
    by_cases hyx : y = x
    · rw [hyx, update_self]
      exact hq
    · rw [update_of_ne hyx]
      exact hy
  have hcases : ∀ y, (y = x ∧ t.ap y = q) ∨ t.ap y = s.ap y := by
    intro y
    rw [hap]
    by_cases hyx : y = x
    · exact Or.inl ⟨hyx, by rw [hyx, update_self]⟩
    · exact Or.inr (update_of_ne hyx _ _)
  refine ⟨hoff _ h.bspOff, ?_, ?_, hnone, ?_, ?_, ?_, ?_, ?_, ?_, ?_, ?_, ?_⟩
  · rw [hmode, update_of_ne hx.symm, hboot]
    exact h.bootMode
  · intro y hy
    rw [hmode, hap]
    by_cases hyx : y = x
    · rw [hyx, update_self, update_self]
    · rw [update_of_ne hyx, update_of_ne hyx]
      exact h.apMode y hy
  · intro hb
    rw [hboot] at hb
    exact hops (h.bootOps hb)
  · intro y hy
    rcases hcases y with ⟨_, hyq⟩ | hys
    · exact hswitched (hyq ▸ hy)
    · exact hops (h.apOps y (hys ▸ hy))
  · intro hb
    exact h.bootSwitch (hboot ▸ hb)
  · intro y hy
    rcases hcases y with ⟨_, hyq⟩ | hys
    · exact hswitch (hyq ▸ hy)
    · exact h.apSwitch y (hys ▸ hy)
  · intro y ops hb
    exact h.bootLoaded y ops (hboot ▸ hb)
  · intro y ops hy
    rcases hcases y with ⟨_, hyq⟩ | hys
    · exact hloaded ops (hyq ▸ hy)
    · exact h.apLoaded y ops (hys ▸ hy)
  · intro i hi hnext
    rw [hboot] at hnext
    exact hoff _ (h.fresh i hi hnext)
  · intro i k hb
    rw [hboot] at hb
    rcases h.target i k hb with ⟨hi, hne, hreset, hrunning⟩
    refine ⟨hi, hne, fun hk => ?_, fun hk => hrun _ (hrunning hk)⟩
    rcases hcases (cfg.apicid i) with ⟨hix, _⟩ | hys
    · -- a processor that waits for its start-up interrupt does not run
      have hwait := hreset hk
      rw [hix] at hwait
      rw [hwait] at hp
      exact hp.elim
    · rw [hys]
      exact hreset hk
  · intro i hb
    rw [hboot] at hb
    rcases h.waiting i hb with ⟨hi, hne, hrunning⟩
    exact ⟨hi, hne, hrun _ hrunning⟩

/-- A step of the boot processor that leaves the application processors
alone. -/
theorem Inv.boot_step {p : BootPc} (h : Inv cfg s) (hboot : t.boot = p) (hap : t.ap = s.ap)
    (hmode : t.mode = update s.mode cfg.bsp (p.mode cfg))
    (hops : s.apicOps = cfg.final → t.apicOps = cfg.final)
    (hnone : cfg.x2apic = false → t.apicOps = .xapic)
    (hswitched : p.Switched → t.apicOps = cfg.final)
    (hswitch : p = .x2apicOps → cfg.x2apic = true)
    (hloaded : ∀ x ops, p = .icr x ops → ops = cfg.final)
    (hnext : s.boot.next cfg ≤ p.next cfg ∨ cfg.apicids.length ≤ p.next cfg)
    (htarget : ∀ i k, p = .start i k → k = 0 ∧ i < cfg.apicids.length ∧ cfg.apicid i ≠ cfg.bsp)
    (hwaiting : ∀ i, p = .wait i → s.boot = .wait i) : Inv cfg t := by
  refine ⟨?_, ?_, ?_, hnone, ?_, ?_, ?_, ?_, ?_, ?_, ?_, ?_, ?_⟩
  · rw [hap]
    exact h.bspOff
  · rw [hmode, hboot, update_self]
  · intro y hy
    rw [hmode, hap, update_of_ne hy]
    exact h.apMode y hy
  · rw [hboot]
    exact hswitched
  · intro y hy
    rw [hap] at hy
    exact hops (h.apOps y hy)
  · rw [hboot]
    exact hswitch
  · rw [hap]
    exact h.apSwitch
  · rw [hboot]
    exact hloaded
  · rw [hap]
    exact h.apLoaded
  · intro i hi hi'
    rw [hboot] at hi'
    rw [hap]
    exact h.fresh i hi (by omega)
  · intro i k hb
    rcases htarget i k (hboot ▸ hb) with ⟨rfl, hi, hne⟩
    exact ⟨hi, hne, by simp, by simp⟩
  · intro i hb
    rw [hap]
    exact h.waiting i (hwaiting i (hboot ▸ hb))

/-- A state that a command does not lead to was there before it. -/
theorem ap_of_command {ap : Nat → ApPc} {x y : Nat} {q : ApPc} {P : ApPc → Prop}
    (hq : q = ap x ∨ q = .waitSipi ∨ q = .trampoline) (hwait : ¬ P .waitSipi)
    (htrampoline : ¬ P .trampoline) (h : P (update ap x q y)) : P (ap y) := by
  by_cases hy : y = x
  · rw [hy, update_self] at h
    rw [hy]
    rcases hq with rfl | rfl | rfl
    · exact h
    · exact absurd h hwait
    · exact absurd h htrampoline
  · rwa [update_of_ne hy] at h

/-- A command of `lapicstartap`, which leaves its target in the state `q`. -/
theorem Inv.icr_step {i k : Nat} {pc : BootPc} {q : ApPc} (h : Inv cfg s)
    (hstart : s.boot = .start i k)
    (hpc : pc = .start i (k + 1) ∧ (k = 0 ∨ k = 1 → q = .waitSipi) ∧ (k = 2 → q.Running) ∨
      pc = .wait i ∧ q.Running)
    (hq : q = s.ap (cfg.apicid i) ∨
      (q = .waitSipi ∨ q = .trampoline) ∧ (s.ap (cfg.apicid i)).mode cfg = .xapic) :
    Inv cfg ((s.setAp (cfg.apicid i) q).setBoot pc) := by
  rcases h.target i k hstart with ⟨hi, hne, _, _⟩
  have hmode : s.mode cfg.bsp = .xapic := by
    rw [h.bootMode, hstart]
    rfl
  have hbefore : pc.mode cfg = .xapic ∧ ¬ pc.Switched ∧ pc ≠ .x2apicOps ∧ pc.next cfg = i + 1 ∧
      ∀ x ops, pc ≠ .icr x ops := by
    rcases hpc with ⟨rfl, _⟩ | ⟨rfl, _⟩ <;> simp [BootPc.mode, BootPc.Switched, BootPc.next]
  have hcommand : q = s.ap (cfg.apicid i) ∨ q = .waitSipi ∨ q = .trampoline := hq.imp_right And.left
  refine ⟨?_, ?_, ?_, h.opsNone, ?_, ?_, ?_, ?_, ?_, ?_, ?_, ?_, ?_⟩
  · exact (update_of_ne hne.symm _ _).trans h.bspOff
  · exact hmode.trans hbefore.1.symm
  · intro y hy
    show s.mode y = (update s.ap (cfg.apicid i) q y).mode cfg
    rw [h.apMode y hy]
    by_cases hyx : y = cfg.apicid i
    · rw [hyx, update_self]
      rcases hq with rfl | ⟨rfl | rfl, hx⟩
      · rfl
      · exact hx
      · exact hx
    · rw [update_of_ne hyx]
  · exact fun hsw => absurd hsw hbefore.2.1
  · intro y hy
    exact h.apOps y (ap_of_command hcommand id id hy)
  · exact fun hb => absurd hb hbefore.2.2.1
  · intro y hy
    exact h.apSwitch y (ap_of_command (P := (· = .x2apicOps)) hcommand (by simp) (by simp) hy)
  · exact fun y ops hb => absurd hb (hbefore.2.2.2.2 y ops)
  · intro y ops hy
    exact h.apLoaded y ops (ap_of_command (P := (· = .eoi ops)) hcommand (by simp) (by simp) hy)
  · intro j hj hnext
    change pc.next cfg ≤ j at hnext
    rw [hbefore.2.2.2.1] at hnext
    have hji : cfg.apicid j ≠ cfg.apicid i := by
      intro he
      have := Config.apicid_inj hj hi he
      omega
    refine (update_of_ne hji _ _).trans (h.fresh j hj ?_)
    rw [hstart]
    cases k with
    | zero =>
      show i ≤ j
      omega
    | succ k => exact hnext
  · intro j l hb
    change pc = .start j l at hb
    rcases hpc with ⟨rfl, hwait, hrun⟩ | ⟨rfl, _⟩
    · rw [BootPc.start.injEq] at hb
      rcases hb with ⟨rfl, rfl⟩
      refine ⟨hi, hne, fun hk => ?_, fun hk => ?_⟩
      · exact (update_self _ _ _).trans (hwait (by omega))
      · show (update s.ap (cfg.apicid i) q (cfg.apicid i)).Running
        rw [update_self]
        exact hrun (by omega)
    · exact absurd hb (by simp)
  · intro j hb
    change pc = .wait j at hb
    rcases hpc with ⟨rfl, _⟩ | ⟨rfl, hrun⟩
    · exact absurd hb (by simp)
    · rw [BootPc.wait.injEq] at hb
      rw [← hb]
      refine ⟨hi, hne, ?_⟩
      show (update s.ap (cfg.apicid i) q (cfg.apicid i)).Running
      rw [update_self]
      exact hrun

/-- A running processor ignores a start-up interrupt. -/
theorem startup_effect_of_running {pc : ApPc} (h : pc.Running) :
    IcrCommand.startup.effect pc = pc := by
  cases pc <;> first | exact h.elim | rfl

theorem inv_icrCommand {i k : Nat} {cmd : IcrCommand} (h : Inv cfg s)
    (hstart : s.boot = .start i k) (hcmd : lapicstartap[k]? = some cmd) :
    Inv cfg ((s.setAp (cfg.apicid i) (cmd.effect (s.ap (cfg.apicid i)))).setBoot
      (if k + 1 < lapicstartap.length then .start i (k + 1) else .wait i)) := by
  rcases h.target i k hstart with ⟨hi, _, hreset, hrunning⟩
  have hlen : lapicstartap.length = 4 := rfl
  rcases k with _ | _ | _ | _ | k
  · -- INIT: the target was off
    have hoff : s.ap (cfg.apicid i) = .off := h.fresh i hi (by rw [hstart]; exact Nat.le_refl i)
    obtain rfl : IcrCommand.initAssert = cmd := Option.some.inj hcmd
    refine h.icr_step hstart (Or.inl ⟨rfl, fun _ => rfl, by simp⟩) (Or.inr ⟨Or.inl rfl, ?_⟩)
    rw [hoff]
    rfl
  · obtain rfl : IcrCommand.initDeassert = cmd := Option.some.inj hcmd
    exact h.icr_step hstart (Or.inl ⟨rfl, fun _ => hreset (Or.inl rfl), by simp⟩) (Or.inl rfl)
  · -- the first STARTUP: the target waits for it
    have hwait : s.ap (cfg.apicid i) = .waitSipi := hreset (Or.inr rfl)
    obtain rfl : IcrCommand.startup = cmd := Option.some.inj hcmd
    have heffect : IcrCommand.startup.effect (s.ap (cfg.apicid i)) = .trampoline := by
      rw [hwait]
      rfl
    rw [heffect]
    refine h.icr_step hstart (Or.inl ⟨rfl, by simp, fun _ => trivial⟩) (Or.inr ⟨Or.inr rfl, ?_⟩)
    rw [hwait]
    rfl
  · -- the second one: the target runs
    have hrun := hrunning rfl
    obtain rfl : IcrCommand.startup = cmd := Option.some.inj hcmd
    rw [startup_effect_of_running hrun]
    exact h.icr_step hstart (Or.inr ⟨rfl, hrun⟩) (Or.inl rfl)
  · exact absurd hcmd (by simp [lapicstartap])

theorem afterMode_cases {α : Type} (cfg : Config) (ops skip : α) :
    (cfg.x2apic = true ∧ cfg.afterMode ops skip = ops ∧ cfg.final = .x2apic) ∨
      cfg.x2apic = false ∧ cfg.afterMode ops skip = skip ∧ cfg.final = .xapic := by
  cases hx : cfg.x2apic <;> simp [Config.afterMode, Config.final, hx]

/-- The boot processor calls `lapicstartap` for another processor. -/
theorem startAp_ne_bsp {i r : Nat} (h : Inv cfg s) (hboot : s.boot = .loop i)
    (hi : i < cfg.apicids.length) (hr : Mycpu cfg s cfg.bsp r) (hne : r ≠ i) :
    cfg.apicid i ≠ cfg.bsp := by
  intro hbsp
  have hmode : s.mode cfg.bsp = .xapic := by
    rw [h.bootMode, hboot]
    rfl
  exact hne (hr i (mycpu_eq hmode hi hbsp))

/-- A step of the boot processor inside one mode. -/
theorem Inv.boot_move {p : BootPc} (h : Inv cfg s) (hboot : t.boot = p) (hap : t.ap = s.ap)
    (hmode : t.mode = s.mode) (hops : t.apicOps = s.apicOps)
    (hsame : p.mode cfg = s.boot.mode cfg) (hswitched : p.Switched → s.boot.Switched)
    (hswitch : p ≠ .x2apicOps) (hloaded : ∀ x ops, p = .icr x ops → ops = cfg.final)
    (hnext : s.boot.next cfg ≤ p.next cfg ∨ cfg.apicids.length ≤ p.next cfg)
    (htarget : ∀ i k, p = .start i k → k = 0 ∧ i < cfg.apicids.length ∧ cfg.apicid i ≠ cfg.bsp)
    (hwaiting : ∀ i, p = .wait i → s.boot = .wait i) : Inv cfg t := by
  refine h.boot_step hboot hap ?_ (fun ho => hops.trans ho) (fun hx => hops.trans (h.opsNone hx))
    (fun hsw => hops.trans (h.bootOps (hswitched hsw))) (fun hpc => absurd hpc hswitch) hloaded hnext
    htarget hwaiting
  rw [hmode, hsame, ← h.bootMode, update_eq_self]

/-- A step of an application processor inside one mode. -/
theorem Inv.ap_move {q : ApPc} (h : Inv cfg s) (hp : (s.ap x).Running) (hq : q.Running)
    (hboot : t.boot = s.boot) (hap : t.ap = update s.ap x q) (hmode : t.mode = s.mode)
    (hops : t.apicOps = s.apicOps) (hsame : q.mode cfg = (s.ap x).mode cfg)
    (hswitched : q.Switched → (s.ap x).Switched) (hswitch : q ≠ .x2apicOps)
    (hloaded : ∀ ops, q = .eoi ops → ops = cfg.final) : Inv cfg t := by
  have hx : x ≠ cfg.bsp := by
    intro hx
    rw [hx, h.bspOff] at hp
    exact hp
  refine h.ap_step hp hq hboot hap ?_ (fun ho => hops.trans ho)
    (fun hx => hops.trans (h.opsNone hx)) (fun hsw => hops.trans (h.apOps x (hswitched hsw)))
    (fun hqx => absurd hqx hswitch) hloaded
  rw [hmode, hsame, ← h.apMode x hx, update_eq_self]

theorem inv_step {a : Action} (h : Inv cfg s) (hstep : Step cfg s a t) : Inv cfg t := by
  cases hstep with
  | bootEnable hb =>
    refine h.boot_move (p := .spurious) rfl rfl rfl rfl (by rw [hb]; rfl) ?_ ?_ ?_ ?_ ?_ ?_ <;>
      simp [BootPc.Switched, BootPc.next, hb]
  | bootSpurious hb =>
    refine h.boot_move (p := .loop 0) rfl rfl rfl rfl (by rw [hb]; rfl) ?_ ?_ ?_ ?_ ?_ ?_ <;>
      simp [BootPc.Switched, BootPc.next, hb]
  | @skip i hb hi hr =>
    refine h.boot_move (p := .loop (i + 1)) rfl rfl rfl rfl (by rw [hb]; rfl) ?_ ?_ ?_ ?_ ?_ ?_ <;>
      simp [BootPc.Switched, BootPc.next, hb]
  | @startAp i r hb hi hr hne =>
    have hbsp := startAp_ne_bsp h hb hi hr hne
    refine h.boot_move (p := .start i 0) rfl rfl rfl rfl (by rw [hb]; rfl) ?_ ?_ ?_ ?_ ?_ ?_ <;>
      simp [BootPc.Switched, BootPc.next, hb, hi, hbsp]
  | icrCommand hb hcmd => exact inv_icrCommand h hb hcmd
  | @poll i hb =>
    cases hstarted : s.started i with
    | true =>
      refine h.boot_move (p := .loop (i + 1)) rfl rfl rfl rfl (by rw [hb]; rfl) ?_ ?_ ?_ ?_ ?_ ?_ <;>
        simp [BootPc.Switched, BootPc.next, hb]
    | false =>
      refine h.boot_move (p := .wait i) rfl rfl rfl rfl (by rw [hb]) ?_ ?_ ?_ ?_ ?_ ?_ <;>
        simp [BootPc.Switched, BootPc.next, hb]
  | @allStarted i hb hi =>
    refine h.boot_move (p := .x2apicMode) rfl rfl rfl rfl (by rw [hb]; rfl) ?_ ?_ ?_ ?_ ?_ ?_ <;>
      simp [BootPc.Switched, BootPc.next, hb]
  | bootMode hb =>
    rcases afterMode_cases cfg BootPc.x2apicOps .harness with ⟨hx, hpc, hfinal⟩ | ⟨hx, hpc, hfinal⟩
    · rw [hpc]
      refine h.boot_step (p := .x2apicOps) rfl rfl rfl id h.opsNone ?_ (fun _ => hx) ?_ ?_ ?_ ?_ <;>
        simp [BootPc.Switched, BootPc.next]
    · rw [hpc]
      have hops : s.apicOps = cfg.final := (h.opsNone hx).trans hfinal.symm
      refine h.boot_step (p := .harness) rfl rfl rfl id h.opsNone (fun _ => hops) ?_ ?_ ?_ ?_ ?_ <;>
        simp [BootPc.next]
  | bootOps hb =>
    have hx := h.bootSwitch hb
    have hfinal : Mode.x2apic = cfg.final := by simp [Config.final, hx]
    have hmode : s.mode = update s.mode cfg.bsp (BootPc.harness.mode cfg) := by
      rw [show BootPc.harness.mode cfg = s.mode cfg.bsp by rw [h.bootMode, hb]; rfl, update_eq_self]
    refine h.boot_step (p := .harness) rfl rfl hmode (fun _ => hfinal) (by simp [hx])
      (fun _ => hfinal) ?_ ?_ ?_ ?_ ?_ <;> simp [BootPc.next]
  | pin hb =>
    refine h.boot_move (p := .ready) rfl rfl rfl rfl (by rw [hb]; rfl) ?_ ?_ ?_ ?_ ?_ ?_ <;>
      simp [BootPc.Switched, BootPc.next, hb]
  | onCpu i hb =>
    refine h.boot_move (p := .clear (cfg.apicid i)) rfl rfl rfl rfl (by rw [hb]; rfl)
      ?_ ?_ ?_ ?_ ?_ ?_ <;> simp [BootPc.Switched, BootPc.next, hb]
  | @clear x hb =>
    refine h.boot_move (p := .load x) rfl rfl rfl rfl (by rw [hb]; rfl) ?_ ?_ ?_ ?_ ?_ ?_ <;>
      simp [BootPc.Switched, BootPc.next, hb]
  | @loadIcr x hb =>
    have hops : s.apicOps = cfg.final := h.bootOps (by rw [hb]; trivial)
    refine h.boot_move (p := .icr x s.apicOps) rfl rfl rfl rfl (by rw [hb]; rfl)
      ?_ ?_ ?_ ?_ ?_ ?_ <;> simp [BootPc.Switched, BootPc.next, hb, hops]
  | @sendIpi x ops hb =>
    refine h.boot_move (p := .done x) rfl rfl rfl rfl (by rw [hb]; rfl) ?_ ?_ ?_ ?_ ?_ ?_ <;>
      simp [BootPc.Switched, BootPc.next, hb]
  | @readDone x hb =>
    cases hdone : s.ipiDone with
    | true =>
      refine h.boot_move (p := .ready) rfl rfl rfl rfl (by rw [hb]; rfl) ?_ ?_ ?_ ?_ ?_ ?_ <;>
        simp [BootPc.Switched, BootPc.next, hb]
    | false =>
      refine h.boot_move (p := .done x) rfl rfl rfl rfl (by rw [hb]) ?_ ?_ ?_ ?_ ?_ ?_ <;>
        simp [BootPc.Switched, BootPc.next, hb]
  | @stack x ha =>
    refine h.ap_move (x := x) (q := .starting) (by rw [ha]; trivial) trivial rfl rfl rfl rfl
      (by rw [ha]; rfl) ?_ ?_ ?_ <;> simp [ApPc.Switched]
  | @printStarting x r ha hr =>
    refine h.ap_move (x := x) (q := .enableApic) (by rw [ha]; trivial) trivial rfl rfl rfl rfl
      (by rw [ha]; rfl) ?_ ?_ ?_ <;> simp [ApPc.Switched]
  | @printEnabling x ha =>
    refine h.ap_move (x := x) (q := .spurious) (by rw [ha]; trivial) trivial rfl rfl rfl rfl
      (by rw [ha]; rfl) ?_ ?_ ?_ <;> simp [ApPc.Switched]
  | @spurious x ha =>
    refine h.ap_move (x := x) (q := .setStarted) (by rw [ha]; trivial) trivial rfl rfl rfl rfl
      (by rw [ha]; rfl) ?_ ?_ ?_ <;> simp [ApPc.Switched]
  | @setStarted x r ha hr =>
    refine h.ap_move (x := x) (q := .x2apicMode) (by rw [ha]; trivial) trivial rfl rfl rfl rfl
      (by rw [ha]; rfl) ?_ ?_ ?_ <;> simp [ApPc.Switched]
  | @apMode x ha =>
    have hrun : (s.ap x).Running := by
      rw [ha]
      trivial
    rcases afterMode_cases cfg ApPc.x2apicOps .sti with ⟨hx, hpc, hfinal⟩ | ⟨hx, hpc, hfinal⟩
    · rw [hpc]
      exact h.ap_step (q := .x2apicOps) hrun trivial rfl rfl rfl id h.opsNone (fun hs => hs.elim)
        (fun _ => hx) (by simp)
    · rw [hpc]
      have hops : s.apicOps = cfg.final := (h.opsNone hx).trans hfinal.symm
      exact h.ap_step (q := .sti) hrun trivial rfl rfl rfl id h.opsNone (fun _ => hops) (by simp)
        (by simp)
  | @apOps x ha =>
    have hx := h.apSwitch x ha
    have hfinal : Mode.x2apic = cfg.final := by simp [Config.final, hx]
    have hrun : (s.ap x).Running := by
      rw [ha]
      trivial
    have hne : x ≠ cfg.bsp := by
      intro he
      rw [he, h.bspOff] at ha
      exact absurd ha (by simp)
    have hmode : s.mode = update s.mode x (ApPc.sti.mode cfg) := by
      rw [show ApPc.sti.mode cfg = s.mode x by rw [h.apMode x hne, ha]; rfl, update_eq_self]
    exact h.ap_step (q := .sti) hrun trivial rfl rfl hmode (fun _ => hfinal) (by simp [hx])
      (fun _ => hfinal) (by simp) (by simp)
  | @sti x ha =>
    refine h.ap_move (x := x) (q := .halted) (by rw [ha]; trivial) trivial rfl rfl rfl rfl
      (by rw [ha]; rfl) ?_ ?_ ?_ <;> simp [ApPc.Switched, ha]
  | @deliver x ha hp =>
    refine h.ap_move (x := x) (q := .store) (by rw [ha]; trivial) trivial rfl rfl rfl rfl
      (by rw [ha]; rfl) ?_ ?_ ?_ <;> simp [ApPc.Switched, ha]
  | @store x ha =>
    refine h.ap_move (x := x) (q := .load) (by rw [ha]; trivial) trivial rfl rfl rfl rfl
      (by rw [ha]; rfl) ?_ ?_ ?_ <;> simp [ApPc.Switched, ha]
  | @loadEoi x ha =>
    have hops : s.apicOps = cfg.final := h.apOps x (by rw [ha]; trivial)
    refine h.ap_move (x := x) (q := .eoi s.apicOps) (by rw [ha]; trivial) trivial rfl rfl rfl rfl
      (by rw [ha]; rfl) ?_ ?_ ?_ <;> simp [ApPc.Switched, ha, hops]
  | @eoi x ops ha =>
    refine h.ap_move (x := x) (q := .iret) (by rw [ha]; trivial) trivial rfl rfl rfl rfl
      (by rw [ha]; rfl) ?_ ?_ ?_ <;> simp [ApPc.Switched, ha]
  | @iret x ha =>
    refine h.ap_move (x := x) (q := .halted) (by rw [ha]; trivial) trivial rfl rfl rfl rfl
      (by rw [ha]; rfl) ?_ ?_ ?_ <;> simp [ApPc.Switched, ha]

end Steps

theorem inv_run {cfg : Config} {as : List Action} {s : State} (hrun : Run (smp cfg) as s) :
    Inv cfg s :=
  hrun.invariant (fun _ s => Inv cfg s) (fun _ h => inv_init h) fun _ _ _ _ h hstep =>
    inv_step h hstep

/-! ## Accesses -/

/-- The two ways to a local APIC: the memory-mapped registers, and the
registers that `x2apic_*` read and write with `rdmsr` and `wrmsr`. -/
inductive Access where
  | mmio
  | msr
  deriving DecidableEq, Repr

/-- The way of the functions behind `apic_ops`. -/
def Mode.access : Mode → Access
  | .xapic => .mmio
  | .x2apic => .msr

/-- The processor whose local APIC a step accesses, and how.  `mycpu` and
`cpuid` read the APIC id, `lapicw` writes a command. -/
def Action.access (cfg : Config) : Action → Option (Nat × Access)
  | .bootSpurious | .skip | .startAp _ | .icrCommand _ _ => some (cfg.bsp, .mmio)
  | .sendIpi _ ops => some (cfg.bsp, ops.access)
  | .printStarting x | .spurious x | .setStarted x => some (x, .mmio)
  | .eoi x ops => some (x, ops.access)
  | _ => none

/-- The mode in which an access works. -/
def Access.mode : Access → Mode
  | .mmio => .xapic
  | .msr => .x2apic

theorem Mode.access_mode (m : Mode) : m.access.mode = m := by
  cases m <;> rfl

theorem Inv.mode_of_running {cfg : Config} {s : State} {x : Nat} (h : Inv cfg s)
    (hx : (s.ap x).Running) : s.mode x = (s.ap x).mode cfg := by
  refine h.apMode x fun he => ?_
  rw [he, h.bspOff] at hx
  exact hx

/-- Every access of a processor to its local APIC, in every run, is one that
its mode allows at that time. -/
theorem apic_access_matches_mode {cfg : Config} {as : List Action} {s t : State} {a : Action}
    {x : Nat} {k : Access} (hrun : Run (smp cfg) as s) (hstep : (smp cfg).Step s a t)
    (hacc : a.access cfg = some (x, k)) : s.mode x = k.mode := by
  have h := inv_run hrun
  -- an access of the boot processor with the functions that its mode asks for
  have hboot : ∀ k', s.boot.mode cfg = Access.mode k' → some (cfg.bsp, k') = some (x, k) →
      s.mode x = k.mode := by
    rintro k' hmode heq
    rw [Option.some.injEq, Prod.mk.injEq] at heq
    rw [← heq.1, ← heq.2, h.bootMode, hmode]
  have hap : ∀ y k', (s.ap y).Running → (s.ap y).mode cfg = Access.mode k' →
      some (y, k') = some (x, k) → s.mode x = k.mode := by
    rintro y k' hrunning hmode heq
    rw [Option.some.injEq, Prod.mk.injEq] at heq
    rw [← heq.1, ← heq.2, h.mode_of_running hrunning, hmode]
  cases hstep with
  | bootSpurious hb => exact hboot .mmio (by rw [hb]; rfl) hacc
  | skip hb => exact hboot .mmio (by rw [hb]; rfl) hacc
  | startAp hb => exact hboot .mmio (by rw [hb]; rfl) hacc
  | icrCommand hb => exact hboot .mmio (by rw [hb]; rfl) hacc
  | @sendIpi y ops hb =>
    refine hboot ops.access ?_ hacc
    rw [ops.access_mode, h.bootLoaded y ops hb, hb]
    rfl
  | @printStarting y _ ha => exact hap y .mmio (by rw [ha]; trivial) (by rw [ha]; rfl) hacc
  | @spurious y ha => exact hap y .mmio (by rw [ha]; trivial) (by rw [ha]; rfl) hacc
  | @setStarted y _ ha => exact hap y .mmio (by rw [ha]; trivial) (by rw [ha]; rfl) hacc
  | @eoi y ops ha =>
    refine hap y ops.access (by rw [ha]; trivial) ?_ hacc
    rw [ops.access_mode, h.apLoaded y ops ha, ha]
    rfl
  | _ => exact absurd hacc (by simp [Action.access])

/-- The machine behind the boot loader. -/
def bootState : State where
  boot := .enableApic
  ap := fun _ => .off
  mode := fun _ => .xapic
  apicOps := .xapic
  started := fun _ => false
  smpStacktop := 0xa0000
  esp := fun _ => none
  ipiDone := false
  pending := fun _ => false
  out := []

theorem bootState_init (cfg : Config) : (smp cfg).Init bootState :=
  ⟨rfl, rfl, rfl, fun _ => ⟨rfl, rfl, rfl, rfl, rfl⟩⟩

/-- Two processors with x2APIC.  The boot processor is second in the table, so
that it reads its APIC id once more when the other has come up. -/
def x2apicCpus : Config where
  apicids := [1, 0]
  bsp := 0
  x2apic := true
  nodup := by decide
  length_le := by decide

/-- Processor 1 has switched to x2APIC and processor 0 has not. -/
theorem apic_access_matches_mode_oneSwitched : ∃ as s t, Run (smp x2apicCpus) as s ∧
    Step x2apicCpus s .skip t ∧ s.mode 1 = .x2apic ∧ s.mode 0 = Access.mmio.mode := by
  have hbsp : ∀ s : State, s.mode 0 = .xapic → Mycpu x2apicCpus s 0 1 :=
    fun s hmode => .of_mode hmode (by decide) rfl
  have hother : ∀ s : State, s.mode 1 = .xapic → Mycpu x2apicCpus s 1 0 :=
    fun s hmode => .of_mode hmode (by decide) rfl
  have h := ((Run.init (bootState_init x2apicCpus)).step (.bootEnable rfl)).step (.bootSpurious rfl)
  have h := h.step (.startAp rfl (by decide) (hbsp _ rfl) (by decide))
  have h := h.step (.icrCommand rfl rfl)
  have h := h.step (.icrCommand (i := 0) (k := 1) rfl rfl)
  have h := h.step (.icrCommand (i := 0) (k := 2) rfl rfl)
  have h := h.step (.icrCommand (i := 0) (k := 3) rfl rfl)
  have h := (h.step (.stack (x := 1) rfl)).step (.printStarting rfl (hother _ rfl))
  have h := (h.step (.printEnabling (x := 1) rfl)).step (.spurious (x := 1) rfl)
  have h := h.step (.setStarted (x := 1) rfl (hother _ rfl))
  have h := (h.step (.apMode (x := 1) rfl)).step (.poll (i := 0) rfl)
  refine ⟨_, _, _, h, .skip (i := 1) rfl (by decide) (hbsp _ rfl), rfl, ?_⟩
  exact apic_access_matches_mode h (.skip (i := 1) rfl (by decide) (hbsp _ rfl)) rfl

/-! ## A run of two processors -/

/-- Two processors, and no x2APIC. -/
def twoCpus : Config where
  apicids := [0, 1]
  bsp := 0
  x2apic := false
  nodup := by decide
  length_le := by decide

/-- The start-up of two processors, one step after the other. -/
theorem twoCpus_ready (early : List (List UInt8)) : ∃ as s, Run (boots twoCpus early) as s ∧
    s.boot = .ready ∧ s.ap 1 = .halted ∧ (∀ x, x ≠ 1 → s.ap x = .off) ∧
    ∀ x, s.pending x = false := by
  have hown : ∀ i (s : State), i < 2 → twoCpus.apicid i = i → s.mode i = .xapic →
      Mycpu twoCpus s i i := fun i s hi hid hmode => .of_mode hmode hi hid
  have hinit : (boots twoCpus early).Init { bootState with out := early } :=
    ⟨bootState_init twoCpus, rfl⟩
  have h := ((Run.init hinit).step (.bootEnable rfl)).step (.bootSpurious rfl)
  have h := h.step (.skip rfl (by decide) (hown 0 _ (by decide) rfl rfl))
  have h := h.step (.startAp rfl (by decide) (hown 0 _ (by decide) rfl rfl) (by decide))
  have h := h.step (.icrCommand rfl rfl)
  have h := h.step (.icrCommand (i := 1) (k := 1) rfl rfl)
  have h := h.step (.icrCommand (i := 1) (k := 2) rfl rfl)
  have h := h.step (.icrCommand (i := 1) (k := 3) rfl rfl)
  have h := (h.step (.stack (x := 1) rfl)).step
    (.printStarting rfl (hown 1 _ (by decide) rfl rfl))
  have h := (h.step (.printEnabling (x := 1) rfl)).step (.spurious (x := 1) rfl)
  have h := h.step (.setStarted (x := 1) rfl (hown 1 _ (by decide) rfl rfl))
  have h := (h.step (.apMode (x := 1) rfl)).step (.sti (x := 1) rfl)
  have h := (h.step (.poll (i := 1) rfl)).step (.allStarted (i := 2) rfl (by decide))
  refine ⟨_, _, (h.step (.bootMode rfl)).step (.pin rfl), rfl, rfl, fun x hx => ?_, fun _ => rfl⟩
  simp [State.setAp, State.setBoot, State.print, Config.apicid, twoCpus, update_of_ne hx, bootState]

end HyperBench.Smp
