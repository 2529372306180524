import HyperBench.Lib.Fair
import HyperBench.SmpStart
import Mathlib.Data.Finset.Dedup
import Mathlib.Order.Filter.AtTopBot.Basic
import Mathlib.Order.Filter.Finite

/-!
# The processors make progress

What the processors of the machine come to when each of them is allowed to
run: `startothers` returns, and every application processor ends up in the
loop around `hlt`, with its interrupts enabled.

* `Action.cpu` is the processor that takes a step.  A call of `on_cpu` is a
  choice of the benchmark, so nobody has to make one.
* `enabled_boot` and `enabled_ap` say where a processor can go on.
* `loop_leadsTo_loop` is one round of `startothers`: the boot processor waits
  for a flag, and the processor that the flag belongs to comes to its store.
* `startup_completes` puts the rounds together.
-/

namespace HyperBench.Smp

open Transition Function

inductive Cpu where
  | boot
  | ap (x : Nat)
  deriving DecidableEq, Repr

def Action.cpu : Action → Option Cpu
  | .onCpu _ => none
  | .bootEnable | .bootSpurious | .skip | .startAp _ | .icrCommand _ _ | .poll | .allStarted
  | .bootMode | .bootOps | .pin | .clear | .loadIcr | .sendIpi _ _ | .readDone => some .boot
  | .stack x | .printStarting x | .printEnabling x | .spurious x | .setStarted x | .apMode x
  | .apOps x | .sti x | .deliver x | .store x | .loadEoi x | .eoi x _ | .iret x => some (.ap x)

/-! ## What a step changes -/

section Steps

variable {cfg : Config} {s t : State} {a : Action} {x : Nat}

theorem Step.boot_eq (hstep : Step cfg s a t) (ha : a.cpu = some (.ap x)) : t.boot = s.boot := by
  cases hstep <;> first | rfl | simp [Action.cpu] at ha

/-- Where the boot processor goes with its next step. -/
def BootPc.Next (cfg : Config) : BootPc → BootPc → Prop
  | enableApic, q => q = spurious
  | spurious, q => q = loop 0
  | loop i, q => i < cfg.apicids.length ∧ (q = loop (i + 1) ∨ q = start i 0) ∨
      cfg.apicids.length ≤ i ∧ q = x2apicMode
  | start i k, q => q = if k + 1 < lapicstartap.length then start i (k + 1) else wait i
  | wait i, q => q = loop (i + 1) ∨ q = wait i
  | x2apicMode, q => q = x2apicOps ∨ q = harness
  | x2apicOps, q => q = harness
  | harness, q => q = ready
  | ready, _ => False
  | clear x, q => q = load x
  | load x, q => ∃ ops, q = icr x ops
  | icr x _, q => q = done x
  | done x, q => q = ready ∨ q = done x

theorem Step.boot_next (hstep : Step cfg s a t) (ha : a.cpu = some .boot) :
    s.boot.Next cfg t.boot := by
  cases hstep with
  | bootEnable h | bootSpurious h | bootOps h | pin h | clear h | sendIpi h | icrCommand h =>
    rw [h]
    exact rfl
  | loadIcr h =>
    rw [h]
    exact ⟨_, rfl⟩
  | skip h hi =>
    rw [h]
    exact Or.inl ⟨hi, Or.inl rfl⟩
  | startAp h hi =>
    rw [h]
    exact Or.inl ⟨hi, Or.inr rfl⟩
  | allStarted h hi =>
    rw [h]
    exact Or.inr ⟨hi, rfl⟩
  | @poll i h =>
    rw [h]
    show (if s.started i then BootPc.loop (i + 1) else .wait i) = _ ∨
      (if s.started i then BootPc.loop (i + 1) else .wait i) = _
    split <;> simp
  | bootMode h =>
    rw [h]
    show cfg.afterMode BootPc.x2apicOps .harness = _ ∨ _ = _
    rcases afterMode_cases cfg BootPc.x2apicOps .harness with ⟨_, hpc, _⟩ | ⟨_, hpc, _⟩
    · exact Or.inl hpc
    · exact Or.inr hpc
  | @readDone x h =>
    rw [h]
    show (if s.ipiDone then BootPc.ready else .done x) = _ ∨
      (if s.ipiDone then BootPc.ready else .done x) = _
    split <;> simp
  | _ => simp [Action.cpu] at ha

/-- A call of `on_cpu` is only made in `ready`. -/
theorem Step.ready_of_call (hstep : Step cfg s a t) (ha : a.cpu = none) : s.boot = .ready := by
  cases hstep with
  | onCpu i h => exact h
  | _ => simp [Action.cpu] at ha

/-- A processor moves by its own steps and by the commands of
`lapicstartap`. -/
theorem Step.ap_cases (hstep : Step cfg s a t) (ha : a.cpu ≠ some (.ap x)) :
    t.ap x = s.ap x ∨ ∃ i k cmd, s.boot = .start i k ∧ cfg.apicid i = x ∧
      t.ap x = IcrCommand.effect cmd (s.ap x) := by
  cases hstep with
  | @icrCommand i k cmd hb hcmd =>
    by_cases hx : x = cfg.apicid i
    · refine Or.inr ⟨i, k, cmd, hb, hx.symm, ?_⟩
      rw [hx]
      exact update_self _ _ _
    · exact Or.inl (update_of_ne hx _ _)
  | stack | printStarting | printEnabling | spurious | setStarted | apMode | apOps | sti
  | deliver | store | loadEoi | eoi | iret =>
    refine Or.inl (update_of_ne ?_ _ _)
    rintro rfl
    exact ha rfl
  | _ => exact Or.inl rfl

theorem Step.ap_eq (hstep : Step cfg s a t) (ha : a.cpu ≠ some (.ap x))
    (hboot : ∀ i k, s.boot = .start i k → cfg.apicid i ≠ x) : t.ap x = s.ap x := by
  rcases hstep.ap_cases ha with h | ⟨i, k, _, hb, hx, _⟩
  · exact h
  · exact absurd hx (hboot i k hb)

theorem Step.started_mono (hstep : Step cfg s a t) {i : Nat} (hi : s.started i = true) :
    t.started i = true := by
  cases hstep with
  | @setStarted y r ha hr =>
    show update s.started r true i = true
    by_cases hir : i = r
    · rw [hir, update_self]
    · rw [update_of_ne hir, hi]
  | _ => exact hi

/-- Up to `hlt` each step of a processor takes it further. -/
theorem Step.rank_lt (hstep : Step cfg s a t) (ha : a.cpu = some (.ap x))
    (hlt : (s.ap x).rank < 10) : (s.ap x).rank < (t.ap x).rank := by
  cases hstep with
  | stack h | printStarting h | printEnabling h | spurious h | setStarted h | apOps h | sti h
  | deliver h | store h | loadEoi h | eoi h | iret h =>
    obtain rfl : _ = x := by simpa [Action.cpu] using ha
    rw [h] at hlt ⊢
    simp [State.setAp, ApPc.rank] at hlt ⊢
  | apMode h =>
    obtain rfl : _ = x := by simpa [Action.cpu] using ha
    rw [h]
    rcases afterMode_cases cfg ApPc.x2apicOps .sti with ⟨_, hpc, _⟩ | ⟨_, hpc, _⟩ <;>
      simp [State.setAp, hpc, ApPc.rank]
  | _ => simp [Action.cpu] at ha

theorem IcrCommand.rank_of_effect {cmd : IcrCommand} {pc : ApPc}
    (h : 7 ≤ (cmd.effect pc).rank) : 7 ≤ pc.rank := by
  cases cmd with
  | initAssert => exact absurd h (by simp [effect, ApPc.rank])
  | initDeassert => exact h
  | startup => cases pc <;> simp_all [effect, ApPc.rank]

/-- Only the store into its flag takes a processor to rank 7. -/
theorem Step.rank_seven (hstep : Step cfg s a t) (ht : 7 ≤ (t.ap x).rank) :
    7 ≤ (s.ap x).rank ∨ a = .setStarted x := by
  by_cases ha : a.cpu = some (.ap x)
  · cases hstep with
    | stack h | printStarting h | printEnabling h | spurious h =>
      obtain rfl : _ = x := by simpa [Action.cpu] using ha
      simp [State.setAp, ApPc.rank] at ht
    | setStarted h =>
      obtain rfl : _ = x := by simpa [Action.cpu] using ha
      exact Or.inr rfl
    | apMode h | apOps h | sti h | deliver h | store h | loadEoi h | eoi h | iret h =>
      obtain rfl : _ = x := by simpa [Action.cpu] using ha
      rw [h]
      exact Or.inl (by simp [ApPc.rank])
    | _ => simp [Action.cpu] at ha
  · rcases hstep.ap_cases ha with h | ⟨_, _, cmd, _, _, h⟩
    · exact Or.inl (h ▸ ht)
    · exact Or.inl (IcrCommand.rank_of_effect (h ▸ ht))

/-! ## Who can take a step -/

theorem exists_mycpu (cfg : Config) (s : State) (x : Nat) : ∃ r, Mycpu cfg s x r := by
  cases h : mycpu cfg s x with
  | none => exact ⟨0, fun i hi => absurd (h.symm.trans hi) (by simp)⟩
  | some r => exact ⟨r, fun i hi => Option.some.inj (h.symm.trans hi)⟩

theorem enabled_ap (hrun : (s.ap x).Running) (hlt : (s.ap x).rank < 10) :
    Enabled (smp cfg) Action.cpu (.ap x) s := by
  obtain ⟨r, hr⟩ := exists_mycpu cfg s x
  cases h : s.ap x with
  | off | waitSipi =>
    rw [h] at hrun
    exact hrun.elim
  | trampoline => exact ⟨_, _, rfl, .stack h⟩
  | starting => exact ⟨_, _, rfl, .printStarting h hr⟩
  | enableApic => exact ⟨_, _, rfl, .printEnabling h⟩
  | spurious => exact ⟨_, _, rfl, .spurious h⟩
  | setStarted => exact ⟨_, _, rfl, .setStarted h hr⟩
  | x2apicMode => exact ⟨_, _, rfl, .apMode h⟩
  | x2apicOps => exact ⟨_, _, rfl, .apOps h⟩
  | sti => exact ⟨_, _, rfl, .sti h⟩
  | halted | store | load | eoi | iret =>
    rw [h] at hlt
    exact absurd hlt (Nat.lt_irrefl 10)

theorem enabled_boot (hready : s.boot ≠ .ready)
    (hstart : ∀ i k, s.boot = .start i k → k < lapicstartap.length) :
    Enabled (smp cfg) Action.cpu .boot s := by
  cases h : s.boot with
  | enableApic => exact ⟨_, _, rfl, .bootEnable h⟩
  | spurious => exact ⟨_, _, rfl, .bootSpurious h⟩
  | loop i =>
    by_cases hi : i < cfg.apicids.length
    · obtain ⟨r, hr⟩ := exists_mycpu cfg s cfg.bsp
      by_cases hri : r = i
      · exact ⟨_, _, rfl, .skip h hi (hri ▸ hr)⟩
      · exact ⟨_, _, rfl, .startAp h hi hr hri⟩
    · exact ⟨_, _, rfl, .allStarted h (Nat.not_lt.1 hi)⟩
  | start i k => exact ⟨_, _, rfl, .icrCommand h (List.getElem?_eq_getElem (hstart i k h))⟩
  | wait i => exact ⟨_, _, rfl, .poll h⟩
  | x2apicMode => exact ⟨_, _, rfl, .bootMode h⟩
  | x2apicOps => exact ⟨_, _, rfl, .bootOps h⟩
  | harness => exact ⟨_, _, rfl, .pin h⟩
  | ready => exact absurd h hready
  | clear y => exact ⟨_, _, rfl, .clear h⟩
  | load y => exact ⟨_, _, rfl, .loadIcr h⟩
  | icr y ops => exact ⟨_, _, rfl, .sendIpi h⟩
  | done y => exact ⟨_, _, rfl, .readDone h⟩

end Steps

/-! ## Progress of the boot processor -/

section Live

variable {cfg : Config} {e : Execution (smp cfg)}

/-- A processor that is behind its store has its flag set. -/
theorem started_of_rank {as : List Action} {s : State} (hbsp : cfg.bsp ∈ cfg.apicids)
    (hrun : Run (smp cfg) as s) : ∀ i, i < cfg.apicids.length →
      7 ≤ (s.ap (cfg.apicid i)).rank → s.started i = true := by
  induction hrun with
  | @init s hinit =>
    intro i _ hrank
    rw [(hinit.2.2.2 _).1] at hrank
    exact absurd hrank (by decide)
  | @step as s t a hrun hstep ih =>
    intro i hi hrank
    rcases hstep.rank_seven hrank with hbefore | rfl
    · exact hstep.started_mono (ih i hi hbefore)
    · generalize hact : Action.setStarted (cfg.apicid i) = a at hstep
      cases hstep with
      | @setStarted y r hpc hr =>
        obtain rfl : cfg.apicid i = y := by simpa using hact
        obtain ⟨hlt, hid⟩ := setStarted_index (startInv_run hbsp hrun) (inv_run hrun) hpc hr
        rw [← Config.apicid_inj hlt hi hid]
        exact update_self _ _ _
      | _ => exact absurd hact (by simp)

/-- What is known of every state of an execution. -/
structure Known (cfg : Config) (s : State) : Prop where
  inv : Inv cfg s
  start : ∃ as, StartInv cfg as s
  flags : ∀ i, i < cfg.apicids.length → 7 ≤ (s.ap (cfg.apicid i)).rank → s.started i = true

theorem known (hbsp : cfg.bsp ∈ cfg.apicids) (e : Execution (smp cfg)) (n : Nat) :
    Known cfg (e.state n) :=
  ⟨inv_run (e.run n), ⟨_, startInv_run hbsp (e.run n)⟩, started_of_rank hbsp (e.run n)⟩

/-- A program counter that the boot processor leaves with its next step. -/
theorem boot_leadsTo {p : BootPc} {Q : BootPc → Prop} (hfair : Fair Action.cpu e)
    (hbsp : cfg.bsp ∈ cfg.apicids) (hready : p ≠ .ready)
    (hstart : ∀ i k, p = .start i k → k < lapicstartap.length) (hnext : ∀ q, p.Next cfg q → Q q) :
    LeadsTo e (fun s => s.boot = p) fun s => Q s.boot := by
  refine hfair.ensures (known hbsp e) .boot ?_ ?_ ?_
  · intro s a t _ hp hstep
    cases ha : a.cpu with
    | none => exact absurd (hp.symm.trans (hstep.ready_of_call ha)) hready
    | some c =>
      cases c with
      | boot => exact Or.inr (hnext _ (hp ▸ hstep.boot_next ha))
      | ap x => exact Or.inl ((hstep.boot_eq ha).trans hp)
  · exact fun s a t _ hp ha hstep => hnext _ (hp ▸ hstep.boot_next ha)
  · exact fun s _ hp => enabled_boot (hp ▸ hready) fun i k hb => hstart i k (hp.symm.trans hb)

theorem start_leadsTo_wait (hfair : Fair Action.cpu e) (hbsp : cfg.bsp ∈ cfg.apicids) (i : Nat)
    {n k : Nat} (hk : n + k + 1 = lapicstartap.length) :
    LeadsTo e (fun s => s.boot = .start i k) fun s => s.boot = .wait i := by
  -- on the number of commands that are left
  induction n generalizing k with
  | zero =>
    refine boot_leadsTo (Q := (· = .wait i)) hfair hbsp (by simp) ?_ ?_
    · rintro i' k' ⟨⟩
      omega
    · intro q hq
      exact hq.trans (if_neg (by omega))
  | succ n ih =>
    refine LeadsTo.trans ?_ (ih (k := k + 1) (by omega))
    refine boot_leadsTo (Q := (· = .start i (k + 1))) hfair hbsp (by simp) ?_ ?_
    · rintro i' k' ⟨⟩
      omega
    · intro q hq
      exact hq.trans (if_pos (by omega))

/-- The processor that `startothers` waits for sets its flag. -/
theorem wait_leadsTo_started (hfair : Fair Action.cpu e) (hbsp : cfg.bsp ∈ cfg.apicids) (i : Nat) :
    LeadsTo e (fun s => s.boot = .wait i) fun s => s.boot = .wait i ∧ s.started i = true := by
  have hsplit : LeadsTo e (fun s => s.boot = .wait i) fun s =>
      (s.boot = .wait i ∧ s.started i = false) ∨ (s.boot = .wait i ∧ s.started i = true) := by
    refine LeadsTo.of_imp fun n hn => ?_
    cases h : (e.state n).started i with
    | false => exact Or.inl ⟨hn, rfl⟩
    | true => exact Or.inr ⟨hn, rfl⟩
  have hrank : ∀ s, Known cfg s → s.boot = .wait i ∧ s.started i = false →
      (s.ap (cfg.apicid i)).rank < 7 := by
    rintro s hs ⟨hb, hflag⟩
    by_contra hge
    have hset := hs.flags i (hs.inv.waiting i hb).1 (Nat.not_lt.1 hge)
    rw [hflag] at hset
    exact absurd hset (by decide)
  -- the boot processor polls until then, and the other processor goes on to its store
  have hmove : ∀ s a t, s.boot = .wait i ∧ s.started i = false → Step cfg s a t →
      t.boot = .wait i := by
    rintro s a t ⟨hb, hflag⟩ hstep
    cases ha : a.cpu with
    | none => exact absurd (hb.symm.trans (hstep.ready_of_call ha)) (by simp)
    | some c =>
      cases c with
      | boot =>
        cases hstep with
        | @poll j hb' =>
          obtain rfl := BootPc.wait.inj (hb'.symm.trans hb)
          show (if s.started j then _ else _) = _
          rw [hflag]
          rfl
        | _ => simp_all [Action.cpu]
      | ap x => exact (hstep.boot_eq ha).trans hb
  have hflag : ∀ t : State, t.boot = .wait i → (t.boot = .wait i ∧ t.started i = true) ∨
      (t.boot = .wait i ∧ t.started i = false) := by
    intro t ht
    cases h : t.started i with
    | false => exact Or.inr ⟨ht, rfl⟩
    | true => exact Or.inl ⟨ht, rfl⟩
  refine hsplit.trans (LeadsTo.or ?_ (LeadsTo.of_imp fun _ h => h))
  refine hfair.descends (known hbsp e) (.ap (cfg.apicid i))
    (fun s => 10 - (s.ap (cfg.apicid i)).rank) ?_ ?_ ?_
  · intro s a t hs hp hstep
    refine (hflag t (hmove s a t hp hstep)).imp_right fun ht => ⟨ht, ?_⟩
    by_cases ha : a.cpu = some (.ap (cfg.apicid i))
    · have hlt := hstep.rank_lt ha (Nat.lt_trans (hrank s hs hp) (by decide))
      omega
    · rw [hstep.ap_eq ha fun j k hb => absurd (hp.1.symm.trans hb) (by simp)]
  · intro s a t hs hp ha hstep
    have hlow := hrank s hs hp
    have hlt := hstep.rank_lt ha (Nat.lt_trans hlow (by decide))
    exact (hflag t (hmove s a t hp hstep)).imp_right fun ht => ⟨ht, by omega⟩
  · intro s hs hp
    exact enabled_ap (hs.inv.waiting i hp.1).2.2 (Nat.lt_trans (hrank s hs hp) (by decide))

theorem started_leadsTo_loop (hfair : Fair Action.cpu e) (hbsp : cfg.bsp ∈ cfg.apicids) (i : Nat) :
    LeadsTo e (fun s => s.boot = .wait i ∧ s.started i = true) fun s => s.boot = .loop (i + 1) := by
  have hpoll : ∀ s a t, s.boot = .wait i ∧ s.started i = true → Step cfg s a t →
      a.cpu = some .boot → t.boot = .loop (i + 1) := by
    rintro s a t ⟨hb, hflag⟩ hstep ha
    cases hstep with
    | @poll j hb' =>
      obtain rfl := BootPc.wait.inj (hb'.symm.trans hb)
      exact if_pos hflag
    | _ => simp_all [Action.cpu]
  refine hfair.ensures (known hbsp e) .boot ?_ ?_ ?_
  · intro s a t _ hp hstep
    cases ha : a.cpu with
    | none => exact absurd (hp.1.symm.trans (hstep.ready_of_call ha)) (by simp)
    | some c =>
      cases c with
      | boot => exact Or.inr (hpoll s a t hp hstep ha)
      | ap x => exact Or.inl ⟨(hstep.boot_eq ha).trans hp.1, hstep.started_mono hp.2⟩
  · exact fun s a t _ hp ha hstep => hpoll s a t hp hstep ha
  · exact fun s _ hp => ⟨_, _, rfl, .poll hp.1⟩

/-- One round of `startothers`. -/
theorem loop_leadsTo_loop (hfair : Fair Action.cpu e) (hbsp : cfg.bsp ∈ cfg.apicids) {i : Nat}
    (hi : i < cfg.apicids.length) :
    LeadsTo e (fun s => s.boot = .loop i) fun s => s.boot = .loop (i + 1) := by
  have hentry : LeadsTo e (fun s => s.boot = .loop i) fun s =>
      s.boot = .loop (i + 1) ∨ s.boot = .start i 0 := by
    refine boot_leadsTo (Q := fun p => p = .loop (i + 1) ∨ p = .start i 0) hfair hbsp (by simp)
      (by simp) ?_
    rintro q (⟨_, hq⟩ | ⟨hle, _⟩)
    · exact hq
    · omega
  refine hentry.trans (LeadsTo.or (LeadsTo.of_imp fun _ h => h) ?_)
  exact ((start_leadsTo_wait hfair hbsp i (n := 3) rfl).trans
    (wait_leadsTo_started hfair hbsp i)).trans (started_leadsTo_loop hfair hbsp i)

theorem loop_zero_leadsTo (hfair : Fair Action.cpu e) (hbsp : cfg.bsp ∈ cfg.apicids) {i : Nat}
    (hi : i ≤ cfg.apicids.length) :
    LeadsTo e (fun s => s.boot = .loop 0) fun s => s.boot = .loop i := by
  induction i with
  | zero => exact LeadsTo.of_imp fun _ h => h
  | succ i ih => exact (ih (Nat.le_of_succ_le hi)).trans (loop_leadsTo_loop hfair hbsp hi)

/-- `harness_main` is called and has printed its first line. -/
theorem exists_ready (hfair : Fair Action.cpu e) (hbsp : cfg.bsp ∈ cfg.apicids) :
    ∃ n, (e.state n).boot = .ready := by
  have hmove : ∀ p (Q : BootPc → Prop), p ≠ .ready → (∀ i k, p ≠ .start i k) →
      (∀ q, p.Next cfg q → Q q) → LeadsTo e (fun s => s.boot = p) fun s => Q s.boot :=
    fun p Q hready hstart hnext =>
      boot_leadsTo hfair hbsp hready (fun i k h => absurd h (hstart i k)) hnext
  have henable := hmove .enableApic (· = .spurious) (by simp) (by simp) fun q hq => hq
  have hspurious := hmove .spurious (· = .loop 0) (by simp) (by simp) fun q hq => hq
  have hreturn := hmove (.loop cfg.apicids.length) (· = .x2apicMode) (by simp) (by simp) (by
    rintro q (⟨hlt, _⟩ | ⟨_, hq⟩)
    · exact absurd hlt (Nat.lt_irrefl _)
    · exact hq)
  have hmode := hmove .x2apicMode (fun q => q = .x2apicOps ∨ q = .harness) (by simp) (by simp)
    fun q hq => hq
  have hops := hmove .x2apicOps (· = .harness) (by simp) (by simp) fun q hq => hq
  have hpin := hmove .harness (· = .ready) (by simp) (by simp) fun q hq => hq
  have hloop := (henable.trans hspurious).trans (loop_zero_leadsTo hfair hbsp (Nat.le_refl _))
  have hharness := (hloop.trans hreturn).trans
    (hmode.trans (LeadsTo.or hops (LeadsTo.of_imp fun _ h => h)))
  obtain ⟨n, _, hn⟩ := (hharness.trans hpin) 0 e.init.1
  exact ⟨n, hn⟩

/-! ## Progress of the application processors -/

theorem Step.pinned {s t : State} {a : Action} (hstep : Step cfg s a t) (hs : s.boot.Pinned) :
    t.boot.Pinned := by
  cases ha : a.cpu with
  | none =>
    cases hstep with
    | onCpu => trivial
    | _ => simp [Action.cpu] at ha
  | some c =>
    cases c with
    | ap x => rwa [hstep.boot_eq ha]
    | boot =>
      have hnext := hstep.boot_next ha
      cases hb : s.boot with
      | ready =>
        rw [hb] at hnext
        exact hnext.elim
      | clear y | icr y ops =>
        rw [hb] at hnext
        rw [hnext]
        trivial
      | load y =>
        rw [hb] at hnext
        obtain ⟨ops, hnext⟩ := hnext
        rw [hnext]
        trivial
      | done y =>
        rw [hb] at hnext
        rcases hnext with hnext | hnext <;> rw [hnext] <;> trivial
      | _ =>
        rw [hb] at hs
        exact hs.elim

/-- Behind `startothers` no processor goes back. -/
theorem Step.rank_le {s t : State} {a : Action} (hstep : Step cfg s a t) (hs : s.boot.Returned)
    (x : Nat) : (s.ap x).rank ≤ (t.ap x).rank := by
  by_cases ha : a.cpu = some (.ap x)
  · by_cases hlt : (s.ap x).rank < 10
    · exact Nat.le_of_lt (hstep.rank_lt ha hlt)
    · cases hstep <;> simp_all [Action.cpu, State.setAp, ApPc.rank]
  · rw [hstep.ap_eq ha]
    intro i k hb
    rw [hb] at hs
    exact hs.elim

theorem ApPc.rank_le_ten (pc : ApPc) : pc.rank ≤ 10 := by
  cases pc <;> simp [ApPc.rank]

theorem ApPc.running_of_rank {pc : ApPc} (h : 7 ≤ pc.rank) : pc.Running := by
  cases pc <;> trivial

theorem ApPc.mode_of_rank {pc : ApPc} (h : pc.rank = 10) : pc.mode cfg = cfg.final := by
  cases pc <;> first | rfl | exact absurd h (by decide)

/-- A processor that was started comes to its `hlt`. -/
theorem pinned_leadsTo_halted (hfair : Fair Action.cpu e) (hbsp : cfg.bsp ∈ cfg.apicids) {x : Nat}
    (hx : x ∈ cfg.others) :
    LeadsTo e (fun s => s.boot.Pinned) fun s => s.boot.Pinned ∧ (s.ap x).rank = 10 := by
  have hup : ∀ s, Known cfg s → s.boot.Pinned → 7 ≤ (s.ap x).rank := by
    intro s hs hp
    obtain ⟨as, hstart⟩ := hs.start
    exact hstart.rank_of_returned (BootPc.returned_of_pinned hp) hx
  have hsplit : LeadsTo e (fun s => s.boot.Pinned) fun s =>
      (s.boot.Pinned ∧ (s.ap x).rank < 10) ∨ (s.boot.Pinned ∧ (s.ap x).rank = 10) := by
    refine LeadsTo.of_imp fun n hn => ?_
    exact (Nat.lt_or_eq_of_le (ApPc.rank_le_ten _)).imp (⟨hn, ·⟩) (⟨hn, ·⟩)
  refine hsplit.trans (LeadsTo.or ?_ (LeadsTo.of_imp fun _ h => h))
  have hnext : ∀ t : State, t.boot.Pinned → (t.boot.Pinned ∧ (t.ap x).rank = 10) ∨
      (t.boot.Pinned ∧ (t.ap x).rank < 10) :=
    fun t ht => (Nat.lt_or_eq_of_le (ApPc.rank_le_ten (t.ap x))).symm.imp (⟨ht, ·⟩) (⟨ht, ·⟩)
  refine hfair.descends (known hbsp e) (.ap x) (fun s => 10 - (s.ap x).rank) ?_ ?_ ?_
  · intro s a t _ hp hstep
    have hrank := hstep.rank_le (BootPc.returned_of_pinned hp.1) x
    exact (hnext t (hstep.pinned hp.1)).imp_right fun ht => ⟨ht, by omega⟩
  · intro s a t _ hp ha hstep
    have hrank := hstep.rank_lt ha hp.2
    have hlow := hp.2
    exact (hnext t (hstep.pinned hp.1)).imp_right fun ht => ⟨ht, by omega⟩
  · exact fun s hs hp => enabled_ap (ApPc.running_of_rank (hup s hs hp.1)) hp.2

/-- Start-up is never stuck: in every fair execution, `harness_main` is
reached, and from some moment on every other processor of the table has set
its flag, is in its final APIC mode, and is behind its `sti`. -/
theorem startup_completes (hbsp : cfg.bsp ∈ cfg.apicids) (hfair : Fair Action.cpu e) :
    ∃ n, ∀ m, n ≤ m → (e.state m).boot.Pinned ∧
      ∀ i, i < cfg.apicids.length → cfg.apicid i ≠ cfg.bsp →
        (e.state m).started i = true ∧ (e.state m).mode (cfg.apicid i) = cfg.final ∧
          ((e.state m).ap (cfg.apicid i)).rank = 10 := by
  obtain ⟨n₀, hready⟩ := exists_ready hfair hbsp
  have hpin₀ : (e.state n₀).boot.Pinned := by
    rw [hready]
    trivial
  have hpinned : ∀ m, n₀ ≤ m → (e.state m).boot.Pinned := fun m hm =>
    e.stable (P := fun s => s.boot.Pinned) (fun _ _ h hs => Step.pinned h hs) hpin₀ hm
  have hhalted : ∀ x ∈ cfg.others, ∃ n, ∀ m, n ≤ m → ((e.state m).ap x).rank = 10 := by
    intro x hx
    obtain ⟨n, _, hn⟩ := pinned_leadsTo_halted hfair hbsp hx n₀ hpin₀
    refine ⟨n, fun m hm => ?_⟩
    refine (e.stable (P := fun s => s.boot.Pinned ∧ (s.ap x).rank = 10) ?_ hn hm).2
    intro k a hstep hs
    have hle := Step.rank_le hstep (BootPc.returned_of_pinned hs.1) x
    exact ⟨Step.pinned hstep hs.1, Nat.le_antisymm (ApPc.rank_le_ten _) (hs.2 ▸ hle)⟩
  -- the moments of the finitely many processors have a largest one
  obtain ⟨n₁, hn₁⟩ : ∃ n, ∀ m, n ≤ m → ∀ x ∈ cfg.others.toFinset, ((e.state m).ap x).rank = 10 := by
    refine Filter.eventually_atTop.1 ((Filter.eventually_all_finset _).2 fun x hx => ?_)
    exact Filter.eventually_atTop.2 (hhalted x (List.mem_toFinset.1 hx))
  refine ⟨max n₀ n₁, fun m hm => ⟨hpinned m (Nat.le_trans (Nat.le_max_left _ _) hm), ?_⟩⟩
  intro i hi hne
  have hrank := hn₁ m (Nat.le_trans (Nat.le_max_right _ _) hm) (cfg.apicid i)
    (List.mem_toFinset.2 (Config.mem_others.2 ⟨hne, i, hi, rfl⟩))
  have hs := known hbsp e m
  refine ⟨hs.flags i hi (by omega), ?_, hrank⟩
  rw [hs.inv.apMode _ hne]
  exact ApPc.mode_of_rank hrank

end Live

/-! ## A fair run of two processors -/

/-- Nobody has to do anything when the boot processor makes no call and the
others halt. -/
theorem not_enabled_of_ready {cfg : Config} {s : State} (hboot : s.boot = .ready)
    (hap : ∀ x, s.ap x = .off ∨ s.ap x = .halted ∧ s.pending x = false) (c : Cpu) :
    ¬ Enabled (smp cfg) Action.cpu c s := by
  rintro ⟨a, t, ha, hstep⟩
  cases hstep with
  | onCpu => exact absurd ha (by simp [Action.cpu])
  | stack h | printStarting h | printEnabling h | spurious h | setStarted h | apMode h | apOps h
  | sti h | store h | loadEoi h | eoi h | iret h =>
    rcases hap _ with hoff | ⟨hhalted, _⟩
    · exact absurd (hoff.symm.trans h) (by simp)
    · exact absurd (hhalted.symm.trans h) (by simp)
  | deliver h hp =>
    rcases hap _ with hoff | ⟨_, hpending⟩
    · exact absurd (hoff.symm.trans h) (by simp)
    · exact absurd (hpending.symm.trans hp) (by simp)
  | bootEnable h | bootSpurious h | skip h | startAp h | icrCommand h | poll h | allStarted h
  | bootMode h | bootOps h | pin h | clear h | loadIcr h | sendIpi h | readDone h =>
    exact absurd (hboot.symm.trans h) (by simp)

/-- A fair execution of two processors, which rests when both are up. -/
theorem startup_completes_twoCpus : ∃ e : Execution (smp twoCpus), Fair Action.cpu e ∧
    ∃ n, ∀ m, n ≤ m → (e.state m).boot.Pinned ∧ ((e.state m).ap 1).rank = 10 := by
  obtain ⟨as, s, hrun, hboot, hhalted, hoff, hpending⟩ := twoCpus_ready []
  obtain ⟨e, _, hrest⟩ := exists_resting (boots_run hrun) (.init rfl)
  have hfair : Fair Action.cpu e := by
    refine fair_of_rests (fun n hn => (hrest n hn).1) (not_enabled_of_ready hboot fun x => ?_)
    by_cases hx : x = 1
    · exact Or.inr ⟨hx ▸ hhalted, hpending x⟩
    · exact Or.inl (hoff x hx)
  obtain ⟨n, hn⟩ := startup_completes (by decide) hfair
  exact ⟨e, hfair, n, fun m hm => ⟨(hn m hm).1, ((hn m hm).2 1 (by decide) (by decide)).2.2⟩⟩

end HyperBench.Smp
