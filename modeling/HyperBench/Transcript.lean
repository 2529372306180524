import HyperBench.SmpLive

/-!
# What the processors print while they start

`startothers` starts one processor after the other and waits for each of them,
so the lines that the processors print do not depend on how their steps
interleave.

* `BootPc.printed` is the text up to a program counter of the boot processor.
* `current_of_rank` is the reason: a processor that has still something to
  print is the one that the boot processor waits for.
* `boot_transcript` says that every run prints the transcript.
-/

namespace HyperBench.Smp

open Transition Function Ascii

/-- What the processor of the entry `i` prints on its way. -/
def apTexts (i : Nat) : List (List UInt8) := [startingText i, enablingText]

/-- What it has printed when it is at `pc`. -/
def ApPc.printed (i : Nat) (pc : ApPc) : List (List UInt8) := (apTexts i).take (pc.rank - 3)

/-- The entries before `n` that are not the one of the boot processor. -/
def Config.started (cfg : Config) (n : Nat) : List Nat :=
  (List.range n).filter fun i => cfg.apicid i ≠ cfg.bsp

/-- What the boot processor and the processors that it has started have
printed. -/
def BootPc.printed (cfg : Config) (ap : Nat → ApPc) : BootPc → List (List UInt8)
  | enableApic => []
  | spurious => [enablingText]
  | loop i => enablingText :: (cfg.started i).flatMap apTexts
  | start i _ | wait i =>
    enablingText :: ((cfg.started i).flatMap apTexts ++ (ap (cfg.apicid i)).printed i)
  | x2apicMode | x2apicOps | harness =>
    enablingText :: (cfg.started cfg.apicids.length).flatMap apTexts
  | _ => enablingText :: ((cfg.started cfg.apicids.length).flatMap apTexts ++ [pinText])

section Steps

variable {cfg : Config} {as : List Action} {s t : State} {a : Action} {x i : Nat}

theorem Config.started_succ (cfg : Config) (i : Nat) :
    cfg.started (i + 1) = cfg.started i ++ if cfg.apicid i = cfg.bsp then [] else [i] := by
  rw [started, List.range_succ, List.filter_append, ← started]
  split <;> simp_all

/-- The boot processor is in the round of the entry `i`. -/
def BootPc.In (i : Nat) (pc : BootPc) : Prop := (∃ k, pc = .start i k) ∨ pc = .wait i

theorem BootPc.In.printed {pc : BootPc} (h : pc.In i) (ap : Nat → ApPc) :
    pc.printed cfg ap
      = enablingText :: ((cfg.started i).flatMap apTexts ++ (ap (cfg.apicid i)).printed i) := by
  rcases h with ⟨k, rfl⟩ | rfl <;> rfl

/-- A processor between its reset and the store of its flag is the one that the
boot processor is waiting for. -/
theorem current_of_rank (hinv : Inv cfg s) (h : StartInv cfg as s) (hlow : 0 < (s.ap x).rank)
    (hhigh : (s.ap x).rank < 7) : ∃ i, i < cfg.apicids.length ∧ cfg.apicid i = x ∧ s.boot.In i := by
  have hoff : s.ap x ≠ .off := by
    intro h0
    rw [h0] at hlow
    exact absurd hlow (by decide)
  obtain ⟨hne, i, hi, rfl⟩ := Config.mem_others.1 (h.listed x hoff)
  have hnext : i < s.boot.next cfg := by
    by_contra hle
    exact hoff (hinv.fresh i hi (Nat.le_of_not_lt hle))
  have hfinished : s.boot.finished cfg ≤ i := by
    by_contra hlt
    have := (h.started i (h.up i (Nat.lt_of_not_le hlt) hne)).2
    omega
  refine ⟨i, hi, rfl, ?_⟩
  cases hboot : s.boot with
  | start j k =>
    rw [hboot] at hnext hfinished
    cases k with
    | zero => exact absurd (Nat.lt_of_lt_of_le hnext hfinished) (Nat.lt_irrefl _)
    | succ k =>
      obtain rfl : i = j := Nat.le_antisymm (Nat.le_of_lt_succ hnext) hfinished
      exact Or.inl ⟨_, rfl⟩
  | wait j =>
    rw [hboot] at hnext hfinished
    obtain rfl : i = j := Nat.le_antisymm (Nat.le_of_lt_succ hnext) hfinished
    exact Or.inr rfl
  | _ =>
    rw [hboot] at hnext hfinished
    exact absurd (Nat.lt_of_lt_of_le hnext hfinished) (Nat.lt_irrefl _)

/-- The machine has printed what its program counters say. -/
def Prints (cfg : Config) (early : List (List UInt8)) (s : State) : Prop :=
  s.out = early ++ s.boot.printed cfg s.ap

variable {early texts : List (List UInt8)}

theorem BootPc.In.unique {pc : BootPc} {j : Nat} (h : pc.In i) (h' : pc.In j) : i = j := by
  rcases h with ⟨k, rfl⟩ | rfl <;> rcases h' with ⟨k', h'⟩ | h' <;> simp_all

/-- Outside of the rounds the transcript does not depend on the other
processors. -/
theorem BootPc.printed_congr {pc : BootPc} (h : ∀ i, ¬ pc.In i) (ap ap' : Nat → ApPc) :
    pc.printed cfg ap = pc.printed cfg ap' := by
  cases pc with
  | start i k => exact absurd (Or.inl ⟨k, rfl⟩) (h i)
  | wait i => exact absurd (Or.inr rfl) (h i)
  | _ => rfl

/-- A step of an application processor, which prints only in its own round. -/
theorem Prints.ap_step {q : ApPc} (h : Prints cfg early s) (hboot : t.boot = s.boot)
    (hap : t.ap = update s.ap x q) (hout : t.out = s.out ++ texts)
    (hround : texts ≠ [] → ∃ i, cfg.apicid i = x ∧ s.boot.In i)
    (htexts : ∀ i, cfg.apicid i = x → s.boot.In i → q.printed i = (s.ap x).printed i ++ texts) :
    Prints cfg early t := by
  have hsame : texts = [] → s.boot.printed cfg t.ap = s.boot.printed cfg s.ap →
      Prints cfg early t := by
    intro hnil hprinted
    rw [Prints, hout, hnil, List.append_nil, hboot, hprinted]
    exact h
  by_cases hin : ∃ i, s.boot.In i
  · obtain ⟨i, hi⟩ := hin
    by_cases hx : cfg.apicid i = x
    · have htext := htexts i hx hi
      rw [Prints, hi.printed, hx] at h
      rw [Prints, hout, h, hboot, hi.printed, hap, hx, update_self, htext]
      simp
    · refine hsame ?_ ?_
      · by_contra hne
        obtain ⟨j, hj, hin⟩ := hround hne
        exact hx (hi.unique hin ▸ hj)
      · rw [hi.printed, hi.printed, hap, update_of_ne hx]
  · have hnone := not_exists.1 hin
    refine hsame ?_ (BootPc.printed_congr hnone _ _)
    by_contra hne
    obtain ⟨j, _, hj⟩ := hround hne
    exact hnone j hj

/-- A step that neither prints nor changes what is left to print. -/
theorem Prints.ap_move {q : ApPc} (h : Prints cfg early s) (hboot : t.boot = s.boot)
    (hap : t.ap = update s.ap x q) (hout : t.out = s.out)
    (hrank : q.rank ≤ 3 ∧ (s.ap x).rank ≤ 3 ∨ 5 ≤ q.rank ∧ 5 ≤ (s.ap x).rank) :
    Prints cfg early t := by
  have hout' : t.out = s.out ++ [] := by
    rw [hout, List.append_nil]
  refine h.ap_step hboot hap hout' (fun hne => absurd rfl hne) ?_
  intro i _ _
  have hfull : ∀ n, 2 ≤ n → (apTexts i).take n = apTexts i := fun n hn =>
    List.take_of_length_le (by exact hn)
  rw [List.append_nil, ApPc.printed, ApPc.printed]
  rcases hrank with ⟨hq, hp⟩ | ⟨hq, hp⟩
  · rw [Nat.sub_eq_zero_of_le hq, Nat.sub_eq_zero_of_le hp]
  · rw [hfull _ (by omega), hfull _ (by omega)]

/-- A step of the boot processor. -/
theorem Prints.boot_step (h : Prints cfg early s) (hout : t.out = s.out ++ texts)
    (hprinted : t.boot.printed cfg t.ap = s.boot.printed cfg s.ap ++ texts) :
    Prints cfg early t := by
  rw [Prints] at h
  rw [Prints, hout, h, hprinted, List.append_assoc]

theorem unknownApicid_eq_nil (hmode : s.mode x = .xapic) (hi : i < cfg.apicids.length)
    (hx : cfg.apicid i = x) : unknownApicid cfg s x = [] := by
  rw [unknownApicid, mycpu_eq hmode hi hx]
  rfl

/-- The boot processor finds its own entry up to the end of `startothers`. -/
theorem unknownApicid_bsp (hinv : Inv cfg s) (hbsp : cfg.bsp ∈ cfg.apicids)
    (hboot : s.boot = .loop i) : unknownApicid cfg s cfg.bsp = [] := by
  obtain ⟨j, hj, hjbsp⟩ := List.mem_iff_getElem.1 hbsp
  refine unknownApicid_eq_nil ?_ hj ((Config.apicid_eq hj).trans hjbsp)
  rw [hinv.bootMode, hboot]
  rfl

/-- So does a processor up to the store of its flag. -/
theorem xapic_of_rank (hinv : Inv cfg s) (hlow : 2 ≤ (s.ap x).rank)
    (hhigh : (s.ap x).rank < 7) : s.mode x = .xapic := by
  have hrunning : (s.ap x).Running := by
    cases hx : s.ap x <;> first | trivial | (rw [hx] at hlow; exact absurd hlow (by decide))
  rw [hinv.mode_of_running hrunning]
  cases hx : s.ap x <;> first | rfl | (rw [hx] at hhigh; exact absurd hhigh (by simp [ApPc.rank]))

theorem prints_skip (h : Prints cfg early s) (hinv : Inv cfg s) (hbsp : cfg.bsp ∈ cfg.apicids)
    (hboot : s.boot = .loop i) (hr : Mycpu cfg s cfg.bsp i) :
    Prints cfg early ((s.print (unknownApicid cfg s cfg.bsp)).setBoot (.loop (i + 1))) := by
  have hown := skip_eq_bsp hinv hbsp hboot hr
  rw [unknownApicid_bsp hinv hbsp hboot]
  refine h.boot_step rfl ?_
  rw [hboot]
  simp [State.setBoot, BootPc.printed, Config.started_succ, hown]

/-- The next processor has printed nothing yet. -/
theorem prints_startAp (h : Prints cfg early s) (hinv : Inv cfg s) (hbsp : cfg.bsp ∈ cfg.apicids)
    (hboot : s.boot = .loop i) (hi : i < cfg.apicids.length) :
    Prints cfg early ((s.print (unknownApicid cfg s cfg.bsp)).setBoot (.start i 0)) := by
  have hoff : s.ap (cfg.apicid i) = .off := hinv.fresh i hi (by rw [hboot]; exact Nat.le_refl i)
  rw [unknownApicid_bsp hinv hbsp hboot]
  refine h.boot_step rfl ?_
  rw [hboot]
  simp [State.setBoot, State.print, BootPc.printed, hoff, ApPc.printed, ApPc.rank]

theorem prints_icrCommand {k : Nat} {cmd : IcrCommand} (h : Prints cfg early s)
    (hinv : Inv cfg s) (hboot : s.boot = .start i k) (hcmd : lapicstartap[k]? = some cmd) :
    Prints cfg early ((s.setAp (cfg.apicid i) (cmd.effect (s.ap (cfg.apicid i)))).setBoot
      (if k + 1 < lapicstartap.length then .start i (k + 1) else .wait i)) := by
  have hin : (if k + 1 < lapicstartap.length then BootPc.start i (k + 1) else .wait i).In i := by
    split
    · exact Or.inl ⟨_, rfl⟩
    · exact Or.inr rfl
  have hin₀ : s.boot.In i := Or.inl ⟨k, hboot⟩
  refine h.boot_step (List.append_nil _).symm ?_
  refine (hin.printed (update s.ap _ _)).trans ?_
  rw [hin₀.printed, update_self, List.append_nil]
  rcases icr_effect hinv hboot hcmd with heq | ⟨hlow, hlow'⟩
  · rw [heq]
  · rw [ApPc.printed, ApPc.printed, Nat.sub_eq_zero_of_le (by omega),
      Nat.sub_eq_zero_of_le (by omega)]

/-- The processor whose flag is up has printed everything. -/
theorem prints_poll (h : Prints cfg early s) (hinv : Inv cfg s) (hstart : StartInv cfg as s)
    (hboot : s.boot = .wait i) :
    Prints cfg early (s.setBoot (if s.started i then .loop (i + 1) else .wait i)) := by
  refine h.boot_step (List.append_nil _).symm ?_
  obtain ⟨_, hne, _⟩ := hinv.waiting i hboot
  cases hstarted : s.started i with
  | false =>
    rw [hboot]
    exact (List.append_nil _).symm
  | true =>
    have hrank := (hstart.started i hstarted).2
    have hfull : (s.ap (cfg.apicid i)).printed i = apTexts i :=
      List.take_of_length_le (by show 2 ≤ _; omega)
    rw [hboot]
    simp [State.setBoot, BootPc.printed, Config.started_succ, hne, hfull]

theorem prints_step (h : Prints cfg early s) (hinv : Inv cfg s) (hstart : StartInv cfg as s)
    (hbsp : cfg.bsp ∈ cfg.apicids) (hstep : Step cfg s a t) : Prints cfg early t := by
  have hround : ∀ x pc, s.ap x = pc → 2 ≤ pc.rank → pc.rank < 7 →
      ∃ i, cfg.apicid i = x ∧ s.boot.In i ∧ mycpu cfg s x = some i ∧
        unknownApicid cfg s x = [] := by
    intro x pc hx hlow hhigh
    subst hx
    obtain ⟨i, hi, hid, hin⟩ := current_of_rank hinv hstart (by omega) hhigh
    have hmode := xapic_of_rank hinv hlow hhigh
    exact ⟨i, hid, hin, mycpu_eq hmode hi hid, unknownApicid_eq_nil hmode hi hid⟩
  cases hstep with
  | skip hb _ hr => exact prints_skip h hinv hbsp hb hr
  | startAp hb hi => exact prints_startAp h hinv hbsp hb hi
  | icrCommand hb hcmd => exact prints_icrCommand h hinv hb hcmd
  | poll hb => exact prints_poll h hinv hstart hb
  | @allStarted i hb hi =>
    have hle := hstart.begun_le
    rw [hb] at hle
    obtain rfl : i = cfg.apicids.length := Nat.le_antisymm hle hi
    refine h.boot_step (List.append_nil _).symm ?_
    rw [hb]
    exact (List.append_nil _).symm
  | bootEnable hb | pin hb =>
    refine h.boot_step rfl ?_
    rw [hb]
    simp [State.setBoot, BootPc.printed]
  | bootSpurious hb | bootOps hb | onCpu i hb | clear hb | loadIcr hb | sendIpi hb =>
    refine h.boot_step (List.append_nil _).symm ?_
    rw [hb]
    exact (List.append_nil _).symm
  | bootMode hb =>
    refine h.boot_step (List.append_nil _).symm ?_
    rw [hb]
    rcases afterMode_cases cfg BootPc.x2apicOps .harness with ⟨_, hpc, _⟩ | ⟨_, hpc, _⟩ <;>
      simp [State.setBoot, hpc, BootPc.printed]
  | @readDone x hb =>
    refine h.boot_step (List.append_nil _).symm ?_
    rw [hb]
    cases s.ipiDone <;> exact (List.append_nil _).symm
  | @printStarting x r ha hr =>
    obtain ⟨i, hid, hin, hmycpu, hknown⟩ := hround x _ ha (by decide) (by decide)
    obtain rfl := hr i hmycpu
    refine h.ap_step rfl rfl (by rw [hknown]; rfl) (fun _ => ⟨r, hid, hin⟩) fun j _ hjn => ?_
    obtain rfl := hin.unique hjn
    rw [ha]
    rfl
  | @printEnabling x ha =>
    obtain ⟨i, hid, hin, _⟩ := hround x _ ha (by decide) (by decide)
    refine h.ap_step rfl rfl rfl (fun _ => ⟨i, hid, hin⟩) fun j _ _ => ?_
    rw [ha]
    rfl
  | @setStarted x r ha hr =>
    obtain ⟨i, hid, hin, _, hknown⟩ := hround x _ ha (by decide) (by decide)
    refine h.ap_move (x := x) rfl rfl ?_ (Or.inr ?_)
    · rw [hknown]
      exact List.append_nil _
    · rw [ha]
      decide
  | @stack x ha | @spurious x ha | @apOps x ha | @sti x ha | @deliver x ha | @store x ha
  | @loadEoi x ha | @eoi x _ ha | @iret x ha =>
    refine h.ap_move (x := x) rfl rfl rfl ?_
    rw [ha]
    simp [ApPc.rank]
  | @apMode x ha =>
    refine h.ap_move (x := x) rfl rfl rfl (Or.inr ?_)
    rw [ha]
    rcases afterMode_cases cfg ApPc.x2apicOps .sti with ⟨_, hpc, _⟩ | ⟨_, hpc, _⟩ <;>
      simp [hpc, ApPc.rank]

end Steps

theorem prints_run {cfg : Config} {early : List (List UInt8)} {as : List Action} {s : State}
    (hbsp : cfg.bsp ∈ cfg.apicids) (hrun : Run (boots cfg early) as s) : Prints cfg early s := by
  induction hrun with
  | init hinit =>
    rw [Prints, hinit.1.1, hinit.2]
    exact (List.append_nil early).symm
  | step hrun hstep ih =>
    have hsmp := boots_run hrun
    exact prints_step ih (inv_run hsmp) (startInv_run hbsp hsmp) hbsp hstep

/-! ## The transcript -/

/-- The texts of a whole start, up to the line that the host waits for. -/
def Config.transcript (cfg : Config) : List (List UInt8) :=
  enablingText :: ((cfg.started cfg.apicids.length).flatMap apTexts ++ [pinText])

section Transcript

variable {cfg : Config} {early : List (List UInt8)} {as : List Action} {s : State}

theorem Config.started_prefix (cfg : Config) {m n : Nat} (h : m ≤ n) :
    (cfg.started m).flatMap apTexts <+: (cfg.started n).flatMap apTexts := by
  obtain ⟨k, rfl⟩ := Nat.exists_eq_add_of_le h
  rw [started, started, List.range_add, List.filter_append, List.flatMap_append]
  exact List.prefix_append _ _

/-- A round stays within the lines of its own entry. -/
theorem BootPc.In.printed_prefix {pc : BootPc} {i : Nat} (h : pc.In i)
    (hi : i < cfg.apicids.length) (hne : cfg.apicid i ≠ cfg.bsp) (ap : Nat → ApPc) :
    pc.printed cfg ap <+: cfg.transcript := by
  have hsucc : (cfg.started (i + 1)).flatMap apTexts
      = (cfg.started i).flatMap apTexts ++ apTexts i := by
    rw [Config.started_succ, if_neg hne, List.flatMap_append, List.flatMap_singleton]
  have hround : (cfg.started i).flatMap apTexts ++ (ap (cfg.apicid i)).printed i
      <+: (cfg.started (i + 1)).flatMap apTexts := by
    rw [hsucc, List.prefix_append_right_inj]
    exact List.take_prefix _ _
  rw [h.printed, Config.transcript, List.cons_prefix_cons]
  exact ⟨rfl, (hround.trans (cfg.started_prefix hi)).trans (List.prefix_append _ _)⟩

theorem BootPc.printed_prefix (hinv : Inv cfg s) (hstart : StartInv cfg as s) :
    s.boot.printed cfg s.ap <+: cfg.transcript := by
  have hlines : ∀ n, n ≤ cfg.apicids.length →
      enablingText :: (cfg.started n).flatMap apTexts <+: cfg.transcript := by
    intro n hn
    rw [Config.transcript, List.cons_prefix_cons]
    exact ⟨rfl, (cfg.started_prefix hn).trans (List.prefix_append _ _)⟩
  cases hboot : s.boot with
  | enableApic => exact List.nil_prefix
  | spurious => exact hlines 0 (Nat.zero_le _)
  | loop i =>
    have hle := hstart.begun_le
    rw [hboot] at hle
    exact hlines i hle
  | start i k =>
    obtain ⟨hi, hne, _⟩ := hinv.target i k hboot
    exact BootPc.In.printed_prefix (Or.inl ⟨k, rfl⟩) hi hne s.ap
  | wait i =>
    obtain ⟨hi, hne, _⟩ := hinv.waiting i hboot
    exact BootPc.In.printed_prefix (Or.inr rfl) hi hne s.ap
  | x2apicMode | x2apicOps | harness => exact hlines _ (Nat.le_refl _)
  | ready | clear x | load x | icr x ops | done x => exact List.prefix_refl _

theorem out_of_pinned (hbsp : cfg.bsp ∈ cfg.apicids) (hrun : Run (boots cfg early) as s)
    (hpinned : s.boot.Pinned) : s.out = early ++ cfg.transcript := by
  have hprints : s.out = early ++ s.boot.printed cfg s.ap := prints_run hbsp hrun
  rw [hprints]
  cases hboot : s.boot with
  | ready | clear x | load x | icr x ops | done x => rfl
  | _ =>
    rw [hboot] at hpinned
    exact hpinned.elim

/-- However the processors interleave, they print one and the same transcript:
a run has printed a part of it, and all of it when `harness_main` has printed its
first line. -/
theorem boot_transcript (hbsp : cfg.bsp ∈ cfg.apicids) (hrun : Run (boots cfg early) as s) :
    s.out <+: early ++ cfg.transcript ∧ (s.boot.Pinned → s.out = early ++ cfg.transcript) := by
  have hsmp := boots_run hrun
  have hprints : s.out = early ++ s.boot.printed cfg s.ap := prints_run hbsp hrun
  refine ⟨?_, out_of_pinned hbsp hrun⟩
  rw [hprints, List.prefix_append_right_inj]
  exact BootPc.printed_prefix (inv_run hsmp) (startInv_run hbsp hsmp)

end Transcript

theorem boot_transcript_twoCpus : ∃ as s, Run (boots twoCpus [ascii "a line\n"]) as s ∧
    s.out = [ascii "a line\n", enablingText, startingText 1, enablingText, pinText] := by
  obtain ⟨as, s, hrun, hboot, _⟩ := twoCpus_ready [ascii "a line\n"]
  exact ⟨as, s, hrun, (boot_transcript (by decide) hrun).2 (hboot ▸ trivial)⟩

end HyperBench.Smp
