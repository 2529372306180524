import HyperBench.Console
import HyperBench.Lib.Mutex
import Mathlib.Data.List.TakeDrop

/-!
# `console_puts` on any number of processors

`printf` of the build with `__BARE_METAL` ends in `console_puts`.  The calls of
the processors interleave character by character around the lock of the
console, and the screen shows their strings one after the other.
-/

namespace HyperBench.Console

open Transition Mutex

/-- Where a call is inside the lock. -/
inductive Pos where
  /-- `if (!console_cleared)` -/
  | clear
  /-- The loop at `buf[i]`. -/
  | char (i : Nat)
  deriving DecidableEq

def Pos.written : Pos → Nat
  | clear => 0
  | char i => i

inductive PutsStep (buf : List UInt8) : Pos → Screen → Pos → Screen → Prop where
  | clear {s} : PutsStep buf .clear s (.char 0) (prepare s)
  | char {s s' i} (hi : i < buf.length) (h : consolePutc s buf[i] = some s') :
      PutsStep buf (.char i) s (.char (i + 1)) s'

def consoleSection : Section (List UInt8) Pos Screen where
  start _ := .clear
  Step := PutsStep
  Done buf pos := pos = .char buf.length
  Env _ _ := False

/-- The screen in front of each step of a call, with the text of the calls
before it. -/
def Pos.At (buf text : List UInt8) (s : Screen) : Pos → Prop
  | clear => Ready s text
  | char i => Shows s (page (text ++ buf.take i)) ∧ i ≤ buf.length

theorem Pos.At.ready {buf text : List UInt8} {s : Screen} {pos : Pos} (h : pos.At buf text s) :
    Ready s (text ++ buf.take pos.written) := by
  cases pos with
  | clear =>
    rw [written, List.take_zero, List.append_nil]
    exact h
  | char i => exact .inr h.1

theorem PutsStep.at {buf text : List UInt8} {pos pos' : Pos} {s s' : Screen}
    (hstep : PutsStep buf pos s pos' s') (hat : pos.At buf text s) (hbuf : ∀ c ∈ buf, c < 128) :
    pos'.At buf text s' := by
  cases hstep with
  | clear =>
    refine ⟨?_, Nat.zero_le _⟩
    rw [List.take_zero, List.append_nil]
    exact Ready.prepare hat
  | @char _ _ i hi h =>
    obtain ⟨t, ht, hshows⟩ := consolePutc_shows hat.1 (hbuf _ (List.getElem_mem hi))
    obtain rfl : t = s' := Option.some.inj (ht.symm.trans h)
    refine ⟨?_, hi⟩
    rw [← List.take_concat_get' buf i hi, ← List.append_assoc, page_append]
    exact hshows

/-- Between two calls, and inside of one. -/
structure Inv (as : List (AloneAction (List UInt8))) (s : Alone (List UInt8) Pos Screen) :
    Prop where
  idle : s.current = none → Ready s.data (entered as).flatten
  busy : ∀ buf pos, s.current = some (buf, pos) → ∃ earlier, entered as = earlier ++ [buf] ∧
    pos.At buf earlier.flatten s.data

theorem inv_run {as : List (AloneAction (List UInt8))} {s : Alone (List UInt8) Pos Screen}
    (hrun : Run (alone consoleSection (·.cleared = false)) as s) :
    (∀ buf ∈ entered as, ∀ c ∈ buf, c < 128) → Inv as s := by
  refine hrun.invariant
    (fun as s => (∀ buf ∈ entered as, ∀ c ∈ buf, c < 128) → Inv as s) ?_ ?_
  · rintro ⟨c, s⟩ ⟨rfl, hcleared⟩ _
    exact ⟨fun _ => .inl ⟨hcleared, rfl⟩, by simp⟩
  · intro as s a t h hstep hascii
    cases hstep with
    | @enter s buf =>
      rw [entered_enter] at hascii
      have hidle := (h fun b hb => hascii b (List.mem_append_left _ hb)).idle rfl
      refine ⟨by simp, ?_⟩
      rintro _ _ ⟨⟩
      exact ⟨entered as, entered_enter as buf, hidle⟩
    | @run buf pos pos' s s' hsec =>
      rw [entered_silent rfl] at hascii
      obtain ⟨earlier, hentered, hat⟩ := (h hascii).busy _ _ rfl
      have hbuf := hascii buf (by simp [hentered])
      refine ⟨by simp, ?_⟩
      rintro _ _ ⟨⟩
      exact ⟨earlier, (entered_silent rfl as).trans hentered, PutsStep.at hsec hat hbuf⟩
    | @leave buf pos s hdone =>
      rw [entered_silent rfl] at hascii
      obtain ⟨earlier, hentered, hat⟩ := (h hascii).busy _ _ rfl
      obtain rfl : pos = .char buf.length := hdone
      refine ⟨fun _ => ?_, by simp⟩
      rw [entered_silent rfl, hentered]
      simpa [Pos.written] using hat.ready
    | env henv => exact henv.elim

/-- In every run of calls with 7-bit strings, the screen shows the strings in
the order of the lock, of the last one a part while its call runs; and a call
never writes through the null pointer. -/
theorem console_puts_serialised {π : Type*} [DecidableEq π] {as : List (Action π (List UInt8))}
    {s : Mutex.State π (List UInt8) Pos Screen}
    (hrun : Run (locked π consoleSection (·.cleared = false)) as s)
    (hascii : ∀ buf ∈ messages as, ∀ c ∈ buf, c < 128) :
    (∃ text, Given Pos.written as s text ∧ Ready s.data text) ∧
    ∀ p buf i (hi : i < buf.length), s.pc p = .inside buf (.char i) →
      ∃ s', consolePutc s.data buf[i] = some s' := by
  obtain ⟨c, hserial⟩ := serialises hrun
  have hinv := inv_run hserial.run (by rw [entered_serial]; exact hascii)
  refine ⟨Given.of_serial Pos.written hserial hinv.idle fun buf pos hc => ?_,
    fun p buf i hi hp => ?_⟩
  · obtain ⟨earlier, hentered, hat⟩ := hinv.busy buf pos hc
    exact ⟨earlier, hentered, hat.ready⟩
  · have hc := hserial.inside p buf _ hp
    obtain ⟨earlier, hentered, hat⟩ := hinv.busy buf _ hc
    have hbuf : buf ∈ messages as := by
      rw [messages, ← entered_serial, hentered]
      simp
    obtain ⟨s', hs', _⟩ := consolePutc_shows hat.1 (hascii buf hbuf _ (List.getElem_mem hi))
    exact ⟨s', hs'⟩

/-- A call with one letter. -/
theorem consoleSection_letter {s : Screen} {text : List UInt8} (hready : Ready s text) {c : UInt8}
    (hc : c < 128) : ∃ t, consoleSection.Steps [c] (.clear, s) (.char 1, t) ∧
      Ready t (text ++ [c]) := by
  obtain ⟨t, ht, hshows⟩ := consolePutc_shows hready.prepare hc
  have hsteps : consoleSection.Steps [c] (.clear, s) _ := .refl
  have hsteps := (hsteps.step .clear).step (.char Nat.one_pos ht)
  exact ⟨t, hsteps, .inr (by rwa [page_append])⟩

/-- Two processors write a letter each to a screen with anything on it, and the
second one finds the lock taken. -/
theorem console_puts_serialised_contended : ∃ as s,
    Run (locked Bool consoleSection (·.cleared = false)) as s ∧ .spin true ∈ as ∧
    messages as = [[0x61], [0x62]] ∧ ∃ text, Given Pos.written as s text ∧ Ready s.data text := by
  have hinit : (locked Bool consoleSection (·.cleared = false)).Init
      ⟨false, fun _ => .idle, ⟨fun _ => 7, 0, 0, false⟩⟩ := ⟨rfl, fun _ => rfl, rfl⟩
  obtain ⟨s₁, hsteps₁, hready₁⟩ := consoleSection_letter (s := ⟨fun _ => 7, 0, 0, false⟩)
    (c := 0x61) (.inl ⟨rfl, rfl⟩) (by decide)
  obtain ⟨s₂, hsteps₂, _⟩ := consoleSection_letter hready₁ (c := 0x62) (by decide)
  obtain ⟨as, hrun, hacquired, hspin⟩ := exists_contended (.init hinit) (p := false) (q := true)
    (by decide) rfl (fun _ => rfl) hsteps₁ rfl hsteps₂ rfl
  have hmessages : messages as = [[0x61], [0x62]] := by
    rw [messages, hacquired]
    rfl
  refine ⟨_, _, hrun, hspin, hmessages, (console_puts_serialised hrun ?_).1⟩
  rw [List.nil_append, hmessages]
  decide +kernel

end HyperBench.Console
