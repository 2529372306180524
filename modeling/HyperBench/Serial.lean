import HyperBench.Lib.Mutex
import Mathlib.Data.List.Infix
import Mathlib.Data.List.TakeDrop

/-!
# `x86_64/serial.c`

`puts` on any number of processors, in both builds of `print_serial`, and the
UART behind the port.  A string is given by its bytes in front of the NUL.

* `Uart` is as much of the device as the code uses.  The holding register is
  emptied by the device, at any moment, and a byte that is written to it
  before that is an overrun.
* `printSerial` is the code with `USE_SERIAL`, one port access in a step, with
  `serial_init` and `serial_outb`.
* `printString` is the code without `USE_SERIAL`, one byte of `rep outsb` in a
  step.
* `puts_polled` and `puts_string` say what goes over the line.
-/

namespace HyperBench.Serial

open Transition Function Mutex

def serialIobase : Nat := 0x3f8

/-! ## The device -/

structure Uart where
  /-- The line control register. -/
  lcr : UInt8
  /-- The two bytes of the divisor. -/
  dll : UInt8
  dlm : UInt8
  /-- The interrupt enable register. -/
  ier : UInt8
  /-- The byte that waits to be sent. -/
  holding : Option UInt8
  /-- The bytes that were sent. -/
  wire : List UInt8
  /-- How many bytes were overwritten in the holding register. -/
  overruns : Nat

namespace Uart

/-- The bit of the line control register that puts the divisor in the place
of the first two registers. -/
def dlab (u : Uart) : Bool := u.lcr &&& 0x80 != 0

/-- The bytes that the device was given and has not lost. -/
def stream (u : Uart) : List UInt8 := u.wire ++ u.holding.toList

/-- A byte for the holding register. -/
def hold (u : Uart) (v : UInt8) : Uart :=
  { u with
    holding := some v
    overruns := if u.holding.isSome then u.overruns + 1 else u.overruns }

/-- The device sends the byte that waits. -/
def Transmit (u t : Uart) : Prop :=
  ∃ v, u.holding = some v ∧ t = { u with holding := none, wire := u.wire ++ [v] }

end Uart

def outb (v : UInt8) (port : Nat) (u : Uart) : Uart :=
  if port = serialIobase + 0x00 then
    if u.dlab then { u with dll := v } else u.hold v
  else if port = serialIobase + 0x01 then
    if u.dlab then { u with dlm := v } else { u with ier := v }
  else if port = serialIobase + 0x03 then { u with lcr := v }
  else u

/-- What `inb` may read.  Of the line status only the bit for an empty holding
register is fixed. -/
def Inb (u : Uart) (port : Nat) (v : UInt8) : Prop :=
  (port = serialIobase + 0x03 → v = u.lcr) ∧
    (port = serialIobase + 0x05 → (v &&& 0x20 ≠ 0 ↔ u.holding = none))

/-! ## `print_serial` with `USE_SERIAL` -/

/-- The device and `serial_inited`. -/
structure Data where
  uart : Uart
  serialInited : Bool

/-- Where a call is: in front of the step that the name says. -/
inductive Pos where
  /-- `if (!serial_inited)` -/
  | test
  /-- The first `inb` of `serial_init`. -/
  | readLcr
  /-- `outb(lcr, serial_iobase + 0x03)` with the bit set. -/
  | setDlab (lcr : UInt8)
  | divisorLow
  | divisorHigh
  /-- The second `inb` of `serial_init`. -/
  | readLcrAgain
  /-- `outb(lcr, serial_iobase + 0x03)` with the bit cleared. -/
  | clearDlab (lcr : UInt8)
  /-- `serial_inited = 1` -/
  | setInited
  /-- The `inb` of `serial_outb` for the byte `i`, or the end of the loop. -/
  | poll (i : Nat)
  /-- The `outb` of `serial_outb`. -/
  | send (i : Nat)
  deriving DecidableEq

inductive PrintStep (buf : List UInt8) : Pos → Data → Pos → Data → Prop where
  | test {d} : PrintStep buf .test d (if d.serialInited then .poll 0 else .readLcr) d
  | readLcr {d lcr} (h : Inb d.uart (serialIobase + 0x03) lcr) :
      PrintStep buf .readLcr d (.setDlab (lcr ||| 0x80)) d
  | setDlab {d lcr} : PrintStep buf (.setDlab lcr) d .divisorLow
      { d with uart := outb lcr (serialIobase + 0x03) d.uart }
  | divisorLow {d} : PrintStep buf .divisorLow d .divisorHigh
      { d with uart := outb 0x01 (serialIobase + 0x00) d.uart }
  | divisorHigh {d} : PrintStep buf .divisorHigh d .readLcrAgain
      { d with uart := outb 0x00 (serialIobase + 0x01) d.uart }
  | readLcrAgain {d lcr} (h : Inb d.uart (serialIobase + 0x03) lcr) :
      PrintStep buf .readLcrAgain d (.clearDlab (lcr &&& ~~~ 0x80)) d
  | clearDlab {d lcr} : PrintStep buf (.clearDlab lcr) d .setInited
      { d with uart := outb lcr (serialIobase + 0x03) d.uart }
  | setInited {d} : PrintStep buf .setInited d (.poll 0) { d with serialInited := true }
  | poll {d i lsr} (hi : i < buf.length) (h : Inb d.uart (serialIobase + 0x05) lsr) :
      PrintStep buf (.poll i) d (if lsr &&& 0x20 = 0 then .poll i else .send i) d
  | send {d i} (hi : i < buf.length) : PrintStep buf (.send i) d (.poll (i + 1))
      { d with uart := outb buf[i] (serialIobase + 0x00) d.uart }

def printSerial : Section (List UInt8) Pos Data where
  start _ := .test
  Step := PrintStep
  Done buf pos := pos = .poll buf.length
  Env d d' := d.uart.Transmit d'.uart ∧ d'.serialInited = d.serialInited

/-! ## `print_serial` without `USE_SERIAL` -/

/-- `rep outsb`, with the number of bytes that are out already. -/
def printString : Section (List UInt8) Nat Uart where
  start _ := 0
  Step buf i u j t := ∃ h : i < buf.length, j = i + 1 ∧ t = outb buf[i] serialIobase u
  Done buf i := i = buf.length
  Env u t := u.Transmit t

/-! ## The registers -/

namespace Uart

/-- The line runs at 115200 baud, and the first register is the holding
register. -/
structure Configured (u : Uart) : Prop where
  dlab : u.dlab = false
  dll : u.dll = 0x01
  dlm : u.dlm = 0x00

/-- What `print_serial` leaves as it was, and no byte is lost. -/
structure Kept (u₀ u : Uart) : Prop where
  /-- The bits of the line control register for the format of a byte. -/
  format : u.lcr &&& 0x7f = u₀.lcr &&& 0x7f
  ier : u.ier = u₀.ier
  overruns : u.overruns = u₀.overruns

end Uart

section Registers

variable {u t : Uart} {v : UInt8}

theorem or_and (a b c : UInt8) : (a ||| b) &&& c = a &&& c ||| b &&& c :=
  UInt8.eq_of_toBitVec_eq BitVec.and_or_distrib_right

theorem dlab_set (lcr : UInt8) : (lcr ||| 0x80) &&& 0x80 ≠ 0 := by
  rw [or_and, Ne, UInt8.or_eq_zero_iff]
  exact fun h => absurd h.2 (by decide)

theorem dlab_clear (lcr : UInt8) : (lcr &&& ~~~ 0x80) &&& 0x80 = 0 := by
  rw [UInt8.and_assoc]
  exact UInt8.and_zero

theorem format_set (lcr : UInt8) : (lcr ||| 0x80) &&& 0x7f = lcr &&& 0x7f := by
  rw [or_and]
  exact UInt8.or_zero

theorem format_clear (lcr : UInt8) : (lcr &&& ~~~ 0x80) &&& 0x7f = lcr &&& 0x7f := by
  rw [UInt8.and_assoc]
  rfl

theorem outb_lcr (v : UInt8) (u : Uart) : outb v (serialIobase + 0x03) u = { u with lcr := v } :=
  rfl

theorem outb_low (v : UInt8) (hu : u.dlab = true) :
    outb v (serialIobase + 0x00) u = { u with dll := v } := by
  simp [outb, hu]

theorem outb_high (v : UInt8) (hu : u.dlab = true) :
    outb v (serialIobase + 0x01) u = { u with dlm := v } := by
  simp [outb, hu]

theorem outb_hold (v : UInt8) (hu : u.dlab = false) :
    outb v (serialIobase + 0x00) u = u.hold v := by
  simp [outb, hu]

theorem Uart.Transmit.stream (h : u.Transmit t) : t.stream = u.stream := by
  obtain ⟨v, hv, rfl⟩ := h
  simp [Uart.stream, hv]

theorem Uart.hold_stream (v : UInt8) (hu : u.holding = none) :
    (u.hold v).stream = u.stream ++ [v] := by
  simp [Uart.stream, Uart.hold, hu]

end Registers

/-! ## One call after the other, with `USE_SERIAL` -/

/-- How many bytes of its string a call has given to the device. -/
def Pos.sent : Pos → Nat
  | poll i | send i => i
  | _ => 0

/-- What holds in front of each step of a call. -/
def Pos.At (buf : List UInt8) (d : Data) : Pos → Prop
  | test => d.serialInited = true → d.uart.Configured
  | readLcr => d.serialInited = false
  | setDlab lcr => d.serialInited = false ∧ lcr = d.uart.lcr ||| 0x80
  | divisorLow => d.serialInited = false ∧ d.uart.dlab = true
  | divisorHigh => d.serialInited = false ∧ d.uart.dlab = true ∧ d.uart.dll = 0x01
  | readLcrAgain => d.serialInited = false ∧ d.uart.dll = 0x01 ∧ d.uart.dlm = 0x00
  | clearDlab lcr => d.serialInited = false ∧ d.uart.dll = 0x01 ∧ d.uart.dlm = 0x00 ∧
      lcr = d.uart.lcr &&& ~~~ 0x80
  | setInited => d.uart.Configured
  | poll i => d.serialInited = true ∧ d.uart.Configured ∧ i ≤ buf.length
  | send _ => d.serialInited = true ∧ d.uart.Configured ∧ d.uart.holding = none

/-- One step of a call gives the device the next byte or none. -/
theorem PrintStep.at {buf : List UInt8} {pos pos' : Pos} {d d' : Data} {u₀ : Uart}
    (hstep : PrintStep buf pos d pos' d') (hat : pos.At buf d) (hkept : u₀.Kept d.uart) :
    pos'.At buf d' ∧ u₀.Kept d'.uart ∧
      ∃ sent, d'.uart.stream = d.uart.stream ++ sent ∧
        buf.take pos'.sent = buf.take pos.sent ++ sent := by
  cases hstep with
  | test =>
    cases hinit : d.serialInited with
    | true => exact ⟨⟨hinit, hat hinit, Nat.zero_le _⟩, hkept, [], by simp, rfl⟩
    | false => exact ⟨hinit, hkept, [], by simp, rfl⟩
  | readLcr h => exact ⟨⟨hat, by rw [h.1 rfl]⟩, hkept, [], by simp, rfl⟩
  | setDlab =>
    obtain ⟨hinit, rfl⟩ := hat
    refine ⟨⟨hinit, ?_⟩, ⟨?_, hkept.ier, hkept.overruns⟩, [], by simp [outb_lcr, Uart.stream], rfl⟩
    · simpa [outb_lcr, Uart.dlab] using dlab_set d.uart.lcr
    · exact (format_set _).trans hkept.format
  | divisorLow =>
    simp only [outb_low _ hat.2]
    exact ⟨⟨hat.1, hat.2, rfl⟩, ⟨hkept.format, hkept.ier, hkept.overruns⟩, [],
      by simp [Uart.stream], rfl⟩
  | divisorHigh =>
    simp only [outb_high _ hat.2.1]
    exact ⟨⟨hat.1, hat.2.2, rfl⟩, ⟨hkept.format, hkept.ier, hkept.overruns⟩, [],
      by simp [Uart.stream], rfl⟩
  | readLcrAgain h => exact ⟨⟨hat.1, hat.2.1, hat.2.2, by rw [h.1 rfl]⟩, hkept, [], by simp, rfl⟩
  | clearDlab =>
    obtain ⟨hinit, hdll, hdlm, rfl⟩ := hat
    refine ⟨⟨?_, hdll, hdlm⟩, ⟨?_, hkept.ier, hkept.overruns⟩, [],
      by simp [outb_lcr, Uart.stream], rfl⟩
    · simp [outb_lcr, Uart.dlab, dlab_clear]
    · exact (format_clear _).trans hkept.format
  | setInited => exact ⟨⟨rfl, hat, Nat.zero_le _⟩, hkept, [], by simp, rfl⟩
  | @poll _ i lsr hi h =>
    by_cases hlsr : lsr &&& 0x20 = 0
    · rw [if_pos hlsr]
      exact ⟨hat, hkept, [], by simp, by simp⟩
    · rw [if_neg hlsr]
      exact ⟨⟨hat.1, hat.2.1, (h.2 rfl).1 hlsr⟩, hkept, [], by simp, by simp [Pos.sent]⟩
  | @send _ i hi =>
    simp only [outb_hold _ hat.2.1.dlab]
    refine ⟨⟨hat.1, ⟨hat.2.1.dlab, hat.2.1.dll, hat.2.1.dlm⟩, hi⟩, ⟨hkept.format, hkept.ier, ?_⟩,
      [buf[i]], Uart.hold_stream _ hat.2.2, ?_⟩
    · simpa [Uart.hold, hat.2.2] using hkept.overruns
    · exact (List.take_concat_get' buf i hi).symm

/-- The device before the first call: nothing was sent yet. -/
def Fresh (u₀ : Uart) (d : Data) : Prop :=
  d.uart = u₀ ∧ u₀.stream = [] ∧ d.serialInited = false

/-- Between two calls, and inside of one. -/
structure Inv (u₀ : Uart) (as : List (AloneAction (List UInt8))) (s : Alone (List UInt8) Pos Data) :
    Prop where
  kept : u₀.Kept s.data.uart
  idle : s.current = none → (s.data.serialInited = true → s.data.uart.Configured) ∧
    (entered as ≠ [] → s.data.serialInited = true) ∧ s.data.uart.stream = (entered as).flatten
  busy : ∀ buf pos, s.current = some (buf, pos) → pos.At buf s.data ∧
    ∃ earlier, entered as = earlier ++ [buf] ∧
      s.data.uart.stream = earlier.flatten ++ buf.take pos.sent

theorem Uart.Transmit.kept {u₀ u t : Uart} (h : u.Transmit t) (hkept : u₀.Kept u) : u₀.Kept t := by
  obtain ⟨v, _, rfl⟩ := h
  exact ⟨hkept.format, hkept.ier, hkept.overruns⟩

theorem Uart.Transmit.configured {u t : Uart} (h : u.Transmit t) (hu : u.Configured) :
    t.Configured := by
  obtain ⟨v, _, rfl⟩ := h
  exact ⟨hu.dlab, hu.dll, hu.dlm⟩

/-- The device can send a byte at any moment. -/
theorem Pos.At.transmit {buf : List UInt8} {pos : Pos} {d d' : Data}
    (h : printSerial.Env d d') (hat : pos.At buf d) : pos.At buf d' := by
  obtain ⟨uart', inited'⟩ := d'
  obtain ⟨htransmit, rfl⟩ := h
  have hconf := htransmit.configured
  obtain ⟨v, hv, rfl⟩ := htransmit
  cases pos with
  | test => exact fun hinit => hconf (hat hinit)
  | setInited => exact hconf hat
  | poll i => exact ⟨hat.1, hconf hat.2.1, hat.2.2⟩
  -- the device has nothing to send in front of `outb`
  | send i => exact absurd (hat.2.2.symm.trans hv) (by simp)
  | _ => exact hat

theorem inv_run {u₀ : Uart} {as : List (AloneAction (List UInt8))}
    {s : Alone (List UInt8) Pos Data} (hrun : Run (alone printSerial (Fresh u₀)) as s) :
    Inv u₀ as s := by
  refine hrun.invariant (Inv u₀) ?_ ?_
  · rintro ⟨c, d⟩ ⟨rfl, rfl, hstream, hinit⟩
    have hnot : d.serialInited = true → d.uart.Configured := fun h =>
      absurd (hinit.symm.trans h) (by simp)
    exact ⟨⟨rfl, rfl, rfl⟩, fun _ => ⟨hnot, fun h => absurd rfl h, hstream⟩, by simp⟩
  · intro as s a t h hstep
    cases hstep with
    | @enter d buf =>
      obtain ⟨hconf, _, hstream⟩ := h.idle rfl
      refine ⟨h.kept, by simp, ?_⟩
      rintro _ _ ⟨⟩
      refine ⟨hconf, entered as, entered_enter as buf, ?_⟩
      simpa [printSerial, Pos.sent] using hstream
    | @run buf pos pos' d d' hsec =>
      obtain ⟨hat, earlier, hentered, hstream⟩ := h.busy _ _ rfl
      obtain ⟨hat', hkept, sent, hsent, htake⟩ := PrintStep.at hsec hat h.kept
      refine ⟨hkept, by simp, ?_⟩
      rintro _ _ ⟨⟩
      refine ⟨hat', earlier, (entered_silent rfl as).trans hentered, ?_⟩
      rw [hsent, hstream, htake, List.append_assoc]
    | @leave buf pos d hdone =>
      obtain ⟨hat, earlier, hentered, hstream⟩ := h.busy _ _ rfl
      obtain rfl : pos = .poll buf.length := hdone
      refine ⟨h.kept, fun _ => ⟨fun _ => hat.2.1, fun _ => hat.1, ?_⟩, by simp⟩
      rw [entered_silent rfl, hentered, hstream]
      simp [Pos.sent]
    | @env c d d' henv =>
      refine ⟨henv.1.kept h.kept, fun hc => ?_, fun buf pos hc => ?_⟩
      · obtain ⟨hconf, hinit, hstream⟩ := h.idle hc
        rw [entered_silent rfl, henv.1.stream]
        exact ⟨fun hi => henv.1.configured (hconf (henv.2.symm.trans hi)),
          fun hne => henv.2.trans (hinit hne), hstream⟩
      · obtain ⟨hat, earlier, hearlier, hstream⟩ := h.busy buf pos hc
        rw [entered_silent rfl, henv.1.stream]
        exact ⟨hat.transmit henv, earlier, hearlier, hstream⟩

/-! ## One call after the other, without `USE_SERIAL` -/

/-- The device has got the bytes `given`, in order, and has lost some of them to
overruns. -/
structure Lossy (given : List UInt8) (u : Uart) : Prop where
  sublist : u.stream.Sublist given
  count : u.stream.length + u.overruns = given.length

theorem Lossy.eq {given : List UInt8} {u : Uart} (h : Lossy given u) (hno : u.overruns = 0) :
    u.stream = given :=
  h.sublist.eq_of_length (by rw [← h.count, hno, Nat.add_zero])

theorem Lossy.hold {given : List UInt8} {u : Uart} (h : Lossy given u) (v : UInt8) :
    Lossy (given ++ [v]) (u.hold v) := by
  have hcount := h.count
  cases hu : u.holding with
  | none =>
    refine ⟨?_, ?_⟩
    · rw [Uart.hold_stream v hu]
      exact h.sublist.append_right [v]
    · rw [Uart.hold_stream v hu]
      simp [Uart.hold, hu]
      omega
  | some w =>
    -- the byte `w` is lost
    have hwire : u.wire.Sublist given := by
      refine List.Sublist.trans ?_ h.sublist
      exact List.sublist_append_left _ _
    refine ⟨hwire.append_right [v], ?_⟩
    simp [Uart.stream, Uart.hold, hu] at hcount ⊢
    omega

theorem Lossy.transmit {given : List UInt8} {u t : Uart} (h : Lossy given u)
    (htransmit : u.Transmit t) : Lossy given t := by
  have hstream := htransmit.stream
  obtain ⟨v, _, rfl⟩ := htransmit
  exact ⟨hstream ▸ h.sublist, hstream ▸ h.count⟩

def FreshUart (u₀ u : Uart) : Prop := u = u₀ ∧ u₀.stream = [] ∧ u₀.overruns = 0

/-- The bit of the line control register stays as it was, and decides whether
the bytes go to the line at all. -/
structure StringInv (u₀ : Uart) (as : List (AloneAction (List UInt8)))
    (s : Alone (List UInt8) Nat Uart) : Prop where
  dlab : s.data.dlab = u₀.dlab
  lost : u₀.dlab = true → s.data.stream = []
  idle : u₀.dlab = false → s.current = none → Lossy (entered as).flatten s.data
  busy : ∀ buf i, s.current = some (buf, i) → ∃ earlier, entered as = earlier ++ [buf] ∧
    (u₀.dlab = false → Lossy (earlier.flatten ++ buf.take i) s.data)

theorem stringInv_run {u₀ : Uart} {as : List (AloneAction (List UInt8))}
    {s : Alone (List UInt8) Nat Uart} (hrun : Run (alone printString (FreshUart u₀)) as s) :
    StringInv u₀ as s := by
  refine hrun.invariant (StringInv u₀) ?_ ?_
  · rintro ⟨c, u⟩ ⟨rfl, rfl, hstream, hover⟩
    refine ⟨rfl, fun _ => hstream, fun _ _ => ⟨?_, ?_⟩, by simp⟩
    · exact hstream ▸ List.nil_sublist _
    · rw [hstream, hover]
      rfl
  · intro as s a t h hstep
    cases hstep with
    | @enter u buf =>
      refine ⟨h.dlab, h.lost, by simp, ?_⟩
      rintro _ _ ⟨⟩
      refine ⟨entered as, entered_enter as buf, fun hdlab => ?_⟩
      simpa [printString] using h.idle hdlab rfl
    | @run buf i j u t hsec =>
      obtain ⟨hi, rfl, rfl⟩ := hsec
      obtain ⟨earlier, hentered, hlossy⟩ := h.busy _ _ rfl
      have hdlab : u.dlab = u₀.dlab := h.dlab
      cases hu : u₀.dlab with
      | true =>
        have hout : outb buf[i] serialIobase u = { u with dll := buf[i] } :=
          outb_low _ (hdlab.trans hu)
        refine ⟨?_, ?_, by simp [hu], ?_⟩
        · rw [hout]
          exact hdlab
        · intro _
          rw [hout]
          exact h.lost hu
        · rintro _ _ ⟨⟩
          exact ⟨earlier, (entered_silent rfl as).trans hentered, by simp [hu]⟩
      | false =>
        have hout : outb buf[i] serialIobase u = u.hold buf[i] := outb_hold _ (hdlab.trans hu)
        refine ⟨?_, by simp [hu], by simp, ?_⟩
        · rw [hout]
          exact hdlab
        · rintro _ _ ⟨⟩
          refine ⟨earlier, (entered_silent rfl as).trans hentered, fun _ => ?_⟩
          rw [hout, ← List.take_concat_get' buf i hi, ← List.append_assoc]
          exact (hlossy hu).hold _
    | @leave buf i u hdone =>
      obtain rfl : i = buf.length := hdone
      obtain ⟨earlier, hentered, hlossy⟩ := h.busy _ _ rfl
      refine ⟨h.dlab, h.lost, fun hdlab _ => ?_, by simp⟩
      rw [entered_silent rfl, hentered]
      simpa using hlossy hdlab
    | @env c u t henv =>
      have htransmit : u.Transmit t := henv
      have hstream := htransmit.stream
      refine ⟨?_, fun hdlab => hstream.trans (h.lost hdlab), fun hdlab hc => ?_, fun buf i hc => ?_⟩
      · obtain ⟨v, _, rfl⟩ := htransmit
        exact h.dlab
      · rw [entered_silent rfl]
        exact (h.idle hdlab hc).transmit htransmit
      · obtain ⟨earlier, hentered, hlossy⟩ := h.busy buf i hc
        exact ⟨earlier, (entered_silent rfl as).trans hentered,
          fun hdlab => (hlossy hdlab).transmit htransmit⟩

/-! ## `puts` on any number of processors -/

variable {π : Type*} [DecidableEq π]

/-- With `USE_SERIAL`, in every run and whenever the device sends its bytes: the
device has got the strings of the calls in the order of the lock, and no byte
is lost; each processor gets the lock in the order of its calls; and once a
call is over the divisor is set, with the other registers as they were. -/
theorem puts_polled {u₀ : Uart} {as : List (Action π (List UInt8))}
    {s : Mutex.State π (List UInt8) Pos Data}
    (hrun : Run (locked π printSerial (Fresh u₀)) as s) :
    Given Pos.sent as s s.data.uart.stream ∧ u₀.Kept s.data.uart ∧
    (∀ p, calls p as = ((acquired as).filter (·.1 = p)).map (·.2) ++ (s.pc p).waiting) ∧
    (s.lock = false → messages as ≠ [] → s.data.uart.Configured) := by
  obtain ⟨c, hserial⟩ := serialises hrun
  have hinv := inv_run hserial.run
  refine ⟨?_, hinv.kept, calls_eq hrun, fun hlock hne => ?_⟩
  · obtain ⟨given, hgiven, rfl⟩ := Given.of_serial Pos.sent (P := (s.data.uart.stream = ·)) hserial
      (fun hc => (hinv.idle hc).2.2) fun buf pos hc => (hinv.busy buf pos hc).2
    exact hgiven
  · obtain ⟨hconf, hinit, _⟩ := hinv.idle (hserial.none_of_unlocked hlock)
    rw [entered_serial] at hinit
    exact hconf (hinit hne)

/-- A device whose divisor is in place of the first register. -/
def resetUart : Uart := ⟨0x83, 0x00, 0x00, 0x00, none, [], 0⟩

theorem inb_lcr (u : Uart) : Inb u (serialIobase + 0x03) u.lcr :=
  ⟨fun _ => rfl, fun h => absurd h (by decide)⟩

theorem inb_lsr {u : Uart} (hu : u.holding = none) : Inb u (serialIobase + 0x05) 0x20 :=
  ⟨fun h => absurd h (by decide), fun _ => ⟨fun _ => hu, fun _ => by decide⟩⟩

theorem inb_lsr_busy {u : Uart} {v : UInt8} (hu : u.holding = some v) :
    Inb u (serialIobase + 0x05) 0x00 :=
  ⟨fun h => absurd h (by decide), fun _ => ⟨fun h => absurd rfl h, fun h => by simp [hu] at h⟩⟩

/-- A call that finds `serial_inited` clear, with a string of one byte. -/
theorem printSerial_one (v : UInt8) : printSerial.Steps [v] (.test, ⟨resetUart, false⟩)
    (.poll 1, ⟨⟨0x03, 0x01, 0x00, 0x00, some v, [], 0⟩, true⟩) := by
  have h : printSerial.Steps [v] (.test, ⟨resetUart, false⟩) _ := .refl
  have h := (h.step .test).step (.readLcr (inb_lcr _))
  have h := ((h.step .setDlab).step .divisorLow).step .divisorHigh
  have h := (h.step (.readLcrAgain (inb_lcr _))).step .clearDlab
  have hlen : 0 < [v].length := Nat.one_pos
  exact ((h.step .setInited).step (.poll hlen (inb_lsr rfl))).step (.send hlen)

/-- The next call has to wait until the device has sent the byte of the call
before. -/
theorem printSerial_next : printSerial.Steps [0x42]
    (.test, ⟨⟨0x03, 0x01, 0x00, 0x00, some 0x41, [], 0⟩, true⟩)
    (.poll 1, ⟨⟨0x03, 0x01, 0x00, 0x00, some 0x42, [0x41], 0⟩, true⟩) := by
  have h : printSerial.Steps [0x42]
    (.test, ⟨⟨0x03, 0x01, 0x00, 0x00, some 0x41, [], 0⟩, true⟩) _ := .refl
  have hsent : printSerial.Env ⟨⟨0x03, 0x01, 0x00, 0x00, some 0x41, [], 0⟩, true⟩
    ⟨⟨0x03, 0x01, 0x00, 0x00, none, [0x41], 0⟩, true⟩ := ⟨⟨0x41, rfl, rfl⟩, rfl⟩
  have h := ((h.step .test).step (.poll (i := 0) (by decide) (inb_lsr_busy rfl))).env hsent
  exact (h.step (.poll (i := 0) (by decide) (inb_lsr rfl))).step (.send (by decide))

/-- Two processors print a character each, and the second one finds the lock
taken. -/
theorem puts_polled_contended : ∃ as s, Run (locked Bool printSerial (Fresh resetUart)) as s ∧
    s.lock = false ∧ .spin true ∈ as ∧ messages as = [[0x41], [0x42]] ∧
    Given Pos.sent as s s.data.uart.stream ∧ s.data.uart.Configured := by
  have hinit : (locked Bool printSerial (Fresh resetUart)).Init
      ⟨false, fun _ => .idle, ⟨resetUart, false⟩⟩ := ⟨rfl, fun _ => rfl, rfl, rfl, rfl⟩
  obtain ⟨as, hrun, hacquired, hspin⟩ := exists_contended (.init hinit) (p := false) (q := true)
    (by decide) rfl (fun _ => rfl) (printSerial_one 0x41) rfl printSerial_next rfl
  have hmessages : messages as = [[0x41], [0x42]] := by
    rw [messages, hacquired]
    rfl
  obtain ⟨hgiven, _, _, hconf⟩ := puts_polled hrun
  exact ⟨_, _, hrun, rfl, hspin, hmessages, hgiven, hconf rfl (by simp [hmessages])⟩

/-- Without `USE_SERIAL`, in every run and whenever the device sends its bytes:
if the firmware has left the divisor in place of the first register, nothing
is sent at all; otherwise the bytes that the device has got are the strings of
the calls in the order of the lock, without those that were overrun. -/
theorem puts_string {u₀ : Uart} {as : List (Action π (List UInt8))}
    {s : Mutex.State π (List UInt8) Nat Uart}
    (hrun : Run (locked π printString (FreshUart u₀)) as s) :
    (u₀.dlab = true → s.data.stream = []) ∧
    (u₀.dlab = false → ∃ given, Given id as s given ∧ s.data.stream.Sublist given ∧
      s.data.stream.length + s.data.overruns = given.length ∧
      (s.data.overruns = 0 → s.data.stream = given)) := by
  obtain ⟨c, hserial⟩ := serialises hrun
  have hinv := stringInv_run hserial.run
  refine ⟨hinv.lost, fun hdlab => ?_⟩
  obtain ⟨given, hgiven, hlossy⟩ := Given.of_serial id (P := (Lossy · s.data)) hserial
    (hinv.idle hdlab) fun buf pos hc => by
      obtain ⟨earlier, hentered, hlossy⟩ := hinv.busy buf pos hc
      exact ⟨earlier, hentered, hlossy hdlab⟩
  exact ⟨given, hgiven, hlossy.sublist, hlossy.count, hlossy.eq⟩

/-- The same with a device that the firmware has set up, and a string of two
bytes.  The device is too slow for the second one. -/
theorem puts_string_overrun : ∃ as s,
    Run (locked Bool printString (FreshUart { resetUart with lcr := 0x03 })) as s ∧
    s.data.overruns = 1 ∧ messages as = [[0x41, 0x42]] ∧ ∃ given, Given id as s given ∧
      s.data.stream.Sublist given ∧ s.data.stream.length + s.data.overruns = given.length := by
  have hinit : (locked Bool printString (FreshUart { resetUart with lcr := 0x03 })).Init
      ⟨false, fun _ => .idle, { resetUart with lcr := 0x03 }⟩ := ⟨rfl, fun _ => rfl, rfl, rfl, rfl⟩
  have hsteps : printString.Steps [0x41, 0x42] (0, { resetUart with lcr := 0x03 }) _ := .refl
  have hsteps := hsteps.step ⟨by decide, rfl, rfl⟩
  have hsteps := hsteps.step ⟨by decide, rfl, rfl⟩
  obtain ⟨as, hrun, hacquired⟩ := exists_call (.init hinit) (p := false) rfl rfl hsteps rfl
  have hmessages : messages as = [[0x41, 0x42]] := by
    rw [messages, hacquired]
    rfl
  obtain ⟨given, hgiven, hsub, hcount, _⟩ := (puts_string hrun).2 rfl
  exact ⟨_, _, hrun, rfl, hmessages, given, hgiven, hsub, hcount⟩

end HyperBench.Serial
