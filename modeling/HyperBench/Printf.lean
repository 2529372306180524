import HyperBench.Lib.Ascii
import HyperBench.Lib.CObject
import HyperBench.Lib.Loop
import Mathlib.Algebra.Group.Int.Defs
import Mathlib.Algebra.Group.Nat.Defs
import Mathlib.Data.Int.Notation

/-!
# `lib/printf.c`

The formatted output of the kernel: `addchar`, `print_str`, `print_int`,
`print_unsigned`, `fmtnum`, `vsnprintf` and `printf`, with `atol` of
`lib/string.c`.

* `vsnprintf` walks over its format with a pointer, which is an offset into
  the format and its NUL here.  `step` is one round of that walk.  It has no
  answer when the walk reads outside of the format.
* The variable arguments are a list of 64-bit slots and strings.  `step` has
  no answer either when the next one does not fit, which C leaves undefined.
* The output functions work on any `Sink`.  The one of the source is
  `PStream`, which counts the room in the caller's buffer.  `Unlimited` is a
  buffer without an end.

An `int` of the source wraps around, as the code that is built without
optimisation does.

`print_int` indexes its digit table with a negative number when it is given
the least 64-bit integer.  The byte it reads there is not part of the table,
so the functions take the bytes around the table as the argument `outside`.
-/

namespace HyperBench.Printf

open Ascii CObject Loop

/-! ## Machine integers -/

/-- The value of an `int` that was assigned `x`. -/
def toInt32 (x : Int) : Int := Int.bmod x (2 ^ 32)

/-- The value of a `long` that was assigned `x`. -/
def toInt64 (x : Int) : Int := Int.bmod x (2 ^ 64)

/-! ## The output stream -/

/-- What takes the output, one character after the other. -/
class Sink (σ : Type) where
  addchar : σ → UInt8 → σ

export Sink (addchar)

/-- `pstream_t`. -/
structure PStream where
  /-- The bytes stored so far, from the start of the buffer.  The pointer
  only moves by a store, so they lie one after the other. -/
  buffer : List UInt8
  remain : Int
  added : Int
  deriving DecidableEq, Repr

def PStream.addchar (p : PStream) (c : UInt8) : PStream :=
  let p := if p.remain ≠ 0 then
      { p with buffer := p.buffer ++ [c], remain := toInt32 (p.remain - 1) }
    else p
  { p with added := toInt32 (p.added + 1) }

instance : Sink PStream := ⟨PStream.addchar⟩

/-- A buffer that never ends. -/
structure Unlimited where
  text : List UInt8
  deriving DecidableEq, Repr

instance : Sink Unlimited := ⟨fun p c => ⟨p.text ++ [c]⟩⟩

/-- `strprops_t`. -/
structure StrProps where
  pad : UInt8
  npad : Int
  alternate : Bool
  deriving DecidableEq, Repr

variable {σ : Type} [Sink σ]

/-- The padding loops of `print_str`: `n` copies of one character. -/
def addchars (p : σ) (c : UInt8) (n : Nat) : σ := forUpTo (fun _ p => addchar p c) n p

def printStr (p : σ) (s : List UInt8) (props : StrProps) : σ :=
  let (p, npad) :=
    if 0 < props.npad then
      let npad := toInt32 (props.npad - s.length)
      -- the loop counts down to 0, and does nothing when the text is too long
      (addchars p props.pad npad.toNat, min npad 0)
    else (p, props.npad)
  let p := s.foldl addchar p
  if npad < 0 then
    -- ignore '0' flag with '-' flag
    addchars p (chr ' ') (-toInt32 (npad + s.length)).toNat
  else p

/-! ## Numbers -/

def digits : List UInt8 := ascii "0123456789abcdef"

/-- `digits[i]`, where `outside` is the memory around the table. -/
def digitAt (outside : Int → UInt8) (i : Int) : UInt8 :=
  if 0 ≤ i ∧ i < 16 then digits.getD i.toNat 0 else outside i

/-- The indices that `print_int` reads, in the order of its loop.  The
division truncates towards zero, as in C. -/
def intIndices (base : Int) : Nat → Int → List Int
  | 0, _ => []
  | rounds + 1, n => if n = 0 then [] else n.tmod base :: intIndices base rounds (n.tdiv base)

/-- The buffer of `print_int` in front of its reversal.  A 64-bit number has
at most 64 digits in any base. -/
def intBuffer (outside : Int → UInt8) (n base : Int) : List UInt8 :=
  let negative := n < 0
  let n := if negative then toInt64 (-n) else n
  let buf := (intIndices base 64 n).map (digitAt outside)
  let buf := if negative then buf ++ [chr '-'] else buf
  if buf = [] then [chr '0'] else buf

def printInt (outside : Int → UInt8) (ps : σ) (n base : Int) (props : StrProps) : σ :=
  printStr ps (cString (intBuffer outside n base).reverse) props

/-- The indices that `print_unsigned` reads, in the order of its loop. -/
def unsignedIndices (base : Nat) : Nat → Nat → List Nat
  | 0, _ => []
  | rounds + 1, n => if n = 0 then [] else n % base :: unsignedIndices base rounds (n / base)

def printUnsigned (ps : σ) (n base : Nat) (props : StrProps) : σ :=
  let buf := (unsignedIndices base 64 n).map (digits.getD · 0)
  if buf = [] then printStr ps [chr '0'] props
  else if props.alternate ∧ base = 16 then
    if props.pad = chr '0' then
      let ps := addchar (addchar ps (chr '0')) (chr 'x')
      let npad := if 0 < props.npad then max (props.npad - 2) 0 else props.npad
      printStr ps buf.reverse { props with npad := npad }
    else printStr ps (buf ++ [chr 'x', chr '0']).reverse props
  else printStr ps buf.reverse props

/-! ## Numbers of the format -/

/-- `atol` of `lib/string.c` on the object `o`. -/
def atol (o : List UInt8) (ptr : Int) : Option Int := do
  let (s, _) ← scanWhile o (fun c => c = chr ' ' ∨ c = chr '\t') (fun _ _ => ()) ptr ()
  let c ← load o s
  let s := if c = chr '-' ∨ c = chr '+' then s + 1 else s
  let (_, acc) ← scanWhile o (fun c => c ≠ 0 ∧ isDigit c)
    (fun acc c => toInt64 (acc * 10 + (c.toNat - (chr '0').toNat : Int))) s 0
  return if c = chr '-' then toInt64 (-acc) else acc

/-- The number at `fmt`, and the pointer behind it. -/
def fmtnum (o : List UInt8) (fmt : Int) : Option (Int × Int) := do
  let c ← load o fmt
  let (f, len) := if c = chr '-' then (fmt + 1, 1) else (fmt, 0)
  let (_, len) ← scanWhile o isDigit (fun len _ => toInt32 (len + 1)) f len
  let num ← atol o fmt
  return (toInt32 num, fmt + len)

/-! ## Variable arguments -/

/-- One variable argument: an 8-byte slot, or a string. -/
inductive Arg where
  | word (w : Nat)
  | str (s : List UInt8)
  deriving DecidableEq, Repr

/-- The types that `vsnprintf` gives to `va_arg`. -/
inductive VaType where
  | int
  | unsignedInt
  | long
  | unsignedLong
  | longLong
  | unsignedLongLong
  | voidPtr
  | charPtr
  deriving DecidableEq, Repr

/-- The type of the argument of `%d` behind `nlong` length modifiers. -/
def signedType (nlong : Int) : VaType :=
  if nlong = 0 then .int else if nlong = 1 then .long else .longLong

/-- The type of the argument of `%u` and `%x` behind `nlong` length
modifiers. -/
def unsignedType (nlong : Int) : VaType :=
  if nlong = 0 then .unsignedInt else if nlong = 1 then .unsignedLong else .unsignedLongLong

/-- The number of bits of a type. -/
def VaType.width : VaType → Nat
  | .int | .unsignedInt => 32
  | _ => 64

/-- `va_arg` at a type that is no string. -/
def vaWord (t : VaType) : List Arg → Option (Nat × List Arg)
  | .word w :: args => some (w % 2 ^ t.width, args)
  | _ => none

def vaStr : List Arg → Option (List UInt8 × List Arg)
  | .str s :: args => some (s, args)
  | _ => none

/-! ## The format -/

/-- The scanner between two characters: in plain text, or inside a directive
behind some of its flags. -/
inductive Scan where
  | text
  | directive (props : StrProps) (nlong : Int)

/-- A directive that was scanned: the offset of its last character, and the
type of the argument that was taken for it. -/
structure Directive where
  last : Int
  taken : Option VaType
  deriving DecidableEq, Repr

/-- The state of `vsnprintf` between two characters of the format. -/
structure Printer (σ : Type) where
  stream : σ
  args : List Arg
  fmt : Int
  scan : Scan
  /-- The directives that were scanned, oldest first. -/
  directives : List Directive

/-- The state in front of the loop. -/
def Printer.start (stream : σ) (args : List Arg) : Printer σ := ⟨stream, args, 0, .text, []⟩

/-- The end of a directive. -/
def Printer.emit (st : Printer σ) (taken : Option VaType) (stream : σ) (args : List Arg) :
    Printer σ :=
  { st with
    stream := stream
    args := args
    scan := .text
    directives := st.directives ++ [⟨st.fmt - 1, taken⟩] }

/-- The properties at the start of a directive. -/
def StrProps.start : StrProps := ⟨chr ' ', 0, false⟩

/-- The conversion `f` with its argument. -/
def convert (outside : Int → UInt8) (st : Printer σ) (props : StrProps) (nlong : Int) (f : UInt8) :
    Option (Printer σ) :=
  if f = chr '%' then some (st.emit none (addchar st.stream (chr '%')) st.args)
  else if f = chr 'c' then do
    let (w, args) ← vaWord .int st.args
    return st.emit (some .int) (addchar st.stream (UInt8.ofNat w)) args
  else if f = chr 'd' then do
    let t := signedType nlong
    let (w, args) ← vaWord t st.args
    return st.emit (some t) (printInt outside st.stream (Int.bmod w (2 ^ t.width)) 10 props) args
  else if f = chr 'u' then do
    let t := unsignedType nlong
    let (w, args) ← vaWord t st.args
    return st.emit (some t) (printUnsigned st.stream w 10 props) args
  else if f = chr 'x' then do
    let t := unsignedType nlong
    let (w, args) ← vaWord t st.args
    return st.emit (some t) (printUnsigned st.stream w 16 props) args
  else if f = chr 'p' then do
    let (w, args) ← vaWord .voidPtr st.args
    return st.emit (some .voidPtr) (printUnsigned st.stream w 16 { props with alternate := true })
      args
  else if f = chr 's' then do
    let (s, args) ← vaStr st.args
    return st.emit (some .charPtr) (printStr st.stream s props) args
  else some (st.emit none (addchar st.stream f) st.args)

/-- `--fmt; props.npad = fmtnum(&fmt); goto morefmt`. -/
def readWidth (o : List UInt8) (st : Printer σ) (props : StrProps) (nlong : Int) :
    Option (Printer σ) := do
  let (npad, fmt) ← fmtnum o (st.fmt - 1)
  return { st with fmt := fmt, scan := .directive { props with npad := npad } nlong }

/-- `switch (f)`, with the pointer behind `f`. -/
def scanDirective (outside : Int → UInt8) (o : List UInt8) (st : Printer σ) (props : StrProps)
    (nlong : Int) (f : UInt8) : Option (Printer σ) :=
  if f = 0 then some { st.emit none st.stream st.args with fmt := st.fmt - 1 }
  else if f = chr '#' then some { st with scan := .directive { props with alternate := true } nlong }
  else if f = chr '0' then
    readWidth o { st with fmt := st.fmt + 1 } { props with pad := chr '0' } nlong
  else if chr '1' ≤ f ∧ f ≤ chr '9' ∨ f = chr '-' then readWidth o st props nlong
  else if f = chr 'l' then some { st with scan := .directive props (toInt32 (nlong + 1)) }
  else if f = chr 't' ∨ f = chr 'z' then some { st with scan := .directive props 1 }
  else convert outside st props nlong f

/-- The character at the pointer.  There is no step at the end of the
format. -/
def step (outside : Int → UInt8) (o : List UInt8) (st : Printer σ) : Option (Printer σ) := do
  let f ← load o st.fmt
  match st.scan with
  | .text =>
    if f = 0 then none
    else if f = chr '%' then some { st with fmt := st.fmt + 1, scan := .directive .start 0 }
    else some { st with fmt := st.fmt + 1, stream := addchar st.stream f }
  | .directive props nlong => scanDirective outside o { st with fmt := st.fmt + 1 } props nlong f

/-- `while (*fmt)` is about to be left. -/
def atEnd (o : List UInt8) (st : Printer σ) : Bool :=
  match st.scan with
  | .text => load o st.fmt = some 0
  | .directive _ _ => false

/-- The loop of `vsnprintf`, with at most `fuel` tests of its end. -/
def scanFormat (outside : Int → UInt8) (o : List UInt8) : Nat → Printer σ → Option (Printer σ)
  | 0, _ => none
  | fuel + 1, st =>
    if atEnd o st then some st
    else do
      let st ← step outside o st
      scanFormat outside o fuel st

/-- The stream that `vsnprintf` starts with. -/
def PStream.start (size : Int) : PStream := ⟨[], toInt32 (size - 1), 0⟩

/-- `vsnprintf(buf, size, fmt, va)`: the bytes stored from `buf` on, with
the final NUL, and the value returned. -/
def vsnprintf (outside : Int → UInt8) (fuel : Nat) (size : Int) (fmt : List UInt8)
    (args : List Arg) : Option (List UInt8 × Int) := do
  let st ← scanFormat outside (terminated fmt) fuel (.start (PStream.start size) args)
  return (st.stream.buffer ++ [0], st.stream.added)

/-- The text of a format and its arguments, as a buffer without an end takes
it. -/
def output (outside : Int → UInt8) (fuel : Nat) (fmt : List UInt8) (args : List Arg) :
    Option (List UInt8) := do
  let st ← scanFormat outside (terminated fmt) fuel (.start (⟨[]⟩ : Unlimited) args)
  return st.stream.text

def BUFSZ : Int := 2000

/-- The text that `printf` puts on the serial line.  A round takes a
character of the format as long as its numbers are not too long for their
counter, so these rounds are enough for every format of the kernel. -/
def printf (outside : Int → UInt8) (fmt : List UInt8) (args : List Arg) : Option (List UInt8) := do
  let (buf, _) ← vsnprintf outside (fmt.length + 2) BUFSZ fmt args
  return cString buf

end HyperBench.Printf
