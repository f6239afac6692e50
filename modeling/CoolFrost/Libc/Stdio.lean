import Mathlib.Data.List.TakeWhile
import Mathlib.Tactic

/-!
# Formatted output

The three interpreters of format strings in `libc/stdio.c`.  `printf` and `sprintf` are the same
interpreter, with the characters printed or stored; `vsnprintf` has one of its own.

Characters are bytes, and a text is the list of its characters without the terminator.  `none`
stands for a run that leaves the language: the format is read behind its terminator, an argument is
read with another type than it has, or a width does not fit into an `int`.
-/

namespace CoolFrost

namespace Stdio

/-- A character of the source as a byte. -/
def ch (c : Char) : UInt8 := c.toUInt8

/-- A string in memory, without its terminator.  No string is longer than an `int` can count. -/
structure CStr where
  bytes : List UInt8
  nonzero : 0 ∉ bytes
  short : bytes.length < 2 ^ 31

/-- The text in a character buffer: what stands before the first zero. -/
def cstr (buf : List UInt8) : List UInt8 := buf.takeWhile (· ≠ 0)

/-- `toupper` (`libc/ctype.c`). -/
def toupper (c : UInt8) : UInt8 := if ch 'a' ≤ c ∧ c ≤ ch 'z' then c ^^^ 0x20 else c

/-! ## Numbers -/

/-- The digits of `itoa`. -/
def digits : List UInt8 :=
  ['0', '1', '2', '3', '4', '5', '6', '7', '8', '9', 'a', 'b', 'c', 'd', 'e', 'f', 'g', 'h', 'i',
    'j', 'k', 'l', 'm', 'n', 'o', 'p', 'q', 'r', 's', 't', 'u', 'v', 'w', 'x', 'y', 'z'].map ch

/-- The table of `itoa`, in which a remainder of either sign finds its digit. -/
def digitTable : List UInt8 := digits.tail.reverse ++ digits

/-- The loop of `itoa`, which writes the last digit first. -/
def itoaLoop (base : ℤ) : ℕ → ℤ → List UInt8
  | 0, _ => []
  | n + 1, v =>
    digitTable.getD (35 + v.tmod base).toNat 0 ::
      if v.tdiv base = 0 then [] else itoaLoop base n (v.tdiv base)

/-- `itoa` (`libc/stdlib.c`); 64 digits are enough for every base from 2 on. -/
def itoa (value : Int64) (base : ℤ) : List UInt8 :=
  if base < 2 ∨ 36 < base then []
  else
    (if value < 0 ∧ base = 10 then [ch '-'] else []) ++ (itoaLoop base 64 value.toInt).reverse

/-- `llimit`. -/
def llimit (src : List UInt8) (n : ℕ) (a : UInt8) : List UInt8 :=
  if n < src.length then src.take n else src ++ List.replicate (n - src.length) a

/-- A `double` as `ftoa` with base 10 and precision 6 takes it apart: whether it is negative, and
the integer part and the scaled fraction of its magnitude. -/
structure Double where
  neg : Bool
  intPart : Int32
  fracInt : UInt64

/-- `ftoa` with base 10 and precision 6. -/
def ftoa (v : Double) : List UInt8 :=
  (if v.neg then [ch '-'] else []) ++ cstr (itoa v.intPart.toInt64 10) ++ [ch '.'] ++
    llimit (cstr (itoa v.fracInt.toInt64 10)) 6 (ch '0')

/-! ## Arguments -/

/-- An argument in a `va_list`, by the kind of type that it is read with.  A pointer comes with the
string it points to, if it points to one. -/
inductive Arg where
  | word32 (v : UInt32)
  | word64 (v : UInt64)
  | double (v : Double)
  | ptr (addr : UInt64) (str : Option CStr)

/-- `va_arg` with a 32-bit integer type. -/
def va32 : List Arg → Option (UInt32 × List Arg)
  | .word32 v :: args => some (v, args)
  | _ => none

/-- `va_arg` with a 64-bit integer type. -/
def va64 : List Arg → Option (UInt64 × List Arg)
  | .word64 v :: args => some (v, args)
  | _ => none

/-- `va_arg` with `double`. -/
def vaDouble : List Arg → Option (Double × List Arg)
  | .double v :: args => some (v, args)
  | _ => none

/-- `va_arg` with a pointer type. -/
def vaPtr : List Arg → Option ((UInt64 × Option CStr) × List Arg)
  | .ptr addr str :: args => some ((addr, str), args)
  | _ => none

/-- An `int32_t` as the argument of `itoa`. -/
def sext (v : UInt32) : Int64 := v.toInt32.toInt64

/-- A `uint32_t` as the argument of `itoa`. -/
def zext (v : UInt32) : Int64 := v.toUInt64.toInt64

/-- Put characters in front of the output of the rest. -/
def emit (out : List UInt8) (r : Option (List UInt8 × List Arg)) : Option (List UInt8 × List Arg) :=
  r.map fun p => (out ++ p.1, p.2)

/-! ## printf and sprintf -/

/-- What `printf` prints for the specifier `c`, with the arguments that are left. -/
def printSpec (c : UInt8) (args : List Arg) : Option (List UInt8 × List Arg) :=
  if c = ch 'd' then (va32 args).map fun p => (cstr (itoa (sext p.1) 10), p.2)
  else if c = ch 'u' then (va32 args).map fun p => (cstr (itoa (zext p.1) 10), p.2)
  else if c = ch 'x' then (va32 args).map fun p => (cstr (itoa (zext p.1) 16), p.2)
  else if c = ch 'X' then (va32 args).map fun p => ((cstr (itoa (zext p.1) 16)).map toupper, p.2)
  else if c = ch 'o' then (va32 args).map fun p => (cstr (itoa (zext p.1) 8), p.2)
  else if c = ch 'f' then (vaDouble args).map fun p => (cstr (ftoa p.1), p.2)
  else if c = ch 'p' then
    (vaPtr args).map fun p => ([ch '0', ch 'x'] ++ cstr (itoa p.1.1.toInt64 16), p.2)
  else if c = ch 'c' then (va32 args).map fun p => ([p.1.toUInt8], p.2)
  else if c = ch 's' then (vaPtr args).bind fun p => p.1.2.map fun str => (str.bytes, p.2)
  else if c = ch '%' then some ([ch '%'], args)
  else some ([], args)

/-- What `printf` prints for the specifier `c` after an `l`. -/
def printLong (c : UInt8) (args : List Arg) : Option (List UInt8 × List Arg) :=
  if c = ch 'd' then (va64 args).map fun p => (cstr (itoa p.1.toInt64 10), p.2)
  else if c = ch 'u' then (va64 args).map fun p => (cstr (itoa p.1.toInt64 10), p.2)
  else if c = ch 'x' then (va64 args).map fun p => (cstr (itoa p.1.toInt64 16), p.2)
  else if c = ch 'o' then (va64 args).map fun p => (cstr (itoa p.1.toInt64 8), p.2)
  else some ([], args)

/-- The loop that `printf` and `sprintf` share. -/
def printFrom : List UInt8 → List Arg → Option (List UInt8 × List Arg)
  | [], args => some ([], args)
  | c :: rest, args =>
    if c ≠ ch '%' then emit [c] (printFrom rest args)
    else
      match rest with
      | [] => none
      | d :: rest =>
        if d = ch 'l' then
          match rest with
          | [] => none
          | d :: rest => (printLong d args).bind fun p => emit p.1 (printFrom rest p.2)
        else (printSpec d args).bind fun p => emit p.1 (printFrom rest p.2)

/-- `printf`: the characters handed to `kprint_char`, and the arguments left over. -/
def printf (format : List UInt8) (args : List Arg) : Option (List UInt8 × List Arg) :=
  printFrom format args

/-- `sprintf`: the characters stored, terminator included, the value returned, and the arguments
left over. -/
def sprintf (format : List UInt8) (args : List Arg) : Option (List UInt8 × ℕ × List Arg) :=
  (printFrom format args).map fun p => (p.1 ++ [0], p.1.length, p.2)

/-! ## vsnprintf -/

/-- Parse the flags: whether to align to the left and to pad with zeros. -/
def parseFlags : List UInt8 → Bool → Bool → Bool × Bool × List UInt8
  | [], left, zero => (left, zero, [])
  | c :: rest, left, zero =>
    if c = ch '-' then parseFlags rest true false
    else if c = ch '0' ∧ !left then parseFlags rest left true
    else (left, zero, c :: rest)

/-- Parse the width. -/
def parseWidth : List UInt8 → ℕ → ℕ × List UInt8
  | [], width => (width, [])
  | c :: rest, width =>
    if ch '0' ≤ c ∧ c ≤ ch '9' then parseWidth rest (width * 10 + (c - ch '0').toNat)
    else (width, c :: rest)

/-- Parse the length modifier. -/
def parseLength : List UInt8 → Bool × List UInt8
  | [] => (false, [])
  | c :: rest => if c = ch 'l' then (true, rest) else (false, c :: rest)

/-- A number that is 64 bits wide after an `l` and 32 bits wide, extended by `ext`, otherwise. -/
def vaNumber (isLong : Bool) (ext : UInt32 → Int64) (args : List Arg) : Option (Int64 × List Arg) :=
  if isLong then (va64 args).map fun p => (p.1.toInt64, p.2)
  else (va32 args).map fun p => (ext p.1, p.2)

/-- The text that `vsnprintf` makes for the specifier `c`, before padding. -/
def vsSpec (c : UInt8) (isLong : Bool) (args : List Arg) : Option (List UInt8 × List Arg) :=
  if c = ch 'd' then (vaNumber isLong sext args).map fun p => (itoa p.1 10, p.2)
  else if c = ch 'u' then (vaNumber isLong zext args).map fun p => (itoa p.1 10, p.2)
  else if c = ch 'x' then (vaNumber isLong zext args).map fun p => (itoa p.1 16, p.2)
  else if c = ch 'X' then
    (vaNumber isLong zext args).map fun p => ((cstr (itoa p.1 16)).map toupper, p.2)
  else if c = ch 'o' then (vaNumber isLong zext args).map fun p => (itoa p.1 8, p.2)
  else if c = ch 'f' then (vaDouble args).map fun p => (ftoa p.1, p.2)
  else if c = ch 'p' then
    (vaPtr args).map fun p => ([ch '0', ch 'x'] ++ itoa p.1.1.toInt64 16, p.2)
  else if c = ch 'c' then (va32 args).map fun p => ([p.1.toUInt8], p.2)
  else if c = ch 's' then
    (vaPtr args).bind fun p =>
      if p.1.1 = 0 then some (['(', 'n', 'u', 'l', 'l', ')'].map ch, p.2)
      else p.1.2.map fun str => (str.bytes, p.2)
  else if c = ch '%' then some ([ch '%'], args)
  else some ([ch '%', c], args)

/-- `_EMIT_PADDED`. -/
def padded (v : List UInt8) (width : ℕ) (zero left : Bool) : List UInt8 :=
  if left then v ++ List.replicate (width - v.length) (ch ' ')
  else List.replicate (width - v.length) (if zero then ch '0' else ch ' ') ++ v

/-- The loop of `vsnprintf`: the characters it emits and the arguments left over, with `n` rounds at
most. -/
def vsFrom : ℕ → List UInt8 → List Arg → Option (List UInt8 × List Arg)
  | _, [], args => some ([], args)
  | 0, _ :: _, _ => none
  | n + 1, c :: rest, args =>
    if c ≠ ch '%' then emit [c] (vsFrom n rest args)
    else
      let (left, zero, rest) := parseFlags rest false false
      let (width, rest) := parseWidth rest 0
      let (isLong, rest) := parseLength rest
      if 2 ^ 31 ≤ width then none
      else
        match rest with
        | [] => none
        | d :: rest =>
          (vsSpec d isLong args).bind fun p =>
            emit (padded (cstr p.1) width zero left) (vsFrom n rest p.2)

/-- `vsnprintf` with a buffer of `n` bytes: the bytes it stores, the value it returns, and the
arguments left over.  Each round takes a character of the format, so its length is enough rounds. -/
def vsnprintf (n : ℕ) (fmt : List UInt8) (args : List Arg) : Option (List UInt8 × ℕ × List Arg) :=
  (vsFrom fmt.length fmt args).map fun p =>
    (if n = 0 then [] else p.1.take (n - 1) ++ [0], p.1.length, p.2)

end Stdio

end CoolFrost
