import Mathlib

/-!
# Values of options

Strings of C, the types that an option can have, and how a value is read from a
string.
-/

namespace LinuxPtp.Config

/-! ## Strings -/

/-- A string without the zero that ends it. -/
abbrev Str : Type := List UInt8

def cstr (literal : String) : Str :=
  literal.toList.map fun char => UInt8.ofNat char.toNat

def isspace (char : UInt8) : Bool :=
  char == 32 || 9 ≤ char && char ≤ 13

def tolower (char : UInt8) : UInt8 :=
  if 65 ≤ char ∧ char ≤ 90 then char + 32 else char

/-- `!strcasecmp(left, right)`. -/
def sameCase (left right : Str) : Bool :=
  left.map tolower == right.map tolower

/-! ## Numbers -/

inductive ParserResult
  | parsedOk
  | notParsed
  | badValue
  | malformed
  | outOfRange
  deriving DecidableEq, Repr

/-- What a conversion of the standard library returns: the number, the rest of the
string, and whether `errno` is `ERANGE`. -/
structure Conversion (α : Type) where
  value : α
  rest : Str
  erange : Bool

/-- Numbers of type `double`: their conversion from a string, `<`, and the value of a
constant of the source. -/
structure Doubles (D : Type) where
  strtod : Str → Conversion D
  lt : D → D → Bool
  constant : ℚ → D

def digitValue (char : UInt8) : ℕ :=
  if 48 ≤ char ∧ char ≤ 57 then char.toNat - 48
  else if 97 ≤ tolower char ∧ tolower char ≤ 122 then (tolower char).toNat - 87
  else 36

def longMin : ℤ := -2 ^ 63
def longMax : ℤ := 2 ^ 63 - 1

/-- The base that a number shows, and its digits with what follows them. -/
def numberBase : Str → ℕ × Str
  | 48 :: x :: digit :: rest =>
      if (x = 120 ∨ x = 88) ∧ digitValue digit < 16 then (16, digit :: rest)
      else (8, 48 :: x :: digit :: rest)
  | 48 :: rest => (8, 48 :: rest)
  | digits => (10, digits)

def numberSign : Str → Bool × Str
  | 45 :: rest => (true, rest)
  | 43 :: rest => (false, rest)
  | unsigned => (false, unsigned)

/-- `strtol` with base zero. -/
def strtol (str : Str) : Conversion ℤ :=
  let (negative, unsigned) := numberSign (str.dropWhile isspace)
  let (base, digits) := numberBase unsigned
  let run := digits.takeWhile fun char => digitValue char < base
  let magnitude : ℤ :=
    run.foldl (fun number char => number * base + digitValue char) 0
  let number := if negative then -magnitude else magnitude
  if run = [] then { value := 0, rest := str, erange := false }
  else
    { value := max longMin (min longMax number)
      rest := digits.drop run.length
      erange := number < longMin ∨ longMax < number }

/-- What `get_ranged_int` and `get_ranged_double` have in common. -/
def getRanged {α : Type} (conversion : Conversion α) (str : Str)
    (lt : α → α → Bool) (min max : α) : Except ParserResult α :=
  if conversion.rest ≠ [] ∨ conversion.rest = str then .error .malformed
  else if conversion.erange || lt conversion.value min || lt max conversion.value then
    .error .outOfRange
  else .ok conversion.value

def getRangedInt (str : Str) (min max : ℤ) : Except ParserResult ℤ :=
  getRanged (strtol str) str (fun left right => decide (left < right)) min max

def getRangedDouble {D : Type} (doubles : Doubles D) (str : Str) (min max : D) :
    Except ParserResult D :=
  getRanged (doubles.strtod str) str doubles.lt min max

example : getRangedInt (cstr "0x1F") 0 255 = .ok 31 := by decide +kernel
example : getRangedInt (cstr "-7 ") (-8) 8 = .error .malformed := by decide +kernel

/-! ## Options -/

/-- `any_t`; an enumerator is an integer. -/
inductive Value (D : Type)
  | int (i : ℤ)
  | double (d : D)
  | string (s : Option Str)
  deriving DecidableEq

/-- The type of an option, with the bounds or the table that values are checked
against. -/
inductive ConfigType (D : Type)
  | int (min max : ℤ)
  | double (min max : D)
  | enum (tab : Option (List (Str × ℤ)))
  | string

/-- `struct config_item`; who owns its memory is left out. -/
structure ConfigItem (D : Type) where
  label : Str
  type : ConfigType D
  port : Bool
  locked : Bool
  val : Value D

/-- Reading a value fails with a result of the parser, or goes through the null pointer
in place of a table. -/
inductive Failure
  | result (r : ParserResult)
  | nullTable
  deriving DecidableEq, Repr

section

variable {D : Type} (doubles : Doubles D)

/-- The first switch of `parse_item`. -/
def parseValue (type : ConfigType D) (value : Str) : Except Failure (Value D) :=
  match type with
  | .int min max => ((getRangedInt value min max).map .int).mapError .result
  | .double min max =>
      ((getRangedDouble doubles value min max).map .double).mapError .result
  | .enum none => .error .nullTable
  | .enum (some tab) =>
      match tab.find? fun entry => sameCase entry.1 value with
      | some entry => .ok (.int entry.2)
      | none => .error (.result .badValue)
  | .string => .ok (.string (some value))

/-- The type of an item that was allocated for a section: its bounds and its table are
zero. -/
def ConfigType.unbounded : ConfigType D → ConfigType D
  | .int _ _ => .int 0 0
  | .double _ _ => .double (doubles.constant 0) (doubles.constant 0)
  | .enum _ => .enum none
  | .string => .string

def ConfigType.zero : ConfigType D → Value D
  | .int _ _ | .enum _ => .int 0
  | .double _ _ => .double (doubles.constant 0)
  | .string => .string none

end

end LinuxPtp.Config
