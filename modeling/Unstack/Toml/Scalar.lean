import Unstack.Data.Basic
import Unstack.Text.Hex
import Unstack.Toml.Reader

/-!
Unquoted values in TOML: truth values, integers, floats, dates and times. Such a value is a run of
characters that no other value can follow directly, so it is cut off first and classified as a
whole. Only a date and its time may be two runs, with a single space between them.
-/

namespace Unstack.Toml

/-- The characters of unquoted values. -/
def isScalarChar (c : Char) : Bool :=
  c.isAlphanum || c = '+' || c = '-' || c = '_' || c = '.' || c = ':'

namespace Scalar

/-- Digits with single underscores between them, starting after a digit. -/
def moreDigits (isDigit : Char → Bool) : List Char → Bool
  | [] => true
  | '_' :: c :: r => isDigit c && moreDigits isDigit r
  | c :: r => isDigit c && moreDigits isDigit r

/-- At least one digit, with single underscores between digits. -/
def isDigits (isDigit : Char → Bool) : List Char → Bool
  | [] => false
  | c :: r => isDigit c && moreDigits isDigit r

/-- The number that decimal digits write, underscores left out. -/
def decimal (s : List Char) : Nat :=
  (s.filter (· ≠ '_')).foldl (fun n c => 10 * n + (c.toNat - 48)) 0

/-- Decimal digits without a leading zero. -/
def isWhole (s : List Char) : Bool :=
  isDigits Char.isDigit s && (s.head? ≠ some '0' || s.length = 1)

/-- The text after a sign, and whether the sign is a minus. -/
def splitSign : List Char → Bool × List Char
  | '-' :: r => (true, r)
  | '+' :: r => (false, r)
  | s => (false, s)

/-- A decimal integer of 64 bits. -/
def isDecimalInteger (s : List Char) : Bool :=
  let (minus, digits) := splitSign s
  isWhole digits && decimal digits < 0x8000000000000000 + (if minus then 1 else 0)

def isBit (c : Char) : Bool :=
  c = '0' || c = '1'

def isOctal (c : Char) : Bool :=
  '0' ≤ c && c ≤ '7'

def isHex (c : Char) : Bool :=
  (Hex.digit? c).isSome

/-- The number that digits in a base write, underscores left out. -/
def inBase (base : Nat) (s : List Char) : Nat :=
  (s.filter (· ≠ '_')).foldl (fun n c => base * n + (Hex.digit? c).getD 0) 0

/-- An integer with a mark for its base; it has no sign. -/
def isBasedInteger : List Char → Bool
  | '0' :: 'x' :: r => isDigits isHex r && inBase 16 r < 0x8000000000000000
  | '0' :: 'o' :: r => isDigits isOctal r && inBase 8 r < 0x8000000000000000
  | '0' :: 'b' :: r => isDigits isBit r && inBase 2 r < 0x8000000000000000
  | _ => false

/-- The least number that is nearer to no finite double: halfway between the greatest one and
`2 ^ 1024`, where a tie goes up. -/
def doubleLimit : Nat :=
  Nat.pow 2 1024 - Nat.pow 2 970

/-- Whether `m * 10 ^ e` is too large for a double. Far from the limit the number of digits
decides. -/
def exceedsDouble (m : Nat) (e : Int) : Bool :=
  let places := (Nat.toDigits 10 m).length + e
  if m = 0 ∨ places < 300 then false
  else if 320 < places then true
  else doubleLimit * Nat.pow 10 (-e).toNat ≤ m * Nat.pow 10 e.toNat

/-- The exponent of a float, with its mark: `none` if it is no exponent, zero if it is absent. -/
def exponent? : List Char → Option Int
  | [] => some 0
  | _ :: r =>
    let (minus, digits) := splitSign r
    if isDigits Char.isDigit digits then
      some (if minus then -(decimal digits : Int) else decimal digits)
    else none

/-- The digits of the fraction of a float, after its point: `none` if there is a point without
digits. -/
def fraction? : List Char → Option (List Char)
  | [] => some []
  | _ :: r => if isDigits Char.isDigit r then some (r.filter (· ≠ '_')) else none

def isExponentMark (c : Char) : Bool :=
  c = 'e' || c = 'E'

/-- A decimal float: it has a fraction or an exponent. A positive one has to have a finite
double. -/
def isDecimalFloat (s : List Char) : Bool :=
  let (minus, r) := splitSign s
  let mantissa := r.takeWhile (!isExponentMark ·)
  let whole := mantissa.takeWhile (· ≠ '.')
  whole ≠ r && isWhole whole &&
    match fraction? (mantissa.dropWhile (· ≠ '.')), exponent? (r.dropWhile (!isExponentMark ·)) with
    | some frac, some e => minus || !exceedsDouble (decimal (whole ++ frac)) (e - frac.length)
    | _, _ => false

/-- A float that is no number of digits. -/
def isSpecialFloat (s : List Char) : Bool :=
  let r := (splitSign s).2
  r = "inf".toList || r = "nan".toList

/-- A number of exactly two digits within bounds, and the rest. -/
def twoDigits? (low high : Nat) : List Char → Option (Nat × List Char)
  | a :: b :: r =>
    if a.isDigit && b.isDigit && low ≤ decimal [a, b] && decimal [a, b] ≤ high then
      some (decimal [a, b], r)
    else none
  | _ => none

def daysInMonth (year month : Nat) : Nat :=
  if month = 2 then
    if year % 4 = 0 ∧ (year % 100 ≠ 0 ∨ year % 400 = 0) then 29 else 28
  else if month = 4 ∨ month = 6 ∨ month = 9 ∨ month = 11 then 30
  else 31

/-- The text after a date that exists in the calendar. -/
def afterDate? : List Char → Option (List Char)
  | a :: b :: c :: d :: '-' :: r =>
    if [a, b, c, d].all Char.isDigit then
      match twoDigits? 1 12 r with
      | some (month, '-' :: r) =>
        (twoDigits? 1 (daysInMonth (decimal [a, b, c, d]) month) r).map (·.2)
      | _ => none
    else none
  | _ => none

/-- The text after a time of day. A minute may have 61 seconds. -/
def afterTime? (s : List Char) : Option (List Char) :=
  match twoDigits? 0 23 s with
  | some (_, ':' :: r) =>
    match twoDigits? 0 59 r with
    | some (_, ':' :: r) =>
      match twoDigits? 0 60 r with
      | some (_, '.' :: c :: r) =>
        if c.isDigit then some (r.dropWhile Char.isDigit) else none
      | some (_, ['.']) => none
      | some (_, r) => some r
      | none => none
    | _ => none
  | _ => none

/-- Whether a text is a distance from universal time, or empty. -/
def isOffset : List Char → Bool
  | [] => true
  | [c] => c = 'Z' || c = 'z'
  | sign :: r =>
    (sign = '+' || sign = '-') &&
      match twoDigits? 0 23 r with
      | some (_, ':' :: r) => (twoDigits? 0 59 r).any fun p => p.2.isEmpty
      | _ => false

/-- A time of day with an optional distance from universal time, as it follows a date. -/
def isZonedTime (s : List Char) : Bool :=
  (afterTime? s).any isOffset

/-- A date alone. -/
def isDate (s : List Char) : Bool :=
  afterDate? s == some []

/-- A time of day, a date, or a date and a time joined by the letter T. -/
def isDateTime (s : List Char) : Bool :=
  isDate s || afterTime? s == some [] ||
    match afterDate? s with
    | some (c :: r) => (c = 'T' || c = 't') && isZonedTime r
    | _ => false

/-- How a date or time is read: as a structure of its own, with a field that no other has. -/
def dateTimeData (s : List Char) : Data :=
  .object [("$datetime", .string (String.ofList s))]

/-- The value that a run of characters writes. -/
def ofRun? (s : List Char) : Option Data :=
  if s = "true".toList then some (.bool true)
  else if s = "false".toList then some (.bool false)
  else if isDateTime s then some (dateTimeData s)
  else if isDecimalInteger s || isBasedInteger s || isDecimalFloat s || isSpecialFloat s then
    some (.number (String.ofList s))
  else none

end Scalar

/-- The run after a single space. -/
def spacedRun? (s : List Char) : Option (Taken s (List Char)) :=
  (mark? ' ' s).bind fun m => (run? isScalarChar m.rest).map m.followedBy

/-- An unquoted value. What a space divides from a date has to be its time. -/
def scalar? (s : List Char) : Option (Taken s Data) :=
  (run? isScalarChar s).bind fun t =>
    match if Scalar.isDate t.value then spacedRun? t.rest else none with
    | some u =>
      if Scalar.isZonedTime u.value then
        some (t.followedBy (u.map fun time => Scalar.dateTimeData (t.value ++ ' ' :: time)))
      else none
    | none => (Scalar.ofRun? t.value).map fun d => t.map fun _ => d

end Unstack.Toml
