import SitePatch.Text.Word
import SitePatch.Toml.Value

/-! # TOML scalars without quotes

Booleans, numbers, dates and times are written without quotes. `Scalar.read?` decides what such a
literal stands for, if anything: integers fit in 64 bits with sign, floats do not overflow, and
dates and times exist. -/

namespace SitePatch.Toml.Scalar

/-! ## Digits -/

/-- The value of a digit in bases up to 16. -/
def digitValue (c : Char) : Nat :=
  if c.isDigit then c.toNat - '0'.toNat
  else if 'a' ≤ c ∧ c ≤ 'f' then c.toNat - 'a'.toNat + 10
  else c.toNat - 'A'.toNat + 10

/-- Whether the character is a digit in the base. -/
def isDigitIn (base : Nat) (c : Char) : Bool :=
  (c.isDigit || ('a' ≤ c && c ≤ 'f') || ('A' ≤ c && c ≤ 'F')) && digitValue c < base

/-- The number that digits stand for. -/
def valueIn (base : Nat) (digits : Text) : Nat :=
  digits.foldl (fun n c => base * n + digitValue c) 0

/-- The digits of a literal in which a single underscore may stand between two digits. -/
def digits? (base : Nat) (t : Text) : Option Text :=
  let groups := t.split '_'
  if groups.all fun g => !g.isEmpty && g.all (isDigitIn base) then some groups.flatten else none

/-- The literal without its sign, and whether the sign is a minus. -/
def unsigned (t : Text) : Bool × Text :=
  match t with
  | '-' :: rest => (true, rest)
  | '+' :: rest => (false, rest)
  | _ => (false, t)

/-- Decimal digits without a leading zero. -/
def decimal? (t : Text) : Option Text :=
  match digits? 10 t with
  | some ['0'] => some ['0']
  | some ('0' :: _) => none
  | other => other

/-! ## Numbers -/

/-- The first number that does not fit in 64 bits with sign. -/
def integerLimit : Int := 0x8000000000000000

/-- The number, if it fits in 64 bits with sign. -/
def inRange? (n : Int) : Option Int := if -integerLimit ≤ n ∧ n < integerLimit then some n else none

/-- The integer a literal stands for. Only decimal integers have signs. -/
def integer? (t : Text) : Option Int :=
  match t with
  | '0' :: 'x' :: rest => (digits? 16 rest).bind fun ds => inRange? (valueIn 16 ds)
  | '0' :: 'o' :: rest => (digits? 8 rest).bind fun ds => inRange? (valueIn 8 ds)
  | '0' :: 'b' :: rest => (digits? 2 rest).bind fun ds => inRange? (valueIn 2 ds)
  | _ =>
    let (minus, body) := unsigned t
    (decimal? body).bind fun ds =>
      let n : Int := valueIn 10 ds
      inRange? (if minus then -n else n)

/-- Whether the number with the decimal digits, times `10 ^ e`, rounds to infinity among the binary
floats of 64 bits. Far from the boundary the number of digits decides. -/
def overflows (digits : Text) (e : Int) : Bool :=
  let digits := digits.dropWhile (· == '0')
  let m := valueIn 10 digits
  if m = 0 then false
  else if 400 < digits.length + e then true
  else if digits.length + e < 300 then false
  else
    let limit := Nat.pow 2 1024 - Nat.pow 2 970
    let scale := Nat.pow 10 e.natAbs
    if e < 0 then limit * scale ≤ m else limit ≤ m * scale

/-- The exponent a literal stands for; leading zeros are allowed. -/
def exponent? (t : Text) : Option Int :=
  let (minus, body) := unsigned t
  (digits? 10 body).map fun ds =>
    let n : Int := valueIn 10 ds
    if minus then -n else n

/-- Whether the literal is a float: a whole part, and a fraction or an exponent or both. -/
def isFloat (t : Text) : Bool :=
  let body := (unsigned t).2
  if body = "inf".toList ∨ body = "nan".toList then true
  else
    let isMark := fun c => c == 'e' || c == 'E'
    let mantissa := body.takeWhile fun c => !isMark c
    let scale := body.dropWhile fun c => !isMark c
    let power := match scale with
      | [] => some 0
      | _ :: e => exponent? e
    match Text.split '.' mantissa, power with
    | [whole], some e =>
      match decimal? whole with
      | some w => !scale.isEmpty && !overflows w e
      | none => false
    | [whole, fraction], some e =>
      match decimal? whole, digits? 10 fraction with
      | some w, some f => !overflows (w ++ f) (e - f.length)
      | _, _ => false
    | _, _ => false

/-! ## Dates and times -/

/-- The number written with exactly `width` decimal digits. -/
def field? (width : Nat) (t : Text) : Option Nat :=
  if t.length = width ∧ t.all Char.isDigit then some (valueIn 10 t) else none

/-- The number of days of a month. -/
def daysIn (year month : Nat) : Nat :=
  if month = 2 then
    if year % 4 = 0 ∧ (year % 100 ≠ 0 ∨ year % 400 = 0) then 29 else 28
  else if month = 4 ∨ month = 6 ∨ month = 9 ∨ month = 11 then 30
  else 31

/-- Whether the text is a date that exists. -/
def isDate (t : Text) : Bool :=
  match t.split '-' with
  | [y, m, d] =>
    match field? 4 y, field? 2 m, field? 2 d with
    | some y, some m, some d => 1 ≤ m && m ≤ 12 && 1 ≤ d && d ≤ daysIn y m
    | _, _, _ => false
  | _ => false

/-- Whether the text is a time of day, with or without seconds; the last second may be a leap
second. -/
def isTime (t : Text) : Bool :=
  match t.split ':' with
  | [h, m] =>
    match field? 2 h, field? 2 m with
    | some h, some m => h ≤ 23 && m ≤ 59
    | _, _ => false
  | [h, m, s] =>
    let seconds := match s.split '.' with
      | [s] => field? 2 s
      | [s, fraction] => if !fraction.isEmpty && fraction.all Char.isDigit then field? 2 s else none
      | _ => none
    match field? 2 h, field? 2 m, seconds with
    | some h, some m, some s => h ≤ 23 && m ≤ 59 && s ≤ 60
    | _, _, _ => false
  | _ => false

/-- Whether the text is a distance from universal time, in hours and minutes. -/
def isOffset (t : Text) : Bool :=
  match t with
  | ['Z'] | ['z'] => true
  | sign :: rest =>
    (sign == '+' || sign == '-') &&
      match Text.split ':' rest with
      | [h, m] =>
        match field? 2 h, field? 2 m with
        | some h, some m => h ≤ 23 && m ≤ 59
        | _, _ => false
      | _ => false
  | [] => false

/-- Whether the text is a time of day, with or without an offset. -/
def isTimeWithOffset (t : Text) : Bool :=
  let inTime := fun c => Char.isDigit c || c == ':' || c == '.'
  let offset := t.dropWhile inTime
  isTime (t.takeWhile inTime) && (offset.isEmpty || isOffset offset)

/-- Whether the text is a date, a time, or a date and a time with or without an offset. -/
def isDatetime (t : Text) : Bool :=
  isDate t || isTime t ||
    match t.drop 10 with
    | separator :: time =>
      (separator == 'T' || separator == 't' || separator == ' ') && isDate (t.take 10)
        && isTimeWithOffset time
    | [] => false

/-! ## Literals -/

/-- The characters of which literals consist. -/
def isLiteralChar (c : Char) : Bool :=
  Text.isIdentChar c || c == '+' || c == '-' || c == '.' || c == ':'

/-- **The value of a literal**, if it has one. -/
def read? (t : Text) : Option Value :=
  if t = "true".toList then some (.boolean true)
  else if t = "false".toList then some (.boolean false)
  else match integer? t with
    | some n => some (.integer n)
    | none =>
      if isFloat t then some (.float t)
      else if isDatetime t then some (.datetime t)
      else none

end SitePatch.Toml.Scalar
