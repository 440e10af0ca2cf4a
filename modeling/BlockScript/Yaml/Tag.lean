import BlockScript.Number.Numeral
import BlockScript.Text.Base64

/-! # Types of scalars

A plain scalar has a type by its spelling: null, a truth value, a number, a point in time, or else a text. A tag written
in front of a scalar says what to take it for, and the spelling of the common types has to agree with it. -/

namespace BlockScript.Yaml

inductive Tag where
  | null
  | bool
  | int
  | float
  | timestamp
  | str
  | binary
  | merge
  | seq
  | map
  | other (name : Bytes)
  deriving DecidableEq, Repr

namespace Tag

def common : List Tag := [.null, .bool, .int, .float, .timestamp, .str, .binary, .merge, .seq, .map]

def text : Tag → Bytes
  | .null => ascii "!!null"
  | .bool => ascii "!!bool"
  | .int => ascii "!!int"
  | .float => ascii "!!float"
  | .timestamp => ascii "!!timestamp"
  | .str => ascii "!!str"
  | .binary => ascii "!!binary"
  | .merge => ascii "!!merge"
  | .seq => ascii "!!seq"
  | .map => ascii "!!map"
  | .other name => name

def longForm : Bytes := ascii "tag:yaml.org,2002:"

def ofText (text : Bytes) : Tag :=
  let short := if longForm.isPrefixOf text then ascii "!!" ++ text.drop longForm.length else text
  (common.find? fun tag => tag.text = short).getD (.other short)

end Tag

def nullWords : List Bytes := [[], ascii "~", ascii "null", ascii "Null", ascii "NULL"]

def trueWords : List Bytes := [ascii "true", ascii "True", ascii "TRUE"]

def falseWords : List Bytes := [ascii "false", ascii "False", ascii "FALSE"]

def floatWords : List Bytes :=
  [ascii ".nan", ascii ".NaN", ascii ".NAN", ascii ".inf", ascii ".Inf", ascii ".INF", ascii "+.inf", ascii "+.Inf",
   ascii "+.INF", ascii "-.inf", ascii "-.Inf", ascii "-.INF"]

/-! ## Integers -/

def digitOf? (b : UInt8) : Option Nat := Numeral.digit? .sixteen b

def natural? (base : Nat) (digits : Bytes) : Option Nat :=
  digits.foldl (fun acc b => do
    let n ← acc
    let d ← digitOf? b
    if d < base then some (n * base + d) else none) (some 0)

/-- The size of an integer without its sign. A leading zero announces another base than ten. -/
def size? (text : Bytes) : Option Nat :=
  match text with
  | [] => none
  | zero :: rest =>
    if zero ≠ '0'.toUInt8 then natural? 10 text
    else match rest with
      | mark :: digit :: digits =>
        let mark := Numeral.lower mark
        if mark = 'x'.toUInt8 then natural? 16 (digit :: digits)
        else if mark = 'o'.toUInt8 then natural? 8 (digit :: digits)
        else if mark = 'b'.toUInt8 then natural? 2 (digit :: digits)
        else natural? 8 rest
      | rest => natural? 8 rest

def fitsSigned (negative : Bool) (n : Nat) : Bool := if negative then n ≤ Nat.pow 2 63 else n < Nat.pow 2 63

/-- The sign may also stand behind a small letter for the base two or eight. -/
def isInnerSigned (text : Bytes) : Bool :=
  let base? := if (ascii "0b").isPrefixOf text then some 2 else if (ascii "0o").isPrefixOf text then some 8 else none
  let body := text.drop 2
  let (negative, digits) := Numeral.splitSign body
  match base?.bind fun base => natural? base digits with
  | some n => body.head?.any Numeral.isSign && !digits.isEmpty && fitsSigned negative n
  | none => false

/-- An integer fits into 64 bits, with a sign or, if it is written without one, as a natural number. -/
def isInt (text : Bytes) : Bool :=
  let (negative, body) := Numeral.splitSign text
  match size? body with
  | none => isInnerSigned text
  | some n => if text.head?.any Numeral.isSign then fitsSigned negative n else n < Nat.pow 2 64

/-! ## Fractions -/

def isDigit (b : UInt8) : Bool := Numeral.isDigit .ten b

def isDecimal (text : Bytes) : Bool :=
  let (_, body) := Numeral.splitSign text
  let whole := body.takeWhile isDigit
  let rest := body.drop whole.length
  let (fraction, rest) :=
    if rest.head? = some Numeral.point then ((rest.drop 1).takeWhile isDigit, (rest.drop 1).dropWhile isDigit)
    else ([], rest)
  let exponent := match rest with
    | [] => true
    | mark :: rest =>
      let (_, digits) := Numeral.splitSign rest
      Numeral.lower mark = 'e'.toUInt8 && !digits.isEmpty && digits.all isDigit
  (!whole.isEmpty || !fraction.isEmpty) && exponent

def isFloat (text : Bytes) : Bool := isDecimal text && (Numeral.read? text).isSome

/-! ## Points in time -/

def shortNumber? (text : Bytes) : Option (Nat × Bytes) :=
  let digits := (text.take 2).takeWhile isDigit
  if digits.isEmpty then none else some (Numeral.digitsValue .ten digits, text.drop digits.length)

def oneOf? (bytes : Bytes) : Bytes → Option Bytes
  | b :: rest => if bytes.contains b then some rest else none
  | [] => none

def isLeap (year : Nat) : Bool := year % 4 = 0 && (year % 100 ≠ 0 || year % 400 = 0)

def daysIn (year month : Nat) : Nat :=
  if month = 2 then (if isLeap year then 29 else 28) else if month ∈ [4, 6, 9, 11] then 30 else 31

def date? (text : Bytes) : Option Bytes := do
  let digits := text.takeWhile isDigit
  if digits.length ≠ 4 then none
  else
    let year := Numeral.digitsValue .ten digits
    let rest ← oneOf? (ascii "-") (text.drop 4)
    let (month, rest) ← shortNumber? rest
    let rest ← oneOf? (ascii "-") rest
    let (day, rest) ← shortNumber? rest
    if 1 ≤ month && month ≤ 12 && 1 ≤ day && day ≤ daysIn year month then some rest else none

def time? (text : Bytes) : Option Bytes := do
  let (hour, rest) ← shortNumber? text
  let rest ← oneOf? (ascii ":") rest
  let (minute, rest) ← shortNumber? rest
  let rest ← oneOf? (ascii ":") rest
  let (second, rest) ← shortNumber? rest
  let fraction := match rest with
    | mark :: after => if (ascii ".,").contains mark then after.takeWhile isDigit else []
    | [] => []
  let rest := if fraction.isEmpty then rest else rest.drop (1 + fraction.length)
  if hour < 24 && minute < 60 && second < 60 then some rest else none

def zone? (text : Bytes) : Option Bytes :=
  match oneOf? (ascii "Z") text with
  | some rest => some rest
  | none => do
    let rest ← oneOf? (ascii "+-") text
    let pair (digits : Bytes) (limit : Nat) : Bool :=
      digits.length = 2 && digits.all isDigit && Numeral.digitsValue .ten digits ≤ limit
    let after ← oneOf? (ascii ":") (rest.drop 2)
    if pair (rest.take 2) 24 && pair (after.take 2) 60 then some (after.drop 2) else none

/-- A date alone, or one with a time: in universal time behind blanks, with a zone behind a `T`. -/
def isTimestamp (text : Bytes) : Bool :=
  match date? text with
  | none => false
  | some [] => true
  | some rest =>
    let local? := do time? ((← oneOf? (ascii " ") rest).dropWhile fun b => b = ' '.toUInt8)
    let zoned? := do zone? (← time? (← oneOf? (ascii "Tt") rest))
    local? = some [] || zoned? = some []

/-! ## The type of a scalar -/

def startsNumber (text : Bytes) : Bool := text.head?.any fun b => isDigit b || Numeral.isSign b

def tagOf (text : Bytes) : Tag :=
  if nullWords.contains text then .null
  else if trueWords.contains text || falseWords.contains text then .bool
  else if floatWords.contains text then .float
  else if text.head? = some Numeral.point then if (Numeral.read? text).isSome then .float else .str
  else if startsNumber text then
    let digits := text.filter fun b => b ≠ Numeral.underscore
    if isTimestamp text then .timestamp else if isInt digits then .int else if isFloat digits then .float else .str
  else .str

/-! ## The value of a scalar -/

inductive ScalarValue where
  | null
  | bool (value : Bool)
  | text (text : Bytes)
  | number
  | timestamp
  deriving DecidableEq, Repr

def isFraction (text : Bytes) : Bool :=
  let digits := text.filter fun b => b ≠ Numeral.underscore
  tagOf text = .float || (tagOf text = .int && (size? digits).all fun n => n < Nat.pow 2 63)

/-- The value of a scalar with a tag; none if the spelling contradicts the tag. A tag of one's own makes it a text, and
so do the tags of collections. -/
def scalarValue? (text : Bytes) (tag : Tag) : Option ScalarValue :=
  let agreed (value : ScalarValue) : Option ScalarValue := if tagOf text = tag then some value else none
  match tag with
  | .null => agreed .null
  | .bool => agreed (.bool (trueWords.contains text))
  | .int => agreed .number
  | .float => if isFraction text then some .number else none
  | .timestamp => agreed .timestamp
  | .binary => (Base64.decode? text).map .text
  | .str | .merge | .seq | .map | .other _ => some (.text text)

end BlockScript.Yaml
