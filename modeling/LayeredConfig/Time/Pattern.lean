import LayeredConfig.Time.Directive
import LayeredConfig.Time.Moment

/-!
# Time patterns

A pattern is text in which directives stand for parts of a moment. Names are English. A directive with an unknown
letter, or with a variant that its letter does not have, stands for itself. A null character ends the pattern.
Years are written with as many digits as they have.
-/

namespace LayeredConfig.Moment

/-- The English names of the days of the week, from Monday on. -/
def dayNames : List String :=
  ["Monday", "Tuesday", "Wednesday", "Thursday", "Friday", "Saturday", "Sunday"]

/-- The English names of the months. -/
def monthNames : List String :=
  ["January", "February", "March", "April", "May", "June", "July", "August", "September", "October",
    "November", "December"]

/-- The digits of a number, at least `width` of them. -/
def digits (width n : Nat) : List Char :=
  Directive.pad '0' width (decimalDigits n)

/-- The name of the day of the week. -/
def dayName (moment : Moment) : List Char :=
  (dayNames.getD moment.weekday "").toList

/-- The name of the month. -/
def monthName (moment : Moment) : List Char :=
  (monthNames.getD (moment.month - 1) "").toList

/-- The hour, minute and second. -/
def clockText (moment : Moment) : List Char :=
  digits 2 moment.hour ++ ':' :: digits 2 moment.minute ++ ':' :: digits 2 moment.second

/-- The half of the day. -/
def half (moment : Moment) : List Char :=
  if moment.hour < 12 then ['A', 'M'] else ['P', 'M']

/-- The date and the time of day as one phrase. -/
def dateAndTime (moment : Moment) : List Char :=
  moment.dayName.take 3 ++ ' ' :: moment.monthName.take 3 ++ ' '
    :: Directive.pad ' ' 2 (decimalDigits moment.day) ++ ' ' :: moment.clockText ++ ' '
    :: decimalDigits moment.year

/-- The date with the month first. -/
def shortDate (moment : Moment) : List Char :=
  digits 2 moment.month ++ '/' :: digits 2 moment.day ++ '/' :: digits 2 (moment.year % 100)

/-- The date with the year first. -/
def plainDate (moment : Moment) : List Char :=
  decimalDigits moment.year ++ '-' :: digits 2 moment.month ++ '-' :: digits 2 moment.day

/-- The time of day on a clock face. -/
def clockFaceText (moment : Moment) : List Char :=
  digits 2 moment.clockHour ++ ':' :: digits 2 moment.minute ++ ':' :: digits 2 moment.second ++ ' '
    :: moment.half

/-- The field of a letter, if it has one. `swap` says whether the flag that changes case is set. -/
def field? (moment : Moment) (swap : Bool) : Char → Option Field
  | 'Y' => some (.number .zeros 1 moment.year)
  | 'C' => some (.number .zeros 1 (moment.year / 100))
  | 'y' => some (.number .zeros 2 (moment.year % 100))
  | 'm' => some (.number .zeros 2 moment.month)
  | 'd' => some (.number .zeros 2 moment.day)
  | 'e' => some (.number .spaces 2 moment.day)
  | 'j' => some (.number .zeros 3 (moment.dayOfYear + 1))
  | 'H' => some (.number .zeros 2 moment.hour)
  | 'k' => some (.number .spaces 2 moment.hour)
  | 'I' => some (.number .zeros 2 moment.clockHour)
  | 'l' => some (.number .spaces 2 moment.clockHour)
  | 'M' => some (.number .zeros 2 moment.minute)
  | 'S' => some (.number .zeros 2 moment.second)
  | 'u' => some (.number .zeros 1 (moment.weekday + 1))
  | 'w' => some (.number .zeros 1 moment.weekdayFromSunday)
  | 'U' => some (.number .zeros 2 moment.sundayWeek)
  | 'W' => some (.number .zeros 2 moment.mondayWeek)
  | 'V' => some (.number .zeros 2 moment.numberedWeek.2)
  | 'G' => some (.number .zeros 1 moment.numberedWeek.1)
  | 'g' => some (.number .zeros 2 (moment.numberedWeek.1 % 100))
  | 'A' => some (.name moment.dayName)
  | 'a' => some (.name (moment.dayName.take 3))
  | 'B' => some (.name moment.monthName)
  | 'b' | 'h' => some (.name (moment.monthName.take 3))
  | 'p' => some (.fixed (if swap then moment.half.map Char.toLower else moment.half))
  | 'P' => some (.fixed (moment.half.map Char.toLower))
  | 'D' | 'x' => some (.phrase moment.shortDate)
  | 'F' => some (.phrase moment.plainDate)
  | 'R' => some (.phrase (digits 2 moment.hour ++ ':' :: digits 2 moment.minute))
  | 'T' | 'X' => some (.phrase moment.clockText)
  | 'r' => some (.phrase moment.clockFaceText)
  | 'c' => some (.phrase moment.dateAndTime)
  | 's' => some (.fixed (integerText moment.secondsSinceEpoch))
  | 'n' => some (.fixed ['\n'])
  | 't' => some (.fixed ['\t'])
  | 'Z' => some .blank
  | 'z' => some .absent
  | '%' => some (.fixed ['%'])
  | _ => none

/-- The letters whose fields do not have a variant. -/
def lettersWithout : Option Char → List Char
  | some 'E' => "aAbhBDdeFHIkljMmSUVgGWw%".toList
  | some 'O' => "aAcDFxXY%".toList
  | _ => []

/-- What stands for a directive that is written so after its percent sign. A refused directive shows itself from
its last percent sign on; the short name of a month, when refused, still heeds both flags of case. -/
def layOut (moment : Moment) (directive : Directive) (written : List Char) : List Char :=
  let refused : Field :=
    match directive.letter with
    | some '%' => .phrase ['%']
    | some 'b' | some 'h' => .name ('%' :: written)
    | _ => .phrase ('%' :: written)
  let field :=
    match directive.letter with
    | some letter =>
      if (lettersWithout directive.variant).contains letter then refused
      else (moment.field? directive.swap letter).getD refused
    | none => refused
  directive.layOut field

/-- A moment written by a pattern without a null character, in which widths of `limit` and more count as
`limit`. -/
def writeParts (moment : Moment) (limit : Nat) : List Char → List Char
  | '%' :: rest =>
    let taken := Directive.take limit rest
    moment.layOut taken.1 (rest.take (rest.length - taken.2.length))
      ++ moment.writeParts limit taken.2
  | c :: rest => c :: moment.writeParts limit rest
  | [] => []
termination_by pattern => pattern.length
decreasing_by
  · exact Nat.lt_succ_of_le (Directive.length_take_le limit rest)
  · simp

/-- A pattern with the fraction of the second put in, and the time zone, which is empty. -/
def withFraction (moment : Moment) : List Char → List Char
  | '%' :: 'f' :: rest => digits 6 moment.microsecond ++ moment.withFraction rest
  | '%' :: 'z' :: rest | '%' :: 'Z' :: rest => moment.withFraction rest
  | '%' :: c :: rest => '%' :: c :: moment.withFraction rest
  | c :: rest => c :: moment.withFraction rest
  | [] => []

/-- The room for what a pattern of a length writes: 1024 characters, doubled until it holds 256 for each character
of the pattern. -/
def room (length : Nat) : Nat :=
  if 256 * length ≤ 1024 then 1024 else Nat.pow 2 ((256 * length - 1).log2 + 1)

/-- A moment written by a pattern, which ends at its first null character. A text that does not fit into its room
is left out. -/
def write (moment : Moment) (pattern : List Char) : List Char :=
  let pattern := moment.withFraction (pattern.takeWhile (· != '\x00'))
  let limit := room pattern.length
  let text := moment.writeParts limit pattern
  if text.length < limit then text else []

end LayeredConfig.Moment
