import DatalogFragments.Listing
import DatalogFragments.Text.Quoted
import DatalogFragments.Value

/-!
# Display text of values

Messages and reports show a value in a fixed notation: text between quotation marks, lists in
brackets, tuples in parentheses (a single item keeps a comma), mappings and sets in braces, and
terms and binding forms by the name of their class and their parts. Display information is not
shown.

## Main definitions

* `Value.display`: the notation;
* `Value.plain`: the same, with text and symbols by their bare characters;
* `Value.kindName`, `Value.className`: the words for the kind of a value.
-/

namespace DatalogFragments

/-- Items between an opening and a closing mark, separated by commas. -/
def bracketed (opening closing : String) (items : List String) : String :=
  opening ++ joinTexts ", " items ++ closing

/-- Items as a tuple: a single item is followed by a comma. -/
def parenthesised : List String → String
  | [item] => "(" ++ item ++ ",)"
  | items => bracketed "(" ")" items

/-- A number of at least the given count of digits. -/
def paddedNat (width n : Nat) : String :=
  let digits := digitsOf n
  String.ofList (List.replicate (width - digits.length) '0' ++ digits)

namespace Date

/-- Year, month and day, separated by hyphens. -/
def iso (d : Date) : String :=
  paddedNat 4 d.year ++ "-" ++ paddedNat 2 d.month ++ "-" ++ paddedNat 2 d.day

/-- The notation of a date. -/
def display (d : Date) : String :=
  bracketed "datetime.date(" ")" [intText d.year, intText d.month, intText d.day]

end Date

namespace Moment

/-- Date and time of day around a separator, and the offset if there is one. -/
def iso (separator : String) (m : Moment) : String :=
  let fraction := if m.microsecond = 0 then "" else "." ++ paddedNat 6 m.microsecond
  let zone :=
    match m.zone with
    | none => ""
    | some z =>
      (if z < 0 then "-" else "+") ++ paddedNat 2 (z.natAbs / 60) ++ ":" ++ paddedNat 2 (z.natAbs % 60)
  m.date.iso ++ separator ++ paddedNat 2 m.hour ++ ":" ++ paddedNat 2 m.minute ++ ":"
    ++ paddedNat 2 m.second ++ fraction ++ zone

/-- The notation of an offset from universal time. -/
def displayZone (minutes : Int) : String :=
  if minutes = 0 then "datetime.timezone.utc"
  else
    let seconds := minutes * 60
    let days := Int.fdiv seconds 86400
    let rest := seconds - days * 86400
    let parts := (if days = 0 then [] else ["days=" ++ intText days])
      ++ (if rest = 0 then [] else ["seconds=" ++ intText rest])
    "datetime.timezone(" ++ bracketed "datetime.timedelta(" ")" parts ++ ")"

/-- The notation of a moment: seconds and microseconds are left out at the end if zero. -/
def display (m : Moment) : String :=
  let fraction :=
    if m.microsecond ≠ 0 then [intText m.second, intText m.microsecond]
    else if m.second ≠ 0 then [intText m.second] else []
  let zone :=
    match m.zone with
    | some z => ["tzinfo=" ++ displayZone z]
    | none => []
  bracketed "datetime.datetime(" ")"
    ([intText m.date.year, intText m.date.month, intText m.date.day,
      intText m.hour, intText m.minute] ++ fraction ++ zone)

end Moment

namespace Value

/-! ## Words for kinds -/

/-- The word for the kind of a term. -/
def termKind : Clause → String
  | .sym _ => "Symbol"
  | .seq .. => "Sequence"
  | .vec .. => "Vector"
  | .lit .. => "Literal"
  | .stray _ => "object"

/-- The word for the kind of a value. -/
def kindName : Value → String
  | .null => "NoneType"
  | .bool _ => "bool"
  | .int _ => "int"
  | .float _ => "float"
  | .text _ => "str"
  | .bytes _ => "bytes"
  | .keyword _ => "Keyword"
  | .list _ => "list"
  | .tuple _ => "tuple"
  | .mapping _ => "dict"
  | .set _ => "set"
  | .frozenSet _ => "frozenset"
  | .stream _ => "list_iterator"
  | .date _ => "date"
  | .moment _ => "datetime"
  | .term (.stray v) => kindName v
  | .term t => termKind t
  | .misnamed .. => "Symbol"
  | .collForm _ => "CollectionBinding"
  | .tupForm _ => "TupleBinding"

/-- The word for the kind of a value, with the module that defines it. -/
def className (v : Value) : String :=
  let home :=
    match v with
    | .keyword _ | .term _ | .misnamed .. => "qslice.terms."
    | .collForm _ | .tupForm _ => "qslice.bindings."
    | .date _ | .moment _ => "datetime."
    | _ => ""
  "<class '" ++ home ++ v.kindName ++ "'>"

/-! ## Notation -/

mutual

/-- The notation of a value. -/
def display : Value → String
  | .null => "None"
  | .bool b => if b then "True" else "False"
  | .int i => intText i
  | .float x => x.text
  | .text s => quotedText s
  | .bytes bs => quotedBytes bs
  | .keyword k => "Keyword(name=" ++ quotedText k ++ ")"
  | .list xs => bracketed "[" "]" (displayAll xs)
  | .tuple xs => parenthesised (displayAll xs)
  | .mapping es => bracketed "\x7b" "\x7d" (displayEntries es)
  | .set xs => if xs.isEmpty then "set()" else bracketed "\x7b" "\x7d" (displayAll xs)
  | .frozenSet xs =>
    if xs.isEmpty then "frozenset()" else bracketed "frozenset(\x7b" "\x7d)" (displayAll xs)
  | .stream _ => "<list_iterator object>"
  | .date d => d.display
  | .moment m => m.display
  | .term t => displayTerm t
  | .misnamed n _ => "Symbol(name=" ++ display n ++ ")"
  | .collForm v => "CollectionBinding(inner=" ++ display v ++ ")"
  | .tupForm xs => "TupleBinding(items=" ++ parenthesised (displayAll xs) ++ ")"

/-- The notation of every value. -/
def displayAll : List Value → List String
  | [] => []
  | x :: xs => display x :: displayAll xs

/-- The notation of every entry. -/
def displayEntries : List (Value × Value) → List String
  | [] => []
  | (k, v) :: rest => (display k ++ ": " ++ display v) :: displayEntries rest

/-- The notation of a term. -/
def displayTerm : Clause → String
  | .sym s => "Symbol(name=" ++ quotedText s.name ++ ")"
  | .seq xs _ => "Sequence(items=" ++ parenthesised (displayTerms xs) ++ ")"
  | .vec xs _ => "Vector(items=" ++ parenthesised (displayTerms xs) ++ ")"
  | .lit v _ => "Literal(value=" ++ display v ++ ")"
  | .stray v => display v

/-- The notation of every term. -/
def displayTerms : List Clause → List String
  | [] => []
  | x :: xs => displayTerm x :: displayTerms xs

end

/-- The notation within a sentence: text, symbols and calendar values by their bare characters. -/
def plain : Value → String
  | .text s => s
  | .term (.sym s) => s.name
  | .date d => d.iso
  | .moment m => m.iso " "
  | v => v.display

/-- The name that messages use for a fragment of the given name. -/
def labelText : Value → String
  | .null => "<unnamed>"
  | v => v.plain

end Value

/-- The notation of a term within a sentence. -/
def Term.plain (t : Clause) : String := t.toValue.plain

end DatalogFragments
