import StyleSlots.Binary64
import StyleSlots.Text.Quoted

/-! # Data

    A call site may pass things that are neither class names nor nodes: a
    missing value, a flag, a count, a record. The library keeps such a
    thing as a `Datum`.

    - **Truth**: a missing value, `false`, zero and everything empty count
      as false.
    - **Agreement**: numbers agree by value, with `true` as one and `false`
      as zero, and records whatever the order of their keys.
    - **Display**: the form in which a log entry shows a datum. -/

namespace StyleSlots

/-- A piece of data with no meaning to the library. -/
inductive Datum where
  | absent
  | flag (value : Bool)
  | integer (value : Int)
  /-- A number written with a point or an exponent. -/
  | binary (value : Binary64)
  | text (value : Text)
  | list (items : List Datum)
  /-- The values belong to the keys at the same places. -/
  | record (keys : List Text) (values : List Datum)
  deriving Repr

namespace Datum

/-! ## Truth -/

/-- Whether a datum counts as true. -/
def truthy : Datum → Bool
  | absent => false
  | flag value => value
  | integer value => value != 0
  | binary value => value.isNonzero
  | text value => ! value.isEmpty
  | list items => ! items.isEmpty
  | record keys _ => ! keys.isEmpty

/-! ## Numbers -/

/-- The integer that a datum is, a flag being one or zero. -/
def whole? : Datum → Option Int
  | flag value => some (if value then 1 else 0)
  | integer value => some value
  | _ => none

/-- The binary number nearest to a datum that is a number. -/
def nearest? : Datum → Option Binary64
  | binary value => some value
  | datum => datum.whole?.map .ofInt

/-- The sum of two data, if both are numbers. -/
def add? (a b : Datum) : Option Datum :=
  match a.whole?, b.whole? with
  | some m, some n => some (integer (m + n))
  | _, _ => do return binary ((← a.nearest?).add (← b.nearest?))

/-- Whether a number is below one. -/
def belowOne? : Datum → Option Bool
  | binary (.finite value) => some (value.value.1 < value.value.2)
  | binary (.infinite negative) => some negative
  | binary .undefined => some false
  | datum => datum.whole?.map (· < 1)

/-! ## Agreement -/

/-- A number as a fraction with a positive denominator. -/
def fraction? : Datum → Option (Int × Nat)
  | binary (.finite value) => some value.value
  | datum => datum.whole?.map (·, 1)

/-- Whether both data are numbers of the same value. -/
def sameNumber (a b : Datum) : Bool :=
  match fraction? a, fraction? b with
  | some (n, d), some (m, e) => n * e == m * d
  | _, _ => false

/-- Whether a datum is the value that is no number, which agrees with
    nothing. It still keeps its place in a list: what stands in the same
    place of two lists may also be undefined in both. -/
def isUndefined : Datum → Bool
  | binary .undefined => true
  | _ => false

mutual

/-- Whether two data are of the same value. -/
def agrees : Datum → Datum → Bool
  | absent, absent => true
  | text a, text b => a == b
  | list as, list bs => agreesAll as bs
  | record ks vs, record ls ws => ks.length == ls.length && agreesFields ks vs (ls.zip ws)
  | binary (.infinite s), binary (.infinite t) => s == t
  | a, b => sameNumber a b

/-- Whether two lists agree element by element. -/
def agreesAll : List Datum → List Datum → Bool
  | [], [] => true
  | a :: as, b :: bs => (agrees a b || a.isUndefined && b.isUndefined) && agreesAll as bs
  | _, _ => false

/-- Whether each key has a value in `others` that agrees with its own. -/
def agreesFields : List Text → List Datum → List (Text × Datum) → Bool
  | k :: ks, v :: vs, others =>
    (match others.find? (·.1 = k) with
      | some other => agrees v other.2 || v.isUndefined && other.2.isUndefined
      | none => false) && agreesFields ks vs others
  | _, _, _ => true

end

/-! ## Display -/

/-- The decimal exponents of the first digit at which a number is written
    without an exponent. -/
def isPositional (leading : Int) : Bool := -4 ≤ leading && leading < 16

/-- The size of a number that is not written as an integer. There is always
    a digit behind the point or an exponent, and an exponent has two
    digits. -/
def displaySize (value : Binary64.Finite) : Text :=
  let shortest := value.shortest
  let shown := decimalNumeral shortest.digits
  let leading : Int := shortest.exponent + shown.length - 1
  if isPositional leading then
    if 0 ≤ shortest.exponent then
      shown ++ List.replicate shortest.exponent.toNat '0' ++ ".0".toList
    else if 0 ≤ leading then
      shown.take (leading.toNat + 1) ++ '.' :: shown.drop (leading.toNat + 1)
    else "0.".toList ++ List.replicate (-leading - 1).toNat '0' ++ shown
  else
    shown.take 1 ++ (if shown.length = 1 then [] else '.' :: shown.drop 1) ++
      'e' :: (if 0 ≤ leading then '+' else '-') ::
        Text.padLeft '0' 2 (decimalNumeral leading.natAbs)

/-- A text with a minus sign in front if there is to be one. -/
def signed (negative : Bool) (t : Text) : Text := if negative then '-' :: t else t

/-- A number that is not written as an integer. -/
def displayBinary : Binary64 → Text
  | .finite value => signed value.negative (displaySize value)
  | .infinite negative => signed negative "inf".toList
  | .undefined => "nan".toList

mutual

/-- The form in which a log entry shows a datum. -/
def display : Datum → Text
  | absent => "None".toList
  | flag true => "True".toList
  | flag false => "False".toList
  | integer value => signedNumeral value
  | binary value => displayBinary value
  | text value => value.quoted
  | list items => Text.bracketed (displayAll items)
  | record keys values => Text.braced ((keys.map Text.quoted).zip (displayAll values))

/-- The forms of the data of a list. -/
def displayAll : List Datum → List Text
  | [] => []
  | item :: more => display item :: displayAll more

end

end Datum

end StyleSlots
