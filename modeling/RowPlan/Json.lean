import RowPlan.Double.Rounding

/-!
JSON values, as plans are dumped to and reloaded from them. Integers and other numbers are told
apart, since an index or an integer literal may not be written `1.0`; a double may be written either
way. Objects keep their fields in a list, and a field is found by its first occurrence.
-/

namespace RowPlan

/-- A JSON value. -/
inductive Json where
  | null
  | bool (b : Bool)
  | int (n : Int)
  | real (d : Double)
  | str (s : String)
  | arr (items : List Json)
  | obj (fields : List (String × Json))

namespace Json

/-- The fields of an object. -/
abbrev Fields := List (String × Json)

def bool? : Json → Option Bool
  | bool b => some b
  | _ => none

def str? : Json → Option String
  | str s => some s
  | _ => none

def items? : Json → Option (List Json)
  | arr items => some items
  | _ => none

/-- A number of 64 bits without sign. -/
def uint64? : Json → Option UInt64
  | int n => if 0 ≤ n ∧ n < 2 ^ 64 then some (.ofNat n.toNat) else none
  | _ => none

/-- A number of 64 bits with sign. -/
def int64? : Json → Option Int64
  | int n => if -2 ^ 63 ≤ n ∧ n < 2 ^ 63 then some (.ofInt n) else none
  | _ => none

/-- Any number, as the double nearest to it. Only finite doubles are numbers. -/
def double? : Json → Option Double
  | real d => if d.isFinite then some d else none
  | int n => if (Double.ofInt n).isFinite then some (.ofInt n) else none
  | _ => none

/-- A double as a number; NaN and the infinities, which have no JSON form, become `null`. -/
def ofDouble (d : Double) : Json := if d.isFinite then real d else null

/-- Where a value stands: by itself, or inside an expression or a row expression, where names may be
spelled in more ways. -/
inductive Place where
  | outer
  | inner
  deriving DecidableEq

/-- A name of an enumeration: a string, or an object whose only field has that name and is `null`.
Inside a tree the field may also be an empty object. -/
def name? (place : Place) : Json → Option String
  | str s => some s
  | obj [(s, null)] => some s
  | obj [(s, obj [])] => if place = .inner then some s else none
  | _ => none

/-- The tag of a tree, or the first item of an array that stands for a tagged value: a string. Inside
a tree it may also be the position of the tag among all the tags there are. -/
def tag? (place : Place) (tags : List String) : Json → Option String
  | str s => some s
  | int n => if place = .inner ∧ 0 ≤ n then tags[n.toNat]? else none
  | _ => none

/-- The name under a tag field, and the value it governs, if there is one. An array has the two as its
items. -/
def tagged? (place : Place) (field : String) (tags : List String) : Json → Option (String × Option Json)
  | obj fields => do return (← (← fields.lookup field).name? place, fields.lookup "value")
  | arr [tag, value] => do return (← tag.tag? place tags, some value)
  | _ => none

end Json

end RowPlan
