import RowPlan.BuiltIn
import RowPlan.Flag
import RowPlan.Json
import RowPlan.Literal
import RowPlan.Operator
import RowPlan.SqlType

/-!
The JSON forms of names, symbols, flags and literals.

A literal is an object with a `kind` and a `value`; `null` is written without a value. The sixth
kind, and the form of its values, depend on where the literal stands, so they are parameters of
reading and writing.
-/

namespace RowPlan

def SqlType.toJson (t : SqlType) : Json := .str t.tag

def SqlType.ofJson? (place : Json.Place) (j : Json) : Option SqlType := (j.name? place).bind ofTag?

def BuiltIn.toJson (f : BuiltIn) : Json := .str f.tag

def BuiltIn.ofJson? (place : Json.Place) (j : Json) : Option BuiltIn := (j.name? place).bind ofTag?

def Operator.toJson (op : Operator) : Json := .str op.tag

def Operator.ofJson? (place : Json.Place) (j : Json) : Option Operator := (j.name? place).bind ofTag?

namespace Symbol

/-- The names of the enumerations. -/
def enumerations : List String :=
  ["JsonQueryWrapper", "JsonQueryOnEmptyOrError", "JsonValueOnEmptyOrError", "JsonExistsOnError"]

/-- The enumeration a symbol belongs to. -/
def enumeration : Symbol → String
  | wrapper _ => "JsonQueryWrapper"
  | queryFallback _ => "JsonQueryOnEmptyOrError"
  | valueFallback _ => "JsonValueOnEmptyOrError"
  | existsFallback _ => "JsonExistsOnError"

/-- The tag of a symbol within its enumeration. -/
def tag : Symbol → String
  | wrapper w => w.tag
  | queryFallback b => b.tag
  | valueFallback b => b.tag
  | existsFallback b => b.tag

def toJson (s : Symbol) : Json := .obj [("symbol", .str s.enumeration), ("value", .str s.tag)]

/-- The symbol of an enumeration with a given tag. -/
def ofTag? (enumeration tag : String) : Option Symbol :=
  if enumeration = "JsonQueryWrapper" then (Wrapper.ofTag? tag).map wrapper
  else if enumeration = "JsonQueryOnEmptyOrError" then (QueryFallback.ofTag? tag).map queryFallback
  else if enumeration = "JsonValueOnEmptyOrError" then (ValueFallback.ofTag? tag).map valueFallback
  else if enumeration = "JsonExistsOnError" then (ExistsFallback.ofTag? tag).map existsFallback
  else none

def ofJson? (place : Json.Place) (j : Json) : Option Symbol := do
  let (enumeration, value) ← j.tagged? place "symbol" enumerations
  ofTag? enumeration (← (← value).name? place)

end Symbol

namespace Flag

/-- The names of the enumerations. -/
def enumerations : List String :=
  ["JsonQueryWrapper", "JsonQueryEmptyOrError", "JsonValueEmptyOrError", "JsonExistsError",
    "JsonEmptyOrError"]

/-- The enumeration a flag belongs to. -/
def enumeration : Flag → String
  | wrapper _ => "JsonQueryWrapper"
  | queryFallback _ => "JsonQueryEmptyOrError"
  | valueFallback _ => "JsonValueEmptyOrError"
  | existsFallback _ => "JsonExistsError"
  | clause _ => "JsonEmptyOrError"

def toJson (f : Flag) : Json := .obj [("flag", .str f.enumeration), ("value", .str f.name)]

/-- The flag of an enumeration with a given name. -/
def ofName? (enumeration name : String) : Option Flag :=
  if enumeration = "JsonQueryWrapper" then (Wrapper.ofName? name).map wrapper
  else if enumeration = "JsonQueryEmptyOrError" then (QueryFallback.ofName? name).map queryFallback
  else if enumeration = "JsonValueEmptyOrError" then (ValueFallback.ofName? name).map valueFallback
  else if enumeration = "JsonExistsError" then (ExistsFallback.ofName? name).map existsFallback
  else if enumeration = "JsonEmptyOrError" then (Clause.ofName? name).map clause
  else none

def ofJson? (place : Json.Place) (j : Json) : Option Flag := do
  let (enumeration, value) ← j.tagged? place "flag" enumerations
  ofName? enumeration (← (← value).name? place)

end Flag

/-- The kind and the JSON form of the enumerated literals. -/
structure Literal.Sixth (σ : Type) where
  kind : String
  toJson : σ → Json
  ofJson? : Json.Place → Json → Option σ

def Literal.Sixth.symbol : Sixth Symbol := ⟨"symbol", Symbol.toJson, Symbol.ofJson?⟩

def Literal.Sixth.flag : Sixth Flag := ⟨"flag", Flag.toJson, Flag.ofJson?⟩

namespace Literal

variable {σ : Type}

/-- The fields that write a literal. -/
def toFields (c : Sixth σ) : Literal σ → Json.Fields
  | null => [("kind", .str "null")]
  | boolean b => [("kind", .str "boolean"), ("value", .bool b)]
  | integer n => [("kind", .str "integer"), ("value", .int n.toInt)]
  | double d => [("kind", .str "double"), ("value", .ofDouble d)]
  | string s => [("kind", .str "string"), ("value", .str s)]
  | symbol s => [("kind", .str c.kind), ("value", c.toJson s)]

def toJson (c : Sixth σ) (v : Literal σ) : Json := .obj (v.toFields c)

/-- The names of the kinds. -/
def kinds (c : Sixth σ) : List String := ["null", "boolean", "integer", "double", "string", c.kind]

/-- The literal of a kind other than `null` with a given value. -/
def ofValue? (c : Sixth σ) (place : Json.Place) (kind : String) (value : Json) : Option (Literal σ) :=
  if kind = "boolean" then value.bool?.map boolean
  else if kind = "integer" then value.int64?.map integer
  else if kind = "double" then value.double?.map double
  else if kind = "string" then value.str?.map string
  else if kind = c.kind then (c.ofJson? place value).map symbol
  else none

/-- The literal of a kind whose value may be missing. Only `null` needs none, and has no other than
`null`. -/
def ofKind? (c : Sixth σ) (place : Json.Place) (kind : String) (value : Option Json) :
    Option (Literal σ) :=
  if kind = "null" then
    match value with
    | none => some null
    | some .null => some null
    | some _ => none
  else value.bind (ofValue? c place kind)

def ofJson? (c : Sixth σ) (place : Json.Place) (j : Json) : Option (Literal σ) := do
  let (kind, value) ← j.tagged? place "kind" (kinds c)
  ofKind? c place kind value

end Literal

end RowPlan
