import RowPlan.Expr
import RowPlan.Json.Literal

/-!
The JSON form of expressions: an object whose `type` tells the kind of expression and which fields
are read. Other fields are ignored. An array of the type and all of those fields, in order, reads
as the same expression; writing gives objects.

What stands in the fields of an expression is inside a tree, whether the expression itself is or not.
-/

namespace RowPlan

namespace Expr

mutual

def toJson : Expr → Json
  | field name index =>
    .obj [("type", .str "field_ref"), ("name", .str name), ("index", .int index.toNat)]
  | literal value => .obj [("type", .str "literal"), ("value", value.toJson .symbol)]
  | type t => .obj [("type", .str "type_literal"), ("data_type", t.toJson)]
  | call function args =>
    .obj [("type", .str "call"), ("function", function.toJson), ("args", .arr (toJsons args))]

def toJsons : List Expr → List Json
  | [] => []
  | e :: es => toJson e :: toJsons es

end

/-- The field with the given name and index, in JSON. -/
def fieldOfJson? (name index : Json) : Option Expr := do
  return field (← name.str?) (← index.uint64?)

/-- The values of `type`. -/
def tags : List String := ["field_ref", "literal", "type_literal", "call"]

mutual

def ofJson? (place : Json.Place) : Json → Option Expr
  | .obj fields => do
    let tag ← (← fields.lookup "type").tag? place tags
    if tag = "field_ref" then fieldOfJson? (← fields.lookup "name") (← fields.lookup "index")
    else if tag = "literal" then
      return literal (← Literal.ofJson? .symbol .inner (← fields.lookup "value"))
    else if tag = "type_literal" then
      return type (← SqlType.ofJson? .inner (← fields.lookup "data_type"))
    else if tag = "call" then
      return call (← BuiltIn.ofJson? .inner (← fields.lookup "function"))
        (← argsOfFields? .inner fields)
    else none
  | .arr [tag, value] => do
    let tag ← tag.tag? place tags
    if tag = "literal" then return literal (← Literal.ofJson? .symbol .inner value)
    else if tag = "type_literal" then return type (← SqlType.ofJson? .inner value)
    else none
  | .arr [tag, first, second] => do
    let tag ← tag.tag? place tags
    if tag = "field_ref" then fieldOfJson? first second
    else if tag = "call" then
      return call (← BuiltIn.ofJson? .inner first) (← argsOfJson? .inner second)
    else none
  | _ => none

/-- The expressions under the name `args`. -/
def argsOfFields? (place : Json.Place) : List (String × Json) → Option (List Expr)
  | [] => none
  | (name, value) :: rest => if name = "args" then argsOfJson? place value else argsOfFields? place rest

/-- The expressions of an array. -/
def argsOfJson? (place : Json.Place) : Json → Option (List Expr)
  | .arr items => ofJsons? place items
  | _ => none

def ofJsons? (place : Json.Place) : List Json → Option (List Expr)
  | [] => some []
  | j :: js => do return (← ofJson? place j) :: (← ofJsons? place js)

end

end Expr

/-- The call written by `function` and `args`, standing by itself. -/
def Call.ofJson? : Json → Option Call
  | .obj fields => do
    return ⟨← BuiltIn.ofJson? .outer (← fields.lookup "function"),
      ← Expr.argsOfFields? .outer fields⟩
  | .arr [function, args] => do
    return ⟨← BuiltIn.ofJson? .outer function, ← Expr.argsOfJson? .outer args⟩
  | _ => none

end RowPlan
