import RowPlan.Json.Literal
import RowPlan.Node

/-!
The JSON form of row expressions: an object whose `node` tells the kind of node. The fields of a
constant stand in that same object. The type of a call is written only if there is one, and may be
read as absent or `null`. Arrays of the fields, in order, are read as well. What stands in the fields
of a row expression is inside a tree.
-/

namespace RowPlan.Node

/-- The field that writes the type of a call. -/
def typeField : Option SqlType → Json.Fields
  | none => []
  | some t => [("return_type", t.toJson)]

mutual

def toJson : Node → Json
  | inputRef index => .obj [("node", .str "input_ref"), ("index", .int index.toNat)]
  | literal value => .obj (("node", .str "literal") :: value.toFields .flag)
  | call op operands type =>
    .obj (("node", .str "call") :: ("op", op.toJson) :: ("operands", .arr (toJsons operands)) ::
      typeField type)

def toJsons : List Node → List Json
  | [] => []
  | n :: ns => toJson n :: toJsons ns

end

/-- The type of a call: none if it is absent or `null`. -/
def typeOfJson? (place : Json.Place) : Option Json → Option (Option SqlType)
  | none => some none
  | some .null => some none
  | some j => (SqlType.ofJson? place j).map some

/-- The values of `node`. -/
def tags : List String := ["input_ref", "literal", "call"]

mutual

def ofJson? (place : Json.Place) : Json → Option Node
  | .obj fields => do
    let tag ← (← fields.lookup "node").tag? place tags
    if tag = "input_ref" then return inputRef (← (← fields.lookup "index").uint64?)
    else if tag = "literal" then return literal (← Literal.ofJson? .flag .inner (.obj fields))
    else if tag = "call" then
      return call (← Operator.ofJson? .inner (← fields.lookup "op"))
        (← operandsOfFields? .inner fields) (← typeOfJson? .inner (fields.lookup "return_type"))
    else none
  | .arr [tag, index] => do
    let tag ← tag.tag? place tags
    if tag = "input_ref" then return inputRef (← index.uint64?) else none
  | .arr [tag, first, second] => do
    let tag ← tag.tag? place tags
    if tag = "literal" then return literal (← Literal.ofJson? .flag .inner (.arr [first, second]))
    else if tag = "call" then
      return call (← Operator.ofJson? .inner first) (← operandsOfJson? .inner second) none
    else none
  | .arr [tag, op, operands, type] => do
    let tag ← tag.tag? place tags
    if tag = "call" then
      return call (← Operator.ofJson? .inner op) (← operandsOfJson? .inner operands)
        (← typeOfJson? .inner (some type))
    else none
  | _ => none

/-- The row expressions under the name `operands`. -/
def operandsOfFields? (place : Json.Place) : List (String × Json) → Option (List Node)
  | [] => none
  | (name, value) :: rest =>
    if name = "operands" then operandsOfJson? place value else operandsOfFields? place rest

/-- The row expressions of an array. -/
def operandsOfJson? (place : Json.Place) : Json → Option (List Node)
  | .arr items => ofJsons? place items
  | _ => none

def ofJsons? (place : Json.Place) : List Json → Option (List Node)
  | [] => some []
  | j :: js => do return (← ofJson? place j) :: (← ofJsons? place js)

end

/-- A call written without the field `node`, standing by itself. -/
def callOfJson? : Json → Option Node
  | .obj fields => do
    return call (← Operator.ofJson? .outer (← fields.lookup "op"))
      (← operandsOfFields? .outer fields) (← typeOfJson? .outer (fields.lookup "return_type"))
  | .arr [op, operands] => do
    return call (← Operator.ofJson? .outer op) (← operandsOfJson? .outer operands) none
  | .arr [op, operands, type] => do
    return call (← Operator.ofJson? .outer op) (← operandsOfJson? .outer operands)
      (← typeOfJson? .outer (some type))
  | _ => none

end RowPlan.Node
