/-!
Logical column types. A type has two spellings: the name that appears in plans and the tag used in
JSON, which differ for `BIGINT`.
-/

namespace RowPlan

/-- A logical SQL type. -/
inductive SqlType where
  | boolean
  | integer
  | bigInt
  | double
  | varchar
  deriving DecidableEq

namespace SqlType

def all : List SqlType := [.boolean, .integer, .bigInt, .double, .varchar]

/-- The name in plans and messages. -/
def name : SqlType → String
  | boolean => "BOOLEAN"
  | integer => "INTEGER"
  | bigInt => "BIGINT"
  | double => "DOUBLE"
  | varchar => "VARCHAR"

/-- The tag in JSON. -/
def tag : SqlType → String
  | boolean => "BOOLEAN"
  | integer => "INTEGER"
  | bigInt => "BIG_INT"
  | double => "DOUBLE"
  | varchar => "VARCHAR"

def ofTag? (s : String) : Option SqlType := all.find? (·.tag == s)

theorem ofTag?_tag (t : SqlType) : ofTag? t.tag = some t := by
  cases t <;> simp [ofTag?, all, tag]

end SqlType

end RowPlan
