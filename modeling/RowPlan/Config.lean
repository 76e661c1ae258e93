import RowPlan.Json

/-!
Settings of the lowering of expressions.
-/

namespace RowPlan

/-- The settings; for now, how deeply expressions may nest. -/
structure Config where
  maxDepth : UInt64 := 128
  deriving DecidableEq

/-- Why no settings could be obtained. -/
inductive ConfigError where
  /-- There is no such file, or it is not text. -/
  | unreadable
  /-- The text is not TOML, or a setting has a value that it cannot have. -/
  | malformed
  /-- The settings make no sense, for the reason given. -/
  | invalid (reason : String)
  deriving DecidableEq

namespace Config

def key : String := "max_expression_depth"

/-- A limit of zero would reject every call. -/
def validate (c : Config) : Except ConfigError Unit :=
  if c.maxDepth = 0 then .error (.invalid (key ++ " must be at least 1")) else .ok ()

def toJson (c : Config) : Json := .obj [(key, .int c.maxDepth.toNat)]

/-- Settings in JSON, where an absent one takes its default. Nothing is validated. -/
def ofJson? : Json → Option Config
  | .obj fields =>
    match fields.lookup key with
    | none => some {}
    | some j => j.uint64?.map fun n => { maxDepth := n }
  | .arr [] => some {}
  | .arr [j] => j.uint64?.map fun n => { maxDepth := n }
  | _ => none

end Config

def ConfigError.message? : ConfigError → Option String
  | unreadable => none
  | malformed => none
  | invalid reason => some ("Invalid config: " ++ reason)

end RowPlan
