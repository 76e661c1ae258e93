import RowPlan.Config
import RowPlan.Toml.Document

/-!
Settings in TOML. Keys that are no settings are ignored, but the document has to be right as a
whole.
-/

namespace RowPlan.Config

/-- The settings in a table, where an absent one takes its default. -/
def ofEntries? (entries : Toml.Entries) : Option Config :=
  match entries.lookup key with
  | none => some {}
  | some (.integer n) => if 0 ≤ n.toInt then some ⟨.ofNat n.toInt.toNat⟩ else none
  | some _ => none

/-- The settings in a document, validated. -/
def ofToml (text : String) : Except ConfigError Config :=
  match (Toml.parse text).bind ofEntries? with
  | none => .error .malformed
  | some c => do
    c.validate
    return c

/-- The settings in a file, given by its bytes if it exists. -/
def ofFile : Option ByteArray → Except ConfigError Config
  | none => .error .unreadable
  | some bytes =>
    match String.fromUTF8? bytes with
    | none => .error .unreadable
    | some text => ofToml text

end RowPlan.Config
