import RowPlan.Toml.Value

/-!
Documents of TOML: assignments, one on a line, under headers that name the table they belong to.
-/

namespace RowPlan.Toml

/-- What has been read: the whole table so far, and the header's path to the table that further
assignments go to. -/
structure Progress where
  root : Entries
  here : List String

namespace Progress

/-- Add an assignment to the current table. -/
def assign (p : Progress) (k : Key) (v : Value) : Option Progress := do
  return { p with root := ← p.root.update (Entries.insert v k.name k.path) p.here }

/-- Go on to the table of a header. -/
def openTable (p : Progress) (k : Key) : Option Progress := do
  return ⟨← p.root.openTable k, k.path ++ [k.name]⟩

/-- Go on to a new table of an array of tables. -/
def appendTable (p : Progress) (k : Key) : Option Progress := do
  return ⟨← p.root.appendTable k, k.path ++ [k.name]⟩

end Progress

/-- One header or assignment, to the end of its line, or an empty line or one with a comment. -/
def statement (p : Progress) (cs : List Char) : Option (Progress × List Char) :=
  match cs with
  | '#' :: _ => do return (p, ← restOfLine? cs)
  | '\n' :: _ => do return (p, ← newline? cs)
  | '\r' :: _ => do return (p, ← newline? cs)
  | '[' :: '[' :: rest => do
    let (k, rest) ← key rest
    let rest ← restOfLine? (← skip? [']', ']'] rest)
    return (← p.appendTable k, rest)
  | '[' :: rest => do
    let (k, rest) ← key rest
    let rest ← restOfLine? (← skip? [']'] rest)
    return (← p.openTable k, rest)
  | _ => do
    let ((k, v), rest) ← assignment (value (nestingLimit - 1)) cs
    let rest ← restOfLine? rest
    return (← p.assign k v, rest)

/-- All statements up to the end of the text. Each takes at least one character. -/
def statements : (fuel : Nat) → Progress → List Char → Option Entries
  | 0, _, _ => none
  | fuel + 1, p, cs =>
    match skipBlanks cs with
    | [] => some p.root
    | cs => do
      let (p, rest) ← statement p cs
      statements fuel p rest

/-- The table a document describes. A byte order mark in front is skipped. -/
def parse (text : String) : Option Entries :=
  let cs := match text.toList with
    | '\uFEFF' :: cs => cs
    | cs => cs
  statements (cs.length + 1) ⟨[], []⟩ cs

end RowPlan.Toml
