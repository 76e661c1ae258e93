import RowPlan.Toml.Moment
import RowPlan.Toml.Number
import RowPlan.Toml.Text

/-!
Keys, values and tables of TOML.

A table records how it came about, since that decides what may be added to it later. A table written
in braces is complete; one opened by its own header accepts entries only below that header; one that
is merely on the way to a header may still get a header; one made by a dotted key accepts more
dotted keys, and no header.
-/

namespace RowPlan.Toml

/-- How a table came about. -/
inductive Origin where
  | braces
  | header
  | implied
  | dotted
  deriving DecidableEq

/-- A value. An array of tables is kept apart from an array of values. -/
inductive Value where
  | string (s : String)
  | integer (n : Int64)
  | float (d : Double)
  | boolean (b : Bool)
  | moment
  | array (items : List Value)
  | table (origin : Origin) (entries : List (String × Value))
  | tables (items : List (List (String × Value)))

/-- The entries of a table, in order of their insertion. -/
abbrev Entries := List (String × Value)

/-- A key: the names of the tables on the way, and a last name. -/
structure Key where
  path : List String
  name : String

/-- Values and keys nest less deeply than this. -/
def nestingLimit : Nat := 80

namespace Entries

/-- The entries with one of them replaced, or added if there is none of that name. -/
def put (name : String) (v : Value) : Entries → Entries
  | [] => [(name, v)]
  | (n, w) :: es => if n = name then (n, v) :: es else (n, w) :: put name v es

/-- The last table of an array of tables, changed. -/
def updateLast (f : Entries → Option Entries) : List Entries → Option (List Entries)
  | [] => none
  | [t] => do return [← f t]
  | t :: t' :: ts => do return t :: (← updateLast f (t' :: ts))

/-- Add a value under a dotted key. The tables on the way are made by this key or by earlier ones
like it; a table on the way to a header will do, but not as the last one. -/
def insert (v : Value) (name : String) : (path : List String) → Entries → Option Entries
  | [], es => if (es.lookup name).isSome then none else some (es ++ [(name, v)])
  | p :: path, es =>
    match es.lookup p with
    | none => do return put p (.table .dotted (← insert v name path [])) es
    | some (.table .dotted inner) => do
      return put p (.table .dotted (← insert v name path inner)) es
    | some (.table .implied inner) =>
      if path = [] then none
      else do return put p (.table .implied (← insert v name path inner)) es
    | some (.tables ts) =>
      if path = [] then none
      else do return put p (.tables (← updateLast (insert v name path) ts)) es
    | some _ => none

/-- Change the table that a header's path leads to. Tables that are missing on the way are implied;
an array of tables leads to its last one. -/
def update (f : Entries → Option Entries) : (path : List String) → Entries → Option Entries
  | [], es => f es
  | p :: path, es =>
    match es.lookup p with
    | none => do return put p (.table .implied (← update f path [])) es
    | some (.table .braces _) => none
    | some (.table origin inner) => do return put p (.table origin (← update f path inner)) es
    | some (.tables ts) => do return put p (.tables (← updateLast (update f path) ts)) es
    | some _ => none

/-- Open a table by its header. A table that was implied until then keeps its entries. -/
def openTable (key : Key) : Entries → Option Entries :=
  update (fun es =>
    match es.lookup key.name with
    | none => some (put key.name (.table .header []) es)
    | some (.table .implied inner) => some (put key.name (.table .header inner) es)
    | some _ => none) key.path

/-- Append a table to an array of tables. -/
def appendTable (key : Key) : Entries → Option Entries :=
  update (fun es =>
    match es.lookup key.name with
    | none => some (put key.name (.tables [[]]) es)
    | some (.tables ts) => some (put key.name (.tables (ts ++ [[]])) es)
    | some _ => none) key.path

end Entries

/-! ## Keys -/

def isBare (c : Char) : Bool :=
  ('a' ≤ c && c ≤ 'z') || ('A' ≤ c && c ≤ 'Z') || ('0' ≤ c && c ≤ '9') || c == '-' || c == '_'

/-- One name of a key: bare, or a string on one line. -/
def simpleKey : Scanner String := fun cs =>
  match cs with
  | '"' :: _ => basicString cs
  | '\'' :: _ => literalString cs
  | _ =>
    let name := cs.takeWhile isBare
    if name = [] then none else some (String.ofList name, cs.dropWhile isBare)

/-- A name with blanks around it. -/
def keyPart : Scanner String := fun cs =>
  (simpleKey (skipBlanks cs)).map fun (name, rest) => (name, skipBlanks rest)

/-- Names separated by points. -/
def key : Scanner Key := fun cs => do
  let (first, rest) ← keyPart cs
  let dotPart : Scanner String
    | '.' :: rest => keyPart rest
    | _ => none
  let (others, rest) := Scanner.many dotPart rest
  let names := first :: others
  if names.length < nestingLimit then
    return (⟨names.dropLast, names.getLast (List.cons_ne_nil _ _)⟩, rest)
  else none

/-! ## Values -/

/-- A value without parts. -/
def scalar : Scanner Value := fun cs =>
  match cs with
  | [] => none
  | c :: _ =>
    if c = '"' ∨ c = '\'' then Scanner.map .string string cs
    else if c = '+' ∨ c = '-' ∨ c.isDigit then
      Scanner.orElse (.map (fun _ => .moment) moment)
        (.orElse (.map .float float) (.map .integer integer)) cs
    else
      Scanner.orElse (.map .boolean (.orElse (word "true" true) (word "false" false)))
        (.map .float (specialFloat false)) cs

/-- The items of an array up to its closing bracket; the last one may be followed by a comma. -/
def arrayItems (item : Scanner Value) : (fuel : Nat) → Scanner (List Value)
  | 0, _ => none
  | fuel + 1, cs =>
    match skipFiller cs with
    | ']' :: rest => some ([], rest)
    | cs => do
      let (v, cs) ← item cs
      match skipFiller cs with
      | ',' :: rest =>
        let (vs, rest) ← arrayItems item fuel rest
        return (v :: vs, rest)
      | ']' :: rest => return ([v], rest)
      | _ => none

/-- A key, an equals sign and a value, with blanks around the value. -/
def assignment (item : Scanner Value) : Scanner (Key × Value) := fun cs => do
  let (k, cs) ← key cs
  let (v, cs) ← item (skipBlanks (← skip? ['='] cs))
  return ((k, v), skipBlanks cs)

/-- The assignments in braces after the first, each after a comma. -/
def moreAssignments (item : Scanner Value) : Scanner (Key × Value)
  | ',' :: rest => assignment item rest
  | _ => none

/-- The entries of a table in braces, from behind the opening one. There is no comma after the
last. -/
def bracedEntries (item : Scanner Value) : Scanner Entries := fun cs => do
  let (assignments, cs) :=
    match assignment item cs with
    | some (first, cs) =>
      let (others, cs) := Scanner.many (moreAssignments item) cs
      (first :: others, cs)
    | none => ([], cs)
  let rest ← skip? ['\x7d'] (skipBlanks cs)
  let entries ← assignments.foldlM (fun es (k, v) => Entries.insert v k.name k.path es) []
  return (entries, rest)

/-- A value in which arrays and tables nest at most `levels` deep. -/
def value : (levels : Nat) → Scanner Value
  | 0, cs =>
    match cs with
    | '[' :: _ => none
    | '\x7b' :: _ => none
    | _ => scalar cs
  | levels + 1, cs =>
    match cs with
    | '[' :: rest => Scanner.map .array (arrayItems (value levels) rest.length) rest
    | '\x7b' :: rest => Scanner.map (.table .braces) (bracedEntries (value levels)) rest
    | _ => scalar cs

end RowPlan.Toml
