import RowPlan.Toml.Scan

/-!
Strings of TOML: basic ones between quotes, where a backslash starts an escape, and literal ones
between apostrophes; both also between triple marks, where they may span lines.

Between triple marks, one or two of the marks in a row are text. A run of three to five ends the
string, and those before the last three are text.
-/

namespace RowPlan.Toml

/-- A character of a basic string that stands for itself. -/
def isPlain (c : Char) : Bool := isText c && c != '"' && c != '\\'

/-- The character with a code given by digits; surrogates and codes beyond the last are none. -/
def scalar? (digits : List Nat) : Option Char :=
  let n := ofDigits 16 digits
  if n.isValidChar then some (.ofNat n) else none

/-- An escape, from its backslash on. -/
def escape : Scanner Char
  | '\\' :: 'b' :: rest => some ('\x08', rest)
  | '\\' :: 't' :: rest => some ('\t', rest)
  | '\\' :: 'n' :: rest => some ('\n', rest)
  | '\\' :: 'f' :: rest => some ('\x0c', rest)
  | '\\' :: 'r' :: rest => some ('\r', rest)
  | '\\' :: '"' :: rest => some ('"', rest)
  | '\\' :: '\\' :: rest => some ('\\', rest)
  | '\\' :: 'u' :: rest => do
    let (digits, rest) ← fixedDigits 16 4 rest
    return (← scalar? digits, rest)
  | '\\' :: 'U' :: rest => do
    let (digits, rest) ← fixedDigits 16 8 rest
    return (← scalar? digits, rest)
  | _ => none

/-- A character that satisfies a condition. -/
def charIf (p : Char → Bool) : Scanner Char
  | c :: rest => if p c then some (c, rest) else none
  | [] => none

/-- Characters between two marks, on one line. -/
def quoted (mark : Char) (char : Scanner Char) : Scanner String
  | [] => none
  | c :: cs =>
    if c = mark then
      match Scanner.many char cs with
      | (s, c :: rest) => if c = mark then some (String.ofList s, rest) else none
      | (_, []) => none
    else none

def basicString : Scanner String := quoted '"' (.orElse (charIf isPlain) escape)

def literalString : Scanner String := quoted '\'' (charIf fun c => isText c && c != '\'')

/-- A line end, as text. -/
def newlineText : Scanner (List Char) := fun cs => (newline? cs).map fun rest => (['\n'], rest)

/-- A backslash at the end of a line: neither it nor the blanks and line ends after it are text. -/
def joinedLines : Scanner (List Char)
  | '\\' :: rest => do
    let rest ← newline? (skipBlanks rest)
    let space : Scanner Unit
      | c :: rest =>
        if isBlank c then some ((), rest) else (newline? (c :: rest)).map fun rest => ((), rest)
      | [] => none
    return ([], (Scanner.many space rest).2)
  | _ => none

/-- One or two marks that are not part of a longer run. -/
def fewMarks (mark : Char) : Scanner (List Char) := fun cs =>
  let run := cs.takeWhile (· == mark)
  if run.length = 1 ∨ run.length = 2 then some (run, cs.dropWhile (· == mark)) else none

/-- Pieces of text between triple marks. A line end right after the opening marks is left out. -/
def tripleQuoted (mark : Char) (piece : Scanner (List Char)) : Scanner String := fun cs => do
  let cs ← skip? [mark, mark, mark] cs
  let (pieces, rest) := Scanner.many (.orElse piece (fewMarks mark)) ((newline? cs).getD cs)
  let run := rest.takeWhile (· == mark)
  if 3 ≤ run.length ∧ run.length ≤ 5 then
    return (String.ofList (pieces.flatten ++ run.drop 3), rest.dropWhile (· == mark))
  else none

def multilineBasicString : Scanner String :=
  tripleQuoted '"' <|
    .orElse (.map (fun c => [c]) (charIf isPlain)) <|
      .orElse joinedLines <| .orElse (.map (fun c => [c]) escape) newlineText

def multilineLiteralString : Scanner String :=
  tripleQuoted '\'' <|
    .orElse (.map (fun c => [c]) (charIf fun c => isText c && c != '\'')) newlineText

/-- Any string. Triple marks are never an empty string before another one. -/
def string : Scanner String := fun cs =>
  match cs with
  | '"' :: '"' :: '"' :: _ => multilineBasicString cs
  | '\'' :: '\'' :: '\'' :: _ => multilineLiteralString cs
  | '"' :: _ => basicString cs
  | '\'' :: _ => literalString cs
  | _ => none

end RowPlan.Toml
