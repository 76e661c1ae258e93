/-!
Scanning of text from left to right. A scanner takes what it recognizes from the front of the
characters and leaves the rest. This module has the characters, blanks, line ends and comments of
TOML; strings, numbers, moments and values build on it.
-/

namespace RowPlan.Toml

/-- What recognizes an `α` at the front of the characters, with the characters left over. -/
abbrev Scanner (α : Type) := List Char → Option (α × List Char)

namespace Scanner

variable {α β : Type}

def manyWithin (item : Scanner α) : Nat → List Char → List α × List Char
  | 0, cs => ([], cs)
  | fuel + 1, cs =>
    match item cs with
    | none => ([], cs)
    | some (a, rest) =>
      let (as, rest) := manyWithin item fuel rest
      (a :: as, rest)

/-- As many items as there are, one after the other. An item is at least a character long, so there
are no more of them than characters. -/
def many (item : Scanner α) (cs : List Char) : List α × List Char := manyWithin item cs.length cs

/-- The first of two scanners that recognizes something. -/
def orElse (first second : Scanner α) : Scanner α := fun cs =>
  match first cs with
  | some r => some r
  | none => second cs

def map (f : α → β) (scanner : Scanner α) : Scanner β := fun cs =>
  (scanner cs).map fun (a, rest) => (f a, rest)

end Scanner

/-- The rest after the given characters, if they come first. -/
def skip? : List Char → List Char → Option (List Char)
  | [], cs => some cs
  | _ :: _, [] => none
  | e :: es, c :: cs => if e = c then skip? es cs else none

/-- The characters of a word, with the value it stands for. -/
def word {α : Type} (text : String) (value : α) : Scanner α := fun cs =>
  (skip? text.toList cs).map fun rest => (value, rest)

def isBlank (c : Char) : Bool := c == ' ' || c == '\t'

/-- Characters allowed in comments, and in literal strings besides the apostrophe: tabs and all that
are not control characters of ASCII. -/
def isText (c : Char) : Bool := c == '\t' || (' ' ≤ c && c ≤ '~') || '\x80' ≤ c

def skipBlanks (cs : List Char) : List Char := cs.dropWhile isBlank

/-- The rest after a line feed, alone or after a carriage return. -/
def newline? : List Char → Option (List Char)
  | '\n' :: rest => some rest
  | '\r' :: '\n' :: rest => some rest
  | _ => none

/-- The rest after the end of a line or at the end of the text. -/
def lineEnd? : List Char → Option (List Char)
  | [] => some []
  | cs => newline? cs

/-- The rest of a line on which nothing may follow but a comment. -/
def restOfLine? (cs : List Char) : Option (List Char) :=
  match skipBlanks cs with
  | '#' :: rest => lineEnd? (rest.dropWhile isText)
  | rest => lineEnd? rest

/-- A blank, a line end, or a comment with its line end. -/
def filler : Scanner Unit
  | '#' :: rest => (newline? (rest.dropWhile isText)).map fun rest => ((), rest)
  | c :: rest => if isBlank c then some ((), rest) else (newline? (c :: rest)).map fun rest => ((), rest)
  | [] => none

/-- The rest after blanks, line ends and comments. -/
def skipFiller (cs : List Char) : List Char := (Scanner.many filler cs).2

/-- Decimal, hexadecimal, octal or binary digits: the value of one. -/
def digit? (base : Nat) (c : Char) : Option Nat :=
  let n :=
    if '0' ≤ c ∧ c ≤ '9' then some (c.toNat - '0'.toNat)
    else if 'a' ≤ c ∧ c ≤ 'f' then some (c.toNat - 'a'.toNat + 10)
    else if 'A' ≤ c ∧ c ≤ 'F' then some (c.toNat - 'A'.toNat + 10)
    else none
  n.filter (· < base)

/-- The number written by digits, the first one being the most significant. -/
def ofDigits (base : Nat) (digits : List Nat) : Nat := digits.foldl (fun n d => base * n + d) 0

/-- Exactly `count` digits. -/
def fixedDigits (base : Nat) : (count : Nat) → Scanner (List Nat)
  | 0, cs => some ([], cs)
  | _ + 1, [] => none
  | count + 1, c :: cs => do
    let d ← digit? base c
    let (ds, rest) ← fixedDigits base count cs
    return (d :: ds, rest)

end RowPlan.Toml
