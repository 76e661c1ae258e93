/-!
Symbols: the enumerated configuration values that calls of the SQL/JSON functions receive as literal
arguments.
-/

namespace RowPlan

namespace Symbol

/-- Whether `JSON_QUERY` wraps its result in an array. -/
inductive Wrapper where
  | withoutArray
  | conditionalArray
  | unconditionalArray
  deriving DecidableEq

/-- What `JSON_QUERY` yields for an empty result or on an error. -/
inductive QueryFallback where
  | null
  | emptyArray
  | emptyObject
  | error
  deriving DecidableEq

/-- What `JSON_VALUE` yields for an empty result or on an error. -/
inductive ValueFallback where
  | null
  | error
  | default
  deriving DecidableEq

/-- What `JSON_EXISTS` yields on an error. -/
inductive ExistsFallback where
  | true
  | false
  | unknown
  | error
  deriving DecidableEq

namespace Wrapper

def all : List Wrapper := [.withoutArray, .conditionalArray, .unconditionalArray]

def name : Wrapper → String
  | withoutArray => "WithoutArray"
  | conditionalArray => "ConditionalArray"
  | unconditionalArray => "UnconditionalArray"

def tag : Wrapper → String
  | withoutArray => "WITHOUT_ARRAY"
  | conditionalArray => "CONDITIONAL_ARRAY"
  | unconditionalArray => "UNCONDITIONAL_ARRAY"

def ofTag? (s : String) : Option Wrapper := all.find? (·.tag == s)

theorem ofTag?_tag (w : Wrapper) : ofTag? w.tag = some w := by
  cases w <;> simp [ofTag?, all, tag]

end Wrapper

namespace QueryFallback

def all : List QueryFallback := [.null, .emptyArray, .emptyObject, .error]

def name : QueryFallback → String
  | null => "Null"
  | emptyArray => "EmptyArray"
  | emptyObject => "EmptyObject"
  | error => "Error"

def tag : QueryFallback → String
  | null => "NULL"
  | emptyArray => "EMPTY_ARRAY"
  | emptyObject => "EMPTY_OBJECT"
  | error => "ERROR"

def ofTag? (s : String) : Option QueryFallback := all.find? (·.tag == s)

theorem ofTag?_tag (b : QueryFallback) : ofTag? b.tag = some b := by
  cases b <;> simp [ofTag?, all, tag]

end QueryFallback

namespace ValueFallback

def all : List ValueFallback := [.null, .error, .default]

def name : ValueFallback → String
  | null => "Null"
  | error => "Error"
  | default => "Default"

def tag : ValueFallback → String
  | null => "NULL"
  | error => "ERROR"
  | default => "DEFAULT"

def ofTag? (s : String) : Option ValueFallback := all.find? (·.tag == s)

theorem ofTag?_tag (b : ValueFallback) : ofTag? b.tag = some b := by
  cases b <;> simp [ofTag?, all, tag]

end ValueFallback

namespace ExistsFallback

def all : List ExistsFallback := [.true, .false, .unknown, .error]

def name : ExistsFallback → String
  | true => "True"
  | false => "False"
  | unknown => "Unknown"
  | error => "Error"

def tag : ExistsFallback → String
  | true => "TRUE"
  | false => "FALSE"
  | unknown => "UNKNOWN"
  | error => "ERROR"

def ofTag? (s : String) : Option ExistsFallback := all.find? (·.tag == s)

theorem ofTag?_tag (b : ExistsFallback) : ofTag? b.tag = some b := by
  cases b <;> simp [ofTag?, all, tag]

end ExistsFallback

end Symbol

/-- A symbol, by the enumeration it belongs to. -/
inductive Symbol where
  | wrapper (w : Symbol.Wrapper)
  | queryFallback (b : Symbol.QueryFallback)
  | valueFallback (b : Symbol.ValueFallback)
  | existsFallback (b : Symbol.ExistsFallback)
  deriving DecidableEq

namespace Symbol

/-- The name in expressions. It leaves out the enumeration. -/
def name : Symbol → String
  | wrapper w => w.name
  | queryFallback b => b.name
  | valueFallback b => b.name
  | existsFallback b => b.name

def wrapper? : Symbol → Option Wrapper
  | wrapper w => some w
  | _ => none

def queryFallback? : Symbol → Option QueryFallback
  | queryFallback b => some b
  | _ => none

def valueFallback? : Symbol → Option ValueFallback
  | valueFallback b => some b
  | _ => none

def existsFallback? : Symbol → Option ExistsFallback
  | existsFallback b => some b
  | _ => none

end Symbol

end RowPlan
