import RowPlan.Symbol

/-!
Flags: the enumerated operands that the SQL/JSON operators of row expressions understand. Every
symbol has a flag, given by `Flag.ofSymbol`; the two markers of `JSON_VALUE` clauses come from no
symbol.
-/

namespace RowPlan

namespace Flag

/-- How `JSON_QUERY` wraps its result. -/
inductive Wrapper where
  | withoutArray
  | withConditionalArray
  | withUnconditionalArray
  deriving DecidableEq

/-- An `ON EMPTY` or `ON ERROR` behavior of `JSON_QUERY`. -/
inductive QueryFallback where
  | null
  | emptyArray
  | emptyObject
  | error
  deriving DecidableEq

/-- An `ON EMPTY` or `ON ERROR` behavior of `JSON_VALUE`. The operand after `default` is the default
value. -/
inductive ValueFallback where
  | null
  | error
  | default
  deriving DecidableEq

/-- The `ON ERROR` behavior of `JSON_EXISTS`. -/
inductive ExistsFallback where
  | true
  | false
  | unknown
  | error
  deriving DecidableEq

/-- The marker that closes a clause of `JSON_VALUE` and tells which one it is. -/
inductive Clause where
  | empty
  | error
  deriving DecidableEq

namespace Wrapper

def all : List Wrapper := [.withoutArray, .withConditionalArray, .withUnconditionalArray]

def name : Wrapper → String
  | withoutArray => "WITHOUT_ARRAY"
  | withConditionalArray => "WITH_CONDITIONAL_ARRAY"
  | withUnconditionalArray => "WITH_UNCONDITIONAL_ARRAY"

def ofName? (s : String) : Option Wrapper := all.find? (·.name == s)

theorem ofName?_name (w : Wrapper) : ofName? w.name = some w := by
  cases w <;> simp [ofName?, all, name]

def ofSymbol : Symbol.Wrapper → Wrapper
  | .withoutArray => withoutArray
  | .conditionalArray => withConditionalArray
  | .unconditionalArray => withUnconditionalArray

end Wrapper

namespace QueryFallback

def all : List QueryFallback := [.null, .emptyArray, .emptyObject, .error]

def name : QueryFallback → String
  | null => "NULL"
  | emptyArray => "EMPTY_ARRAY"
  | emptyObject => "EMPTY_OBJECT"
  | error => "ERROR"

def ofName? (s : String) : Option QueryFallback := all.find? (·.name == s)

theorem ofName?_name (b : QueryFallback) : ofName? b.name = some b := by
  cases b <;> simp [ofName?, all, name]

def ofSymbol : Symbol.QueryFallback → QueryFallback
  | .null => null
  | .emptyArray => emptyArray
  | .emptyObject => emptyObject
  | .error => error

end QueryFallback

namespace ValueFallback

def all : List ValueFallback := [.null, .error, .default]

def name : ValueFallback → String
  | null => "NULL"
  | error => "ERROR"
  | default => "DEFAULT"

def ofName? (s : String) : Option ValueFallback := all.find? (·.name == s)

theorem ofName?_name (b : ValueFallback) : ofName? b.name = some b := by
  cases b <;> simp [ofName?, all, name]

def ofSymbol : Symbol.ValueFallback → ValueFallback
  | .null => null
  | .error => error
  | .default => default

end ValueFallback

namespace ExistsFallback

def all : List ExistsFallback := [.true, .false, .unknown, .error]

def name : ExistsFallback → String
  | true => "TRUE"
  | false => "FALSE"
  | unknown => "UNKNOWN"
  | error => "ERROR"

def ofName? (s : String) : Option ExistsFallback := all.find? (·.name == s)

theorem ofName?_name (b : ExistsFallback) : ofName? b.name = some b := by
  cases b <;> simp [ofName?, all, name]

def ofSymbol : Symbol.ExistsFallback → ExistsFallback
  | .true => true
  | .false => false
  | .unknown => unknown
  | .error => error

end ExistsFallback

namespace Clause

def all : List Clause := [.empty, .error]

def name : Clause → String
  | empty => "EMPTY"
  | error => "ERROR"

def ofName? (s : String) : Option Clause := all.find? (·.name == s)

theorem ofName?_name (c : Clause) : ofName? c.name = some c := by
  cases c <;> simp [ofName?, all, name]

end Clause

end Flag

/-- A flag, by the enumeration it belongs to. -/
inductive Flag where
  | wrapper (w : Flag.Wrapper)
  | queryFallback (b : Flag.QueryFallback)
  | valueFallback (b : Flag.ValueFallback)
  | existsFallback (b : Flag.ExistsFallback)
  | clause (c : Flag.Clause)
  deriving DecidableEq

namespace Flag

/-- The name in plans. Flags of different enumerations share names. -/
def name : Flag → String
  | wrapper w => w.name
  | queryFallback b => b.name
  | valueFallback b => b.name
  | existsFallback b => b.name
  | clause c => c.name

/-- The flag a symbol stands for. -/
def ofSymbol : Symbol → Flag
  | .wrapper w => wrapper (.ofSymbol w)
  | .queryFallback b => queryFallback (.ofSymbol b)
  | .valueFallback b => valueFallback (.ofSymbol b)
  | .existsFallback b => existsFallback (.ofSymbol b)

end Flag

end RowPlan
