import RowPlan.Node.Tree
import RowPlan.Proofs.Outline

/-! The texts of leaves, with something after them. The word in front, which no comma, quote,
parenthesis or newline belongs to, tells the kind of the row expression and where a string or the
name of a flag starts; both show where they end. -/
namespace RowPlan

/-- The characters that words are made of. -/
def isWordChar (c : Char) : Bool := decide (c ∉ [',', '(', ')', '\'', '\n'])

/-- What can follow the text of a row expression: nothing, or something after a comma, a closing
parenthesis or a newline. -/
def Ended (r : List Char) : Prop := Stops (fun c => decide (c ∉ [',', ')', '\n'])) r

theorem ended_nil : Ended [] := stops_nil _

theorem ended_cons {c : Char} (h : c ∈ [',', ')', '\n']) (r : List Char) : Ended (c :: r) :=
  stops_cons (decide_eq_false (not_not_intro h)) r

theorem Ended.stops_word {r : List Char} (h : Ended r) : Stops isWordChar r := by
  refine Stops.mono (fun c hc => ?_) h
  simp only [isWordChar, decide_eq_false_iff_not, not_not, List.mem_cons] at hc ⊢
  tauto

theorem Ended.ne_quote_cons {r : List Char} (h : Ended r) (s : List Char) : r ≠ '\'' :: s := by
  rintro rfl
  exact absurd (h '\'' rfl) (by decide)

theorem isAlphanum_of_isDigit {c : Char} (h : c.isDigit = true) : c.isAlphanum = true := by
  rw [Char.isAlphanum, h, Bool.or_true]

theorem Operator.name_injective {op op' : Operator} (h : op.name = op'.name) : op = op' := by
  have hfind : ∀ op : Operator, all.find? (fun o => o.name == op.name) = some op := by
    intro op
    cases op <;> decide
  exact Option.some.inj ((hfind op).symm.trans (h ▸ hfind op'))

theorem SqlType.name_injective {t t' : SqlType} (h : t.name = t'.name) : t = t' := by
  have hfind : ∀ t : SqlType, all.find? (fun o => o.name == t.name) = some t := by
    intro t
    cases t <;> decide
  exact Option.some.inj ((hfind t).symm.trans (h ▸ hfind t'))

theorem Flag.isWordChar_of_mem_name (f : Flag) : ∀ c ∈ f.name.toList, isWordChar c = true := by
  apply List.all_eq_true.mp
  cases f with
  | wrapper w => cases w <;> decide
  | queryFallback b => cases b <;> decide
  | valueFallback b => cases b <;> decide
  | existsFallback b => cases b <;> decide
  | clause c => cases c <;> decide

/-- The kinds of row expressions, as far as the words in front of their texts tell them apart. -/
inductive Kind where
  | column
  | null
  | boolean
  | integer
  | double
  | string
  | flag
  | call
  deriving DecidableEq

/-- The kind that a word tells. Only the text of a string starts with no word. -/
def Kind.ofWord (w : List Char) : Kind :=
  -- The keywords come first, as some of them have letters that mark a double.
  if w = [] then string
  else if w = ['F', 'L', 'A', 'G'] then flag
  else if w = ['n', 'u', 'l', 'l'] then null
  else if w = ['t', 'r', 'u', 'e'] ∨ w = ['f', 'a', 'l', 's', 'e'] then boolean
  else if '$' ∈ w then column
  else if w.any (fun c => decide (c ∈ ['.', 'e', 'a', 'i'])) then double
  else if w.any Char.isDigit then integer
  else call

/-- A word without these letters is no keyword. -/
theorem Kind.ofWord_number {w : List Char} (hne : w ≠ []) (h : ∀ c ∈ ['L', 'u', 'l', '$'], c ∉ w) :
    Kind.ofWord w =
      if w.any (fun c => decide (c ∈ ['.', 'e', 'a', 'i'])) then double
      else if w.any Char.isDigit then integer
      else call := by
  have hword : ∀ (u : List Char) (c : Char), c ∈ ['L', 'u', 'l', '$'] → c ∈ u → w ≠ u :=
    fun u c hc hu => (ne_of_mem_of_not_mem' hu (h c hc)).symm
  have hboolean : ¬ (w = ['t', 'r', 'u', 'e'] ∨ w = ['f', 'a', 'l', 's', 'e']) := by
    rintro (hw | hw)
    · exact hword _ 'u' (by decide) (by decide) hw
    · exact hword _ 'l' (by decide) (by decide) hw
  rw [Kind.ofWord, if_neg hne, if_neg (hword _ 'L' (by decide) (by decide)),
    if_neg (hword _ 'u' (by decide) (by decide)), if_neg hboolean, if_neg (h '$' (by decide))]

namespace Literal

def kind : Literal Flag → Kind
  | null => .null
  | boolean _ => .boolean
  | integer _ => .integer
  | double _ => .double
  | string _ => .string
  | symbol _ => .flag

/-- The word in front of the text of a constant. -/
def word : Literal Flag → List Char
  | string _ => []
  | symbol _ => ['F', 'L', 'A', 'G']
  | v => v.digest

/-- A string, each quote in it doubled. -/
def escape (s : List Char) : List Char :=
  s.flatMap (fun c => if c = '\'' then ['\'', '\''] else [c])

/-- The text of a constant after the word. -/
def tail : Literal Flag → List Char
  | string s => '\'' :: escape s.toList ++ ['\'']
  | symbol f => '(' :: f.name.toList ++ [')']
  | _ => []

theorem digest_eq (v : Literal Flag) : v.digest = v.word ++ v.tail := by
  cases v with
  | null => exact (List.append_nil _).symm
  | boolean b => exact (List.append_nil _).symm
  | integer n => exact (List.append_nil _).symm
  | double d => exact (List.append_nil _).symm
  | string s => rfl
  | symbol f => rfl

theorem tail_string_append (s : String) (r : List Char) :
    (string s).tail ++ r = '\'' :: (escape s.toList ++ '\'' :: r) := by
  simp only [tail, List.cons_append, List.append_assoc, List.nil_append]

theorem tail_symbol_append (f : Flag) (r : List Char) :
    (symbol f).tail ++ r = '(' :: (f.name.toList ++ ')' :: r) := by
  simp only [tail, List.cons_append, List.append_assoc, List.nil_append]

theorem mem_word {v : Literal Flag} {c : Char} (h : c ∈ v.word) :
    c.isAlphanum = true ∨ c ∈ ['.', '-'] := by
  cases v with
  | null =>
    have hall : ∀ c ∈ "null".toList, c.isAlphanum = true := List.all_eq_true.mp (by decide)
    exact Or.inl (hall c h)
  | boolean b =>
    have hall : ∀ c ∈ (toString b).toList, c.isAlphanum = true := by
      apply List.all_eq_true.mp
      cases b <;> decide
    exact Or.inl (hall c h)
  | integer n =>
    rcases mem_toString_int h with hdigit | rfl
    · exact Or.inl (isAlphanum_of_isDigit hdigit)
    · exact Or.inr (by decide)
  | double d =>
    rcases Double.mem_text h with hdigit | hmark
    · exact Or.inl (isAlphanum_of_isDigit hdigit)
    · have hall : ∀ c ∈ ['.', 'e', '-', 'N', 'a', 'i', 'n', 'f'],
          c.isAlphanum = true ∨ c ∈ ['.', '-'] := forall_mem_of_all (by decide)
      exact hall c hmark
  | string s => exact absurd h List.not_mem_nil
  | symbol f =>
    have hall : ∀ c ∈ ['F', 'L', 'A', 'G'], c.isAlphanum = true :=
      List.all_eq_true.mp (by decide)
    exact Or.inl (hall c h)

theorem ofWord_integer (a : ℤ) : Kind.ofWord (toString a).toList = .integer := by
  obtain ⟨c, hc, hdigit⟩ := exists_digit_toString_int a
  have hnot : ∀ c : Char, ¬ (c.isDigit = true ∨ c = '-') → c ∉ (toString a).toList :=
    fun c h hc => h (mem_toString_int hc)
  have hletter : ∀ c ∈ ['L', 'u', 'l', '$'], ¬ (c.isDigit = true ∨ c = '-') :=
    forall_mem_of_all (by decide)
  have hmark : ¬ (toString a).toList.any (fun c => decide (c ∈ ['.', 'e', 'a', 'i'])) = true := by
    intro hany
    obtain ⟨c, hc, hm⟩ := List.any_eq_true.mp hany
    have hall : ∀ c ∈ ['.', 'e', 'a', 'i'], ¬ (c.isDigit = true ∨ c = '-') :=
      forall_mem_of_all (by decide)
    exact hnot c (hall c (of_decide_eq_true hm)) hc
  rw [Kind.ofWord_number (List.ne_nil_of_mem hc) (fun c hc => hnot c (hletter c hc)),
    if_neg hmark, if_pos (List.any_eq_true.mpr ⟨c, hc, hdigit⟩)]

theorem ofWord_double (d : Double) : Kind.ofWord (d.text .row) = .double := by
  obtain ⟨c, hc, hmark⟩ := d.exists_mark
  have hletter : ∀ c ∈ ['L', 'u', 'l', '$'],
      ¬ (c.isDigit = true ∨ c ∈ ['.', 'e', '-', 'N', 'a', 'i', 'n', 'f']) :=
    forall_mem_of_all (by decide)
  rw [Kind.ofWord_number (List.ne_nil_of_mem hc) (fun c hc h => hletter c hc (Double.mem_text h)),
    if_pos (List.any_eq_true.mpr ⟨c, hc, decide_eq_true hmark⟩)]

theorem ofWord_word (v : Literal Flag) : Kind.ofWord v.word = v.kind := by
  cases v with
  | null => rfl
  | boolean b => cases b <;> rfl
  | integer n => exact ofWord_integer _
  | double d => exact ofWord_double d
  | string s => rfl
  | symbol f => rfl

theorem escape_quote_cons (s : List Char) :
    escape ('\'' :: s) = '\'' :: '\'' :: escape s := rfl

theorem escape_cons {c : Char} (h : c ≠ '\'') (s : List Char) :
    escape (c :: s) = c :: escape s := by
  rw [escape, List.flatMap_cons, if_neg h]
  rfl

/-- A string with another quote after the closing one would be read on. -/
theorem quote_ne_escape_cons {r : List Char} (hr : ∀ u, r ≠ '\'' :: u) (c : Char)
    (s r' : List Char) : '\'' :: r ≠ escape (c :: s) ++ r' := by
  intro h
  by_cases hc : c = '\''
  · rw [hc, escape_quote_cons] at h
    exact hr _ (List.cons.inj h).2
  · rw [escape_cons hc] at h
    exact hc (List.cons.inj h).1.symm

/-- The quote that ends a string is the first that no other quote follows. -/
theorem escape_append_inj {s t r r' : List Char} (hr : ∀ u, r ≠ '\'' :: u)
    (hr' : ∀ u, r' ≠ '\'' :: u) (h : escape s ++ '\'' :: r = escape t ++ '\'' :: r') :
    s = t ∧ r = r' := by
  induction s generalizing t with
  | nil =>
    cases t with
    | nil => exact ⟨rfl, (List.cons.inj h).2⟩
    | cons d t => exact absurd h (quote_ne_escape_cons hr d t _)
  | cons c s ih =>
    cases t with
    | nil => exact absurd h.symm (quote_ne_escape_cons hr' c s _)
    | cons d t =>
      have hcd : c = d ∧ escape s ++ '\'' :: r = escape t ++ '\'' :: r' := by
        by_cases hc : c = '\'' <;> by_cases hd : d = '\''
        · rw [hc, hd, escape_quote_cons, escape_quote_cons] at h
          exact ⟨hc.trans hd.symm, (List.cons.inj (List.cons.inj h).2).2⟩
        · rw [hc, escape_quote_cons, escape_cons hd] at h
          exact absurd (List.cons.inj h).1.symm hd
        · rw [hd, escape_quote_cons, escape_cons hc] at h
          exact absurd (List.cons.inj h).1 hc
        · rw [escape_cons hc, escape_cons hd] at h
          exact List.cons.inj h
      obtain ⟨rfl, hst⟩ := hcd
      obtain ⟨rfl, hrest⟩ := ih hst
      exact ⟨rfl, hrest⟩

theorem stops_tail_append (v : Literal Flag) {r : List Char} (hr : Ended r) :
    Stops isWordChar (v.tail ++ r) := by
  cases v with
  | string s => exact stops_cons rfl _
  | symbol f => exact stops_cons rfl _
  | _ => exact hr.stops_word

/-- The word and the tail of a constant tell all of it but what `plain` drops. -/
theorem plain_eq_of_word_eq {v w : Literal Flag} {r₁ r₂ : List Char} (hr₁ : Ended r₁)
    (hr₂ : Ended r₂) (hword : v.word = w.word) (htail : v.tail ++ r₁ = w.tail ++ r₂) :
    v.plain = w.plain ∧ r₁ = r₂ := by
  -- Equal words are of one kind, which leaves the pairs of constants of one kind.
  have hkind : v.kind = w.kind := by rw [← ofWord_word, ← ofWord_word, hword]
  cases v <;> cases w <;> simp only [kind, reduceCtorEq] at hkind
  case null.null => exact ⟨rfl, htail⟩
  case boolean.boolean b b' =>
    have hb : b = b' := by cases b <;> cases b' <;> first | rfl | cases hword
    exact ⟨by rw [hb], htail⟩
  case integer.integer n m =>
    have hn : n = m := Int64.toInt_inj.mp (toList_toString_int_injective hword)
    exact ⟨by rw [hn], htail⟩
  case double.double d e =>
    have hd : d.unifyNaN = e.unifyNaN := Double.text_eq_text_iff.mp hword
    exact ⟨by rw [plain, plain, hd], htail⟩
  case string.string s t =>
    rw [tail_string_append, tail_string_append] at htail
    have hquoted := (List.cons.inj htail).2
    obtain ⟨hst, hrest⟩ := escape_append_inj hr₁.ne_quote_cons hr₂.ne_quote_cons hquoted
    exact ⟨by rw [String.toList_inj.mp hst], hrest⟩
  case symbol.symbol f g =>
    rw [tail_symbol_append, tail_symbol_append] at htail
    have hnames := (List.cons.inj htail).2
    obtain ⟨hname, hrest⟩ := Stops.append_inj f.isWordChar_of_mem_name g.isWordChar_of_mem_name
      (stops_cons rfl _) (stops_cons rfl _) hnames
    exact ⟨by rw [plain, plain, String.toList_inj.mp hname], (List.cons.inj hrest).2⟩

end Literal

namespace Node

/-- The word in front of the text of a leaf. -/
def leafWord : Node → List Char
  | inputRef index => '$' :: (toString index.toNat).toList
  | literal value => value.word
  | call _ _ _ => []

def leafTail : Node → List Char
  | literal value => value.tail
  | _ => []

def leafKind : Node → Kind
  | inputRef _ => .column
  | literal value => value.kind
  | call _ _ _ => .call

theorem IsLeaf.text_eq {n : Node} (h : n.IsLeaf) : n.text = n.leafWord ++ n.leafTail := by
  cases n with
  | inputRef index => exact (List.append_nil _).symm
  | literal value => exact value.digest_eq
  | call op operands type => exact h.elim

theorem mem_leafWord {n : Node} {c : Char} (h : c ∈ n.leafWord) :
    c.isAlphanum = true ∨ c ∈ ['$', '.', '-'] := by
  cases n with
  | inputRef index =>
    rcases List.mem_cons.mp h with rfl | h
    · exact Or.inr (by decide)
    · rw [toList_toString_nat] at h
      exact Or.inl (isAlphanum_of_isDigit (isDigit_of_mem_toDigits h))
  | literal value =>
    rcases Literal.mem_word h with halnum | hmark
    · exact Or.inl halnum
    · exact Or.inr (List.mem_cons_of_mem _ hmark)
  | call op operands type => exact absurd h List.not_mem_nil

theorem isWordChar_of_mem_leafWord {n : Node} {c : Char} (h : c ∈ n.leafWord) :
    isWordChar c = true := by
  have hall : ∀ c ∈ [',', '(', ')', '\'', '\n'],
      ¬ (c.isAlphanum = true ∨ c ∈ ['$', '.', '-']) := forall_mem_of_all (by decide)
  exact decide_eq_true (fun hc => hall c hc (mem_leafWord h))

theorem stops_leafTail_append (n : Node) {r : List Char} (hr : Ended r) :
    Stops isWordChar (n.leafTail ++ r) := by
  cases n with
  | literal value => exact value.stops_tail_append hr
  | _ => exact hr.stops_word

theorem IsLeaf.ofWord_leafWord {n : Node} (h : n.IsLeaf) : Kind.ofWord n.leafWord = n.leafKind := by
  cases n with
  | inputRef index => simp [leafWord, leafKind, Kind.ofWord]
  | literal value => exact value.ofWord_word
  | call op operands type => exact h.elim

/-- A leaf and what follows its text can be told from the whole, as far as the outline goes. -/
theorem IsLeaf.text_append_inj {n m : Node} {r s : List Char} (hn : n.IsLeaf) (hm : m.IsLeaf)
    (hr : Ended r) (hs : Ended s) (h : n.text ++ r = m.text ++ s) :
    n.outline = m.outline ∧ r = s := by
  rw [hn.text_eq, hm.text_eq, List.append_assoc, List.append_assoc] at h
  obtain ⟨hword, htail⟩ := Stops.append_inj (fun c => isWordChar_of_mem_leafWord)
    (fun c => isWordChar_of_mem_leafWord) (n.stops_leafTail_append hr)
    (m.stops_leafTail_append hs) h
  have hkind : n.leafKind = m.leafKind := by
    rw [← hn.ofWord_leafWord, ← hm.ofWord_leafWord, hword]
  cases n with
  | inputRef index =>
    cases m with
    | inputRef index' =>
      have hdigits : (toString index.toNat).toList = (toString index'.toNat).toList :=
        (List.cons.inj hword).2
      rw [toList_toString_nat, toList_toString_nat] at hdigits
      have hindex : index = index' := UInt64.toNat_inj.mp (toDigits_injective hdigits)
      exact ⟨by rw [hindex], htail⟩
    | literal value' => cases value' <;> cases hkind
    | call op operands type => exact hm.elim
  | literal value =>
    cases m with
    | inputRef index' => cases value <;> cases hkind
    | literal value' =>
      obtain ⟨hplain, hrest⟩ := Literal.plain_eq_of_word_eq hr hs hword htail
      exact ⟨by rw [outline, outline, hplain], hrest⟩
    | call op operands type => exact hm.elim
  | call op operands type => exact hn.elim

/-- The first character of a leaf is neither a space nor a closing parenthesis. -/
theorem IsLeaf.exists_text_eq_cons {n : Node} (h : n.IsLeaf) :
    ∃ c r, n.text = c :: r ∧ c ∉ [' ', ')'] := by
  rw [h.text_eq]
  cases hword : n.leafWord with
  | nil =>
    have hkind : n.leafKind = .string := by
      rw [← h.ofWord_leafWord, hword]
      rfl
    cases n with
    | inputRef index => cases hkind
    | literal value =>
      cases value with
      | string s => exact ⟨'\'', _, rfl, by decide⟩
      | _ => cases hkind
    | call op operands type => exact h.elim
  | cons c r =>
    refine ⟨c, r ++ n.leafTail, rfl, fun hc => ?_⟩
    have hall : ∀ c ∈ [' ', ')'], ¬ (c.isAlphanum = true ∨ c ∈ ['$', '.', '-']) :=
      forall_mem_of_all (by decide)
    exact hall c hc (mem_leafWord (hword ▸ List.mem_cons_self))

theorem ofWord_header (op : Operator) (type : Option SqlType) :
    Kind.ofWord (header op type) = .call := by
  cases type with
  | none => cases op <;> decide
  | some t => cases t <;> cases op <;> decide

theorem isWordChar_of_mem_header (op : Operator) (type : Option SqlType) :
    ∀ c ∈ header op type, isWordChar c = true := by
  apply List.all_eq_true.mp
  cases type with
  | none => cases op <;> decide
  | some t => cases t <;> cases op <;> decide

theorem exists_header_eq_cons (op : Operator) (type : Option SqlType) :
    ∃ c r, header op type = c :: r ∧ c ∉ [' ', ')'] := by
  have hname : ∃ c r, op.name.toList = c :: r ∧ c ∉ [' ', ')'] := by
    cases op <;> exact ⟨_, _, rfl, by decide⟩
  obtain ⟨c, r, hcons, hc⟩ := hname
  cases type with
  | none => exact ⟨c, r, hcons, hc⟩
  | some t => exact ⟨c, r ++ " : ".toList ++ t.name.toList, by rw [header, hcons]; rfl, hc⟩

theorem ne_colon_of_mem_name (op : Operator) :
    ∀ c ∈ op.name.toList ++ [' '], decide (c ≠ ':') = true := by
  apply List.all_eq_true.mp
  cases op <;> decide

theorem header_some (op : Operator) (t : SqlType) :
    header op (some t) = op.name.toList ++ [' '] ++ ':' :: ' ' :: t.name.toList := by
  rw [List.append_assoc]
  exact List.append_assoc _ _ _

theorem header_none_ne_some (op op' : Operator) (t : SqlType) :
    header op none ≠ header op' (some t) := by
  intro h
  have hcolon : ':' ∈ op.name.toList := by
    rw [show op.name.toList = header op none from rfl, h, header_some]
    exact List.mem_append_right _ List.mem_cons_self
  exact absurd (ne_colon_of_mem_name op ':' (List.mem_append_left _ hcolon)) (by decide)

/-- The colon tells whether there is a type, and where it starts. -/
theorem header_inj {op op' : Operator} {type type' : Option SqlType}
    (h : header op type = header op' type') : op = op' ∧ type = type' := by
  cases type with
  | none =>
    cases type' with
    | none => exact ⟨Operator.name_injective (String.toList_inj.mp h), rfl⟩
    | some t' => exact absurd h (header_none_ne_some op op' t')
  | some t =>
    cases type' with
    | none => exact absurd h.symm (header_none_ne_some op' op t)
    | some t' =>
      rw [header_some, header_some] at h
      obtain ⟨hname, htype⟩ := Stops.append_inj (ne_colon_of_mem_name op)
        (ne_colon_of_mem_name op') (stops_cons rfl _) (stops_cons rfl _) h
      have hop : op.name.toList = op'.name.toList := List.append_cancel_right hname
      have ht : t.name.toList = t'.name.toList := (List.cons.inj (List.cons.inj htype).2).2
      rw [Operator.name_injective (String.toList_inj.mp hop),
        SqlType.name_injective (String.toList_inj.mp ht)]
      exact ⟨rfl, rfl⟩

/-- No text of a leaf starts like a call. -/
theorem IsLeaf.text_append_ne_header {n : Node} {r s : List Char} (hn : n.IsLeaf) (hr : Ended r)
    (hs : Stops isWordChar s) (op : Operator) (type : Option SqlType) :
    n.text ++ r ≠ header op type ++ s := by
  intro h
  rw [hn.text_eq, List.append_assoc] at h
  obtain ⟨hword, -⟩ := Stops.append_inj (fun c => isWordChar_of_mem_leafWord)
    (isWordChar_of_mem_header op type) (n.stops_leafTail_append hr) hs h
  have hkind : n.leafKind = .call := by rw [← hn.ofWord_leafWord, hword, ofWord_header]
  cases n with
  | inputRef index => cases hkind
  | literal value => cases value <;> cases hkind
  | call op operands type => exact hn.elim

end Node
end RowPlan
