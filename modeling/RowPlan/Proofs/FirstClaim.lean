import Mathlib.Data.List.Induction
import RowPlan.Proofs.Lists
import RowPlan.Proofs.Reached

/-! Dispatch by the first claim. Of a list of table rules only the first one that claims a function
counts, with the handler that it has for it, and in a registry the conversion registered last. Lists
with the same handlers are indistinguishable on every expression, whatever answers the requests; a
function without a handler fails wherever one of its calls is reached, and what the first claiming
rule fails with is final. -/
namespace RowPlan

namespace Registry

/-- The conversion of the last registration for a function. -/
def registered? (entries : List (BuiltIn × JsonConversion)) (f : BuiltIn) :
    Option JsonConversion :=
  entries.reverse.findSome? fun x => if f = x.1 then some x.2 else none

theorem conversion?_ofList (entries : List (BuiltIn × JsonConversion)) (f : BuiltIn) :
    (ofList entries).conversion? f = registered? entries f := by
  -- Registrations are carried out in order, so the last one is taken off first.
  induction entries using List.reverseRecOn with
  | nil => rfl
  | append_singleton entries entry ih =>
    obtain ⟨function, c⟩ := entry
    have hregister : ofList (entries ++ [(function, c)]) =
        (ofList entries).register function c := List.foldl_append
    rw [hregister, registered?, List.reverse_concat, List.findSome?_cons]
    change (if f = function then some c else (ofList entries).conversion? f) = _
    by_cases h : f = function
    · rw [if_pos h, if_pos h]
    · rw [if_neg h, if_neg h]
      exact ih

end Registry

/-- No function is claimed by both rules. -/
def TableRule.Disjoint (r s : TableRule) : Prop :=
  ∀ f, r.handler? f = none ∨ s.handler? f = none

/-- Changes to a list of table rules that leave every function its handler, in any number and at any
place of the list. -/
inductive Rearranged : List TableRule → List TableRule → Prop where
  | refl (rules : List TableRule) : Rearranged rules rules
  | symm {rules rules' : List TableRule} (h : Rearranged rules rules') : Rearranged rules' rules
  | trans {rules rules' rules'' : List TableRule} (h : Rearranged rules rules')
    (h' : Rearranged rules' rules'') : Rearranged rules rules''
  /-- Rules that claim disjoint functions may stand in any order. -/
  | reordered (before after : List TableRule) {rules rules' : List TableRule}
    (h : rules.Perm rules') (hd : rules.Pairwise TableRule.Disjoint) :
    Rearranged (before ++ rules ++ after) (before ++ rules' ++ after)
  /-- A rule counts for nothing where rules before it claim all that it claims. -/
  | shadowed {before : List TableRule} {r : TableRule}
    (h : ∀ f, r.handler? f ≠ none → ∃ s ∈ before, s.handler? f ≠ none) (after : List TableRule) :
    Rearranged (before ++ r :: after) (before ++ after)
  /-- Registrations for distinct functions may come in any order. -/
  | registered (before after : List TableRule)
    (first last : List (BuiltIn × JsonConversion))
    {entries entries' : List (BuiltIn × JsonConversion)}
    (h : entries.Perm entries') (hd : entries.Pairwise fun x y => x.1 ≠ y.1) :
    Rearranged (before ++ .customized (.ofList (first ++ entries ++ last)) :: after)
      (before ++ .customized (.ofList (first ++ entries' ++ last)) :: after)

/-- A rule may be repeated anywhere behind itself. -/
theorem Rearranged.repeated {before : List TableRule} {r : TableRule} (h : r ∈ before)
    (after : List TableRule) : Rearranged (before ++ after) (before ++ r :: after) := by
  apply symm
  apply shadowed
  intro f hf
  exact ⟨r, h, hf⟩

theorem claimant?_append (rules rules' : List TableRule) (f : BuiltIn) :
    claimant? (rules ++ rules') f = (claimant? rules f).or (claimant? rules' f) :=
  List.findSome?_append

theorem Registry.registered?_eq_of_perm (first last : List (BuiltIn × JsonConversion))
    {entries entries' : List (BuiltIn × JsonConversion)} (h : entries.Perm entries')
    (hd : entries.Pairwise fun x y => x.1 ≠ y.1) (f : BuiltIn) :
    registered? (first ++ entries ++ last) f = registered? (first ++ entries' ++ last) f := by
  have hreverse : entries.reverse.Perm entries'.reverse :=
    (List.reverse_perm entries).trans (h.trans (List.reverse_perm entries').symm)
  have hclaims : entries.reverse.Pairwise fun x y =>
      (if f = x.1 then some x.2 else none) = none ∨ (if f = y.1 then some y.2 else none) = none := by
    rw [List.pairwise_reverse]
    apply hd.imp
    intro x y hxy
    by_cases hy : f = y.1
    · have hx : f ≠ x.1 := fun hx => hxy (hx.symm.trans hy)
      exact Or.inr (if_neg hx)
    · exact Or.inl (if_neg hy)
  have hblock := findSome?_eq_of_perm hreverse hclaims
  simp only [registered?, List.reverse_append, List.findSome?_append]
  rw [hblock]

theorem Rearranged.claimant?_eq {rules rules' : List TableRule} (h : Rearranged rules rules')
    (f : BuiltIn) : claimant? rules f = claimant? rules' f := by
  induction h with
  | refl rules => rfl
  | symm h ih => exact ih.symm
  | trans h h' ih ih' => exact ih.trans ih'
  | @reordered before after rules rules' h hd =>
    have hblock : claimant? rules f = claimant? rules' f :=
      findSome?_eq_of_perm h (hd.imp fun hrs => hrs f)
    simp only [claimant?_append, hblock]
  | @shadowed before r h after =>
    rw [claimant?_append, claimant?_append]
    cases hr : r.handler? f with
    | none =>
      have hskip : claimant? (r :: after) f = claimant? after f := by
        rw [claimant?, List.findSome?_cons, hr]
        rfl
      rw [hskip]
    | some handler =>
      -- A rule in front claims the function, so nothing behind is asked.
      have hclaimed : r.handler? f ≠ none := by
        rw [hr]
        exact Option.some_ne_none handler
      obtain ⟨s, hs, hclaims⟩ := h f hclaimed
      cases hbefore : claimant? before f with
      | some first => rfl
      | none => exact absurd (List.findSome?_eq_none_iff.mp hbefore s hs) hclaims
  | @registered before after first last entries entries' h hd =>
    have hconversion : (Registry.ofList (first ++ entries ++ last)).conversion? f =
        (Registry.ofList (first ++ entries' ++ last)).conversion? f := by
      rw [Registry.conversion?_ofList, Registry.conversion?_ofList]
      exact Registry.registered?_eq_of_perm first last h hd f
    rw [claimant?_append, claimant?_append]
    simp only [claimant?, List.findSome?_cons, TableRule.handler?, hconversion]

namespace Planner

section
variable {rules : List TableRule} (builder : Builder) (limit : Nat)

theorem indistinguishable_of_claimant?_eq {rules' : List TableRule}
    (h : ∀ f, claimant? rules f = claimant? rules' f) :
    (ofTablesWith rules builder limit).Indistinguishable (ofTablesWith rules' builder limit) := by
  have hselect (call : Call) : select (rules.map TableRule.toRule) call =
      select (rules'.map TableRule.toRule) call := by
    rw [select_tables, select_tables, h call.function]
  exact indistinguishable_of_select_eq hselect builder limit

variable {builder limit}

theorem lowerAt_unclaimed {depth : Nat} (hd : depth ≤ limit) {f : BuiltIn}
    (hf : claimant? rules f = none) (args : List Expr) :
    (ofTablesWith rules builder limit).lowerAt depth (.call f args) =
      .fail (.unsupportedFunction f) := by
  have hlevels : (ofTablesWith rules builder limit).limit + 1 - depth =
      (limit + 1 - (depth + 1)) + 1 := levels_of_depth_le hd
  rw [lowerAt, hlevels]
  exact lowerWithin_unclaimed builder limit _ hf args

/-- Where the rules in front decline, a rule that fails ends the lowering of the call. -/
theorem lowerAt_of_failing_rule {depth : Nat} (hd : depth ≤ limit) {before after : List TableRule}
    {rule : TableRule} (hrules : rules = before ++ rule :: after) {f : BuiltIn} {args : List Expr}
    (hbefore : ∀ r ∈ before, r.handler? f = none) {error : LowerError} :
    let p := ofTablesWith rules builder limit
    let run := (rule.toRule ⟨f, args⟩).run (p.context depth) 0
    run.outcome = .error error →
      p.lowerAt depth (.call f args) = ⟨run.requests.log, .error error⟩ := by
  intro p run herror
  have hselect : select p.rules ⟨f, args⟩ =
      select (rule.toRule :: after.map TableRule.toRule) ⟨f, args⟩ := by
    have hdeclined : claimant? before f = none := List.findSome?_eq_none_iff.mpr hbefore
    change select (rules.map TableRule.toRule) ⟨f, args⟩ = _
    rw [hrules, List.map_append, select_append_tables]
    simp only [hdeclined]
    rfl
  have hrun : run.requests =
      (rule.toRule ⟨f, args⟩).perform (p.lowerAt (depth + 1)) p.builder :=
    Recipe.requests_run _ _ 0 _
  have hfails : run.requests.outcome = .error error := herror
  rw [lowerAt_call p hd, hselect, select, Recipe.perform_bind, ← hrun]
  exact Logged.bind_of_error hfails _

end

/-- The handlers of the first claims are all that lowering takes from the rules. A function without
one fails wherever the walk reaches one of its calls, and if the first rule that claims a call
fails, so does all of it, whatever the rules behind would have made of the call. -/
theorem dispatch_by_first_claim (rules : List TableRule) (builder : Builder) (limit : Nat) :
    let p := ofTablesWith rules builder limit
    (∀ rules', (∀ f, claimant? rules f = claimant? rules' f) →
      p.Indistinguishable (ofTablesWith rules' builder limit)) ∧
    (∀ rules', Rearranged rules rules' →
      p.Indistinguishable (ofTablesWith rules' builder limit)) ∧
    (∀ entries f, (Registry.ofList entries).conversion? f = Registry.registered? entries f) ∧
    ∀ e depth f args, p.Reaches 0 e depth (.call f args) → depth ≤ limit →
      (claimant? rules f = none →
        p.lowerAt depth (.call f args) = .fail (.unsupportedFunction f) ∧
          p.convert e = .error (.unsupportedFunction f)) ∧
      ∀ before rule after error, rules = before ++ rule :: after →
        (∀ r ∈ before, r.handler? f = none) →
        let run := (rule.toRule ⟨f, args⟩).run (p.context depth) 0
        run.outcome = .error error →
          p.lowerAt depth (.call f args) = ⟨run.requests.log, .error error⟩ ∧
            p.convert e = .error error := by
  intro p
  refine ⟨?_, ?_, Registry.conversion?_ofList, ?_⟩
  · intro rules' hsame
    exact indistinguishable_of_claimant?_eq builder limit hsame
  · intro rules' hrearranged
    exact indistinguishable_of_claimant?_eq builder limit hrearranged.claimant?_eq
  · intro e depth f args hreached hd
    constructor
    · intro hf
      have hcall : p.lowerAt depth (.call f args) = .fail (.unsupportedFunction f) :=
        lowerAt_unclaimed hd hf args
      have hfails : (p.lowerAt depth (.call f args)).outcome = .error (.unsupportedFunction f) := by
        rw [hcall]
        rfl
      exact ⟨hcall, hreached.outcome_eq_error hfails⟩
    · intro before rule after error hrules hbefore run hrun
      have hcall : p.lowerAt depth (.call f args) = ⟨run.requests.log, .error error⟩ :=
        lowerAt_of_failing_rule hd hrules hbefore hrun
      have hfails : (p.lowerAt depth (.call f args)).outcome = .error error := by rw [hcall]
      exact ⟨hcall, hreached.outcome_eq_error hfails⟩

/-- A rule changes places with its neighbour and is repeated, and two registrations change places.
The rule fails on a call that the last rule would accept; another function has no rule at all. -/
theorem dispatch_by_first_claim_concat :
    let json : TableRule :=
      .customized (.ofList [(.jsonExists, .jsonExists), (.jsonQuery, .jsonQuery)])
    let json' : TableRule :=
      .customized (.ofList [(.jsonQuery, .jsonQuery), (.jsonExists, .jsonExists)])
    let rules : List TableRule := [.identity .concat, json, .direct]
    let rules' : List TableRule := [json', .identity .concat, .direct, .identity .concat]
    let p := ofTablesWith rules Request.node 2
    let concat : Expr := .call .concat [.field "a" 0, .field "b" 1]
    let value : Expr := .call .jsonValue [.field "a" 0]
    Rearranged rules rules' ∧ p.Indistinguishable (ofTablesWith rules' Request.node 2) ∧
      p.Reaches 0 (.call .and [.field "c" 2, concat]) 1 concat ∧
      p.convert (.call .and [.field "c" 2, concat]) = .error (.arity .concat (.exactly 1) 2) ∧
      (ofTables [.direct] 2).convert concat =
        .ok (.call .concat [.inputRef 0, .inputRef 1] none) ∧
      p.Reaches 0 (.call .not [value]) 1 value ∧ claimant? rules .jsonValue = none ∧
      p.convert (.call .not [value]) = .error (.unsupportedFunction .jsonValue) := by
  intro json json' rules rules' p concat value
  have hdisjoint : TableRule.Disjoint (.identity .concat) json := by
    intro f
    cases f <;> first | exact Or.inl rfl | exact Or.inr rfl
  have hswapped : Rearranged rules [json, .identity .concat, .direct] :=
    .reordered [] [.direct] (.swap json (.identity .concat) []) (List.pairwise_pair.mpr hdisjoint)
  have hregistered : Rearranged [json, .identity .concat, .direct]
      [json', .identity .concat, .direct] :=
    .registered [] [.identity .concat, .direct] [] []
      (.swap (BuiltIn.jsonQuery, JsonConversion.jsonQuery)
        (BuiltIn.jsonExists, JsonConversion.jsonExists) [])
      (List.pairwise_pair.mpr (by decide))
  have hmem : TableRule.identity .concat ∈ [json', .identity .concat, .direct] :=
    List.mem_cons_of_mem _ List.mem_cons_self
  have hrearranged : Rearranged rules rules' :=
    hswapped.trans (hregistered.trans (.repeated hmem []))
  have hconcat : p.Reaches 0 (.call .and [.field "c" 2, concat]) 1 concat :=
    .call (Nat.zero_le 2) (List.mem_cons_of_mem _ List.mem_cons_self) (.refl 1 concat)
  have hvalue : p.Reaches 0 (.call .not [value]) 1 value :=
    .call (Nat.zero_le 2) List.mem_cons_self (.refl 1 value)
  obtain ⟨-, hsame, -, hreached⟩ := dispatch_by_first_claim rules Request.node 2
  have hfinal := ((hreached _ 1 _ _ hconcat (by decide)).2 [] (.identity .concat) _
    (.arity .concat (.exactly 1) 2) rfl nofun rfl).2
  have hunclaimed := ((hreached _ 1 _ _ hvalue (by decide)).1 rfl).2
  exact ⟨hrearranged, hsame rules' hrearranged, hconcat, hfinal, rfl, hvalue, rfl,
    hunclaimed⟩

end Planner
end RowPlan
