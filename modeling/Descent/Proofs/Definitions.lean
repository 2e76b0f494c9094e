import Descent.Proofs.Steps
import Descent.Proofs.Yields

namespace Descent

variable {α : Type}

namespace Rules

-- What is asked of a set of named rules.
inductive Request (α : Type) where
  -- mentions a rule
  | declare (name : String)
  | define (name : String) (grammar : Grammar α)
  -- tries a grammar, which may mention rules that are defined later or never
  | parse (grammar : Grammar α) (cursor : Cursor)

-- What comes back. Of a grammar that is tried that is all that is seen of its run.
inductive Reply (α : Type) where
  | declared (name : String)
  | defined
  | refused (error : GrammarError)
  | parsed (outcome : Outcome (Node α)) (steps : List (Step α))

-- A request has this reply and leaves these rules.
inductive Serves (rules : Rules α) : Request α → Reply α → Rules α → Prop
  | declare {name} : Serves rules (.declare name) (.declared name) rules
  | define {name grammar next} :
      rules.define name grammar = .ok next → Serves rules (.define name grammar) .defined next
  | refuse {name grammar error} :
      rules.define name grammar = .error error →
      Serves rules (.define name grammar) (.refused error) rules
  | parse {grammar cursor outcome steps} :
      Grammar.Runs rules grammar cursor outcome steps →
      Serves rules (.parse grammar cursor) (.parsed outcome steps) rules

-- Requests with their replies, one after the other.
inductive ServesAll : List (Request α × Reply α) → Rules α → Rules α → Prop
  | nil {rules} : ServesAll [] rules rules
  | cons {request reply rest rules next last} :
      Serves rules request reply next → ServesAll rest next last →
      ServesAll ((request, reply) :: rest) rules last

def Request.definition? (name : String) : Request α → Option (Grammar α)
  | .define other grammar => if name = other then some grammar else none
  | .declare _ | .parse _ _ => none

-- The first definition of a rule that is asked for.
def firstDefinition? (name : String) (history : List (Request α × Reply α)) :
    Option (Grammar α) :=
  history.findSome? (·.1.definition? name)

section Definitions

variable {rules next last : Rules α} {name : String} {grammar : Grammar α} {request : Request α}
  {reply : Reply α} {history : List (Request α × Reply α)}

theorem firstDefinition?_cons :
    firstDefinition? name ((request, reply) :: history) =
      (request.definition? name).or (firstDefinition? name history) := by
  simp only [firstDefinition?, List.findSome?_cons]
  cases request.definition? name <;> rfl

theorem define_eq_ok (h : rules.definition? name = none) (grammar : Grammar α) :
    rules.define name grammar = .ok ⟨rules.definitions ++ [(name, grammar)]⟩ := by
  simp [define, isDefined, h]

theorem define_eq_error {first : Grammar α} (h : rules.definition? name = some first)
    (grammar : Grammar α) : rules.define name grammar = .error (.ruleRedefined name) := by
  simp [define, isDefined, h]

-- A definition that is taken on comes behind those there are.
theorem definition?_of_define_eq_ok (h : rules.define name grammar = .ok next) (other : String) :
    next.definition? other =
      (rules.definition? other).or (if other = name then some grammar else none) := by
  cases hdefinition : rules.definition? name with
  | some first => cases (define_eq_error hdefinition grammar).symm.trans h
  | none =>
      cases (define_eq_ok hdefinition grammar).symm.trans h
      rw [definition?, SortedMap.find?_append]
      rfl

-- A rule that has a definition keeps it; one that has none takes on what is asked for.
theorem Serves.definition?_eq (h : Serves rules request reply next) (name : String) :
    next.definition? name = (rules.definition? name).or (request.definition? name) := by
  cases h with
  | declare | parse => exact Option.or_none.symm
  | define hdefine => exact definition?_of_define_eq_ok hdefine name
  | @refuse other grammar error hdefine =>
      cases hdefinition : rules.definition? other with
      | none => cases (define_eq_ok hdefinition grammar).symm.trans hdefine
      | some first =>
          by_cases hname : name = other
          · rw [hname, hdefinition]
            rfl
          · simp [Request.definition?, hname]

theorem ServesAll.definition?_eq (h : ServesAll history rules last) (name : String) :
    last.definition? name = (rules.definition? name).or (firstDefinition? name history) := by
  induction h with
  | nil => exact Option.or_none.symm
  | cons hserves _ ih =>
      rw [ih, hserves.definition?_eq, firstDefinition?_cons, Option.or_assoc]

-- In the beginning nothing is defined.
theorem ServesAll.definition?_eq_first (h : ServesAll history {} rules) (name : String) :
    rules.definition? name = firstDefinition? name history := h.definition?_eq name

-- Requests to define a rule are told apart by whether it is defined.
theorem serves_define_iff_of_undefined (h : rules.definition? name = none) :
    Serves rules (.define name grammar) reply next ↔
      reply = .defined ∧ next = ⟨rules.definitions ++ [(name, grammar)]⟩ := by
  have hdefine := define_eq_ok h grammar
  constructor
  · intro hserves
    cases hserves with
    | define hother =>
        cases hdefine.symm.trans hother
        exact ⟨rfl, rfl⟩
    | refuse hother => cases hdefine.symm.trans hother
  · rintro ⟨rfl, rfl⟩
    exact .define hdefine

theorem serves_define_iff_of_defined {first : Grammar α} (h : rules.definition? name = some first) :
    Serves rules (.define name grammar) reply next ↔
      reply = .refused (.ruleRedefined name) ∧ next = rules := by
  have hdefine := define_eq_error h grammar
  constructor
  · intro hserves
    cases hserves with
    | define hother => cases hdefine.symm.trans hother
    | refuse hother =>
        cases hdefine.symm.trans hother
        exact ⟨rfl, rfl⟩
  · rintro ⟨rfl, rfl⟩
    exact .refuse hdefine

end Definitions

end Rules

namespace Grammar

variable {rules : Rules α} {name : String} {cursor stop : Cursor}
  {result : Except Failure (Node α)}

theorem yields_rule_iff_of_undefined (h : rules.definition? name = none) :
    Yields rules (.rule name) cursor result stop ↔
      result = .error (cursor.skipBlank.fail name) ∧ stop = cursor :=
  Yields.iff (yields_of_level (.undefined h))

-- What comes of a rule that is tried: the same as of its definition under the rules there are now.
-- Without one it fails at the first significant character, and the cursor stays.
def Resolves (rules : Rules α) (definition? : Option (Grammar α)) (name : String)
    (cursor : Cursor) (result : Except Failure (Node α)) (stop : Cursor) : Prop :=
  match definition? with
  | none => result = .error (cursor.skipBlank.fail name) ∧ stop = cursor
  | some definition => Yields rules definition cursor result stop

theorem yields_rule_iff_resolves :
    Yields rules (.rule name) cursor result stop ↔
      Resolves rules (rules.definition? name) name cursor result stop := by
  cases hdefinition : rules.definition? name with
  | none => exact yields_rule_iff_of_undefined hdefinition
  | some definition => exact yields_rule_iff hdefinition

end Grammar

namespace Rules

open Grammar

-- The first definition of a rule is the only one that it ever has. Wherever the rule is mentioned,
-- and however old the mention is, it is tried as that definition is under the rules there are then.
theorem first_definition_stays {history : List (Request α × Reply α)} {rules : Rules α}
    (h : ServesAll history {} rules) (name : String) :
    rules.definition? name = firstDefinition? name history ∧
    (firstDefinition? name history = none → ∀ grammar, ∃ next,
      (∀ reply later, Serves rules (.define name grammar) reply later ↔
        reply = .defined ∧ later = next) ∧
      next.definition? name = some grammar ∧
      ∀ other, other ≠ name → next.definition? other = rules.definition? other) ∧
    (∀ first, firstDefinition? name history = some first →
      (∀ grammar reply next, Serves rules (.define name grammar) reply next ↔
        reply = .refused (.ruleRedefined name) ∧ next = rules) ∧
      ∀ later last, ServesAll later rules last → last.definition? name = some first) ∧
    (∀ cursor result stop, Yields rules (.rule name) cursor result stop ↔
      Resolves rules (firstDefinition? name history) name cursor result stop) ∧
    ∀ grammar cursor outcome steps next,
      Serves rules (.parse grammar cursor) (.parsed outcome steps) next →
      next = rules ∧ ∀ start inner, .left (.rule name) start inner ∈ steps →
        Resolves rules (firstDefinition? name history) name start inner.result inner.cursor := by
  have hfirst := h.definition?_eq_first name
  rw [← hfirst]
  refine ⟨rfl, fun hnone grammar => ?_, fun first hsome => ⟨fun grammar reply next => ?_, ?_⟩,
    fun cursor result stop => yields_rule_iff_resolves, ?_⟩
  · have hnext := definition?_of_define_eq_ok (define_eq_ok hnone grammar)
    refine ⟨_, fun reply later => serves_define_iff_of_undefined hnone, ?_, fun other hne => ?_⟩
    · simp [hnext, hnone]
    · simp [hnext, hne]
  · exact serves_define_iff_of_defined hsome
  · intro later last hlater
    rw [hlater.definition?_eq, hsome]
    rfl
  · intro grammar cursor outcome steps next hserves
    cases hserves with
    | parse hruns =>
        refine ⟨rfl, fun start inner hleft => ?_⟩
        exact yields_rule_iff_resolves.mp (hruns.returns_of_left _ _ _ hleft).yields

-- The sentence is older than the definition of the group in it, which mentions the group again.
theorem first_definition_stays_for_older_mention :
    let group : Grammar Unit := .seq [.exact "(", .maybe (.rule "group"), .exact ")"]
    let sentence : Grammar Unit := .seq [.rule "group", .exact "."]
    let start := Cursor.ofInput [' ', '(', ')', '.'] .ascii
    let rules : Rules Unit := ⟨[("group", group)]⟩
    let outcome : Outcome (Node Unit) := run rules sentence start
    ∃ missing found,
      let history : List (Request Unit × Reply Unit) := [(.declare "group", .declared "group"),
        (.parse sentence start, .parsed (.failed ⟨1, "group"⟩ start) missing),
        (.define "group" group, .defined),
        (.define "group" (.exact "x"), .refused (.ruleRedefined "group"))]
      (ServesAll history {} rules ∧ firstDefinition? "group" history = some group ∧
        Serves rules (.parse sentence start) (.parsed outcome found) rules) ∧
      outcome.result.toOption.map Node.flatten = some "()." ∧
      (∀ later last, ServesAll later rules last → last.definition? "group" = some group) ∧
      ∀ begin inner, .left (.rule "group") begin inner ∈ found →
        Yields rules group begin inner.result inner.cursor := by
  intro group sentence start rules outcome
  have hmissing : Returns ({} : Rules Unit) sentence start (.failed ⟨1, "group"⟩ start) :=
    ⟨3, rfl⟩
  have hfound : Returns rules sentence start outcome := ⟨7, rfl⟩
  obtain ⟨missing, hmissing⟩ := hmissing.exists_runs
  obtain ⟨found, hfound⟩ := hfound.exists_runs
  refine ⟨missing, found, ?_⟩
  intro history
  have hhistory : ServesAll history {} rules :=
    .cons .declare (.cons (.parse hmissing) (.cons (.define rfl) (.cons (.refuse rfl) .nil)))
  have hserves : Serves rules (.parse sentence start) (.parsed outcome found) rules := .parse hfound
  obtain ⟨-, -, hstays, -, hparse⟩ := first_definition_stays hhistory "group"
  exact ⟨⟨hhistory, rfl, hserves⟩, rfl, (hstays group rfl).2, (hparse _ _ _ _ _ hserves).2⟩

end Rules

end Descent
