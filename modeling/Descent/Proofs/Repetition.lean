import Descent.Proofs.Termination
import Descent.Proofs.Yields

namespace Descent

variable {α : Type}

namespace Node

-- What a rule for an item and the same rule again yields for these items.
def nest : List (Node α) → Node α
  | [] => .empty
  | item :: rest => .children [item, nest rest]

-- The node holds these items in this order, each but the last with a separator and the rest behind
-- it. There may be a separator behind the last item too.
inductive Chained : Node α → List (Node α) → Prop
  | none : Chained .empty []
  | last {item} : Chained (.children [item, .empty]) [item]
  | next {item items separator rest} :
      Chained rest items → Chained (.children [item, .children [separator, rest]]) (item :: items)

theorem flatten_nest (items : List (Node α)) : (nest items).flatten = flattenAll items := by
  induction items with
  | nil => rfl
  | cons item rest ih => simp [nest, flatten, flattenAll, ih]

end Node

namespace Grammar

-- A repetition from the cursor comes to try the part at the place.
inductive Tries (rules : Rules α) (item : Grammar α) (separator : Option (Grammar α)) :
    Cursor → Grammar α → Cursor → Prop
  | item {cursor} : Tries rules item separator cursor item cursor
  | separator {cursor node middle part} :
      Yields rules item cursor (.ok node) middle → separator = some part →
      Tries rules item separator cursor part middle
  | later {cursor node middle separated behind part place} :
      Yields rules item cursor (.ok node) middle →
      Separates rules separator middle (.ok separated) behind →
      Tries rules item separator behind part place → Tries rules item separator cursor part place

-- Two parts, or nothing.
section Options

variable {rules : Rules α} {first second : Grammar α} {cursor middle stop : Cursor}
  {node other : Node α} {failure : Failure}

theorem Yields.option (h : Yields rules first cursor (.ok node) middle)
    (h' : Yields rules second middle (.ok other) stop) :
    Yields rules (.maybe (.seq [first, second])) cursor (.ok (.children [node, other])) stop :=
  (Follow.cons h (.cons h' .nil)).yields_seq.maybe

theorem Yields.option_of_committed (h : Yields rules first cursor (.error failure) stop)
    (hmark : cursor.pos < stop.mark) :
    Yields rules (.maybe (.seq [first, second])) cursor (.error failure) stop :=
  ((Follow.failed h).yields_seq_of_committed hmark).maybe_of_committed hmark

theorem Yields.option_of_back (h : Yields rules first cursor (.error failure) stop)
    (hmark : stop.mark ≤ cursor.pos) :
    Yields rules (.maybe (.seq [first, second])) cursor (.ok .empty) stop := by
  have hfollow : Follow rules [first, second] cursor (.error failure) stop := .failed h
  have hseq := hfollow.yields_seq_of_back hmark
  rw [h.rewind hmark] at hseq
  exact hseq.maybe_of_back hmark

theorem Yields.option_of_second_committed (h : Yields rules first cursor (.ok node) middle)
    (h' : Yields rules second middle (.error failure) stop) (hmark : cursor.pos < stop.mark) :
    Yields rules (.maybe (.seq [first, second])) cursor (.error failure) stop :=
  ((Follow.cons h (.failed h')).yields_seq_of_committed hmark).maybe_of_committed hmark

end Options

section Repetitions

variable {rules : Rules α} {item : Grammar α} {separator : Option (Grammar α)}
  {cursor stop : Cursor} {items : Except Failure (List (Node α))}

-- A repetition fails only with a cut behind its start.
theorem Repeats.pos_lt_mark {failure : Failure} (h : Repeats rules item separator cursor items stop)
    (hitems : items = .error failure) : cursor.pos < stop.mark := by
  induction h with
  | committed _ hmark => exact hmark
  | ended | separatorEnded | stuck => cases hitems
  | separatorCommitted hitem _ hmark => exact Nat.lt_of_le_of_lt hitem.reaches.pos_le hmark
  | @next _ _ _ _ _ result _ hitem hseparates _ _ ih =>
      have hle := (hitem.reaches.trans hseparates.reaches).pos_le
      cases result with
      | error inner => exact Nat.lt_of_le_of_lt hle (ih hitems)
      | ok nodes => cases hitems

-- Every item leaves less text for the rest.
theorem exists_repeats (hconsumes : Consumes rules item) (cursor : Cursor)
    (hends : ∀ part place, Tries rules item separator cursor part place →
      ∃ outcome, Returns rules part place outcome) :
    ∃ items stop, Repeats rules item separator cursor items stop := by
  induction hlength : cursor.rest.length using Nat.strongRecOn generalizing cursor with
  | ind length ih =>
      obtain ⟨⟨result, middle, _⟩, hreturns⟩ := hends item cursor .item
      have hitem := hreturns.yields
      cases result with
      | error failure =>
          by_cases hmark : cursor.pos < middle.mark
          · exact ⟨_, _, .committed hitem hmark⟩
          · exact ⟨_, _, .ended hitem (Nat.le_of_not_lt hmark)⟩
      | ok node =>
          have hseparates : ∃ separated behind,
              Separates rules separator middle separated behind := by
            cases separator with
            | none => exact ⟨_, _, rfl, rfl⟩
            | some part =>
                obtain ⟨_, hpart⟩ := hends part middle (.separator hitem rfl)
                exact ⟨_, _, hpart.yields⟩
          obtain ⟨separated, behind, hseparates⟩ := hseparates
          cases separated with
          | error failure =>
              by_cases hmark : middle.pos < behind.mark
              · exact ⟨_, _, .separatorCommitted hitem hseparates hmark⟩
              · exact ⟨_, _, .separatorEnded hitem hseparates (Nat.le_of_not_lt hmark)⟩
          | ok between =>
              have hplace := hitem.reaches.trans hseparates.reaches
              have hmoved := Nat.lt_of_lt_of_le (hconsumes _ _ _ hitem) hseparates.reaches.pos_le
              have hshorter := hplace.place.rest_length_lt (Nat.ne_of_gt hmoved)
              obtain ⟨items, stop, hrest⟩ := ih _ (hlength ▸ hshorter) behind
                (fun part place htries => hends part place (.later hitem hseparates htries)) rfl
              exact ⟨_, _, .next hitem hseparates (Nat.ne_of_gt hmoved) hrest⟩

-- The recursion comes to an end exactly where the loop does, and for the same reason.
theorem Repeats.yields_nest {name : String} (h : Repeats rules item none cursor items stop)
    (hdefinition : rules.definition? name = some (.maybe (.seq [item, .rule name])))
    (hconsumes : Consumes rules item) :
    Yields rules (.rule name) cursor (items.map .nest) stop := by
  induction h with
  | committed hitem hmark =>
      exact (yields_rule_iff hdefinition).mpr (hitem.option_of_committed hmark)
  | ended hitem hmark => exact (yields_rule_iff hdefinition).mpr (hitem.option_of_back hmark)
  | separatorCommitted _ hseparates | separatorEnded _ hseparates => cases hseparates.1
  | stuck hitem hseparates hstuck =>
      have hmoved := hconsumes _ _ _ hitem
      rw [← hseparates.2] at hmoved
      omega
  | @next _ node _ _ _ result _ hitem hseparates hmoved hrest ih =>
      obtain ⟨-, rfl⟩ := hseparates
      refine (yields_rule_iff hdefinition).mpr ?_
      cases result with
      | ok nodes => exact hitem.option ih
      | error failure =>
          have hmark := hrest.pos_lt_mark rfl
          exact hitem.option_of_second_committed ih
            (Nat.lt_of_le_of_lt hitem.reaches.pos_le hmark)

-- An inner option takes the place of the separator that ends the loop.
theorem Repeats.yields_chained {separator : Grammar α} {name : String}
    (h : Repeats rules item (some separator) cursor items stop)
    (hdefinition : rules.definition? name =
      some (.maybe (.seq [item, .maybe (.seq [separator, .rule name])])))
    (hconsumes : Consumes rules item) :
    (∃ failure, items = .error failure ∧ Yields rules (.rule name) cursor (.error failure) stop) ∨
      ∃ nodes node, items = .ok nodes ∧ Yields rules (.rule name) cursor (.ok node) stop ∧
        node.Chained nodes := by
  simp only [yields_rule_iff hdefinition]
  induction h with
  | committed hitem hmark => exact .inl ⟨_, rfl, hitem.option_of_committed hmark⟩
  | ended hitem hmark => exact .inr ⟨_, _, rfl, hitem.option_of_back hmark, .none⟩
  | separatorCommitted hitem hseparates hmark =>
      have hahead := Nat.lt_of_le_of_lt hitem.reaches.pos_le hmark
      exact .inl ⟨_, rfl,
        hitem.option_of_second_committed (hseparates.option_of_committed hmark) hahead⟩
  | separatorEnded hitem hseparates hmark =>
      exact .inr ⟨_, _, rfl, hitem.option (hseparates.option_of_back hmark), .last⟩
  | stuck hitem hseparates hstuck =>
      have hmoved := hconsumes _ _ _ hitem
      have hle := hseparates.reaches.pos_le
      omega
  | next hitem hseparates _ hrest ih =>
      rcases ih with ⟨failure, rfl, hrecursion⟩ | ⟨nodes, node, rfl, hrecursion, hchained⟩
      · have hmark := hrest.pos_lt_mark rfl
        have hinner := hseparates.option_of_second_committed
          ((yields_rule_iff hdefinition).mpr hrecursion)
          (Nat.lt_of_le_of_lt hseparates.reaches.pos_le hmark)
        have hle := (hitem.reaches.trans hseparates.reaches).pos_le
        exact .inl ⟨_, rfl, hitem.option_of_second_committed hinner (Nat.lt_of_le_of_lt hle hmark)⟩
      · have hinner := hseparates.option ((yields_rule_iff hdefinition).mpr hrecursion)
        exact .inr ⟨_, _, rfl, hitem.option hinner, .next hchained⟩

-- A loop over items, with or without a separator, does what a rule for an item and the same rule
-- again does: it comes to the same end at the same place, with the same items.
theorem loops_agree_with_recursion {separator : Grammar α} {plain separated : String}
    (hplain : rules.definition? plain = some (.maybe (.seq [item, .rule plain])))
    (hseparated : rules.definition? separated =
      some (.maybe (.seq [item, .maybe (.seq [separator, .rule separated])])))
    (hconsumes : Consumes rules item) (cursor : Cursor) :
    ((∀ part place, Tries rules item none cursor part place →
        ∃ outcome, Returns rules part place outcome) →
      ∃ (items : Except Failure (List (Node α))) (stop : Cursor),
        Yields rules (.many item none 0) cursor (items.map .children) stop ∧
        Yields rules (.rule plain) cursor (items.map .nest) stop ∧
        ∀ nodes, items = .ok nodes → (Node.nest nodes).flatten = (Node.children nodes).flatten) ∧
    ((∀ part place, Tries rules item (some separator) cursor part place →
        ∃ outcome, Returns rules part place outcome) →
      ∃ (items : Except Failure (List (Node α))) (stop : Cursor),
        Yields rules (.many item (some separator) 0) cursor (items.map .children) stop ∧
        ((∃ failure, items = .error failure ∧
            Yields rules (.rule separated) cursor (.error failure) stop) ∨
          ∃ nodes node, items = .ok nodes ∧
            Yields rules (.rule separated) cursor (.ok node) stop ∧ node.Chained nodes)) := by
  constructor
  · intro hends
    obtain ⟨items, stop, hrepeats⟩ := exists_repeats hconsumes cursor hends
    refine ⟨items, stop, yields_many_iff.mpr ⟨items, hrepeats, rfl⟩, ?_, ?_⟩
    · exact hrepeats.yields_nest hplain hconsumes
    · exact fun nodes _ => Node.flatten_nest nodes
  · intro hends
    obtain ⟨items, stop, hrepeats⟩ := exists_repeats hconsumes cursor hends
    refine ⟨items, stop, yields_many_iff.mpr ⟨items, hrepeats, rfl⟩, ?_⟩
    exact hrepeats.yields_chained hseparated hconsumes

end Repetitions

-- A cut in the separator, and a separator behind the last item.
theorem loops_agree_with_recursion_over_letters :
    let letters : Grammar Unit := .chars "a-z"
    let comma : Grammar Unit := .seq [.exact ",", .cut]
    let rules : Rules Unit := ⟨[("letters", .maybe (.seq [letters, .rule "letters"])),
      ("list", .maybe (.seq [letters, .maybe (.seq [comma, .rule "list"])]))]⟩
    let cursor := Cursor.ofInput ['a', ',', 'b', ','] .ascii
    (∃ (items : Except Failure (List (Node Unit))) (stop : Cursor),
      Yields rules (.many letters none 0) cursor (items.map .children) stop ∧
      Yields rules (.rule "letters") cursor (items.map .nest) stop ∧
      ∀ nodes, items = .ok nodes → (Node.nest nodes).flatten = (Node.children nodes).flatten) ∧
    ∃ (items : Except Failure (List (Node Unit))) (stop : Cursor),
      Yields rules (.many letters (some comma) 0) cursor (items.map .children) stop ∧
      ((∃ failure, items = .error failure ∧
          Yields rules (.rule "list") cursor (.error failure) stop) ∨
        ∃ nodes node, items = .ok nodes ∧
          Yields rules (.rule "list") cursor (.ok node) stop ∧ node.Chained nodes) := by
  intro letters comma rules cursor
  have hletters : ¬ Passable rules (.chars "a-z") := by
    rintro ⟨hempty⟩
    cases hempty
  have hnone (other : String) : ¬ LeftReaches rules (.chars "a-z") other := nofun
  have hranked : rules.RankedBy fun _ => 0 := by
    intro name definition hdefinition other hother
    simp only [Rules.definition?, SortedMap.find?, rules] at hdefinition
    split at hdefinition
    · cases hdefinition
      cases hother with
      | maybe hother =>
          cases hother.of_seq_cons with
          | inl hfirst => exact absurd hfirst (hnone other)
          | inr hrest => exact absurd hrest.1 hletters
    · split at hdefinition
      · cases hdefinition
        cases hother with
        | maybe hother =>
            cases hother.of_seq_cons with
            | inl hfirst => exact absurd hfirst (hnone other)
            | inr hrest => exact absurd hrest.1 hletters
      · cases hdefinition
  have hplain : rules.definition? "letters" = some (.maybe (.seq [letters, .rule "letters"])) := rfl
  have hlist : rules.definition? "list" =
      some (.maybe (.seq [letters, .maybe (.seq [comma, .rule "list"])])) := rfl
  have hconsumes := consumes_of_not_passable hletters
  obtain ⟨hloop, hseparated⟩ := loops_agree_with_recursion hplain hlist hconsumes cursor
  exact ⟨hloop fun part place _ => ⟨_, returns_run hranked part place⟩,
    hseparated fun part place _ => ⟨_, returns_run hranked part place⟩⟩

end Grammar

end Descent
