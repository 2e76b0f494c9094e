import Descent.Proofs.LeftRecursion
import Descent.Proofs.Steps

namespace Descent

variable {α : Type}

namespace Grammar

section Levels

variable {rules : Rules α} {fuel : Nat}

-- So many levels are enough for the grammar at every cursor with at most so much text ahead.
def Ends (rules : Rules α) (fuel : Nat) (grammar : Grammar α) (ahead : Nat) : Prop :=
  ∀ cursor, cursor.rest.length ≤ ahead → ∃ outcome, eval rules fuel grammar cursor = some outcome

-- A part that has moved on leaves less text ahead, and one that has not was passable.
theorem passable_or_rest_length_lt {part : Grammar α} {cursor : Cursor}
    {outcome : Outcome (Node α)} {node : Node α} (h : eval rules fuel part cursor = some outcome)
    (hresult : outcome.result = .ok node) :
    Passable rules part ∨ outcome.cursor.rest.length < cursor.rest.length := by
  have hreturns : Returns rules part cursor outcome := ⟨fuel, h⟩
  by_cases hpos : outcome.cursor.pos = cursor.pos
  · exact .inl (hreturns.passable hresult hpos)
  · exact .inr (hreturns.contract.reaches.place.rest_length_lt hpos)

-- What follows a computation that ends has to end for what the computation comes to.
private theorem bind_ends {β γ : Type} {x : Option β} {f : β → Option γ} (hx : ∃ b, x = some b)
    (hf : ∀ b, x = some b → ∃ c, f b = some c) : ∃ c, (x >>= f) = some c := by
  obtain ⟨b, hb⟩ := hx
  obtain ⟨c, hc⟩ := hf b hb
  exact ⟨c, by rw [hb]; exact hc⟩

theorem attemptParts_ends {parts : List (Grammar α)} {cursor : Cursor}
    (hparts : ∀ part ∈ parts, ∀ ahead < cursor.rest.length, Ends rules fuel part ahead)
    (hleft : ∀ before part after, parts = before ++ part :: after →
      (∀ earlier ∈ before, Passable rules earlier) →
      Ends rules fuel part cursor.rest.length) :
    ∃ outcome, attemptParts (eval rules fuel) parts cursor = some outcome := by
  induction parts generalizing cursor with
  | nil => exact ⟨_, rfl⟩
  | cons part rest ih =>
      have hpart := hleft [] part rest rfl (by simp) cursor (Nat.le_refl _)
      refine bind_ends hpart fun first hfirst => ?_
      cases hresult : first.result with
      | error failure => exact ⟨_, rfl⟩
      | ok node =>
          have hreturns : Returns rules part cursor first := ⟨fuel, hfirst⟩
          have hle := hreturns.contract.reaches.place.rest_length_le
          refine bind_ends (ih ?_ ?_) fun others _ => ⟨_, rfl⟩
          · intro other hmem ahead hlt
            exact hparts other (List.mem_cons_of_mem _ hmem) ahead (by omega)
          · intro before other after heq hbefore
            cases passable_or_rest_length_lt hfirst hresult with
            | inl hpassable =>
                have hends := hleft (part :: before) other after (by rw [heq]; rfl)
                  (List.forall_mem_cons.mpr ⟨hpassable, hbefore⟩)
                exact fun later hlater => hends later (by omega)
            | inr hlt =>
                have hmem : other ∈ part :: rest := by simp [heq]
                exact hparts other hmem _ hlt

theorem attemptAny_ends {start : Cursor} {best : Option Failure}
    {alternatives : List (Grammar α)} {cursor : Cursor} (hstart : start.rest = cursor.rest)
    (halternatives : ∀ alternative ∈ alternatives,
      Ends rules fuel alternative start.rest.length) :
    ∃ outcome, attemptAny (eval rules fuel) start best alternatives cursor = some outcome := by
  induction alternatives generalizing best cursor with
  | nil => exact ⟨_, rfl⟩
  | cons alternative rest ih =>
      have halternative := halternatives alternative List.mem_cons_self cursor
        (Nat.le_of_eq (congrArg List.length hstart.symm))
      refine bind_ends halternative fun first _ => ?_
      cases first.result with
      | ok node => exact ⟨_, rfl⟩
      | error failure =>
          dsimp only
          split
          · exact ⟨_, rfl⟩
          · have hrest := fun other hmem => halternatives other (List.mem_cons_of_mem _ hmem)
            exact bind_ends (ih rfl hrest) fun others _ => ⟨_, rfl⟩

theorem attemptSeparator_ends {separator : Option (Grammar α)} {ahead : Nat}
    (hseparator : ∀ part ∈ separator, Ends rules fuel part ahead) {cursor : Cursor}
    (hle : cursor.rest.length ≤ ahead) :
    ∃ outcome, attemptSeparator (eval rules fuel) separator cursor = some outcome := by
  cases separator with
  | none => exact ⟨_, rfl⟩
  | some part => exact hseparator part rfl cursor hle

-- Every round but the last leaves less text ahead, so the budget lasts.
theorem attemptItems_ends {item : Grammar α} {separator : Option (Grammar α)} {start : Cursor}
    {budget min : Nat} {cursor : Cursor} (hbudget : cursor.rest.length < budget)
    (hitem : Ends rules fuel item cursor.rest.length)
    (hparts : ∀ part ∈ separator, ∀ ahead < cursor.rest.length, Ends rules fuel part ahead)
    (hseparator : Passable rules item →
      ∀ part ∈ separator, Ends rules fuel part cursor.rest.length) :
    ∃ outcome,
      attemptItems (eval rules fuel) item separator start budget min cursor = some outcome := by
  induction budget generalizing min cursor with
  | zero => omega
  | succ budget ih =>
      refine bind_ends (hitem cursor (Nat.le_refl _)) fun first hfirst => ?_
      cases hresult : first.result with
      | error failure =>
          dsimp only
          split
          · exact ⟨_, rfl⟩
          · split <;> exact ⟨_, rfl⟩
      | ok node =>
          have hreturns : Returns rules item cursor first := ⟨fuel, hfirst⟩
          have hle := hreturns.contract.reaches.place.rest_length_le
          have hnext : ∀ part ∈ separator, Ends rules fuel part first.cursor.rest.length := by
            intro part hpart
            cases passable_or_rest_length_lt hfirst hresult with
            | inl hpassable =>
                exact fun later hlater => hseparator hpassable part hpart later (by omega)
            | inr hlt => exact hparts part hpart _ hlt
          have hends := attemptSeparator_ends hnext (Nat.le_refl _)
          refine bind_ends hends fun between hbetween => ?_
          have hplace := hreturns.contract.reaches.place.trans
            (reaches_of_attemptSeparator reaches_of_eval hbetween).place
          cases between.result with
          | error failure =>
              dsimp only
              split <;> exact ⟨_, rfl⟩
          | ok _ =>
              dsimp only
              split
              · exact ⟨_, rfl⟩
              · rename_i hmoved
                have hlt := hplace.rest_length_lt hmoved
                refine bind_ends (ih ?_ ?_ ?_ ?_) fun others _ => ⟨_, rfl⟩
                · omega
                · exact fun later hlater => hitem later (by omega)
                · exact fun part hpart ahead hahead => hparts part hpart ahead (by omega)
                · exact fun _ part hpart => hparts part hpart _ hlt

theorem Ends.mono {grammar : Grammar α} {ahead more : Nat} (h : Ends rules fuel grammar more)
    (hle : ahead ≤ more) : Ends rules fuel grammar ahead :=
  fun cursor hcursor => h cursor (Nat.le_trans hcursor hle)

-- It is enough that the parts that can be tried where the grammar starts end there, and that all
-- of them do once something has been consumed.
theorem attemptLevel_ends {grammar : Grammar α} {cursor : Cursor}
    (hparts : ∀ part, part.depth < grammar.depth → ∀ ahead < cursor.rest.length,
      Ends rules fuel part ahead)
    (hleft : ∀ part, part.depth < grammar.depth →
      (∀ name, LeftReaches rules part name → LeftReaches rules grammar name) →
      Ends rules fuel part cursor.rest.length)
    (hrule : ∀ name definition, grammar = .rule name →
      rules.definition? name = some definition →
      Ends rules fuel definition cursor.rest.length) :
    ∃ outcome, attemptLevel rules (eval rules fuel) grammar cursor = some outcome := by
  cases grammar with
  | scan scanner => exact ⟨_, rfl⟩
  | cut => exact ⟨_, rfl⟩
  | seq parts =>
      have hdepth {part : Grammar α} (hmem : part ∈ parts) : part.depth < (seq parts).depth :=
        Nat.lt_succ_of_le (depth_le_depthAll hmem)
      refine bind_ends (attemptParts_ends ?_ ?_) fun outcome _ => ?_
      · exact fun part hmem => hparts part (hdepth hmem)
      · rintro before part after rfl hbefore
        exact hleft part (hdepth (by simp)) fun name hname => .seq hbefore hname
      · cases outcome.result <;> exact ⟨_, rfl⟩
  | any alternatives =>
      refine attemptAny_ends rfl fun alternative hmem => ?_
      exact hleft alternative (Nat.lt_succ_of_le (depth_le_depthAll hmem))
        fun name hname => .any hmem hname
  | many item separator min =>
      have hitem : item.depth < (many item separator min).depth :=
        Nat.lt_succ_of_le (Nat.le_max_left _ _)
      have hdepth {part : Grammar α} (hpart : part ∈ separator) :
          part.depth < (many item separator min).depth := by
        cases hpart
        exact Nat.lt_succ_of_le (Nat.le_max_right _ _)
      refine bind_ends (attemptItems_ends (Nat.lt_succ_self _) ?_ ?_ ?_) fun _ _ => ⟨_, rfl⟩
      · exact hleft item hitem fun name hname => .item hname
      · exact fun part hpart => hparts part (hdepth hpart)
      · intro hpassable part hpart
        refine hleft part (hdepth hpart) fun name hname => ?_
        cases hpart
        exact .separator hpassable hname
  | maybe part =>
      have hpart := hleft part (Nat.lt_succ_self _) fun name hname => .maybe hname
      refine bind_ends (hpart cursor (Nat.le_refl _)) fun outcome _ => ?_
      cases outcome.result with
      | ok node => exact ⟨_, rfl⟩
      | error failure =>
          dsimp only
          split <;> exact ⟨_, rfl⟩
  | label name part =>
      have hpart := hleft part (Nat.lt_succ_self _) fun name hname => .label hname
      refine bind_ends (hpart cursor (Nat.le_refl _)) fun outcome _ => ?_
      cases outcome.result with
      | ok node => exact ⟨_, rfl⟩
      | error failure =>
          dsimp only
          split <;> exact ⟨_, rfl⟩
  | named name part =>
      have hpart := hleft part (Nat.lt_succ_self _) fun name hname => .named hname
      exact bind_ends (hpart cursor (Nat.le_refl _)) fun _ _ => ⟨_, rfl⟩
  | map f part =>
      have hpart := hleft part (Nat.lt_succ_self _) fun name hname => .map hname
      exact bind_ends (hpart cursor (Nat.le_refl _)) fun _ _ => ⟨_, rfl⟩
  | bind value part =>
      have hpart := hleft part (Nat.lt_succ_self _) fun name hname => .bind hname
      exact bind_ends (hpart cursor (Nat.le_refl _)) fun _ _ => ⟨_, rfl⟩
  | merge part =>
      have hpart := hleft part (Nat.lt_succ_self _) fun name hname => .merge hname
      exact bind_ends (hpart cursor (Nat.le_refl _)) fun _ _ => ⟨_, rfl⟩
  | tight part =>
      have hpart := hleft part (Nat.lt_succ_self _) fun name hname => .tight hname
      exact bind_ends (hpart (cursor.withAutoSkip false) (Nat.le_refl _)) fun _ _ => ⟨_, rfl⟩
  | rule name =>
      simp only [attemptLevel]
      cases hdefinition : rules.definition? name with
      | none => exact ⟨_, rfl⟩
      | some definition =>
          have hpart := hrule name definition rfl hdefinition
          exact bind_ends (hpart cursor (Nat.le_refl _)) fun _ _ => ⟨_, rfl⟩

end Levels

end Grammar

namespace Rules

variable {rules : Rules α} {rank : String → Nat}

-- How many rules have at most this rank.
def countUpTo (rules : Rules α) (rank : String → Nat) (bound : Nat) : Nat :=
  rules.definitions.countP fun entry => rank entry.1 ≤ bound

theorem countUpTo_pos {name : String} {definition : Grammar α}
    (h : rules.definition? name = some definition) : 0 < rules.countUpTo rank (rank name) := by
  refine List.countP_pos_iff.mpr ⟨_, SortedMap.mem_of_find? h, ?_⟩
  simp

theorem countUpTo_lt {name : String} {definition : Grammar α} {bound : Nat}
    (h : rules.definition? name = some definition) (hlt : bound < rank name) :
    rules.countUpTo rank bound < rules.countUpTo rank (rank name) := by
  obtain ⟨before, after, hsplit⟩ := List.append_of_mem (SortedMap.mem_of_find? h)
  have hle (entries : List (String × Grammar α)) :
      entries.countP (fun entry => rank entry.1 ≤ bound) ≤
        entries.countP (fun entry => rank entry.1 ≤ rank name) := by
    refine List.countP_mono_left fun entry _ hentry => ?_
    simp only [decide_eq_true_eq] at hentry ⊢
    omega
  have hbefore := hle before
  have hafter := hle after
  simp only [countUpTo, hsplit, List.countP_append, List.countP_cons, decide_eq_true_eq,
    Nat.le_refl, if_true, Nat.not_le_of_lt hlt, if_false]
  omega

end Rules

namespace Grammar

variable {rules : Rules α} {rank : String → Nat}

-- Between two characters consumed every rule is visited at most once, in falling order of rank.
theorem ends_of_rankedBy (hranked : rules.RankedBy rank) {fuel ahead visits : Nat}
    {grammar : Grammar α}
    (hvisits : ∀ name, LeftReaches rules grammar name → rules.countUpTo rank (rank name) ≤ visits)
    (hfuel : (ahead * rules.definitions.length + visits) * (rules.depth + 1) + grammar.depth ≤
      fuel) : Ends rules fuel grammar ahead := by
  induction fuel generalizing grammar ahead visits with
  | zero =>
      have hpos := grammar.depth_pos
      omega
  | succ fuel ih =>
      intro cursor hcursor
      have hahead := Nat.mul_le_mul_right rules.definitions.length hcursor
      refine attemptLevel_ends ?_ ?_ ?_
      · intro part hdepth less hless
        have hall (name : String) (_ : LeftReaches rules part name) :
            rules.countUpTo rank (rank name) ≤ rules.definitions.length := List.countP_le_length
        refine ih hall ?_
        have hlengths := Nat.mul_le_mul_right rules.definitions.length
          (Nat.le_trans (Nat.succ_le_of_lt hless) hcursor)
        rw [Nat.succ_mul] at hlengths
        have hlevels := Nat.mul_le_mul_right (rules.depth + 1)
          (Nat.le_trans hlengths (Nat.le_add_right _ visits))
        omega
      · intro part hdepth hleft
        refine ih (fun name hname => hvisits name (hleft name hname)) ?_
        have hlevels := Nat.mul_le_mul_right (rules.depth + 1)
          (Nat.add_le_add_right hahead visits)
        omega
      · rintro name definition rfl hdefinition
        have hvisit := hvisits name .rule
        have hfewer (other : String) (hother : LeftReaches rules definition other) :
            rules.countUpTo rank (rank other) ≤ visits - 1 := by
          have hfalls := hranked name definition hdefinition other hother
          have hlt := Rules.countUpTo_lt hdefinition hfalls
          omega
        refine ih hfewer ?_
        have hpos : 0 < rules.countUpTo rank (rank name) := Rules.countUpTo_pos hdefinition
        obtain ⟨others, rfl⟩ : ∃ others, visits = others + 1 := ⟨visits - 1, by omega⟩
        have hdepth := Rules.depth_le_of_definition? hdefinition
        have hlevels := Nat.mul_le_mul_right (rules.depth + 1)
          (Nat.add_le_add_right hahead (others + 1))
        rw [← Nat.add_assoc, Nat.succ_mul] at hlevels
        simp only [depth] at hfuel
        simp only [Nat.add_sub_cancel]
        omega

theorem exists_eval_levels (hranked : rules.RankedBy rank) (grammar : Grammar α)
    (cursor : Cursor) :
    ∃ outcome, eval rules (levels rules grammar cursor) grammar cursor = some outcome := by
  have hends : Ends rules (levels rules grammar cursor) grammar cursor.rest.length := by
    have hall (name : String) (_ : LeftReaches rules grammar name) :
        rules.countUpTo rank (rank name) ≤ rules.definitions.length := List.countP_le_length
    refine ends_of_rankedBy hranked hall ?_
    have hvisits : cursor.rest.length * rules.definitions.length + rules.definitions.length ≤
        4 * (cursor.rest.length + 1) * rules.definitions.length := by
      rw [← Nat.succ_mul]
      exact Nat.mul_le_mul_right _ (by omega)
    have hdepth : rules.depth + 1 ≤ max grammar.depth rules.depth + 1 :=
      Nat.succ_le_succ (Nat.le_max_right _ _)
    have hmul := Nat.mul_le_mul hvisits hdepth
    have hgrammar := Nat.le_max_left grammar.depth rules.depth
    simp only [levels, Nat.succ_mul] at hmul ⊢
    omega
  exact hends cursor (Nat.le_refl _)

-- The levels that are provided are enough.
theorem returns_run (hranked : rules.RankedBy rank) (grammar : Grammar α) (cursor : Cursor) :
    Returns rules grammar cursor (run rules grammar cursor) := by
  obtain ⟨outcome, houtcome⟩ := exists_eval_levels hranked grammar cursor
  have hrun : run rules grammar cursor = outcome := by
    rw [run, houtcome, Option.getD_some]
  rw [hrun]
  exact ⟨_, houtcome⟩

section Loops

variable {Tried : Grammar α → Cursor → Outcome (Node α) → List (Step α) → Prop}
  (hparts : ∀ {part cursor outcome steps}, Tried part cursor outcome steps →
    outcome.Contract cursor)

include hparts

-- Every round of a repetition but the last consumes something.
theorem ItemsRun.length_le {item : Grammar α} {separator : Option (Grammar α)} {start : Cursor}
    {min : Nat} {cursor : Cursor} {outcome : Outcome (List (Node α))} {steps : List (Step α)}
    (h : ItemsRun Tried item separator start min cursor outcome steps) {nodes : List (Node α)}
    (hresult : outcome.result = .ok nodes) :
    nodes.length + cursor.pos ≤ outcome.cursor.pos + 1 := by
  induction h generalizing nodes with
  | committed | short | separatorCommitted => simp at hresult
  | ended hitem =>
      have hle := (hparts hitem).reaches.pos_le
      cases hresult
      simp only [List.length_nil]
      omega
  | separatorEnded hitem _ hseparator | stuck hitem _ hseparator =>
      have hle := (hparts hitem).reaches.pos_le
      have hle' := (hseparator.contract hparts).reaches.pos_le
      cases hresult
      simp only [List.length_singleton]
      omega
  | next hitem _ hseparator _ hmoved _ ih =>
      have hle := (hparts hitem).reaches.pos_le
      have hle' := (hseparator.contract hparts).reaches.pos_le
      obtain ⟨others, hothers, rfl⟩ := Outcome.map_result_eq_ok_iff.mp hresult
      have hlength := ih hothers
      simp only [List.length_cons, Outcome.after, Outcome.map]
      omega

end Loops

theorem Returns.length_le_of_many {item : Grammar α} {separator : Option (Grammar α)} {min : Nat}
    {cursor : Cursor} {outcome : Outcome (Node α)} {node : Node α}
    (h : Returns rules (.many item separator min) cursor outcome)
    (hresult : outcome.result = .ok node) :
    ∃ nodes, node = .children nodes ∧ nodes.length + cursor.pos ≤ outcome.cursor.pos + 1 := by
  obtain ⟨steps, hruns⟩ := h.exists_runs
  obtain ⟨_, hlevel, -⟩ := hruns.levelRun
  cases hlevel with
  | many hrun =>
      obtain ⟨nodes, hnodes, rfl⟩ := Outcome.map_result_eq_ok_iff.mp hresult
      exact ⟨nodes, rfl, hrun.length_le (fun hpart => hpart.returns.contract) hnodes⟩

-- Without left recursion every run ends, and so does every repetition in it, with at most one item
-- more than it has consumed bytes.
theorem runs_end_with_bounded_loops (hranked : rules.RankedBy rank) (grammar : Grammar α)
    (cursor : Cursor) :
    ∃ steps, Runs rules grammar cursor (run rules grammar cursor) steps ∧
      ∀ item separator min start, .entered (.many item separator min) start ∈ steps →
        ∃ last, .left (.many item separator min) start last ∈ steps ∧
          ∀ node, last.result = .ok node →
            ∃ nodes, node = .children nodes ∧ nodes.length + start.pos ≤ last.cursor.pos + 1 := by
  obtain ⟨steps, hruns⟩ := (returns_run hranked grammar cursor).exists_runs
  refine ⟨steps, hruns, fun item separator min start hentered => ?_⟩
  obtain ⟨last, hleft⟩ := hruns.left_of_entered _ _ hentered
  have hreturns := hruns.returns_of_left _ _ _ hleft
  exact ⟨last, hleft, fun node hresult => hreturns.length_le_of_many hresult⟩

-- Items and separators may both be empty, and an item may be a list again.
theorem runs_end_with_bounded_loops_in_nested_lists :
    let items : Grammar Unit := .many (.rule "item") (some (.maybe (.exact ","))) 0
    let rules : Rules Unit := ⟨[("list", .seq [.exact "[", items, .exact "]"]),
      ("item", .any [.rule "list", .scan (.run "a-z" false 0 none)])]⟩
    let rank := fun name => if name = "item" then 1 else 0
    let start := Cursor.ofInput ['[', 'a', 'b', '[', ']', ']'] .ascii
    rules.RankedBy rank ∧
    ∃ steps, Runs rules (.rule "list") start (run rules (.rule "list") start) steps ∧
      ∀ item separator min start, .entered (.many item separator min) start ∈ steps →
        ∃ last, .left (.many item separator min) start last ∈ steps ∧
          ∀ node, last.result = .ok node →
            ∃ nodes, node = .children nodes ∧ nodes.length + start.pos ≤ last.cursor.pos + 1 := by
  intro items rules rank start
  have hranked : rules.RankedBy rank := by
    intro name definition hdefinition other hother
    simp only [Rules.definition?, SortedMap.find?, rules] at hdefinition
    split at hdefinition
    · cases hdefinition
      cases hother.of_seq_cons with
      | inl hbracket => cases hbracket
      | inr hrest =>
          obtain ⟨⟨hempty⟩, -⟩ := hrest
          simp [Scanner.IsPassable] at hempty
    · split at hdefinition
      · rename_i hname
        cases hdefinition
        cases hother with
        | any hmem hother =>
            simp only [List.mem_cons, List.not_mem_nil, or_false] at hmem
            rcases hmem with rfl | rfl
            · cases hother
              rw [hname]
              decide
            · cases hother
      · cases hdefinition
  exact ⟨hranked, runs_end_with_bounded_loops hranked _ _⟩

end Grammar

end Descent
