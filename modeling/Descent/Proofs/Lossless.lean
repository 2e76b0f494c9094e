import Descent.Proofs.Places
import Descent.Proofs.Yields

namespace Descent

open Text

-- Texts one after the other, with nothing but skipped characters before, between and behind them.
inductive Spread (skips : Char → Bool) : List (List Char) → List Char → Prop
  | nil {gap} : (∀ c ∈ gap, skips c) → Spread skips [] gap
  | cons {gap token tokens text} :
      (∀ c ∈ gap, skips c) → Spread skips tokens text →
      Spread skips (token :: tokens) (gap ++ (token ++ text))

namespace Spread

variable {skips other : Char → Bool} {tokens rest : List (List Char)} {gap text later : List Char}

theorem of_gap (hgap : ∀ c ∈ gap, skips c) (h : Spread skips tokens text) :
    Spread skips tokens (gap ++ text) := by
  cases h with
  | nil hlast => exact .nil fun c hc => (List.mem_append.mp hc).elim (hgap c) (hlast c)
  | cons hfirst hrest =>
      rw [← List.append_assoc]
      exact .cons (fun c hc => (List.mem_append.mp hc).elim (hgap c) (hfirst c)) hrest

-- The last gap of the one and the first gap of the other become one gap.
theorem append (h : Spread skips tokens text) (hlater : Spread skips rest later) :
    Spread skips (tokens ++ rest) (text ++ later) := by
  induction h with
  | nil hgap => exact hlater.of_gap hgap
  | cons hgap _ ih =>
      rw [List.append_assoc, List.append_assoc]
      exact .cons hgap ih

theorem mono (h : Spread skips tokens text) (hle : ∀ c, skips c → other c) :
    Spread other tokens text := by
  induction h with
  | nil hgap => exact .nil fun c hc => hle c (hgap c hc)
  | cons hgap _ ih => exact .cons (fun c hc => hle c (hgap c hc)) ih

theorem flatten_eq (h : Spread skips tokens text) (hskips : ∀ c, skips c = false) :
    tokens.flatten = text := by
  have hempty {gap : List Char} (hgap : ∀ c ∈ gap, skips c) : gap = [] :=
    List.eq_nil_iff_forall_not_mem.mpr fun c hc =>
      Bool.false_ne_true ((hskips c).symm.trans (hgap c hc))
  induction h with
  | nil hgap => rw [hempty hgap, List.flatten_nil]
  | cons hgap _ ih => rw [hempty hgap, List.flatten_cons, ih, List.nil_append]

end Spread

namespace Cursor

-- What has been consumed from the one place to the other is the content and skipped characters.
def Covers (start : Cursor) (content : List Char) (stop : Cursor) : Prop :=
  ∃ text tokens, start.rest = text ++ stop.rest ∧ stop.pos = start.pos + byteSize text ∧
    Spread start.skips tokens text ∧ tokens.flatten = content

namespace Covers

variable {start middle stop : Cursor} {content later : List Char}

theorem of_place_eq (h : stop.toPlace = start.toPlace) : start.Covers [] stop :=
  ⟨[], [], by rw [h, List.nil_append], by rw [h]; rfl, .nil nofun, rfl⟩

theorem trans (h : start.Covers content middle) (hskips : middle.skips = start.skips)
    (hlater : middle.Covers later stop) : start.Covers (content ++ later) stop := by
  obtain ⟨text, tokens, hrest, hpos, hspread, rfl⟩ := h
  obtain ⟨text', tokens', hrest', hpos', hspread', rfl⟩ := hlater
  rw [hskips] at hspread'
  refine ⟨text ++ text', tokens ++ tokens', ?_, ?_, hspread.append hspread', List.flatten_append⟩
  · rw [hrest, hrest', List.append_assoc]
  · rw [hpos', hpos, byteSize_append, Nat.add_assoc]

theorem of_start_eq (h : start.Covers content stop) (hplace : start.toPlace = middle.toPlace)
    (hskips : start.skips = middle.skips) : middle.Covers content stop := by
  obtain ⟨text, tokens, hrest, hpos, hspread, hcontent⟩ := h
  exact ⟨text, tokens, hplace ▸ hrest, hplace ▸ hpos, hskips ▸ hspread, hcontent⟩

end Covers

theorem Reaches.skips_eq {start stop : Cursor} (h : start.Reaches stop) :
    stop.skips = start.skips := by
  funext c
  rw [skips, skips, h.autoSkip, h.policy]

end Cursor

-- The scanner yields the text that it consumes.
def Scanner.yieldsText : Scanner → Bool
  | quoted _ | number => false
  | exact _ | run .. | regex _ | upTo _ | blank _ => true

theorem Scanner.node_eq_of_lex {α : Type} {scanner : Scanner} {policy : Whitespace}
    {text : List Char} {lexeme : Lexeme α} (hscanner : scanner.yieldsText)
    (h : scanner.lex policy text = .ok lexeme) :
    lexeme.node = .token (String.ofList lexeme.consumed) := by
  cases scanner with
  | quoted | number => cases hscanner
  | exact | run =>
      simp only [lex] at h
      split at h <;> cases h
      rfl
  | regex | upTo =>
      simp only [lex] at h
      split at h <;> cases h
      rfl
  | blank =>
      cases h
      rfl

namespace Grammar

variable {α : Type}

-- Grammars whose nodes are made of the text they consume: no meaning is put in its place, and
-- nothing is read between the items of a repetition.
inductive Verbatim : Grammar α → Prop
  | scan {scanner} : scanner.yieldsText → Verbatim (.scan scanner)
  | cut : Verbatim .cut
  | seq {parts} : (∀ part ∈ parts, Verbatim part) → Verbatim (.seq parts)
  | any {alternatives} : (∀ part ∈ alternatives, Verbatim part) → Verbatim (.any alternatives)
  | many {item min} : Verbatim item → Verbatim (.many item none min)
  | maybe {part} : Verbatim part → Verbatim (.maybe part)
  | label {name part} : Verbatim part → Verbatim (.label name part)
  | named {name part} : Verbatim part → Verbatim (.named name part)
  | merge {part} : Verbatim part → Verbatim (.merge part)
  | tight {part} : Verbatim part → Verbatim (.tight part)
  | rule {name} : Verbatim (.rule name)

end Grammar

def Rules.Verbatim {α : Type} (rules : Rules α) : Prop :=
  ∀ name definition, rules.definition? name = some definition → definition.Verbatim

namespace Grammar

variable {α : Type} {rules : Rules α}

theorem covers_scanStart (scanner : Scanner) (cursor : Cursor) :
    cursor.Covers [] (scanStart scanner cursor) := by
  unfold scanStart
  split
  · exact .of_place_eq rfl
  · have hgap : ∀ c ∈ cursor.rest.takeWhile cursor.skips, cursor.skips c :=
      List.all_eq_true.mp List.all_takeWhile
    exact ⟨_, [], List.takeWhile_append_dropWhile.symm, rfl, .nil hgap, rfl⟩

theorem attemptScan_covers {scanner : Scanner} {cursor : Cursor} {node : Node α}
    (hscanner : scanner.yieldsText) (h : (attemptScan scanner cursor).result = .ok node) :
    cursor.Covers node.flatten.toList (attemptScan (α := α) scanner cursor).cursor := by
  simp only [attemptScan] at h ⊢
  cases hlex : scanner.lex (α := α) cursor.policy (scanStart scanner cursor).rest with
  | error miss => simp [hlex, Outcome.failed] at h
  | ok lexeme =>
      rw [hlex] at h
      cases h
      have hspread : Spread (scanStart scanner cursor).skips [lexeme.consumed]
          ([] ++ (lexeme.consumed ++ [])) :=
        .cons (List.forall_mem_nil _) (.nil (List.forall_mem_nil _))
      rw [List.nil_append, List.append_nil] at hspread
      have hlexeme : (scanStart scanner cursor).Covers lexeme.consumed
          ((scanStart scanner cursor).rewind
            ((scanStart scanner cursor).after lexeme.consumed lexeme.rest)) :=
        ⟨lexeme.consumed, _, (Scanner.consumed_append_of_lex hlex).symm, rfl, hspread,
          List.flatten_singleton⟩
      have hskips := (reaches_scanStart scanner cursor).skips_eq
      rw [Scanner.node_eq_of_lex hscanner hlex, Node.flatten, String.toList_ofList]
      exact (covers_scanStart scanner cursor).trans hskips hlexeme

section Level

variable {Tried : Grammar α → Cursor → Outcome (Node α) → List (Step α) → Prop}
  (hcontract : ∀ {part cursor outcome steps}, Tried part cursor outcome steps →
    outcome.Contract cursor)
  (hparts : ∀ {part cursor outcome steps}, Tried part cursor outcome steps → part.Verbatim →
    ∀ node, outcome.result = .ok node → cursor.Covers node.flatten.toList outcome.cursor)

include hcontract hparts

theorem PartsRun.covers {parts : List (Grammar α)} {cursor : Cursor}
    {outcome : Outcome (List (Node α))} {steps : List (Step α)} {nodes : List (Node α)}
    (h : PartsRun Tried parts cursor outcome steps) (hverbatim : ∀ part ∈ parts, part.Verbatim)
    (hnodes : outcome.result = .ok nodes) :
    cursor.Covers (Node.flattenAll nodes).toList outcome.cursor := by
  induction h generalizing nodes with
  | nil =>
      cases hnodes
      exact .of_place_eq rfl
  | failed => cases hnodes
  | cons hpart hresult _ ih =>
      obtain ⟨others, hothers, rfl⟩ := Outcome.map_result_eq_ok_iff.mp hnodes
      have hfirst := hparts hpart (hverbatim _ List.mem_cons_self) _ hresult
      have hrest := ih (fun part hmem => hverbatim part (List.mem_cons_of_mem _ hmem)) hothers
      rw [Node.flattenAll, String.toList_append]
      exact hfirst.trans (hcontract hpart).reaches.skips_eq hrest

theorem AnyRun.covers {start : Cursor} {best : Option Failure} {alternatives : List (Grammar α)}
    {cursor : Cursor} {outcome : Outcome (Node α)} {steps : List (Step α)} {node : Node α}
    (h : AnyRun Tried start best alternatives cursor outcome steps)
    (hverbatim : ∀ part ∈ alternatives, part.Verbatim) (hreaches : start.Reaches cursor)
    (hplace : cursor.toPlace = start.toPlace) (hnode : outcome.result = .ok node) :
    start.Covers node.flatten.toList outcome.cursor := by
  induction h with
  | exhausted => cases hnode
  | matched hpart =>
      have hcovers := hparts hpart (hverbatim _ List.mem_cons_self) _ hnode
      exact hcovers.of_start_eq hplace hreaches.skips_eq
  | committed _ hresult => cases hresult.symm.trans hnode
  | next hpart _ _ _ ih =>
      have hagain := (hreaches.trans (hcontract hpart).reaches).rewind (.refl _)
      exact ih (fun part hmem => hverbatim part (List.mem_cons_of_mem _ hmem)) hagain rfl hnode

-- Without a separator every item starts where the one before it has ended.
theorem ItemsRun.covers {item : Grammar α} {start : Cursor} {min : Nat} {cursor : Cursor}
    {outcome : Outcome (List (Node α))} {steps : List (Step α)} {nodes : List (Node α)}
    (h : ItemsRun Tried item none start min cursor outcome steps) (hverbatim : item.Verbatim)
    (hnodes : outcome.result = .ok nodes) :
    cursor.Covers (Node.flattenAll nodes).toList outcome.cursor := by
  induction h generalizing nodes with
  | committed | short | separatorCommitted => cases hnodes
  | ended hitem hresult hmark =>
      cases hnodes
      have hback := (hcontract hitem).back _ hresult
      exact .of_place_eq (hback.resolve_right (Nat.not_lt_of_le hmark))
  | separatorEnded _ _ hseparator hseparated =>
      cases hseparator
      cases hseparated
  | stuck hitem hresult hseparator =>
      cases hseparator
      cases hnodes
      rw [Node.flattenAll, Node.flattenAll, String.append_empty]
      exact hparts hitem hverbatim _ hresult
  | next hitem hresult hseparator _ _ _ ih =>
      cases hseparator
      obtain ⟨others, hothers, rfl⟩ := Outcome.map_result_eq_ok_iff.mp hnodes
      have hfirst := hparts hitem hverbatim _ hresult
      rw [Node.flattenAll, String.toList_append]
      exact hfirst.trans (hcontract hitem).reaches.skips_eq (ih hothers)

theorem LevelRun.covers {grammar : Grammar α} {cursor : Cursor} {outcome : Outcome (Node α)}
    {inner : List (Step α)} {node : Node α} (hrules : rules.Verbatim)
    (h : LevelRun Tried rules grammar cursor outcome inner) (hverbatim : grammar.Verbatim)
    (hnode : outcome.result = .ok node) : cursor.Covers node.flatten.toList outcome.cursor := by
  cases h with
  | scan =>
      cases hverbatim with
      | scan hscanner => exact attemptScan_covers hscanner hnode
  | cut =>
      cases hnode
      exact .of_place_eq rfl
  | seq hrun hresult =>
      cases hverbatim with
      | seq hall =>
          cases hnode
          exact hrun.covers hcontract hparts hall hresult
  | any hrun =>
      cases hverbatim with
      | any hall => exact hrun.covers hcontract hparts hall (.refl _) rfl hnode
  | many hrun =>
      cases hverbatim with
      | many hitem =>
          obtain ⟨nodes, hnodes, rfl⟩ := Outcome.map_result_eq_ok_iff.mp hnode
          exact hrun.covers hcontract hparts hitem hnodes
  | maybe hpart =>
      cases hverbatim with
      | maybe hinner => exact hparts hpart hinner _ hnode
  | maybeFailed =>
      cases hnode
      exact .of_place_eq rfl
  | label hpart =>
      cases hverbatim with
      | label hinner => exact hparts hpart hinner _ hnode
  | seqCommitted | seqFailed | labelFailed | undefined => cases hnode
  | maybeCommitted _ hresult | labelCommitted _ hresult => cases hresult.symm.trans hnode
  | named hpart =>
      cases hverbatim with
      | named hinner => exact hparts hpart hinner _ hnode
  | map | bind => cases hverbatim
  | merge hpart =>
      cases hverbatim with
      | merge hinner =>
          obtain ⟨found, hresult, rfl⟩ := Outcome.map_result_eq_ok_iff.mp hnode
          exact hparts hpart hinner found hresult
  | tight hpart =>
      cases hverbatim with
      | tight hinner =>
          -- nothing is skipped inside, so whatever the gaps are, they may be skipped outside
          obtain ⟨text, tokens, hrest, hpos, hspread, hcontent⟩ := hparts hpart hinner _ hnode
          exact ⟨text, tokens, hrest, hpos, hspread.mono nofun, hcontent⟩
  | rule hdefinition hpart => exact hparts hpart (hrules _ _ hdefinition) _ hnode

end Level

variable {grammar : Grammar α} {cursor : Cursor} {outcome : Outcome (Node α)} {node : Node α}

theorem Returns.covers (hrules : rules.Verbatim) (h : Returns rules grammar cursor outcome)
    (hverbatim : grammar.Verbatim) (hnode : outcome.result = .ok node) :
    cursor.Covers node.flatten.toList outcome.cursor := by
  obtain ⟨steps, hruns⟩ := h.exists_runs
  refine hruns.induction (P := fun grammar cursor outcome _ => grammar.Verbatim →
    ∀ node, outcome.result = .ok node → cursor.Covers node.flatten.toList outcome.cursor)
    (fun hlevel hverbatim node => ?_) hverbatim node hnode
  exact hlevel.covers (fun hpart => hpart.1.returns.contract) (fun hpart => hpart.2) hrules
    hverbatim

theorem tokens_cover_match (hrules : rules.Verbatim) (hverbatim : grammar.Verbatim)
    (hsound : cursor.Sound) (h : Returns rules grammar cursor outcome)
    (hnode : outcome.result = .ok node) :
    (∃ tokens, Spread cursor.policy.accepts tokens (cursor.slice cursor.pos outcome.cursor.pos) ∧
      tokens.flatten = node.flatten.toList) ∧
    (cursor.autoSkip = false ∨ cursor.policy = .none →
      cursor.slice cursor.pos outcome.cursor.pos = node.flatten.toList ∧
      Yields rules (.merge grammar) cursor
        (.ok (.token (String.ofList (cursor.slice cursor.pos outcome.cursor.pos))))
        outcome.cursor) := by
  obtain ⟨text, tokens, hrest, hpos, hspread, hcontent⟩ := h.covers hrules hverbatim hnode
  rw [hsound.slice_eq hrest hpos]
  refine ⟨⟨tokens, hspread.mono fun c hc => ?_, hcontent⟩, fun hoff => ?_⟩
  · exact (Bool.and_eq_true_iff.mp hc).2
  · have hskips (c) : cursor.skips c = false := by
      cases hoff with
      | inl hoff => rw [Cursor.skips, hoff, Bool.false_and]
      | inr hoff => rw [Cursor.skips, hoff, Whitespace.accepts, Bool.and_false]
    have htext : text = node.flatten.toList := (hspread.flatten_eq hskips).symm.trans hcontent
    refine ⟨htext, ?_⟩
    obtain ⟨steps, hruns⟩ := h.exists_runs
    have hmerge := yields_of_level (.merge hruns)
    rwa [Outcome.map, hnode, Except.map, ← String.ofList_toList (s := node.flatten), ← htext]
      at hmerge

-- The blanks are no part of the node, and neither is what the first alternative has read.
theorem tokens_cover_match_after_backtracking :
    let pair : Grammar Unit := .any [.seq [.exact "a", .exact "x"], .seq [.exact "a", .exact "b"]]
    let rules : Rules Unit := ⟨[("pair", pair)]⟩
    let start := Cursor.ofInput [' ', 'a', '\n', 'b', ' '] .ascii
    let node : Node Unit := .children [.token "a", .token "b"]
    let stop : Outcome (Node Unit) :=
      ⟨.ok node, { start with pos := 4, rest := [' '] },
        [.matched "pair" [' '], .entered "pair" [' ', 'a', '\n', 'b', ' ']]⟩
    (rules.Verbatim ∧ (Grammar.rule "pair" : Grammar Unit).Verbatim ∧ start.Sound ∧
      Returns rules (.rule "pair") start stop ∧ stop.result = .ok node) ∧
    ∃ tokens, Spread start.policy.accepts tokens [' ', 'a', '\n', 'b'] ∧
      tokens.flatten = ['a', 'b'] := by
  intro pair rules start node stop
  have hpair : pair.Verbatim := by
    refine .any fun alternative hmem => ?_
    simp only [List.mem_cons, List.not_mem_nil, or_false] at hmem
    rcases hmem with rfl | rfl
    all_goals
      refine .seq fun part hmem => ?_
      simp only [List.mem_cons, List.not_mem_nil, or_false] at hmem
      rcases hmem with rfl | rfl <;> exact .scan rfl
  have hrules : rules.Verbatim := by
    intro name definition hdefinition
    cases List.mem_singleton.mp (SortedMap.mem_of_find? hdefinition)
    exact hpair
  have hsound : start.Sound := Cursor.sound_ofInput _ _
  have hreturns : Returns rules (.rule "pair") start stop := by
    simp only [start, pair, rules, stop, node]
    exact ⟨5, rfl⟩
  have hslice : start.slice start.pos stop.cursor.pos = [' ', 'a', '\n', 'b'] := rfl
  have htext : node.flatten.toList = ['a', 'b'] := by decide
  refine ⟨⟨hrules, .rule, hsound, hreturns, rfl⟩, ?_⟩
  rw [← hslice, ← htext]
  exact (tokens_cover_match hrules .rule hsound hreturns rfl).1

end Grammar

end Descent
