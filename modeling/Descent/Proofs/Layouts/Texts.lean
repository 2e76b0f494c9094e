import Mathlib.Logic.ExistsUnique
import Descent.Proofs.Boundaries
import Descent.Proofs.Tokens

-- Texts that differ in their blanks only, and which places in them belong together.
namespace Descent

open Text
open Json (Blank significant significant_append exists_blank_append_significant blank_nil)

namespace Text

def Solid (word : List Char) : Prop := ∀ c ∈ word, isAsciiBlank c = false

instance (word : List Char) : Decidable (Solid word) :=
  List.decidableBAll _ word

def StartsSolid (text : List Char) : Prop := ∀ c ∈ text.head?, isAsciiBlank c = false

def StartsBlank (text : List Char) : Prop := ∀ c ∈ text.head?, isAsciiBlank c

def EndsSolid (text : List Char) : Prop := ∀ c ∈ text.getLast?, isAsciiBlank c = false

-- There are not blanks on both sides of the cut between the two.
def Joint (before rest : List Char) : Prop := EndsSolid before ∨ StartsSolid rest

-- The second text is the first one with other blanks in it. Wherever there are some in the one,
-- there are some in the other.
inductive Relaid : List Char → List Char → Prop
  | nil : Relaid [] []
  | solid {c rest rest'} :
      isAsciiBlank c = false → Relaid rest rest' → Relaid (c :: rest) (c :: rest')
  | blank {run run' rest rest'} :
      Blank run → Blank run' → run ≠ [] → run' ≠ [] → StartsSolid rest → StartsSolid rest' →
      Relaid rest rest' → Relaid (run ++ rest) (run' ++ rest')

variable {text other before rest word run : List Char} {c : Char}

section Joints

theorem startsSolid_cons (hc : isAsciiBlank c = false) (rest : List Char) :
    StartsSolid (c :: rest) := by
  rintro _ ⟨⟩
  exact hc

theorem not_startsSolid_of_blank (hrun : Blank run) (hne : run ≠ []) (rest : List Char) :
    ¬StartsSolid (run ++ rest) := by
  obtain ⟨first, run, rfl⟩ := List.exists_cons_of_ne_nil hne
  intro hsolid
  cases (hsolid first rfl).symm.trans (hrun first List.mem_cons_self)

theorem startsBlank_append (hrun : Blank run) (hne : run ≠ []) (rest : List Char) :
    StartsBlank (run ++ rest) := by
  obtain ⟨first, run, rfl⟩ := List.exists_cons_of_ne_nil hne
  rintro _ ⟨⟩
  exact hrun first List.mem_cons_self

section Spans

variable {accepts : Char → Bool} (haccepts : ∀ c, isAsciiBlank c → accepts c = false)

include haccepts

theorem StartsBlank.takeWhile_eq_nil (h : StartsBlank text) : text.takeWhile accepts = [] := by
  cases text with
  | nil => rfl
  | cons c rest =>
      have hc : accepts c = false := haccepts c (h c rfl)
      rw [List.takeWhile_cons, hc, if_neg Bool.false_ne_true]

theorem StartsBlank.dropWhile_eq_self (h : StartsBlank text) : text.dropWhile accepts = text := by
  cases text with
  | nil => rfl
  | cons c rest =>
      have hc : accepts c = false := haccepts c (h c rfl)
      rw [List.dropWhile_cons, hc, if_neg Bool.false_ne_true]

end Spans

theorem startsSolid_significant (text : List Char) : StartsSolid (significant text) :=
  Scanner.head?_dropWhile_eq_false

theorem endsSolid_nil : EndsSolid [] := nofun

theorem endsSolid_append_iff (hne : word ≠ []) : EndsSolid (before ++ word) ↔ EndsSolid word := by
  rw [EndsSolid, EndsSolid, List.getLast?_append, List.getLast?_eq_some_getLast hne]
  rfl

theorem Solid.endsSolid (h : Solid word) : EndsSolid word :=
  fun c hc => h c (List.mem_of_getLast? hc)

theorem not_endsSolid_of_blank (hrun : Blank run) (hne : run ≠ []) : ¬EndsSolid run := by
  intro hsolid
  have hlast := hsolid _ (List.getLast?_eq_some_getLast hne)
  cases hlast.symm.trans (hrun _ (List.getLast_mem hne))

theorem joint_nil (rest : List Char) : Joint [] rest := .inl endsSolid_nil

theorem Joint.of_append (h : Joint (before ++ word) rest) : Joint word rest := by
  cases word with
  | nil => exact joint_nil rest
  | cons c word => exact h.imp_left (endsSolid_append_iff (List.cons_ne_nil c word)).mp

theorem Joint.append (h : Joint word rest) (hne : word ≠ []) (before : List Char) :
    Joint (before ++ word) rest := h.imp_left (endsSolid_append_iff hne).mpr

-- Behind a word there is no blank, and neither is there before it.
theorem Joint.solid (h : Joint before (word ++ rest)) (hword : Solid word) :
    Joint (before ++ word) rest := by
  cases word with
  | nil => rwa [List.append_nil]
  | cons c word =>
      have hends : EndsSolid (c :: word) := hword.endsSolid
      exact .inl ((endsSolid_append_iff (List.cons_ne_nil c word)).mpr hends)

end Joints

namespace Relaid

theorem symm (h : Relaid text other) : Relaid other text := by
  induction h with
  | nil => exact .nil
  | solid hc _ ih => exact .solid hc ih
  | blank hrun hrun' hne hne' hrest hrest' _ ih =>
      exact .blank hrun' hrun hne' hne hrest' hrest ih

-- Words are the same in both.
theorem exists_append (hword : Solid word) (h : Relaid (word ++ rest) other) :
    ∃ rest', other = word ++ rest' ∧ Relaid rest rest' := by
  induction word generalizing other with
  | nil => exact ⟨other, rfl, h⟩
  | cons c word ih =>
      obtain ⟨hc, hword⟩ := List.forall_mem_cons.mp hword
      generalize htext : c :: word ++ rest = text at h
      cases h with
      | nil => cases htext
      | solid _ hrest =>
          cases htext
          obtain ⟨rest', rfl, hrest'⟩ := ih hword hrest
          exact ⟨rest', rfl, hrest'⟩
      | @blank run _ rest _ hrun _ hne =>
          refine absurd ?_ (not_startsSolid_of_blank hrun hne rest)
          rw [← htext]
          exact startsSolid_cons hc _

-- Either both go on with the same character, or there is none but a blank ahead in any of them.
theorem exists_cons_or_blank (h : Relaid text other) :
    (∃ c rest rest', text = c :: rest ∧ other = c :: rest' ∧ isAsciiBlank c = false ∧
      Relaid rest rest') ∨
    StartsBlank text ∧ StartsBlank other := by
  cases h with
  | nil => exact .inr ⟨nofun, nofun⟩
  | solid hc hrest => exact .inl ⟨_, _, _, rfl, rfl, hc, hrest⟩
  | blank hrun hrun' hne hne' =>
      exact .inr ⟨startsBlank_append hrun hne _, startsBlank_append hrun' hne' _⟩

section Spans

variable {accepts : Char → Bool} (haccepts : ∀ c, isAsciiBlank c → accepts c = false)

include haccepts

theorem takeWhile_eq (h : Relaid text other) :
    text.takeWhile accepts = other.takeWhile accepts := by
  induction h with
  | nil => rfl
  | solid _ _ ih => rw [List.takeWhile_cons, List.takeWhile_cons, ih]
  | blank hrun hrun' hne hne' =>
      rw [(startsBlank_append hrun hne _).takeWhile_eq_nil haccepts,
        (startsBlank_append hrun' hne' _).takeWhile_eq_nil haccepts]

theorem dropWhile (h : Relaid text other) :
    Relaid (text.dropWhile accepts) (other.dropWhile accepts) := by
  induction h with
  | nil => exact .nil
  | solid hc hrest ih =>
      rw [List.dropWhile_cons, List.dropWhile_cons]
      split
      · exact ih
      · exact .solid hc hrest
  | blank hrun hrun' hne hne' hsolid hsolid' hrest =>
      rw [(startsBlank_append hrun hne _).dropWhile_eq_self haccepts,
        (startsBlank_append hrun' hne' _).dropWhile_eq_self haccepts]
      exact .blank hrun hrun' hne hne' hsolid hsolid' hrest

end Spans

theorem significant (h : Relaid text other) : Relaid (significant text) (significant other) := by
  cases h with
  | nil => exact .nil
  | @solid c rest rest' hc hrest =>
      have hsolid (rest : List Char) : Json.significant (c :: rest) = c :: rest :=
        significant_append blank_nil (startsSolid_cons hc rest)
      rw [hsolid, hsolid]
      exact .solid hc hrest
  | blank hrun hrun' _ _ hrest hrest' hrelaid =>
      rwa [significant_append hrun hrest, significant_append hrun' hrest']

end Relaid

-- The text can be cut apart into what is laid out like the two.
def CutsAlike (before rest text : List Char) : Prop :=
  ∃ before' rest', text = before' ++ rest' ∧ Relaid before before' ∧ Relaid rest rest' ∧
    Joint before' rest'

theorem CutsAlike.start (h : Relaid rest text) : CutsAlike [] rest text :=
  ⟨[], text, rfl, .nil, h, joint_nil text⟩

theorem CutsAlike.solid (h : CutsAlike before rest text) (hc : isAsciiBlank c = false) :
    CutsAlike (c :: before) rest (c :: text) := by
  obtain ⟨before', rest', rfl, hbefore, hrest, hjoint⟩ := h
  refine ⟨c :: before', rest', rfl, .solid hc hbefore, hrest, ?_⟩
  cases before' with
  | nil => exact .inl (Solid.endsSolid (List.forall_mem_singleton.mpr hc))
  | cons d before' => exact hjoint.append (List.cons_ne_nil d before') [c]

theorem CutsAlike.blank {run' : List Char} (h : CutsAlike before rest text) (hrun : Blank run)
    (hrun' : Blank run') (hne : run ≠ []) (hne' : run' ≠ [])
    (hsolid : StartsSolid (before ++ rest)) (hsolid' : StartsSolid text) :
    CutsAlike (run ++ before) rest (run' ++ text) := by
  obtain ⟨before', rest', rfl, hbefore, hrest, hjoint⟩ := h
  have hstarts : StartsSolid before := Scanner.eq_false_of_head?_append hsolid
  have hstarts' : StartsSolid before' := Scanner.eq_false_of_head?_append hsolid'
  have hrelaid := Relaid.blank hrun hrun' hne hne' hstarts hstarts' hbefore
  refine ⟨run' ++ before', rest', (List.append_assoc ..).symm, hrelaid, hrest, ?_⟩
  cases before' with
  | nil => exact .inr hsolid'
  | cons c before' => exact hjoint.append (List.cons_ne_nil c before') run'

-- Where the one can be cut apart, but not inside of a run of blanks, the other one can be too.
theorem Relaid.cutsAlike (h : Relaid (before ++ rest) other) (hjoint : Joint before rest) :
    CutsAlike before rest other := by
  generalize htext : before ++ rest = text at h
  induction h generalizing before with
  | nil =>
      obtain ⟨rfl, rfl⟩ := List.append_eq_nil_iff.mp htext
      exact .start .nil
  | @solid c text other hc htail ih =>
      cases before with
      | nil =>
          obtain rfl : rest = c :: text := htext
          exact .start (.solid hc htail)
      | cons first before =>
          obtain ⟨rfl, hinner⟩ := List.cons.inj htext
          have hbehind : Joint ([first] ++ before) rest := hjoint
          exact (ih hbehind.of_append hinner).solid hc
  | @blank run run' text other hrun hrun' hne hne' hsolid hsolid' htail ih =>
      cases List.append_eq_append_iff.mp htext with
      | inr hmore =>
          obtain ⟨more, rfl, rfl⟩ := hmore
          exact (ih hjoint.of_append rfl).blank hrun hrun' hne hne' hsolid hsolid'
      | inl hmore =>
          obtain ⟨more, rfl, rfl⟩ := hmore
          obtain ⟨hbefore, hmore⟩ := List.forall_mem_append.mp hrun
          by_cases hnil : more = []
          · rw [hnil, List.append_nil] at hrun hne
            rw [hnil, List.nil_append]
            have hcut := CutsAlike.start htail
            have hwhole := hcut.blank hrun hrun' hne hne' hsolid hsolid'
            rwa [List.append_nil] at hwhole
          by_cases hempty : before = []
          · rw [hempty]
            exact .start (.blank hmore hrun' hnil hne' hsolid hsolid' htail)
          -- the cut is inside of the run
          cases hjoint with
          | inl hends => exact absurd hends (not_endsSolid_of_blank hbefore hempty)
          | inr hstarts => exact absurd hstarts (not_startsSolid_of_blank hmore hnil text)

section Weight

-- How many characters there are in a text if those of a run of blanks count as one.
def weight : List Char → Nat
  | [] => 0
  | c :: rest =>
    if isAsciiBlank c && rest.head?.any isAsciiBlank then weight rest else weight rest + 1

theorem StartsSolid.any_head?_eq_false (h : StartsSolid rest) :
    rest.head?.any isAsciiBlank = false := by
  cases rest with
  | nil => rfl
  | cons c rest => exact h c rfl

theorem weight_cons (hjoint : Joint [c] rest) : weight (c :: rest) = weight rest + 1 := by
  rw [weight]
  cases hjoint with
  | inl hends => rw [hends c rfl, Bool.false_and, if_neg Bool.false_ne_true]
  | inr hstarts => rw [hstarts.any_head?_eq_false, Bool.and_false, if_neg Bool.false_ne_true]

theorem weight_append_of_blank (hrun : Blank run) (hne : run ≠ []) (hrest : StartsSolid rest) :
    weight (run ++ rest) = weight rest + 1 := by
  induction run with
  | nil => exact absurd rfl hne
  | cons c run ih =>
      obtain ⟨hc, hmore⟩ := List.forall_mem_cons.mp hrun
      cases run with
      | nil => exact weight_cons (.inr hrest)
      | cons d run =>
          have hd : isAsciiBlank d := hmore d List.mem_cons_self
          rw [← ih hmore (List.cons_ne_nil d run), List.cons_append, List.cons_append, weight, hc]
          simp only [List.head?_cons, Option.any_some, hd, Bool.and_self, if_true]

theorem Relaid.weight_eq (h : Relaid text other) : weight text = weight other := by
  induction h with
  | nil => rfl
  | solid hc _ ih =>
      have hjoint (rest : List Char) : Joint [_] rest :=
        .inl (Solid.endsSolid (List.forall_mem_singleton.mpr hc))
      rw [weight_cons (hjoint _), weight_cons (hjoint _), ih]
  | blank hrun hrun' hne hne' hrest hrest' _ ih =>
      rw [weight_append_of_blank hrun hne hrest, weight_append_of_blank hrun' hne' hrest', ih]

theorem weight_lt_append (hne : word ≠ []) (hjoint : Joint word rest) :
    weight rest < weight (word ++ rest) := by
  induction word with
  | nil => exact absurd rfl hne
  | cons c word ih =>
      cases word with
      | nil =>
          rw [List.cons_append, List.nil_append, weight_cons hjoint]
          exact Nat.lt_succ_self _
      | cons d word =>
          have hbehind : Joint ([c] ++ (d :: word)) rest := hjoint
          have hlt := ih (List.cons_ne_nil d word) hbehind.of_append
          rw [List.cons_append, weight]
          split
          · exact hlt
          · exact Nat.lt_succ_of_lt hlt

end Weight

end Text

namespace Place

variable {text other word run rest : List Char} {place place' later later' : Place}

-- The place is one of this text, but not inside of a run of blanks.
def IsJoint (text : List Char) (place : Place) : Prop :=
  ∃ before, text = before ++ place.rest ∧ place.pos = byteSize before ∧ Joint before place.rest

theorem isJoint_start (text : List Char) : IsJoint text ⟨0, text⟩ := ⟨[], rfl, rfl, joint_nil text⟩

theorem IsJoint.after_solid (h : place.IsJoint text) (hrest : place.rest = word ++ rest)
    (hword : Solid word) : (place.after word rest).IsJoint text := by
  obtain ⟨before, rfl, hpos, hjoint⟩ := h
  rw [hrest] at hjoint ⊢
  refine ⟨before ++ word, ?_, ?_, hjoint.solid hword⟩
  · rw [List.append_assoc]
    rfl
  · rw [byteSize_append, ← hpos]
    rfl

theorem IsJoint.after_of_startsSolid (h : place.IsJoint text) (hrest : place.rest = run ++ rest)
    (hsolid : StartsSolid rest) : (place.after run rest).IsJoint text := by
  obtain ⟨before, rfl, hpos, -⟩ := h
  refine ⟨before ++ run, ?_, ?_, .inr hsolid⟩
  · rw [hrest, List.append_assoc]
    rfl
  · rw [byteSize_append, ← hpos]
    rfl

theorem IsJoint.weight_lt (h : place.IsJoint text) (hlater : later.IsJoint text)
    (hlt : place.pos < later.pos) : weight later.rest < weight place.rest := by
  obtain ⟨before, rfl, hpos, -⟩ := h
  obtain ⟨longer, heq, hpos', hjoint⟩ := hlater
  rw [hpos, hpos'] at hlt
  obtain ⟨more, rfl⟩ := prefix_of_byteSize_le heq (Nat.le_of_lt hlt)
  have hne : more ≠ [] := by
    rintro rfl
    rw [List.append_nil] at hlt
    exact Nat.lt_irrefl _ hlt
  rw [List.append_assoc] at heq
  rw [List.append_cancel_left heq]
  exact weight_lt_append hne hjoint.of_append

theorem IsJoint.rest_eq (h : place.IsJoint text) (hother : place'.IsJoint text)
    (hpos : place.pos = place'.pos) : place.rest = place'.rest := by
  obtain ⟨before, rfl, hbefore, -⟩ := h
  obtain ⟨other, heq, hother, -⟩ := hother
  obtain ⟨more, rfl⟩ := prefix_of_byteSize_le heq (by omega)
  have hnil : more = [] := by
    rw [byteSize_append] at hother
    exact byteSize_eq_zero_iff.mp (by omega)
  rw [hnil, List.append_nil] at heq
  exact List.append_cancel_left heq

-- Of two places the one with less behind it comes later.
theorem IsJoint.pos_lt_iff (h : place.IsJoint text) (hlater : later.IsJoint text) :
    place.pos < later.pos ↔ weight later.rest < weight place.rest := by
  constructor
  · exact h.weight_lt hlater
  · intro hlt
    rcases Nat.lt_trichotomy place.pos later.pos with hpos | hpos | hpos
    · exact hpos
    · rw [h.rest_eq hlater hpos] at hlt
      exact absurd hlt (Nat.lt_irrefl _)
    · exact absurd (hlater.weight_lt h hpos) (Nat.lt_asymm hlt)

-- The places have the same behind them but for blanks.
structure Counterpart (text other : List Char) (place place' : Place) : Prop where
  joint : place.IsJoint text
  joint' : place'.IsJoint other
  rest : Relaid place.rest place'.rest

namespace Counterpart

theorem symm (h : Counterpart text other place place') : Counterpart other text place' place :=
  ⟨h.joint', h.joint, h.rest.symm⟩

-- Which of two places comes first is the same in both texts.
theorem pos_lt_iff (h : Counterpart text other place place')
    (hlater : Counterpart text other later later') :
    place.pos < later.pos ↔ place'.pos < later'.pos := by
  rw [h.joint.pos_lt_iff hlater.joint, h.joint'.pos_lt_iff hlater.joint', h.rest.weight_eq,
    hlater.rest.weight_eq]

theorem pos_eq_iff (h : Counterpart text other place place')
    (hlater : Counterpart text other later later') :
    place.pos = later.pos ↔ place'.pos = later'.pos := by
  have hlt := h.pos_lt_iff hlater
  have hgt := hlater.pos_lt_iff h
  omega

end Counterpart

-- Every place that is not inside of a run of blanks has one counterpart.
theorem existsUnique_counterpart (hrelaid : Relaid text other) (h : place.IsJoint text) :
    ∃! place', Counterpart text other place place' := by
  obtain ⟨before, rfl, hpos, hjoint⟩ := h
  obtain ⟨before', rest', rfl, hbefore, hrest, hjoint'⟩ := hrelaid.cutsAlike hjoint
  have hplace : place.IsJoint (before ++ place.rest) := ⟨before, rfl, hpos, hjoint⟩
  have hcounterpart : Counterpart (before ++ place.rest) (before' ++ rest') place
      ⟨byteSize before', rest'⟩ := ⟨hplace, ⟨before', rfl, rfl, hjoint'⟩, hrest⟩
  refine ⟨_, hcounterpart, fun place' hplace' => ?_⟩
  have heq := (hplace'.pos_eq_iff hcounterpart).mp rfl
  have hrest' := hplace'.joint'.rest_eq hcounterpart.joint' heq
  cases place'
  cases heq
  cases hrest'
  rfl

end Place

end Descent
