import Mathlib.Data.List.Chain
import Mathlib.Data.List.Induction
import Stylesheet.Sheet.Basic

/-!
# How a sheet groups what is added to it

Properties and comments are added to a sheet one at a time, and neighbouring
properties for the same selectors share a rule.  There are many lists of
definitions that hold the same additions in the same order; every one of them
turns into the sheet's own when neighbouring rules for the same selectors are
joined.
-/

namespace Stylesheet

/-- A property for some selectors, or a comment. -/
inductive Addition where
  | property (selectors : List Text) (property : Property)
  | comment (text : Text)
  deriving DecidableEq, Repr

namespace Definition

/-- What has to be added, one after the other, for a definition. -/
def additions : Definition → List Addition
  | .rule selectors properties => properties.map (.property selectors)
  | .comment text => [.comment text]

/-- Whether two definitions are rules for different selectors. -/
def Apart : Definition → Definition → Prop
  | .rule first _, .rule second _ => first ≠ second
  | _, _ => True

end Definition

/-- Which properties a rule has does not matter for its neighbours. -/
theorem chain_of_rule {selectors : List Text} {properties : List Property}
    {later : List Definition}
    (apart : (Definition.rule selectors properties :: later).IsChain
      Definition.Apart)
    (others : List Property) :
    (Definition.rule selectors others :: later).IsChain Definition.Apart := by
  cases later with
  | nil => exact .singleton _
  | cons next later =>
      rw [List.isChain_cons_cons] at apart ⊢
      refine ⟨?_, apart.2⟩
      cases next with
      | rule => exact apart.1
      | comment => trivial

/-- The definitions hold the additions in their order, and each of them holds
some. -/
structure Groups (added : List Addition)
    (definitions : List Definition) : Prop where
  additions : definitions.flatMap Definition.additions = added
  filled : ∀ definition ∈ definitions, definition.additions ≠ []

/-- The second list comes from the first by joining neighbouring rules for the
same selectors. -/
inductive Joins : List Definition → List Definition → Prop where
  | nil : Joins [] []
  | keep {definitions joined : List Definition} (definition : Definition) :
      Joins definitions joined →
        Joins (definition :: definitions) (definition :: joined)
  | join {definitions joined : List Definition} {selectors : List Text}
      {others : List Property} (properties : List Property) :
      Joins definitions (.rule selectors others :: joined) →
      Joins (.rule selectors properties :: definitions)
        (.rule selectors (properties ++ others) :: joined)

namespace Groups

variable {added : List Addition} {definition : Definition}
  {definitions : List Definition}

theorem nil_iff : Groups [] definitions ↔ definitions = [] := by
  constructor
  · intro groups
    refine List.eq_nil_iff_forall_not_mem.mpr fun definition member => ?_
    exact groups.filled definition member
      (List.flatMap_eq_nil_iff.mp groups.additions definition member)
  · rintro rfl
    exact ⟨rfl, by simp⟩

theorem cons_iff : Groups added (definition :: definitions) ↔
    definition.additions ≠ [] ∧
      ∃ rest, added = definition.additions ++ rest ∧
        Groups rest definitions := by
  constructor
  · intro groups
    refine ⟨groups.filled definition (by simp),
      definitions.flatMap Definition.additions, ?_, rfl, fun other member =>
        groups.filled other (by simp [member])⟩
    rw [← groups.additions, List.flatMap_cons]
  · rintro ⟨first, rest, rfl, groups⟩
    refine ⟨by rw [List.flatMap_cons, groups.additions], ?_⟩
    rw [List.forall_mem_cons]
    exact ⟨first, groups.filled⟩

theorem concat_iff : Groups added (definitions ++ [definition]) ↔
    definition.additions ≠ [] ∧
      ∃ earlier, added = earlier ++ definition.additions ∧
        Groups earlier definitions := by
  constructor
  · intro groups
    refine ⟨groups.filled definition (by simp),
      definitions.flatMap Definition.additions, ?_, rfl, fun other member =>
        groups.filled other (by simp [member])⟩
    simp [← groups.additions]
  · rintro ⟨last, earlier, rfl, groups⟩
    refine ⟨by simp [groups.additions], fun other member => ?_⟩
    rcases List.mem_append.mp member with before | behind
    · exact groups.filled other before
    · rwa [List.mem_singleton.mp behind]

/-- Additions that begin with a property begin with a rule for its selectors. -/
theorem exists_rule {selectors : List Text} {property : Property}
    {rest : List Addition}
    (groups : Groups (.property selectors property :: rest) definitions) :
    ∃ properties later,
      definitions = .rule selectors (property :: properties) :: later := by
  cases definitions with
  | nil => exact absurd groups.additions (by simp)
  | cons definition later =>
      obtain ⟨filled, behind, split, -⟩ := cons_iff.mp groups
      cases definition with
      | comment text => simp [Definition.additions] at split
      | rule others properties =>
          cases properties with
          | nil => simp [Definition.additions] at filled
          | cons first properties =>
              obtain ⟨⟨rfl, rfl⟩, -⟩ :
                  (selectors = others ∧ property = first) ∧ _ := by
                simpa [Definition.additions] using split
              exact ⟨properties, later, rfl⟩

/-- Additions that begin with a comment begin with that comment. -/
theorem exists_comment {text : Text} {rest : List Addition}
    (groups : Groups (.comment text :: rest) definitions) :
    ∃ later, definitions = .comment text :: later := by
  cases definitions with
  | nil => exact absurd groups.additions (by simp)
  | cons definition later =>
      obtain ⟨filled, behind, split, -⟩ := cons_iff.mp groups
      cases definition with
      | comment other =>
          obtain ⟨rfl, -⟩ : text = other ∧ _ := by
            simpa [Definition.additions] using split
          exact ⟨later, rfl⟩
      | rule selectors properties =>
          cases properties with
          | nil => simp [Definition.additions] at filled
          | cons first properties => simp [Definition.additions] at split

end Groups

namespace Joins

/-- Where neighbours are apart there is nothing to join. -/
theorem eq_of_apart {definitions joined : List Definition}
    (joins : Joins definitions joined)
    (apart : definitions.IsChain Definition.Apart) : joined = definitions := by
  induction joins with
  | nil => rfl
  | keep definition joins ih => rw [ih apart.tail]
  | join properties joins ih =>
      rw [← ih apart.tail, List.isChain_cons_cons] at apart
      exact absurd rfl apart.1

/-- A rule of one grouping stands at the beginning of the rule that begins the
other, if that other one keeps neighbours apart. -/
theorem rule_prefix {selectors : List Text} {properties others : List Property}
    {rest behind : List Addition} {later : List Definition}
    (same : properties.map (Addition.property selectors) ++ rest =
      others.map (Addition.property selectors) ++ behind)
    (groups : Groups behind later)
    (apart : (Definition.rule selectors others :: later).IsChain
      Definition.Apart) :
    ∃ further, others = properties ++ further ∧
      rest = further.map (Addition.property selectors) ++ behind := by
  induction properties generalizing others with
  | nil => exact ⟨others, rfl, same⟩
  | cons property properties ih =>
      cases others with
      | nil =>
          -- What the longer rule has more would begin the next definition.
          obtain rfl : _ = behind := same
          obtain ⟨_, _, rfl⟩ := groups.exists_rule
          exact absurd rfl (List.isChain_cons_cons.mp apart).1
      | cons other others =>
          obtain ⟨rfl, tails⟩ : property = other ∧ _ := by simpa using same
          obtain ⟨further, rfl, split⟩ := ih tails (chain_of_rule apart others)
          exact ⟨further, rfl, split⟩

private theorem of_groups {definitions joined : List Definition}
    {added : List Addition} (groups : Groups added definitions)
    (whole : Groups added joined) (apart : joined.IsChain Definition.Apart) :
    Joins definitions joined := by
  induction definitions generalizing joined added with
  | nil =>
      obtain rfl : [] = added := groups.additions
      rw [Groups.nil_iff.mp whole]
      exact .nil
  | cons definition definitions ih =>
      obtain ⟨filled, rest, rfl, others⟩ := Groups.cons_iff.mp groups
      cases definition with
      | comment text =>
          obtain ⟨later, rfl⟩ := whole.exists_comment
          obtain ⟨-, behind, split, following⟩ := Groups.cons_iff.mp whole
          obtain rfl : rest = behind := List.append_cancel_left split
          exact .keep _ (ih others following apart.tail)
      | rule selectors properties =>
          cases properties with
          | nil => exact absurd rfl filled
          | cons property properties =>
              obtain ⟨gathered, later, rfl⟩ := whole.exists_rule
              obtain ⟨-, behind, split, following⟩ := Groups.cons_iff.mp whole
              obtain ⟨further, longer, rfl⟩ := rule_prefix split following apart
              rw [longer] at apart ⊢
              cases further with
              | nil =>
                  rw [List.append_nil] at apart ⊢
                  exact .keep _ (ih others following apart.tail)
              | cons next further =>
                  refine .join _ (ih others ?_ (chain_of_rule apart _))
                  exact Groups.cons_iff.mpr
                    ⟨by simp [Definition.additions], behind, rfl, following⟩

end Joins

namespace Sheet

/-- The sheet groups the additions and keeps neighbours apart. -/
structure Gathers (sheet : Sheet) (added : List Addition) : Prop where
  groups : Groups added sheet.toList
  apart : sheet.toList.IsChain Definition.Apart

theorem gathers_empty : ({} : Sheet).Gathers [] :=
  ⟨Groups.nil_iff.mpr rfl, .nil⟩

theorem toList_addComment (sheet : Sheet) (text : Text) :
    (sheet.addComment text).toList = sheet.toList ++ [.comment text] := by
  rw [toList, addComment, List.reverse_cons, toList]

/-- A property goes into the last definition if that is a rule for its
selectors, and behind it otherwise. -/
theorem addProperty_cases (sheet : Sheet) (selectors : List Text)
    (property : Property) :
    (∃ older properties, sheet.toList = older ++ [.rule selectors properties] ∧
        (sheet.addProperty selectors property).toList =
          older ++ [.rule selectors (properties ++ [property])] ∧
        sheet.startsRule selectors = false) ∨
      (∀ properties,
        sheet.toList.getLast? ≠ some (.rule selectors properties)) ∧
        (sheet.addProperty selectors property).toList =
          sheet.toList ++ [.rule selectors [property]] ∧
        sheet.startsRule selectors = true := by
  obtain ⟨newest⟩ := sheet
  cases newest with
  | nil => exact .inr ⟨by simp [toList], rfl, rfl⟩
  | cons last older =>
      cases last with
      | comment text =>
          exact .inr ⟨by simp [toList], by simp [toList, addProperty], rfl⟩
      | rule others properties =>
          by_cases same : others = selectors
          · subst same
            exact .inl ⟨older.reverse, properties, by simp [toList],
              by simp [toList, addProperty], by simp [startsRule]⟩
          · exact .inr
              ⟨by simp [toList, same], by simp [toList, addProperty, same],
              by simp [startsRule, same]⟩

namespace Gathers

variable {sheet : Sheet} {added : List Addition}

theorem addComment (gathers : sheet.Gathers added) (text : Text) :
    (sheet.addComment text).Gathers (added ++ [.comment text]) := by
  refine ⟨?_, ?_⟩
  · rw [toList_addComment]
    exact Groups.concat_iff.mpr
      ⟨by simp [Definition.additions], added, rfl, gathers.groups⟩
  · rw [toList_addComment, List.isChain_append]
    refine ⟨gathers.apart, .singleton _, fun last _ next isNext => ?_⟩
    obtain rfl : _ = next := by simpa using isNext
    cases last with
    | rule => trivial
    | comment => trivial

theorem addProperty (gathers : sheet.Gathers added) (selectors : List Text)
    (property : Property) :
    (sheet.addProperty selectors property).Gathers
      (added ++ [.property selectors property]) := by
  obtain ⟨groups, apart⟩ := gathers
  rcases sheet.addProperty_cases selectors property with
    ⟨older, properties, before, after, -⟩ | ⟨other, after, -⟩
  · rw [before] at groups apart
    obtain ⟨-, earlier, rfl, others⟩ := Groups.concat_iff.mp groups
    refine ⟨?_, ?_⟩
    · rw [after]
      exact Groups.concat_iff.mpr ⟨by simp [Definition.additions], earlier,
        by simp [Definition.additions], others⟩
    · rw [after]
      rw [List.isChain_append] at apart ⊢
      refine ⟨apart.1, .singleton _, fun last isLast next isNext => ?_⟩
      obtain rfl : _ = next := by simpa using isNext
      have earlierApart := apart.2.2 last isLast _ rfl
      cases last with
      | rule => exact earlierApart
      | comment => trivial
  · refine ⟨?_, ?_⟩
    · rw [after]
      exact Groups.concat_iff.mpr
        ⟨by simp [Definition.additions], added, rfl, groups⟩
    · rw [after, List.isChain_append]
      refine ⟨apart, .singleton _, fun last isLast next isNext => ?_⟩
      obtain rfl : _ = next := by simpa using isNext
      cases last with
      | rule others properties =>
          rintro rfl
          exact other properties isLast
      | comment => trivial

/-- Whether a property starts a rule can be seen from the addition before it. -/
theorem startsRule_iff (gathers : sheet.Gathers added) (selectors : List Text) :
    sheet.startsRule selectors = true ↔
      added.getLast? = none ∨ (∃ text, added.getLast? = some (.comment text)) ∨
        ∃ others property, added.getLast? = some (.property others property) ∧
          others ≠ selectors := by
  obtain ⟨groups, -⟩ := gathers
  obtain ⟨newest⟩ := sheet
  cases newest with
  | nil =>
      obtain rfl : [] = added := groups.additions
      simp [startsRule]
  | cons last older =>
      rw [toList, List.reverse_cons] at groups
      obtain ⟨filled, earlier, rfl, -⟩ := Groups.concat_iff.mp groups
      cases last with
      | comment text => simp [startsRule, Definition.additions]
      | rule others properties =>
          obtain ⟨front, property, rfl⟩ :=
            List.eq_nil_or_concat properties |>.resolve_left
            (by rintro rfl; exact filled rfl)
          simp [startsRule, Definition.additions]

end Gathers

/-- What is done with a sheet. -/
inductive Call where
  | add (addition : Addition)
  | take

inductive Reply where
  /-- A property was added, to a new rule or not. -/
  | placed (starts : Bool)
  | done
  | taken (definitions : List Definition)

def answer (sheet : Sheet) : Call → Reply × Sheet
  | .add (.property selectors property) =>
      (.placed (sheet.startsRule selectors),
        sheet.addProperty selectors property)
  | .add (.comment text) => (.done, sheet.addComment text)
  | .take =>
      let (definitions, sheet) := sheet.take
      (.taken definitions, sheet)

def after (sheet : Sheet) (calls : List Call) : Sheet :=
  calls.foldl (fun sheet call => (sheet.answer call).2) sheet

def Call.addition? : Call → Option Addition
  | .add addition => some addition
  | .take => none

/-- What was added since the last time that all was taken. -/
def added (calls : List Call) : List Addition :=
  ((calls.reverse.takeWhile (·.addition?.isSome)).filterMap
    Call.addition?).reverse

private theorem added_concat (calls : List Call) (call : Call) :
    added (calls ++ [call]) =
      match call with
      | .add addition => added calls ++ [addition]
      | .take => [] := by
  cases call with
  | add addition => simp [added, Call.addition?]
  | take => simp [added, Call.addition?]

private theorem gathers_added (calls : List Call) :
    (({} : Sheet).after calls).Gathers (added calls) := by
  induction calls using List.reverseRecOn with
  | nil => exact gathers_empty
  | append_singleton calls call ih =>
      rw [after, List.foldl_concat, added_concat]
      cases call with
      | add addition =>
          cases addition with
          | property selectors property =>
              exact ih.addProperty selectors property
          | comment text => exact ih.addComment text
      | take => exact gathers_empty

end Sheet

/-- Since all was taken the last time, a sheet holds exactly what was added, in
that order.  No rule is empty, and no two neighbours are rules for the same
selectors.  Adding a property starts a rule if nothing was added before it, or a
comment, or a property for other selectors.  All lists of definitions that hold
the same additions turn into this one by joining neighbouring rules, and it is
the only list that they all turn into. -/
theorem sheet_groups_additions (calls : List Sheet.Call) :
    let sheet := ({} : Sheet).after calls
    let added := Sheet.added calls
    sheet.toList.flatMap Definition.additions = added ∧
    sheet.toList.IsChain Definition.Apart ∧
    (∀ selectors properties, .rule selectors properties ∈ sheet.toList →
      properties ≠ []) ∧
    (∀ selectors property starts,
      (sheet.answer (.add (.property selectors property))).1 = .placed starts →
      (starts = true ↔
        added.getLast? = none ∨
          (∃ text, added.getLast? = some (.comment text)) ∨
          ∃ others earlier, added.getLast? = some (.property others earlier) ∧
            others ≠ selectors)) ∧
    (sheet.answer .take).1 = .taken sheet.toList ∧
    (∀ definitions, Groups added definitions → Joins definitions sheet.toList) ∧
    ∀ coarsest,
      (∀ definitions, Groups added definitions → Joins definitions coarsest) →
      coarsest = sheet.toList := by
  intro sheet added
  have gathers : sheet.Gathers added := Sheet.gathers_added calls
  refine ⟨gathers.groups.additions, gathers.apart,
    fun selectors properties member empty =>
      ?_, fun selectors property starts placed => ?_, rfl,
    fun definitions groups => .of_groups groups gathers.groups gathers.apart,
    fun coarsest joined => (joined _ gathers.groups).eq_of_apart gathers.apart⟩
  · refine gathers.groups.filled _ member ?_
    rw [empty]
    rfl
  · obtain rfl : _ = starts := Sheet.Reply.placed.inj placed
    exact gathers.startsRule_iff selectors

/-- Two properties that stand in rules of their own, after a comment, come to
share one. -/
theorem sheet_groups_additions_joined :
    let property : Property := { name := ['x'], value := ['1'] }
    let calls : List Sheet.Call :=
      [.add (.property [['b']] property), .take,
        .add (.property [['a']] property), .add (.comment ['c']),
          .add (.property [['a']] property),
        .add (.property [['a']] property)]
    let definitions : List Definition :=
      [.rule [['a']] [property], .comment ['c'], .rule [['a']] [property],
        .rule [['a']] [property]]
    Groups (Sheet.added calls) definitions ∧
      Joins definitions (({} : Sheet).after calls).toList := by
  intro property calls definitions
  have groups : Groups (Sheet.added calls) definitions := ⟨by decide, by decide⟩
  exact ⟨groups, (sheet_groups_additions calls).2.2.2.2.2.1 definitions groups⟩

end Stylesheet
