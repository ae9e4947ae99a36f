import Stylesheet.Finding
import Stylesheet.Proofs.MixinHistory

/-!
# Findings on mixins of a single file

A mixin keeps the number of its uses, the file of the first of them, and whether
all others were in that file or in its own.  The finding that a mixin is used in
a single file is read off these three, so it says this of the history: the first
use was in another file than the definition, and all later ones were in one of
these two files.  Uses in the mixin's own file pass unnoticed, except for the
first use.
-/

namespace Stylesheet

namespace Mixin

/-- The mixin has no parameters, and it is used twice or more, in one file that
is not its own. -/
structure ConfinedTo (mixin : Mixin) (file : Option Text)
    (uses : List (Option Text)) : Prop where
  plain : mixin.parameters = []
  repeated : 2 ≤ uses.length
  elsewhere : file ≠ mixin.file
  only : ∀ use ∈ uses, use = file

/-- The same, but after the first use the mixin may also be used in its own
file. -/
structure MainlyIn (mixin : Mixin) (file : Option Text)
    (uses : List (Option Text)) : Prop where
  plain : mixin.parameters = []
  repeated : 2 ≤ uses.length
  elsewhere : file ≠ mixin.file
  first : uses.head? = some file
  only : ∀ use ∈ uses, use = file ∨ use = mixin.file

section

variable {mixin : Mixin} {file : Option Text} {uses others : List (Option Text)}

theorem mainlyIn_iff_confinedTo (unused : mixin.file ∉ uses) :
    mixin.MainlyIn file uses ↔ mixin.ConfinedTo file uses := by
  constructor
  · intro mainly
    refine ⟨mainly.plain, mainly.repeated, mainly.elsewhere, ?_⟩
    intro use member
    apply (mainly.only use member).resolve_right
    rintro rfl
    exact unused member
  · intro confined
    refine ⟨confined.plain, confined.repeated, confined.elsewhere, ?_, ?_⟩
    · cases uses with
      | nil => exact absurd confined.repeated (by simp)
      | cons first later =>
          rw [List.head?_cons, confined.only first List.mem_cons_self]
    · intro use member
      exact .inl (confined.only use member)

theorem ConfinedTo.perm (confined : mixin.ConfinedTo file uses)
    (permuted : others.Perm uses) :
    mixin.ConfinedTo file others where
  plain := confined.plain
  repeated := permuted.length_eq ▸ confined.repeated
  elsewhere := confined.elsewhere
  only use member := confined.only use (permuted.mem_iff.mp member)

theorem MainlyIn.perm (mainly : mixin.MainlyIn file uses)
    (permuted : others.Perm uses) (same : others.head? = uses.head?) :
    mixin.MainlyIn file others where
  plain := mainly.plain
  repeated := permuted.length_eq ▸ mainly.repeated
  elsewhere := mainly.elsewhere
  first := same.trans mainly.first
  only use member := mainly.only use (permuted.mem_iff.mp member)

/-- The order of the uses matters only for which of them is the first, and not
even for that if the mixin is not used in its own file. -/
theorem mainlyIn_perm (permuted : others.Perm uses)
    (settled : others.head? = uses.head? ∨ mixin.file ∉ uses) :
    mixin.MainlyIn file others ↔ mixin.MainlyIn file uses := by
  rcases settled with same | unused
  · constructor
    · exact fun mainly => mainly.perm permuted.symm same.symm
    · exact fun mainly => mainly.perm permuted same
  · have absent : mixin.file ∉ others := unused ∘ permuted.mem_iff.mp
    rw [mainlyIn_iff_confinedTo unused, mainlyIn_iff_confinedTo absent]
    constructor
    · exact fun confined => confined.perm permuted.symm
    · exact fun confined => confined.perm permuted

end

end Mixin

namespace Mixins

theorem Indexed.mem_toList {mixins : Mixins} (indexed : mixins.Indexed)
    {mixin : Mixin} :
    mixin ∈ mixins.toList ↔ mixins.get? mixin.name = some mixin := by
  rw [get?]
  constructor
  · intro member
    obtain ⟨place, listed⟩ := List.mem_iff_getElem?.mp member
    have named : mixins.names[place]? = some mixin.name := by
      rw [names, List.getElem?_map, listed, Option.map_some]
    rw [(indexed mixin.name place).mpr named]
    exact listed
  · intro found
    obtain ⟨place, -, listed⟩ := Option.bind_eq_some_iff.mp found
    exact List.mem_of_getElem? listed

end Mixins

namespace Finding

/-- A mixin that was used less than twice is not found to be used in a single
file. -/
theorem ofMixin?_of_unrepeated {mixin : Mixin} {files : List (Option Text)}
    (unrepeated : files.length < 2) {name : Text}
    {usedIn definedIn : Option Text} :
    ofMixin? (mixin.usedFrom files) ≠
      some (.singleFileMixin name usedIn definedIn) := by
  match files with
  | [] => simp [ofMixin?, Mixin.usedFrom]
  | [file] =>
      by_cases own : file = mixin.file
      · simp [ofMixin?, Mixin.usedFrom, own]
      · simp [ofMixin?, Mixin.usedFrom, own]
  | _ :: _ :: later => exact absurd unrepeated (by simp)

private theorem ofMixin?_of_repeated {mixin : Mixin}
    {files : List (Option Text)} (repeated : 2 ≤ files.length) :
    ofMixin? (mixin.usedFrom files) =
      if (files.all fun file => files.head? == some file ||
          mixin.file == file) &&
          mixin.parameters.isEmpty && files.head?.join != mixin.file then
        some (.singleFileMixin mixin.name files.head?.join mixin.file)
      else none := by
  simp [ofMixin?, Mixin.usedFrom, Nat.not_lt.mpr repeated]

/-- What is reported on a mixin that was used in some files, one after the
other. -/
theorem ofMixin?_usedFrom {mixin : Mixin}
    {files : List (Option Text)} {name : Text}
    {usedIn definedIn : Option Text} :
    ofMixin? (mixin.usedFrom files) =
      some (.singleFileMixin name usedIn definedIn) ↔
      mixin.name = name ∧ mixin.file = definedIn ∧
        mixin.MainlyIn usedIn files := by
  by_cases repeated : 2 ≤ files.length
  · rw [ofMixin?_of_repeated repeated]
    obtain ⟨first, head⟩ : ∃ first, files.head? = some first := by
      cases files with
      | nil => simp at repeated
      | cons first later => exact ⟨first, rfl⟩
    simp only [head, Option.join_some, Option.some_beq_some,
      Option.ite_none_right_eq_some]
    simp only [Bool.and_eq_true, List.all_eq_true, Bool.or_eq_true, beq_iff_eq,
      List.isEmpty_iff, bne_iff_ne, Option.some.injEq,
      Finding.singleFileMixin.injEq]
    constructor
    · rintro ⟨⟨⟨only, plain⟩, elsewhere⟩, rfl, rfl, rfl⟩
      refine ⟨rfl, rfl, plain, repeated, elsewhere, head, ?_⟩
      intro use member
      exact (only use member).imp Eq.symm Eq.symm
    · rintro ⟨rfl, rfl, mainly⟩
      obtain rfl : first = usedIn :=
        Option.some.inj (head.symm.trans mainly.first)
      refine ⟨⟨⟨?_, mainly.plain⟩, mainly.elsewhere⟩, rfl, rfl, rfl⟩
      intro use member
      exact (mainly.only use member).imp Eq.symm Eq.symm
  · refine iff_of_false (ofMixin?_of_unrepeated (Nat.not_le.mp repeated)) ?_
    rintro ⟨-, -, mainly⟩
    exact repeated mainly.repeated

private theorem mem_check {mixins : Mixins} {scopes : Scopes} {name : Text}
    {usedIn definedIn : Option Text} :
    .singleFileMixin name usedIn definedIn ∈ check mixins scopes ↔
      ∃ mixin ∈ mixins.toList,
        ofMixin? mixin = some (.singleFileMixin name usedIn definedIn) := by
  simp [check]

/-- The finding in terms of the calls that were made. -/
theorem mem_check_after {history : Mixins.History}
    {scopes : Scopes} {name : Text} {usedIn definedIn : Option Text} :
    .singleFileMixin name usedIn definedIn ∈
      check (({} : Mixins).after history) scopes ↔
      ∃ mixin, history.latest? name = some mixin ∧ mixin.file = definedIn ∧
        mixin.MainlyIn usedIn (history.uses mixin) := by
  have follows := Mixins.follows_history history
  rw [mem_check]
  constructor
  · rintro ⟨used, member, reported⟩
    rw [follows.indexed.mem_toList, follows.get?] at member
    obtain ⟨mixin, latest, rfl⟩ := Option.map_eq_some_iff.mp member
    obtain ⟨rfl, defined, mainly⟩ := ofMixin?_usedFrom.mp reported
    exact ⟨mixin, latest, defined, mainly⟩
  · rintro ⟨mixin, latest, defined, mainly⟩
    obtain rfl := history.name_of_latest? name latest
    refine ⟨mixin.usedFrom (history.uses mixin), ?_,
      ofMixin?_usedFrom.mpr ⟨rfl, defined, mainly⟩⟩
    rw [follows.indexed.mem_toList, follows.get?]
    exact Option.map_eq_some_iff.mpr ⟨mixin, latest, rfl⟩

end Finding

/-- After any calls, a mixin is found to be used in a single file exactly if it
has no parameters and was included twice or more since its latest definition,
first from another file than that of the definition, and afterwards from one of
these two files only.  If it was not included from its own file, this means that
all inclusions came from one other file.  The order of the inclusions matters
only for which is the first, and not even for that if none of them came from the
mixin's own file. -/
theorem single_file_finding (history : Mixins.History)
    (scopes : Scopes) (name : Text) (usedIn definedIn : Option Text) :
    let Reported (history : Mixins.History) : Prop :=
      .singleFileMixin name usedIn definedIn ∈
        Finding.check (({} : Mixins).after history) scopes
    (Reported history ↔ ∃ mixin, history.latest? name = some mixin ∧
      mixin.file = definedIn ∧
      mixin.MainlyIn usedIn (history.uses mixin)) ∧
    ∀ mixin, history.latest? name = some mixin →
      (mixin.file ∉ history.uses mixin →
        (Reported history ↔
          mixin.file = definedIn ∧
            mixin.ConfinedTo usedIn (history.uses mixin))) ∧
      ∀ other : Mixins.History, other.latest? name = some mixin →
        (other.uses mixin).Perm (history.uses mixin) →
        (other.uses mixin).head? = (history.uses mixin).head? ∨
          mixin.file ∉ history.uses mixin →
        (Reported other ↔ Reported history) := by
  intro Reported
  have characterized (history : Mixins.History) : Reported history ↔ ∃ mixin,
      history.latest? name = some mixin ∧ mixin.file = definedIn ∧
        mixin.MainlyIn usedIn (history.uses mixin) :=
    Finding.mem_check_after
  have known {history : Mixins.History} {mixin : Mixin}
      (latest : history.latest? name = some mixin) : Reported history ↔
        mixin.file = definedIn ∧
          mixin.MainlyIn usedIn (history.uses mixin) := by
    simp only [characterized, latest, Option.some.injEq, exists_eq_left']
  refine ⟨characterized history, fun mixin latest => ⟨fun unused => ?_, ?_⟩⟩
  · rw [known latest, Mixin.mainlyIn_iff_confinedTo unused]
  · intro other defined permuted settled
    rw [known defined, known latest, Mixin.mainlyIn_perm permuted settled]

namespace FindingSample

/-- A mixin that is included first from another file, then from its own, and
then from the other file again. -/
def history : Mixins.History :=
  [.define ['m'] [] [] (some ['l']) 1, .expand ['m'] [] (some ['a']) {},
    .expand ['m'] [] (some ['l']) {}, .expand ['m'] [] (some ['a']) {}]

/-- The last two inclusions the other way round. -/
def swapped : Mixins.History :=
  [.define ['m'] [] [] (some ['l']) 1, .expand ['m'] [] (some ['a']) {},
    .expand ['m'] [] (some ['a']) {}, .expand ['m'] [] (some ['l']) {}]

/-- The inclusion from the mixin's own file is the first. -/
def ownFirst : Mixins.History :=
  [.define ['m'] [] [] (some ['l']) 1, .expand ['m'] [] (some ['l']) {},
    .expand ['m'] [] (some ['a']) {}, .expand ['m'] [] (some ['a']) {}]

def mixin : Mixin :=
  { name := ['m'], parameters := [], body := [], file := some ['l'], line := 1 }

end FindingSample

open FindingSample in
/-- A finding that does not depend on the order of the later inclusions. -/
theorem single_file_finding_swapped :
    history.latest? ['m'] = some mixin ∧ swapped.latest? ['m'] = some mixin ∧
    (swapped.uses mixin).Perm (history.uses mixin) ∧
    (swapped.uses mixin).head? = (history.uses mixin).head? ∧
    mixin.MainlyIn (some ['a']) (history.uses mixin) ∧
    .singleFileMixin ['m'] (some ['a']) (some ['l']) ∈
      Finding.check (({} : Mixins).after history) {} ∧
    .singleFileMixin ['m'] (some ['a']) (some ['l']) ∈
      Finding.check (({} : Mixins).after swapped) {} := by
  obtain ⟨reported, ordered⟩ :=
    single_file_finding history {} ['m'] (some ['a']) (some ['l'])
  have mainly : mixin.MainlyIn (some ['a']) (history.uses mixin) :=
    ⟨rfl, by decide, by decide, rfl, by decide⟩
  have permuted : (swapped.uses mixin).Perm (history.uses mixin) := by decide
  have found := reported.mpr ⟨mixin, rfl, rfl, mainly⟩
  exact ⟨rfl, rfl, permuted, rfl, mainly, found,
    ((ordered mixin rfl).2 swapped rfl permuted (.inl rfl)).mpr found⟩

open FindingSample in
/-- A mixin that is also included from its own file is reported all the same,
unless that inclusion comes first. -/
theorem own_file_unnoticed :
    Finding.check (({} : Mixins).after history) {} =
      [.singleFileMixin ['m'] (some ['a']) (some ['l'])] ∧
    (∀ file, ¬ mixin.ConfinedTo file (history.uses mixin)) ∧
    (ownFirst.uses mixin).Perm (history.uses mixin) ∧
    Finding.check (({} : Mixins).after ownFirst) {} = [] := by
  refine ⟨by decide, ?_, by decide, by decide⟩
  intro file confined
  exact confined.elsewhere (confined.only mixin.file (by decide)).symm

end Stylesheet
