import Mathlib.Data.List.Infix
import Stylesheet.Sheet.Render

/-!
# Debug markers in selectors

Whether a selector belongs to a debug rule depends on the occurrences of the
marker that count, while stripping the marker drops every occurrence.  Both read
the selector from left to right; here occurrences are places of the selector.
If the marker cannot overlap itself, the readers meet all of them, and what is
stripped is what the marker covers.  So exactly the counting occurrences are
dropped if there are no others, and only then.
-/

namespace Stylesheet

namespace Text

/-- The pattern stands behind the first `place` characters. -/
def StandsAt (pattern text : Text) (place : Nat) : Prop :=
  pattern <+: text.drop place

instance (pattern text : Text) : DecidablePred (StandsAt pattern text) :=
  fun place => inferInstanceAs (Decidable (pattern <+: text.drop place))

/-- No end of the pattern is also a beginning of it, so it cannot overlap
itself. -/
def Solid (pattern : Text) : Prop :=
  ∀ shift < pattern.length, 0 < shift → ¬ pattern.drop shift <+: pattern

instance (pattern : Text) : Decidable (Solid pattern) :=
  inferInstanceAs
    (Decidable
      (∀ shift < pattern.length, 0 < shift → ¬ pattern.drop shift <+: pattern))

/-- The character at `index` is part of an occurrence at one of the places. -/
def Occupied (pattern : Text) (places : Nat → Prop) (index : Nat) : Prop :=
  ∃ place ≤ index, index < place + pattern.length ∧ places place

instance (pattern : Text) (places : Nat → Prop) [DecidablePred places] :
    DecidablePred (Occupied pattern places) :=
  fun index => inferInstanceAs
    (Decidable (∃ place ≤ index, index < place + pattern.length ∧ places place))

/-- The text without the characters at some indices, where the first has the
index `index`. -/
def omitting (gone : Nat → Prop) [DecidablePred gone] :
    (index : Nat) → Text → Text
  | _, [] => []
  | index, c :: rest =>
      if gone index then omitting gone (index + 1) rest
      else c :: omitting gone (index + 1) rest

/-- The text without the occurrences of the pattern at some places. -/
def without (pattern : Text) (places : Nat → Prop) [DecidablePred places]
    (text : Text) : Text :=
  omitting (Occupied pattern places) 0 text

section

variable {pattern text : Text} {place : Nat}

theorem StandsAt.fits (stands : StandsAt pattern text place)
    (filled : pattern ≠ []) :
    place + pattern.length ≤ text.length := by
  have short := List.IsPrefix.length_le stands
  have long := List.length_pos_iff.mpr filled
  rw [List.length_drop] at short
  omega

private theorem StandsAt.getElem? (stands : StandsAt pattern text place)
    {offset : Nat} {c : Char} (there : pattern[offset]? = some c) :
    text[place + offset]? = some c := by
  obtain ⟨rest, same⟩ := stands
  have inside := (List.getElem?_eq_some_iff.mp there).1
  rw [← List.getElem?_drop, ← same, List.getElem?_append_left inside, there]

/-- An occurrence ends before the next one begins. -/
theorem Solid.apart (solid : Solid pattern) {first second : Nat}
    (stands : StandsAt pattern text first)
    (later : StandsAt pattern text second) (before : first < second) :
    first + pattern.length ≤ second := by
  by_contra! overlap
  have shifted : pattern.drop (second - first) <+: text.drop second := by
    have dropped := List.IsPrefix.drop stands (second - first)
    rwa [List.drop_drop, Nat.add_sub_cancel' before.le] at dropped
  apply solid (second - first) (by omega) (by omega)
  exact List.prefix_of_prefix_length_le shifted later (by simp)

end

/-- How a reader of occurrences stands at a place: the occurrences before it are
over up to `pending` characters, and these are part of one. -/
structure ReadTo (pattern text : Text) (place pending : Nat) : Prop where
  ended : ∀ start < place, StandsAt pattern text start →
    start + pattern.length ≤ place + pending
  free : ∀ start, place ≤ start → start < place + pending →
    ¬ StandsAt pattern text start
  inside : ∀ index, place ≤ index → index < place + pending →
    Occupied pattern (StandsAt pattern text) index

namespace ReadTo

variable {pattern text : Text} {place pending : Nat}

theorem start : ReadTo pattern text 0 0 where
  ended _ before := absurd before (Nat.not_lt_zero _)
  free _ _ before := absurd before (Nat.not_lt_zero _)
  inside _ _ before := absurd before (Nat.not_lt_zero _)

/-- Where nothing begins, the same holds of the occurrences up to the place
itself. -/
theorem ended_here (read : ReadTo pattern text place pending)
    (absent : ¬ StandsAt pattern text place) {start : Nat}
    (before : start ≤ place) (stands : StandsAt pattern text start) :
    start + pattern.length ≤ place + pending := by
  have other : start ≠ place := by
    rintro rfl
    exact absent stands
  exact read.ended start (by omega) stands

theorem skip (read : ReadTo pattern text place (pending + 1)) :
    ReadTo pattern text (place + 1) pending where
  ended start before stands := by
    have absent := read.free place le_rfl (by omega)
    have ended := read.ended_here absent (by omega) stands
    omega
  free start behind before := read.free start (by omega) (by omega)
  inside index behind before := read.inside index (by omega) (by omega)

theorem enter (read : ReadTo pattern text place 0) (solid : Solid pattern)
    (filled : pattern ≠ []) (stands : StandsAt pattern text place) :
    ReadTo pattern text (place + 1) (pattern.length - 1) := by
  have long := List.length_pos_iff.mpr filled
  refine ⟨?_, ?_, ?_⟩
  · intro start before standing
    rcases Nat.lt_succ_iff_lt_or_eq.mp before with earlier | rfl
    · have ended := read.ended start earlier standing
      omega
    · omega
  · intro start behind before standing
    have apart := solid.apart stands standing (by omega)
    omega
  · intro index behind before
    exact ⟨place, by omega, by omega, stands⟩

theorem pass (read : ReadTo pattern text place 0)
    (absent : ¬ StandsAt pattern text place) :
    ReadTo pattern text (place + 1) 0 where
  ended start before stands := by
    have ended := read.ended_here absent (by omega) stands
    omega
  free start behind before := by omega
  inside index behind before := by omega

private theorem not_occupied (read : ReadTo pattern text place 0)
    (absent : ¬ StandsAt pattern text place) :
    ¬ Occupied pattern (StandsAt pattern text) place := by
  rintro ⟨start, before, covers, stands⟩
  have ended := read.ended_here absent before stands
  omega

end ReadTo

section

variable {pattern text : Text}

theorem drop_succ_of_drop {place : Nat} {c : Char} {rest : Text}
    (behind : text.drop place = c :: rest) : text.drop (place + 1) = rest := by
  rw [← List.drop_drop, behind, List.drop_one, List.tail_cons]

private theorem eraseAfter_eq_omitting (solid : Solid pattern)
    (filled : pattern ≠ []) {place pending : Nat} {rest : Text}
    (behind : text.drop place = rest)
    (read : ReadTo pattern text place pending) :
    eraseAfter pattern pending rest =
      omitting (Occupied pattern (StandsAt pattern text)) place rest := by
  fun_induction eraseAfter pattern pending rest generalizing place with
  | case1 pending => rfl
  | case2 pending c rest ih =>
      have occupied := read.inside place le_rfl (by omega)
      rw [omitting, if_pos occupied]
      exact ih (drop_succ_of_drop behind) read.skip
  | case3 c rest found ih =>
      have stands : StandsAt pattern text place := by
        rw [StandsAt, behind]
        simpa [filled] using found
      have occupied : Occupied pattern (StandsAt pattern text) place :=
        ⟨place, le_rfl,
          Nat.lt_add_of_pos_right (List.length_pos_iff.mpr filled), stands⟩
      rw [omitting, if_pos occupied]
      exact ih (drop_succ_of_drop behind) (read.enter solid filled stands)
  | case4 c rest missing ih =>
      have absent : ¬ StandsAt pattern text place := by
        rw [StandsAt, behind]
        simpa [filled] using missing
      rw [omitting, if_neg (read.not_occupied absent)]
      exact congrArg _ (ih (drop_succ_of_drop behind) (read.pass absent))

/-- Erasing a pattern drops what its occurrences cover. -/
theorem erase_eq_without (solid : Solid pattern) (filled : pattern ≠ []) :
    erase pattern text = without pattern (StandsAt pattern text) text :=
  eraseAfter_eq_omitting solid filled rfl .start

end

section

variable {few many : Nat → Prop} [DecidablePred few] [DecidablePred many]

private theorem omitting_congr
    (same : ∀ index, few index ↔ many index) (start : Nat) (text : Text) :
    omitting few start text = omitting many start text := by
  induction text generalizing start with
  | nil => rfl
  | cons c rest ih => simp only [omitting, same start, ih]

theorem countP_omitting_cons (kind : Char → Bool) (start : Nat) (c : Char)
    (rest : Text) :
    (omitting few start (c :: rest)).countP kind =
      (omitting few (start + 1) rest).countP kind +
        if ¬ few start ∧ kind c = true then 1 else 0 := by
  rw [omitting]
  by_cases dropped : few start
  · rw [if_pos dropped, if_neg fun counted => counted.1 dropped]
    rfl
  · rw [if_neg dropped, List.countP_cons]
    simp only [dropped, not_false_eq_true, true_and]

theorem counted_le (kind : Char → Bool)
    (fewer : ∀ index, few index → many index) (index : Nat) (c : Char) :
    (if ¬ many index ∧ kind c = true then 1 else 0) ≤
      if ¬ few index ∧ kind c = true then 1 else 0 := by
  split
  · rename_i counted
    rw [if_pos ⟨counted.1 ∘ fewer index, counted.2⟩]
  · exact Nat.zero_le _

theorem countP_omitting_le (kind : Char → Bool)
    (fewer : ∀ index, few index → many index) (start : Nat) (text : Text) :
    (omitting many start text).countP kind ≤
      (omitting few start text).countP kind := by
  induction text generalizing start with
  | nil => exact le_rfl
  | cons c rest ih =>
      rw [countP_omitting_cons, countP_omitting_cons]
      exact Nat.add_le_add (ih (start + 1)) (counted_le kind fewer start c)

theorem countP_omitting_lt {kind : Char → Bool}
    (fewer : ∀ index, few index → many index) (start : Nat) {offset : Nat}
    {text : Text} {c : Char} (there : text[offset]? = some c)
    (counted : kind c = true) (gone : many (start + offset))
    (kept : ¬ few (start + offset)) :
    (omitting many start text).countP kind <
      (omitting few start text).countP kind := by
  induction text generalizing start offset with
  | nil => simp at there
  | cons head rest ih =>
      rw [countP_omitting_cons, countP_omitting_cons]
      cases offset with
      | zero =>
          obtain rfl : head = c := by simpa using there
          have later := countP_omitting_le kind fewer (start + 1) rest
          rw [if_neg fun stays => stays.1 gone, if_pos ⟨kept, counted⟩]
          exact Nat.lt_succ_of_le later
      | succ offset =>
          rw [← Nat.add_assoc, Nat.add_right_comm] at gone kept
          have later := ih (start + 1) (by simpa using there) gone kept
          exact Nat.add_lt_add_of_lt_of_le later
            (counted_le kind fewer start head)

end

/-- Only blanks are trimmed. -/
theorem countP_visible_trim (text : Text) :
    text.trim.countP (!isBlank ·) = text.countP (!isBlank ·) := by
  obtain ⟨before, after, blankBefore, blankAfter, whole⟩ := text.exists_trim
  have none_before : before.countP (!isBlank ·) = 0 :=
    List.countP_eq_zero.mpr fun c member => by simp [blankBefore c member]
  have none_after : after.countP (!isBlank ·) = 0 :=
    List.countP_eq_zero.mpr fun c member => by simp [blankAfter c member]
  have total := congrArg (List.countP (!isBlank ·)) whole
  rw [List.countP_append, List.countP_append, none_before, none_after] at total
  omega

end Text

namespace Options

open Text

/-- The marker stands at a place and counts there. -/
def CountsAt (marker selector : Text) (place : Nat) : Prop :=
  StandsAt marker selector place ∧
    endsMarker (selector.drop (place + marker.length)) = true

instance (marker selector : Text) : DecidablePred (CountsAt marker selector) :=
  fun place => inferInstanceAs (Decidable (StandsAt marker selector place ∧
    endsMarker (selector.drop (place + marker.length)) = true))

/-- The marker counts somewhere. -/
def Marked (marker selector : Text) : Prop :=
  ∃ place < selector.length, CountsAt marker selector place

instance (marker selector : Text) : Decidable (Marked marker selector) :=
  inferInstanceAs
    (Decidable (∃ place < selector.length, CountsAt marker selector place))

/-- The marker counts wherever it stands. -/
def AlwaysCounts (marker selector : Text) : Prop :=
  ∀ place < selector.length, StandsAt marker selector place →
    CountsAt marker selector place

instance (marker selector : Text) : Decidable (AlwaysCounts marker selector) :=
  inferInstanceAs (Decidable (∀ place < selector.length,
    StandsAt marker selector place → CountsAt marker selector place))

/-- The selector without the occurrences of the marker at some places and
without blanks at its ends, if anything is left. -/
def stripped (marker : Text) (places : Nat → Prop) [DecidablePred places]
    (selector : Text) :
    Option Text :=
  let rest := (without marker places selector).trim
  if rest.isEmpty then none else some rest

section

variable {marker selector : Text}

theorem CountsAt.lt_length {place : Nat}
    (counts : CountsAt marker selector place) (filled : marker ≠ []) :
    place < selector.length := by
  have long := List.length_pos_iff.mpr filled
  have short := counts.1.fits filled
  omega

/-- A reader that stands where the marker does not count can move on. -/
theorem exists_countsAt_succ {place : Nat}
    (uncounted : ¬ CountsAt marker selector place) :
    (∃ start ≥ place + 1, CountsAt marker selector start) ↔
      ∃ start ≥ place, CountsAt marker selector start := by
  refine ⟨fun ⟨start, later, counts⟩ => ⟨start, by omega, counts⟩, ?_⟩
  rintro ⟨start, later, counts⟩
  have other : start ≠ place := by
    rintro rfl
    exact uncounted counts
  exact ⟨start, by omega, counts⟩

private theorem markedAfter_iff (solid : Solid marker) (filled : marker ≠ [])
    {place pending : Nat} {rest : Text} (behind : selector.drop place = rest)
    (read : ReadTo marker selector place pending) :
    markedAfter marker pending rest = true ↔ ∃ start ≥ place,
      CountsAt marker selector start := by
  fun_induction markedAfter marker pending rest generalizing place with
  | case1 pending =>
      have ended : selector.length ≤ place := List.drop_eq_nil_iff.mp behind
      refine iff_of_false (by simp) ?_
      rintro ⟨start, later, counts⟩
      have short := counts.lt_length filled
      omega
  | case2 pending c rest ih =>
      rw [ih (drop_succ_of_drop behind) read.skip]
      exact exists_countsAt_succ fun counts =>
        read.free place le_rfl (by omega) counts.1
  | case3 c rest found ih =>
      have stands : StandsAt marker selector place := by
        rw [StandsAt, behind]
        exact List.isPrefixOf_iff_prefix.mp found
      rw [Bool.or_eq_true,
        ih (drop_succ_of_drop behind) (read.enter solid filled stands),
        ← behind, List.drop_drop]
      by_cases ends : endsMarker (selector.drop (place + marker.length)) = true
      · exact iff_of_true (.inl ends) ⟨place, le_rfl, stands, ends⟩
      · rw [or_iff_right ends]
        exact exists_countsAt_succ fun counts => ends counts.2
  | case4 c rest missing ih =>
      have absent : ¬ StandsAt marker selector place := by
        rw [StandsAt, behind]
        exact missing ∘ List.isPrefixOf_iff_prefix.mpr
      rw [ih (drop_succ_of_drop behind) (read.pass absent)]
      exact exists_countsAt_succ fun counts => absent counts.1

private theorem marked_iff (solid : Solid marker) (filled : marker ≠ []) :
    markedAfter marker 0 selector = true ↔ Marked marker selector := by
  rw [markedAfter_iff solid filled List.drop_zero .start]
  refine ⟨?_, ?_⟩
  · rintro ⟨place, -, counts⟩
    exact ⟨place, counts.lt_length filled, counts⟩
  · rintro ⟨place, -, counts⟩
    exact ⟨place, Nat.zero_le place, counts⟩

/-- No character of an occurrence that does not count is part of one that
does. -/
theorem not_occupied_of_not_counts (solid : Solid marker) {place offset : Nat}
    (stands : StandsAt marker selector place)
    (uncounted : ¬ CountsAt marker selector place)
    (inside : offset < marker.length) :
    ¬ Occupied marker (CountsAt marker selector) (place + offset) := by
  rintro ⟨start, before, covers, counts⟩
  rcases Nat.lt_trichotomy start place with earlier | rfl | later
  · have apart := solid.apart counts.1 stands earlier
    omega
  · exact uncounted counts
  · have apart := solid.apart stands counts.1 later
    omega

theorem occupied_of_counts {index : Nat}
    (occupied : Occupied marker (CountsAt marker selector) index) :
    Occupied marker (StandsAt marker selector) index := by
  obtain ⟨place, before, covers, counts⟩ := occupied
  exact ⟨place, before, covers, counts.1⟩

/-- Dropping all occurrences is dropping those that count if there are no
others. -/
theorem without_of_alwaysCounts (filled : marker ≠ [])
    (always : AlwaysCounts marker selector) :
    without marker (StandsAt marker selector) selector =
      without marker (CountsAt marker selector) selector := by
  refine omitting_congr (fun index => ⟨?_, occupied_of_counts⟩) 0 selector
  rintro ⟨place, before, covers, stands⟩
  have long := List.length_pos_iff.mpr filled
  have short := stands.fits filled
  exact ⟨place, before, covers, always place (by omega) stands⟩

/-- An occurrence that does not count makes a difference that can be seen. -/
theorem alwaysCounts_of_trim (solid : Solid marker) {c : Char}
    (member : c ∈ marker) (visible : isBlank c = false)
    (same : (without marker (StandsAt marker selector) selector).trim =
      (without marker (CountsAt marker selector) selector).trim) :
    AlwaysCounts marker selector := by
  intro place _ stands
  by_contra uncounted
  obtain ⟨offset, there⟩ := List.mem_iff_getElem?.mp member
  have inside := (List.getElem?_eq_some_iff.mp there).1
  have gone : Occupied marker (StandsAt marker selector) (place + offset) :=
    ⟨place, by omega, by omega, stands⟩
  have kept := not_occupied_of_not_counts solid stands uncounted inside
  have fewer :
      (without marker (StandsAt marker selector) selector).countP (!isBlank ·) <
      (without marker (CountsAt marker selector) selector).countP
        (!isBlank ·) := by
    rw [← Nat.zero_add (place + offset)] at gone kept
    exact countP_omitting_lt (fun _ => occupied_of_counts) 0
      (stands.getElem? there) (by simp [visible]) gone kept
  rw [← countP_visible_trim, same, countP_visible_trim] at fewer
  exact Nat.lt_irrefl _ fewer

private theorem stripped_inj {first second : Nat → Prop} [DecidablePred first]
    [DecidablePred second]
    (same : stripped marker first selector = stripped marker second selector) :
    (without marker first selector).trim =
      (without marker second selector).trim := by
  unfold stripped at same
  grind

end

private theorem filterSelector_eq {options : Options}
    (keep : options.keepDebugStyle = true) (filled : options.debugSelector ≠ [])
    (solid : Solid options.debugSelector) (selector : Text) :
    options.filterSelector selector =
      if Marked options.debugSelector selector then
        stripped options.debugSelector (StandsAt options.debugSelector selector)
          selector
      else some selector := by
  have debug : options.isDebug selector = true ↔
      Marked options.debugSelector selector := by
    simp [isDebug, filled, marked_iff solid filled]
  unfold filterSelector
  by_cases marked : Marked options.debugSelector selector
  · rw [debug.mpr marked, keep, erase_eq_without solid filled, if_pos marked]
    rfl
  · rw [Bool.eq_false_iff.mpr (marked ∘ debug.mp), if_neg marked]
    rfl

end Options

/-- If debug styles are kept and the marker cannot overlap itself, a selector in
which it counts somewhere is written without all its occurrences, and any other
as it is.  If the marker counts wherever it stands in such a selector, exactly
the occurrences that count are left out.  A marker that is not blank has to
count wherever it stands for that. -/
theorem debug_markers_stripped (options : Options)
    (keep : options.keepDebugStyle = true) (filled : options.debugSelector ≠ [])
    (solid : Text.Solid options.debugSelector) :
    let marker := options.debugSelector
    (∀ selectors : List Text, options.filterSelectors selectors =
      selectors.filterMap fun selector =>
        if Options.Marked marker selector then
          Options.stripped marker (Text.StandsAt marker selector) selector
        else some selector) ∧
    (∀ selectors : List Text, (∀ selector ∈ selectors,
        Options.Marked marker selector → Options.AlwaysCounts marker selector) →
      options.filterSelectors selectors =
        selectors.filterMap fun selector =>
          if Options.Marked marker selector then
            Options.stripped marker (Options.CountsAt marker selector) selector
          else some selector) ∧
    ((∃ c ∈ marker, isBlank c = false) → ∀ selector,
      Options.Marked marker selector →
      (options.filterSelector selector =
          Options.stripped marker (Options.CountsAt marker selector) selector ↔
        Options.AlwaysCounts marker selector)) := by
  intro marker
  have each := Options.filterSelector_eq keep filled solid
  have same {selector : Text} (always : Options.AlwaysCounts marker selector) :
      Options.stripped marker (Text.StandsAt marker selector) selector =
        Options.stripped marker (Options.CountsAt marker selector)
          selector := by
    rw [Options.stripped, Options.stripped,
      Options.without_of_alwaysCounts filled always]
  refine ⟨fun selectors => List.filterMap_congr
    fun selector _ => each selector, ?_, ?_⟩
  · intro selectors always
    apply List.filterMap_congr
    intro selector member
    rw [each selector]
    split
    · rename_i marked
      exact same (always selector member marked)
    · rfl
  · rintro ⟨c, present, visible⟩ selector marked
    rw [each selector, if_pos marked]
    refine ⟨fun equal => ?_, same⟩
    exact Options.alwaysCounts_of_trim solid present visible
      (Options.stripped_inj equal)

/-- A selector with two markers, one with a look-alike only, and one that is
just a marker. -/
theorem debug_markers_stripped_sample :
    let options : Options := { keepDebugStyle := true }
    let selectors :=
      ["p#debug.x #debug".toList, "#debugger".toList, "#debug".toList]
    Text.Solid options.debugSelector ∧
    (∀ selector ∈ selectors, Options.Marked options.debugSelector selector →
      Options.AlwaysCounts options.debugSelector selector) ∧
    options.filterSelectors selectors = ["p.x".toList, "#debugger".toList] := by
  intro options selectors
  have solid : Text.Solid options.debugSelector := by decide
  have always : ∀ selector ∈ selectors,
      Options.Marked options.debugSelector selector →
      Options.AlwaysCounts options.debugSelector selector := by decide +kernel
  have written :=
    (debug_markers_stripped options rfl (by decide) solid).2.1 selectors always
  refine ⟨solid, always, written.trans ?_⟩
  decide +kernel

/-- The look-alike in a debug selector is cut, though only the marker behind it
counts. -/
theorem look_alike_cut :
    let options : Options := { keepDebugStyle := true }
    let selector := "#debugger #debug".toList
    Text.Solid options.debugSelector ∧
      Options.Marked options.debugSelector selector ∧
    options.filterSelectors [selector] = ["ger".toList] ∧
    Options.stripped options.debugSelector
      (Options.CountsAt options.debugSelector selector)
      selector = some "#debugger".toList := by
  decide +kernel

end Stylesheet
