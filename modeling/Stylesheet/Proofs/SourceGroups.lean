import Mathlib.Data.List.Lex
import Stylesheet.Proofs.Progress

/-!
# Groups of sources

Inclusions and conditions put text back, so neither the length of the pending
text nor the number of its sources goes down with every statement.  The sources
are therefore put together in groups: a group is what is left of the body of one
inclusion, with the branches chosen in it.  Every group but the lowest ends with
the brace that closes its inclusion and is settled before it (`Framed`).
-/

namespace Stylesheet

/-- `groups` puts neighbouring ones of `layers` together. -/
inductive Coarse : List Text → List Text → Prop where
  | nil : Coarse [] []
  | start {layers groups : List Text} (layer : Text) :
      Coarse layers groups → Coarse (layer :: layers) (layer :: groups)
  | join {group : Text} {layers groups : List Text} (layer : Text) :
      Coarse layers (group :: groups) →
        Coarse (layer :: layers) ((layer ++ group) :: groups)

theorem Coarse.length_le {layers groups : List Text}
    (coarse : Coarse layers groups) :
    groups.length ≤ layers.length := by
  induction coarse with
  | nil => exact Nat.le_refl _
  | start layer _ ih => simpa using ih
  | join layer _ ih =>
      simp only [List.length_cons] at ih ⊢
      omega

theorem Coarse.flatten_eq {layers groups : List Text}
    (coarse : Coarse layers groups) :
    groups.flatten = layers.flatten := by
  induction coarse with
  | nil => rfl
  | start layer _ ih => rw [List.flatten_cons, List.flatten_cons, ih]
  | join layer _ ih =>
      rw [List.flatten_cons, List.flatten_cons, ← ih, List.flatten_cons,
      List.append_assoc]

theorem Coarse.ne_nil {layers groups : List Text}
    (coarse : Coarse layers groups) (nonempty : layers ≠ []) : groups ≠ [] := by
  cases coarse with
  | nil => exact nonempty
  | start layer _ => simp
  | join layer _ => simp

theorem skip_cons {text : Text} {lower : List Text} (nonempty : lower ≠ [])
    (count : Nat) :
    skip count (text :: lower) =
      if count < text.length then text.drop count :: lower
      else skip (count - text.length) lower := by
  obtain ⟨next, others, rfl⟩ := List.exists_cons_of_ne_nil nonempty
  rfl

theorem skip_append_of_lt {first second : Text}
    {lower : List Text} {count : Nat} (within : count < first.length) :
    skip count ((first ++ second) :: lower) =
      (first.drop count ++ second) :: lower := by
  have dropped : (first ++ second).drop count = first.drop count ++ second :=
    List.drop_append_of_le_length (Nat.le_of_lt within)
  cases lower with
  | nil => rw [skip, dropped]
  | cons next lower =>
      rw [skip, if_pos (by rw [List.length_append]; omega), dropped]

theorem skip_append_of_le {first second : Text}
    {lower : List Text} {count : Nat} (beyond : first.length ≤ count) :
    skip count ((first ++ second) :: lower) =
      skip (count - first.length) (second :: lower) := by
  have dropped : (first ++ second).drop count =
      second.drop (count - first.length) := by
    rw [List.drop_append, List.drop_eq_nil_of_le beyond, List.nil_append]
  cases lower with
  | nil => rw [skip, skip, dropped]
  | cons next lower =>
      rw [skip, skip, List.length_append, dropped]
      by_cases within : count < first.length + second.length
      · rw [if_pos within, if_pos (by omega)]
      · rw [if_neg within, if_neg (by omega)]
        congr 1
        omega

/-- Passing text keeps the division. -/
theorem Coarse.skip {layers groups : List Text} (coarse : Coarse layers groups)
    (count : Nat) :
    Coarse (skip count layers) (skip count groups) := by
  induction coarse generalizing count with
  | nil => exact .nil
  | @start layers groups layer lower ih =>
      by_cases empty : layers = []
      · subst empty
        cases lower
        exact .start _ .nil
      · rw [skip_cons empty, skip_cons (lower.ne_nil empty)]
        split
        · exact .start _ lower
        · exact ih _
  | @join group layers groups layer lower ih =>
      have nonempty : layers ≠ [] := by
        rintro rfl
        cases lower
      rw [skip_cons nonempty]
      split
      · rename_i within
        rw [skip_append_of_lt within]
        exact .join _ lower
      · rename_i beyond
        rw [skip_append_of_le (Nat.le_of_not_lt beyond)]
        exact ih _

/-- Every group but the lowest is settled up to the brace that it ends with. -/
def Framed : List Text → Prop
  | [] => True
  | [_] => True
  | group :: next :: lower =>
      (∃ contents, Settled contents ∧ group = contents ++ ['}']) ∧
        Framed (next :: lower)

theorem Framed.cons {contents : Text} {lower : List Text}
    (framed : Framed lower) (settled : Settled contents) :
    Framed ((contents ++ ['}']) :: lower) := by
  cases lower with
  | nil => trivial
  | cons next lower => exact ⟨⟨contents, settled, rfl⟩, framed⟩

theorem Framed.skip_zero {groups : List Text} (framed : Framed groups) :
    skip 0 groups = groups := by
  match groups, framed with
  | [], _ => rfl
  | [_], _ => rfl
  | group :: next :: lower, framed =>
      obtain ⟨contents, -, rfl⟩ := framed.1
      rw [skip, if_pos (by simp)]
      rfl

/-- The sizes of groups, the lowest first. -/
def sizes (groups : List Text) : List Nat :=
  (groups.map List.length).reverse

theorem sizes_cons (group : Text) (lower : List Text) :
    sizes (group :: lower) = sizes lower ++ [group.length] := by
  simp [sizes]

theorem sizes_append (upper lower : List Text) :
    sizes (upper ++ lower) = sizes lower ++ sizes upper := by
  simp [sizes]

/-- A text in front of others is taken in part, without its last brace, or used
up. -/
theorem taken_in_part_or_whole {contents others taken rest : Text}
    (whole : (contents ++ ['}']) ++ others = taken ++ rest) :
    (∃ more, contents = taken ++ more) ∨ ∃ later,
      taken = (contents ++ ['}']) ++ later := by
  rcases List.append_eq_append_iff.mp whole with ⟨later, same, -⟩
    | ⟨left, same, -⟩
  · exact .inr ⟨later, same⟩
  · rcases List.eq_nil_or_concat' left with rfl | ⟨more, last, rfl⟩
    · exact .inr
        ⟨[], by rw [List.append_nil] at same; rw [same, List.append_nil]⟩
    · refine .inl ⟨more, ?_⟩
      rw [← List.append_assoc] at same
      exact (List.append_inj' same rfl).1

/-- Where passing `taken` leads to: the groups `used` are used up, and of the
next one `left` is left. -/
structure Located (groups : List Text) (taken : Text) (used : List Text)
    (part left : Text) (lower : List Text) : Prop where
  groups_eq : groups = used ++ (part ++ left) :: lower
  taken_eq : taken = used.flatten ++ part
  braces : ∀ group ∈ used, group.getLast? = some '}'
  framed : Framed (left :: lower)
  skip_eq : skip taken.length groups = left :: lower

theorem Framed.located {groups : List Text} {taken rest : Text}
    (framed : Framed groups) (nonempty : groups ≠ [])
    (whole : groups.flatten = taken ++ rest) (shut : Shut taken) :
    ∃ used part left lower, Located groups taken used part left lower := by
  induction groups generalizing taken with
  | nil => exact absurd rfl nonempty
  | cons group below ih =>
      cases below with
      | nil =>
          have same : group = taken ++ rest := by simpa using whole
          refine
            ⟨[], taken, rest, [], by simp [same], by simp, by simp, trivial, ?_⟩
          simp [skip, same]
      | cons next lower =>
          obtain ⟨⟨contents, settled, rfl⟩, framedBelow⟩ := framed
          have split := whole
          rw [List.flatten_cons] at split
          rcases taken_in_part_or_whole split with ⟨more, rfl⟩ | ⟨later, rfl⟩
          · refine ⟨[], taken, more ++ ['}'], next :: lower, by simp,
              by
              simp, by
                simp, ⟨⟨more, settled.suffix shut, rfl⟩, framedBelow⟩, ?_⟩
            rw [skip, if_pos (by simp), List.append_assoc, List.drop_left]
          · have shutGroup : Shut (contents ++ ['}']) :=
              settled.shut.append (shut_singleton rfl)
            have remaining : (next :: lower).flatten = later ++ rest := by
              rw [List.append_assoc _ later] at split
              exact List.append_cancel_left split
            obtain ⟨used, part, left, deeper, located⟩ :=
              ih framedBelow (by simp) remaining (shut.tail shutGroup)
            refine ⟨(contents ++ ['}']) :: used, part, left, deeper, ?_, ?_, ?_,
              located.framed, ?_⟩
            · rw [located.groups_eq, List.cons_append]
            · rw [located.taken_eq, List.flatten_cons,
                List.append_assoc _ used.flatten]
            · intro group member
              rcases List.mem_cons.mp member with rfl | member
              · simp
              · exact located.braces group member
            · rw [skip, if_neg (by simp), ← located.skip_eq]
              congr 1
              simp only [List.length_append]
              omega

/-- If some of a group is taken, its size goes down, whatever is put on top. -/
theorem Located.shrinks {groups used lower : List Text} {taken part left : Text}
    (located : Located groups taken used part left lower) (some : part ≠ [])
    (extra : List Nat) :
    List.Lex (· < ·) (sizes (left :: lower) ++ extra) (sizes groups) := by
  have smaller : left.length < (part ++ left).length := by
    have positive := List.length_pos_iff.mpr some
    rw [List.length_append]
    omega
  rw [located.groups_eq, sizes_append, sizes_cons, sizes_cons,
    List.append_assoc, List.append_assoc]
  exact List.Lex.append_left _ (.rel smaller) _

theorem Located.passed {groups used lower : List Text} {taken part left : Text}
    (located : Located groups taken used part left lower) (some : taken ≠ []) :
    List.Lex (· < ·) (sizes (left :: lower)) (sizes groups) := by
  by_cases whole : part = []
  · obtain ⟨upper, last, same⟩ : ∃ upper last, used = upper ++ [last] := by
      rcases List.eq_nil_or_concat' used with rfl | ⟨upper, last, same⟩
      · exact absurd (by rw [located.taken_eq, whole]; rfl) some
      · exact ⟨upper, last, same⟩
    rw [located.groups_eq, whole, List.nil_append, sizes_append,
      same, sizes_append]
    have longer := List.Lex.append_left (· < ·)
      (List.Lex.nil : List.Lex (· < ·) [] ([last.length] ++ sizes upper))
        (sizes (left :: lower))
    rw [List.append_nil] at longer
    exact longer
  · have shorter := located.shrinks whole []
    rwa [List.append_nil] at shorter

/-- What does not end with a brace does not end with a group. -/
theorem Located.part_ne_nil {groups used lower : List Text}
    {taken part left : Text}
    (located : Located groups taken used part left lower) (some : taken ≠ [])
    (loose : Loose taken) : part ≠ [] := by
  intro whole
  rcases List.eq_nil_or_concat' used with rfl | ⟨upper, last, rfl⟩
  · exact some (by rw [located.taken_eq, whole]; rfl)
  · have brace := located.braces last (by simp)
    refine loose.last ?_
    rw [located.taken_eq, whole, List.append_nil, List.flatten_append,
      List.getLast?_append]
    simp [brace]

/-- In a settled text, a brace at the start is closed, and what follows it
closes no other brace than its own before the text ends. -/
theorem chosen_within_settled {more body tail others rest : Text}
    (settled : Settled more)
    (whole : more ++ '}' :: others = '{' :: body ++ '}' :: tail ++ rest)
    (cut : spanGroup '{' '}' 0 .outside (body ++ '}' :: tail ++ rest) =
      some body)
    (kept : Contained tail) :
    ∃ remaining, more = ('{' :: body ++ '}' :: tail) ++ remaining ∧
      Settled (body ++ remaining) := by
  cases more with
  | nil => simp at whole
  | cons c inner =>
      simp only [List.cons_append, List.cons.injEq] at whole
      obtain ⟨rfl, within⟩ := whole
      have closed : Bracing.after ⟨.outside, 0 + 1⟩ inner = {} := settled
      obtain ⟨contents, after, rfl, found⟩ := spanGroup_of_closed closed
      obtain rfl : contents = body := by
        have same := found ('}' :: others)
        rw [within, cut] at same
        exact (Option.some.inj same).symm
      obtain ⟨settledBody, -⟩ := spanGroup_braces cut
      have rest_eq : after ++ '}' :: others = tail ++ rest := by
        simpa using within
      have settledAfter : Settled after := by
        have parts : '{' :: (contents ++ '}' :: after) =
            ('{' :: contents ++ ['}']) ++ after := by simp
        rw [parts] at settled
        exact settled.suffix (contained_group cut).shut
      rcases taken_in_part_or_whole (by simpa using rest_eq) with
        ⟨remaining, rfl⟩ | ⟨later, rfl⟩
      · exact ⟨remaining, by simp,
          Settled.append settledBody (settledAfter.suffix kept.shut)⟩
      · have braces := kept.braces
        rw [List.append_assoc, List.singleton_append, settledAfter.not_contains]
          at braces
        simp at braces

/-- A chosen body stands in one group together with what follows it. -/
theorem Framed.chosen {left body tail rest : Text} {lower : List Text}
    (framed : Framed (left :: lower))
    (whole : left ++ lower.flatten = '{' :: body ++ '}' :: tail ++ rest)
    (cut : spanGroup '{' '}' 0 .outside (body ++ '}' :: tail ++ rest) =
      some body)
    (kept : Contained tail) :
    ∃ remaining, left = ('{' :: body ++ '}' :: tail) ++ remaining ∧
      Framed ((body ++ remaining) :: lower) ∧
      skip ('{' :: body ++ '}' :: tail).length (left :: lower) =
        remaining :: lower := by
  cases lower with
  | nil =>
      rw [List.flatten_nil, List.append_nil] at whole
      refine ⟨rest, whole, trivial, ?_⟩
      rw [skip, whole, List.drop_left]
  | cons next lower =>
      obtain ⟨⟨more, settled, rfl⟩, framedLower⟩ := framed
      obtain ⟨remaining, rfl, settledBody⟩ :=
        chosen_within_settled settled (by simpa using whole) cut kept
      refine ⟨remaining ++ ['}'], by simp, ?_, ?_⟩
      · rw [← List.append_assoc]
        exact framedLower.cons settledBody
      · rw [skip, if_pos (by simp), List.append_assoc, List.drop_left]

theorem Located.chose {groups used lower : List Text}
    {lead part left body tail remaining : Text}
    (located : Located groups lead used part left lower)
    (inside : left = ('{' :: body ++ '}' :: tail) ++ remaining) :
    List.Lex (· < ·) (sizes ((body ++ remaining) :: lower)) (sizes groups) := by
  have smaller : (body ++ remaining).length < (part ++ left).length := by
    rw [inside]
    simp only [List.length_append, List.length_cons]
    omega
  rw [located.groups_eq, sizes_append, sizes_cons, sizes_cons,
    List.append_assoc]
  exact List.Lex.append_left _ (.rel smaller) _

end Stylesheet
