import Mathlib.Data.List.Basic
import Mathlib.Data.List.Induction
import Stylesheet.Proofs.FileSystems
import Stylesheet.Watch

/-!
# Watched places

The places of a watch stand in strict order, so it is a set in spite of being a
list.  Moving a watch to some paths leaves exactly the places that these lead
to, whatever was watched before: a canonical path leads to its own place.
-/

namespace Stylesheet

instance lawfulEqCmp_code : Std.LawfulEqCmp (compareOn Char.toNat) where
  eq_of_compare same := Char.toNat_inj.mp (Nat.compare_eq_eq.mp same)

instance : Std.TransCmp Text.compare :=
  inferInstanceAs (Std.TransCmp (List.compareLex (compareOn Char.toNat)))

instance : Std.LawfulEqCmp Text.compare :=
  inferInstanceAs (Std.LawfulEqCmp (List.compareLex (compareOn Char.toNat)))

instance : Std.TransCmp FileName.compare where
  eq_swap {first second} :=
    @Std.OrientedCmp.eq_swap _ Text.compare _ first.text second.text
  isLE_trans {first second third} :=
    @Std.TransCmp.isLE_trans _ Text.compare _ first.text second.text third.text

instance : Std.LawfulEqCmp FileName.compare where
  eq_of_compare {first second} same := by
    have texts : first.text = second.text := Std.LawfulEqCmp.eq_of_compare same
    cases first
    cases second
    cases texts
    rfl

namespace Place

instance : Std.TransCmp compare :=
  inferInstanceAs (Std.TransCmp (List.compareLex FileName.compare))

instance : Std.LawfulEqCmp compare :=
  inferInstanceAs (Std.LawfulEqCmp (List.compareLex FileName.compare))

/-- Places in strict order, so that none stands twice. -/
def Ordered (places : List Place) : Prop :=
  places.Pairwise (compare · · = .lt)

@[simp] theorem mem_insert {place other : Place} {places : List Place} :
    other ∈ insert place places ↔ other = place ∨ other ∈ places := by
  induction places with
  | nil => simp [insert]
  | cons first rest ih =>
      unfold insert
      split
      · exact List.mem_cons
      · rename_i same
        rw [Std.LawfulEqCmp.eq_of_compare same, List.mem_cons, ← or_assoc,
          or_self]
      · rw [List.mem_cons, ih, List.mem_cons, or_left_comm]

theorem Ordered.insert {places : List Place} (ordered : Ordered places)
    (place : Place) : Ordered (insert place places) := by
  induction places with
  | nil => exact List.pairwise_singleton _ _
  | cons first rest ih =>
      obtain ⟨before, later⟩ := List.pairwise_cons.mp ordered
      unfold Place.insert
      split
      · rename_i less
        refine List.pairwise_cons.mpr ⟨fun other member => ?_, ordered⟩
        rcases List.mem_cons.mp member with rfl | behind
        · exact less
        · exact Std.TransCmp.lt_trans less (before other behind)
      · exact ordered
      · rename_i greater
        refine List.pairwise_cons.mpr ⟨fun other member => ?_, ih later⟩
        rcases mem_insert.mp member with rfl | behind
        · exact Std.OrientedCmp.lt_of_gt greater
        · exact before other behind

end Place

namespace Watch

variable {watch : Watch} {system : FileSystem} {paths : List Text}
  {place other : Place}

theorem mem_addPlace :
    other ∈ (watch.addPlace place).places ↔
      other = place ∨ other ∈ watch.places :=
  Place.mem_insert

theorem mem_wanted : place ∈ wanted system paths ↔
    ∃ path ∈ paths, system.canonical path = .ok place := by
  induction paths using List.reverseRecOn with
  | nil => simp [wanted]
  | append_singleton paths path ih =>
      have last :
          (∃ other ∈ paths ++ [path], system.canonical other = .ok place) ↔
            place ∈ wanted system paths ∨
              system.canonical path = .ok place := by
        rw [ih]
        simp only [List.mem_append, List.mem_singleton, or_and_right, exists_or,
          exists_eq_left]
      rw [last]
      cases found : system.canonical path with
      | ok target =>
          have added : wanted system (paths ++ [path]) =
              Place.insert target (wanted system paths) := by
            simp [wanted, found]
          rw [added, Place.mem_insert, Except.ok.injEq, or_comm, eq_comm]
      | error fault =>
          have same : wanted system (paths ++ [path]) =
              wanted system paths := by
            simp [wanted, found]
          rw [same, or_iff_left (by simp)]

/-- The places of the watch are in strict order. -/
def Ordered (watch : Watch) : Prop :=
  Place.Ordered watch.places

theorem Ordered.addPlace (ordered : watch.Ordered) (place : Place) :
    (watch.addPlace place).Ordered :=
  Place.Ordered.insert ordered place

theorem Ordered.add {added : Watch} {path : Text} (ordered : watch.Ordered)
    (done : watch.add system path = .ok added) : added.Ordered := by
  unfold Watch.add at done
  split at done
  · rw [← Except.ok.inj done]
    exact ordered.addPlace _
  · contradiction

theorem Ordered.filter (ordered : watch.Ordered) (keep : Place → Bool) :
    Ordered ⟨watch.places.filter keep⟩ :=
  List.Pairwise.filter keep ordered

theorem Ordered.remove (ordered : watch.Ordered) (path : Text) :
    (watch.remove system path).Ordered := by
  unfold Watch.remove
  split
  · exact ordered.filter _
  · exact ordered.filter _

/-- The watch with the canonical paths of some places, as far as these can be
watched. -/
def addAll (watch : Watch) (system : FileSystem)
    (places : List Place) : Watch :=
  places.foldl (fun watch place =>
    match watch.add system place.path with
    | .ok watch => watch
    | .error _ => watch) watch

private theorem sync_eq : watch.sync system paths =
    addAll ⟨watch.places.filter (wanted system paths).contains⟩ system
      (wanted system paths) :=
  rfl

theorem Ordered.addAll (ordered : watch.Ordered) (places : List Place) :
    (watch.addAll system places).Ordered := by
  induction places generalizing watch with
  | nil => exact ordered
  | cons place places ih =>
      apply ih
      dsimp only
      split
      · rename_i added done
        exact ordered.add done
      · exact ordered

theorem Ordered.sync (ordered : watch.Ordered) :
    (watch.sync system paths).Ordered :=
  (ordered.filter _).addAll _

theorem mem_addAll {places : List Place}
    (canonical : ∀ place ∈ places, system.canonical place.path = .ok place) :
    place ∈ (watch.addAll system places).places ↔
      place ∈ places ∨ place ∈ watch.places := by
  induction places generalizing watch with
  | nil => simp [addAll]
  | cons first rest ih =>
      have added : watch.addAll system (first :: rest) =
          (watch.addPlace first).addAll system rest := by
        simp only [addAll, List.foldl_cons, add,
          canonical first List.mem_cons_self]
      rw [added, ih fun place member => canonical place (.tail _ member),
        mem_addPlace, List.mem_cons, or_left_comm, or_assoc]

/-- A watch that is moved holds just the places of the paths that lead
somewhere. -/
theorem mem_sync {node? : Text → Option Node} (shows : system.Shows node?) :
    place ∈ (watch.sync system paths).places ↔
      ∃ path ∈ paths, system.canonical path = .ok place := by
  have canonical (place : Place) (member : place ∈ wanted system paths) :
      system.canonical place.path = .ok place := by
    obtain ⟨path, -, led⟩ := mem_wanted.mp member
    exact shows.idempotent path place led
  rw [sync_eq, mem_addAll canonical, ← mem_wanted]
  simp only [List.mem_filter, List.contains_iff_mem]
  exact ⟨fun member => member.elim id And.right, .inl⟩

end Watch

end Stylesheet
