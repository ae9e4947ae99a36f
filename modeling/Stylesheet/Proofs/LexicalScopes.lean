import Mathlib.Data.List.Nodup
import Mathlib.Data.List.Forall2
import Stylesheet.Proofs.Effect

/-!
# Lexical scoping

The scopes of a compilation are maps from names to places in one store that only
ever grows.  A naive account has no store: a scope is a map from names to
bindings, and what is done to a binding is done where it stands.  Whatever is
asked of the scopes, they answer as the naive stack does, because every place in
an open scope is in the store, no two of them are the same, and the places of an
inner scope are later than those of the scopes around it.
-/

namespace Stylesheet

/-- A scope that holds its bindings, at most one for each name and the newest
first. -/
abbrev Table := List Binding

namespace Table

def find? (table : Table) (name : Text) : Option Binding :=
  List.find? (fun binding => binding.name == name) table

/-- Adds a binding, in place of what its name was bound to. -/
def put (table : Table) (binding : Binding) : Table :=
  binding :: table.filter (·.name != binding.name)

/-- Counts one more reading of a name. -/
def count (table : Table) (name : Text) : Table :=
  table.map fun binding =>
    if binding.name == name then { binding with uses := binding.uses + 1 }
    else binding

end Table

/-- The open scopes, the innermost first. -/
abbrev Tables := List Table

namespace Tables

/-- The binding of a name in the innermost scope that has one. -/
def find? (tables : Tables) (name : Text) : Option Binding :=
  tables.findSome? (·.find? name)

/-- Closes the innermost scope, unless it is the last one. -/
def pop : Tables → Except Error Tables
  | _ :: next :: lower => .ok (next :: lower)
  | _ => .error .noBlockOpen

/-- Defines a variable in the innermost scope.  A `!default` definition is
refused if the visible binding is a plain one. -/
def define (tables : Tables) (name value : Text) (isDefault : Bool) :
    Bool × Tables :=
  if isDefault && (tables.find? name).any (!·.fromDefault) then (false, tables)
  else
    (true, tables.modifyHead (·.put { name, value, fromDefault := isDefault }))

/-- Counts a reading in the innermost scope that has the name. -/
def count (name : Text) : Tables → Tables
  | [] => []
  | table :: lower =>
      if (table.find? name).isSome then table.count name :: lower
      else table :: count name lower

/-- The bindings of the outermost scope that were not read, in the order of
creation. -/
def unused (tables : Tables) : List Binding :=
  ((tables.getLastD []).filter (·.uses == 0)).reverse

end Tables

namespace Scopes

/-- What can be asked of scopes. -/
inductive Access where
  | push
  | pop
  | define (name value : Text) (isDefault : Bool)
  | resolve (name : Text)
  | get (name : Text)
  | contains (name : Text)
  | unused
  deriving DecidableEq, Repr

inductive Reply where
  | done
  | failed (error : Error)
  | verdict (holds : Bool)
  | value (text : Text)
  | binding (found : Option Binding)
  | bindings (found : List Binding)

def answer (scopes : Scopes) : Access → Reply × Scopes
  | .push => (.done, scopes.push)
  | .pop =>
      match Scopes.pop scopes with
      | .ok () popped => (.done, popped)
      | .error error left => (.failed error, left)
  | .define name value isDefault =>
      let (taken, defined) := scopes.define name value isDefault
      (.verdict taken, defined)
  | .resolve name =>
      match read name scopes with
      | .ok value counted => (.value value, counted)
      | .error error counted => (.failed error, counted)
  | .get name => (.binding (scopes.get? name), scopes)
  | .contains name => (.verdict (scopes.contains name), scopes)
  | .unused => (.bindings scopes.unused, scopes)

def after (scopes : Scopes) (accesses : List Access) : Scopes :=
  accesses.foldl (fun scopes access => (scopes.answer access).2) scopes

def replies (scopes : Scopes) : List Access → List Reply
  | [] => []
  | access :: later =>
      (scopes.answer access).1 :: (scopes.answer access).2.replies later

end Scopes

namespace Tables

open Scopes (Access Reply)

def answer (tables : Tables) : Access → Reply × Tables
  | .push => (.done, [] :: tables)
  | .pop =>
      match tables.pop with
      | .ok popped => (.done, popped)
      | .error error => (.failed error, tables)
  | .define name value isDefault =>
      let (taken, defined) := tables.define name value isDefault
      (.verdict taken, defined)
  | .resolve name =>
      match tables.find? name with
      | some binding => (.value binding.value, tables.count name)
      | none => (.failed (.undefinedVariable name), tables)
  | .get name => (.binding (tables.find? name), tables)
  | .contains name => (.verdict (tables.find? name).isSome, tables)
  | .unused => (.bindings tables.unused, tables)

def after (tables : Tables) (accesses : List Access) : Tables :=
  accesses.foldl (fun tables access => (tables.answer access).2) tables

def replies (tables : Tables) : List Access → List Reply
  | [] => []
  | access :: later =>
      (tables.answer access).1 :: replies (tables.answer access).2 later

end Tables

namespace Frame

/-- The bindings that the places of a frame stand for. -/
def table (bindings : Array Binding) (frame : Frame) : Table :=
  frame.filterMap fun entry => bindings[entry.2]?

/-- A binding for every entry, under its name. -/
def Named (bindings : Array Binding) (frame : Frame) : Prop :=
  ∀ entry ∈ frame, ∃ binding, bindings[entry.2]? = some binding ∧
    binding.name = entry.1

variable {bindings : Array Binding} {frame : Frame} {name : Text}

theorem Named.place_lt (named : Named bindings frame) {entry : Text × Nat}
    (member : entry ∈ frame) : entry.2 < bindings.size := by
  obtain ⟨binding, found, -⟩ := named entry member
  exact (Array.getElem?_eq_some_iff.mp found).1

theorem mem_of_lookup {place : Nat} (looked : frame.lookup name = some place) :
    (name, place) ∈ frame := by
  obtain ⟨before, after, rfl, -⟩ := List.lookup_eq_some_iff.mp looked
  simp

theorem Named.find? (named : Named bindings frame) (name : Text) :
    (frame.table bindings).find? name =
      (frame.lookup name).bind (bindings[·]?) := by
  induction frame with
  | nil => rfl
  | cons entry frame ih =>
      obtain ⟨binding, found, same⟩ := named entry List.mem_cons_self
      have later :=
        ih fun entry member => named entry (List.mem_cons_of_mem _ member)
      unfold table Table.find? at later ⊢
      rw [List.filterMap_cons, found, List.find?_cons, List.lookup_cons, same]
      by_cases wanted : entry.1 = name
      · simp [wanted, found]
      · have differs : (name == entry.1) = false := by
          simpa using fun same => wanted same.symm
        simp only [beq_eq_false_iff_ne.mpr wanted, differs, later]

theorem Named.names (named : Named bindings frame) :
    (frame.table bindings).map Binding.name = frame.map Prod.fst := by
  unfold table
  rw [List.map_filterMap, ← List.filterMap_eq_map]
  refine List.filterMap_congr fun entry member => ?_
  obtain ⟨binding, found, same⟩ := named entry member
  simp [found, same]

/-- A frame does not see what is added to the store. -/
theorem Named.push (named : Named bindings frame) (added : Binding) :
    Named (bindings.push added) frame ∧ frame.table (bindings.push added) =
      frame.table bindings := by
  have kept : ∀ entry ∈ frame,
      (bindings.push added)[entry.2]? = bindings[entry.2]? := by
    intro entry member
    rw [Array.getElem?_push, if_neg (Nat.ne_of_lt (named.place_lt member))]
  constructor
  · intro entry member
    rw [kept entry member]
    exact named entry member
  · exact List.filterMap_congr kept

private theorem table_filter (named : Named bindings frame) (name : Text) :
    table bindings (frame.filter (·.1 != name)) =
      (frame.table bindings).filter (·.name != name) := by
  unfold table
  rw [List.filterMap_filter, List.filter_filterMap]
  refine List.filterMap_congr fun entry member => ?_
  obtain ⟨binding, found, same⟩ := named entry member
  simp [found, same, Option.filter]

end Frame

namespace Scopes

/-- The naive stack that scopes stand for. -/
def tables (scopes : Scopes) : Tables :=
  scopes.frames.map (Frame.table scopes.bindings)

/-- Every entry of an open scope has its binding in the store, no name stands
twice in a scope, and entries that are found later in the stack are older. -/
structure Sound (scopes : Scopes) : Prop where
  named : ∀ frame ∈ scopes.frames, Frame.Named scopes.bindings frame
  distinct : ∀ frame ∈ scopes.frames, (frame.map Prod.fst).Nodup
  ordered : (scopes.frames.flatten.map Prod.snd).Pairwise (· > ·)

variable {scopes : Scopes}

private theorem sound_empty : Sound {} where
  named := by simp [frames, Frame.Named]
  distinct := by simp [frames]
  ordered := by simp [frames]

theorem Sound.place_lt (sound : scopes.Sound) {entry : Text × Nat}
    (member : entry ∈ scopes.frames.flatten) :
    entry.2 < scopes.bindings.size := by
  obtain ⟨frame, opened, inside⟩ := List.mem_flatten.mp member
  exact (sound.named frame opened).place_lt inside

theorem Sound.find? (sound : scopes.Sound) (name : Text) :
    scopes.tables.find? name = scopes.get? name := by
  have named := sound.named
  unfold tables Tables.find? get? place?
  generalize scopes.frames = frames at named
  induction frames with
  | nil => rfl
  | cons frame frames ih =>
      have later :=
        ih fun frame member => named frame (List.mem_cons_of_mem _ member)
      have here := named frame List.mem_cons_self
      rw [List.map_cons, List.findSome?_cons, List.findSome?_cons,
        here.find?, later]
      cases looked : frame.lookup name with
      | none => rfl
      | some place =>
          obtain ⟨binding, found, -⟩ := here _ (Frame.mem_of_lookup looked)
          simp [found]

theorem Sound.contains (sound : scopes.Sound) (name : Text) :
    (scopes.tables.find? name).isSome = scopes.contains name := by
  rw [sound.find?, get?, Scopes.contains]
  cases looked : scopes.place? name with
  | none => rfl
  | some place =>
      obtain ⟨frame, opened, inside⟩ := List.exists_of_findSome?_eq_some looked
      obtain ⟨binding, found, -⟩ :=
        sound.named frame opened _ (Frame.mem_of_lookup inside)
      simp [found]

theorem Sound.push (sound : scopes.Sound) : scopes.push.Sound where
  named :=
    List.forall_mem_cons.mpr
      ⟨fun _ member => (List.not_mem_nil member).elim, sound.named⟩
  distinct := List.forall_mem_cons.mpr ⟨List.nodup_nil, sound.distinct⟩
  ordered := sound.ordered

theorem Sound.pop (sound : scopes.Sound) {popped : Scopes}
    (closed : Scopes.pop scopes = .ok () popped) :
    popped.Sound ∧ scopes.tables.pop = .ok popped.tables := by
  unfold Scopes.pop at closed
  split at closed
  · simp at closed
  · rename_i frame outer enclosing
    simp only [EStateM.Result.ok.injEq, true_and] at closed
    subst popped
    have frames : scopes.frames = scopes.inner :: frame :: outer := by
      rw [Scopes.frames, enclosing]
    obtain ⟨named, distinct, ordered⟩ := sound
    rw [frames] at named distinct ordered
    refine
      ⟨⟨(List.forall_mem_cons.mp named).2,
        (List.forall_mem_cons.mp distinct).2, ?_⟩, ?_⟩
    · rw [List.flatten_cons, List.map_append] at ordered
      exact (List.pairwise_append.mp ordered).2.1
    · rw [tables, frames]
      rfl

private theorem tables_pop_error {error : Error} {left : Scopes}
    (failed : Scopes.pop scopes = .error error left) :
    left = scopes ∧ scopes.tables.pop = .error error := by
  unfold Scopes.pop at failed
  split at failed
  · rename_i outermost
    simp only [EStateM.Result.error.injEq] at failed
    obtain ⟨rfl, rfl⟩ := failed
    rw [tables, frames, outermost]
    exact ⟨rfl, rfl⟩
  · simp at failed

private theorem tables_bind (sound : scopes.Sound) (binding : Binding) :
    (scopes.bind binding).Sound ∧
      (scopes.bind binding).tables =
        scopes.tables.modifyHead (·.put binding) := by
  have lower : ∀ frame ∈ scopes.outer, Frame.Named scopes.bindings frame :=
    fun frame member => sound.named frame (List.mem_cons_of_mem _ member)
  have inner : Frame.Named scopes.bindings scopes.inner :=
    sound.named _ List.mem_cons_self
  have others : ∀ entry ∈ scopes.inner.filter (·.1 != binding.name),
      entry ∈ scopes.inner :=
    fun entry member => (List.mem_filter.mp member).1
  constructor
  · constructor
    · refine List.forall_mem_cons.mpr ⟨List.forall_mem_cons.mpr ⟨?_, ?_⟩, ?_⟩
      · exact ⟨binding, Array.getElem?_push_size, rfl⟩
      · exact fun entry member =>
          (inner.push binding).1 entry (others entry member)
      · exact fun frame member => ((lower frame member).push binding).1
    · refine List.forall_mem_cons.mpr ⟨?_, fun frame member =>
        sound.distinct frame (List.mem_cons_of_mem _ member)⟩
      refine List.nodup_cons.mpr ⟨by simp, ?_⟩
      exact (sound.distinct _ List.mem_cons_self).sublist
        (List.filter_sublist.map _)
    · have ordered := sound.ordered
      have below : ∀ place ∈ scopes.frames.flatten.map Prod.snd,
          place < scopes.bindings.size := by
        intro place member
        obtain ⟨entry, present, rfl⟩ := List.mem_map.mp member
        exact sound.place_lt present
      have fewer :
          ((scopes.inner.filter (·.1 != binding.name) ++
            scopes.outer.flatten).map
          Prod.snd).Sublist (scopes.frames.flatten.map Prod.snd) :=
        (List.filter_sublist.append_right _).map _
      refine List.pairwise_cons.mpr
        ⟨fun place member => below place (fewer.subset member), ?_⟩
      exact ordered.sublist fewer
  · unfold tables frames bind
    rw [List.map_cons, List.map_cons, List.modifyHead_cons, List.cons.injEq]
    constructor
    · have added : (scopes.bindings.push binding)[scopes.bindings.size]? =
          some binding :=
        Array.getElem?_push_size
      have named : Frame.Named scopes.bindings
          (scopes.inner.filter (·.1 != binding.name)) :=
        fun entry member => inner entry (others entry member)
      rw [Frame.bind, Frame.table, List.filterMap_cons, added]
      exact congrArg (binding :: ·)
        ((named.push binding).2.trans (Frame.table_filter inner binding.name))
    · exact List.map_congr_left fun frame member =>
        ((lower frame member).push binding).2

theorem Sound.define (sound : scopes.Sound) (name value : Text)
    (isDefault : Bool) :
    (scopes.define name value isDefault).2.Sound ∧
      scopes.tables.define name value isDefault =
        ((scopes.define name value isDefault).1,
          (scopes.define name value isDefault).2.tables) := by
  have kept : (scopes.tables.find? name).any (!·.fromDefault) =
      scopes.keeps name := by
    rw [sound.find?, keeps]
    cases scopes.get? name with
    | none => rfl
    | some binding => rfl
  unfold Tables.define Scopes.define
  rw [kept]
  by_cases refused : (isDefault && scopes.keeps name) = true
  · rw [if_pos refused, if_pos refused]
    exact ⟨sound, rfl⟩
  · rw [if_neg refused, if_neg refused]
    obtain ⟨still, same⟩ :=
      tables_bind sound { name, value, fromDefault := isDefault }
    exact ⟨still, by rw [same]⟩

/-- The place of one entry is changed in one table only. -/
theorem table_modify {bindings : Array Binding} {frame : Frame} {place : Nat}
    (change : Binding → Binding) (absent : ∀ entry ∈ frame, entry.2 ≠ place) :
    frame.table (bindings.modify place change) = frame.table bindings := by
  refine List.filterMap_congr fun entry member => ?_
  rw [Array.getElem?_modify, if_neg (absent entry member).symm]

private theorem table_count {bindings : Array Binding} {frame : Frame}
    {name : Text} {place : Nat} (named : Frame.Named bindings frame)
    (distinct : (frame.map Prod.fst).Nodup) (apart : (frame.map Prod.snd).Nodup)
    (looked : frame.lookup name = some place) :
    frame.table (bindings.modify place
      fun binding => { binding with uses := binding.uses + 1 }) =
      (frame.table bindings).count name := by
  have present := Frame.mem_of_lookup looked
  unfold Frame.table Table.count
  rw [List.map_filterMap]
  refine List.filterMap_congr fun entry member => ?_
  obtain ⟨binding, found, same⟩ := named entry member
  have matching : place = entry.2 ↔ binding.name = name := by
    rw [same]
    constructor
    · intro samePlace
      exact congrArg Prod.fst
        (List.inj_on_of_nodup_map apart member present samePlace.symm)
    · intro sameName
      exact (congrArg Prod.snd
        (List.inj_on_of_nodup_map distinct member present sameName)).symm
  rw [Array.getElem?_modify, found]
  by_cases here : place = entry.2
  · simp [here, matching.mp here]
  · have other : binding.name ≠ name :=
      fun sameName => here (matching.mpr sameName)
    simp [here, other]

theorem Sound.read (sound : scopes.Sound) {name : Text} {place : Nat}
    (looked : scopes.place? name = some place) :
    let counted := { scopes with
      bindings := scopes.bindings.modify place fun binding =>
        { binding with uses := binding.uses + 1 } }
    counted.Sound ∧ counted.tables = scopes.tables.count name := by
  intro counted
  obtain ⟨named, distinct, ordered⟩ := sound
  have frames : counted.frames = scopes.frames := rfl
  constructor
  · refine ⟨fun frame opened entry member => ?_, distinct, ordered⟩
    obtain ⟨binding, found, same⟩ := named frame opened entry member
    simp only [counted, Array.getElem?_modify, found]
    by_cases here : place = entry.2
    · exact ⟨{ binding with uses := binding.uses + 1 }, by simp [here], same⟩
    · exact ⟨binding, by simp [here], same⟩
  · unfold tables
    rw [frames]
    unfold place? at looked
    generalize scopes.frames = stack at named distinct ordered looked
    induction stack with
    | nil => rfl
    | cons frame lower ih =>
        rw [List.flatten_cons, List.map_append] at ordered
        obtain ⟨upperOrdered, lowerOrdered, older⟩ :=
          List.pairwise_append.mp ordered
        have here := named frame List.mem_cons_self
        rw [List.findSome?_cons] at looked
        rw [List.map_cons, List.map_cons, Tables.count, here.find?]
        cases found : frame.lookup name with
        | none =>
            rw [found] at looked
            obtain ⟨below, opened, inside⟩ :=
              List.exists_of_findSome?_eq_some looked
            have absent : ∀ entry ∈ frame, entry.2 ≠ place := by
              intro entry member
              refine Nat.ne_of_gt (older _ (List.mem_map_of_mem member) _ ?_)
              exact List.mem_map.mpr
                ⟨_, List.mem_flatten.mpr
                  ⟨below, opened, Frame.mem_of_lookup inside⟩, rfl⟩
            rw [Option.bind_none, Option.isSome_none, if_neg Bool.false_ne_true,
              table_modify _ absent]
            exact congrArg (_ :: ·)
              (ih
                (fun frame member =>
                  named frame (List.mem_cons_of_mem _ member))
              (fun frame member =>
                distinct frame (List.mem_cons_of_mem _ member)) lowerOrdered
              looked)
        | some position =>
            rw [found] at looked
            obtain rfl : position = place := Option.some.inj looked
            obtain ⟨binding, stored, -⟩ := here _ (Frame.mem_of_lookup found)
            have apart : (frame.map Prod.snd).Nodup :=
              upperOrdered.imp fun later => Nat.ne_of_gt later
            rw [Option.bind_some, stored, Option.isSome_some, if_pos rfl,
              List.cons.injEq]
            refine
              ⟨table_count here (distinct frame List.mem_cons_self) apart found,
                ?_⟩
            refine List.map_congr_left fun below opened => table_modify _
              fun entry member => ?_
            refine Nat.ne_of_lt
              (older _ (List.mem_map_of_mem (Frame.mem_of_lookup found)) _ ?_)
            exact List.mem_map.mpr
              ⟨_, List.mem_flatten.mpr ⟨below, opened, member⟩, rfl⟩

/-- To pick the items at increasing places is to go through the places. -/
theorem filterMap_zipIdx {items : List Binding} {start : Nat}
    {places : List Nat} (increasing : places.Pairwise (· < ·))
    (inside : ∀ place ∈ places, start ≤ place ∧ place < start + items.length) :
    (items.zipIdx start).filterMap
        (fun item => if item.2 ∈ places then some item.1 else none) =
      places.filterMap fun place => items[place - start]? := by
  induction items generalizing start places with
  | nil =>
      obtain rfl : places = [] :=
        List.eq_nil_iff_forall_not_mem.mpr fun place member => by
        have bounds := inside place member
        simp only [List.length_nil] at bounds
        omega
      rfl
  | cons item items ih =>
      -- The places behind the first item are those of the other items.
      have later : ∀ others : List Nat, others.Pairwise (· < ·) →
          (∀ place ∈ others, start < place ∧
            place < start + (items.length + 1)) →
          (items.zipIdx (start + 1)).filterMap
              (fun item => if item.2 ∈ others then some item.1 else none) =
            others.filterMap fun place => (item :: items)[place - start]? := by
        intro others sorted bounds
        rw [ih sorted
          fun place member => by have within := bounds place member; omega]
        refine List.filterMap_congr fun place member => ?_
        obtain ⟨gap, rfl⟩ := Nat.exists_eq_add_of_lt (bounds place member).1
        have first : start + gap + 1 - (start + 1) = gap := by omega
        have second : start + gap + 1 - start = gap + 1 := by omega
        rw [first, second, List.getElem?_cons_succ]
      rw [List.zipIdx_cons, List.filterMap_cons]
      cases places with
      | nil => simp
      | cons place places =>
          obtain ⟨least, sorted⟩ := List.pairwise_cons.mp increasing
          have lowest := inside place List.mem_cons_self
          have bounds : ∀ other ∈ places, start < other ∧
              other < start + (items.length + 1) := by
            intro other member
            have above := least other member
            have within := inside other (List.mem_cons_of_mem _ member)
            simp only [List.length_cons] at within
            omega
          by_cases here : place = start
          · subst place
            have behind :
                (items.zipIdx (start + 1)).filterMap (fun item =>
                  if item.2 ∈ start :: places then some item.1 else none) =
                (items.zipIdx (start + 1)).filterMap fun item =>
                  if item.2 ∈ places then some item.1 else none := by
              refine List.filterMap_congr fun item member => ?_
              have position := List.le_snd_of_mem_zipIdx member
              have different : item.2 ≠ start := by omega
              simp [different]
            rw [if_pos List.mem_cons_self, behind, later places sorted bounds,
              List.filterMap_cons, Nat.sub_self, List.getElem?_cons_zero]
          · have beyond : ∀ other ∈ place :: places,
                start < other ∧ other < start + (items.length + 1) := by
              refine List.forall_mem_cons.mpr ⟨?_, bounds⟩
              simp only [List.length_cons] at lowest
              omega
            have missing : start ∉ place :: places := fun member =>
              absurd (beyond start member).1 (Nat.lt_irrefl start)
            rw [if_neg missing, later _ increasing beyond]

theorem Sound.unused (sound : scopes.Sound) :
    scopes.tables.unused = scopes.unused := by
  have last : scopes.frames.getLastD [] = scopes.globalFrame :=
    List.getLastD_cons ..
  have opened : scopes.globalFrame ∈ scopes.frames := by
    have nonempty : scopes.frames ≠ [] := List.cons_ne_nil _ _
    rw [← last, List.getLastD_eq_getLast?,
      List.getLast?_eq_some_getLast nonempty]
    exact List.getLast_mem nonempty
  have outermost : scopes.tables.getLastD [] =
      scopes.globalFrame.table scopes.bindings := by
    have mapped :=
      @List.getLastD_map _ _ (Frame.table scopes.bindings) scopes.frames []
    rwa [last] at mapped
  have increasing :
      (scopes.globalFrame.map Prod.snd).reverse.Pairwise (· < ·) := by
    rw [List.pairwise_reverse]
    exact sound.ordered.sublist ((List.sublist_flatten_of_mem opened).map _)
  have inside : ∀ place ∈ (scopes.globalFrame.map Prod.snd).reverse,
      0 ≤ place ∧ place < 0 + scopes.bindings.toList.length := by
    intro place member
    obtain ⟨entry, present, rfl⟩ := List.mem_map.mp (List.mem_reverse.mp member)
    have bounded := (sound.named _ opened).place_lt present
    simpa using bounded
  have picked := filterMap_zipIdx increasing inside
  calc scopes.tables.unused
      = ((scopes.globalFrame.table scopes.bindings).reverse).filter
        (·.uses == 0) := by
        rw [Tables.unused, outermost, List.filter_reverse]
    _ = ((scopes.globalFrame.map Prod.snd).reverse.filterMap fun place =>
          scopes.bindings.toList[place - 0]?).filter (·.uses == 0) := by
        simp [Frame.table, List.filterMap_map, List.filterMap_reverse]
    _ = scopes.unused := by
        rw [← picked, List.filter_filterMap, Scopes.unused]
        refine List.filterMap_congr fun (binding, place) _ => ?_
        have same : place ∈ (scopes.globalFrame.map Prod.snd).reverse ↔
            scopes.globalFrame.any (·.2 == place) = true := by
          simp
        dsimp only
        by_cases bound : scopes.globalFrame.any (·.2 == place) = true
        · rw [if_pos (same.mpr bound), bound]
          simp [Option.filter]
        · rw [if_neg (mt same.mp bound)]
          simp [bound]

/-- An answer of scopes is that of their tables. -/
theorem Sound.answer (sound : scopes.Sound) (access : Access) :
    (scopes.answer access).2.Sound ∧
      scopes.tables.answer access =
        ((scopes.answer access).1, (scopes.answer access).2.tables) := by
  cases access with
  | push => exact ⟨sound.push, rfl⟩
  | pop =>
      simp only [Scopes.answer, Tables.answer]
      cases closed : Scopes.pop scopes with
      | ok done popped =>
          obtain ⟨still, same⟩ := sound.pop closed
          rw [same]
          exact ⟨still, rfl⟩
      | error error left =>
          obtain ⟨rfl, same⟩ := tables_pop_error closed
          rw [same]
          exact ⟨sound, rfl⟩
  | define name value isDefault =>
      obtain ⟨still, same⟩ := sound.define name value isDefault
      simp only [Scopes.answer, Tables.answer, same]
      exact ⟨still, trivial⟩
  | resolve name =>
      have found := sound.find? name
      simp only [Scopes.answer, Tables.answer, Scopes.read, found, get?]
      cases looked : scopes.place? name with
      | none => exact ⟨sound, rfl⟩
      | some place =>
          obtain ⟨still, same⟩ := sound.read looked
          have present := sound.contains name
          rw [found, get?, Scopes.contains, looked] at present
          obtain ⟨binding, stored⟩ := Option.isSome_iff_exists.mp present
          have value : scopes.bindings[place]? = some binding := stored
          simp only [Option.bind_eq_bind, Option.bind_some, value, ← same]
          exact ⟨still, rfl⟩
  | get name =>
      simp only [Scopes.answer, Tables.answer, sound.find?]
      exact ⟨sound, trivial⟩
  | contains name =>
      simp only [Scopes.answer, Tables.answer, sound.contains]
      exact ⟨sound, trivial⟩
  | unused =>
      simp only [Scopes.answer, Tables.answer, sound.unused]
      exact ⟨sound, trivial⟩

theorem Sound.after (sound : scopes.Sound) (accesses : List Access) :
    (scopes.after accesses).Sound ∧
      (scopes.after accesses).tables = scopes.tables.after accesses ∧
      scopes.replies accesses = scopes.tables.replies accesses := by
  induction accesses generalizing scopes with
  | nil => exact ⟨sound, rfl, rfl⟩
  | cons access later ih =>
      obtain ⟨still, same⟩ := sound.answer access
      obtain ⟨final, tables, replies⟩ := ih still
      refine ⟨final, ?_, ?_⟩
      · rw [Tables.after, List.foldl_cons, same]
        exact tables
      · rw [Scopes.replies, Tables.replies, same, replies]

end Scopes

/-- Readings may have been counted. -/
structure Binding.Kept (before after : Binding) : Prop where
  name : after.name = before.name
  value : after.value = before.value
  fromDefault : after.fromDefault = before.fromDefault
  uses : before.uses ≤ after.uses

instance : IsPreorder Binding Binding.Kept where
  refl _ := ⟨rfl, rfl, rfl, Nat.le_refl _⟩
  trans _ _ _ first second :=
    ⟨second.name.trans first.name, second.value.trans first.value,
      second.fromDefault.trans first.fromDefault,
      Nat.le_trans first.uses second.uses⟩

private theorem forall₂_trans {α : Type} {relation : α → α → Prop}
    [IsTrans α relation] {before middle after : List α}
    (first : List.Forall₂ relation before middle)
    (second : List.Forall₂ relation middle after) :
    List.Forall₂ relation before after := by
  induction first generalizing after with
  | nil => exact second
  | cons head _ ih =>
      cases second with
      | cons next others =>
          exact .cons (trans_of relation head next) (ih others)

instance isPreorder_forall₂ {α : Type} {relation : α → α → Prop}
    [IsPreorder α relation] :
    IsPreorder (List α) (List.Forall₂ relation) where
  refl := List.forall₂_refl
  trans _ _ _ := forall₂_trans

namespace Tables

open Scopes (Access)

/-- The same bindings scope by scope, but for readings. -/
def Kept (before after : Tables) : Prop :=
  List.Forall₂ (List.Forall₂ Binding.Kept) before after

instance : IsPreorder Tables Kept :=
  inferInstanceAs
    (IsPreorder (List (List Binding))
      (List.Forall₂ (List.Forall₂ Binding.Kept)))

private theorem kept_count (tables : Tables) (name : Text) :
    tables.Kept (tables.count name) := by
  induction tables with
  | nil => exact .nil
  | cons table lower ih =>
      unfold count
      split
      · refine .cons ?_ (Std.Refl.refl (r := Kept) lower)
        rw [Table.count, List.forall₂_map_right_iff]
        refine List.forall₂_same.mpr fun binding _ => ?_
        split
        · exact ⟨rfl, rfl, rfl, Nat.le_succ _⟩
        · exact Std.Refl.refl binding
      · exact .cons (List.forall₂_refl table) ih

end Tables

/-- How many scopes are open on top of one that was opened before, after an
access; none if that one is closed. -/
def Scopes.Access.climb : Nat → Scopes.Access → Option Nat
  | height, .push => some (height + 1)
  | 0, .pop => none
  | height + 1, .pop => some height
  | height, _ => some height

namespace Tables

open Scopes (Access)

theorem count_append (inner outer : Tables) (name : Text) :
    ∃ shown kept, count name (inner ++ outer) = shown ++ kept ∧
      shown.length = inner.length ∧ outer.Kept kept := by
  induction inner with
  | nil => exact ⟨[], _, rfl, rfl, kept_count outer name⟩
  | cons table inner ih =>
      obtain ⟨shown, kept, split, length, retained⟩ := ih
      rw [List.cons_append, count]
      split
      · exact ⟨_ :: inner, outer, rfl, rfl, Std.Refl.refl outer⟩
      · exact
          ⟨table :: shown, kept, by rw [split]; rfl, by simp [length], retained⟩

/-- An access inside an open scope leaves what is around the scope. -/
theorem answer_around {inner outer : Tables} {height above : Nat}
    {access : Access} (opened : inner.length = height + 1)
    (climbs : access.climb height = some above) :
    ∃ shown kept, ((inner ++ outer).answer access).2 = shown ++ kept ∧
      shown.length = above + 1 ∧ outer.Kept kept := by
  obtain ⟨table, lower, rfl⟩ := List.exists_cons_of_length_eq_add_one opened
  have untouched : some height = some above → ∃ shown kept,
      table :: lower ++ outer = shown ++ kept ∧
      shown.length = above + 1 ∧ outer.Kept kept := by
    rintro ⟨⟩
    exact ⟨table :: lower, outer, rfl, opened, Std.Refl.refl outer⟩
  cases access with
  | push =>
      obtain rfl : height + 1 = above := Option.some.inj climbs
      exact ⟨[] :: table :: lower, outer, rfl, by rw [List.length_cons, opened],
        Std.Refl.refl outer⟩
  | pop =>
      cases height with
      | zero => simp [Access.climb] at climbs
      | succ height =>
          obtain rfl : height = above := Option.some.inj climbs
          obtain ⟨next, below, rfl⟩ := List.exists_cons_of_length_eq_add_one
            (Nat.succ.inj opened)
          exact ⟨next :: below, outer, rfl, Nat.succ.inj opened,
            Std.Refl.refl outer⟩
  | define name value isDefault =>
      simp only [answer, define]
      split
      · exact untouched climbs
      · obtain rfl : height = above := Option.some.inj climbs
        exact ⟨_ :: lower, outer, rfl, opened, Std.Refl.refl outer⟩
  | resolve name =>
      simp only [answer]
      split
      · obtain rfl : height = above := Option.some.inj climbs
        obtain ⟨shown, kept, split, length, retained⟩ :=
          count_append (table :: lower) outer name
        exact ⟨shown, kept, split, length.trans opened, retained⟩
      · exact untouched climbs
  | get name => exact untouched climbs
  | contains name => exact untouched climbs
  | unused => exact untouched climbs

/-- Accesses inside an open scope leave what is around the scope. -/
theorem after_around {inner outer : Tables} {height above : Nat}
    {accesses : List Access} (opened : inner.length = height + 1)
    (climbs : accesses.foldlM Access.climb height = some above) :
    ∃ shown kept, (inner ++ outer).after accesses = shown ++ kept ∧
      shown.length = above + 1 ∧ outer.Kept kept := by
  induction accesses generalizing inner outer height with
  | nil =>
      obtain rfl : height = above := by simpa using climbs
      exact ⟨inner, outer, rfl, opened, Std.Refl.refl outer⟩
  | cons access later ih =>
      rw [List.foldlM_cons] at climbs
      obtain ⟨middle, first, others⟩ := Option.bind_eq_some_iff.mp climbs
      obtain ⟨shown, kept, split, length, retained⟩ :=
        answer_around opened first
      obtain ⟨final, last, ends, size, still⟩ := ih length others
      refine ⟨final, last, ?_, size, trans_of Kept retained still⟩
      rw [after, List.foldl_cons, split]
      exact ends

theorem after_append (tables : Tables) (first second : List Access) :
    tables.after (first ++ second) = (tables.after first).after second :=
  List.foldl_append

end Tables

/-- Scopes answer every sequence of accesses as a stack of maps does, in which
no name stands twice in a scope.  Every place that is kept in an open scope is
in the store.  Whatever is done after a scope was opened and before it is
closed, the bindings around it keep their values and flags, and their counts do
not fall; closing the scope leaves just them. -/
theorem scopes_lexical (accesses : List Scopes.Access) :
    ({} : Scopes).replies accesses = Tables.replies [[]] accesses ∧
    (({} : Scopes).after accesses).tables = Tables.after [[]] accesses ∧
    (∀ table ∈ (({} : Scopes).after accesses).tables,
      (table.map Binding.name).Nodup) ∧
    (∀ frame ∈ (({} : Scopes).after accesses).frames, ∀ entry ∈ frame,
      entry.2 < (({} : Scopes).after accesses).bindings.size) ∧
    ∀ block height, block.foldlM Scopes.Access.climb 0 = some height →
      ∃ inner outer, inner.length = height + 1 ∧
        (({} : Scopes).after (accesses ++ .push :: block)).tables =
          inner ++ outer ∧
        (({} : Scopes).after accesses).tables.Kept outer ∧
        (height = 0 →
          (({} : Scopes).after
            (accesses ++ .push :: (block ++ [.pop]))).tables = outer) := by
  have run (accesses : List Scopes.Access) := Scopes.sound_empty.after accesses
  have start : ({} : Scopes).tables = [[]] := rfl
  rw [start] at run
  obtain ⟨sound, tables, replies⟩ := run accesses
  refine ⟨replies, tables, fun table member => ?_,
    fun frame opened entry member => (sound.named frame opened).place_lt member,
    fun block height climbs => ?_⟩
  · obtain ⟨frame, opened, rfl⟩ := List.mem_map.mp member
    rw [(sound.named frame opened).names]
    exact sound.distinct frame opened
  obtain ⟨inner, outer, ends, length, kept⟩ := @Tables.after_around [[]]
    (Tables.after [[]] accesses) 0 height block rfl climbs
  have entered (later : List Scopes.Access) :
      (({} : Scopes).after (accesses ++ .push :: later)).tables =
        Tables.after ([[]] ++ Tables.after [[]] accesses) later := by
    rw [(run _).2.1, Tables.after_append]
    rfl
  rw [← tables] at kept
  refine ⟨inner, outer, length, by rw [entered, ends], kept, fun bottom => ?_⟩
  rw [entered, Tables.after_append, ends]
  subst height
  obtain ⟨table, rfl⟩ := List.length_eq_one_iff.mp length
  cases kept with
  | cons _ _ => rfl

/-- A shadowed variable, a `!default` definition of it, and a reading of one
further out. -/
theorem scopes_lexical_sample :
    let accesses := [.define ['x'] ['1'] false, .push, .define ['y'] ['2'] true]
    let block :=
      [.define ['x'] ['3'] false, .push, .resolve ['y'], .resolve ['x'], .pop,
      .define ['y'] ['4'] true]
    block.foldlM Scopes.Access.climb 0 = some 0 ∧
      ∃ outer, (({} : Scopes).after accesses).tables.Kept outer ∧
        (({} : Scopes).after (accesses ++ .push :: (block ++ [.pop]))).tables =
          outer := by
  intro accesses block
  refine ⟨rfl, ?_⟩
  obtain ⟨-, outer, -, -, kept, closed⟩ :=
    (scopes_lexical accesses).2.2.2.2 block 0 rfl
  exact ⟨outer, kept, closed rfl⟩

end Stylesheet
