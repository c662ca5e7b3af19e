import Ember.Diagnostic

/-!
# Diagnostics as a log

A collector keeps a slot for each phase, and failures come to it in any order of the phases. All that
it can be asked for is said by its log alone, the failures in the order in which they came. Three
things have to agree for that: the slot that a phase's index names, the order of `Phase.all`, and the
order in which the phases run.

1. `Phase.index_inj`, `forPhase_push`: a failure goes to the end of the slot of its phase and to no
   other slot, and so each slot is the part of the log with its phase (`forPhase_collect`).
2. `Phase.map_index_all`: the indices of all phases are the slots in their order, and so the listing
   slot by slot goes through `Phase.all` (`toList_eq_flatMap`).
3. `eq_flatMap_of_sorted`, `filter_mergeSort`: a list in the order of the phases is its parts in a
   row, and stable sorting leaves each part as it is. So the listing is the log, sorted by phase
   (`toList_collect`).
4. `Phase.find?_all_eq_some_iff`: the first of all phases with some property is the least one.
-/

namespace Ember

/-! ## The order of the phases -/

namespace Phase

/-- How many phases run before this one. -/
def rank : Phase → Nat
  | lex => 0
  | parse => 1
  | interpret => 2

/-- A phase comes before those that run after it. -/
instance : LE Phase := ⟨fun p q => p.rank ≤ q.rank⟩

instance (p q : Phase) : Decidable (p ≤ q) := inferInstanceAs (Decidable (p.rank ≤ q.rank))

theorem le_trans {p q r : Phase} (h : p ≤ q) (h' : q ≤ r) : p ≤ r := Nat.le_trans h h'

theorem le_total (p q : Phase) : p ≤ q ∨ q ≤ p := Nat.le_total p.rank q.rank

theorem find?_all_eq_some_iff (f : Phase → Bool) (p : Phase) :
    all.find? f = some p ↔ f p = true ∧ ∀ q, f q = true → p ≤ q := by
  have least : (∀ q, f q = true → p ≤ q) ↔ ∀ q ∈ all, f q = true → p ≤ q := by
    refine ⟨fun h q _ => h q, fun h q => h q ?_⟩
    cases q <;> decide
  rw [least]
  unfold all
  cases p <;> cases hl : f lex <;> cases hp : f parse <;> cases hi : f interpret <;>
    simp [hl, hp, hi] <;> decide

/-- No two phases have the same slot. -/
theorem index_inj {p q : Phase} : p.index = q.index ↔ p = q := by
  cases p <;> cases q <;> decide

/-- The slots of all phases, in the order in which they run, are the slots from the first on. -/
theorem map_index_all : all.map index = List.finRange 3 := by decide

end Phase

namespace Diagnostics

/-! ## What is done to a collector -/

/-- A failure that comes to a collector, in parts or as an error. -/
inductive Entry where
  | push (phase : Phase) (position : Position) (message : String)
  | record (failure : Failure)
deriving DecidableEq

/-- The failure as it is listed for a file. -/
def Entry.diagnostic (file : String) : Entry → Diagnostic
  | push phase position message => ⟨phase, file, position, message⟩
  | record e => ⟨e.phase, file, e.position, e.message⟩

/-- The collector with one more failure. -/
def apply (ds : Diagnostics) : Entry → Diagnostics
  | .push phase position message => ds.push phase position message
  | .record e => ds.record e

/-- The collector for a file after some failures. -/
def collect (file : String) (es : List Entry) : Diagnostics := es.foldl apply (new file)

/-- The failures for a file in the order in which they came. -/
def log (file : String) (es : List Entry) : List Diagnostic := es.map (Entry.diagnostic file)

/-! ## The slots -/

/-- A failure goes to the end of the slot of its phase, and to no other slot. -/
theorem forPhase_push (ds : Diagnostics) (phase : Phase) (position : Position) (message : String)
    (p : Phase) : (ds.push phase position message).forPhase p =
      if phase = p then ds.forPhase p ++ [⟨phase, ds.file, position, message⟩]
      else ds.forPhase p := by
  unfold forPhase push
  rw [Fin.getElem_fin, Vector.getElem_set]
  simp only [Fin.val_inj, Phase.index_inj]
  split
  · next same => rw [same]
  · rfl

/-- The slots in a row are those of the phases in the order in which they run. -/
theorem toList_phases (ds : Diagnostics) : ds.phases.toList = Phase.all.map ds.forPhase := by
  have slots : ds.phases.toList = (List.finRange 3).map (ds.phases[·]) := by
    rw [List.finRange, List.map_ofFn, ← Vector.toList_ofFn]
    exact congrArg Vector.toList Vector.ofFn_getElem.symm
  rw [slots, ← Phase.map_index_all, List.map_map]
  rfl

theorem toList_eq_flatMap (ds : Diagnostics) : ds.toList = Phase.all.flatMap ds.forPhase := by
  rw [toList, toList_phases, List.flatMap_def]

theorem size_eq_length_toList (ds : Diagnostics) : ds.size = ds.toList.length := by
  rw [size, ← Vector.foldl_toList, toList_phases, toList_eq_flatMap]
  simp [Phase.all, Nat.add_assoc]

/-! ## Failures one after the other -/

theorem apply_eq_push (ds : Diagnostics) (e : Entry) : ds.apply e =
    ds.push (e.diagnostic ds.file).phase (e.diagnostic ds.file).position
      (e.diagnostic ds.file).message := by
  cases e <;> rfl

theorem file_apply (ds : Diagnostics) (e : Entry) : (ds.apply e).file = ds.file := by
  rw [apply_eq_push]
  rfl

theorem forPhase_apply (ds : Diagnostics) (e : Entry) (p : Phase) :
    (ds.apply e).forPhase p = ds.forPhase p ++ [e.diagnostic ds.file].filter (·.phase = p) := by
  have file : (e.diagnostic ds.file).file = ds.file := by cases e <;> rfl
  rw [apply_eq_push]
  generalize e.diagnostic ds.file = d at file
  obtain ⟨phase, name, position, message⟩ := d
  obtain rfl : name = ds.file := file
  rw [forPhase_push]
  by_cases same : phase = p <;> simp [same]

theorem file_foldl (ds : Diagnostics) (es : List Entry) :
    (es.foldl apply ds).file = ds.file := by
  induction es generalizing ds with
  | nil => rfl
  | cons e es ih => rw [List.foldl_cons, ih, file_apply]

theorem forPhase_foldl (ds : Diagnostics) (es : List Entry) (p : Phase) :
    (es.foldl apply ds).forPhase p = ds.forPhase p ++ (log ds.file es).filter (·.phase = p) := by
  induction es generalizing ds with
  | nil => simp [log]
  | cons e es ih =>
    rw [List.foldl_cons, ih, forPhase_apply, file_apply, List.append_assoc, ← List.filter_append]
    rfl

theorem forPhase_collect (file : String) (es : List Entry) (p : Phase) :
    (collect file es).forPhase p = (log file es).filter (·.phase = p) := by
  have empty : (new file).forPhase p = [] := Vector.getElem_replicate _
  rw [collect, forPhase_foldl, empty, List.nil_append]
  rfl

/-! ## Sorting by phase -/

/-- A list in the order of the phases is its failures of each phase, one phase after the other. -/
theorem eq_flatMap_of_sorted {l : List Diagnostic} (h : l.Pairwise (·.phase ≤ ·.phase)) :
    l = Phase.all.flatMap fun p => l.filter (·.phase = p) := by
  induction l with
  | nil => rfl
  | cons d l ih =>
    obtain ⟨first, sorted⟩ := List.pairwise_cons.1 h
    -- no failure of an earlier phase comes after the first one
    have none (p : Phase) (before : ¬ d.phase ≤ p) : l.filter (·.phase = p) = [] := by
      rw [List.filter_eq_nil_iff]
      intro d' mem same
      rw [decide_eq_true_eq] at same
      exact before (same ▸ first d' mem)
    have rest := ih sorted
    simp only [Phase.all, List.flatMap_cons, List.flatMap_nil, List.append_nil] at rest ⊢
    cases phase : d.phase with
    | lex => simp [phase, ← rest]
    | parse =>
      have lexed := none .lex (by rw [phase]; decide)
      rw [lexed, List.nil_append] at rest
      simpa [phase, lexed] using rest
    | interpret =>
      have lexed := none .lex (by rw [phase]; decide)
      have parsed := none .parse (by rw [phase]; decide)
      rw [lexed, parsed, List.nil_append, List.nil_append] at rest
      simpa [phase, lexed, parsed] using rest

/-- Failures in the order of their phases. -/
def phaseLE (d d' : Diagnostic) : Bool := d.phase ≤ d'.phase

theorem phaseLE_trans (a b c : Diagnostic) (hab : phaseLE a b = true) (hbc : phaseLE b c = true) :
    phaseLE a c = true := by
  unfold phaseLE at *
  simp only [decide_eq_true_eq] at *
  exact Phase.le_trans hab hbc

theorem phaseLE_total (a b : Diagnostic) : (phaseLE a b || phaseLE b a) = true := by
  unfold phaseLE
  simpa using Phase.le_total a.phase b.phase

/-- Stable sorting by phase leaves the failures of each phase in their order. -/
theorem filter_mergeSort (l : List Diagnostic) (p : Phase) :
    (l.mergeSort phaseLE).filter (·.phase = p) = l.filter (·.phase = p) := by
  have same : (l.filter (·.phase = p)).Pairwise (phaseLE · ·) := by
    refine List.pairwise_of_forall_mem_list fun a ha b hb => ?_
    simp only [List.mem_filter, decide_eq_true_eq] at ha hb
    rw [phaseLE, ha.2, hb.2]
    exact decide_eq_true (Nat.le_refl _)
  have within := (List.sublist_mergeSort phaseLE_trans phaseLE_total same
    List.filter_sublist).filter (·.phase = p)
  simp only [List.filter_filter, Bool.and_self] at within
  exact (within.eq_of_length ((List.mergeSort_perm l phaseLE).filter _).length_eq.symm).symm

/-- The listing by phase is the stable sort of the log. -/
theorem toList_collect (file : String) (es : List Entry) :
    (collect file es).toList = (log file es).mergeSort phaseLE := by
  have sorted : ((log file es).mergeSort phaseLE).Pairwise (·.phase ≤ ·.phase) :=
    (List.pairwise_mergeSort phaseLE_trans phaseLE_total _).imp of_decide_eq_true
  have lists : (collect file es).forPhase = fun p => (log file es).filter (·.phase = p) := by
    funext p
    exact forPhase_collect file es p
  rw [eq_flatMap_of_sorted sorted, toList_eq_flatMap, lists]
  simp only [filter_mergeSort]

/-! ## What is asked of a collector -/

theorem size_collect (file : String) (es : List Entry) : (collect file es).size = es.length := by
  rw [size_eq_length_toList, toList_collect, List.length_mergeSort, log, List.length_map]

theorem hasErrors_iff (ds : Diagnostics) (p : Phase) :
    ds.hasErrors p = true ↔ ds.forPhase p ≠ [] := by
  simp [hasErrors, forPhase]

theorem hasErrors_collect_iff (file : String) (es : List Entry) (p : Phase) :
    (collect file es).hasErrors p = true ↔ p ∈ (log file es).map (·.phase) := by
  rw [hasErrors_iff, forPhase_collect, ne_eq, List.filter_eq_nil_iff]
  simp

theorem firstFailed?_collect_eq_some_iff (file : String) (es : List Entry) (p : Phase) :
    (collect file es).firstFailed? = some p ↔
      p ∈ (log file es).map (·.phase) ∧ ∀ q ∈ (log file es).map (·.phase), p ≤ q := by
  rw [firstFailed?, Phase.find?_all_eq_some_iff]
  simp only [hasErrors_collect_iff]

theorem firstFailed?_collect_eq_none_iff (file : String) (es : List Entry) :
    (collect file es).firstFailed? = none ↔ es = [] := by
  rw [firstFailed?, List.find?_eq_none]
  constructor
  · intro none
    cases es with
    | nil => rfl
    | cons e es =>
      have phase : (e.diagnostic file).phase ∈ Phase.all := by
        cases (e.diagnostic file).phase <;> decide
      refine absurd ?_ (none _ phase)
      rw [hasErrors_collect_iff, log]
      simp
  · rintro rfl p _
    simp [hasErrors_collect_iff, log]

/-- Whatever comes to a collector, all that it is asked for is said by its log: it lists the log in
the stable order of the phases, and for one phase the part of the log with that phase; it counts the
log, has errors in the phases that occur in it, and the first failed phase is the least of them. Each
failure is listed with the file of the collector and with the place and the message it came with,
and to record an error is to push its phase, place and message. -/
theorem answers_eq_log (file : String) (es : List Entry) :
    (collect file es).file = file ∧
    (collect file es).toList = (log file es).mergeSort (fun d d' => d.phase ≤ d'.phase) ∧
    (∀ p, (collect file es).forPhase p = (log file es).filter (·.phase = p)) ∧
    (collect file es).size = es.length ∧
    ((collect file es).isEmpty = true ↔ es = []) ∧
    (∀ p, (collect file es).hasErrors p = true ↔ (collect file es).forPhase p ≠ []) ∧
    ((collect file es).firstFailed? = none ↔ es = []) ∧
    (∀ p, (collect file es).firstFailed? = some p ↔
      p ∈ (log file es).map (·.phase) ∧ ∀ q ∈ (log file es).map (·.phase), p ≤ q) ∧
    ∀ e, (collect file es).record e = (collect file es).push e.phase e.position e.message := by
  have empty : (collect file es).isEmpty = true ↔ es = [] := by
    rw [isEmpty, size_collect, decide_eq_true_eq, List.length_eq_zero_iff]
  exact ⟨file_foldl (new file) es, toList_collect file es, forPhase_collect file es,
    size_collect file es, empty, hasErrors_iff _, firstFailed?_collect_eq_none_iff file es,
    firstFailed?_collect_eq_some_iff file es, fun _ => rfl⟩

end Diagnostics

end Ember
