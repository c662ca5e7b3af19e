import Mathlib.Data.List.Forall2
import Ember.Proofs.Utf8
import Ember.Text.Pool

/-!
# Texts by their content

How a text is held shows in nothing but `isOwned`. Everything else that a text can be asked for
depends on its bytes alone (`AnswersLike`, `answersLike_of_content`).

1. `compare_eq_scalars`: the order of texts, which is that of their bytes, is also the order of
   their scalar values.
2. `bytes_concat`: two texts in a row have the bytes of both in a row.
3. `map_content_grow`: the contents in a pool after a construction depend on the contents before it,
   and not on how the new text is held. So two scripts that differ in nothing else make pools with
   the same contents (`map_content_build_of_reheld`).
-/

namespace Ember

namespace Text

open Utf8

/-! ## Texts -/

/-- The scalar values of the characters. -/
def scalars (t : Text) : List Nat := t.content.toList.map Char.toNat

theorem bytes_eq_flatMap (t : Text) :
    t.bytes = t.content.toList.flatMap String.utf8EncodeChar := by
  rw [bytes, String.toUTF8_eq_toByteArray, ← String.utf8Encode_toList, List.utf8Encode,
    List.data_toByteArray]

theorem bytes_inj {t u : Text} : t.bytes = u.bytes ↔ t.content = u.content := by
  unfold bytes
  constructor
  · intro same
    exact String.toByteArray_inj.1 (ByteArray.ext (Array.toList_inj.1 same))
  · intro same
    rw [same]

theorem bytes_concat (t u : Text) : (t.concat u).bytes = t.bytes ++ u.bytes := by
  rw [bytes_eq_flatMap, bytes_eq_flatMap, bytes_eq_flatMap, concat, owned, String.toList_append,
    List.flatMap_append]

theorem beq_iff {t u : Text} : (t == u) = true ↔ t.content = u.content :=
  beq_iff_eq (a := t.content)

theorem compare_eq_swap (t u : Text) : t.compare u = (u.compare t).swap := by
  show List.compareLex compare t.bytes u.bytes = (List.compareLex compare u.bytes t.bytes).swap
  exact Std.OrientedCmp.eq_swap

theorem isLE_compare_trans {t u v : Text} (h : (t.compare u).isLE = true)
    (h' : (u.compare v).isLE = true) : (t.compare v).isLE = true := by
  unfold Text.compare at *
  exact Std.TransCmp.isLE_trans h h'

theorem compare_eq_eq_iff {t u : Text} : t.compare u = .eq ↔ (t == u) = true := by
  rw [beq_iff, ← bytes_inj, Text.compare, Std.LawfulEqCmp.compare_eq_iff_eq]

theorem compare_eq_scalars (t u : Text) :
    t.compare u = List.compareLex compare t.scalars u.scalars := by
  rw [Text.compare, bytes_eq_flatMap, bytes_eq_flatMap]
  exact compareLex_flatMap_encoded _ _

theorem byte?_eq_none_iff {t : Text} {i : Nat} : t.byte? i = none ↔ t.size ≤ i :=
  List.getElem?_eq_none_iff

theorem size_concat (t u : Text) : (t.concat u).size = t.size + u.size := by
  rw [size, bytes_concat, List.length_append]
  rfl

theorem byte?_concat_of_lt {t : Text} {i : Nat} (u : Text) (h : i < t.size) :
    (t.concat u).byte? i = t.byte? i := by
  rw [byte?, bytes_concat, List.getElem?_append_left h]
  rfl

theorem byte?_concat_of_le {t : Text} {i : Nat} (u : Text) (h : t.size ≤ i) :
    (t.concat u).byte? i = u.byte? (i - t.size) := by
  rw [byte?, bytes_concat, List.getElem?_append_right h]
  rfl

/-- All that the texts `t` and `u` can be asked for, each alone or both together, they answer as
`t'` and `u'` do. -/
structure AnswersLike (t u t' u' : Text) : Prop where
  content : t.content = t'.content
  size : t.size = t'.size
  isEmpty : t.isEmpty = t'.isEmpty
  byte? : ∀ i, t.byte? i = t'.byte? i
  outOfBounds : ∀ i, t.outOfBounds i = t'.outOfBounds i
  beq : (t == u) = (t' == u')
  compare : t.compare u = t'.compare u'
  hash : hash t = hash t'
  concat : (t.concat u).content = (t'.concat u').content

theorem answersLike_of_content {t u t' u' : Text} (ht : t.content = t'.content)
    (hu : u.content = u'.content) : AnswersLike t u t' u' := by
  obtain ⟨c, s⟩ := t
  obtain ⟨d, r⟩ := u
  obtain rfl : c = t'.content := ht
  obtain rfl : d = u'.content := hu
  exact ⟨rfl, rfl, rfl, fun _ => rfl, fun _ => rfl, rfl, rfl, rfl, rfl⟩

/-! ## Scripts of constructions -/

/-- The second construction is the first, or makes the same new text held in the other way. -/
inductive Construction.Reheld : Construction → Construction → Prop
  | same (c : Construction) : Reheld c c
  | lent (s : String) : Reheld (.owned s) (.borrowed s)
  | copied (s : String) : Reheld (.borrowed s) (.owned s)

namespace Pool

/-- The content of the text that a construction makes from texts with the given contents. -/
def contentOf? (contents : List String) : Construction → Option String
  | .owned s | .borrowed s => some s
  | .concat a b => do return (← contents[a]?) ++ (← contents[b]?)
  | .clone a | .detach a => contents[a]?

theorem map_content_make? (pool : Pool) (c : Construction) :
    (pool.make? c).map content = contentOf? (pool.map content) c := by
  cases c with
  | owned s => rfl
  | borrowed s => rfl
  | concat a b =>
    simp only [make?, contentOf?, List.getElem?_map]
    cases pool[a]? <;> cases pool[b]? <;> rfl
  | clone a => exact List.getElem?_map.symm
  | detach a =>
    simp only [make?, contentOf?, List.getElem?_map]
    cases pool[a]? <;> rfl

theorem contentOf?_of_reheld {c c' : Construction} (h : c.Reheld c') (contents : List String) :
    contentOf? contents c = contentOf? contents c' := by
  cases h <;> rfl

theorem map_content_grow (pool : Pool) (c : Construction) : (pool.grow c).map content =
    pool.map content ++ (contentOf? (pool.map content) c).toList := by
  rw [grow, List.map_append, ← map_content_make?, Option.toList_map]

/-- Pools with the same contents still have the same contents after one more construction, however
the new text is held. -/
theorem map_content_grow_of_reheld {pool pool' : Pool} {c c' : Construction}
    (same : pool.map content = pool'.map content) (h : c.Reheld c') :
    (pool.grow c).map content = (pool'.grow c').map content := by
  rw [map_content_grow, map_content_grow, same, contentOf?_of_reheld h]

theorem map_content_foldl_of_reheld {cs cs' : List Construction}
    (h : List.Forall₂ Construction.Reheld cs cs') {pool pool' : Pool}
    (same : pool.map content = pool'.map content) :
    (cs.foldl grow pool).map content = (cs'.foldl grow pool').map content := by
  induction h generalizing pool pool' with
  | nil => exact same
  | cons first _ ih => exact ih (map_content_grow_of_reheld same first)

theorem map_content_build_of_reheld {cs cs' : List Construction}
    (h : List.Forall₂ Construction.Reheld cs cs') :
    (build cs).map content = (build cs').map content :=
  map_content_foldl_of_reheld h rfl

theorem content_eq_of_map_eq {pool pool' : Pool} (same : pool.map content = pool'.map content)
    {a : Nat} {t t' : Text} (ht : pool[a]? = some t) (ht' : pool'[a]? = some t') :
    t.content = t'.content := by
  have entry := congrArg (·[a]?) same
  simp only [List.getElem?_map, ht, ht', Option.map_some] at entry
  exact Option.some.inj entry

end Pool

/-- Texts answer by their bytes alone. In a pool that any script makes, it changes no answer whether
new texts are owned or borrowed. The order of texts is a total one, in which equal texts and no
others come to the same place, and it is both the lexicographic order of the bytes and that of the
scalar values. In a row, two texts have the bytes of the first and then those of the second, and no
byte further on. -/
theorem answers_by_bytes :
    (∀ t u t' u' : Text, t.bytes = t'.bytes → u.bytes = u'.bytes → AnswersLike t u t' u') ∧
    (∀ cs cs', List.Forall₂ Construction.Reheld cs cs' →
      (Pool.build cs).length = (Pool.build cs').length ∧
      ∀ (a b : Nat) (t u t' u' : Text),
        (Pool.build cs)[a]? = some t → (Pool.build cs)[b]? = some u →
        (Pool.build cs')[a]? = some t' → (Pool.build cs')[b]? = some u' →
        AnswersLike t u t' u') ∧
    (∀ t u : Text, t.compare u = (u.compare t).swap ∧
      (t.compare u = .eq ↔ (t == u) = true) ∧
      (t.compare u = .lt ↔ List.Lex (· < ·) t.bytes u.bytes) ∧
      (t.compare u = .lt ↔ List.Lex (· < ·) t.scalars u.scalars)) ∧
    (∀ t u v : Text, (t.compare u).isLE = true → (u.compare v).isLE = true →
      (t.compare v).isLE = true) ∧
    ∀ t u : Text, (t.concat u).size = t.size + u.size ∧
      (∀ i, i < t.size → (t.concat u).byte? i = t.byte? i) ∧
      (∀ i, t.size ≤ i → i < t.size + u.size → (t.concat u).byte? i = u.byte? (i - t.size)) ∧
      ∀ i, (t.concat u).byte? i = none ↔ t.size + u.size ≤ i := by
  refine ⟨fun t u t' u' ht hu => answersLike_of_content (bytes_inj.1 ht) (bytes_inj.1 hu),
    fun cs cs' reheld => ?_, fun t u => ⟨compare_eq_swap t u, compare_eq_eq_iff,
      compareLex_eq_lt_iff, ?_⟩, fun t u v => isLE_compare_trans, fun t u => ?_⟩
  · have same := Pool.map_content_build_of_reheld reheld
    refine ⟨?_, fun a b t u t' u' ht hu ht' hu' => ?_⟩
    · simpa only [List.length_map] using congrArg List.length same
    · exact answersLike_of_content (Pool.content_eq_of_map_eq same ht ht')
        (Pool.content_eq_of_map_eq same hu hu')
  · rw [compare_eq_scalars, compareLex_eq_lt_iff]
  · refine ⟨size_concat t u, fun i => byte?_concat_of_lt u, fun i le _ => byte?_concat_of_le u le,
      fun i => ?_⟩
    rw [byte?_eq_none_iff, size_concat]

/-- The same script with its new texts held the other way round: the copy of the first text is owned
in one pool and borrowed in the other, and both answer alike. In a row with it, the second text
starts at its third byte. A character of four bytes comes after the last one of three. -/
theorem accented_text_reheld :
    (Pool.build [.owned "é", .borrowed "z", .concat 0 1, .clone 0])[3]? = some (.owned "é") ∧
    (Pool.build [.borrowed "é", .owned "z", .concat 0 1, .clone 0])[3]? = some (.borrowed "é") ∧
    AnswersLike (.owned "é") (.borrowed "z") (.borrowed "é") (.owned "z") ∧
    ((owned "é").concat (borrowed "z")).byte? 2 = (borrowed "z").byte? 0 ∧
    (owned "\uffff").compare (borrowed "😀") = .lt := by
  have reheld : List.Forall₂ Construction.Reheld
      [.owned "é", .borrowed "z", .concat 0 1, .clone 0]
      [.borrowed "é", .owned "z", .concat 0 1, .clone 0] :=
    .cons (.lent _) (.cons (.copied _) (.cons (.same _) (.cons (.same _) .nil)))
  exact ⟨rfl, rfl, (answers_by_bytes.2.1 _ _ reheld).2 3 1 _ _ _ _ rfl rfl rfl rfl,
    (answers_by_bytes.2.2.2.2 (owned "é") (borrowed "z")).2.2.1 2 (by decide) (by decide),
    (answers_by_bytes.2.2.1 _ _).2.2.2.2 (.rel (by decide))⟩

end Text

end Ember
