import Ember.Proofs.JsonGrammar
import Ember.Report

/-!
# Reading reports

The JSON text of an outcome, read by the grammar of JSON, is the object that the outcome is
reported as, and it is a single line.

1. A character is written as itself, by its letter or by its code (`escapeChar_cases`), each of
   which is a spelling of it in the grammar and has no control character in it.
2. The text of a value is built in the same order as the grammar reads it: what follows the first
   item of a list is a run of items with a comma before each (`tailChars`, `fieldTailChars`).

Main statements: `Json.denotes_text_iff` for any value, and `Outcome.json_read_back`.
-/

namespace Ember

open Lexical JsonText

namespace Json

/-! ## Characters and strings -/

/-- No control character is among the characters. -/
def Visible (cs : List Char) : Prop := ∀ c ∈ cs, ' ' ≤ c

instance (cs : List Char) : Decidable (Visible cs) := List.decidableBAll (' ' ≤ ·) cs

theorem Visible.cons {c : Char} {cs : List Char} (h : Visible cs) (first : ' ' ≤ c) :
    Visible (c :: cs) :=
  List.forall_mem_cons.2 ⟨first, h⟩

theorem Visible.append {cs ds : List Char} (h : Visible cs) (h' : Visible ds) :
    Visible (cs ++ ds) :=
  List.forall_mem_append.2 ⟨h, h'⟩

theorem hexDigit_spec : ∀ n < 16,
    HexDigit (hexDigit n) ∧ hexValue (hexDigit n) = n ∧ ' ' ≤ hexDigit n := by
  decide

theorem hexDigit_mod (n : Nat) : hexDigit n = hexDigit (n % 16) := by
  rw [hexDigit, hexDigit, Nat.mod_mod]

theorem escapeChar_cases (c : Char) :
    (∃ l, (c, l) ∈ letters ∧ escapeChar c = ['\\', l]) ∨
      (c.toNat < 32 ∧
        escapeChar c = ['\\', 'u', '0', '0', hexDigit (c.toNat / 16), hexDigit c.toNat]) ∨
      (' ' ≤ c ∧ c ≠ '"' ∧ c ≠ '\\' ∧ escapeChar c = [c]) := by
  unfold escapeChar
  split
  · next h => exact .inl ⟨_, by rw [h]; decide, rfl⟩
  · next quote =>
    split
    · next h => exact .inl ⟨_, by rw [h]; decide, rfl⟩
    · next backslash =>
      iterate 5
        split
        · next h => exact .inl ⟨_, by rw [h]; decide, rfl⟩
      split
      · next control => exact .inr (.inl ⟨control, rfl⟩)
      · next visible => exact .inr (.inr ⟨Nat.le_of_not_lt visible, quote, backslash, rfl⟩)

theorem spelling_escapeChar (c : Char) : Spelling c (escapeChar c) := by
  rcases escapeChar_cases c with ⟨l, mem, eq⟩ | ⟨control, eq⟩ | ⟨visible, quote, backslash, eq⟩
  · rw [eq]
    exact .letter mem
  · rw [eq, hexDigit_mod c.toNat]
    obtain ⟨digit, value, _⟩ := hexDigit_spec (c.toNat / 16) (by omega)
    obtain ⟨digit', value', _⟩ := hexDigit_spec (c.toNat % 16) (by omega)
    refine .code ⟨rfl, ?_, ?_⟩
    · simp only [List.forall_mem_cons]
      exact ⟨by decide, by decide, digit, digit', fun d mem => nomatch mem⟩
    · simp only [List.foldl_cons, List.foldl_nil, value, value']
      have zero : hexValue '0' = 0 := by decide
      omega
  · rw [eq]
    exact .plain visible quote backslash

theorem visible_escapeChar (c : Char) : Visible (escapeChar c) := by
  rcases escapeChar_cases c with ⟨l, mem, eq⟩ | ⟨control, eq⟩ | ⟨visible, _, _, eq⟩
  · have table : ∀ p ∈ letters, ' ' ≤ p.2 := by decide
    rw [eq]
    exact Visible.cons (List.forall_mem_singleton.2 (table _ mem)) (by decide)
  · rw [eq, hexDigit_mod c.toNat]
    obtain ⟨_, _, visible⟩ := hexDigit_spec (c.toNat / 16) (by omega)
    obtain ⟨_, _, visible'⟩ := hexDigit_spec (c.toNat % 16) (by omega)
    have tail : Visible [hexDigit (c.toNat / 16), hexDigit (c.toNat % 16)] :=
      .cons (List.forall_mem_singleton.2 visible') visible
    have lead : Visible ['\\', 'u', '0', '0'] := by decide
    exact lead.append tail
  · rw [eq]
    exact List.forall_mem_singleton.2 visible

theorem spelled_flatMap (cs : List Char) : Spelled cs (cs.flatMap escapeChar) := by
  induction cs with
  | nil => exact .nil
  | cons c cs ih =>
    rw [List.flatMap_cons]
    exact .cons (spelling_escapeChar c) ih

theorem quoted_quote (s : String) : Quoted s (quote s) := .mk (spelled_flatMap s.toList)

theorem visible_quote (s : String) : Visible (quote s) := by
  have body : Visible (s.toList.flatMap escapeChar) := by
    intro c mem
    obtain ⟨a, _, mem⟩ := List.mem_flatMap.1 mem
    exact visible_escapeChar a c mem
  exact (body.cons (by decide)).append (by decide)

/-! ## Numbers -/

theorem visible_of_digit {c : Char} (digit : Digit c) : ' ' ≤ c :=
  Char.le_trans (by decide) digit.1

theorem digits_toDigits (n : Nat) : Digits (Nat.toDigits 10 n) :=
  ⟨Nat.toDigits_ne_nil, digit_of_mem_toDigits⟩

/-- Only zero starts with a zero. -/
theorem toDigits_of_head_zero (n : Nat) (head : (Nat.toDigits 10 n).head? = some '0') :
    Nat.toDigits 10 n = ['0'] := by
  induction n using Nat.strongRecOn with
  | ind n ih =>
    rcases Nat.lt_or_ge n 10 with lt | ge
    · rw [Nat.toDigits_of_lt_base lt] at head ⊢
      rw [Option.some.inj head]
    · obtain ⟨c, cs, eq, _⟩ := toDigits_eq_cons (n / 10)
      rw [Nat.toDigits_of_base_le (by decide) ge, eq] at head
      -- the number without its last digit would be zero, and it is not
      have zero := ih (n / 10) (by omega) (eq ▸ head)
      have value := digitsValue_toDigits (n / 10)
      rw [zero, show digitsValue ['0'] = 0 from rfl] at value
      omega

theorem numeral_toDigits (n : Nat) : Numeral false ⟨n, 0⟩ (Nat.toDigits 10 n) := by
  have numeral : Numeral false _ _ :=
    .mk (digits_toDigits n) (toDigits_of_head_zero n) .none .none
  rw [List.append_nil, digitsValue_toDigits] at numeral
  simpa [Layout.sign] using numeral

/-! ## Values -/

mutual

/-- The value that a report stands for. -/
def value : Json → Value
  | number n => .number false ⟨n, 0⟩
  | string s => .string s
  | array items => .array (itemValues items)
  | object fields => .object (fieldValues fields)

def itemValues : List Json → List Value
  | [] => []
  | v :: vs => v.value :: itemValues vs

def fieldValues : List (String × Json) → List (String × Value)
  | [] => []
  | (k, v) :: fs => (k, v.value) :: fieldValues fs

end

theorem itemValues_eq (vs : List Json) : itemValues vs = vs.map value := by
  induction vs with
  | nil => rfl
  | cons v vs ih => rw [itemValues, ih, List.map_cons]

/-- The items after the first one. -/
def tailChars : List Json → List Char
  | [] => []
  | v :: vs => ',' :: (v.chars ++ tailChars vs)

/-- A field without the comma before it. -/
def fieldChar (k : String) (v : Json) : List Char := quote k ++ ':' :: v.chars

/-- The fields after the first one. -/
def fieldTailChars : List (String × Json) → List Char
  | [] => []
  | (k, v) :: fs => ',' :: (fieldChar k v ++ fieldTailChars fs)

theorem itemChars_cons (v : Json) (vs : List Json) :
    itemChars (v :: vs) = v.chars ++ tailChars vs := by
  induction vs generalizing v with
  | nil => rw [itemChars, tailChars, List.append_nil]
  | cons w ws ih => rw [itemChars, ih, tailChars]

theorem fieldChars_cons (k : String) (v : Json) (fs : List (String × Json)) :
    fieldChars ((k, v) :: fs) = fieldChar k v ++ fieldTailChars fs := by
  induction fs generalizing k v with
  | nil => rw [fieldChars, fieldTailChars, List.append_nil, fieldChar]
  | cons f fs ih =>
    obtain ⟨l, w⟩ := f
    rw [fieldChars, ih, fieldTailChars]
    rfl

theorem blank_nil : Blank [] := fun _ mem => nomatch mem

theorem mark_single (m : Char) : Mark m [m] := .mk blank_nil blank_nil

mutual

theorem written_chars : (v : Json) → Written (.value v.value) v.chars
  | number n => by
    rw [value, chars]
    exact .number (numeral_toDigits n)
  | string s => by
    rw [value, chars]
    exact .string (quoted_quote s)
  | array [] => by
    rw [value, chars]
    exact .emptyArray (mark_single '[') (mark_single ']')
  | array (v :: vs) => by
    rw [value, chars, itemChars_cons, List.cons_append, List.append_assoc]
    exact .array (mark_single '[') (written_chars v) (written_tailChars vs) (mark_single ']')
  | object [] => by
    rw [value, chars]
    exact .emptyObject (mark_single '\x7b') (mark_single '\x7d')
  | object ((k, v) :: fs) => by
    rw [value, chars, fieldChars_cons, List.cons_append, List.append_assoc]
    exact .object (mark_single '\x7b')
      (.member (quoted_quote k) (mark_single ':') (written_chars v)) (written_fieldTailChars fs)
      (mark_single '\x7d')

theorem written_tailChars : (vs : List Json) → Written (.items (itemValues vs)) (tailChars vs)
  | [] => .noItem
  | v :: vs => .item (mark_single ',') (written_chars v) (written_tailChars vs)

theorem written_fieldTailChars :
    (fs : List (String × Json)) → Written (.members (fieldValues fs)) (fieldTailChars fs)
  | [] => .noMember
  | (k, v) :: fs =>
    .nextMember (mark_single ',')
      (.member (quoted_quote k) (mark_single ':') (written_chars v)) (written_fieldTailChars fs)

end

/-- The text of a report stands for the value of the report and for nothing else. -/
theorem denotes_text_iff (v : Json) (w : Value) : Denotes v.text w ↔ w = v.value := by
  have denotes : Denotes v.text v.value := by
    refine .mk blank_nil v.written_chars blank_nil ?_
    rw [List.nil_append, List.append_nil, text, String.toList_ofList]
  constructor
  · intro other
    exact other.unique denotes
  · rintro rfl
    exact denotes

/-! ## Lines -/

theorem visible_fieldChar (k : String) {v : Json} (h : Visible v.chars) : Visible (fieldChar k v) :=
  (visible_quote k).append (h.cons (by decide))

mutual

theorem visible_chars : (v : Json) → Visible v.chars
  | number n => by
    rw [chars]
    exact fun c mem => visible_of_digit (digit_of_mem_toDigits c mem)
  | string s => by
    rw [chars]
    exact visible_quote s
  | array [] => by
    rw [chars]
    decide
  | array (v :: vs) => by
    rw [chars, itemChars_cons]
    exact (((visible_chars v).append (visible_tailChars vs)).cons (by decide)).append (by decide)
  | object [] => by
    rw [chars]
    decide
  | object ((k, v) :: fs) => by
    rw [chars, fieldChars_cons]
    exact (((visible_fieldChar k (visible_chars v)).append (visible_fieldTailChars fs)).cons
      (by decide)).append (by decide)

theorem visible_tailChars : (vs : List Json) → Visible (tailChars vs)
  | [] => by decide
  | v :: vs => ((visible_chars v).append (visible_tailChars vs)).cons (by decide)

theorem visible_fieldTailChars : (fs : List (String × Json)) → Visible (fieldTailChars fs)
  | [] => by decide
  | (k, v) :: fs =>
    ((visible_fieldChar k (visible_chars v)).append (visible_fieldTailChars fs)).cons (by decide)

end

theorem visible_text (v : Json) : Visible v.text.toList := by
  rw [text, String.toList_ofList]
  exact v.visible_chars

end Json

/-! ## Outcomes -/

theorem Json.itemValues_strings (ss : List String) :
    itemValues (ss.map .string) = ss.map .string := by
  rw [itemValues_eq, List.map_map]
  exact List.map_congr_left fun s _ => value.eq_2 s

/-- The object that a diagnostic is reported as. -/
def Diagnostic.reported (d : Diagnostic) : Value :=
  .object [
    ("phase", .string d.phase.label.toLower),
    ("file", .string d.file),
    ("line", .number false ⟨d.position.line.toNat, 0⟩),
    ("column", .number false ⟨d.position.column.toNat, 0⟩),
    ("message", .string d.message)]

/-- The object that a success is reported as. -/
def reportedResult (value : String) (printed : List String) : Value :=
  .object [
    ("type", .string "result"),
    ("value", .string value),
    ("printed", .array (printed.map .string))]

/-- The object that a failure is reported as. -/
def reportedError (phase : String) (exitCode : UInt8) (printed : List String)
    (diagnostics : List Diagnostic) : Value :=
  .object [
    ("type", .string "error"),
    ("phase", .string phase),
    ("exit_code", .number false ⟨exitCode.toNat, 0⟩),
    ("printed", .array (printed.map .string)),
    ("diagnostics", .array (diagnostics.map Diagnostic.reported))]

theorem Diagnostic.value_json (d : Diagnostic) : d.json.value = d.reported := by
  simp only [json, Json.value, Json.fieldValues, Phase.lowerLabel, reported]

namespace Outcome

theorem value_resultJson (o : Outcome) :
    o.resultJson.value = reportedResult (o.value.getD (.int 0)).text o.printed := by
  simp only [resultJson, Json.value, Json.fieldValues, Json.itemValues_strings, reportedResult]
  rfl

theorem value_errorJson (o : Outcome) : o.errorJson.value =
    reportedError ((o.failedPhase?.map (·.label.toLower)).getD "") o.exitCode o.printed
      o.diagnostics.toList := by
  have diagnostics (ds : List Diagnostic) :
      Json.itemValues (ds.map Diagnostic.json) = ds.map Diagnostic.reported := by
    rw [Json.itemValues_eq, List.map_map]
    exact List.map_congr_left fun d _ => d.value_json
  have label : Phase.lowerLabel = fun p => p.label.toLower := rfl
  simp only [errorJson, Json.value, Json.fieldValues, Json.itemValues_strings, diagnostics, label,
    reportedError]

/-- The JSON text of an outcome is a single line, and it stands for exactly one value: the object
with the outcome's data in their order. -/
theorem json_read_back (o : Outcome) :
    Json.Visible o.resultJson.text.toList ∧
      (∀ v, Denotes o.resultJson.text v ↔
        v = reportedResult (o.value.getD (.int 0)).text o.printed) ∧
      Json.Visible o.errorJson.text.toList ∧
      (∀ v, Denotes o.errorJson.text v ↔
        v = reportedError ((o.failedPhase?.map (·.label.toLower)).getD "") o.exitCode o.printed
          o.diagnostics.toList) := by
  refine ⟨Json.visible_text _, fun v => ?_, Json.visible_text _, fun v => ?_⟩
  · rw [Json.denotes_text_iff, value_resultJson]
  · rw [Json.denotes_text_iff, value_errorJson]

end Outcome

end Ember
