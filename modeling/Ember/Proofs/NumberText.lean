import Ember.Number
import Ember.Proofs.Lexical
import Ember.Proofs.Rounding

/-!
# Texts of numbers

Each text of a number is read back as the number:

1. a run of digits stands for the number whose digits they are (`digitsValue_toDigits`), and a
   sign before it is read too (`readInt?_repr`);
2. wherever the point and the exponent are put, a decimal is read back as one of the same value
   (`read?_decimal`), and that is enough to round to the same number (`Same.rounds`);
3. the words for infinity and `nan` start with no digit, so that they are not mistaken for
   numerals.

Main statements: `Layout.readBinary64?_text`, reading undoes writing, and `Number.text_inj`, numbers
with the same text are the same and of the same kind.
-/

namespace Ember

open Lexical

/-! ## Digits -/

theorem digitsValue_eq (cs : List Char) : digitsValue cs = Nat.ofDigitChars 10 cs 0 := rfl

theorem digitsValue_append (cs ds : List Char) :
    digitsValue (cs ++ ds) = Nat.pow 10 ds.length * digitsValue cs + digitsValue ds := by
  rw [digitsValue_eq, Nat.ofDigitChars_append, Nat.ofDigitChars_eq_ofDigitChars_zero]
  rfl

theorem digitsValue_toDigits (n : Nat) : digitsValue (Nat.toDigits 10 n) = n := by
  rw [digitsValue_eq, Nat.ofDigitChars_ten_toDigits]

theorem digitsValue_zeros (n : Nat) : digitsValue (List.replicate n '0') = 0 := by
  rw [digitsValue_eq, Nat.ofDigitChars_replicate_zero, Nat.mul_zero]

theorem digit_of_mem_toDigits {n : Nat} : ∀ c ∈ Nat.toDigits 10 n, Digit c :=
  fun _ mem => isDigit_iff.1 (Nat.isDigit_of_mem_toDigits (by decide) (by decide) mem)

theorem digit_of_mem_zeros {n : Nat} : ∀ c ∈ List.replicate n '0', Digit c := by
  intro c mem
  rw [List.eq_of_mem_replicate mem]
  decide

theorem toDigits_eq_cons (n : Nat) : ∃ c cs, Nat.toDigits 10 n = c :: cs ∧ Digit c := by
  cases eq : Nat.toDigits 10 n with
  | nil => exact absurd eq Nat.toDigits_ne_nil
  | cons c cs => exact ⟨c, cs, rfl, digit_of_mem_toDigits c (eq ▸ List.mem_cons_self)⟩

theorem toLower_of_digit {c : Char} (digit : Digit c) : c.toLower = c := by
  unfold Char.toLower
  split
  · next upper => exact absurd (Char.le_trans upper.1 digit.2) (by decide)
  · rfl

theorem splitSign_of_digit {c : Char} (digit : Digit c) (cs : List Char) :
    splitSign (c :: cs) = (false, c :: cs) := by
  unfold splitSign
  split
  · next eq =>
    cases eq
    exact absurd digit (by decide)
  · next eq =>
    cases eq
    exact absurd digit (by decide)
  · rfl

/-! ## Whole numbers -/

theorem isNumeral_of_digits {ds : List Char} (ne : ds ≠ []) (digits : ∀ c ∈ ds, Digit c) :
    isNumeral ds = true := by
  rw [isNumeral, Bool.and_eq_true, List.all_eq_true]
  refine ⟨?_, fun c mem => isDigit_iff.2 (digits c mem)⟩
  simpa using ne

theorem isNumeral_toDigits (n : Nat) : isNumeral (Nat.toDigits 10 n) = true :=
  isNumeral_of_digits Nat.toDigits_ne_nil digit_of_mem_toDigits

theorem toList_repr_int (k : Int) :
    (Int.repr k).toList = Layout.sign (k < 0) (Nat.toDigits 10 k.natAbs) := by
  rw [Int.repr_eq_if]
  unfold Layout.sign
  split
  · next nonneg =>
    rw [if_neg (by simpa using nonneg), Nat.toList_repr, show k.toNat = k.natAbs by omega]
  · next neg =>
    rw [if_pos (by simpa using neg), String.toList_append, Nat.toList_repr,
      show (-k).toNat = k.natAbs by omega]
    rfl

theorem splitSign_sign {c : Char} (digit : Digit c) (negative : Bool) (cs : List Char) :
    splitSign (Layout.sign negative (c :: cs)) = (negative, c :: cs) := by
  cases negative with
  | false => exact splitSign_of_digit digit cs
  | true => rfl

theorem readInt?_repr (k : Int) : readInt? (Int.repr k).toList = some k := by
  obtain ⟨c, cs, eq, digit⟩ := toDigits_eq_cons k.natAbs
  have value : (digitsValue (c :: cs) : Int) = k.natAbs := by rw [← eq, digitsValue_toDigits]
  rw [toList_repr_int, eq, readInt?, splitSign_sign digit]
  dsimp only
  rw [if_pos (eq ▸ isNumeral_toDigits _), value]
  congr 1
  split
  · next neg =>
    rw [decide_eq_true_eq] at neg
    omega
  · next nonneg =>
    rw [decide_eq_true_eq] at nonneg
    omega

/-! ## Decimals -/

namespace Decimal

/-- What an exponent part may start with: no digit and no point. -/
def Ends (rest : List Char) : Prop := ∀ c ∈ rest.head?, ¬ Digit c ∧ c ≠ '.'

theorem read?_of_whole {whole rest : List Char} (digits : ∀ c ∈ whole, Digit c) (ne : whole ≠ [])
    (ends : Ends rest) :
    read? (whole ++ rest) = (readExponent? rest).map fun e => ⟨digitsValue whole, e⟩ := by
  unfold read?
  rw [takeWhile_of_run isDigit_iff digits fun c head => (ends c head).1,
    dropWhile_of_run isDigit_iff digits fun c head => (ends c head).1]
  split
  · next split =>
    split at split
    · exact absurd rfl (ends '.' rfl).2
    · cases split
      dsimp only
      rw [List.append_nil, if_neg ne]
      simp

theorem read?_of_point {whole places rest : List Char} (digits : ∀ c ∈ whole, Digit c)
    (ne : whole ≠ []) (digits' : ∀ c ∈ places, Digit c) (ends : Ends rest) :
    read? (whole ++ '.' :: (places ++ rest)) = (readExponent? rest).map fun e =>
      ⟨digitsValue (whole ++ places), e - places.length⟩ := by
  have point : ∀ c ∈ ('.' :: (places ++ rest)).head?, ¬ Digit c :=
    forall_mem_head_cons (by decide) _
  unfold read?
  rw [takeWhile_of_run isDigit_iff digits point, dropWhile_of_run isDigit_iff digits point]
  show (if whole ++ (places ++ rest).takeWhile Char.isDigit = [] then none else
    (readExponent? ((places ++ rest).dropWhile Char.isDigit)).map fun e => (⟨digitsValue
      (whole ++ (places ++ rest).takeWhile Char.isDigit),
      e - ((places ++ rest).takeWhile Char.isDigit).length⟩ : Decimal)) = _
  rw [takeWhile_of_run isDigit_iff digits' fun c head => (ends c head).1,
    dropWhile_of_run isDigit_iff digits' fun c head => (ends c head).1,
    if_neg fun eq => ne (List.append_eq_nil_iff.1 eq).1]

theorem ends_nil : Ends [] := by
  intro c head
  cases head

theorem ends_exponent (cs : List Char) : Ends ('e' :: cs) :=
  forall_mem_head_cons (by decide) cs

/-- A decimal whose digits go on with zeros has the same value as without them. -/
theorem same_zeros {d : Decimal} {k : Nat} (nonneg : d.exponent = k) (places : Nat) :
    d.Same ⟨Nat.pow 10 (k + places) * d.digits, -places⟩ := by
  unfold Same num den
  have whole : (-(places : Int)).toNat = 0 := by omega
  have fraction : (-d.exponent).toNat = 0 := by omega
  have down : (- -(places : Int)).toNat = places := by omega
  have up : d.exponent.toNat = k := by omega
  rw [whole, fraction, down, up]
  simp only [Nat.pow_eq, Nat.pow_zero, Nat.mul_one]
  rw [Nat.pow_add, Nat.mul_assoc, Nat.mul_comm]

/-- The characters are the digits of the decimal. -/
structure HasDigits (d : Decimal) (ds : List Char) : Prop where
  ne_nil : ds ≠ []
  digits : ∀ c ∈ ds, Digit c
  value : digitsValue ds = d.digits
  exponent : d.exponent = d.magnitude - ds.length

theorem hasDigits_toDigits (d : Decimal) : d.HasDigits (Nat.toDigits 10 d.digits) where
  ne_nil := Nat.toDigits_ne_nil
  digits := digit_of_mem_toDigits
  value := digitsValue_toDigits d.digits
  exponent := by
    rw [magnitude, digitCount]
    omega

theorem digit_zero : ∀ c ∈ ['0'], Digit c := forall_mem_of_all (by decide)

namespace HasDigits

variable {d : Decimal} {ds : List Char}

/-- Zeros between the point and the digits are places without a value. -/
theorem read?_below (h : d.HasDigits ds) (le : d.magnitude ≤ 0) :
    read? ('0' :: '.' :: List.replicate (-d.magnitude).toNat '0' ++ ds) = some d := by
  have exponent := h.exponent
  have places : ∀ c ∈ List.replicate (-d.magnitude).toNat '0' ++ ds, Digit c :=
    List.forall_mem_append.2 ⟨digit_of_mem_zeros, h.digits⟩
  have read := read?_of_point digit_zero (by decide) places ends_nil
  rw [List.append_nil] at read
  refine read.trans ?_
  rw [readExponent?, Option.map_some, ← List.append_assoc, digitsValue_append, h.value,
    ← List.replicate_one, List.replicate_append_replicate, digitsValue_zeros, Nat.mul_zero,
    Nat.zero_add, List.length_append, List.length_replicate]
  congr 2
  omega

/-- A point among the digits leaves their value as it is. -/
theorem read?_among (h : d.HasDigits ds) (pos : 0 < d.magnitude)
    (within : d.magnitude.toNat ≤ ds.length) :
    read? (ds.take d.magnitude.toNat ++ '.' :: ds.drop d.magnitude.toNat) = some d := by
  have exponent := h.exponent
  have digits := h.digits
  have join := List.take_append_drop d.magnitude.toNat ds
  have ne : ds.take d.magnitude.toNat ≠ [] := by
    intro nil
    rcases List.take_eq_nil_iff.1 nil with zero | nil
    · omega
    · exact h.ne_nil nil
  rw [← join, List.forall_mem_append] at digits
  have read := read?_of_point digits.1 ne digits.2 ends_nil
  rw [List.append_nil, join, h.value, List.length_drop, readExponent?, Option.map_some] at read
  rw [read]
  congr 2
  omega

/-- Zeros after the digits, before or after a point, leave the value the same. -/
theorem read?_beyond (h : d.HasDigits ds) (beyond : ds.length ≤ d.magnitude.toNat)
    (pointZero : Bool) :
    ∃ d', read? (ds ++ List.replicate (d.magnitude.toNat - ds.length) '0'
      ++ (if pointZero then ['.', '0'] else [])) = some d' ∧ d.Same d' := by
  have exponent := h.exponent
  have count : 0 < ds.length := List.length_pos_iff.2 h.ne_nil
  obtain ⟨k, zeros⟩ : ∃ k, d.magnitude.toNat - ds.length = k := ⟨_, rfl⟩
  have run : ∀ c ∈ ds ++ List.replicate k '0', Digit c :=
    List.forall_mem_append.2 ⟨h.digits, digit_of_mem_zeros⟩
  have ne : ds ++ List.replicate k '0' ≠ [] := fun nil => h.ne_nil (List.append_eq_nil_iff.1 nil).1
  have value : digitsValue (ds ++ List.replicate k '0') = Nat.pow 10 k * d.digits := by
    rw [digitsValue_append, digitsValue_zeros, h.value, List.length_replicate, Nat.add_zero]
  rw [zeros]
  cases pointZero with
  | true =>
    -- the zero after the point is one more digit, and one more place
    refine ⟨_, read?_of_point run ne digit_zero ends_nil, ?_⟩
    have ten : Nat.pow 10 1 * Nat.pow 10 k = Nat.pow 10 (k + 1) := Nat.mul_comm ..
    rw [digitsValue_append, value, List.length_singleton, ← Nat.mul_assoc, ten]
    exact same_zeros (by omega) 1
  | false =>
    refine ⟨_, read?_of_whole run ne ends_nil, ?_⟩
    rw [value]
    exact same_zeros (k := k) (by omega) 0

/-- With an exponent the digits are read as they are, one of them before the point. -/
theorem read?_withExponent (h : d.HasDigits ds) :
    read? (Layout.withExponent ds d.magnitude) = some d := by
  have exponent := h.exponent
  have power : readExponent? ('e' :: (Int.repr (d.magnitude - 1)).toList)
      = some (d.magnitude - 1) := readInt?_repr _
  have ends := ends_exponent (Int.repr (d.magnitude - 1)).toList
  obtain ⟨ne, digits, value, _⟩ := h
  cases ds with
  | nil => exact absurd rfl ne
  | cons c cs =>
    cases cs with
    | nil =>
      refine (read?_of_whole digits ne ends).trans ?_
      rw [power, Option.map_some, value]
      congr 2
      rw [List.length_singleton] at exponent
      omega
    | cons c' cs =>
      rw [List.forall_mem_cons] at digits
      have first : ∀ a ∈ [c], Digit a := List.forall_mem_singleton.2 digits.1
      refine (read?_of_point first (List.cons_ne_nil _ _) digits.2 ends).trans ?_
      rw [power, Option.map_some, List.singleton_append, value]
      congr 2
      rw [List.length_cons] at exponent
      omega

end HasDigits

end Decimal

/-! ## Layouts -/

namespace Layout

open Decimal

theorem read?_placePoint (l : Layout) {d : Decimal} {ds : List Char} (h : d.HasDigits ds) :
    ∃ d', read? (l.placePoint ds d.magnitude) = some d' ∧ d.Same d' := by
  unfold placePoint
  split
  · next le => exact ⟨d, h.read?_below le, rfl⟩
  · next pos =>
    split
    · next beyond => exact h.read?_beyond beyond l.pointZero
    · next within => exact ⟨d, h.read?_among (by omega) (by omega), rfl⟩

theorem read?_decimal (l : Layout) (d : Decimal) :
    ∃ d', read? (l.decimal d) = some d' ∧ d.Same d' := by
  unfold decimal
  dsimp only
  split
  · exact l.read?_placePoint d.hasDigits_toDigits
  · exact ⟨d, d.hasDigits_toDigits.read?_withExponent, rfl⟩

theorem decimal_eq_cons (l : Layout) (d : Decimal) : ∃ c cs, l.decimal d = c :: cs ∧ Digit c := by
  obtain ⟨c, cs, eq, digit⟩ := toDigits_eq_cons d.digits
  unfold decimal
  dsimp only
  rw [eq]
  split
  · unfold placePoint
    split
    · exact ⟨_, _, rfl, by decide⟩
    · split
      · exact ⟨_, _, rfl, digit⟩
      · next pos _ =>
        obtain ⟨k, succ⟩ : ∃ k, d.magnitude.toNat = k + 1 := ⟨d.magnitude.toNat - 1, by omega⟩
        rw [succ, List.take_succ_cons]
        exact ⟨_, _, rfl, digit⟩
  · unfold withExponent
    cases cs <;> exact ⟨_, _, rfl, digit⟩

theorem unsigned_eq_cons (l : Layout) (units : Nat) :
    ∃ c cs, l.unsigned units = c :: cs ∧ Digit c := by
  unfold unsigned
  split
  · split <;> exact ⟨_, _, rfl, by decide⟩
  · exact l.decimal_eq_cons _

theorem read?_unsigned (l : Layout) {units : Nat} (fits : Fits units) :
    ∃ d, read? (l.unsigned units) = some d ∧ d.Rounds units := by
  unfold unsigned
  split
  · next zero =>
    subst zero
    split
    · exact ⟨⟨0, -1⟩, by decide, rounds_zero rfl⟩
    · exact ⟨⟨0, 0⟩, by decide, rounds_zero rfl⟩
  · obtain ⟨d, read, same⟩ := l.read?_decimal (.shortest units)
    exact ⟨d, read, same.rounds (shortest_rounds fits)⟩

/-- A numeral is none of the words for infinity and `nan`. -/
theorem readBinary64?_sign {c : Char} (digit : Digit c) (negative : Bool) (cs : List Char) :
    readBinary64? (sign negative (c :: cs)) = (read? (c :: cs)).map (toBinary64 negative) := by
  -- the words are compared in lower case, which leaves the leading digit a digit
  have word {w : String} {a : Char} {as : List Char} (letters : w.toList = a :: as)
      (other : ¬ Digit a) : String.ofList ((c :: cs).map Char.toLower) ≠ w := by
    rintro rfl
    rw [String.toList_ofList, List.map_cons] at letters
    have head := (List.cons.inj letters).1
    rw [toLower_of_digit digit] at head
    exact other (head ▸ digit)
  rw [readBinary64?, splitSign_sign digit]
  dsimp only
  rw [if_neg, if_neg]
  · exact word rfl (by decide)
  · exact not_or.2 ⟨word rfl (by decide), word rfl (by decide)⟩

/-- Reading the text of a number gives the number back. -/
theorem readBinary64?_text (l : Layout) (x : Binary64) :
    readBinary64? (l.text x).toList = some x := by
  cases x with
  | nan =>
    rw [text]
    decide
  | infinite s =>
    rw [text]
    cases s <;> decide
  | finite s n fits =>
    obtain ⟨d, read, rounds⟩ := l.read?_unsigned fits
    obtain ⟨c, cs, eq, digit⟩ := l.unsigned_eq_cons n
    rw [text, String.toList_ofList, eq, readBinary64?_sign digit, ← eq, read, Option.map_some,
      rounds.toBinary64 fits]

/-- The characters that the text of a number is made of. -/
def Mark (c : Char) : Prop := Digit c ∨ c ∈ ['-', '.', 'e', 'i', 'n', 'f', 'N', 'a']

instance : DecidablePred Mark := fun _ => inferInstanceAs (Decidable (_ ∨ _))

theorem marks_toDigits (n : Nat) : ∀ c ∈ Nat.toDigits 10 n, Mark c :=
  fun c mem => .inl (digit_of_mem_toDigits c mem)

theorem marks_sign (negative : Bool) {cs : List Char} (marks : ∀ c ∈ cs, Mark c) :
    ∀ c ∈ sign negative cs, Mark c := by
  cases negative with
  | false => exact marks
  | true => exact List.forall_mem_cons.2 ⟨by decide, marks⟩

theorem marks_repr (k : Int) : ∀ c ∈ (Int.repr k).toList, Mark c := by
  rw [toList_repr_int]
  exact marks_sign _ (marks_toDigits _)

theorem marks_placePoint (l : Layout) {ds : List Char} (digits : ∀ c ∈ ds, Digit c) (e : Int) :
    ∀ c ∈ l.placePoint ds e, Mark c := by
  have marks : ∀ c ∈ ds, Mark c := fun c mem => .inl (digits c mem)
  have zeros {n : Nat} : ∀ c ∈ List.replicate n '0', Mark c :=
    fun c mem => .inl (digit_of_mem_zeros c mem)
  unfold placePoint
  split
  · exact List.forall_mem_append.2 ⟨List.forall_mem_cons.2 ⟨by decide,
      List.forall_mem_cons.2 ⟨by decide, zeros⟩⟩, marks⟩
  · split
    · refine List.forall_mem_append.2 ⟨List.forall_mem_append.2 ⟨marks, zeros⟩, ?_⟩
      split <;> exact forall_mem_of_all (by decide)
    · refine List.forall_mem_append.2 ⟨?_, List.forall_mem_cons.2 ⟨by decide, ?_⟩⟩
      · exact fun c mem => marks c (List.mem_of_mem_take mem)
      · exact fun c mem => marks c (List.mem_of_mem_drop mem)

theorem marks_withExponent {ds : List Char} (digits : ∀ c ∈ ds, Digit c) (e : Int) :
    ∀ c ∈ withExponent ds e, Mark c := by
  have marks : ∀ c ∈ ds, Mark c := fun c mem => .inl (digits c mem)
  unfold withExponent
  dsimp only
  refine List.forall_mem_append.2 ⟨?_, List.forall_mem_cons.2 ⟨by decide, marks_repr _⟩⟩
  split
  · exact marks
  · exact marks
  · rw [List.forall_mem_cons] at marks
    exact List.forall_mem_cons.2 ⟨marks.1, List.forall_mem_cons.2 ⟨by decide, marks.2⟩⟩

theorem marks_text (l : Layout) (x : Binary64) : ∀ c ∈ (l.text x).toList, Mark c := by
  cases x with
  | nan =>
    rw [text]
    exact forall_mem_of_all (by decide)
  | infinite s =>
    rw [text, String.toList_ofList]
    exact marks_sign s (forall_mem_of_all (by decide))
  | finite s n fits =>
    rw [text, String.toList_ofList]
    refine marks_sign s ?_
    unfold unsigned
    split
    · split <;> exact forall_mem_of_all (by decide)
    · unfold decimal
      dsimp only
      split
      · exact l.marks_placePoint digit_of_mem_toDigits _
      · exact marks_withExponent digit_of_mem_toDigits _

theorem mem_sign (negative : Bool) {cs : List Char} {c : Char} (mem : c ∈ cs) :
    c ∈ sign negative cs := by
  cases negative with
  | false => exact mem
  | true => exact List.mem_cons_of_mem _ mem

theorem exists_mark_decimal {l : Layout} (point : l.pointZero = true) (d : Decimal) :
    ∃ c ∈ l.decimal d, c ∈ ['.', 'e', 'n', 'N'] := by
  unfold decimal
  dsimp only
  split
  · refine ⟨'.', ?_, by decide⟩
    unfold placePoint
    rw [point]
    split
    · simp
    · split <;> simp
  · exact ⟨'e', List.mem_append_right _ List.mem_cons_self, by decide⟩

/-- With a point in every whole number, a text has a character that no integer has. -/
theorem exists_mark_text {l : Layout} (point : l.pointZero = true) (x : Binary64) :
    ∃ c ∈ (l.text x).toList, c ∈ ['.', 'e', 'n', 'N'] := by
  cases x with
  | nan =>
    rw [text]
    exact ⟨'N', by decide, by decide⟩
  | infinite s =>
    rw [text, String.toList_ofList]
    exact ⟨'n', mem_sign s (by decide), by decide⟩
  | finite s n fits =>
    rw [text, String.toList_ofList, unsigned, point]
    by_cases zero : n = 0
    · rw [if_pos zero]
      exact ⟨'.', mem_sign s (by decide), by decide⟩
    · rw [if_neg zero]
      obtain ⟨c, mem, mark⟩ := exists_mark_decimal point (.shortest n)
      exact ⟨c, mem_sign s mem, mark⟩

end Layout

/-! ## Numbers -/

namespace Number

theorem text_inj {m n : Number} (same : m.text = n.text) : m = n := by
  -- the text also shows which of the two kinds a number is
  have apart (i : Int64) (x : Binary64) : Int.repr i.toInt ≠ Layout.value.text x := by
    intro eq
    obtain ⟨c, mem, mark⟩ := Layout.exists_mark_text (l := .value) rfl x
    rw [← eq, toList_repr_int] at mem
    have no : ∀ c ∈ ['.', 'e', 'n', 'N'], ¬ Digit c ∧ c ≠ '-' := forall_mem_of_all (by decide)
    unfold Layout.sign at mem
    split at mem
    · rcases List.mem_cons.1 mem with minus | mem
      · exact (no c mark).2 minus
      · exact (no c mark).1 (digit_of_mem_toDigits c mem)
    · exact (no c mark).1 (digit_of_mem_toDigits c mem)
  cases m with
  | int i =>
    cases n with
    | int j =>
      have read := readInt?_repr i.toInt
      rw [show Int.repr i.toInt = Int.repr j.toInt from same, readInt?_repr, Option.some.injEq,
        Int64.toInt_inj] at read
      rw [read]
    | float y => exact absurd same (apart i y)
  | float x =>
    cases n with
    | int j => exact absurd same.symm (apart j x)
    | float y =>
      have read := Layout.value.readBinary64?_text x
      rw [show Layout.value.text x = Layout.value.text y from same, Layout.readBinary64?_text,
        Option.some.injEq] at read
      rw [read]

theorem marks_text (n : Number) : ∀ c ∈ n.text.toList, Layout.Mark c := by
  cases n with
  | int i => exact Layout.marks_repr i.toInt
  | float x => exact Layout.value.marks_text x

end Number

end Ember
