import Mathlib.Tactic.SplitIfs

/-!
# The order of UTF-8

Encoded as UTF-8, two lists of characters compare as their scalar values do, so that the bytes need
not be decoded to put them in order.

1. `utf8EncodeChar_eq`: the bytes of a character are a first byte, which says how many bytes follow,
   and the last digits of the scalar value to base 64.
2. `leading_mono`, `trailing_eq_of_leading_eq`: the first byte grows with the character, and after
   equal first bytes follow equally many bytes, which compare as digits do
   (`compareLex_continuation`).
3. `compareLex_encoded`: so the bytes of the smaller of two characters come first, whatever follows
   them, and characters one after the other compare alike (`compareLex_flatMap_encoded`).
-/

namespace Ember.Utf8

/-! ## Lists compared at their first difference -/

section Lexicographic

variable {α : Type} [Ord α]

theorem compareLex_append_left [Std.ReflOrd α] (as bs cs : List α) :
    List.compareLex compare (as ++ bs) (as ++ cs) = List.compareLex compare bs cs := by
  induction as with
  | nil => rfl
  | cons a as ih =>
    rw [List.cons_append, List.cons_append, List.compareLex_cons_cons, Std.ReflOrd.compare_self, ih]
    rfl

theorem compareLex_eq_lt_iff [LE α] [LT α] [Std.LawfulOrderOrd α] [Std.LawfulOrderLT α]
    [Std.LawfulEqOrd α] {as bs : List α} :
    List.compareLex compare as bs = .lt ↔ List.Lex (· < ·) as bs := by
  induction as generalizing bs with
  | nil =>
    cases bs with
    | nil => exact iff_of_false (by rintro ⟨⟩) List.not_lex_nil
    | cons b bs => exact iff_of_true List.compareLex_nil_cons .nil
  | cons a as ih =>
    cases bs with
    | nil => exact iff_of_false (by rintro ⟨⟩) List.not_lex_nil
    | cons b bs =>
      rw [List.compareLex_cons_cons, Ordering.then_eq_lt, Std.compare_eq_lt,
        Std.LawfulEqOrd.compare_eq_iff_eq, ih, List.cons_lex_cons_iff]

end Lexicographic

/-! ## The bytes of a character -/

/-- How many bytes follow the first byte of a scalar value. -/
def trailing (v : Nat) : Nat :=
  if v ≤ 127 then 0 else if v ≤ 2047 then 1 else if v ≤ 65535 then 2 else 3

/-- What is left of a number without its last `n` digits to base 64. -/
def high : Nat → Nat → Nat
  | 0, v => v
  | n + 1, v => high n (v / 64)

/-- The least first byte that `n` bytes follow. -/
def mark : Nat → Nat
  | 0 => 0
  | 1 => 192
  | 2 => 224
  | _ => 240

/-- The first byte of a scalar value. -/
def leading (v : Nat) : Nat := high (trailing v) v + mark (trailing v)

/-- The last `n` digits of a number to base 64, as bytes that are never the first of a character. -/
def continuation : Nat → Nat → List UInt8
  | 0, _ => []
  | n + 1, v => continuation n (v / 64) ++ [UInt8.ofNat (v % 64 + 128)]

theorem toNat_lt_of_char (c : Char) : c.toNat < 0x110000 := by
  have valid : c.toNat.isValidChar := c.valid
  unfold Nat.isValidChar at valid
  omega

theorem utf8EncodeChar_eq (c : Char) : String.utf8EncodeChar c =
    UInt8.ofNat (leading c.toNat) :: continuation (trailing c.toNat) c.toNat := by
  have bound := toNat_lt_of_char c
  simp only [String.utf8EncodeChar, Char.toNat_val, leading, trailing]
  split_ifs
  · rfl
  · have first : c.toNat / 64 % 32 = c.toNat / 64 := by omega
    rw [first]
    rfl
  · have first : c.toNat / 4096 % 16 = c.toNat / 64 / 64 := by omega
    rw [first]
    rfl
  · have first : c.toNat / 262144 % 8 = c.toNat / 64 / 64 / 64 := by omega
    have second : c.toNat / 4096 % 64 = c.toNat / 64 / 64 % 64 := by omega
    rw [first, second]
    rfl

/-- A greater scalar value has no smaller first byte. -/
theorem leading_mono {v w : Nat} (h : v ≤ w) : leading v ≤ leading w := by
  unfold leading trailing
  split_ifs <;> simp only [high, mark] <;> omega

theorem leading_lt {v : Nat} (h : v < 0x110000) : leading v < 256 := by
  unfold leading trailing
  split_ifs <;> simp only [high, mark] <;> omega

/-- The first byte says how many bytes follow. -/
theorem trailing_eq_of_leading_eq {v w : Nat} (h : leading v = leading w) :
    trailing v = trailing w := by
  unfold leading trailing at *
  split_ifs at * <;> simp only [high, mark] at * <;> omega

/-! ## The order of bytes is that of characters -/

theorem compareLex_ofNat_of_le {v w : Nat} {bs cs : List UInt8} (le : v ≤ w) (lt : w < 256)
    (rest : v = w → List.compareLex compare bs cs = .lt) :
    List.compareLex compare (UInt8.ofNat v :: bs) (UInt8.ofNat w :: cs) = .lt := by
  rw [List.compareLex_cons_cons, Ordering.then_eq_lt]
  rcases Nat.eq_or_lt_of_le le with rfl | less
  · exact .inr ⟨Std.ReflOrd.compare_self, rest rfl⟩
  · left
    rw [Std.compare_eq_lt, UInt8.lt_iff_toNat_lt, UInt8.toNat_ofNat_of_lt' lt,
      UInt8.toNat_ofNat_of_lt' (Nat.lt_trans less lt)]
    exact less

/-- Of two numbers that differ in the last `n` digits only, the greater has the greater digits. -/
theorem compareLex_continuation {n v w : Nat} (lt : v < w) (same : high n v = high n w)
    (bs cs : List UInt8) :
    List.compareLex compare (continuation n v ++ bs) (continuation n w ++ cs) = .lt := by
  induction n generalizing v w bs cs with
  | zero => exact absurd same (Nat.ne_of_lt lt)
  | succ n ih =>
    rw [continuation, continuation, List.append_assoc, List.append_assoc]
    rcases Nat.eq_or_lt_of_le (Nat.div_le_div_right (c := 64) (Nat.le_of_lt lt)) with eq | less
    · -- only the last digit differs
      rw [eq, compareLex_append_left]
      exact compareLex_ofNat_of_le (by omega) (by omega) (by omega)
    · exact ih less same _ _

theorem compareLex_encoded {c d : Char} (lt : c.toNat < d.toNat) (bs cs : List UInt8) :
    List.compareLex compare (String.utf8EncodeChar c ++ bs) (String.utf8EncodeChar d ++ cs) =
      .lt := by
  rw [utf8EncodeChar_eq, utf8EncodeChar_eq]
  have bound := leading_lt (toNat_lt_of_char d)
  refine compareLex_ofNat_of_le (leading_mono (Nat.le_of_lt lt)) bound fun first => ?_
  have width := trailing_eq_of_leading_eq first
  have same : high (trailing d.toNat) c.toNat = high (trailing d.toNat) d.toNat := by
    rw [leading, leading, width] at first
    exact Nat.add_right_cancel first
  rw [width]
  exact compareLex_continuation lt same bs cs

/-- Encoded characters compare as their scalar values do. -/
theorem compareLex_flatMap_encoded (cs ds : List Char) :
    List.compareLex compare (cs.flatMap String.utf8EncodeChar) (ds.flatMap String.utf8EncodeChar) =
      List.compareLex compare (cs.map Char.toNat) (ds.map Char.toNat) := by
  induction cs generalizing ds with
  | nil =>
    cases ds with
    | nil => rfl
    | cons d ds =>
      rw [List.flatMap_cons, utf8EncodeChar_eq]
      rfl
  | cons c cs ih =>
    cases ds with
    | nil =>
      rw [List.flatMap_cons, utf8EncodeChar_eq]
      rfl
    | cons d ds =>
      rw [List.flatMap_cons, List.flatMap_cons, List.map_cons, List.map_cons,
        List.compareLex_cons_cons]
      cases order : compare c.toNat d.toNat with
      | lt => exact compareLex_encoded (Nat.compare_eq_lt.1 order) _ _
      | eq =>
        obtain rfl := Char.toNat_inj.1 (Nat.compare_eq_eq.1 order)
        rw [compareLex_append_left, ih]
        rfl
      | gt =>
        have less := compareLex_encoded (Nat.compare_eq_gt.1 order)
          (ds.flatMap String.utf8EncodeChar) (cs.flatMap String.utf8EncodeChar)
        exact Std.OrientedCmp.gt_of_lt less

end Ember.Utf8
