import Ember.Decimal

/-!
# Rounding and shortest decimals

The number nearest to a quotient depends on the quotient alone, not on how it is written
(`nearest_eq_of_cross`), and a number of units that fits is its own nearest (`nearest_of_fits`).
Rounding keeps the order (`nearest_mono`) and moves a number by at most half of its last place
(`nearest_near`).
Reading a decimal is rounding its value: the bounds on the magnitude only save work
(`Decimal.toBinary64_eq`).

Main statement: `Decimal.shortest_rounds`, the shortest decimal of a number rounds to that number.
-/

namespace Ember

/-! ## Quotients -/

theorem compare_mul_right {k : Nat} (pos : 0 < k) (a b : Nat) :
    compare (a * k) (b * k) = compare a b := by
  rcases Nat.lt_trichotomy a b with lt | rfl | gt
  · rw [Nat.compare_eq_lt.2 lt, Nat.compare_eq_lt.2 (Nat.mul_lt_mul_of_pos_right lt pos)]
  · rw [Nat.compare_eq_eq.2 rfl, Nat.compare_eq_eq.2 rfl]
  · rw [Nat.compare_eq_gt.2 gt, Nat.compare_eq_gt.2 (Nat.mul_lt_mul_of_pos_right gt pos)]

theorem roundQuotient_mul {k : Nat} (pos : 0 < k) (num den : Nat) :
    roundQuotient (num * k) (den * k) = roundQuotient num den := by
  unfold roundQuotient
  dsimp only
  rw [Nat.mul_div_mul_right _ _ pos, Nat.mul_mod_mul_right, ← Nat.mul_assoc,
    compare_mul_right pos]

theorem nearest_mul {k : Nat} (pos : 0 < k) (num den : Nat) :
    nearest (num * k) (den * k) = nearest num den := by
  unfold nearest
  dsimp only
  rw [Nat.mul_div_mul_right _ _ pos, Nat.mul_right_comm, roundQuotient_mul pos]

/-- Equal quotients have the same nearest number. -/
theorem nearest_eq_of_cross {num den num' den' : Nat} (pos : 0 < den) (pos' : 0 < den')
    (same : num * den' = num' * den) : nearest num den = nearest num' den' := by
  rw [← nearest_mul pos' num den, ← nearest_mul pos num' den', same, Nat.mul_comm den']

theorem lastPlace_pos (n : Nat) : 0 < lastPlace n := Nat.two_pow_pos _

theorem nearest_of_fits {n : Nat} (fits : Fits n) : nearest n 1 = n := by
  have exact : roundQuotient n (lastPlace n) = n / lastPlace n := by
    have lt : 2 * (n % lastPlace n) < lastPlace n := by
      rw [fits.2]
      exact lastPlace_pos n
    unfold roundQuotient
    dsimp only
    rw [Nat.compare_eq_lt.2 lt]
  unfold nearest
  dsimp only
  rw [Nat.div_one, Nat.one_mul, exact, Nat.div_mul_cancel (Nat.dvd_of_mod_eq_zero fits.2)]

theorem le_roundQuotient (num den : Nat) : num / den ≤ roundQuotient num den := by
  unfold roundQuotient
  dsimp only
  split <;> omega

/-- Rounding stays on its side of a power of two. -/
theorem le_nearest {limit k num den : Nat} (power : limit = Nat.pow 2 k) (bits : 52 ≤ k)
    (pos : 0 < den) (le : limit * den ≤ num) : limit ≤ nearest num den := by
  rw [power, Nat.pow_eq] at le
  rw [power, Nat.pow_eq]
  have quotient : 2 ^ k ≤ num / den := (Nat.le_div_iff_mul_le pos).2 le
  have nonzero : num / den ≠ 0 := Nat.ne_of_gt (Nat.lt_of_lt_of_le (Nat.two_pow_pos k) quotient)
  have log : k ≤ (num / den).log2 := (Nat.le_log2 nonzero).2 quotient
  have place : lastPlace (num / den) * 2 ^ 52 = 2 ^ (num / den).log2 := by
    rw [lastPlace, Nat.pow_eq, ← Nat.pow_add]
    congr 1
    omega
  have significand : 2 ^ 52 ≤ num / (den * lastPlace (num / den)) := by
    rw [← Nat.div_div_eq_div_mul, Nat.le_div_iff_mul_le (lastPlace_pos _), Nat.mul_comm, place]
    exact Nat.log2_self_le nonzero
  calc 2 ^ k ≤ 2 ^ (num / den).log2 := Nat.pow_le_pow_right (by decide) log
    _ = 2 ^ 52 * lastPlace (num / den) := by rw [← place, Nat.mul_comm]
    _ ≤ nearest num den :=
      Nat.mul_le_mul_right _ (Nat.le_trans significand (le_roundQuotient ..))

theorem unitsLimit_eq : ∃ k, 52 ≤ k ∧ unitsLimit = Nat.pow 2 k :=
  ⟨2098, by decide, by decide +kernel⟩

theorem nearest_eq_zero {num den : Nat} (lt : 2 * num < den) : nearest num den = 0 := by
  have quotient : num / den = 0 := Nat.div_eq_of_lt (by omega)
  have round : roundQuotient num den = 0 := by
    unfold roundQuotient
    dsimp only
    rw [Nat.mod_eq_of_lt (by omega), Nat.compare_eq_lt.2 lt, quotient]
  unfold nearest
  dsimp only
  rw [quotient, show lastPlace 0 = 1 from rfl, Nat.mul_one, Nat.mul_one, round]

/-! ## Order and distance -/

theorem roundQuotient_mono {m n : Nat} (le : m ≤ n) (den : Nat) :
    roundQuotient m den ≤ roundQuotient n den := by
  have quotients : m / den ≤ n / den := Nat.div_le_div_right le
  by_cases same : m / den = n / den
  · have remainders : m % den ≤ n % den := by
      have left := Nat.div_add_mod m den
      have right := Nat.div_add_mod n den
      rw [same] at left
      omega
    unfold roundQuotient
    dsimp only
    rw [same]
    split
    · exact le_roundQuotient n den
    · next half =>
      rw [Nat.compare_eq_eq] at half
      split
      · next lt =>
        rw [Nat.compare_eq_lt] at lt
        omega
      · omega
      · omega
    · next above =>
      rw [Nat.compare_eq_gt] at above
      have too := Nat.lt_of_lt_of_le above (Nat.mul_le_mul_left 2 remainders)
      simp only [Nat.compare_eq_gt.2 too, Nat.le_refl]
  · have below := roundQuotient_le m den
    have above := le_roundQuotient n den
    omega

/-- A rounded quotient is off by at most half of the denominator. -/
theorem roundQuotient_near {den : Nat} (pos : 0 < den) (num : Nat) :
    2 * (roundQuotient num den * den) ≤ 2 * num + den ∧
      2 * num ≤ 2 * (roundQuotient num den * den) + den := by
  have split_num := Nat.div_add_mod num den
  have small := Nat.mod_lt num pos
  have next_multiple : (num / den + 1) * den = num / den * den + den := Nat.succ_mul ..
  rw [Nat.mul_comm] at split_num
  unfold roundQuotient
  dsimp only
  split
  · next under =>
    rw [Nat.compare_eq_lt] at under
    omega
  · next half =>
    rw [Nat.compare_eq_eq] at half
    rcases Nat.mod_two_eq_zero_or_one (num / den) with even | odd
    · rw [even, Nat.add_zero]
      omega
    · rw [odd]
      omega
  · next above =>
    rw [Nat.compare_eq_gt] at above
    omega

theorem nearest_one (n : Nat) : nearest n 1 = roundQuotient n (lastPlace n) * lastPlace n := by
  unfold nearest
  dsimp only
  rw [Nat.div_one, Nat.one_mul]

/-- Rounding moves a number by at most half of its last place. -/
theorem nearest_near (n : Nat) :
    2 * nearest n 1 ≤ 2 * n + lastPlace n ∧ 2 * n ≤ 2 * nearest n 1 + lastPlace n := by
  rw [nearest_one]
  exact roundQuotient_near (lastPlace_pos n) n

/-- A quotient below a power of two is not rounded beyond it. -/
theorem nearest_le_of_div_lt {num den k : Nat} (lt : num / den < Nat.pow 2 k) :
    nearest num den ≤ Nat.pow 2 k := by
  rw [Nat.pow_eq] at lt ⊢
  have log : (num / den).log2 - 52 ≤ k := by
    by_cases zero : num / den = 0
    · rw [zero, Nat.log2_zero]
      omega
    · have := (Nat.log2_lt zero).2 lt
      omega
  -- the power of two is itself a multiple of the last place
  have place : 2 ^ (k - ((num / den).log2 - 52)) * lastPlace (num / den) = 2 ^ k := by
    rw [lastPlace, Nat.pow_eq, ← Nat.pow_add]
    congr 1
    omega
  have quotient : num / (den * lastPlace (num / den)) < 2 ^ (k - ((num / den).log2 - 52)) := by
    rw [← Nat.div_div_eq_div_mul, Nat.div_lt_iff_lt_mul (lastPlace_pos _), place]
    exact lt
  calc nearest num den ≤ 2 ^ (k - ((num / den).log2 - 52)) * lastPlace (num / den) :=
        Nat.mul_le_mul_right _ (Nat.le_trans (roundQuotient_le ..) quotient)
    _ = 2 ^ k := place

theorem nearest_le {n k : Nat} (lt : n < Nat.pow 2 k) : nearest n 1 ≤ Nat.pow 2 k :=
  nearest_le_of_div_lt (by rwa [Nat.div_one])

/-- A greater number is never rounded to a smaller one. -/
theorem nearest_mono {m n : Nat} (le : m ≤ n) : nearest m 1 ≤ nearest n 1 := by
  by_cases zero : m = 0
  · rw [zero, nearest_of_fits fits_zero]
    exact Nat.zero_le _
  · have nonzero : n ≠ 0 := by omega
    have logs : m.log2 ≤ n.log2 :=
      (Nat.le_log2 nonzero).2 (Nat.le_trans (Nat.log2_self_le zero) le)
    by_cases same : m.log2 - 52 = n.log2 - 52
    · have place : lastPlace m = lastPlace n := congrArg (Nat.pow 2) same
      rw [nearest_one, nearest_one, place]
      exact Nat.mul_le_mul_right _ (roundQuotient_mono le _)
    · -- the greatest power of two in `n` stands between the two
      have below : m < Nat.pow 2 n.log2 :=
        Nat.lt_of_lt_of_le Nat.lt_log2_self (Nat.pow_le_pow_right (by omega) (by omega))
      have above : Nat.pow 2 n.log2 * 1 ≤ n := by
        rw [Nat.mul_one]
        exact Nat.log2_self_le nonzero
      exact Nat.le_trans (nearest_le below) (le_nearest rfl (by omega) (by omega) above)

/-! ## Decimals -/

theorem lt_pow_digitCount (n : Nat) : n < Nat.pow 10 (digitCount n) :=
  (Nat.length_toDigits_le_iff (by decide) Nat.length_toDigits_pos).1 (Nat.le_refl _)

theorem pow_digitCount_le {n : Nat} (nonzero : n ≠ 0) : Nat.pow 10 (digitCount n - 1) ≤ n := by
  rcases Nat.eq_zero_or_pos (digitCount n - 1) with one | pos
  · rw [one]
    exact Nat.pos_of_ne_zero nonzero
  · refine Nat.le_of_not_lt fun lt => ?_
    have le := (Nat.length_toDigits_le_iff (by decide) pos).2 lt
    have count : 0 < digitCount n := Nat.length_toDigits_pos
    rw [← digitCount] at le
    omega

namespace Decimal

theorem den_pos (d : Decimal) : 0 < d.den := Nat.pow_pos (by decide)

/-- A decimal of a magnitude above `k` is at least `10 ^ k`. -/
theorem le_num_of_lt_magnitude {d : Decimal} {k : Nat} (nonzero : d.digits ≠ 0)
    (lt : k < d.magnitude) : Nat.pow 10 k * d.den ≤ d.num := by
  have count : 0 < digitCount d.digits := Nat.length_toDigits_pos
  rw [magnitude] at lt
  calc Nat.pow 10 k * d.den = 10 ^ (k + (-d.exponent).toNat) := (Nat.pow_add ..).symm
    _ ≤ 10 ^ (digitCount d.digits - 1 + d.exponent.toNat) :=
      Nat.pow_le_pow_right (by decide) (by omega)
    _ = 10 ^ (digitCount d.digits - 1) * 10 ^ d.exponent.toNat := Nat.pow_add ..
    _ ≤ d.num := Nat.mul_le_mul_right _ (pow_digitCount_le nonzero)

/-- A decimal of a magnitude of at most `-k` is below `10 ^ -k`. -/
theorem num_lt_of_magnitude_le {d : Decimal} {k : Nat} (le : d.magnitude ≤ -k) :
    d.num * Nat.pow 10 k < d.den := by
  have count : 0 < digitCount d.digits := Nat.length_toDigits_pos
  rw [magnitude] at le
  have whole : d.num = d.digits := by
    rw [num, show d.exponent.toNat = 0 by omega]
    exact Nat.mul_one _
  calc d.num * Nat.pow 10 k < 10 ^ digitCount d.digits * Nat.pow 10 k := by
        rw [whole]
        exact Nat.mul_lt_mul_of_pos_right (lt_pow_digitCount _) (Nat.pow_pos (by decide))
    _ = 10 ^ (digitCount d.digits + k) := (Nat.pow_add ..).symm
    _ ≤ d.den := Nat.pow_le_pow_right (by decide) (by omega)

end Decimal

namespace Binary64

theorem ofRatio_of_nearest {negative : Bool} {num den n : Nat} (fits : Fits n)
    (h : nearest num den = n) : ofRatio negative num den = .finite negative n fits := by
  subst h
  exact dif_pos fits.1

theorem ofRatio_of_limit_le {negative : Bool} {num den : Nat}
    (le : unitsLimit ≤ nearest num den) : ofRatio negative num den = .infinite negative :=
  dif_neg (Nat.not_lt.2 le)

end Binary64

namespace Decimal

/-- The number that a decimal is read as is the one nearest to its value. -/
theorem toBinary64_eq (negative : Bool) (d : Decimal) :
    d.toBinary64 negative = .ofRatio negative (d.num * unitsPerOne) d.den := by
  unfold toBinary64
  split
  · next digits =>
    have num : d.num = 0 := by rw [num, digits, Nat.zero_mul]
    rw [num, Nat.zero_mul]
    exact (Binary64.ofRatio_of_nearest fits_zero (nearest_eq_zero d.den_pos)).symm
  · next digits =>
    split
    · next lt =>
      -- `10 ^ 309` is more than `2 ^ 1024`, the first power of two that is out of range
      have cross {p : Nat} (limit : unitsLimit ≤ p * unitsPerOne) (value : p * d.den ≤ d.num) :
          unitsLimit * d.den ≤ d.num * unitsPerOne :=
        calc unitsLimit * d.den ≤ p * unitsPerOne * d.den := Nat.mul_le_mul_right _ limit
          _ = p * d.den * unitsPerOne := Nat.mul_right_comm ..
          _ ≤ d.num * unitsPerOne := Nat.mul_le_mul_right _ value
      have le := cross (by decide +kernel) (le_num_of_lt_magnitude digits lt)
      obtain ⟨k, bits, power⟩ := unitsLimit_eq
      have far := le_nearest power bits d.den_pos le
      exact (Binary64.ofRatio_of_limit_le far).symm
    · split
      · next lt =>
        -- half a unit is more than `10 ^ -324`
        have cross {p : Nat} (half : 2 * unitsPerOne ≤ p) (value : d.num * p < d.den) :
            2 * (d.num * unitsPerOne) < d.den :=
          calc 2 * (d.num * unitsPerOne) = d.num * (2 * unitsPerOne) := Nat.mul_left_comm ..
            _ ≤ d.num * p := Nat.mul_le_mul_left _ half
            _ < d.den := value
        have small := cross (by decide +kernel) (num_lt_of_magnitude_le (k := 324) (by omega))
        exact (Binary64.ofRatio_of_nearest fits_zero (nearest_eq_zero small)).symm
      · rfl

/-- Both decimals have the same value. -/
def Same (d d' : Decimal) : Prop := d.num * d'.den = d'.num * d.den

/-- The decimal rounds to the given number of units. -/
def Rounds (d : Decimal) (units : Nat) : Prop := nearest (d.num * unitsPerOne) d.den = units

theorem rounds_zero {d : Decimal} (zero : d.digits = 0) : d.Rounds 0 := by
  rw [Rounds, num, zero, Nat.zero_mul, Nat.zero_mul]
  exact nearest_eq_zero d.den_pos

theorem Same.rounds {d d' : Decimal} {units : Nat} (same : d.Same d') (h : d.Rounds units) :
    d'.Rounds units := by
  have cross : d'.num * unitsPerOne * d.den = d.num * unitsPerOne * d'.den := by
    rw [Nat.mul_right_comm, ← same, Nat.mul_right_comm]
  rw [Rounds, nearest_eq_of_cross d'.den_pos d.den_pos cross]
  exact h

theorem Same.trans {d d' d'' : Decimal} (h : d.Same d') (h' : d'.Same d'') : d.Same d'' := by
  refine Nat.eq_of_mul_eq_mul_right d'.den_pos ?_
  calc d.num * d''.den * d'.den = d.num * d'.den * d''.den := Nat.mul_right_comm ..
    _ = d'.num * d.den * d''.den := by rw [h]
    _ = d'.num * d''.den * d.den := Nat.mul_right_comm ..
    _ = d''.num * d'.den * d.den := by rw [h']
    _ = d''.num * d.den * d'.den := Nat.mul_right_comm ..

theorem Rounds.toBinary64 {d : Decimal} {units : Nat} (h : d.Rounds units) (fits : Fits units)
    (negative : Bool) : d.toBinary64 negative = .finite negative units fits := by
  rw [toBinary64_eq]
  exact Binary64.ofRatio_of_nearest fits h

/-! ## The shortest decimal -/

theorem rounds_of_roundsTo {d : Decimal} {units : Nat} (h : d.roundsTo units = true) :
    d.Rounds units := by
  rw [roundsTo, toBinary64_eq, Binary64.ofRatio] at h
  split at h
  · next finite =>
    split at finite
    · cases finite
      rw [decide_eq_true_eq] at h
      exact h
    · cases finite
  · cases h

theorem rounds_of_onGrid? {d : Decimal} {units : Nat} {e : Int} (h : onGrid? units e = some d) :
    d.Rounds units := by
  unfold onGrid? at h
  dsimp only at h
  split at h
  · next below above =>
    split at h
    · cases h
      exact rounds_of_roundsTo below
    · cases h
      exact rounds_of_roundsTo above
  · next below _ =>
    cases h
    exact rounds_of_roundsTo below
  · next _ above =>
    cases h
    exact rounds_of_roundsTo above
  · cases h

theorem exact_eq : ∃ n : Nat, unitsPerOne = Nat.pow 2 n ∧
    ∀ units, exact units = ⟨units * Nat.pow 5 n, -n⟩ := by
  obtain ⟨n, value⟩ : ∃ n, n = 1074 := ⟨_, rfl⟩
  refine ⟨n, ?_, fun units => ?_⟩
  · subst value
    decide +kernel
  · rw [exact, ← value]
    subst value
    congr 1

theorem rounds_exact {units : Nat} (fits : Fits units) : (exact units).Rounds units := by
  obtain ⟨n, power, eq⟩ := exact_eq
  have whole : (-n : Int).toNat = 0 := by omega
  have places : (- -n : Int).toNat = n := by omega
  have ten : Nat.pow 5 n * Nat.pow 2 n = Nat.pow 10 n := (Nat.mul_pow 5 2 n).symm
  have pos : 0 < Nat.pow 10 n := Nat.pow_pos (by decide)
  have cancel := nearest_mul pos units 1
  rw [Nat.one_mul, nearest_of_fits fits] at cancel
  rw [Rounds, eq, num, den, whole, places, power, show Nat.pow 10 0 = 1 from rfl, Nat.mul_one,
    Nat.mul_assoc, ten, cancel]

theorem same_trim (d : Decimal) : d.Same d.trim := by
  fun_induction trim d with
  | case1 d h ih =>
    refine Same.trans ?_ ih
    have digits : d.digits / 10 * 10 = d.digits := Nat.div_mul_cancel (Nat.dvd_of_mod_eq_zero h.2)
    unfold Same num den
    simp only [Nat.pow_eq]
    rcases Int.lt_or_le d.exponent 0 with neg | nonneg
    · rw [show d.exponent.toNat = 0 by omega, show (d.exponent + 1).toNat = 0 by omega,
        show (-d.exponent).toNat = (-(d.exponent + 1)).toNat + 1 by omega, Nat.pow_zero,
        Nat.mul_one, Nat.mul_one, Nat.pow_succ', ← Nat.mul_assoc, digits]
    · rw [show (-d.exponent).toNat = 0 by omega, show (-(d.exponent + 1)).toNat = 0 by omega,
        show (d.exponent + 1).toNat = d.exponent.toNat + 1 by omega, Nat.pow_zero,
        Nat.mul_one, Nat.mul_one, Nat.pow_succ', ← Nat.mul_assoc, digits]
  | case2 d h => rfl

theorem shortest_rounds {units : Nat} (fits : Fits units) : (shortest units).Rounds units := by
  refine (same_trim _).rounds ?_
  generalize found : (List.range 17).findSome? _ = d?
  cases d? with
  | none => exact rounds_exact fits
  | some d =>
    obtain ⟨n, _, grid⟩ := List.exists_of_findSome?_eq_some found
    exact rounds_of_onGrid? grid

end Decimal

end Ember
