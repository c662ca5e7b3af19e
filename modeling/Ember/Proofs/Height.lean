import Ember.Proofs.Statement

/-!
# The height of expressions

The limit on nesting counts parentheses and prefix operators. Infix operators also add levels to the
tree: operators of one tier group to the left, so that a chain of them is one long run of left
operands, at no depth at all.

1. `ones_height`: a sum of `n + 1` ones, nested one deep, is `n + 1` high, so that no bound holds
   for every expression that is accepted.
2. `turns_le_of_derives`: on the way from the root to a leaf, the limit bounds all steps but those
   to a left operand.
3. `height_le_turns`: between two of these steps stands a run of left operands. So the height of
   accepted expressions is bounded exactly as far as their runs of left operands are.
-/

namespace Ember

open Grammar

/-- The expression is what the tokens are parsed to, as the only one or in a statement. -/
inductive Yields (ts : List Token) : Expr → Prop
  | ast {a : Ast} {e : Expr} (parsed : Ast.ofTokens ts = .ok a) (root : e ∈ a.root) : Yields ts e
  | program {p : Program} {s : Stmt} (parsed : Program.ofTokens ts = .ok p)
      (mem : s ∈ p.statements) : Yields ts s.value

namespace Expr

/-- How many nodes stand on the longest way from the root to a leaf. -/
def height : Expr → Nat
  | literal _ _ => 1
  | unary _ e _ => e.height + 1
  | binary _ l r _ => max l.height r.height + 1

/-- How many steps to a left operand lead down from the root without another step between them. -/
def spine : Expr → Nat
  | literal _ _ => 0
  | unary _ _ _ => 0
  | binary _ l _ _ => l.spine + 1

/-- The longest run of steps to a left operand anywhere in the expression. -/
def leftRun : Expr → Nat
  | literal _ _ => 0
  | unary _ e _ => e.leftRun
  | binary _ l r _ => max (l.spine + 1) (max l.leftRun r.leftRun)

/-- The most steps from the root to a leaf, steps to a left operand not counted. -/
def turns : Expr → Nat
  | literal _ _ => 0
  | unary _ e _ => e.turns + 1
  | binary _ l r _ => max l.turns (r.turns + 1)

/-! ## Height, turns and runs -/

theorem spine_le_leftRun (e : Expr) : e.spine ≤ e.leftRun := by
  cases e with
  | literal => exact Nat.le_refl 0
  | unary => exact Nat.zero_le _
  | binary op l r p => exact Nat.le_max_left ..

theorem spine_lt_height (e : Expr) : e.spine < e.height := by
  induction e with
  | literal => exact Nat.one_pos
  | unary => exact Nat.succ_pos _
  | binary op l r p ihl _ =>
    unfold spine height
    omega

theorem leftRun_lt_height (e : Expr) : e.leftRun < e.height := by
  induction e with
  | literal => exact Nat.one_pos
  | unary op e p ih => exact Nat.lt_succ_of_lt ih
  | binary op l r p ihl ihr =>
    have spine := l.spine_lt_height
    unfold leftRun height
    omega

/-- A way down is a run of left operands from the root, and after each other step one more. -/
theorem height_le_turns {e : Expr} {m : Nat} (h : e.leftRun ≤ m) :
    e.height ≤ e.spine + e.turns * (m + 1) + 1 := by
  induction e with
  | literal => exact Nat.le_add_left 1 _
  | unary op e p ih =>
    have inner := ih h
    have run : e.spine ≤ m := Nat.le_trans e.spine_le_leftRun h
    simp only [height, spine, turns, Nat.succ_mul]
    omega
  | binary op l r p ihl ihr =>
    simp only [leftRun, Nat.max_le] at h
    obtain ⟨_, hl, hr⟩ := h
    have left := ihl hl
    have right := ihr hr
    have run : r.spine ≤ m := Nat.le_trans r.spine_le_leftRun hr
    have mono : l.turns * (m + 1) ≤ max l.turns (r.turns + 1) * (m + 1) :=
      Nat.mul_le_mul_right _ (Nat.le_max_left ..)
    have mono' : (r.turns + 1) * (m + 1) ≤ max l.turns (r.turns + 1) * (m + 1) :=
      Nat.mul_le_mul_right _ (Nat.le_max_right ..)
    rw [Nat.succ_mul] at mono'
    unfold height spine turns
    omega

end Expr

/-! ## What the limit on nesting bounds -/

/-- Each level of nesting leaves room for one step to a right operand in each of the six tiers. -/
theorem turns_le_of_derives {n : Nat} {ts : List Token} {e : Expr} {d : Nat}
    (h : Derives n ts e d) : e.turns + 6 ≤ n + 6 * d := by
  have tiers : infixTiers.length = 6 := rfl
  induction h with
  | integer => exact Nat.le_refl _
  | float => exact Nat.le_refl _
  | parens _ _ _ ih => omega
  | unary _ _ ih =>
    unfold Expr.turns
    omega
  | operand _ ih => omega
  | binary _ _ _ ihl ihr =>
    unfold Expr.turns
    omega

theorem Stmt.value_ofExpr (print? : Option Token) (e : Expr) :
    (Stmt.ofExpr print? e).value = e := by
  cases print? <;> rfl

theorem Segmented.derives {ts : List Token} {ss : List Segment} (h : Segmented ts ss) :
    ∀ s ∈ ss, ∃ d ≤ maxNesting, Expression s.body s.value d := by
  induction h with
  | nil =>
    intro s mem
    cases mem
  | cons fits _ ih =>
    intro s mem
    rcases List.mem_cons.1 mem with rfl | mem
    · exact fits.derives
    · exact ih s mem

theorem Yields.derives {ts : List Token} {e : Expr} (h : Yields ts e) :
    ∃ us, ∃ d ≤ maxNesting, Expression us e d := by
  cases h with
  | ast parsed root =>
    rcases Ast.ofTokens_ok_iff.1 parsed with ⟨_, rfl⟩ | ⟨e, rfl, derives⟩
    · cases root
    · cases root
      exact ⟨ts, derives⟩
  | program parsed mem =>
    obtain ⟨ss, segmented, rfl⟩ := Program.ofTokens_ok_iff.1 parsed
    obtain ⟨s, mem', rfl⟩ := List.mem_map.1 mem
    rw [Segment.stmt, Stmt.value_ofExpr]
    exact ⟨s.body, segmented.derives s mem'⟩

theorem Yields.turns_le {ts : List Token} {e : Expr} (h : Yields ts e) : e.turns ≤ 1536 := by
  obtain ⟨us, d, le, derives⟩ := h.derives
  have bound : e.turns + 6 ≤ 6 + 6 * d := turns_le_of_derives derives
  have limit : maxNesting = 256 := rfl
  omega

/-! ## Sums of ones -/

/-- The tokens of a sum of `n + 1` ones, all at the same place. -/
def onesTokens : Nat → List Token
  | 0 => [⟨"1", .integer, .start⟩]
  | n + 1 => onesTokens n ++ [⟨"+", .plus, .start⟩, ⟨"1", .integer, .start⟩]

/-- The sum of `n + 1` ones, grouped to the left. -/
def ones : Nat → Expr
  | 0 => .literal (.int 1) .start
  | n + 1 => .binary .add (ones n) (.literal (.int 1) .start) .start

theorem ones_height (n : Nat) : (ones n).height = n + 1 := by
  induction n with
  | zero => rfl
  | succ n ih =>
    show max (ones n).height 1 + 1 = n + 1 + 1
    omega

theorem ones_derives (n : Nat) : Expression (onesTokens n) (ones n) 1 := by
  have one : Derives 0 [⟨"1", .integer, .start⟩] (.literal (.int 1) .start) 1 :=
    .integer rfl (by decide)
  have plus : (TokenKind.plus, InfixOp.add) ∈ tierAt 1 := by decide
  have additive : Derives 2 (onesTokens n) (ones n) 1 := by
    induction n with
    | zero => exact one.of_operand 2
    | succ n ih => exact .binary ih plus (one.of_operand 1)
  exact additive.operand.operand.operand.operand

theorem ones_yields (n : Nat) : Yields (onesTokens n) (ones n) :=
  .ast (Ast.ofTokens_ok_iff.2 (.inr ⟨_, rfl, 1, by decide, ones_derives n⟩)) rfl

/-- No bound holds for the height of every expression that is accepted. -/
theorem Yields.no_height_bound : ¬ ∃ bound, ∀ ts e, Yields ts e → e.height ≤ bound := by
  rintro ⟨bound, all⟩
  have le := all _ _ (ones_yields bound)
  rw [ones_height] at le
  omega

/-- The height of an accepted expression is bounded by its longest run of left operands, and by
nothing less. -/
theorem Yields.height_within_left_runs {ts : List Token} {e : Expr} (h : Yields ts e) :
    e.leftRun < e.height ∧ e.height ≤ 1537 * (e.leftRun + 1) := by
  have height := Expr.height_le_turns (Nat.le_refl e.leftRun)
  have spine := e.spine_le_leftRun
  have turns := Nat.mul_le_mul_right (e.leftRun + 1) h.turns_le
  exact ⟨e.leftRun_lt_height, by omega⟩

/-- The sum of 2049 ones has a run of 2048 left operands. -/
theorem Yields.sum_of_2049_ones_height : Yields (onesTokens 2048) (ones 2048) ∧
    (ones 2048).leftRun < (ones 2048).height ∧
    (ones 2048).height ≤ 1537 * ((ones 2048).leftRun + 1) :=
  ⟨ones_yields 2048, height_within_left_runs (ones_yields 2048)⟩

end Ember
