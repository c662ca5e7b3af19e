import Mathlib.Control.Monad.Basic
import Ember.Evaluation

/-!
# The kinds of values

A number is kept as an integer or as a floating-point number, and the syntax of an expression alone
says which of the two its value is: `Expr.kind`. An operator on bits takes integers only; where an
operand has the other kind, the operator is a misfit, and an expression with a misfit anywhere in it
is ill-kinded.

1. Operators (`PrefixOp.apply_ok`, `InfixOp.apply_ok` and the errors beside them): a result has the
   kind that the kinds of the operands say, and only a misfit is refused for its operands.
2. Expressions (`kind_of_evaluate`, `explains_of_evaluate`): by induction, each operand that has a
   value has the kind of its syntax, so that an operator meets the kinds it was judged by.
-/

namespace Ember

/-! ## Kinds -/

/-- How a number is kept. -/
inductive Kind where
  | int
  | float
deriving DecidableEq

/-- The kind of a result that is an integer only if both operands are. -/
def Kind.join : Kind → Kind → Kind
  | int, int => int
  | _, _ => float

/-- How the number is kept. -/
def Number.kind : Number → Kind
  | .int _ => .int
  | .float _ => .float

/-- The kind of the result, given that of the operand. -/
def PrefixOp.kind (op : PrefixOp) (k : Kind) : Kind :=
  match op with
  | plus | negate | logicalNot => k
  | bitNot => .int

/-- The kind of the result, given those of the operands. -/
def InfixOp.kind (op : InfixOp) (j k : Kind) : Kind :=
  match op with
  | add | subtract | multiply | divide | modulo => j.join k
  | bitAnd | bitOr | bitXor | shiftLeft | shiftRight => .int
  | equal | notEqual | less | lessEqual | greater | greaterEqual => .int

/-- The operator takes integers only, and the operand is none. -/
def PrefixOp.Misfit (op : PrefixOp) (k : Kind) : Prop := op = .bitNot ∧ k = .float

instance (op : PrefixOp) (k : Kind) : Decidable (op.Misfit k) :=
  inferInstanceAs (Decidable (_ ∧ _))

/-- The operator takes integers only, and one of the operands is none. -/
def InfixOp.Misfit (op : InfixOp) (j k : Kind) : Prop :=
  op ∈ [bitAnd, bitOr, bitXor, shiftLeft, shiftRight] ∧ (j = .float ∨ k = .float)

instance (op : InfixOp) (j k : Kind) : Decidable (op.Misfit j k) :=
  inferInstanceAs (Decidable (_ ∧ _))

namespace Expr

/-- The kind of the value, as the syntax says. -/
def kind : Expr → Kind
  | literal n _ => n.kind
  | unary op e _ => op.kind e.kind
  | binary op l r _ => op.kind l.kind r.kind

/-- The expression and all expressions in it. -/
def parts : Expr → List Expr
  | literal n p => [literal n p]
  | unary op e p => unary op e p :: e.parts
  | binary op l r p => binary op l r p :: (l.parts ++ r.parts)

/-- The operator at the root, as it is written. -/
def symbol? : Expr → Option String
  | literal _ _ => none
  | unary op _ _ => some op.symbol
  | binary op _ _ _ => some op.symbol

/-- The operator at the root takes integers only and has an operand of the other kind. -/
def Misfit : Expr → Prop
  | literal _ _ => False
  | unary op e _ => op.Misfit e.kind
  | binary op l r _ => op.Misfit l.kind r.kind

instance : (e : Expr) → Decidable e.Misfit
  | literal _ _ => inferInstanceAs (Decidable False)
  | unary op e _ => inferInstanceAs (Decidable (op.Misfit e.kind))
  | binary op l r _ => inferInstanceAs (Decidable (op.Misfit l.kind r.kind))

/-- Some operator in the expression is a misfit. -/
def IllKinded (e : Expr) : Prop := ∃ part ∈ e.parts, part.Misfit

instance (e : Expr) : Decidable e.IllKinded :=
  inferInstanceAs (Decidable (∃ part ∈ e.parts, part.Misfit))

theorem not_illKinded_literal (n : Number) (p : Position) : ¬ (literal n p).IllKinded := by
  rintro ⟨part, mem, misfit⟩
  rw [parts, List.mem_singleton] at mem
  subst mem
  exact misfit

theorem illKinded_unary_iff {op : PrefixOp} {e : Expr} {p : Position} :
    (unary op e p).IllKinded ↔ op.Misfit e.kind ∨ e.IllKinded := by
  simp only [IllKinded, parts, List.mem_cons, or_and_right, exists_or, exists_eq_left]
  rfl

theorem illKinded_binary_iff {op : InfixOp} {l r : Expr} {p : Position} :
    (binary op l r p).IllKinded ↔ op.Misfit l.kind r.kind ∨ l.IllKinded ∨ r.IllKinded := by
  simp only [IllKinded, parts, List.mem_cons, List.mem_append, or_and_right, exists_or,
    exists_eq_left]
  rfl

end Expr

/-! ## Operators -/

namespace Number

@[simp]
theorem kind_add (l r : Number) : (l.add r).kind = l.kind.join r.kind := by
  cases l <;> cases r <;> rfl

@[simp]
theorem kind_sub (l r : Number) : (l.sub r).kind = l.kind.join r.kind := by
  cases l <;> cases r <;> rfl

@[simp]
theorem kind_mul (l r : Number) : (l.mul r).kind = l.kind.join r.kind := by
  cases l <;> cases r <;> rfl

@[simp]
theorem kind_negate (n : Number) : n.negate.kind = n.kind := by
  cases n <;> rfl

@[simp]
theorem kind_logicalNot (n : Number) : n.logicalNot.kind = n.kind := by
  cases n <;> simp only [logicalNot, kind]

@[simp]
theorem kind_ofBool (b : Bool) : (ofBool b).kind = .int := rfl

theorem kind_of_div {l r v : Number} (h : l.div r = .ok v) : v.kind = l.kind.join r.kind := by
  unfold div at h
  split at h
  · cases h
  · cases h
    cases l <;> cases r <;> rfl

theorem kind_of_rem {l r v : Number} (h : l.rem r = .ok v) : v.kind = l.kind.join r.kind := by
  unfold rem at h
  split at h
  · cases h
  · cases h
    cases l <;> cases r <;> rfl

/-- A bitwise operation takes two integers to an integer, and refuses anything else. -/
theorem kind_of_bitwise {op : InfixOp} {f : Int64 → Int64 → Int64} {l r v : Number}
    (h : bitwise op f l r = .ok v) : v.kind = .int ∧ l.kind = .int ∧ r.kind = .int := by
  cases l <;> cases r <;> cases h
  exact ⟨rfl, rfl, rfl⟩

theorem float_of_bitwise_error {op : InfixOp} {f : Int64 → Int64 → Int64} {l r : Number}
    {err : OpError} (h : bitwise op f l r = .error err) : l.kind = .float ∨ r.kind = .float := by
  cases l with
  | int i =>
    cases r with
    | int j => cases h
    | float y => exact .inr rfl
  | float x => exact .inl rfl

end Number

theorem PrefixOp.apply_ok {op : PrefixOp} {n v : Number} (h : op.apply n = .ok v) :
    v.kind = op.kind n.kind ∧ ¬ op.Misfit n.kind := by
  cases op with
  | plus => cases h; exact ⟨rfl, by rintro ⟨⟨⟩, _⟩⟩
  | negate => cases h; exact ⟨n.kind_negate, by rintro ⟨⟨⟩, _⟩⟩
  | logicalNot => cases h; exact ⟨n.kind_logicalNot, by rintro ⟨⟨⟩, _⟩⟩
  | bitNot =>
    cases n with
    | int i => cases h; exact ⟨rfl, by rintro ⟨_, ⟨⟩⟩⟩
    | float x => cases h

theorem PrefixOp.apply_error {op : PrefixOp} {n : Number} {f : OpError}
    (h : op.apply n = .error f) : op.Misfit n.kind ∧ f = .nonIntegralOperand op.symbol := by
  cases op with
  | bitNot =>
    cases n with
    | int i => cases h
    | float x => cases h; exact ⟨⟨rfl, rfl⟩, rfl⟩
  | _ => cases h

theorem InfixOp.not_misfit_of_int {op : InfixOp} {j k : Kind} (left : j = .int) (right : k = .int) :
    ¬ op.Misfit j k := by
  rintro ⟨_, float | float⟩
  · rw [left] at float; cases float
  · rw [right] at float; cases float

theorem InfixOp.apply_ok {op : InfixOp} {l r v : Number} (h : op.apply l r = .ok v) :
    v.kind = op.kind l.kind r.kind ∧ ¬ op.Misfit l.kind r.kind := by
  cases op with
  | add => cases h; exact ⟨l.kind_add r, by simp [Misfit]⟩
  | subtract => cases h; exact ⟨l.kind_sub r, by simp [Misfit]⟩
  | multiply => cases h; exact ⟨l.kind_mul r, by simp [Misfit]⟩
  | divide => exact ⟨Number.kind_of_div h, by simp [Misfit]⟩
  | modulo => exact ⟨Number.kind_of_rem h, by simp [Misfit]⟩
  | bitAnd | bitOr | bitXor | shiftLeft | shiftRight =>
    obtain ⟨kind, left, right⟩ := Number.kind_of_bitwise h
    exact ⟨kind, not_misfit_of_int left right⟩
  | equal | notEqual | less | lessEqual | greater | greaterEqual =>
    cases h
    exact ⟨Number.kind_ofBool _, by simp [Misfit]⟩

/-- The operator divides by zero, or it is refused as a misfit. -/
theorem InfixOp.apply_error {op : InfixOp} {l r : Number} {f : OpError}
    (h : op.apply l r = .error f) : f = .divisionByZero ∨ f = .moduloByZero ∨
      op.Misfit l.kind r.kind ∧ f = .nonIntegralOperand op.symbol := by
  cases op with
  | divide => exact .inl (Number.div_error h)
  | modulo => exact .inr (.inl (Number.rem_error h))
  | bitAnd | bitOr | bitXor | shiftLeft | shiftRight =>
    exact .inr (.inr ⟨⟨by decide, Number.float_of_bitwise_error h⟩, Number.bitwise_error h⟩)
  | _ => cases h

/-! ## Expressions -/

namespace Expr

/-- A value has the kind of its expression, and only a well-kinded expression has a value. -/
theorem kind_of_evaluate {e : Expr} {v : Number} (h : e.evaluate = .ok v) :
    v.kind = e.kind ∧ ¬ e.IllKinded := by
  induction e generalizing v with
  | literal n p =>
    cases h
    exact ⟨rfl, not_illKinded_literal n p⟩
  | unary op e p ih =>
    obtain ⟨n, operand, value⟩ := evaluate_unary_ok h
    obtain ⟨same, well⟩ := ih operand
    -- the operator was applied to a number of the kind that the syntax of the operand has
    obtain ⟨kind, fits⟩ := PrefixOp.apply_ok value
    rw [same] at kind fits
    rw [illKinded_unary_iff]
    exact ⟨kind, not_or.2 ⟨fits, well⟩⟩
  | binary op l r p ihl ihr =>
    obtain ⟨m, n, left, right, value⟩ := evaluate_binary_ok h
    obtain ⟨samel, welll⟩ := ihl left
    obtain ⟨samer, wellr⟩ := ihr right
    obtain ⟨kind, fits⟩ := InfixOp.apply_ok value
    rw [samel, samer] at kind fits
    rw [illKinded_binary_iff]
    exact ⟨kind, not_or.2 ⟨fits, not_or.2 ⟨welll, wellr⟩⟩⟩

/-- The error is that of a division by zero, or that of a misfit among the expressions. -/
def Explains (parts : List Expr) (err : RuntimeError) : Prop :=
  err.fault = .divisionByZero ∨ err.fault = .moduloByZero ∨
    ∃ part ∈ parts, part.Misfit ∧ part.position = err.position ∧
      ∃ s, part.symbol? = some s ∧ err.fault = .nonIntegralOperand s

theorem Explains.mono {ds es : List Expr} {err : RuntimeError} (h : Explains ds err)
    (sub : ds ⊆ es) : Explains es err := by
  rcases h with zero | zero | ⟨part, mem, misfit⟩
  · exact .inl zero
  · exact .inr (.inl zero)
  · exact .inr (.inr ⟨part, sub mem, misfit⟩)

theorem explains_of_evaluate {e : Expr} {err : RuntimeError} (h : e.evaluate = .error err) :
    Explains e.parts err := by
  induction e with
  | literal n p => cases h
  | unary op e p ih =>
    rcases evaluate_unary_error h with inner | ⟨n, operand, fails, rfl⟩
    · exact (ih inner).mono (List.subset_cons_self _ _)
    · obtain ⟨misfit, fault⟩ := PrefixOp.apply_error fails
      rw [(kind_of_evaluate operand).1] at misfit
      exact .inr (.inr ⟨_, List.mem_cons_self .., misfit, rfl, op.symbol, rfl, fault⟩)
  | binary op l r p ihl ihr =>
    -- an operand has failed, or both have values and the operator is the one at the root
    rcases evaluate_binary_error h with left | ⟨m, left, right | ⟨n, right, fails, rfl⟩⟩
    · exact (ihl left).mono fun _ mem => List.mem_cons_of_mem _ (List.mem_append_left _ mem)
    · exact (ihr right).mono fun _ mem => List.mem_cons_of_mem _ (List.mem_append_right _ mem)
    · rcases InfixOp.apply_error fails with zero | zero | ⟨misfit, fault⟩
      · exact .inl zero
      · exact .inr (.inl zero)
      · rw [(kind_of_evaluate left).1, (kind_of_evaluate right).1] at misfit
        exact .inr (.inr ⟨_, List.mem_cons_self .., misfit, rfl, op.symbol, rfl, fault⟩)

/-- The value of an expression has the kind of its syntax. A well-kinded expression fails only where
it divides by zero, an ill-kinded one never has a value, and an operand is refused only at an
operator that is a misfit. -/
theorem evaluate_respects_kinds (e : Expr) :
    (∀ v, e.evaluate = .ok v → v.kind = e.kind) ∧
    (¬ e.IllKinded → ∀ err, e.evaluate = .error err →
      err.fault = .divisionByZero ∨ err.fault = .moduloByZero) ∧
    (e.IllKinded → ∀ v, e.evaluate ≠ .ok v) ∧
    (∀ s p, e.evaluate = .error ⟨.nonIntegralOperand s, p⟩ →
      ∃ part ∈ e.parts, part.Misfit ∧ part.position = p ∧ part.symbol? = some s) := by
  refine ⟨fun v ok => (kind_of_evaluate ok).1, fun well err fails => ?_,
    fun ill v ok => (kind_of_evaluate ok).2 ill, fun s p fails => ?_⟩
  · rcases explains_of_evaluate fails with zero | zero | ⟨part, mem, misfit, _⟩
    · exact .inl zero
    · exact .inr zero
    · exact absurd ⟨part, mem, misfit⟩ well
  · rcases explains_of_evaluate fails with zero | zero | ⟨part, mem, misfit, place, _, symbol, same⟩
    · cases zero
    · cases zero
    · cases same
      exact ⟨part, mem, misfit, place, symbol⟩

/-- In `~(1.0 < 2) | 1 + 2.0` the comparison is an integer and the sum is none: the expression is
ill-kinded, and it is the sign `|` that refuses its operands. -/
theorem mixed_sum_refused_by_bitOr :
    ∃ e : Expr, e.IllKinded ∧ e.evaluate = .error ⟨.nonIntegralOperand "|", ⟨1, 11⟩⟩ ∧
      ∃ part ∈ e.parts, part.Misfit ∧ part.position = ⟨1, 11⟩ ∧ part.symbol? = some "|" := by
  let one : Number := .float (.ofInt 1)
  let two : Number := .float (.ofInt 2)
  let left : Expr := .unary .bitNot (.binary .less (.literal one ⟨1, 2⟩)
    (.literal (.int 2) ⟨1, 8⟩) ⟨1, 6⟩) ⟨1, 0⟩
  let right : Expr := .binary .add (.literal (.int 1) ⟨1, 13⟩) (.literal two ⟨1, 17⟩) ⟨1, 15⟩
  let e : Expr := .binary .bitOr left right ⟨1, 11⟩
  have fails : e.evaluate = .error ⟨.nonIntegralOperand "|", ⟨1, 11⟩⟩ := by decide +kernel
  obtain ⟨_, _, _, refused⟩ := evaluate_respects_kinds e
  exact ⟨e, by decide +kernel, fails, refused _ _ fails⟩

end Expr

end Ember
