import Ember.Evaluation
import Ember.Expr.Postorder
import Ember.Proofs.Lexical

/-!
# Evaluation on a stack of values

The postorder of an expression is also a list of instructions: a literal is put on a stack of
values, and an operator takes its operands off it, the right one first, and puts its result there.
`Node.run?` runs such a list until an operator has no result.

1. Running the postorder puts the value of the expression on the stack, or ends in its error
   (`Node.run?_postorder`).
2. `HasValue` and `FailsAtRoot` say what a value and a failing operator are without an order of
   evaluation. An expression fails exactly if some operator in it does, and its error is that of the
   first one in postorder (`evaluate_error_iff`). An expression that fails at its root has no value,
   so that there is only one such place in a list (`FirstFailure.unique`).
-/

namespace Ember

/-! ## The machine -/

namespace Node

/-- The stack of values after one more node, or the error of its operator; `none` if an operand is
missing. -/
def step? : Node → List Number → Option (Except RuntimeError (List Number))
  | literal n _, stack => some (.ok (n :: stack))
  | unary op p, n :: stack => some ((locate p (op.apply n)).map (· :: stack))
  | binary op p, n :: m :: stack => some ((locate p (op.apply m n)).map (· :: stack))
  | _, _ => none

/-- The stack of values after a list of nodes. The first error ends the run. -/
def run? : List Node → List Number → Option (Except RuntimeError (List Number))
  | [], stack => some (.ok stack)
  | node :: nodes, stack =>
    match node.step? stack with
    | some (.ok stack') => run? nodes stack'
    | some (.error err) => some (.error err)
    | none => none

theorem run?_append_of_ok {ms : List Node} {stack stack' : List Number}
    (h : run? ms stack = some (.ok stack')) (ns : List Node) :
    run? (ms ++ ns) stack = run? ns stack' := by
  induction ms generalizing stack with
  | nil =>
    cases h
    rfl
  | cons node ms ih =>
    rw [run?] at h
    rw [List.cons_append, run?]
    split at h
    · exact ih h
    · cases h
    · cases h

theorem run?_append_of_error {ms : List Node} {stack : List Number} {err : RuntimeError}
    (h : run? ms stack = some (.error err)) (ns : List Node) :
    run? (ms ++ ns) stack = some (.error err) := by
  induction ms generalizing stack with
  | nil => cases h
  | cons node ms ih =>
    rw [run?] at h
    rw [List.cons_append, run?]
    split at h
    · exact ih h
    · exact h
    · cases h

theorem run?_singleton (node : Node) (stack : List Number) :
    run? [node] stack = node.step? stack := by
  rw [run?]
  split
  · next step => rw [step, run?]
  · next step => rw [step]
  · next step => rw [step]

/-- Running the postorder of an expression puts its value on the stack, or ends in its error; what
was on the stack before is not touched. -/
theorem run?_postorder (e : Expr) (stack : List Number) :
    run? e.postorder stack = some (e.evaluate.map (· :: stack)) := by
  induction e generalizing stack with
  | literal n p => rfl
  | unary op e p ih =>
    rw [Expr.postorder, Expr.evaluate]
    cases operand : e.evaluate with
    | error err =>
      rw [operand] at ih
      exact run?_append_of_error (ih stack) _
    | ok n =>
      rw [operand] at ih
      rw [run?_append_of_ok (ih stack), run?_singleton]
      rfl
  | binary op l r p ihl ihr =>
    rw [Expr.postorder, Expr.evaluate, List.append_assoc]
    cases left : l.evaluate with
    | error err =>
      rw [left] at ihl
      exact run?_append_of_error (ihl stack) _
    | ok m =>
      rw [left] at ihl
      rw [run?_append_of_ok (ihl stack)]
      cases right : r.evaluate with
      | error err =>
        rw [right] at ihr
        exact run?_append_of_error (ihr (m :: stack)) _
      | ok n =>
        rw [right] at ihr
        -- the value of the right operand is on top of that of the left one
        rw [run?_append_of_ok (ihr (m :: stack)), run?_singleton]
        rfl

end Node

/-! ## Values and failing operators -/

namespace Expr

/-- The number is the value of the expression: every operator in it has a result, and each works on
the values of its operands. -/
inductive HasValue : Expr → Number → Prop
  | literal {n : Number} {p : Position} : HasValue (.literal n p) n
  | unary {op : PrefixOp} {e : Expr} {p : Position} {n v : Number} (operand : HasValue e n)
      (result : op.apply n = .ok v) : HasValue (.unary op e p) v
  | binary {op : InfixOp} {l r : Expr} {p : Position} {m n v : Number} (left : HasValue l m)
      (right : HasValue r n) (result : op.apply m n = .ok v) : HasValue (.binary op l r p) v

/-- The operands of the root have values on which its operator has no result. The error is that of
the operator, at the place of the root. -/
inductive FailsAtRoot : Expr → RuntimeError → Prop
  | unary {op : PrefixOp} {e : Expr} {p : Position} {n : Number} {f : OpError}
      (operand : HasValue e n) (fails : op.apply n = .error f) : FailsAtRoot (.unary op e p) ⟨f, p⟩
  | binary {op : InfixOp} {l r : Expr} {p : Position} {m n : Number} {f : OpError}
      (left : HasValue l m) (right : HasValue r n) (fails : op.apply m n = .error f) :
      FailsAtRoot (.binary op l r p) ⟨f, p⟩

theorem evaluate_ok_iff {e : Expr} {v : Number} : e.evaluate = .ok v ↔ e.HasValue v := by
  constructor
  · intro h
    induction e generalizing v with
    | literal n p =>
      cases h
      exact .literal
    | unary op e p ih =>
      obtain ⟨n, operand, result⟩ := evaluate_unary_ok h
      exact .unary (ih operand) result
    | binary op l r p ihl ihr =>
      obtain ⟨m, n, left, right, result⟩ := evaluate_binary_ok h
      exact .binary (ihl left) (ihr right) result
  · intro h
    induction h with
    | literal => rfl
    | unary _ result ih =>
      simp only [evaluate, ih, result]
      rfl
    | binary _ _ result ihl ihr =>
      simp only [evaluate, ihl, ihr, result]
      rfl

/-- An expression that fails at its root has that error. -/
theorem FailsAtRoot.evaluate {e : Expr} {err : RuntimeError} (h : e.FailsAtRoot err) :
    e.evaluate = .error err := by
  cases h with
  | unary operand fails =>
    simp only [Expr.evaluate, evaluate_ok_iff.2 operand, fails]
    rfl
  | binary left right fails =>
    simp only [Expr.evaluate, evaluate_ok_iff.2 left, evaluate_ok_iff.2 right, fails]
    rfl

theorem FailsAtRoot.no_value {e : Expr} {err : RuntimeError} (h : e.FailsAtRoot err) :
    ¬ ∃ v, e.HasValue v := by
  rintro ⟨v, value⟩
  have ok := evaluate_ok_iff.2 value
  rw [h.evaluate] at ok
  cases ok

/-! ## The first failing operator -/

/-- The root without its operands. -/
def root : Expr → Node
  | literal n p => .literal n p
  | unary op _ p => .unary op p
  | binary op _ _ p => .binary op p

/-- The expression and all expressions in it, each after those in its operands. -/
def inPostorder : Expr → List Expr
  | literal n p => [literal n p]
  | unary op e p => e.inPostorder ++ [unary op e p]
  | binary op l r p => l.inPostorder ++ r.inPostorder ++ [binary op l r p]

theorem map_root_inPostorder (e : Expr) : e.inPostorder.map root = e.postorder := by
  induction e with
  | literal n p => rfl
  | unary op e p ih => simp [inPostorder, postorder, root, ih]
  | binary op l r p ihl ihr => simp [inPostorder, postorder, root, ihl, ihr]

/-- Where an expression has a value, so has every expression in it. -/
theorem HasValue.inPostorder {e : Expr} {v : Number} (h : e.HasValue v) :
    ∀ d ∈ e.inPostorder, ∃ v, d.HasValue v := by
  induction h with
  | literal => exact List.forall_mem_singleton.2 ⟨_, .literal⟩
  | unary operand result ih =>
    exact List.forall_mem_append.2 ⟨ih, List.forall_mem_singleton.2 ⟨_, .unary operand result⟩⟩
  | binary left right result ihl ihr =>
    exact List.forall_mem_append.2 ⟨List.forall_mem_append.2 ⟨ihl, ihr⟩,
      List.forall_mem_singleton.2 ⟨_, .binary left right result⟩⟩

/-- The first of the expressions that has no value fails at its root, with the given error. -/
def FirstFailure (parts : List Expr) (err : RuntimeError) : Prop :=
  ∃ before part after, parts = before ++ part :: after ∧ (∀ d ∈ before, ∃ v, d.HasValue v) ∧
    part.FailsAtRoot err

theorem FirstFailure.append {parts : List Expr} {err : RuntimeError} (h : FirstFailure parts err)
    (more : List Expr) : FirstFailure (parts ++ more) err := by
  obtain ⟨before, part, after, rfl, values, fails⟩ := h
  exact ⟨before, part, after ++ more, by simp, values, fails⟩

theorem FirstFailure.append_left {parts more : List Expr} {err : RuntimeError}
    (h : FirstFailure more err) (first : ∀ d ∈ parts, ∃ v, d.HasValue v) :
    FirstFailure (parts ++ more) err := by
  obtain ⟨before, part, after, rfl, values, fails⟩ := h
  exact ⟨parts ++ before, part, after, by simp, List.forall_mem_append.2 ⟨first, values⟩, fails⟩

theorem FailsAtRoot.firstFailure {e : Expr} {err : RuntimeError} (h : e.FailsAtRoot err) :
    FirstFailure [e] err :=
  ⟨[], e, [], rfl, by simp, h⟩

/-- What comes first in a list is determined by the list. -/
theorem FirstFailure.unique {parts : List Expr} {err err' : RuntimeError}
    (h : FirstFailure parts err) (h' : FirstFailure parts err') : err = err' := by
  obtain ⟨before, part, after, rfl, values, fails⟩ := h
  obtain ⟨before', part', after', same, values', fails'⟩ := h'
  have ends {part : Expr} {err : RuntimeError} (fails : part.FailsAtRoot err) (after : List Expr) :
      ∀ d ∈ (part :: after).head?, ¬ ∃ v, d.HasValue v := by
    intro d head
    cases head
    exact fails.no_value
  obtain ⟨_, tails⟩ :=
    Lexical.run_append_inj same values values' (ends fails after) (ends fails' after')
  obtain ⟨rfl, _⟩ := List.cons.inj tails
  have error := fails.evaluate
  rw [fails'.evaluate] at error
  exact (Except.error.inj error).symm

theorem firstFailure_of_evaluate {e : Expr} {err : RuntimeError} (h : e.evaluate = .error err) :
    FirstFailure e.inPostorder err := by
  induction e with
  | literal n p => cases h
  | unary op e p ih =>
    rw [inPostorder]
    rcases evaluate_unary_error h with inner | ⟨n, operand, fails, rfl⟩
    · exact (ih inner).append _
    · have value := evaluate_ok_iff.1 operand
      have root : FailsAtRoot (unary op e err.position) err := .unary value fails
      exact root.firstFailure.append_left value.inPostorder
  | binary op l r p ihl ihr =>
    rw [inPostorder]
    rcases evaluate_binary_error h with left | ⟨m, left, right | ⟨n, right, fails, rfl⟩⟩
    · exact ((ihl left).append _).append _
    · have value := evaluate_ok_iff.1 left
      exact ((ihr right).append_left value.inPostorder).append _
    · have value := evaluate_ok_iff.1 left
      have value' := evaluate_ok_iff.1 right
      have root : FailsAtRoot (binary op l r err.position) err := .binary value value' fails
      exact root.firstFailure.append_left
        (List.forall_mem_append.2 ⟨value.inPostorder, value'.inPostorder⟩)

theorem evaluate_error_iff {e : Expr} {err : RuntimeError} :
    e.evaluate = .error err ↔ FirstFailure e.inPostorder err := by
  refine ⟨firstFailure_of_evaluate, fun first => ?_⟩
  cases result : e.evaluate with
  | error err' => rw [first.unique (firstFailure_of_evaluate result)]
  | ok v =>
    -- every expression in `e` has a value then, also the one that fails
    obtain ⟨before, part, after, split, _, fails⟩ := first
    have mem : part ∈ e.inPostorder := by simp [split]
    exact absurd ((evaluate_ok_iff.1 result).inPostorder part mem) fails.no_value

/-- Evaluation ends in an error exactly if the operator of some node has no result on the values of
its operands while all nodes before it in postorder have values, and the error is that of this
operator at this node. It is the same as running the nodes in postorder on a stack of values, where
an operator takes its right operand off first and the first one without a result ends the run. -/
theorem evaluate_fails_at_first_in_postorder (e : Expr) :
    (∀ v, e.evaluate = .ok v ↔ e.HasValue v) ∧
    (∀ err, e.evaluate = .error err ↔
      ∃ before part after, e.inPostorder = before ++ part :: after ∧
        (∀ d ∈ before, ∃ v, d.HasValue v) ∧ part.FailsAtRoot err) ∧
    e.inPostorder.map root = e.postorder ∧
    ∀ stack, Node.run? e.postorder stack = some (e.evaluate.map (· :: stack)) :=
  ⟨fun _ => evaluate_ok_iff, fun _ => evaluate_error_iff, e.map_root_inPostorder,
    Node.run?_postorder e⟩

end Expr

end Ember
