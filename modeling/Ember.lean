import Ember.Main
import Ember.FileTree
import Ember.Text.Pool
import Ember.Expr.Postorder
import Ember.Proofs.Grammar
import Ember.Proofs.Expression
import Ember.Proofs.Statement
import Ember.Proofs.Cut
import Ember.Proofs.Tiling
import Ember.Proofs.Fault
import Ember.Proofs.Height
import Ember.Proofs.Listing
import Ember.Proofs.ViablePrefix
import Ember.Proofs.Kind
import Ember.Proofs.Wrapping
import Ember.Proofs.SingleExpression
import Ember.Proofs.Placement
import Ember.Proofs.Session
import Ember.Proofs.Quoting
import Ember.Proofs.Spacing
import Ember.Proofs.Concatenation
import Ember.Proofs.Descent
import Ember.Proofs.Rounding
import Ember.Proofs.NumberText
import Ember.Proofs.Dump
import Ember.Proofs.JsonGrammar
import Ember.Proofs.JsonReport
import Ember.Proofs.Phases
import Ember.Proofs.StackMachine
import Ember.Proofs.DivisionAndShift
import Ember.Proofs.Comparison
import Ember.Proofs.Rereading
import Ember.Proofs.Log
import Ember.Proofs.LineEnd
import Ember.Proofs.Numeral
import Ember.Proofs.Breach
import Ember.Proofs.Overflow
import Ember.Proofs.Finite
import Ember.Proofs.Utf8
import Ember.Proofs.TextContent
import Ember.Proofs.LiteralUnits
