import Tariff.Addon
import Tariff.Amount
import Tariff.Command.Arguments
import Tariff.Command.Directory
import Tariff.Command.Outcome
import Tariff.Command.Rate
import Tariff.Command.Render
import Tariff.Csv
import Tariff.Curve
import Tariff.Decimal.Binary
import Tariff.Decimal.Layout
import Tariff.Decimal.Numeral
import Tariff.Decimal.Shortest
import Tariff.Discount
import Tariff.DrivingFields
import Tariff.Engine
import Tariff.Evaluate
import Tariff.Fault
import Tariff.Fault.Message
import Tariff.Formula.Basic
import Tariff.Formula.Eval
import Tariff.Formula.Expr
import Tariff.Formula.Lexer
import Tariff.Formula.Parser
import Tariff.Formula.Token
import Tariff.Journal
import Tariff.Json.Basic
import Tariff.Json.Draft
import Tariff.Json.Reader
import Tariff.Json.Writer
import Tariff.KeyMap
import Tariff.Lookup
import Tariff.Main
import Tariff.Model
import Tariff.Script
import Tariff.Table.Basic
import Tariff.Table.Column
import Tariff.Table.Kind
import Tariff.Table.Load
import Tariff.Table.Row
import Tariff.Table.Validate
import Tariff.Text
import Tariff.Wire.Assembly
import Tariff.Wire.Decode
import Tariff.Wire.Model
import Tariff.Wire.Request
import Tariff.Wire.Table
import Tariff.Proofs.Amount
import Tariff.Proofs.Fault
import Tariff.Proofs.KeyMap
import Tariff.Proofs.Lookup
import Tariff.Proofs.Confinement
import Tariff.Proofs.Agreement
import Tariff.Proofs.Modes
import Tariff.Proofs.Reprice
import Tariff.Proofs.HigherRow
import Tariff.Proofs.Formula.Grammar
import Tariff.Proofs.Formula.Soundness
import Tariff.Proofs.Formula.Completeness
import Tariff.Proofs.Formula.Places
import Tariff.Proofs.Formula.Lexer
import Tariff.Proofs.Formula.RoundTrip
import Tariff.Proofs.Formula.Height
import Tariff.Proofs.Formula.Spelling
import Tariff.Proofs.RowOrder
import Tariff.Proofs.WellFormed
import Tariff.Proofs.DrivingFields
import Tariff.Proofs.AddonCharges
import Tariff.Proofs.Outputs
import Tariff.Proofs.PrimaryKey
import Tariff.Proofs.Strictness
import Tariff.Proofs.Formula.Tallest
import Tariff.Proofs.Wire.Decode
import Tariff.Proofs.Wire.RoundTrip
import Tariff.Proofs.Binary64.Arithmetic
import Tariff.Proofs.Binary64.Ceiling
import Tariff.Proofs.Curve
import Tariff.Proofs.RangeLookup
import Tariff.Proofs.SharedBoundary
import Tariff.Proofs.ColumnOrder
import Tariff.Proofs.Separation
import Tariff.Proofs.StepBudget
import Tariff.Proofs.ThresholdLookup
import Tariff.Proofs.Exact
import Tariff.Proofs.Graduated
import Tariff.Proofs.ThreePartCurve
import Tariff.Proofs.Bindings
import Tariff.Proofs.ScriptFaults
import Tariff.Proofs.Formula.Body
import Tariff.Proofs.Formula.Printer
import Tariff.Proofs.Formula.Reparse
import Tariff.Proofs.Text.Offsets
import Tariff.Proofs.Formula.FaultPlaces
import Tariff.Proofs.Formula.Bytes
import Tariff.Proofs.Formula.Literals
import Tariff.Proofs.Formula.Safety
import Tariff.Proofs.SampleGaps
import Tariff.Proofs.DiscountPercent
import Tariff.Proofs.Formula.Respelling
import Tariff.Proofs.Formula.Cursor
import Tariff.Proofs.Formula.Counter
