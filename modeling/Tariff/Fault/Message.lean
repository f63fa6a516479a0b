import Tariff.Decimal.Layout
import Tariff.Fault

/-!
This module contains the wording of faults.
-/

namespace Tariff

/--
Numbers in messages have no exponent, and no point if they are whole.
-/
def Fault.amountLayout : Decimal.Layout where
  positional _ := true
  keepsPoint := false
  plusSign := false
  tie := .up

/--
Number literals in messages always show that they are numbers, by a point or by an exponent, which
numbers from ten quadrillion up and below a ten-thousandth have.
-/
def Formula.Token.literalLayout : Decimal.Layout where
  positional exponent := -4 ≤ exponent && exponent ≤ 15
  keepsPoint := true
  plusSign := false
  tie := .up

def showAmount : Float → String :=
  Fault.amountLayout.render

namespace Formula

def Operator.label : Operator → String
  | .add => "Plus"
  | .sub => "Minus"
  | .mul => "Star"
  | .div => "Slash"
  | .lt => "Lt"
  | .le => "Le"
  | .gt => "Gt"
  | .ge => "Ge"
  | .eq => "EqEq"
  | .ne => "Ne"
  | .and => "And"
  | .or => "Or"

def Mark.label : Mark → String
  | .lookup => "Lookup"
  | .ifWord => "If"
  | .thenWord => "Then"
  | .elseWord => "Else"
  | .not => "Not"
  | .leftParen => "LParen"
  | .rightParen => "RParen"
  | .leftBrace => "LBrace"
  | .rightBrace => "RBrace"
  | .comma => "Comma"

def Token.label : Token Float → String
  | .number value => "Number(" ++ literalLayout.render value ++ ")"
  | .name text => "Ident(\"" ++ text ++ "\")"
  | .operator op => op.label
  | .mark sign => sign.label

def Token.labelOrEnd : Option (Token Float) → String
  | some token => token.label
  | none => "end of input"

def ParseCause.message : ParseCause Float → String
  | .malformedNumber text => "malformed number '" ++ text ++ "'"
  | .loneSigil sigil => "sigil '" ++ sigil.toString ++ "' is not followed by a name"
  | .strayCharacter char => "unexpected character '" ++ char.toString ++ "'"
  | .openBody => "lookup body must end with '\x7d'"
  | .innerLookup => "lookup(...) is only allowed as the outermost wrapper"
  | .emptyExpression => "empty expression"
  | .tooDeep => "formula nests deeper than " ++ Nat.repr maxNesting ++ " levels"
  | .expected mark found => "expected " ++ mark.label ++ ", got " ++ Token.labelOrEnd found
  | .expectedName found => "expected identifier, got " ++ Token.labelOrEnd found
  | .unexpected found => "unexpected " ++ Token.labelOrEnd found
  | .trailing found => "unexpected " ++ found.label ++ " after expression"
  | .unknownFunction name => "unknown function '" ++ name ++ "'"
  | .tooFewArguments name => name ++ "() takes at least 2 arguments"

end Formula

def ColumnKind.label : ColumnKind → String
  | .metricRange => "MetricRange"
  | .threshold => "Threshold"
  | .rate => "Rate"
  | .fee => "Fee"
  | .output => "Output"

def Role.label : Role → String
  | .unitPrice => "UnitPrice"
  | .total => "Total"

def ExpressionFault.message : ExpressionFault Float → String
  | unknownName name => "unknown identifier '" ++ name ++ "'"
  | divisionByZero => "division by zero"
  | notFinite value => "result is not finite (" ++ showAmount value ++ ")"
  | notLookup key => "'" ++ key ++ "' is not a lookup column"
  | noQuantity key => "no quantity supplied for '" ++ key ++ "'"
  | noNumber row key => "row " ++ Nat.repr row ++ " has no numeric '" ++ key ++ "'"
  | noRange row key => "row " ++ Nat.repr row ++ " has no range '" ++ key ++ "'"

def ScriptFault.message : ScriptFault → String
  | notThreshold key => "'" ++ key ++ "' is not a threshold column"
  | notLookup key => "'" ++ key ++ "' is not a lookup column"
  | notValue key kind => "'" ++ key ++ "' is a " ++ kind.label ++ " column, expected a value column"
  | unknownColumn key => "unknown column '" ++ key ++ "'"

def ConfigFault.heading : String := "Configuration error: "

def ConfigFault.message : ConfigFault Float → String
  | duplicateColumn key => "duplicate column key '" ++ key ++ "'"
  | missingRange row key => "row " ++ Nat.repr row ++ " has no range for '" ++ key ++ "'"
  | invertedRange row key low high =>
    "row " ++ Nat.repr row ++ " range '" ++ key ++ "' has low " ++ showAmount low ++ " above high "
      ++ showAmount high
  | overlappingRange row key low high previousLow previousHigh =>
    "row " ++ Nat.repr row ++ " range '" ++ key ++ "' [" ++ showAmount low ++ ", "
      ++ showAmount high ++ "] overlaps or precedes [" ++ showAmount previousLow ++ ", "
      ++ showAmount previousHigh ++ "]"
  | missingThreshold row key => "row " ++ Nat.repr row ++ " has no threshold for '" ++ key ++ "'"
  | unorderedThreshold row key value previous =>
    "row " ++ Nat.repr row ++ " threshold '" ++ key ++ "' = " ++ showAmount value
      ++ " is not above " ++ showAmount previous
  | duplicateRole role => "more than one output column with role " ++ role.label
  | badLookup output key =>
    "output '" ++ output ++ "' looks up '" ++ key
      ++ "', which is not a metric-range or threshold column"
  | badScript output fault => "output '" ++ output ++ "': " ++ fault.message
  | missingBounds key => "CSV is missing '" ++ key ++ "_low' or '" ++ key ++ "_high'"
  | notNumber line text header =>
    "CSV row " ++ Nat.repr line ++ ": '" ++ text ++ "' is not a number in column '" ++ header ++ "'"
  | duplicateTier id => "duplicate tier id '" ++ id ++ "'"
  | duplicateTierName id name =>
    "tier '" ++ id ++ "': name '" ++ name ++ "' is already used by another tier"
  | tier id fault => "tier '" ++ id ++ "': " ++ heading ++ fault.message
  | badPercentage id => "addon '" ++ id ++ "' has a non-finite percentage"
  | invertedBounds id low high =>
    "addon '" ++ id ++ "' has min " ++ showAmount low ++ " above max " ++ showAmount high
  | addon id fault => "addon '" ++ id ++ "': " ++ heading ++ fault.message
  | sampleCount count => "sample_count must be between 1 and 100, got " ++ Nat.repr count
  | noSteps => "script_step_budget must be at least 1"

def ReferenceFault.message : ReferenceFault → String
  | unknownAddon id => "addon '" ++ id ++ "' does not exist"
  | noTable id => "addon '" ++ id ++ "' has no custom metric table"
  | noMetric id => "addon '" ++ id ++ "' table has no metric column"
  | noUnits id => "addon '" ++ id ++ "' is priced per unit but only a quantity map was supplied"
  | noModel id => "addon '" ++ id ++ "' has no price model"

def Fault.message : Fault Float → String
  | rangeExceeded quantity low high =>
    "Quantity " ++ showAmount quantity ++ " is outside the configured range [" ++ showAmount low
      ++ ", " ++ showAmount high ++ "]"
  | rangeGap quantity below above =>
    "Quantity " ++ showAmount quantity ++ " falls in the gap between ranges ending at "
      ++ showAmount below ++ " and starting at " ++ showAmount above
  | parse error =>
    "Formula parse error at offset " ++ Nat.repr error.offset ++ ": " ++ error.cause.message
  | expression fault => "Expression error: " ++ fault.message
  | missingReference fault => "Missing reference: " ++ fault.message
  | budgetExceeded limit => "Script exceeded its step budget of " ++ Nat.repr limit
  | config fault => ConfigFault.heading ++ fault.message
  | unknownTier id => "Unknown tier: " ++ id

end Tariff
