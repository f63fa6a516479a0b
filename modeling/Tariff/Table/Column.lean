import Tariff.Table.Kind

/-!
This module contains the columns of a rate table and the scripts that compute some of them.
-/

namespace Tariff

/--
A price that a formula cannot express. A script names the columns it reads.
-/
inductive Script where
  /--
  The fee of the row that the quantity selects. On a curve the fee is capped by the fee of the row
  before plus the overage for every unit above that row's threshold.
  -/
  | threePartCurve (thresholdKey feeKey overageKey : String)
  /--
  Every row up to the one that the quantity selects charges its own rate for the units that fall
  into it.
  -/
  | graduated (rangeKey rateKey : String)
deriving Repr, DecidableEq

def Script.lookupKey : Script → String
  | threePartCurve thresholdKey _ _ => thresholdKey
  | graduated rangeKey _ => rangeKey

structure Column where
  name : String
  key : String
  kind : ColumnKind
  /-- Columns that are shown as parts of this one. -/
  subColumns : List Column := []
  formula : Option String := none
  /-- The script that computes the column. It comes before a formula. -/
  script : Option Script := none
  role : Option Role := none
deriving Repr

namespace Column

def output (name key formula : String) : Column where
  name := name
  key := key
  kind := .output
  formula := some formula

def scripted (name key : String) (script : Script) : Column where
  name := name
  key := key
  kind := .output
  script := some script

mutual

/--
The key of a column and of all columns that are parts of it.
-/
def allKeys : Column → List String
  | ⟨_, key, _, subColumns, _, _, _⟩ => key :: keysOf subColumns

def keysOf : List Column → List String
  | [] => []
  | column :: columns => column.allKeys ++ keysOf columns

end

mutual

def same : Column → Column → Bool
  | ⟨name, key, kind, subColumns, formula, script, role⟩,
    ⟨name', key', kind', subColumns', formula', script', role'⟩ =>
    name == name' && key == key' && kind == kind' && sameAll subColumns subColumns'
      && formula == formula' && script == script' && role == role'

def sameAll : List Column → List Column → Bool
  | [], [] => true
  | a :: as, b :: bs => same a b && sameAll as bs
  | _, _ => false

end

instance : BEq Column := ⟨same⟩

end Column

end Tariff
