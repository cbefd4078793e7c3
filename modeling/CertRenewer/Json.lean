import Mathlib

/-!
# JSON values

What `json.load` makes of a document: an object keeps its fields in the order of
the text, a number with a fraction or an exponent its literal. Every reader of
this program rejects an object in which a name is given twice.
-/

namespace CertRenewer

inductive Json where
  | null
  | bool (value : Bool)
  | int (value : Int)
  | float (text : String)
  | string (value : String)
  | array (items : List Json)
  | object (fields : List (String × Json))

namespace Json

mutual

/-- No object in the value names a field twice. -/
def distinct : Json → Bool
  | .array items => distinctItems items
  | .object fields => decide (fields.map Prod.fst).Nodup && distinctFields fields
  | _ => true

def distinctItems : List Json → Bool
  | [] => true
  | item :: rest => item.distinct && distinctItems rest

def distinctFields : List (String × Json) → Bool
  | [] => true
  | (_, value) :: rest => value.distinct && distinctFields rest

end

/-! ## Numbers with a fraction -/

/-- The digits in front, and the rest. -/
def digits (text : List Char) : List Char × List Char := text.span Char.isDigit

def natural (digits : List Char) : Nat :=
  digits.foldl (fun n c => n * 10 + (c.toNat - '0'.toNat)) 0

/-- A literal as `mantissa * 10 ^ exponent`. -/
structure Decimal where
  mantissa : Int
  exponent : Int

def exponentOf : List Char → Int
  | _ :: '-' :: digits => -(natural digits : Int)
  | _ :: '+' :: digits => natural digits
  | _ :: digits => natural digits
  | [] => 0

def decimal (text : List Char) : Decimal :=
  let (negative, text) := match text with
    | '-' :: rest => (true, rest)
    | text => (false, text)
  let (whole, text) := digits text
  let (fraction, text) := match text with
    | '.' :: rest => digits rest
    | text => ([], text)
  let mantissa : Int := natural (whole ++ fraction)
  ⟨if negative then -mantissa else mantissa, exponentOf text - fraction.length⟩

/-- The literal is nearest to the float 2.0: it is between the midpoints to its
neighbours `2 - 2 ^ -52` and `2 + 2 ^ -51`, and ties go to the even 2.0. -/
def Decimal.isTwo (d : Decimal) : Bool :=
  let scale : Int := 10 ^ (-d.exponent).toNat
  let scaled : Int := d.mantissa * 10 ^ d.exponent.toNat * 2 ^ 53
  decide ((2 ^ 54 - 1) * scale ≤ scaled ∧ scaled ≤ (2 ^ 54 + 2) * scale)

/-- `value == 2` in the source language: an integer, or a float that is. -/
def equalsTwo : Json → Bool
  | .int value => value == 2
  | .float text => (decimal text.toList).isTwo
  | _ => false

end Json

end CertRenewer
