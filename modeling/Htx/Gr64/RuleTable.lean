import Mathlib

/-!
# Rule definition tables

An exerciser describes the keywords of its rule file in a table: for each keyword a data
type, a length and a list of the values and value ranges it may have.
-/

namespace Htx.Gr64

def maxKeywordLen : Nat := 14

def maxKeyvalLen : Nat := 78

/-! ## Characters and numbers -/

def isSpace (c : Char) : Bool :=
  c = ' ' ∨ ('\t' ≤ c ∧ c ≤ '\r')

def decimal (digits : List Char) : Nat :=
  digits.foldl (fun n c => 10 * n + (c.toNat - '0'.toNat)) 0

def longMax : Int := 2 ^ 63 - 1

def strtol (text : List Char) : Int × List Char :=
  let signed := text.dropWhile isSpace
  let negative := signed.head? = some '-'
  let unsigned :=
    if signed.head? = some '-' ∨ signed.head? = some '+' then signed.drop 1 else signed
  let digits := unsigned.takeWhile Char.isDigit
  if digits = [] then (0, text)
  else
    (if negative then max (-longMax - 1) (-(decimal digits : Int))
      else min longMax (decimal digits), unsigned.dropWhile Char.isDigit)

def checkLong (value : List Char) : Option Int :=
  let read := strtol value
  if read.2 = value ∧ read.1 = 0 then none
  else
    match read.2 with
    | [] => some read.1
    | c :: _ => if isSpace c then some read.1 else none

/-- A `long` that is converted to a `double` and back: the nearest number with 53
significant bits, the even one of two, and at most the largest `long`, as on Power. -/
def throughDouble (n : Int) : Int :=
  let magnitude := n.natAbs
  let excess := magnitude.log2 + 1 - 53
  let step := 2 ^ excess
  let floor := magnitude / step
  let rest := magnitude % step
  let rounded := if step < 2 * rest ∨ (step = 2 * rest ∧ floor % 2 = 1) then floor + 1 else floor
  if n < 0 then -((rounded * step : Nat) : Int) else min longMax ((rounded * step : Nat) : Int)

def strLe : List Char -> List Char -> Bool
  | [], _ => true
  | _ :: _, [] => false
  | a :: as, b :: bs => a < b ∨ (a = b ∧ strLe as bs = true)

/-! ## The table -/

inductive DataType where
  | string
  | long
  | other (code : Int)
deriving DecidableEq

structure RuleDef where
  keyword : List Char
  dataType : DataType
  len : Int
  valueList : List Char
  keyword_ne : keyword ≠ []
deriving DecidableEq

inductive TableError where
  | hyphen
  | tooLong
  | illegalLong
  | illegalType
  | illegalSyntax
  | missingRangeEnd
  | secondDelimiter
  | illegalRange
  | fault
deriving DecidableEq

def nextArg (list : List Char) : Option (List Char × List Char) :=
  let start := list.dropWhile (fun c => isSpace c || c == ',')
  if start = [] then none
  else some (start.takeWhile (· != ','), start.dropWhile (· != ','))

def argsFrom : Nat -> List Char -> List (List Char)
  | 0, _ => []
  | fuel + 1, list =>
    match nextArg list with
    | none => []
    | some (arg, rest) => arg :: argsFrom fuel rest

def RuleDef.args (entry : RuleDef) : List (List Char) :=
  argsFrom entry.valueList.length entry.valueList

def chkAValue (entry : RuleDef) (value : List Char) : Except TableError Int :=
  match entry.dataType with
  | .string =>
    if value.head? = some '-' then .error .hyphen
    -- the length is compared as an unsigned number, a negative one allows everything
    else if 0 ≤ entry.len ∧ entry.len < value.length then .error .tooLong
    else .ok 0
  | .long =>
    match checkLong value with
    | none => .error .illegalLong
    | some n => .ok (throughDouble n)
  | .other _ => .error .illegalType

def scanBound : Bool -> List Char -> List Char × List Char
  | _, [] => ([], [])
  | hitNonDelim, c :: rest =>
    if isSpace c then ([], c :: rest)
    else if c = '-' ∧ hitNonDelim = true then ([], c :: rest)
    else
      let bound := scanBound (hitNonDelim || c != '-') rest
      (c :: bound.1, bound.2)

structure Arg where
  value1 : List Char
  value2 : List Char
  long1 : Int
  long2 : Int
deriving DecidableEq

def inOrder (entry : RuleDef) (value1 value2 : List Char) (long1 long2 : Int) : Bool :=
  if entry.dataType = .string then strLe value1 value2 else decide (long1 ≤ long2)

def chkRangeEnd (entry : RuleDef) (value1 : List Char) (long1 : Int) (text : List Char) :
    Except TableError Arg :=
  if text = [] then .error .missingRangeEnd
  else
    let bound := scanBound false text
    if maxKeyvalLen < bound.1.length then .error .fault
    else if bound.2.head? = some '-' then .error .secondDelimiter
    else if (bound.2.dropWhile isSpace).head?.getD ',' ≠ ',' then
      .error .illegalSyntax
    else
      match chkAValue entry bound.1 with
      | .error error => .error error
      | .ok long2 =>
        if inOrder entry value1 bound.1 long1 long2 then
          .ok ⟨value1, bound.1, long1, long2⟩
        else .error .illegalRange

def chkArg (entry : RuleDef) (arg : List Char) : Except TableError Arg :=
  if 2 * maxKeyvalLen < arg.length then .error .fault
  else
    let bound := scanBound false arg
    if maxKeyvalLen < bound.1.length then .error .fault
    else
      match chkAValue entry bound.1 with
      | .error error => .error error
      | .ok long1 =>
        match bound.2.dropWhile isSpace with
        | [] => .ok ⟨bound.1, [], long1, 0⟩
        | c :: rest =>
          if c = '-' then chkRangeEnd entry bound.1 long1 (rest.dropWhile isSpace)
          else .error .illegalSyntax

def chkArgs (entry : RuleDef) : List (List Char) -> Except TableError Unit
  | [] => .ok ()
  | arg :: args =>
    match chkArg entry arg with
    | .error error => .error error
    | .ok _ => chkArgs entry args

def chkRdtSyntax : List RuleDef -> Except TableError Unit
  | [] => .ok ()
  | entry :: table =>
    match chkArgs entry entry.args with
    | .error error => .error error
    | .ok _ => chkRdtSyntax table

def Arg.allows (arg : Arg) (dataType : DataType) (value : List Char) (lvalue : Int) : Bool :=
  if dataType = .string then
    if arg.value2 = [] then arg.value1 == value
    else strLe arg.value1 value && strLe value arg.value2
  else
    if arg.value2 = [] then arg.long1 == lvalue
    else decide (arg.long1 ≤ lvalue) && decide (lvalue ≤ arg.long2)

def validateArgs (entry : RuleDef) (value : List Char) (lvalue : Int) : List (List Char) -> Bool
  | [] => false
  | arg :: args =>
    match chkArg entry arg with
    | .error _ => false
    | .ok bounds =>
      bounds.allows entry.dataType value lvalue || validateArgs entry value lvalue args

def validateValue (entry : RuleDef) (value : List Char) (lvalue : Int) : Bool :=
  validateArgs entry value lvalue entry.args

end Htx.Gr64
