import TradingEngine.Common.OkxConstants
import TradingEngine.Library.Exec

/-! The JSON scanner: position-based searches over an unparsed text. Loops that
the source bounds only by what they find carry fuel, and running out of it is
visible as `Exn.outOfFuel` or as a missing result. -/

set_option autoImplicit false

namespace TradingEngine.Json

open Library.Exec

/-- `std::string_view::substr` at a position inside the text. -/
def substr (text : Text) (pos count : Nat) : Text := (text.drop pos).take count

/-- First occurrence of `pattern`, as an offset. -/
def findText (pattern : Text) : Text → Option Nat
  | [] => if pattern = [] then some 0 else none
  | c :: rest =>
      if pattern.isPrefixOf (c :: rest) then some 0 else (findText pattern rest).map (· + 1)

/-- `std::string_view::find` of a pattern from a position on. -/
def findFrom (text pattern : Text) (start : Nat) : Option Nat :=
  if start ≤ text.length then (findText pattern (text.drop start)).map (· + start) else none

def isJsonWhitespace (c : Char) : Bool :=
  c = ' ' || c = '\t' || c = '\n' || c = '\r'

def skipWhitespace (text : Text) (pos : Nat) : Nat :=
  pos + ((text.drop pos).takeWhile isJsonWhitespace).length

/-- Characters the string loop passes before it stops at a quote or the end.
An escape passes two, also where the backslash is the last character. -/
def stringLength : Text → Nat
  | [] => 0
  | c :: rest =>
      if c = '"' then 0
      else if c = '\\' then
        match rest with
        | [] => 2
        | _ :: tail => 2 + stringLength tail
      else 1 + stringLength rest

/-- Characters the bracket loop passes, from inside `depth` open brackets, until
the last of them closes or the text ends. Only brackets of the same kind count. -/
def containerLength (opening closing : Char) : Nat → Nat → Text → Nat
  | 0, _, _ => 0
  | _ + 1, _, [] => 0
  | fuel + 1, depth, c :: rest =>
      if depth = 0 then 0
      else if c = '"' then
        let skipped := stringLength rest + 1
        1 + skipped + containerLength opening closing fuel depth (rest.drop skipped)
      else if c = opening then 1 + containerLength opening closing fuel (depth + 1) rest
      else if c = closing then 1 + containerLength opening closing fuel (depth - 1) rest
      else 1 + containerLength opening closing fuel depth rest

def isDelimiter (c : Char) : Bool :=
  c = ',' || c = '}' || c = ']' || isJsonWhitespace c

/-- Length of the value a text starts with, by its first character. -/
def valueLength : Text → Nat
  | [] => 0
  | c :: rest =>
      if c = '"' then 1 + stringLength rest + 1
      else if c = '{' then 1 + containerLength '{' '}' rest.length 1 rest
      else if c = '[' then 1 + containerLength '[' ']' rest.length 1 rest
      else ((c :: rest).takeWhile (fun d => !isDelimiter d)).length

/-- Skips over the current json value, including nested objects/arrays and strings. -/
def skipValue (json : Text) (pos : Nat) : Nat :=
  let start := skipWhitespace json pos
  start + valueLength (json.drop start)

def findValueStartFrom (json pattern : Text) : Nat → Nat → Option Nat
  | 0, _ => none
  | fuel + 1, searchFrom =>
      match findFrom json pattern searchFrom with
      | none => none
      | some keyPos =>
          let afterKey := skipWhitespace json (keyPos + pattern.length)
          if json[afterKey]? = some ':' then some (skipWhitespace json (afterKey + 1))
          -- the matched text stands inside some other string value
          else findValueStartFrom json pattern fuel (keyPos + pattern.length)

def findValueStart (json key : Text) : Option Nat :=
  findValueStartFrom json ('"' :: key ++ ['"']) (json.length + 1) 0

/-- Extracts a string-valued field; escapes are not interpreted. -/
def findString (json key : Text) : Option Text :=
  match findValueStart json key with
  | none => none
  | some valueStart =>
      if json[valueStart]? = some '"' then
        let contentStart := valueStart + 1
        match findFrom json ['"'] contentStart with
        | none => none
        | some contentEnd => some (substr json contentStart (contentEnd - contentStart))
      else none

def isNumberChar (c : Char) : Bool :=
  c.isDigit || c = '-' || c = '+' || c = '.' || c = 'e' || c = 'E'

def findNumber (json key : Text) : Option Text :=
  match findValueStart json key with
  | none => none
  | some valueStart =>
      let number := (json.drop valueStart).takeWhile isNumberChar
      if number = [] then none else some number

/-- No element starts at `pos`: the array is closed there or the text has ended. -/
def endsArray (array : Text) (pos : Nat) : Bool :=
  match array[pos]? with
  | none => true
  | some c => c = ']'

/-- Past the comma, if any, that follows an element ending at `stop`. -/
def afterElement (array : Text) (stop : Nat) : Nat :=
  let pos := skipWhitespace array stop
  if array[pos]? = some ',' then pos + 1 else pos

def skipElements (array : Text) : Nat → Nat → Option Nat
  | 0, pos => some pos
  | index + 1, pos =>
      let start := skipWhitespace array pos
      if endsArray array start then none
      else skipElements array index (afterElement array (skipValue array start))

def findElementAt (array : Text) (index : Nat) : Option Text :=
  match skipElements array index 1 with
  | none => none
  | some pos =>
      let start := skipWhitespace array pos
      if endsArray array start then none
      else some (substr array start (skipValue array start - start))

def findArrayElement (json key : Text) (index : Nat) : Option Text :=
  match findValueStart json key with
  | none => none
  | some valueStart =>
      if json[valueStart]? = some '[' then findElementAt (json.drop valueStart) index else none

def findElement (jsonArray : Text) (index : Nat) : Option Text :=
  if jsonArray.head? = some '[' then findElementAt jsonArray index else none

/-!
## Iteration
-/

variable {σ : Type}

def forEachElementFrom (array : Text) (action : Text → EStateM Exn σ PUnit) :
    Nat → Nat → EStateM Exn σ PUnit
  | 0, _ => throw .outOfFuel
  | fuel + 1, pos => do
      let start := skipWhitespace array pos
      if endsArray array start then
        return
      let stop := skipValue array start
      action (substr array start (stop - start))
      forEachElementFrom array action fuel (afterElement array stop)

def forEachElement (array : Text) (action : Text → EStateM Exn σ PUnit) : EStateM Exn σ PUnit :=
  forEachElementFrom array action (array.length + 1) 1

def forEachArrayElement (json key : Text) (action : Text → EStateM Exn σ PUnit) :
    EStateM Exn σ PUnit :=
  match findValueStart json key with
  | none => pure .unit
  | some valueStart =>
      if json[valueStart]? = some '[' then forEachElement (json.drop valueStart) action
      else pure .unit

def forEachFieldFrom (json : Text) (action : Text → Text → EStateM Exn σ PUnit) :
    Nat → Nat → EStateM Exn σ PUnit
  | 0, _ => throw .outOfFuel
  | fuel + 1, pos => do
      let quote := skipWhitespace json pos
      if json[quote]? ≠ some '"' then
        return
      let keyStart := quote + 1
      match findFrom json ['"'] keyStart with
      | none => return
      | some keyEnd =>
          let colon := skipWhitespace json (keyEnd + 1)
          if json[colon]? ≠ some ':' then
            return
          let valueStart := skipWhitespace json (colon + 1)
          let stop := skipValue json valueStart
          action (substr json keyStart (keyEnd - keyStart)) (substr json valueStart (stop - valueStart))
          forEachFieldFrom json action fuel (afterElement json stop)

/-- Loops through the members of an object; the text starts at its brace. -/
def forEachField (json : Text) (action : Text → Text → EStateM Exn σ PUnit) : EStateM Exn σ PUnit :=
  if json.head? = some '{' then forEachFieldFrom json action (json.length + 1) 1 else pure .unit

/-!
## Numbers
-/

def parseDouble {D : Type} [DoubleArith D] (text : Text) : Except Exn D :=
  match DoubleArith.strtod text with
  | none => .error (.runtimeError "Failed to parse double".toList)
  | some value => .ok value

/-- `std::from_chars` for a 64-bit signed integer, any failure being thrown. -/
def parseLL (text : Text) : Except Exn Int :=
  let (negative, unsigned) := match text with
    | '-' :: rest => (true, rest)
    | rest => (false, rest)
  let digits := unsigned.takeWhile Char.isDigit
  let magnitude : Int := Nat.ofDigitChars 10 digits 0
  let value := if negative then -magnitude else magnitude
  if digits = [] ∨ value < -(2 ^ 63) ∨ 2 ^ 63 ≤ value then
    .error (.runtimeError "Failed to parse long long".toList)
  else .ok value

end TradingEngine.Json

namespace TradingEngine

/-- The first element of the `data` array. -/
def findData (json : Text) : Option Text := Json.findArrayElement json kData 0

def isRequestAccepted (response : Text) : Bool :=
  match findData response with
  | none => false
  | some data => Json.findString data kSCode = some kSuccessCode

end TradingEngine
