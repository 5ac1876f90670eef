import TradingEngine.Library.Unroll
import TradingEngine.Util.JsonProperties

/-! The scanner by what is left of the text at a position. Every loop reads only that,
so a loop over positions is a loop over suffixes. -/

set_option autoImplicit false

namespace TradingEngine.Json

open Library.Exec Library.Unroll

/-!
## Positions and suffixes
-/

theorem drop_skipWhitespace (text : Text) (pos : Nat) :
    text.drop (skipWhitespace text pos) = (text.drop pos).dropWhile isJsonWhitespace := by
  have dropped : ((text.drop pos).takeWhile isJsonWhitespace ++ (text.drop pos).dropWhile isJsonWhitespace).drop
      ((text.drop pos).takeWhile isJsonWhitespace).length = (text.drop pos).dropWhile isJsonWhitespace := List.drop_left
  rw [List.takeWhile_append_dropWhile] at dropped
  rw [skipWhitespace, ← List.drop_drop, dropped]

theorem drop_skipValue (json : Text) (pos : Nat) :
    json.drop (skipValue json pos) =
      ((json.drop pos).dropWhile isJsonWhitespace).drop (valueLength ((json.drop pos).dropWhile isJsonWhitespace)) := by
  rw [skipValue, ← List.drop_drop, drop_skipWhitespace]

theorem getElem?_eq_head? (text : Text) (pos : Nat) : text[pos]? = (text.drop pos).head? := by
  rw [List.head?_drop]

theorem skipWhitespace_le {text : Text} {pos : Nat} (inside : pos ≤ text.length) : skipWhitespace text pos ≤ text.length := by
  have short := (List.takeWhile_prefix (l := text.drop pos) isJsonWhitespace).length_le
  rw [List.length_drop] at short
  rw [skipWhitespace]
  omega

/-- White space is skipped once. -/
theorem skipWhitespace_twice (text : Text) (pos : Nat) :
    skipWhitespace text (skipWhitespace text pos) = skipWhitespace text pos := by
  have none : ((text.drop pos).dropWhile isJsonWhitespace).takeWhile isJsonWhitespace = [] := by
    rw [List.takeWhile_eq_nil_iff]
    intro inside
    simpa using List.dropWhile_get_zero_not isJsonWhitespace (text.drop pos) inside
  conv_lhs => rw [skipWhitespace, drop_skipWhitespace, none]
  rfl

/-- The text from a value's first character to its end. -/
def valueText (value : Text) : Text := value.take (valueLength value)

theorem substr_skipValue (json : Text) (pos : Nat) :
    substr json (skipWhitespace json pos) (skipValue json (skipWhitespace json pos) - skipWhitespace json pos) =
      valueText ((json.drop pos).dropWhile isJsonWhitespace) := by
  rw [substr, skipValue, skipWhitespace_twice, Nat.add_sub_cancel_left, drop_skipWhitespace, valueText]

/-- What a loop goes on with after an element: a comma, if there is one, is passed. -/
def afterComma (rest : Text) : Text :=
  if (rest.dropWhile isJsonWhitespace).head? = some ',' then (rest.dropWhile isJsonWhitespace).tail
  else rest.dropWhile isJsonWhitespace

theorem drop_afterElement (array : Text) (stop : Nat) : array.drop (afterElement array stop) = afterComma (array.drop stop) := by
  rw [afterElement, afterComma, getElem?_eq_head?, drop_skipWhitespace]
  split
  · rw [← List.drop_drop, drop_skipWhitespace, List.drop_one]
  · exact drop_skipWhitespace array stop

/-!
## Elements
-/

/-- One round of the loop over an array: the element, and what the next round starts with. -/
def nextElement (rest : Text) : Option (Text × Text) :=
  let value := rest.dropWhile isJsonWhitespace
  if endsArray value 0 then none
  else some (valueText value, afterComma (value.drop (valueLength value)))

theorem endsArray_drop (array : Text) (pos : Nat) : endsArray array pos = endsArray (array.drop pos) 0 := by
  rw [endsArray, endsArray, List.getElem?_drop, Nat.add_zero]

theorem nextElement_drop (array : Text) (pos : Nat) :
    nextElement (array.drop pos) =
      if endsArray array (skipWhitespace array pos) then none
      else some (substr array (skipWhitespace array pos)
          (skipValue array (skipWhitespace array pos) - skipWhitespace array pos),
        array.drop (afterElement array (skipValue array (skipWhitespace array pos)))) := by
  rw [nextElement, endsArray_drop array, drop_skipWhitespace, substr_skipValue, drop_afterElement, drop_skipValue,
    drop_skipWhitespace, List.dropWhile_idempotent]

theorem elementsFrom_eq (array : Text) (fuel pos : Nat) : elementsFrom array fuel pos = unroll nextElement fuel (array.drop pos) := by
  induction fuel generalizing pos with
  | zero => rfl
  | succ fuel ih =>
      rw [elementsFrom, unroll, nextElement_drop]
      split
      · rfl
      · dsimp only
        rw [ih]

/-- An element by its index is an element of the loop. -/
theorem findElementAt_eq (array : Text) (index : Nat) :
    findElementAt array index = (unroll nextElement (index + 1) (array.drop 1)).1[index]? := by
  have general (pos : Nat) : ((skipElements array index pos).bind fun pos =>
      if endsArray array (skipWhitespace array pos) then none
      else some (substr array (skipWhitespace array pos)
        (skipValue array (skipWhitespace array pos) - skipWhitespace array pos))) =
      (unroll nextElement (index + 1) (array.drop pos)).1[index]? := by
    induction index generalizing pos with
    | zero =>
        rw [skipElements, unroll, nextElement_drop, Option.bind_some]
        split <;> rfl
    | succ index ih =>
        rw [skipElements, unroll, nextElement_drop]
        by_cases ends : endsArray array (skipWhitespace array pos) = true
        · rw [if_pos ends, if_pos ends]
          rfl
        · rw [if_neg ends, if_neg ends]
          exact ih _
  rw [← general 1, findElementAt]
  cases skipElements array index 1 with
  | none => rfl
  | some pos => rfl

/-!
## Fields
-/

/-- One round of the loop over an object. -/
def nextField (rest : Text) : Option ((Text × Text) × Text) :=
  let quoted := rest.dropWhile isJsonWhitespace
  if quoted.head? ≠ some '"' then none
  else
    match findText ['"'] quoted.tail with
    | none => none
    | some length =>
        let colon := (quoted.tail.drop (length + 1)).dropWhile isJsonWhitespace
        if colon.head? ≠ some ':' then none
        else
          let value := colon.tail.dropWhile isJsonWhitespace
          some ((quoted.tail.take length, valueText value), afterComma (value.drop (valueLength value)))

variable {σ : Type}

/-- A loop over fields: the action on each, then the return if there is one. -/
def runFields (fields : List (Text × Text) × Bool) (action : Text → Text → EStateM Exn σ PUnit) : EStateM Exn σ PUnit := do
  forM fields.1 fun field => action field.1 field.2
  if fields.2 then pure .unit else throw .outOfFuel

theorem nextField_drop (json : Text) (pos : Nat) :
    nextField (json.drop pos) =
      if json[skipWhitespace json pos]? ≠ some '"' then none
      else match findFrom json ['"'] (skipWhitespace json pos + 1) with
        | none => none
        | some keyEnd =>
            if json[skipWhitespace json (keyEnd + 1)]? ≠ some ':' then none
            else
              let valueStart := skipWhitespace json (skipWhitespace json (keyEnd + 1) + 1)
              let stop := skipValue json valueStart
              some ((substr json (skipWhitespace json pos + 1) (keyEnd - (skipWhitespace json pos + 1)),
                substr json valueStart (stop - valueStart)), json.drop (afterElement json stop)) := by
  have name : json.drop (skipWhitespace json pos + 1) = ((json.drop pos).dropWhile isJsonWhitespace).tail := by
    rw [← List.drop_drop, drop_skipWhitespace, List.drop_one]
  rw [nextField, getElem?_eq_head?, drop_skipWhitespace]
  dsimp only
  split
  · rfl
  · rename_i opens
    have inside : skipWhitespace json pos + 1 ≤ json.length := by
      by_contra beyond
      rw [← drop_skipWhitespace, List.drop_eq_nil_of_le (by omega)] at opens
      simp at opens
    rw [findFrom, if_pos inside, name]
    cases found : findText ['"'] ((json.drop pos).dropWhile isJsonWhitespace).tail with
    | none => rfl
    | some length =>
        have keyEnd : json.drop (length + (skipWhitespace json pos + 1) + 1) =
            ((json.drop pos).dropWhile isJsonWhitespace).tail.drop (length + 1) := by
          rw [← name, List.drop_drop]
          congr 1
          omega
        have value : json.drop (skipWhitespace json (length + (skipWhitespace json pos + 1) + 1) + 1) =
            ((((json.drop pos).dropWhile isJsonWhitespace).tail.drop (length + 1)).dropWhile isJsonWhitespace).tail := by
          rw [← List.drop_drop, drop_skipWhitespace, keyEnd, List.drop_one]
        dsimp only [Option.map_some]
        rw [getElem?_eq_head?, drop_skipWhitespace, keyEnd, substr_skipValue, drop_afterElement, drop_skipValue,
          drop_skipWhitespace, value, List.dropWhile_idempotent, substr, name, Nat.add_sub_cancel]

theorem forEachFieldFrom_eq (json : Text) (action : Text → Text → EStateM Exn σ PUnit) (fuel pos : Nat) :
    forEachFieldFrom json action fuel pos = runFields (unroll nextField fuel (json.drop pos)) action := by
  induction fuel generalizing pos with
  | zero => rfl
  | succ fuel ih =>
      rw [forEachFieldFrom, unroll, nextField_drop]
      dsimp only
      split
      · rfl
      · cases findFrom json ['"'] (skipWhitespace json pos + 1) with
        | none => rfl
        | some keyEnd =>
            dsimp only
            split
            · rfl
            · rw [ih]
              simp only [runFields, List.forM_cons, bind_assoc]

/-!
## The search for a key
-/

/-- What follows a colon, if one stands here after white space. -/
def afterColon (rest : Text) : Option Text :=
  let colon := rest.dropWhile isJsonWhitespace
  if colon.head? = some ':' then some (colon.tail.dropWhile isJsonWhitespace) else none

/-- The text from the value of a key on: after the first match of the pattern that a
colon follows. A match without a colon is passed as a whole. -/
def search (pattern : Text) : Text → Option Text
  | [] => none
  | c :: rest =>
      if pattern.isPrefixOf (c :: rest) then
        (afterColon ((c :: rest).drop pattern.length)).or (search pattern (rest.drop (pattern.length - 1)))
      else search pattern rest
  termination_by text => text.length
  decreasing_by all_goals simp

theorem search_eq_of_findText {pattern text : Text} (some_pattern : pattern ≠ []) :
    search pattern text = match findText pattern text with
      | none => none
      | some offset =>
          (afterColon (text.drop (offset + pattern.length))).or (search pattern (text.drop (offset + pattern.length))) := by
  induction text with
  | nil =>
      rw [search, findText, if_neg some_pattern]
  | cons c rest ih =>
      rw [search, findText]
      split
      · obtain ⟨first, more, rfl⟩ := List.exists_cons_of_ne_nil some_pattern
        simp
      · rw [ih]
        cases findText pattern rest with
        | none => rfl
        | some offset => simp [Nat.add_right_comm]

theorem findText_le {pattern text : Text} {offset : Nat} (found : findText pattern text = some offset) :
    offset + pattern.length ≤ text.length := by
  induction text generalizing offset with
  | nil =>
      rw [findText] at found
      split at found
      · rename_i empty
        simp_all
      · cases found
  | cons c rest ih =>
      rw [findText] at found
      split at found
      · rename_i here
        have short := (List.isPrefixOf_iff_prefix.mp here).length_le
        cases found
        simpa using short
      · obtain ⟨earlier, later, rfl⟩ := Option.map_eq_some_iff.mp found
        have bound := ih later
        rw [List.length_cons]
        omega

/-- The search by positions is the search by suffixes, with whatever fuel is enough. -/
theorem findValueStartFrom_eq {json pattern : Text} (some_pattern : pattern ≠ []) (fuel pos : Nat)
    (inside : pos ≤ json.length) (enough : json.length < pos + fuel) :
    findValueStartFrom json pattern fuel pos =
      (search pattern (json.drop pos)).map fun rest => json.length - rest.length := by
  induction fuel generalizing pos with
  | zero => omega
  | succ fuel ih =>
      rw [findValueStartFrom, findFrom, if_pos inside, search_eq_of_findText some_pattern]
      cases found : findText pattern (json.drop pos) with
      | none => rfl
      | some offset =>
          have bound := findText_le found
          rw [List.length_drop] at bound
          have length := List.length_pos_iff.mpr some_pattern
          have after : (json.drop pos).drop (offset + pattern.length) = json.drop (offset + pos + pattern.length) := by
            rw [List.drop_drop]
            congr 1
            omega
          dsimp only [Option.map_some]
          rw [after, getElem?_eq_head?, drop_skipWhitespace, afterColon]
          split
          · rename_i colon
            have within : skipWhitespace json (offset + pos + pattern.length) < json.length := by
              by_contra beyond
              rw [← drop_skipWhitespace, List.drop_eq_nil_of_le (by omega)] at colon
              cases colon
            have stop : skipWhitespace json (skipWhitespace json (offset + pos + pattern.length) + 1) ≤ json.length :=
              skipWhitespace_le within
            have rest : (((json.drop (offset + pos + pattern.length)).dropWhile isJsonWhitespace).tail).dropWhile
                isJsonWhitespace =
                json.drop (skipWhitespace json (skipWhitespace json (offset + pos + pattern.length) + 1)) := by
              rw [← drop_skipWhitespace, List.tail_drop, ← drop_skipWhitespace]
            rw [rest, Option.some_or, Option.map_some, List.length_drop]
            congr 1
            omega
          · rw [Option.none_or]
            exact ih _ (by omega) (by omega)

theorem findValueStart_eq (json key : Text) :
    findValueStart json key = (search ('"' :: key ++ ['"']) json).map fun rest => json.length - rest.length :=
  findValueStartFrom_eq (by simp) _ 0 (Nat.zero_le _) (by omega)

theorem search_suffix {pattern text rest : Text} (found : search pattern text = some rest) : rest <:+ text := by
  induction text using search.induct pattern with
  | case1 => simp [search] at found
  | case2 c text here ih =>
      rw [search, if_pos here] at found
      rcases Option.or_eq_some_iff.mp found with colon | ⟨-, later⟩
      · rw [afterColon] at colon
        split at colon
        · cases colon
          exact (List.dropWhile_suffix _).trans ((List.tail_suffix _).trans
            ((List.dropWhile_suffix _).trans (List.drop_suffix _ _)))
        · cases colon
      · exact (ih later).trans ((List.drop_suffix _ _).trans (List.suffix_cons _ _))
  | case3 c text elsewhere ih =>
      rw [search, if_neg elsewhere] at found
      exact (ih found).trans (List.suffix_cons _ _)

/-- A lookup by key goes on with what is left of the text at the value. -/
theorem findValueStart_cases (json key : Text) :
    findValueStart json key = none ∧ search ('"' :: key ++ ['"']) json = none ∨
      ∃ valueStart rest, findValueStart json key = some valueStart ∧ search ('"' :: key ++ ['"']) json = some rest ∧
        json.drop valueStart = rest := by
  rw [findValueStart_eq]
  cases found : search ('"' :: key ++ ['"']) json with
  | none => exact .inl ⟨rfl, rfl⟩
  | some rest => exact .inr ⟨_, rest, rfl, rfl, List.suffix_iff_eq_drop.mp (search_suffix found) |>.symm⟩

theorem findString_eq (json key : Text) :
    findString json key = match search ('"' :: key ++ ['"']) json with
      | none => none
      | some rest =>
          if rest.head? = some '"' then (findText ['"'] rest.tail).map fun length => rest.tail.take length else none := by
  rw [findString]
  rcases findValueStart_cases json key with ⟨missing, none⟩ | ⟨valueStart, rest, start, found, dropped⟩
  · rw [missing, none]
  · rw [start, found]
    dsimp only
    rw [getElem?_eq_head?, dropped]
    by_cases quoted : rest.head? = some '"'
    · have inside : valueStart + 1 ≤ json.length := by
        by_contra beyond
        rw [← dropped, List.drop_eq_nil_of_le (by omega)] at quoted
        cases quoted
      have content : json.drop (valueStart + 1) = rest.tail := by
        rw [← List.drop_drop, dropped, List.drop_one]
      rw [if_pos quoted, if_pos quoted, findFrom, if_pos inside, content]
      cases findText ['"'] rest.tail with
      | none => rfl
      | some length =>
          dsimp only [Option.map_some]
          rw [substr, content, Nat.add_sub_cancel]
    · rw [if_neg quoted, if_neg quoted]

theorem findNumber_eq (json key : Text) :
    findNumber json key = match search ('"' :: key ++ ['"']) json with
      | none => none
      | some rest =>
          if rest.takeWhile isNumberChar = [] then none else some (rest.takeWhile isNumberChar) := by
  rw [findNumber]
  rcases findValueStart_cases json key with ⟨missing, none⟩ | ⟨valueStart, rest, start, found, dropped⟩
  · rw [missing, none]
  · rw [start, found]
    dsimp only
    rw [dropped]

theorem findArrayElement_eq (json key : Text) (index : Nat) :
    findArrayElement json key index = match search ('"' :: key ++ ['"']) json with
      | none => none
      | some rest =>
          if rest.head? = some '[' then (unroll nextElement (index + 1) rest.tail).1[index]? else none := by
  rw [findArrayElement]
  rcases findValueStart_cases json key with ⟨missing, none⟩ | ⟨valueStart, rest, start, found, dropped⟩
  · rw [missing, none]
  · rw [start, found]
    dsimp only
    rw [getElem?_eq_head?, dropped, findElementAt_eq, List.drop_one]

theorem arrayElements_eq (json key : Text) :
    arrayElements json key = match search ('"' :: key ++ ['"']) json with
      | none => ([], true)
      | some rest => if rest.head? = some '[' then unroll nextElement (rest.length + 1) rest.tail else ([], true) := by
  rw [arrayElements]
  rcases findValueStart_cases json key with ⟨missing, none⟩ | ⟨valueStart, rest, start, found, dropped⟩
  · rw [missing, none]
  · rw [start, found]
    dsimp only
    rw [getElem?_eq_head?, dropped, elementsFrom_eq, List.drop_one]

end TradingEngine.Json
