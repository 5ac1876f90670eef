import TradingEngine.Util.JsonRendering
import TradingEngine.Util.JsonTermination

/-! The scanner on well-formed texts: it skips values exactly, with the bracket depth
kept in an `int`; a lookup by key ends at the value of the first member of the name;
and of a string it reads what comes before the first quote. -/

set_option autoImplicit false

namespace TradingEngine.Json

open Library.JsonText Library.Unroll

/-!
## The bracket depth
-/

def kIntMax : Nat := 2 ^ 31 - 1

/-- The bracket loop with its depth an `int`, `none` where an increment overflows. -/
def intContainerLength (opening closing : Char) : Nat → Nat → Text → Option Nat
  | 0, _, _ => some 0
  | _ + 1, _, [] => some 0
  | fuel + 1, depth, c :: rest =>
      if depth = 0 then some 0
      else if c = '"' then
        let skipped := stringLength rest + 1
        (intContainerLength opening closing fuel depth (rest.drop skipped)).map (1 + skipped + ·)
      else if c = opening then
        if depth = kIntMax then none else (intContainerLength opening closing fuel (depth + 1) rest).map (1 + ·)
      else if c = closing then (intContainerLength opening closing fuel (depth - 1) rest).map (1 + ·)
      else (intContainerLength opening closing fuel depth rest).map (1 + ·)

def intValueLength : Text → Option Nat
  | [] => some 0
  | c :: rest =>
      if c = '"' then some (1 + stringLength rest + 1)
      else if c = '{' then (intContainerLength '{' '}' rest.length 1 rest).map (1 + ·)
      else if c = '[' then (intContainerLength '[' ']' rest.length 1 rest).map (1 + ·)
      else some ((c :: rest).takeWhile (fun d => !isDelimiter d)).length

def intSkipValue (json : Text) (pos : Nat) : Option Nat :=
  let start := skipWhitespace json pos
  (intValueLength (json.drop start)).map (start + ·)

def isOpening (c : Char) : Bool := c = '{' || c = '['

theorem intContainerLength_eq {opening closing : Char} (opens : isOpening opening = true) (fuel depth : Nat) (text : Text)
    (few : depth + text.countP isOpening ≤ kIntMax) :
    intContainerLength opening closing fuel depth text = some (containerLength opening closing fuel depth text) := by
  induction fuel generalizing depth text with
  | zero => rfl
  | succ fuel ih =>
      cases text with
      | nil => rfl
      | cons c rest =>
          have fewer : rest.countP isOpening ≤ (c :: rest).countP isOpening := (List.sublist_cons_self c rest).countP_le
          rw [intContainerLength, containerLength]
          split_ifs with outside quoted opened full closed
          · rfl
          · have later : (rest.drop (stringLength rest + 1)).countP isOpening ≤ rest.countP isOpening :=
              (List.drop_sublist _ rest).countP_le
            dsimp only
            rw [ih depth _ (by omega)]
            rfl
          · rw [opened, List.countP_cons_of_pos opens] at few
            omega
          · rw [opened, List.countP_cons_of_pos opens] at few
            rw [ih (depth + 1) rest (by omega)]
            rfl
          · rw [ih (depth - 1) rest (by omega)]
            rfl
          · rw [ih depth rest (by omega)]
            rfl

/-- Where fewer than `2 ^ 31` brackets open, no increment of the depth overflows. -/
theorem intSkipValue_eq {json : Text} (few : json.countP isOpening ≤ kIntMax) (pos : Nat) :
    intSkipValue json pos = some (skipValue json pos) := by
  have fewer : (json.drop (skipWhitespace json pos)).countP isOpening ≤ kIntMax :=
    ((List.drop_sublist _ json).countP_le).trans few
  have length {text : Text} (few : text.countP isOpening ≤ kIntMax) : intValueLength text = some (valueLength text) := by
    cases text with
    | nil => rfl
    | cons c rest =>
        rw [intValueLength, valueLength]
        split_ifs with quoted curly square
        · rfl
        · rw [curly, List.countP_cons_of_pos rfl] at few
          rw [intContainerLength_eq rfl _ _ _ (by omega)]
          rfl
        · rw [square, List.countP_cons_of_pos rfl] at few
          rw [intContainerLength_eq rfl _ _ _ (by omega)]
          rfl
        · rfl
  rw [intSkipValue, skipValue, length fewer]
  rfl

theorem intContainerLength_overflow {closing : Char} (more fuel depth : Nat) (rest : Text) (inside : 0 < depth)
    (fits : depth ≤ kIntMax) (exceeds : kIntMax < depth + more) (enough : more ≤ fuel) :
    intContainerLength '[' closing fuel depth (List.replicate more '[' ++ rest) = none := by
  induction more generalizing fuel depth with
  | zero => omega
  | succ more ih =>
      obtain ⟨fuel, rfl⟩ : ∃ less, fuel = less + 1 := ⟨fuel - 1, by omega⟩
      rw [List.replicate_succ, List.cons_append, intContainerLength, if_neg (by omega), if_neg (by decide), if_pos rfl]
      by_cases full : depth = kIntMax
      · rw [if_pos full]
      · rw [if_neg full, ih fuel (depth + 1) (by omega) (by omega) (by omega) (by omega)]
        rfl

/-- An array inside an array, this many times. -/
def nestedArray : Nat → Value
  | 0 => .emptyArray .none
  | depth + 1 => .array (.last .none (nestedArray depth) .none)

theorem nestedArray_text (depth : Nat) :
    (nestedArray depth).text = List.replicate (depth + 1) '[' ++ List.replicate (depth + 1) ']' := by
  induction depth with
  | zero => rfl
  | succ depth ih =>
      have closings : List.replicate (depth + 2) ']' = List.replicate (depth + 1) ']' ++ [']'] := List.replicate_succ'
      have openings : List.replicate (depth + 2) '[' = '[' :: List.replicate (depth + 1) '[' := List.replicate_succ
      rw [nestedArray, Value.text, Items.text, ih, closings, openings]
      simp [Blank.none]

/-- An array nested `2 ^ 31` deep takes the depth past the largest `int`. -/
theorem deep_array_overflows : intSkipValue (nestedArray (2 ^ 31)).text 0 = none := by
  have deep (depth : Nat) (exceeds : kIntMax ≤ depth) : intSkipValue (nestedArray depth).text 0 = none := by
    rw [nestedArray_text, List.replicate_succ, List.cons_append, intSkipValue]
    have start : skipWhitespace ('[' :: (List.replicate depth '[' ++ List.replicate (depth + 1) ']')) 0 = 0 := rfl
    rw [start, List.drop_zero, intValueLength, if_neg (by decide), if_neg (by decide), if_pos rfl,
      intContainerLength_overflow depth _ 1 _ (by omega) (by decide) (by omega) (by simp)]
    rfl
  exact deep (2 ^ 31) (by decide)

/-!
## Shallow values
-/

section Shallow

variable {opening closing : Char} {depth : Nat}

theorem intContainerLength_quoted (fuel depth : Nat) (body : Body) (rest : Text) :
    intContainerLength opening closing (fuel + 1) (depth + 1) (quote body.text ++ rest) =
      (intContainerLength opening closing fuel (depth + 1) rest).map ((quote body.text).length + ·) := by
  have length := stringLength_body body.body rest
  have behind : (body.text ++ '"' :: rest).drop (body.text.length + 1) = rest := by
    rw [← List.drop_drop, List.drop_left, List.drop_one, List.tail_cons]
  have width : (quote body.text).length = 1 + (body.text.length + 1) := by simp [quote, Nat.add_comm]
  simp only [quote, List.cons_append, List.append_assoc, List.nil_append, intContainerLength]
  rw [length, behind, if_neg (Nat.succ_ne_zero _), if_pos trivial, ← width]
  rfl

/-- Up to the bracket that closes a container no increment overflows, if all the depths
it goes through are values of an `int`. -/
theorem intContainerLength_within (kind : Kind opening closing) {inner : Text}
    (closes : ClosesWithin (· ≤ kIntMax) opening closing depth inner) (fuel : Nat) (rest : Text) :
    intContainerLength opening closing fuel depth (inner ++ rest) =
      some (containerLength opening closing fuel depth (inner ++ rest)) := by
  obtain ⟨openingNotQuote, closingNotQuote, different⟩ := Kind.opening_ne kind
  induction closes generalizing fuel with
  | done =>
      rw [containerLength_done]
      cases fuel with
      | zero => rfl
      | succ fuel => cases rest <;> rfl
  | quoted body _ ih =>
      cases fuel with
      | zero => rfl
      | succ fuel => rw [List.append_assoc, intContainerLength_quoted, containerLength_quoted, ih, Option.map_some]
  | opened fits _ ih =>
      cases fuel with
      | zero => rfl
      | succ fuel =>
          rw [List.cons_append, intContainerLength, if_neg (Nat.succ_ne_zero _), if_neg openingNotQuote, if_pos rfl,
            if_neg (by omega), ih, containerLength_opened kind, Option.map_some]
  | closed _ ih =>
      cases fuel with
      | zero => rfl
      | succ fuel =>
          rw [List.cons_append, intContainerLength, if_neg (Nat.succ_ne_zero _), if_neg closingNotQuote,
            if_neg different, if_pos rfl, Nat.add_sub_cancel, ih, containerLength_closed kind, Option.map_some]
  | other notQuote notOpening notClosing _ ih =>
      cases fuel with
      | zero => rfl
      | succ fuel =>
          rw [List.cons_append, intContainerLength, if_neg (Nat.succ_ne_zero _), if_neg notQuote, if_neg notOpening,
            if_neg notClosing, ih, containerLength_other _ _ _ notQuote notOpening notClosing, Option.map_some]

end Shallow

theorem intValueLength_array {inner : Text} (closes : ClosesWithin (· ≤ kIntMax) '[' ']' 1 inner) (rest : Text) :
    intValueLength ('[' :: inner ++ rest) = some (valueLength ('[' :: inner ++ rest)) := by
  simp only [List.cons_append, intValueLength, valueLength, Char.reduceEq, ↓reduceIte,
    intContainerLength_within .square closes, Option.map_some]

theorem intValueLength_object {inner : Text} (closes : ClosesWithin (· ≤ kIntMax) '\x7b' '\x7d' 1 inner) (rest : Text) :
    intValueLength ('\x7b' :: inner ++ rest) = some (valueLength ('\x7b' :: inner ++ rest)) := by
  simp only [List.cons_append, intValueLength, valueLength, Char.reduceEq, ↓reduceIte,
    intContainerLength_within .curly closes, Option.map_some]

/-- No increment overflows at a value whose brackets, open at once, an `int` can count. -/
theorem intValueLength_text {value : Value} (shallow : value.nesting ≤ kIntMax) (tail : Text) :
    intValueLength (value.text ++ tail) = some (valueLength (value.text ++ tail)) := by
  cases value with
  | word word =>
      obtain ⟨c, rest, text⟩ := List.exists_cons_of_ne_nil word.nonempty
      have starts := startsWord_of_isWordChar (List.all_eq_true.mp word.word c (by rw [text]; exact List.mem_cons_self))
      simp only [startsWord, Bool.not_eq_true', Bool.or_eq_false_iff, decide_eq_false_iff_not] at starts
      rw [Value.text, text, List.cons_append, intValueLength, valueLength, if_neg starts.1.1, if_neg starts.1.2,
        if_neg starts.2, if_neg starts.1.1, if_neg starts.1.2, if_neg starts.2]
  | string body => rfl
  | emptyArray inner => exact intValueLength_array (ClosesWithin.append_blank .square inner (.closed .done)) tail
  | array items =>
      have room : Room (· ≤ kIntMax) items.nesting 1 := fun count few => by
        rw [Value.nesting] at shallow
        omega
      exact intValueLength_array (items.closes .square _ _ room (.closed .done)) tail
  | emptyObject inner => exact intValueLength_object (ClosesWithin.append_blank .curly inner (.closed .done)) tail
  | object members =>
      have room : Room (· ≤ kIntMax) members.nesting 1 := fun count few => by
        rw [Value.nesting] at shallow
        omega
      exact intValueLength_object (members.closes .curly _ _ room (.closed .done)) tail

/-!
## Loops with the depth an `int`
-/

namespace Bounded

variable {σ : Type}

def skipValue (json : Text) (pos : Nat) : EStateM Fault σ Nat :=
  match intSkipValue json pos with
  | none => throw .outOfRange
  | some stop => return stop

def skipElements (array : Text) : Nat → Nat → EStateM Fault σ (Option Nat)
  | 0, pos => return some pos
  | index + 1, pos => do
      let start := skipWhitespace array pos
      if endsArray array start then return none
      let stop ← skipValue array start
      skipElements array index (afterElement array stop)

def findElementAt (array : Text) (index : Nat) : EStateM Fault σ (Option Text) := do
  match ← skipElements array index 1 with
  | none => return none
  | some pos =>
      let start := skipWhitespace array pos
      if endsArray array start then return none
      let stop ← skipValue array start
      return some (← Checked.substr array start (stop - start))

def findElement (jsonArray : Text) (index : Nat) : EStateM Fault σ (Option Text) :=
  if jsonArray.head? = some '[' then findElementAt jsonArray index else return none

def forEachElementFrom (array : Text) (action : Text → EStateM Fault σ PUnit) : Nat → Nat → EStateM Fault σ PUnit
  | 0, _ => throw (.thrown .outOfFuel)
  | fuel + 1, pos => do
      let start := skipWhitespace array pos
      if endsArray array start then
        return
      let stop ← skipValue array start
      action (← Checked.substr array start (stop - start))
      forEachElementFrom array action fuel (afterElement array stop)

def forEachElement (array : Text) (action : Text → EStateM Fault σ PUnit) : EStateM Fault σ PUnit :=
  forEachElementFrom array action (array.length + 1) 1

def forEachFieldFrom (json : Text) (action : Text → Text → EStateM Fault σ PUnit) : Nat → Nat → EStateM Fault σ PUnit
  | 0, _ => throw (.thrown .outOfFuel)
  | fuel + 1, pos => do
      let quote := skipWhitespace json pos
      if json[quote]? ≠ some '"' then
        return
      let keyStart := quote + 1
      match findFrom json ['"'] keyStart with
      | none => return
      | some keyEnd =>
          let key ← Checked.substr json keyStart (keyEnd - keyStart)
          let colon := skipWhitespace json (keyEnd + 1)
          if json[colon]? ≠ some ':' then
            return
          let valueStart := skipWhitespace json (colon + 1)
          let stop ← skipValue json valueStart
          action key (← Checked.substr json valueStart (stop - valueStart))
          forEachFieldFrom json action fuel (afterElement json stop)

def forEachField (json : Text) (action : Text → Text → EStateM Fault σ PUnit) : EStateM Fault σ PUnit :=
  if json.head? = some '\x7b' then forEachFieldFrom json action (json.length + 1) 1 else pure .unit

/-- The text of a value whose brackets an `int` can count. -/
def Shallow (view : Text) : Prop := ∃ value : Value, value.text = view ∧ value.nesting ≤ kIntMax

/-- Whether an increment overflows is decided by the value skipped. -/
theorem skipValue_shallow {json : Text} {pos : Nat}
    (shallow : Shallow (substr json (skipWhitespace json pos)
      (Json.skipValue json (skipWhitespace json pos) - skipWhitespace json pos))) :
    (skipValue json (skipWhitespace json pos) : EStateM Fault σ Nat) = pure (Json.skipValue json (skipWhitespace json pos)) := by
  obtain ⟨value, view, few⟩ := shallow
  rw [substr_skipValue] at view
  have whole : (json.drop pos).dropWhile isJsonWhitespace =
      value.text ++ ((json.drop pos).dropWhile isJsonWhitespace).drop
        (valueLength ((json.drop pos).dropWhile isJsonWhitespace)) := by
    rw [view, valueText, List.take_append_drop]
  have exact : intSkipValue json (skipWhitespace json pos) = some (Json.skipValue json (skipWhitespace json pos)) := by
    rw [intSkipValue, Json.skipValue, skipWhitespace_twice, drop_skipWhitespace, whole, intValueLength_text few,
      Option.map_some]
  rw [skipValue, exact]

theorem forEachElementFrom_eq (array : Text) (action : Text → EStateM Fault σ PUnit) (fuel pos : Nat)
    (shallow : ∀ view ∈ (unroll nextElement fuel (array.drop pos)).1, Shallow view) :
    forEachElementFrom array action fuel pos = Checked.forEachElementFrom array action fuel pos := by
  induction fuel generalizing pos with
  | zero => rfl
  | succ fuel ih =>
      rw [forEachElementFrom, Checked.forEachElementFrom]
      dsimp only
      split
      · rfl
      · rename_i opens
        have round := nextElement_drop array pos
        rw [if_neg opens] at round
        rw [unroll_some round] at shallow
        rw [skipValue_shallow (shallow _ List.mem_cons_self), pure_bind,
          ih _ fun view member => shallow view (List.mem_cons_of_mem _ member)]

theorem forEachFieldFrom_eq (json : Text) (action : Text → Text → EStateM Fault σ PUnit) (fuel pos : Nat)
    (shallow : ∀ field ∈ (unroll nextField fuel (json.drop pos)).1, Shallow field.2) :
    forEachFieldFrom json action fuel pos = Checked.forEachFieldFrom json action fuel pos := by
  induction fuel generalizing pos with
  | zero => rfl
  | succ fuel ih =>
      rw [forEachFieldFrom, Checked.forEachFieldFrom]
      dsimp only
      have round := nextField_drop json pos
      split
      · rfl
      · rename_i opens
        rw [if_neg opens] at round
        cases found : findFrom json ['"'] (skipWhitespace json pos + 1) with
        | none => rfl
        | some keyEnd =>
            rw [found] at round
            dsimp only at round ⊢
            congr 1
            funext key
            split
            · rfl
            · rename_i colon
              rw [if_neg colon] at round
              rw [unroll_some round] at shallow
              rw [skipValue_shallow (shallow _ List.mem_cons_self), pure_bind,
                ih _ fun field member => shallow field (List.mem_cons_of_mem _ member)]

theorem skipElements_eq (array : Text) (index pos : Nat)
    (shallow : ∀ view ∈ (unroll nextElement (index + 1) (array.drop pos)).1, Shallow view) :
    (skipElements array index pos : EStateM Fault σ (Option Nat)) = pure (Json.skipElements array index pos) := by
  induction index generalizing pos with
  | zero => rfl
  | succ index ih =>
      rw [skipElements, Json.skipElements]
      split
      · rfl
      · rename_i opens
        have round := nextElement_drop array pos
        rw [if_neg opens] at round
        rw [unroll_some round] at shallow
        rw [skipValue_shallow (shallow _ List.mem_cons_self), pure_bind,
          ih _ fun view member => shallow view (List.mem_cons_of_mem _ member)]

theorem findElementAt_eq (array : Text) (index : Nat)
    (shallow : ∀ view ∈ (unroll nextElement (index + 1) (array.drop 1)).1, Shallow view) :
    (findElementAt array index : EStateM Fault σ (Option Text)) = pure (Json.findElementAt array index) := by
  rw [findElementAt, skipElements_eq array index 1 shallow, pure_bind]
  have found := Json.findElementAt_eq array index
  rw [Json.findElementAt] at found ⊢
  cases skipped : Json.skipElements array index 1 with
  | none => rfl
  | some pos =>
      rw [skipped] at found
      dsimp only at found ⊢
      split
      · rfl
      · rename_i opens
        rw [if_neg opens] at found
        have inside := lt_length_of_not_endsArray (by simpa using opens)
        rw [skipValue_shallow (shallow _ (List.mem_of_getElem? found.symm)), pure_bind, Checked.substr_inside inside.le,
          pure_bind]

end Bounded

/-!
## Exact scanning
-/

/-- What the scanner does on a text with a value, an array or an object in it, the
bracket depth being an `int`. -/
structure ScansExactly (json : Text) : Prop where
  depth : json.countP isOpening ≤ kIntMax → ∀ pos, intSkipValue json pos = some (skipValue json pos)
  skipValue : ∀ pos value tail, json.drop pos = Value.text value ++ tail → Delimited tail → value.nesting ≤ kIntMax →
    intSkipValue json pos = some (pos + value.text.length)
  forEachElement : ∀ (array : Value) (tail : Text), json = array.text ++ tail → array.isArray = true →
    (∀ item ∈ array.items, item.nesting ≤ kIntMax) → ∀ (σ : Type) (action : Text → EStateM Fault σ PUnit),
      Bounded.forEachElement json action = forM array.items fun item => action item.text
  findElement : ∀ (array : Value) (tail : Text), json = array.text ++ tail → array.isArray = true →
    (∀ item ∈ array.items, item.nesting ≤ kIntMax) → ∀ (σ : Type) (index : Nat),
      (Bounded.findElement json index : EStateM Fault σ (Option Text)) = pure (array.items[index]?.map Value.text)
  forEachField : ∀ (object : Value) (tail : Text), json = object.text ++ tail → object.isObject = true →
    (∀ entry ∈ object.members, '\\' ∉ entry.1 ∧ entry.2.nesting ≤ kIntMax) →
      ∀ (σ : Type) (action : Text → Text → EStateM Fault σ PUnit),
        Bounded.forEachField json action = forM object.members fun entry => action entry.1 entry.2.text

theorem skipWhitespace_value {json : Text} {pos : Nat} {value : Value} {tail : Text}
    (here : json.drop pos = value.text ++ tail) : skipWhitespace json pos = pos := by
  obtain ⟨c, rest, text, starts⟩ := text_starts value
  rw [skipWhitespace, here, text, List.cons_append,
    List.takeWhile_cons_of_neg (by simp [isJsonWhitespace_eq, not_blank_of_startsValue starts])]
  rfl

theorem skipValue_value {json : Text} {pos : Nat} {value : Value} {tail : Text} (here : json.drop pos = value.text ++ tail)
    (delimited : Delimited tail) : skipValue json pos = pos + value.text.length := by
  rw [skipValue, skipWhitespace_value here, here, valueLength_text value delimited]

theorem shallow_items {values : List Value} (shallow : ∀ item ∈ values, item.nesting ≤ kIntMax) (rounds : Nat) :
    ∀ view ∈ (values.map Value.text).take rounds, Bounded.Shallow view := by
  intro view member
  obtain ⟨item, isItem, rfl⟩ := List.mem_map.mp (List.mem_of_mem_take member)
  exact ⟨item, rfl, shallow item isItem⟩

theorem boundedForEachElement_array {σ : Type} {array : Value} (isArray : array.isArray = true)
    (shallow : ∀ item ∈ array.items, item.nesting ≤ kIntMax) (tail : Text) (action : Text → EStateM Fault σ PUnit) :
    Bounded.forEachElement (array.text ++ tail) action = forM array.items fun item => action item.text := by
  have enough := length_items_lt array tail
  have unrolled := unroll_array isArray tail ((array.text ++ tail).length + 1) (by omega)
  rw [← List.drop_one] at unrolled
  rw [Bounded.forEachElement, Bounded.forEachElementFrom_eq _ _ _ _ (by rw [unrolled]; exact shallow_items shallow _),
    Checked.forEachElementFrom_eq, unrolled, decide_eq_true enough,
    List.take_of_length_le (by rw [List.length_map]; omega), Checked.runViews, List.forM_map]
  exact bind_pure _

theorem boundedFindElement_array {σ : Type} {array : Value} (isArray : array.isArray = true)
    (shallow : ∀ item ∈ array.items, item.nesting ≤ kIntMax) (tail : Text) (index : Nat) :
    (Bounded.findElement (array.text ++ tail) index : EStateM Fault σ (Option Text)) =
      pure (array.items[index]?.map Value.text) := by
  have unrolled := unroll_array isArray tail (index + 1) (by omega)
  rw [← List.drop_one] at unrolled
  rw [← findElement_array isArray tail, Bounded.findElement, findElement, if_pos (head_array isArray tail),
    if_pos (head_array isArray tail), Bounded.findElementAt_eq _ _ (by rw [unrolled]; exact shallow_items shallow _)]

theorem boundedForEachField_object {σ : Type} {object : Value} (isObject : object.isObject = true)
    (shallow : ∀ entry ∈ object.members, '\\' ∉ entry.1 ∧ entry.2.nesting ≤ kIntMax) (tail : Text)
    (action : Text → Text → EStateM Fault σ PUnit) :
    Bounded.forEachField (object.text ++ tail) action = forM object.members fun entry => action entry.1 entry.2.text := by
  have enough := length_members_lt object tail
  have unrolled := unroll_object isObject (fun entry member => (shallow entry member).1) tail
    ((object.text ++ tail).length + 1) (by omega)
  rw [← List.drop_one] at unrolled
  have views : ∀ field ∈ (unroll nextField ((object.text ++ tail).length + 1) ((object.text ++ tail).drop 1)).1,
      Bounded.Shallow field.2 := by
    rw [unrolled]
    intro field member
    obtain ⟨entry, isEntry, rfl⟩ := List.mem_map.mp (List.mem_of_mem_take member)
    exact ⟨entry.2, rfl, (shallow entry isEntry).2⟩
  rw [Bounded.forEachField, if_pos (head_object isObject tail), Bounded.forEachFieldFrom_eq _ _ _ _ views,
    Checked.forEachFieldFrom_eq, unrolled, decide_eq_true enough,
    List.take_of_length_le (by rw [List.length_map]; omega), Checked.runViews, List.forM_map]
  exact bind_pure _

/-- The scanner is exact on values in which fewer than `2 ^ 31` brackets are open at once. -/
theorem scanner_exact (json : Text) : ScansExactly json where
  depth := intSkipValue_eq
  skipValue pos value tail here delimited shallow := by
    rw [intSkipValue, skipWhitespace_value here, here, intValueLength_text shallow, valueLength_text value delimited,
      Option.map_some]
  forEachElement array tail same isArray shallow σ action := by
    rw [same]
    exact boundedForEachElement_array isArray shallow tail action
  findElement array tail same isArray shallow σ index := by
    rw [same]
    exact boundedFindElement_array isArray shallow tail index
  forEachField object tail same isObject shallow σ action := by
    rw [same]
    exact boundedForEachField_object isObject shallow tail action

/-- An object with a bracket in a name and a string with an escaped quote. -/
def bracketed : Value :=
  .array (.more ⟨[' '], rfl⟩ (.ofMembers [("a]".toList, .ofItems [.ofItems [], .ofText "1".toList])]) ⟨[' '], rfl⟩
    (.last .none (.ofText "\\\"]".toList) .none))

theorem scanner_exact_nested : bracketed.text = "[ \x7b\"a]\":[[],\"1\"]\x7d ,\"\\\"]\"]".toList ∧
    intSkipValue (bracketed.text ++ " ]]".toList) 0 = some bracketed.text.length ∧
    (Bounded.findElement (bracketed.text ++ " ]]".toList) 1 : EStateM Fault Unit (Option Text)) =
      pure (some "\"\\\"]\"".toList) := by
  have shallow : bracketed.nesting ≤ kIntMax ∧ ∀ item ∈ bracketed.items, item.nesting ≤ kIntMax := by
    simp [bracketed, Value.nesting, Value.items, Items.values, Items.nesting, Value.ofMembers, Value.ofItems, Members.ofList,
      Members.nesting, Items.ofList, Value.ofText, kIntMax]
  have scans := scanner_exact (bracketed.text ++ " ]]".toList)
  have delimited : Delimited " ]]".toList := by
    rintro c ⟨⟩
    rfl
  refine ⟨by decide +kernel, ?_, ?_⟩
  · rw [scans.skipValue 0 bracketed " ]]".toList rfl delimited shallow.1, Nat.zero_add]
  · rw [scans.findElement bracketed " ]]".toList rfl rfl shallow.2 Unit 1]
    rfl

/-!
## Lookups in documents
-/

/-- The place where a lookup ends is that of the first member of the name, and every
place listed is one where the text has the member. -/
theorem value_start_exact {key : Text} (isKey : IsKey key) (document : Document)
    (plain : ∀ name ∈ document.value.names, '\\' ∉ name) :
    findValueStart document.text key = (firstOf key document.located).map Located.offset ∧
      (findValueStart document.text key = none ↔ key ∉ document.value.names) ∧
      document.located.map Located.name = document.value.names ∧
      ∀ member ∈ document.located, member.StandsIn document.text := by
  have found : findValueStart document.text key = (firstOf key document.located).map Located.offset := by
    have searched := search_document isKey plain
    rw [findValueStart_eq]
    change (search (quote key) document.text).map _ = _
    cases named : firstOf key document.located with
    | none =>
        rw [named] at searched
        rw [searched]
        rfl
    | some member =>
        rw [named] at searched
        obtain ⟨here, tail, -, text⟩ := searched
        have inside : 0 < (document.text.drop member.offset).length := by
          rw [text, List.length_append]
          have nonempty := length_text_pos member.value
          omega
        rw [List.length_drop] at inside
        rw [here, Option.map_some, Option.map_some, List.length_drop]
        congr 1
        omega
  refine ⟨found, ?_, document.names_located, document.located_stand⟩
  rw [found, Option.map_eq_none_iff, firstOf_eq_none_iff, document.names_located]

def lookAlikes : Document where
  before := .none
  value := .ofMembers [("a".toList, .ofItems [.ofText kPx, .ofText "\\\"px\\\"".toList, .ofText "x\\\"px".toList]),
    ("b".toList, .ofMembers [(kPx, .ofText "5".toList)])]
  after := .none

/-- A string equal to the key, the key in quotes inside a string and a string that ends
like the key come before the member. -/
theorem value_start_exact_lookAlikes :
    lookAlikes.text = "\x7b\"a\":[\"px\",\"\\\"px\\\"\",\"x\\\"px\"],\"b\":\x7b\"px\":\"5\"\x7d\x7d".toList ∧
      findValueStart lookAlikes.text kPx = some 39 := by
  have isKey : IsKey kPx := isKey_of_check rfl
  have starts := (value_start_exact isKey lookAlikes (by decide +kernel)).1
  refine ⟨by decide +kernel, starts.trans ?_⟩
  decide +kernel

/-!
## Strings
-/

/-- The string that the first member of the name has, if it has one. -/
def firstString (key : Text) (document : Document) : Option Text :=
  (firstOf key document.located).bind fun member => member.value.string?

/-- A lookup gives the whole string, as far as the scanner skips it. -/
structure ReadsWhole (document : Document) (key : Text) : Prop where
  string : findString document.text key = firstString key document
  extent : ∀ start body, findValueStart document.text key = some start → findString document.text key = some body →
    skipValue document.text start = start + (quote body).length

theorem findString_document {key : Text} (isKey : IsKey key) {document : Document}
    (plain : ∀ name ∈ document.value.names, '\\' ∉ name) :
    findString document.text key = (firstString key document).map (·.takeWhile (· ≠ '"')) := by
  have searched := search_document isKey plain
  rw [firstString]
  cases named : firstOf key document.located with
  | none =>
      rw [named] at searched
      change search ('"' :: key ++ ['"']) document.text = none at searched
      rw [findString_eq, searched]
      rfl
  | some member =>
      rw [named] at searched
      obtain ⟨here, tail, -, text⟩ := searched
      rw [text] at here
      rw [findString_found here, Option.bind_some]

/-- A string is read as a whole exactly when no quote is escaped in it. -/
theorem string_whole_iff {key : Text} (isKey : IsKey key) (document : Document)
    (plain : ∀ name ∈ document.value.names, '\\' ∉ name) :
    ReadsWhole document key ↔ ∀ body, firstString key document = some body → '"' ∉ body := by
  have read := findString_document isKey plain
  constructor
  · intro whole body first
    have same := whole.string
    rw [read, first, Option.map_some, Option.some.injEq] at same
    exact takeWhile_quote_eq_iff.mp same
  · intro noQuote
    have string : findString document.text key = firstString key document := by
      rw [read]
      cases first : firstString key document with
      | none => rfl
      | some body => rw [Option.map_some, takeWhile_quote_eq_iff.mpr (noQuote body first)]
    refine ⟨string, fun start body starts found => ?_⟩
    have searched := search_document isKey plain
    rw [(value_start_exact isKey document plain).1] at starts
    obtain ⟨member, named, rfl⟩ := Option.map_eq_some_iff.mp starts
    rw [named] at searched
    obtain ⟨-, tail, ends, text⟩ := searched
    rw [string, firstString, named, Option.bind_some] at found
    have whole : member.value.text = quote body := by
      cases value : member.value with
      | string inner =>
          rw [value] at found
          cases found
          rfl
      | _ =>
          rw [value] at found
          cases found
    rw [← whole]
    exact skipValue_value text (delimited_of_ends ends)

def replyWith (text : String) : Document := ⟨.none, .ofMembers [("sMsg".toList, .ofText text.toList)], .none⟩

theorem string_whole_iff_newline : ReadsWhole (replyWith "first\\nsecond") "sMsg".toList := by
  have isKey : IsKey "sMsg".toList := isKey_of_check rfl
  have first : firstString "sMsg".toList (replyWith "first\\nsecond") = some "first\\nsecond".toList := by decide +kernel
  refine (string_whole_iff isKey (replyWith "first\\nsecond") (by decide +kernel)).mpr fun body same => ?_
  rw [first] at same
  cases same
  decide +kernel

/-- An escaped quote cuts the string short, though the scanner skips all of it. -/
theorem string_cut_at_escaped_quote :
    (replyWith "say \\\"stop\\\" now").text = "\x7b\"sMsg\":\"say \\\"stop\\\" now\"\x7d".toList ∧
      firstString "sMsg".toList (replyWith "say \\\"stop\\\" now") = some "say \\\"stop\\\" now".toList ∧
      findString (replyWith "say \\\"stop\\\" now").text "sMsg".toList = some "say \\".toList ∧
      skipValue (replyWith "say \\\"stop\\\" now").text 8 = 8 + (quote "say \\\"stop\\\" now".toList).length := by
  decide +kernel

end TradingEngine.Json
