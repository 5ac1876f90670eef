import TradingEngine.Util.JsonValues

/-! Whether the loops of the scanner end, on any text at all. A loop over an array
that meets a closing brace of its own level stays there; every other loop ends. -/

set_option autoImplicit false

namespace TradingEngine.Json

open Library.Exec Library.JsonText Library.Unroll

/-!
## Texts a loop over an array does not leave
-/

/-- Behind complete elements, and before any closing bracket of the array's own, stands
a closing brace. -/
inductive Stalls : Text → Prop where
  | brace (rest : Text) : Stalls ('\x7d' :: rest)
  | blank {c : Char} {rest : Text} : isBlank c = true → Stalls rest → Stalls (c :: rest)
  | comma {rest : Text} : Stalls rest → Stalls (',' :: rest)
  | word {c : Char} {word rest : Text} : startsWord c = true → (∀ d ∈ c :: word, isDelimiter d = false) →
      (∃ d later, rest = d :: later ∧ isDelimiter d = true) → Stalls rest → Stalls (c :: word ++ rest)
  | string (body : Body) {rest : Text} : Stalls rest → Stalls (quote body.text ++ rest)
  | array {inner rest : Text} : Closes '[' ']' 1 inner → Stalls rest → Stalls ('[' :: inner ++ rest)
  | object {inner rest : Text} : Closes '\x7b' '\x7d' 1 inner → Stalls rest → Stalls ('\x7b' :: inner ++ rest)

theorem Stalls.of_dropWhile {rest : Text} (stalls : Stalls (rest.dropWhile isBlank)) : Stalls rest := by
  induction rest with
  | nil => exact stalls
  | cons c rest ih =>
      by_cases blank : isBlank c = true
      · rw [List.dropWhile_cons_of_pos blank] at stalls
        exact .blank blank (ih stalls)
      · rwa [List.dropWhile_cons_of_neg blank] at stalls

/-!
## One round
-/

/-- A character an element may start with. -/
def startsElement (c : Char) : Bool := !(isBlank c || c = ']')

theorem nextElement_cons {c : Char} (starts : startsElement c = true) (rest : Text) :
    nextElement (c :: rest) =
      some (valueText (c :: rest), afterComma ((c :: rest).drop (valueLength (c :: rest)))) := by
  simp only [startsElement, Bool.not_eq_true', Bool.or_eq_false_iff, decide_eq_false_iff_not] at starts
  have stays : (c :: rest).dropWhile isJsonWhitespace = c :: rest :=
    List.dropWhile_cons_of_neg (by simp [isJsonWhitespace_eq, starts.1])
  rw [nextElement, stays]
  simp [endsArray, starts.2]

theorem nextElement_dropWhile (rest : Text) : nextElement (rest.dropWhile isJsonWhitespace) = nextElement rest := by
  rw [nextElement, nextElement, List.dropWhile_idempotent]

theorem nextElement_element {c : Char} (starts : startsElement c = true) {element rest : Text}
    (length : valueLength (c :: element ++ rest) = (c :: element).length) :
    nextElement (c :: element ++ rest) = some (c :: element, afterComma rest) := by
  rw [List.cons_append] at length ⊢
  rw [nextElement_cons starts, valueText, length, ← List.cons_append, List.take_left, List.drop_left]

theorem nextElement_whole {c : Char} (starts : startsElement c = true) {rest : Text}
    (length : (c :: rest).length ≤ valueLength (c :: rest)) : nextElement (c :: rest) = some (c :: rest, []) := by
  rw [nextElement_cons starts, valueText, List.take_of_length_le length, List.drop_eq_nil_of_le length]
  rfl

theorem not_endless_nil : ¬Endless nextElement [] := not_endless_of_none rfl

theorem endless_dropWhile (rest : Text) : Endless nextElement (rest.dropWhile isJsonWhitespace) ↔ Endless nextElement rest :=
  endless_congr (nextElement_dropWhile rest)

theorem nextElement_delimiter {c : Char} (starts : startsElement c = true) (word : startsWord c = true)
    (delimiter : isDelimiter c = true) (rest : Text) : nextElement (c :: rest) = some ([], afterComma (c :: rest)) := by
  have length : valueLength (c :: rest) = 0 := by
    rw [valueLength_startsWord word, List.takeWhile_cons_of_neg (by simp [delimiter])]
    rfl
  rw [nextElement_cons starts, valueText, length]
  rfl

theorem nextElement_comma (rest : Text) : nextElement (',' :: rest) = some ([], rest) :=
  nextElement_delimiter rfl rfl rfl rest

theorem nextElement_brace (rest : Text) : nextElement ('\x7d' :: rest) = some ([], '\x7d' :: rest) :=
  nextElement_delimiter rfl rfl rfl rest

/-- A comma the round passes would else be passed by the next. -/
theorem endless_afterComma (rest : Text) : Endless nextElement (afterComma rest) ↔ Endless nextElement rest := by
  rw [← endless_dropWhile rest, afterComma]
  split
  · rename_i comma
    obtain ⟨later, same⟩ := List.head?_eq_some_iff.mp comma
    rw [same, endless_of_some (nextElement_comma later)]
    rfl
  · rfl

theorem endless_element {c : Char} (starts : startsElement c = true) {element rest : Text}
    (length : valueLength (c :: element ++ rest) = (c :: element).length) :
    Endless nextElement (c :: element ++ rest) ↔ Endless nextElement rest := by
  rw [endless_of_some (nextElement_element starts length), endless_afterComma]

theorem endless_string (body : Body) (rest : Text) : Endless nextElement (quote body.text ++ rest) ↔ Endless nextElement rest :=
  endless_element rfl (valueLength_string body rest)

theorem endless_array {inner : Text} (closes : Closes '[' ']' 1 inner) (rest : Text) :
    Endless nextElement ('[' :: inner ++ rest) ↔ Endless nextElement rest :=
  endless_element rfl (valueLength_array closes rest)

theorem endless_object {inner : Text} (closes : Closes '\x7b' '\x7d' 1 inner) (rest : Text) :
    Endless nextElement ('\x7b' :: inner ++ rest) ↔ Endless nextElement rest :=
  endless_element rfl (valueLength_object closes rest)

theorem startsElement_of_plain {c : Char} (plain : isDelimiter c = false) : startsElement c = true := by
  simp only [isDelimiter, Bool.or_eq_false_iff] at plain
  simp [startsElement, ← isJsonWhitespace_eq, plain.1.2, plain.2]

theorem endless_word {c : Char} (starts : startsWord c = true) {word rest : Text}
    (plain : ∀ d ∈ c :: word, isDelimiter d = false) (stops : ∀ d ∈ rest.head?, isDelimiter d = true) :
    Endless nextElement (c :: word ++ rest) ↔ Endless nextElement rest :=
  endless_element (startsElement_of_plain (plain c List.mem_cons_self)) (valueLength_word starts plain stops)

theorem Stalls.endless {text : Text} (stalls : Stalls text) : Endless nextElement text := by
  induction stalls with
  | brace rest => exact endless_of_same (nextElement_brace rest)
  | blank blank _ ih =>
      rw [← endless_dropWhile, isJsonWhitespace_eq, List.dropWhile_cons_of_pos blank, ← isJsonWhitespace_eq, endless_dropWhile]
      exact ih
  | comma _ ih => exact (endless_of_some (nextElement_comma _)).mpr ih
  | word starts plain stops _ ih =>
      obtain ⟨d, later, rfl, delimiter⟩ := stops
      exact (endless_word starts plain (by simpa using delimiter)).mpr ih
  | string body _ ih => exact (endless_string body _).mpr ih
  | array closes _ ih => exact (endless_array closes _).mpr ih
  | object closes _ ih => exact (endless_object closes _).mpr ih

/-- A value that takes all of the text is the last. -/
theorem not_endless_whole {c : Char} (starts : startsElement c = true) {rest : Text}
    (length : (c :: rest).length ≤ valueLength (c :: rest)) : ¬Endless nextElement (c :: rest) := by
  rw [endless_of_some (nextElement_whole starts length)]
  exact not_endless_nil

section

variable {rest : Text}

/-- Shorter texts that are not left stall. -/
def ShorterStall (text : Text) : Prop := ∀ later : Text, later.length < text.length → Endless nextElement later → Stalls later

theorem stalls_string (again : ShorterStall ('"' :: rest)) (endless : Endless nextElement ('"' :: rest)) : Stalls ('"' :: rest) := by
  rcases stringLength_cases rest with beyond | ⟨body, later, rfl, -⟩
  · refine absurd endless (not_endless_whole rfl ?_)
    rw [valueLength, if_pos rfl, List.length_cons]
    omega
  · have regroup : '"' :: (body.text ++ '"' :: later) = quote body.text ++ later := by simp [quote]
    have shorter : later.length < ('"' :: (body.text ++ '"' :: later)).length := by simp; omega
    rw [regroup, endless_string] at endless
    rw [regroup]
    exact .string body (again later shorter endless)

theorem stalls_object (again : ShorterStall ('\x7b' :: rest)) (endless : Endless nextElement ('\x7b' :: rest)) :
    Stalls ('\x7b' :: rest) := by
  rcases containerLength_cases .curly (le_refl rest.length) 1 with beyond | ⟨inner, later, rfl, closes, -⟩
  · refine absurd endless (not_endless_whole rfl ?_)
    rw [valueLength, if_neg (by decide), if_pos rfl, List.length_cons]
    omega
  · have shorter : later.length < ('\x7b' :: (inner ++ later)).length := by simp
    rw [← List.cons_append, endless_object closes] at endless
    exact .object closes (again later shorter endless)

theorem stalls_array (again : ShorterStall ('[' :: rest)) (endless : Endless nextElement ('[' :: rest)) :
    Stalls ('[' :: rest) := by
  rcases containerLength_cases .square (le_refl rest.length) 1 with beyond | ⟨inner, later, rfl, closes, -⟩
  · refine absurd endless (not_endless_whole rfl ?_)
    rw [valueLength, if_neg (by decide), if_neg (by decide), if_pos rfl, List.length_cons]
    omega
  · have shorter : later.length < ('[' :: (inner ++ later)).length := by simp
    rw [← List.cons_append, endless_array closes] at endless
    exact .array closes (again later shorter endless)

theorem stalls_word {c : Char} (starts : startsWord c = true) (plain : isDelimiter c = false) (again : ShorterStall (c :: rest))
    (endless : Endless nextElement (c :: rest)) : Stalls (c :: rest) := by
  have whole := List.takeWhile_append_dropWhile (p := fun d => !isDelimiter d) (l := rest)
  have wordPlain : ∀ d ∈ c :: rest.takeWhile (fun d => !isDelimiter d), isDelimiter d = false := by
    intro d member
    rcases List.mem_cons.mp member with rfl | inside
    · exact plain
    · simpa using List.mem_takeWhile_imp inside
  cases behind : rest.dropWhile (fun d => !isDelimiter d) with
  | nil =>
      rw [behind, List.append_nil] at whole
      rw [whole] at wordPlain
      have length : valueLength (c :: rest ++ []) = (c :: rest).length := valueLength_word starts wordPlain (by simp)
      rw [List.append_nil] at length
      exact absurd endless (not_endless_whole (startsElement_of_plain plain) length.ge)
  | cons d later =>
      have delimiter : isDelimiter d = true := by
        have stops := List.head_dropWhile_not (fun d => !isDelimiter d) (l := rest) (by simp [behind])
        simpa [behind] using stops
      rw [behind] at whole
      have shorter : (d :: later).length < (c :: rest).length := by
        rw [← whole]
        simp
      rw [← whole, ← List.cons_append] at endless ⊢
      rw [endless_word starts wordPlain (by simpa using delimiter)] at endless
      exact .word starts wordPlain ⟨d, later, rfl, delimiter⟩ (again _ shorter endless)

theorem stalls_value {c : Char} (notBlank : isBlank c = false) (again : ShorterStall (c :: rest))
    (endless : Endless nextElement (c :: rest)) : Stalls (c :: rest) := by
  by_cases isBracket : c = ']'
  · subst isBracket
    exact absurd endless (not_endless_of_none rfl)
  by_cases isBrace : c = '\x7d'
  · subst isBrace
    exact .brace rest
  by_cases isComma : c = ','
  · subst isComma
    exact .comma (again rest (by simp) ((endless_of_some (nextElement_comma rest)).mp endless))
  by_cases isQuote : c = '"'
  · subst isQuote
    exact stalls_string again endless
  by_cases isObject : c = '\x7b'
  · subst isObject
    exact stalls_object again endless
  by_cases isArray : c = '['
  · subst isArray
    exact stalls_array again endless
  refine stalls_word ?_ ?_ again endless
  · simp [startsWord, isQuote, isObject, isArray]
  · simp [isDelimiter, isComma, isBrace, isBracket, isJsonWhitespace_eq, notBlank]

end

theorem stalls_of_endless {text : Text} (endless : Endless nextElement text) : Stalls text := by
  induction length : text.length using Nat.strong_induction_on generalizing text with
  | _ bound ih =>
      have short := (List.dropWhile_suffix isBlank (l := text)).length_le
      refine Stalls.of_dropWhile ?_
      rw [← endless_dropWhile, isJsonWhitespace_eq] at endless
      cases value : text.dropWhile isBlank with
      | nil =>
          rw [value] at endless
          exact absurd endless not_endless_nil
      | cons c rest =>
          have notBlank : isBlank c = false := by
            have stops := List.head_dropWhile_not isBlank (l := text) (by simp [value])
            simpa [value] using stops
          rw [value] at endless short
          exact stalls_value notBlank (fun later shorter endless => ih later.length (by omega) endless rfl) endless

theorem endless_iff_stalls (text : Text) : Endless nextElement text ↔ Stalls text := ⟨stalls_of_endless, Stalls.endless⟩

/-!
## Views

`std::string_view::substr` throws where it is asked to start past the end.
-/

namespace Checked

variable {σ : Type}

def substr (text : Text) (pos count : Nat) : EStateM Fault σ Text :=
  if pos ≤ text.length then return Json.substr text pos count else throw .outOfRange

def findElementAt (array : Text) (index : Nat) : EStateM Fault σ (Option Text) :=
  match skipElements array index 1 with
  | none => return none
  | some pos => do
      let start := skipWhitespace array pos
      if endsArray array start then return none
      else return some (← substr array start (skipValue array start - start))

def findElement (jsonArray : Text) (index : Nat) : EStateM Fault σ (Option Text) :=
  if jsonArray.head? = some '[' then findElementAt jsonArray index else return none

def findArrayElement (json key : Text) (index : Nat) : EStateM Fault σ (Option Text) :=
  match findValueStart json key with
  | none => return none
  | some valueStart => do
      if json[valueStart]? = some '[' then findElementAt (← substr json valueStart json.length) index
      else return none

def forEachElementFrom (array : Text) (action : Text → EStateM Fault σ PUnit) : Nat → Nat → EStateM Fault σ PUnit
  | 0, _ => throw (.thrown .outOfFuel)
  | fuel + 1, pos => do
      let start := skipWhitespace array pos
      if endsArray array start then
        return
      let stop := skipValue array start
      action (← substr array start (stop - start))
      forEachElementFrom array action fuel (afterElement array stop)

def forEachElement (array : Text) (action : Text → EStateM Fault σ PUnit) (fuel : Nat) : EStateM Fault σ PUnit :=
  forEachElementFrom array action fuel 1

def forEachArrayElement (json key : Text) (action : Text → EStateM Fault σ PUnit) (fuel : Nat) : EStateM Fault σ PUnit :=
  match findValueStart json key with
  | none => pure .unit
  | some valueStart => do
      if json[valueStart]? = some '[' then forEachElement (← substr json valueStart json.length) action fuel
      else pure .unit

def forEachFieldFrom (json : Text) (action : Text → Text → EStateM Fault σ PUnit) : Nat → Nat → EStateM Fault σ PUnit
  | 0, _ => throw (.thrown .outOfFuel)
  | fuel + 1, pos => do
      let quote := skipWhitespace json pos
      if json[quote]? ≠ some '"' then
        return
      let keyStart := quote + 1
      match findFrom json ['"'] keyStart with
      | none => return
      | some keyEnd =>
          let key ← substr json keyStart (keyEnd - keyStart)
          let colon := skipWhitespace json (keyEnd + 1)
          if json[colon]? ≠ some ':' then
            return
          let valueStart := skipWhitespace json (colon + 1)
          let stop := skipValue json valueStart
          action key (← substr json valueStart (stop - valueStart))
          forEachFieldFrom json action fuel (afterElement json stop)

def forEachField (json : Text) (action : Text → Text → EStateM Fault σ PUnit) (fuel : Nat) : EStateM Fault σ PUnit :=
  if json.head? = some '\x7b' then forEachFieldFrom json action fuel 1 else pure .unit

/-- A loop over views: the action on each, then the return if there is one. -/
def runViews {α : Type} (views : List α × Bool) (action : α → EStateM Fault σ PUnit) : EStateM Fault σ PUnit := do
  forM views.1 action
  if views.2 then pure .unit else throw (.thrown .outOfFuel)

theorem substr_inside {text : Text} {pos : Nat} (inside : pos ≤ text.length) (count : Nat) :
    (substr text pos count : EStateM Fault σ Text) = pure (Json.substr text pos count) := if_pos inside

theorem lt_length_of_getElem? {text : Text} {pos : Nat} {c : Char} (here : text[pos]? = some c) : pos < text.length :=
  (List.getElem?_eq_some_iff.mp here).1

theorem substr_from {text : Text} {pos : Nat} {c : Char} (here : text[pos]? = some c) :
    (substr text pos text.length : EStateM Fault σ Text) = pure (text.drop pos) := by
  rw [substr_inside (lt_length_of_getElem? here).le, Json.substr, List.take_of_length_le (by simp)]

theorem findElementAt_eq (array : Text) (index : Nat) :
    (findElementAt array index : EStateM Fault σ (Option Text)) = pure (Json.findElementAt array index) := by
  rw [findElementAt, Json.findElementAt]
  cases skipElements array index 1 with
  | none => rfl
  | some pos =>
      dsimp only
      split
      · rfl
      · rename_i opens
        have inside := lt_length_of_not_endsArray (by simpa using opens)
        rw [substr_inside inside.le, pure_bind]

theorem forEachElementFrom_eq (array : Text) (action : Text → EStateM Fault σ PUnit) (fuel pos : Nat) :
    forEachElementFrom array action fuel pos = runViews (unroll nextElement fuel (array.drop pos)) action := by
  induction fuel generalizing pos with
  | zero => rfl
  | succ fuel ih =>
      rw [forEachElementFrom, unroll, nextElement_drop]
      dsimp only
      split
      · rfl
      · rename_i opens
        have inside := lt_length_of_not_endsArray (by simpa using opens)
        rw [ih, substr_inside inside.le, pure_bind]
        simp only [runViews, List.forM_cons, bind_assoc]

theorem forEachFieldFrom_eq (json : Text) (action : Text → Text → EStateM Fault σ PUnit) (fuel pos : Nat) :
    forEachFieldFrom json action fuel pos =
      runViews (unroll nextField fuel (json.drop pos)) fun field => action field.1 field.2 := by
  induction fuel generalizing pos with
  | zero => rfl
  | succ fuel ih =>
      rw [forEachFieldFrom, unroll, nextField_drop]
      dsimp only
      split
      · rfl
      · rename_i opens
        have keyInside : skipWhitespace json pos + 1 ≤ json.length := lt_length_of_getElem? (not_not.mp opens)
        cases found : findFrom json ['"'] (skipWhitespace json pos + 1) with
        | none => rfl
        | some keyEnd =>
            dsimp only
            rw [substr_inside keyInside, pure_bind]
            split
            · rfl
            · rename_i colon
              have colonInside : skipWhitespace json (keyEnd + 1) + 1 ≤ json.length := lt_length_of_getElem? (not_not.mp colon)
              rw [ih, substr_inside (skipWhitespace_le colonInside), pure_bind]
              simp only [runViews, List.forM_cons, bind_assoc]

end Checked

/-!
## Whether each loop ends
-/

theorem afterComma_suffix (rest : Text) : afterComma rest <:+ rest := by
  rw [afterComma]
  split
  · exact (List.tail_suffix _).trans (List.dropWhile_suffix _)
  · exact List.dropWhile_suffix _

theorem valueText_inside {value text : Text} (behind : value <:+ text) : valueText value <:+: text :=
  (List.take_prefix _ _).isInfix.trans behind.isInfix

theorem behind_value (value : Text) : afterComma (value.drop (valueLength value)) <:+ value :=
  (afterComma_suffix _).trans (List.drop_suffix _ _)

theorem nextElement_inside {text rest element later : Text} (behind : rest <:+ text)
    (round : nextElement rest = some (element, later)) : element <:+: text ∧ later <:+ text := by
  rw [nextElement] at round
  split at round
  · cases round
  · cases round
    have value := (List.dropWhile_suffix isJsonWhitespace (l := rest)).trans behind
    exact ⟨valueText_inside value, (behind_value _).trans value⟩

/-- A round over an object passes at least the quote it starts with. -/
theorem nextField_inside {text rest later : Text} {field : Text × Text} (behind : rest <:+ text)
    (round : nextField rest = some (field, later)) :
    (field.1 <:+: text ∧ field.2 <:+: text) ∧ later <:+ text ∧ later.length < rest.length := by
  rw [nextField] at round
  dsimp only at round
  split at round
  · cases round
  · rename_i opens
    obtain ⟨name, quoted⟩ := List.head?_eq_some_iff.mp (not_not.mp opens)
    rw [quoted, List.tail_cons] at round
    have nameBehind : name <:+ rest.dropWhile isJsonWhitespace := quoted ▸ List.suffix_cons _ _
    have shorter : name.length < rest.length := by
      have whole := (List.dropWhile_suffix isJsonWhitespace (l := rest)).length_le
      rw [quoted, List.length_cons] at whole
      omega
    have nameSuffix : name <:+ text := nameBehind.trans ((List.dropWhile_suffix _).trans behind)
    cases found : findText ['"'] name with
    | none =>
        rw [found] at round
        cases round
    | some length =>
        rw [found] at round
        dsimp only at round
        split at round
        · cases round
        · cases round
          have value : (((name.drop (length + 1)).dropWhile isJsonWhitespace).tail).dropWhile isJsonWhitespace <:+ name :=
            (List.dropWhile_suffix _).trans ((List.tail_suffix _).trans
              ((List.dropWhile_suffix _).trans (List.drop_suffix _ _)))
          have laterSuffix := (behind_value _).trans value
          exact ⟨⟨(List.take_prefix _ _).isInfix.trans nameSuffix.isInfix, valueText_inside (value.trans nameSuffix)⟩,
            laterSuffix.trans nameSuffix, lt_of_le_of_lt laterSuffix.length_le shorter⟩

/-- A loop amounts to finitely many calls of its action, whatever that does. -/
def CallsFinitely {α : Type} (inside : α → Prop)
    (loop : (σ : Type) → (α → EStateM Fault σ PUnit) → Nat → EStateM Fault σ PUnit) : Prop :=
  ∃ views : List α, (∀ view ∈ views, inside view) ∧
    ∃ enough, ∀ fuel, enough ≤ fuel → ∀ σ action, loop σ action fuel = forM views action

section

variable {α : Type} {inside : α → Prop} {next : Text → Option (α × Text)} {start : Text}
  {loop : (σ : Type) → (α → EStateM Fault σ PUnit) → Nat → EStateM Fault σ PUnit}

theorem callsFinitely_none (returns : ∀ σ action fuel, loop σ action fuel = pure .unit) : CallsFinitely inside loop :=
  ⟨[], by simp, 0, fun fuel _ σ action => returns σ action fuel⟩

theorem forM_quiet (views : List α) : (forM views fun _ => (pure .unit : EStateM Fault Unit PUnit)) = pure .unit := by
  induction views with
  | nil => rfl
  | cons view views ih => rw [List.forM_cons, pure_bind, ih]

theorem callsFinitely_iff (views : ∀ rounds, ∀ view ∈ (unroll next rounds start).1, inside view)
    (runs : ∀ σ action fuel, loop σ action fuel = Checked.runViews (unroll next fuel start) action) :
    CallsFinitely inside loop ↔ ¬Endless next start := by
  constructor
  · rintro ⟨called, -, enough, same⟩ endless
    -- under an action that does nothing the calls return and the loop does not
    have returns := same enough le_rfl Unit fun _ => pure .unit
    rw [runs, Checked.runViews, endless enough, forM_quiet, forM_quiet, pure_bind] at returns
    cases congrFun returns ()
  · intro ends
    obtain ⟨rounds, ended⟩ := ended_of_not_endless ends
    refine ⟨(unroll next rounds start).1, views rounds, rounds, fun fuel least σ action => ?_⟩
    rw [runs, unroll_more ended least, Checked.runViews, ended]
    exact bind_pure _

end

theorem forEachElement_ends_iff {array text : Text} (behind : array <:+ text) :
    CallsFinitely (· <:+: text) (fun _ action fuel => Checked.forEachElement array action fuel) ↔ ¬Stalls array.tail := by
  rw [← endless_iff_stalls, ← List.drop_one]
  refine callsFinitely_iff (fun rounds => ?_) fun σ action fuel => Checked.forEachElementFrom_eq array action fuel 1
  exact unroll_items (fun rest element later inside round => nextElement_inside inside round)
    ((List.drop_suffix 1 array).trans behind)

/-- The arrays a loop by key goes through: the one that is the key's value. -/
def KeyedArray (text key rest : Text) : Prop := search ('"' :: key ++ ['"']) text = some ('[' :: rest)

theorem forEachArrayElement_ends_iff (text key : Text) :
    CallsFinitely (· <:+: text) (fun _ action fuel => Checked.forEachArrayElement text key action fuel) ↔
      ∀ rest, KeyedArray text key rest → ¬Stalls rest := by
  rcases findValueStart_cases text key with ⟨missing, none⟩ | ⟨valueStart, value, start, found, dropped⟩
  · refine iff_of_true (callsFinitely_none fun σ action fuel => ?_) fun rest keyed => ?_
    · rw [Checked.forEachArrayElement, missing]
    · rw [KeyedArray, none] at keyed
      cases keyed
  · by_cases isArray : value.head? = some '['
    · obtain ⟨rest, rfl⟩ := List.head?_eq_some_iff.mp isArray
      have here : text[valueStart]? = some '[' := by rw [getElem?_eq_head?, dropped, List.head?_cons]
      have loop (σ : Type) (action : Text → EStateM Fault σ PUnit) (fuel : Nat) :
          Checked.forEachArrayElement text key action fuel = Checked.forEachElement ('[' :: rest) action fuel := by
        rw [Checked.forEachArrayElement, start]
        dsimp only
        rw [if_pos here, Checked.substr_from here, dropped, pure_bind]
      simp only [loop]
      rw [forEachElement_ends_iff (search_suffix found), List.tail_cons]
      constructor
      · rintro notStalls other keyed
        obtain rfl : rest = other := by
          rw [KeyedArray, found] at keyed
          simpa using keyed
        exact notStalls
      · intro all
        exact all rest found
    · have elsewhere : text[valueStart]? ≠ some '[' := by rwa [getElem?_eq_head?, dropped]
      refine iff_of_true (callsFinitely_none fun σ action fuel => ?_) fun rest keyed => ?_
      · rw [Checked.forEachArrayElement, start]
        exact if_neg elsewhere
      · rw [KeyedArray, found] at keyed
        cases keyed
        exact absurd rfl isArray

theorem forEachField_ends (text : Text) :
    CallsFinitely (fun field : Text × Text => field.1 <:+: text ∧ field.2 <:+: text)
      fun _ action fuel => Checked.forEachField text (fun name value => action (name, value)) fuel := by
  by_cases isObject : text.head? = some '\x7b'
  · have runs (σ : Type) (action : Text × Text → EStateM Fault σ PUnit) (fuel : Nat) :
        Checked.forEachField text (fun name value => action (name, value)) fuel =
          Checked.runViews (unroll nextField fuel (text.drop 1)) action := by
      rw [Checked.forEachField, if_pos isObject]
      exact Checked.forEachFieldFrom_eq text _ fuel 1
    refine (callsFinitely_iff (fun rounds => ?_) runs).mpr fun endless => ?_
    · exact unroll_items (fun rest field later inside round =>
        ⟨(nextField_inside inside round).1, (nextField_inside inside round).2.1⟩) (List.drop_suffix 1 text)
    · have ended : (unroll nextField ((text.drop 1).length + 1) (text.drop 1)).2 = true :=
        unroll_ends List.length (fun rest field later round => (nextField_inside List.suffix_rfl round).2.2) (by omega)
      rw [endless] at ended
      cases ended
  · exact callsFinitely_none fun σ action fuel => if_neg isObject

theorem findElementAt_inside {array text : Text} (behind : array <:+ text) (index : Nat) :
    ∀ view ∈ findElementAt array index, view <:+: text := by
  intro view found
  rw [findElementAt_eq] at found
  exact unroll_items (fun rest element later inside round => nextElement_inside inside round)
    ((List.drop_suffix 1 array).trans behind) view (List.mem_of_getElem? found)

theorem findElement_ends (text : Text) (index : Nat) : ∃ result : Option Text, (∀ view ∈ result, view <:+: text) ∧
    ∀ (σ : Type) (state : σ), Checked.findElement text index state = .ok result state := by
  by_cases isArray : text.head? = some '['
  · refine ⟨_, findElementAt_inside List.suffix_rfl index, fun σ state => ?_⟩
    rw [Checked.findElement, if_pos isArray, Checked.findElementAt_eq]
    rfl
  · refine ⟨none, by simp, fun σ state => ?_⟩
    rw [Checked.findElement, if_neg isArray]
    rfl

theorem findArrayElement_ends (text key : Text) (index : Nat) : ∃ result : Option Text, (∀ view ∈ result, view <:+: text) ∧
    ∀ (σ : Type) (state : σ), Checked.findArrayElement text key index state = .ok result state := by
  cases start : findValueStart text key with
  | none =>
      refine ⟨none, by simp, fun σ state => ?_⟩
      rw [Checked.findArrayElement, start]
      rfl
  | some valueStart =>
      by_cases isArray : text[valueStart]? = some '['
      · refine ⟨_, findElementAt_inside (List.drop_suffix valueStart text) index, fun σ state => ?_⟩
        rw [Checked.findArrayElement, start]
        dsimp only
        rw [if_pos isArray, Checked.substr_from isArray, pure_bind, Checked.findElementAt_eq]
        rfl
      · refine ⟨none, by simp, fun σ state => ?_⟩
        rw [Checked.findArrayElement, start]
        dsimp only
        rw [if_neg isArray]
        rfl

/-- The five functions end on a text, call their actions finitely often and take no view
outside it. The loops inside them that are bounded by fuel here do not need more. -/
structure IterationEnds (text key : Text) (index : Nat) : Prop where
  forEachElement : CallsFinitely (· <:+: text) fun _ action fuel => Checked.forEachElement text action fuel
  forEachArrayElement : CallsFinitely (· <:+: text) fun _ action fuel => Checked.forEachArrayElement text key action fuel
  forEachField : CallsFinitely (fun field : Text × Text => field.1 <:+: text ∧ field.2 <:+: text)
    fun _ action fuel => Checked.forEachField text (fun name value => action (name, value)) fuel
  findElement : ∃ result : Option Text, (∀ view ∈ result, view <:+: text) ∧
    ∀ (σ : Type) (state : σ), Checked.findElement text index state = .ok result state
  findArrayElement : ∃ result : Option Text, (∀ view ∈ result, view <:+: text) ∧
    ∀ (σ : Type) (state : σ), Checked.findArrayElement text key index state = .ok result state
  findValueStart : ∀ fuel, text.length < fuel →
    findValueStartFrom text ('"' :: key ++ ['"']) fuel 0 = findValueStart text key
  skipValue : ∀ fuel, text.length ≤ fuel → ∀ opening closing depth,
    containerLength opening closing fuel depth text = containerLength opening closing text.length depth text

theorem iteration_ends_iff (text key : Text) (index : Nat) :
    IterationEnds text key index ↔ ¬Stalls text.tail ∧ ∀ rest, KeyedArray text key rest → ¬Stalls rest := by
  constructor
  · intro ends
    exact ⟨(forEachElement_ends_iff List.suffix_rfl).mp ends.forEachElement,
      (forEachArrayElement_ends_iff text key).mp ends.forEachArrayElement⟩
  · rintro ⟨array, keyed⟩
    refine {
      forEachElement := (forEachElement_ends_iff List.suffix_rfl).mpr array
      forEachArrayElement := (forEachArrayElement_ends_iff text key).mpr keyed
      forEachField := forEachField_ends text
      findElement := findElement_ends text index
      findArrayElement := findArrayElement_ends text key index
      findValueStart := fun fuel enough => ?_
      skipValue := fun fuel enough opening closing depth => containerLength_fuel enough le_rfl depth }
    rw [findValueStart_eq]
    exact findValueStartFrom_eq (by simp) fuel 0 (Nat.zero_le _) (by omega)

/-- A brace where the array should go on is never passed. -/
theorem iteration_stalls_at_brace : ¬IterationEnds "[1\x7d]".toList [] 0 := by
  intro ends
  have stalls : Stalls (['1'] ++ ['\x7d', ']']) :=
    .word rfl (by simp [isDelimiter, isJsonWhitespace]) ⟨_, _, rfl, rfl⟩ (.brace _)
  exact (forEachElement_ends_iff List.suffix_rfl).mp ends.forEachElement stalls

end TradingEngine.Json
