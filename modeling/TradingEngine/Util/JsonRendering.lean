import TradingEngine.Library.JsonMembers
import TradingEngine.Util.JsonValues

/-! The scanner on JSON as it is written: whatever the white space, a value is skipped
as a whole, a loop passes the items or the members, and the search for a key ends at
the first member of that name in the text, at whatever depth it stands. -/

set_option autoImplicit false

namespace TradingEngine.Json

open Library.Exec Library.JsonText Library.Unroll

/-!
## Where values start and end
-/

/-- The characters a value may start with are among these. -/
def startsValue (c : Char) : Bool := !(isBlank c || c = ',' || c = ':' || c = ']' || c = '\x7d')

theorem startsValue_of_isWordChar {c : Char} (word : isWordChar c = true) : startsValue c = true := by
  simp only [isWordChar, Bool.not_eq_true', Bool.or_eq_false_iff] at word
  simp [startsValue, word]

theorem text_starts (value : Value) : ∃ c rest, value.text = c :: rest ∧ startsValue c = true := by
  cases value with
  | word word =>
      obtain ⟨c, rest, text⟩ := List.exists_cons_of_ne_nil word.nonempty
      have wordChar : isWordChar c = true := List.all_eq_true.mp word.word c (by simp [text])
      exact ⟨c, rest, by rw [Value.text, text], startsValue_of_isWordChar wordChar⟩
  | string body => exact ⟨_, _, rfl, rfl⟩
  | emptyArray inner => exact ⟨_, _, by rw [Value.text, List.cons_append], rfl⟩
  | array items => exact ⟨_, _, by rw [Value.text, List.cons_append], rfl⟩
  | emptyObject inner => exact ⟨_, _, by rw [Value.text, List.cons_append], rfl⟩
  | object members => exact ⟨_, _, by rw [Value.text, List.cons_append], rfl⟩

theorem not_blank_of_startsValue {c : Char} (starts : startsValue c = true) : isBlank c = false := by
  simp only [startsValue, Bool.not_eq_true', Bool.or_eq_false_iff] at starts
  exact starts.1.1.1.1

theorem dropWhile_text (value : Value) (rest : Text) :
    (value.text ++ rest).dropWhile isJsonWhitespace = value.text ++ rest := by
  obtain ⟨c, tail, text, starts⟩ := text_starts value
  rw [text, List.cons_append]
  exact List.dropWhile_cons_of_neg (by simp [isJsonWhitespace_eq, not_blank_of_startsValue starts])

/-- The text is at its end, or at a character no number or literal has. -/
def Delimited (rest : Text) : Prop := ∀ c ∈ rest.head?, isDelimiter c = true

theorem delimited_of_ends {rest : Text} (ends : Ends rest) : Delimited rest := by
  rintro c here
  obtain ⟨later, rfl⟩ := List.head?_eq_some_iff.mp here
  by_cases blank : isBlank c = true
  · simp [isDelimiter, isJsonWhitespace_eq, blank]
  · rw [Ends, List.dropWhile_cons_of_neg blank] at ends
    rcases ends with rfl | rfl | rfl <;> rfl

theorem not_delimiter_of_isWordChar {c : Char} (word : isWordChar c = true) : isDelimiter c = false := by
  simp only [isWordChar, Bool.not_eq_true', Bool.or_eq_false_iff] at word
  simp [isDelimiter, isJsonWhitespace_eq, word]

theorem startsWord_of_isWordChar {c : Char} (word : isWordChar c = true) : startsWord c = true := by
  simp only [isWordChar, Bool.not_eq_true', Bool.or_eq_false_iff] at word
  simp [startsWord, word]

theorem afterColon_of_ends {rest : Text} (ends : Ends rest) : afterColon rest = none := by
  rw [afterColon, isJsonWhitespace_eq]
  rw [Ends] at ends
  cases behind : rest.dropWhile isBlank with
  | nil => rfl
  | cons c later =>
      rw [behind] at ends
      rcases ends with rfl | rfl | rfl <;> rfl

theorem stops_of_ends {rest : Text} (ends : Ends rest) : ∀ c ∈ rest.head?, isWordChar c = false := by
  intro c here
  have delimiter := delimited_of_ends ends c here
  by_contra word
  rw [not_delimiter_of_isWordChar (by simpa using word)] at delimiter
  cases delimiter

theorem stops_of_blank (blank : Blank) {c : Char} (stops : isWordChar c = false) (rest : Text) :
    ∀ d ∈ (blank.text ++ c :: rest).head?, isWordChar d = false := by
  cases text : blank.text with
  | nil =>
      rintro d ⟨⟩
      exact stops
  | cons first more =>
      rintro d ⟨⟩
      have isBlank := blank.isBlank_of_mem (by rw [text]; exact List.mem_cons_self)
      simp [isWordChar, isBlank]

/-- A value is skipped as a whole. -/
theorem valueLength_text (value : Value) {rest : Text} (delimited : Delimited rest) :
    valueLength (value.text ++ rest) = value.text.length := by
  cases value with
  | word word =>
      obtain ⟨c, tail, text⟩ := List.exists_cons_of_ne_nil word.nonempty
      have wordChars : ∀ d ∈ c :: tail, isWordChar d = true := by
        rw [← text]
        exact List.all_eq_true.mp word.word
      rw [Value.text, text]
      exact valueLength_word (startsWord_of_isWordChar (wordChars c List.mem_cons_self))
        (fun d member => not_delimiter_of_isWordChar (wordChars d member)) delimited
  | string body => exact valueLength_string body rest
  | emptyArray inner => exact valueLength_array (ClosesWithin.append_blank .square inner (.closed .done)) rest
  | array items => exact valueLength_array (items.closes .square _ _ (room_true _ _) (.closed .done)) rest
  | emptyObject inner => exact valueLength_object (ClosesWithin.append_blank .curly inner (.closed .done)) rest
  | object members => exact valueLength_object (members.closes .curly _ _ (room_true _ _) (.closed .done)) rest

theorem valueText_text (value : Value) {rest : Text} (ends : Ends rest) : valueText (value.text ++ rest) = value.text := by
  rw [valueText, valueLength_text value (delimited_of_ends ends), List.take_left]

theorem drop_valueLength_text (value : Value) {rest : Text} (ends : Ends rest) :
    (value.text ++ rest).drop (valueLength (value.text ++ rest)) = rest := by
  rw [valueLength_text value (delimited_of_ends ends), List.drop_left]

/-!
## Items and members
-/

theorem dropWhile_blank (blank : Blank) (rest : Text) :
    (blank.text ++ rest).dropWhile isJsonWhitespace = rest.dropWhile isJsonWhitespace := blank.dropWhile_append rest

theorem afterComma_comma (blank : Blank) (rest : Text) : afterComma (blank.text ++ ',' :: rest) = rest := by
  have comma : (blank.text ++ ',' :: rest).dropWhile isJsonWhitespace = ',' :: rest := dropWhile_blank blank _
  rw [afterComma, comma]
  rfl

theorem afterComma_closing (blank : Blank) {c : Char} (notBlank : isBlank c = false) (notComma : c ≠ ',') (rest : Text) :
    afterComma (blank.text ++ c :: rest) = c :: rest := by
  have closing : (blank.text ++ c :: rest).dropWhile isJsonWhitespace = c :: rest := by
    rw [dropWhile_blank]
    exact List.dropWhile_cons_of_neg (by simp [isJsonWhitespace_eq, notBlank])
  rw [afterComma, closing, if_neg (by simpa using notComma)]

theorem nextElement_item (before : Blank) (value : Value) {rest : Text} (ends : Ends rest) :
    nextElement (before.text ++ (value.text ++ rest)) = some (value.text, afterComma rest) := by
  have opens : endsArray (value.text ++ rest) 0 = false := by
    obtain ⟨c, tail, text, starts⟩ := text_starts value
    simp only [startsValue, Bool.not_eq_true', Bool.or_eq_false_iff] at starts
    simp [endsArray, text, starts]
  rw [nextElement, dropWhile_blank, dropWhile_text, valueText_text value ends, drop_valueLength_text value ends, opens]
  rfl

theorem nextElement_closing (before : Blank) (rest : Text) : nextElement (before.text ++ ']' :: rest) = none := by
  have closing : (before.text ++ ']' :: rest).dropWhile isJsonWhitespace = ']' :: rest := dropWhile_blank before _
  rw [nextElement, closing]
  rfl

/-- The loop over an array passes its items, and then ends. -/
theorem unroll_items_text (items : Items) (rest : Text) (rounds : Nat) :
    unroll nextElement rounds (items.text ++ ']' :: rest) =
      ((items.values.map Value.text).take rounds, decide (items.values.length < rounds)) := by
  induction items using Items.values.induct generalizing rounds with
  | case1 before value after =>
      cases rounds with
      | zero => rfl
      | succ rounds =>
          have round := nextElement_item before value ((ends_bracket rest).blank after)
          rw [afterComma_closing after rfl (by decide)] at round
          have text : (Items.last before value after).text ++ ']' :: rest =
              before.text ++ (value.text ++ (after.text ++ ']' :: rest)) := by simp [Items.text]
          rw [text, unroll_some round]
          cases rounds with
          | zero => rfl
          | succ rounds =>
              have ended : nextElement (']' :: rest) = none := rfl
              rw [unroll_none ended]
              simp [Items.values]
  | case2 before value after more ih =>
      cases rounds with
      | zero => rfl
      | succ rounds =>
          have round := nextElement_item before value ((ends_comma (more.text ++ ']' :: rest)).blank after)
          rw [afterComma_comma] at round
          have text : (Items.more before value after more).text ++ ']' :: rest =
              before.text ++ (value.text ++ (after.text ++ ',' :: (more.text ++ ']' :: rest))) := by simp [Items.text]
          rw [text, unroll_some round, ih]
          simp [Items.values]

theorem unroll_array {value : Value} (isArray : value.isArray = true) (rest : Text) (rounds : Nat) (some_rounds : 0 < rounds) :
    unroll nextElement rounds (value.text ++ rest).tail =
      ((value.items.map Value.text).take rounds, decide (value.items.length < rounds)) := by
  cases value with
  | array items =>
      have text : ((Value.array items).text ++ rest).tail = items.text ++ ']' :: rest := by simp [Value.text]
      rw [text]
      exact unroll_items_text items rest rounds
  | emptyArray inner =>
      obtain ⟨rounds, rfl⟩ : ∃ fewer, rounds = fewer + 1 := ⟨rounds - 1, by omega⟩
      have text : ((Value.emptyArray inner).text ++ rest).tail = inner.text ++ ']' :: rest := by simp [Value.text]
      rw [text, unroll_none (nextElement_closing inner rest)]
      simp [Value.items]
  | word word => cases isArray
  | string body => cases isArray
  | emptyObject inner => cases isArray
  | object members => cases isArray

theorem findText_quote {text : Text} (plain : '"' ∉ text) (rest : Text) : findText ['"'] (text ++ '"' :: rest) = some text.length := by
  induction text with
  | nil => simp [findText]
  | cons c text ih =>
      rw [List.mem_cons, not_or] at plain
      rw [List.cons_append, findText, ih plain.2, if_neg]
      · rfl
      · simp only [List.isPrefixOf_cons_cons, Bool.and_eq_true, beq_iff_eq, not_and]
        exact fun same => absurd same plain.1

/-- Without a backslash there is no quote either. -/
theorem takeWhile_firstQuote {front : Text} (plain : '"' ∉ front) (back : Text) :
    (front ++ '"' :: back).takeWhile (· ≠ '"') = front := by
  rw [List.takeWhile_append_of_pos fun c member => by simpa using fun here : c = '"' => plain (here ▸ member)]
  simp

theorem takeWhile_quote_eq_iff {body : Text} : body.takeWhile (· ≠ '"') = body ↔ '"' ∉ body := by
  rw [List.takeWhile_eq_self_iff]
  constructor
  · intro plain member
    simpa using plain _ member
  · intro plain c member
    simpa using fun same : c = '"' => plain (same ▸ member)

/-- A body and the quote behind it, up to the first quote of the two. -/
theorem findText_body (body tail : Text) :
    (findText ['"'] (body ++ '"' :: tail)).map (fun length => (body ++ '"' :: tail).take length) =
      some (body.takeWhile (· ≠ '"')) := by
  by_cases inside : '"' ∈ body
  · obtain ⟨front, back, rfl, plain⟩ := List.eq_append_cons_of_mem inside
    rw [takeWhile_firstQuote plain, List.append_assoc, List.cons_append, findText_quote plain, Option.map_some, List.take_left]
  · rw [findText_quote inside, Option.map_some, List.take_left, takeWhile_quote_eq_iff.mpr inside]

theorem quote_not_mem (body : Body) (plain : '\\' ∉ body.text) : '"' ∉ body.text := by
  obtain ⟨text, whole⟩ := body
  induction text using isBody.induct with
  | case1 => simp
  | case2 tail =>
      rw [isBody_quote] at whole
      cases whole
  | case3 => simp at plain
  | case4 => simp at plain
  | case5 c tail notQuote notBackslash ih =>
      rw [isBody_plain tail notQuote notBackslash] at whole
      simp only [List.mem_cons, not_or] at plain ⊢
      exact ⟨fun same => notQuote same.symm, ih whole plain.2⟩

theorem nextField_member (label : Label) (plain : '\\' ∉ label.name.text) (value : Value) {rest : Text} (ends : Ends rest) :
    nextField (label.text ++ (value.text ++ rest)) = some ((label.name.text, value.text), afterComma rest) := by
  have quoted : (label.text ++ (value.text ++ rest)).dropWhile isJsonWhitespace =
      '"' :: (label.name.text ++ '"' :: (label.after.text ++ ':' :: (label.beforeValue.text ++ (value.text ++ rest)))) := by
    have text : label.text ++ (value.text ++ rest) = label.before.text ++ '"' ::
        (label.name.text ++ '"' :: (label.after.text ++ ':' :: (label.beforeValue.text ++ (value.text ++ rest)))) := by
      simp [Label.text, quote]
    rw [text, dropWhile_blank]
    rfl
  have behind : (label.name.text ++ '"' ::
      (label.after.text ++ ':' :: (label.beforeValue.text ++ (value.text ++ rest)))).drop (label.name.text.length + 1) =
      label.after.text ++ ':' :: (label.beforeValue.text ++ (value.text ++ rest)) := by
    rw [← List.drop_drop, List.drop_left, List.drop_one, List.tail_cons]
  have colon : (label.after.text ++ ':' :: (label.beforeValue.text ++ (value.text ++ rest))).dropWhile isJsonWhitespace =
      ':' :: (label.beforeValue.text ++ (value.text ++ rest)) := dropWhile_blank label.after _
  rw [nextField, quoted]
  dsimp only [List.head?_cons, List.tail_cons]
  rw [findText_quote (quote_not_mem _ plain)]
  dsimp only
  rw [behind, colon]
  dsimp only [List.head?_cons, List.tail_cons]
  rw [dropWhile_blank, dropWhile_text, valueText_text value ends, drop_valueLength_text value ends, List.take_left]
  rfl

theorem nextField_closing (before : Blank) (rest : Text) : nextField (before.text ++ '\x7d' :: rest) = none := by
  have closing : (before.text ++ '\x7d' :: rest).dropWhile isJsonWhitespace = '\x7d' :: rest := dropWhile_blank before _
  rw [nextField, closing]
  rfl

/-- A member as the loop over an object gives it. -/
def fieldText (entry : Text × Value) : Text × Text := (entry.1, entry.2.text)

/-- The loop over an object passes its own members, and then ends. -/
theorem unroll_members_text (members : Members) (plain : ∀ entry ∈ members.entries, '\\' ∉ entry.1) (rest : Text) (rounds : Nat) :
    unroll nextField rounds (members.text ++ '\x7d' :: rest) =
      ((members.entries.map fieldText).take rounds, decide (members.entries.length < rounds)) := by
  induction members using Members.entries.induct generalizing rounds with
  | case1 label value after =>
      cases rounds with
      | zero => rfl
      | succ rounds =>
          have round := nextField_member label (plain _ List.mem_cons_self) value ((ends_brace rest).blank after)
          rw [afterComma_closing after rfl (by decide)] at round
          have text : (Members.last label value after).text ++ '\x7d' :: rest =
              label.text ++ (value.text ++ (after.text ++ '\x7d' :: rest)) := by simp [Members.text]
          rw [text, unroll_some round]
          cases rounds with
          | zero => rfl
          | succ rounds =>
              have ended : nextField ('\x7d' :: rest) = none := rfl
              rw [unroll_none ended]
              simp [Members.entries, fieldText]
  | case2 label value after more ih =>
      cases rounds with
      | zero => rfl
      | succ rounds =>
          have round := nextField_member label (plain _ List.mem_cons_self) value
            ((ends_comma (more.text ++ '\x7d' :: rest)).blank after)
          rw [afterComma_comma] at round
          have text : (Members.more label value after more).text ++ '\x7d' :: rest =
              label.text ++ (value.text ++ (after.text ++ ',' :: (more.text ++ '\x7d' :: rest))) := by simp [Members.text]
          rw [text, unroll_some round, ih fun entry member => plain entry (List.mem_cons_of_mem _ member)]
          simp [Members.entries, fieldText]

theorem length_text_pos (value : Value) : 0 < value.text.length := by
  obtain ⟨c, rest, text, -⟩ := text_starts value
  simp [text]

theorem length_values_le (items : Items) : items.values.length ≤ items.text.length := by
  induction items using Items.values.induct with
  | case1 before value after =>
      have some_text := length_text_pos value
      simp only [Items.values, Items.text, List.length_singleton, List.length_append]
      omega
  | case2 before value after more ih =>
      simp only [Items.values, Items.text, List.length_append, List.length_cons]
      omega

theorem length_entries_le (members : Members) : members.entries.length ≤ members.text.length := by
  induction members using Members.entries.induct with
  | case1 label value after =>
      have some_text := length_text_pos value
      simp only [Members.entries, Members.text, List.length_singleton, List.length_append]
      omega
  | case2 label value after more ih =>
      simp only [Members.entries, Members.text, List.length_append, List.length_cons]
      omega

theorem length_items_lt (value : Value) (rest : Text) : value.items.length < (value.text ++ rest).length + 1 := by
  cases value with
  | array items =>
      have short := length_values_le items
      simp only [Value.items, Value.text, List.length_append, List.length_cons]
      omega
  | _ => simp [Value.items]

theorem unroll_object {value : Value} (isObject : value.isObject = true) (plain : ∀ entry ∈ value.members, '\\' ∉ entry.1)
    (rest : Text) (rounds : Nat) (some_rounds : 0 < rounds) :
    unroll nextField rounds (value.text ++ rest).tail =
      ((value.members.map fieldText).take rounds, decide (value.members.length < rounds)) := by
  cases value with
  | object members =>
      have text : ((Value.object members).text ++ rest).tail = members.text ++ '\x7d' :: rest := by simp [Value.text]
      rw [text]
      exact unroll_members_text members plain rest rounds
  | emptyObject inner =>
      obtain ⟨rounds, rfl⟩ : ∃ fewer, rounds = fewer + 1 := ⟨rounds - 1, by omega⟩
      have text : ((Value.emptyObject inner).text ++ rest).tail = inner.text ++ '\x7d' :: rest := by simp [Value.text]
      rw [text, unroll_none (nextField_closing inner rest)]
      simp [Value.members]
  | word word => cases isObject
  | string body => cases isObject
  | emptyArray inner => cases isObject
  | array items => cases isObject

theorem length_members_lt (value : Value) (rest : Text) : value.members.length < (value.text ++ rest).length + 1 := by
  cases value with
  | object members =>
      have short := length_entries_le members
      simp only [Value.members, Value.text, List.length_append, List.length_cons]
      omega
  | _ => simp [Value.members]

theorem head_object {value : Value} (isObject : value.isObject = true) (rest : Text) :
    (value.text ++ rest).head? = some '\x7b' := by
  cases value with
  | object members => simp [Value.text]
  | emptyObject inner => simp [Value.text]
  | word word => cases isObject
  | string body => cases isObject
  | emptyArray inner => cases isObject
  | array items => cases isObject

/-- The loop over an object calls its action on the object's own members. -/
theorem forEachField_object {σ : Type} {value : Value} (isObject : value.isObject = true)
    (plain : ∀ entry ∈ value.members, '\\' ∉ entry.1) (tail : Text) (action : Text → Text → EStateM Exn σ PUnit) :
    forEachField (value.text ++ tail) action = forM value.members fun entry => action entry.1 entry.2.text := by
  have enough := length_members_lt value tail
  rw [forEachField, if_pos (head_object isObject tail), forEachFieldFrom_eq, List.drop_one,
    unroll_object isObject plain tail _ (by omega), decide_eq_true enough,
    List.take_of_length_le (by rw [List.length_map]; omega), runFields, List.forM_map]
  exact bind_pure _

theorem forEachField_text {σ : Type} {value : Value} (isObject : value.isObject = true)
    (plain : ∀ entry ∈ value.members, '\\' ∉ entry.1) (action : Text → Text → EStateM Exn σ PUnit) :
    forEachField value.text action = forM value.members fun entry => action entry.1 entry.2.text := by
  rw [← forEachField_object isObject plain [] action, List.append_nil]

/-!
## The search for a key
-/

/-- A key without white space, quotes, backslashes and punctuation, as every key the
engine looks up. -/
structure IsKey (key : Text) : Prop where
  nonempty : key ≠ []
  word : ∀ c ∈ key, isWordChar c = true

theorem isKey_of_check {key : Text} (checked : (!key.isEmpty && key.all isWordChar) = true) : IsKey key := by
  simp only [Bool.and_eq_true, Bool.not_eq_true', List.isEmpty_eq_false_iff, List.all_eq_true] at checked
  exact ⟨checked.1, checked.2⟩

theorem isKey_of_all {keys : List Text} (checked : keys.all (fun key => !key.isEmpty && key.all isWordChar) = true)
    {key : Text} (member : key ∈ keys) : IsKey key := isKey_of_check (List.all_eq_true.mp checked key member)

theorem IsKey.plain {key : Text} (isKey : IsKey key) : '"' ∉ key ∧ '\\' ∉ key :=
  ⟨fun member => by simpa [isWordChar] using isKey.word _ member, fun member => by simpa [isWordChar] using isKey.word _ member⟩

section Search

variable {key : Text} (isKey : IsKey key)

theorem search_plain {pattern text : Text} (starts : pattern.head? = some '"') (plain : '"' ∉ text) (rest : Text) :
    search pattern (text ++ rest) = search pattern rest := by
  obtain ⟨more, rfl⟩ := List.head?_eq_some_iff.mp starts
  induction text with
  | nil => rfl
  | cons c text ih =>
      rw [List.mem_cons, not_or] at plain
      rw [List.cons_append, search, if_neg, ih plain.2]
      simp only [List.isPrefixOf_cons_cons, Bool.and_eq_true, beq_iff_eq, not_and]
      exact fun same => absurd same plain.1

theorem blank_plain (blank : Blank) : '"' ∉ blank.text := fun member => by
  simpa [isBlank] using blank.isBlank_of_mem member

theorem search_blank (blank : Blank) (rest : Text) :
    search (quote key) (blank.text ++ rest) = search (quote key) rest := search_plain rfl (blank_plain blank) rest

theorem search_cons {c : Char} (notQuote : c ≠ '"') (rest : Text) : search (quote key) (c :: rest) = search (quote key) rest := by
  have plain : '"' ∉ [c] := by simpa using notQuote.symm
  exact search_plain rfl plain rest

include isKey

/-- A match from a closing quote on would have to start outside of every word. -/
theorem search_closing {rest : Text} (stops : ∀ c ∈ rest.head?, isWordChar c = false) :
    search (quote key) ('"' :: rest) = search (quote key) rest := by
  rw [search, if_neg]
  obtain ⟨first, more, rfl⟩ := List.exists_cons_of_ne_nil isKey.nonempty
  have word := isKey.word first List.mem_cons_self
  cases rest with
  | nil => simp [quote]
  | cons c later =>
      have different : first ≠ c := by
        rintro rfl
        rw [stops first rfl] at word
        cases word
      simp [quote, different]

/-- What stands between two quotes is matched only by the key itself. -/
theorem search_between {text : Text} (plain : '"' ∉ text) (rest : Text) :
    search (quote key) (quote text ++ rest) =
      if text = key then (afterColon rest).or (search (quote key) rest) else search (quote key) ('"' :: rest) := by
  split
  · rename_i same
    subst same
    have whole : (quote text).isPrefixOf (quote text ++ rest) = true :=
      List.isPrefixOf_iff_prefix.mpr (List.prefix_append _ _)
    have behind : (text ++ ['"'] ++ rest).drop ((quote text).length - 1) = rest := by
      have length : (quote text).length - 1 = (text ++ ['"']).length := by simp [quote]
      rw [length, List.drop_left]
    have opened : quote text ++ rest = '"' :: (text ++ ['"'] ++ rest) := rfl
    rw [opened, search, ← opened, if_pos whole, List.drop_left, behind]
  · rename_i different
    have opened : quote text ++ rest = '"' :: (text ++ '"' :: rest) := by simp [quote]
    rw [opened, search, if_neg, search_plain rfl plain]
    rw [List.isPrefixOf_iff_prefix]
    rintro ⟨tail, same⟩
    have inner : key ++ '"' :: tail = text ++ '"' :: rest := by simpa [quote] using same
    have keys := congrArg (List.takeWhile (· ≠ '"')) inner
    rw [takeWhile_firstQuote isKey.plain.1, takeWhile_firstQuote plain] at keys
    exact different keys.symm

theorem search_body {text rest : Text} (whole : isBody text = true) (ends : Ends rest) :
    search (quote key) (quote text ++ rest) = search (quote key) rest := by
  -- from one quote inside the string to the next; what stands before an escaped one is no key
  induction length : text.length using Nat.strong_induction_on generalizing text with
  | _ bound ih =>
      by_cases inside : '"' ∈ text
      · obtain ⟨front, back, rfl, plain⟩ := List.eq_append_cons_of_mem inside
        obtain ⟨backslash, behind⟩ := isBody_at_quote plain whole
        have notKey : front ≠ key := fun same => isKey.plain.2 (same ▸ backslash)
        have first : quote (front ++ '"' :: back) ++ rest = quote front ++ (back ++ '"' :: rest) := by simp [quote]
        have second : '"' :: (back ++ '"' :: rest) = quote back ++ rest := by simp [quote]
        have shorter : back.length < bound := by
          rw [← length, List.length_append, List.length_cons]
          omega
        rw [first, search_between isKey plain, if_neg notKey, second]
        exact ih back.length shorter behind rfl
      · rw [search_between isKey inside, afterColon_of_ends ends, search_closing isKey (stops_of_ends ends), Option.none_or,
          ite_self]

theorem search_label (label : Label) (plain : '\\' ∉ label.name.text) (value : Value) (rest : Text) :
    search (quote key) (label.text ++ (value.text ++ rest)) =
      if label.name.text = key then some (value.text ++ rest) else search (quote key) (value.text ++ rest) := by
  have text : label.text ++ (value.text ++ rest) = label.before.text ++ (quote label.name.text ++
      (label.after.text ++ ':' :: (label.beforeValue.text ++ (value.text ++ rest)))) := by simp [Label.text]
  have colon : (label.after.text ++ ':' :: (label.beforeValue.text ++ (value.text ++ rest))).dropWhile isJsonWhitespace =
      ':' :: (label.beforeValue.text ++ (value.text ++ rest)) := dropWhile_blank label.after _
  rw [text, search_blank, search_between isKey (quote_not_mem _ plain)]
  split
  · rw [afterColon, colon, if_pos List.head?_cons, List.tail_cons, dropWhile_blank, dropWhile_text, Option.some_or]
  · rw [search_closing isKey (stops_of_blank label.after rfl _), search_blank, search_cons (by decide), search_blank]

omit isKey in
variable (key) in
/-- Before what ends a value, the search passes the text or stops in it at the first of
these members that has the name. -/
def Searches (text : Text) (members : List Located) : Prop :=
  ∀ rest, Ends rest → match firstOf key members with
    | none => search (quote key) (text ++ rest) = search (quote key) rest
    | some found => search (quote key) (text ++ rest) = some ((text ++ rest).drop found.offset) ∧
        ∃ tail, Ends tail ∧ (text ++ rest).drop found.offset = found.value.text ++ tail

omit isKey in
theorem searches_plain {text : Text} (plain : '"' ∉ text) : Searches key text [] := fun rest _ => search_plain rfl plain rest

omit isKey in
/-- What stands before a text moves its members along. -/
theorem Searches.behind {text : Text} {members : List Located} (here : Searches key text members) (front : Text)
    (passes : ∀ rest, Ends rest → search (quote key) (front ++ (text ++ rest)) = search (quote key) (text ++ rest)) :
    Searches key (front ++ text) (members.map (.shift front.length)) := by
  intro rest ends
  have first := here rest ends
  rw [firstOf_shift, List.append_assoc, passes rest ends]
  cases found : firstOf key members with
  | none =>
      rw [found] at first
      exact first
  | some member =>
      rw [found] at first
      have moved : (front ++ (text ++ rest)).drop (front.length + member.offset) = (text ++ rest).drop member.offset := by
        rw [← List.drop_drop, List.drop_left]
      dsimp only [Option.map_some, Located.shift]
      rw [moved]
      exact first

omit isKey in
theorem Searches.lead {text : Text} {members : List Located} (here : Searches key text members) (before : Blank) :
    Searches key (before.text ++ text) (members.map (.shift before.text.length)) :=
  here.behind before.text fun rest _ => search_blank before (text ++ rest)

omit isKey in
theorem Searches.before {text back : Text} {members : List Located} (here : Searches key text members)
    (ends : ∀ rest, Ends rest → Ends (back ++ rest))
    (passes : ∀ rest, search (quote key) (back ++ rest) = search (quote key) rest) :
    Searches key (text ++ back) members := by
  intro rest stops
  have first := here _ (ends rest stops)
  rw [passes] at first
  rw [List.append_assoc]
  exact first

omit isKey in
theorem Searches.trail {text : Text} {members : List Located} (here : Searches key text members) (after : Blank) :
    Searches key (text ++ after.text) members :=
  here.before (fun _ ends => ends.blank after) fun rest => search_blank after rest

omit isKey in
theorem Searches.comma {text more : Text} {members later : List Located} (here : Searches key text members)
    (there : Searches key more later) (after : Blank) :
    Searches key (text ++ after.text ++ ',' :: more)
      (members ++ later.map (.shift (text ++ after.text ++ [',']).length)) := by
  have passed (rest : Text) := here (after.text ++ ',' :: (more ++ rest)) ((ends_comma _).blank after)
  have whole (rest : Text) : text ++ after.text ++ [','] ++ (more ++ rest) = text ++ (after.text ++ ',' :: (more ++ rest)) := by
    simp
  have split : text ++ after.text ++ ',' :: more = text ++ after.text ++ [','] ++ more := by simp
  rw [split]
  cases found : firstOf key members with
  | some member =>
      intro rest _
      have first := passed rest
      rw [found, ← whole, ← List.append_assoc] at first
      rw [firstOf_append, found]
      exact first
  | none =>
      have skipped : firstOf key (members ++ later.map (.shift (text ++ after.text ++ [',']).length)) =
          firstOf key (later.map (.shift (text ++ after.text ++ [',']).length)) := by rw [firstOf_append, found, Option.none_or]
      rw [Searches, skipped]
      refine there.behind (text ++ after.text ++ [',']) fun rest _ => ?_
      have first := passed rest
      rw [found] at first
      rw [whole]
      exact first.trans ((search_blank after _).trans (search_cons (by decide) _))

omit isKey in
theorem Searches.bracketed {opening closing : Char} {inner : Text} {members : List Located} (here : Searches key inner members)
    (opens : opening ≠ '"') (closes : closing ≠ '"') (ends : ∀ rest, Ends (closing :: rest)) :
    Searches key (opening :: inner ++ [closing]) (members.map (.shift 1)) := by
  have opened : Searches key (opening :: inner) (members.map (.shift 1)) :=
    here.behind [opening] fun rest _ => search_cons opens (inner ++ rest)
  exact opened.before (fun rest _ => ends rest) fun rest => search_cons closes rest

theorem Searches.labelled {value : Value} {members : List Located} (here : Searches key value.text members) (label : Label)
    (plain : '\\' ∉ label.name.text) :
    Searches key (label.text ++ value.text)
      (⟨label.name.text, label.text.length, value⟩ :: members.map (.shift label.text.length)) := by
  by_cases named : label.name.text = key
  · intro rest ends
    have first : firstOf key (⟨label.name.text, label.text.length, value⟩ :: members.map (.shift label.text.length)) =
        some ⟨label.name.text, label.text.length, value⟩ := by simp [firstOf, named]
    have behind : (label.text ++ (value.text ++ rest)).drop label.text.length = value.text ++ rest := List.drop_left
    rw [first, List.append_assoc, search_label isKey label plain, if_pos named]
    dsimp only
    rw [behind]
    exact ⟨rfl, rest, ends, rfl⟩
  · have skipped : firstOf key (⟨label.name.text, label.text.length, value⟩ :: members.map (.shift label.text.length)) =
        firstOf key (members.map (.shift label.text.length)) := by simp [firstOf, named]
    rw [Searches, skipped]
    refine here.behind label.text fun rest _ => ?_
    rw [search_label isKey label plain, if_neg named]

end Search

mutual

/-- The search stops at the first member of the name, at whatever depth. -/
theorem searches_value {key : Text} (isKey : IsKey key) : (value : Value) → (∀ name ∈ value.names, '\\' ∉ name) →
    Searches key value.text value.located
  | .word word, _ => searches_plain fun member => by
      simpa [isWordChar] using List.all_eq_true.mp word.word _ member
  | .string body, _ => fun _ ends => search_body isKey body.body ends
  | .emptyArray inner, _ => (searches_plain (blank_plain inner)).bracketed (by decide) (by decide) ends_bracket
  | .array items, plain => (searches_items isKey items plain).bracketed (by decide) (by decide) ends_bracket
  | .emptyObject inner, _ => (searches_plain (blank_plain inner)).bracketed (by decide) (by decide) ends_brace
  | .object members, plain => (searches_members isKey members plain).bracketed (by decide) (by decide) ends_brace

theorem searches_items {key : Text} (isKey : IsKey key) : (items : Items) → (∀ name ∈ items.names, '\\' ∉ name) →
    Searches key items.text items.located
  | .last before value after, plain => ((searches_value isKey value plain).lead before).trail after
  | .more before value after rest, plain =>
      have here := searches_value isKey value fun name member => plain name (List.mem_append_left _ member)
      have there := searches_items isKey rest fun name member => plain name (List.mem_append_right _ member)
      (here.lead before).comma there after

theorem searches_members {key : Text} (isKey : IsKey key) : (members : Members) → (∀ name ∈ members.names, '\\' ∉ name) →
    Searches key members.text members.located
  | .last label value after, plain =>
      have here := searches_value isKey value fun name member => plain name (List.mem_cons_of_mem _ member)
      (here.labelled isKey label (plain _ List.mem_cons_self)).trail after
  | .more label value after rest, plain =>
      have here := searches_value isKey value fun name member =>
        plain name (List.mem_cons_of_mem _ (List.mem_append_left _ member))
      have there := searches_members isKey rest fun name member =>
        plain name (List.mem_cons_of_mem _ (List.mem_append_right _ member))
      (here.labelled isKey label (plain _ List.mem_cons_self)).comma there after

end

/-!
## Lookups
-/

/-- In a document the search stops at the value of the first member of the name. -/
theorem search_document {key : Text} (isKey : IsKey key) {document : Document}
    (plain : ∀ name ∈ document.value.names, '\\' ∉ name) :
    match firstOf key document.located with
    | none => search (quote key) document.text = none
    | some found => search (quote key) document.text = some (document.text.drop found.offset) ∧
        ∃ tail, Ends tail ∧ document.text.drop found.offset = found.value.text ++ tail := by
  have searched := (((searches_value isKey document.value plain).lead document.before).trail document.after) [] ends_nil
  rw [List.append_nil] at searched
  cases named : firstOf key document.located with
  | none =>
      rw [Document.located] at named
      rw [named] at searched
      exact searched.trans (search.eq_1 _)
  | some found =>
      rw [Document.located] at named
      rw [named] at searched
      exact searched

theorem search_text {key : Text} (isKey : IsKey key) {value : Value} (plain : ∀ name ∈ value.names, '\\' ∉ name) :
    match value.firstNamed key with
    | none => search (quote key) value.text = none
    | some found => ∃ tail, Ends tail ∧ search (quote key) value.text = some (found.text ++ tail) := by
  have whole : (Document.mk .none value .none).text = value.text := by simp [Document.text, Blank.none]
  have searched := @search_document key isKey ⟨.none, value, .none⟩ plain
  rw [Document.located, firstOf_shift, whole] at searched
  rw [value.firstNamed_eq_firstOf key]
  cases named : firstOf key value.located with
  | none =>
      rw [named] at searched
      exact searched
  | some found =>
      rw [named] at searched
      obtain ⟨here, tail, ends, from_value⟩ := searched
      exact ⟨tail, ends, here.trans (congrArg some from_value)⟩

/-- From a value on, a string is read up to its first quote, escaped or not. -/
theorem findString_found {json key : Text} {value : Value} {tail : Text}
    (found : search (quote key) json = some (value.text ++ tail)) :
    findString json key = value.string?.map (·.takeWhile (· ≠ '"')) := by
  change search ('"' :: key ++ ['"']) json = _ at found
  rw [findString_eq, found]
  dsimp only
  cases value with
  | string body =>
      have content : ((Value.string body).text ++ tail).tail = body.text ++ '"' :: tail := by simp [Value.text, quote]
      rw [if_pos (by simp [Value.text, quote]), content, findText_body]
      rfl
  | word word =>
      obtain ⟨c, rest, text⟩ := List.exists_cons_of_ne_nil word.nonempty
      have wordChar : isWordChar c = true := List.all_eq_true.mp word.word c (by simp [text])
      have notQuote : c ≠ '"' := by
        rintro rfl
        cases wordChar
      rw [if_neg (by simpa [Value.text, text] using notQuote)]
      rfl
  | emptyArray inner => rw [if_neg (by simp [Value.text])]; rfl
  | array items => rw [if_neg (by simp [Value.text])]; rfl
  | emptyObject inner => rw [if_neg (by simp [Value.text])]; rfl
  | object members => rw [if_neg (by simp [Value.text])]; rfl

/-- A lookup reads the string that the first member of the name has, at whatever depth. -/
theorem findString_text {key : Text} (isKey : IsKey key) {value : Value} (plain : ∀ name ∈ value.names, '\\' ∉ name)
    (string : ∀ found body, value.firstNamed key = some found → found.string? = some body → '"' ∉ body) :
    findString value.text key = (value.firstNamed key).bind Value.string? := by
  have searched := search_text isKey plain
  cases named : value.firstNamed key with
  | none =>
      rw [named] at searched
      change search ('"' :: key ++ ['"']) value.text = none at searched
      rw [findString_eq, searched]
      rfl
  | some found =>
      rw [named] at searched
      obtain ⟨tail, -, here⟩ := searched
      rw [findString_found here, Option.bind_some]
      cases isString : found.string? with
      | none => rfl
      | some body => rw [Option.map_some, takeWhile_quote_eq_iff.mpr (string found body named isString)]

/-- A lookup reads the number that the first member of the name has. -/
theorem findNumber_text {key : Text} (isKey : IsKey key) {value : Value} (plain : ∀ name ∈ value.names, '\\' ∉ name)
    {word : Word} (named : value.firstNamed key = some (.word word)) (number : ∀ c ∈ word.text, isNumberChar c = true) :
    findNumber value.text key = some word.text := by
  have searched := search_text isKey plain
  rw [named] at searched
  obtain ⟨tail, ends, here⟩ := searched
  change search ('"' :: key ++ ['"']) value.text = _ at here
  have stops : ∀ c ∈ tail.head?, isNumberChar c = false := by
    intro c first
    have delimiter := delimited_of_ends ends c first
    simp only [isDelimiter, isJsonWhitespace, Bool.or_eq_true, decide_eq_true_eq] at delimiter
    rcases delimiter with ((rfl | rfl) | rfl) | (((rfl | rfl) | rfl) | rfl) <;> rfl
  have whole : (Value.text (.word word) ++ tail).takeWhile isNumberChar = word.text := by
    rw [Value.text, List.takeWhile_append_of_pos number]
    cases tail with
    | nil => simp
    | cons c tail => simp [stops c rfl]
  rw [findNumber_eq, here]
  dsimp only
  rw [whole, if_neg word.nonempty]

theorem head_array {value : Value} (isArray : value.isArray = true) (rest : Text) : (value.text ++ rest).head? = some '[' := by
  cases value with
  | array items => simp [Value.text]
  | emptyArray inner => simp [Value.text]
  | word word => cases isArray
  | string body => cases isArray
  | emptyObject inner => cases isArray
  | object members => cases isArray

theorem head_not_array {value : Value} (notArray : value.isArray = false) (rest : Text) :
    (value.text ++ rest).head? ≠ some '[' ∧ value.items = [] := by
  cases value with
  | array items => cases notArray
  | emptyArray inner => cases notArray
  | word word =>
      obtain ⟨c, others, text⟩ := List.exists_cons_of_ne_nil word.nonempty
      have wordChar : isWordChar c = true := List.all_eq_true.mp word.word c (by simp [text])
      refine ⟨?_, rfl⟩
      rw [Value.text, text]
      rintro ⟨rfl⟩
      cases wordChar
  | string body => exact ⟨by simp [Value.text, quote], rfl⟩
  | emptyObject inner => exact ⟨by simp [Value.text], rfl⟩
  | object members => exact ⟨by simp [Value.text], rfl⟩

/-- Iteration visits the items of the first member of the name, at whatever depth. -/
theorem arrayElements_text {key : Text} (isKey : IsKey key) {value : Value} (plain : ∀ name ∈ value.names, '\\' ∉ name) :
    arrayElements value.text key = ((value.itemsNamed key).map Value.text, true) := by
  have searched := search_text isKey plain
  rw [arrayElements_eq, Value.itemsNamed]
  cases named : value.firstNamed key with
  | none =>
      rw [named] at searched
      change search ('"' :: key ++ ['"']) value.text = none at searched
      rw [searched]
      rfl
  | some found =>
      rw [named] at searched
      obtain ⟨tail, -, here⟩ := searched
      change search ('"' :: key ++ ['"']) value.text = _ at here
      rw [here]
      dsimp only [Option.elim_some]
      cases isArray : found.isArray with
      | false =>
          obtain ⟨head, none_inside⟩ := head_not_array isArray tail
          rw [if_neg head, none_inside]
          rfl
      | true =>
          have enough := length_items_lt found tail
          rw [if_pos (head_array isArray tail), unroll_array isArray tail _ (by omega), decide_eq_true enough,
            List.take_of_length_le (by rw [List.length_map]; omega)]

theorem forEachArrayElement_text {σ : Type} {key : Text} (isKey : IsKey key) {value : Value}
    (plain : ∀ name ∈ value.names, '\\' ∉ name) (action : Text → EStateM Exn σ PUnit) :
    forEachArrayElement value.text key action = forM (value.itemsNamed key) fun item => action item.text := by
  rw [forEachArrayElement_eq, arrayElements_text isKey plain, runElements, List.forM_map]
  exact bind_pure _

theorem findArrayElement_text {key : Text} (isKey : IsKey key) {value : Value} (plain : ∀ name ∈ value.names, '\\' ∉ name)
    (index : Nat) : findArrayElement value.text key index = (value.itemsNamed key)[index]?.map Value.text := by
  have searched := search_text isKey plain
  rw [findArrayElement_eq, Value.itemsNamed]
  cases named : value.firstNamed key with
  | none =>
      rw [named] at searched
      change search ('"' :: key ++ ['"']) value.text = none at searched
      rw [searched]
      rfl
  | some found =>
      rw [named] at searched
      obtain ⟨tail, -, here⟩ := searched
      change search ('"' :: key ++ ['"']) value.text = _ at here
      rw [here]
      dsimp only [Option.elim_some]
      cases isArray : found.isArray with
      | false =>
          obtain ⟨head, none_inside⟩ := head_not_array isArray tail
          rw [if_neg head, none_inside]
          rfl
      | true =>
          rw [if_pos (head_array isArray tail), unroll_array isArray tail _ (by omega),
            List.getElem?_take_of_lt (by omega), List.getElem?_map]

theorem findElement_array {value : Value} (isArray : value.isArray = true) (tail : Text) (index : Nat) :
    findElement (value.text ++ tail) index = value.items[index]?.map Value.text := by
  rw [findElement, if_pos (head_array isArray tail), findElementAt_eq, List.drop_one,
    unroll_array isArray tail (index + 1) (by omega), List.getElem?_take_of_lt (by omega), List.getElem?_map]

theorem findElement_text {value : Value} (isArray : value.isArray = true) (index : Nat) :
    findElement value.text index = value.items[index]?.map Value.text := by
  rw [← findElement_array isArray [] index, List.append_nil]

theorem forEachElement_array {σ : Type} {value : Value} (isArray : value.isArray = true) (tail : Text)
    (action : Text → EStateM Exn σ PUnit) :
    forEachElement (value.text ++ tail) action = forM value.items fun item => action item.text := by
  have enough := length_items_lt value tail
  rw [forEachElement, forEachElementFrom_eq, elementsFrom_eq, List.drop_one, unroll_array isArray tail _ (by omega),
    decide_eq_true enough, List.take_of_length_le (by rw [List.length_map]; omega), runElements, List.forM_map]
  exact bind_pure _

theorem forEachElement_text {σ : Type} {value : Value} (isArray : value.isArray = true) (action : Text → EStateM Exn σ PUnit) :
    forEachElement value.text action = forM value.items fun item => action item.text := by
  rw [← forEachElement_array isArray [] action, List.append_nil]

end TradingEngine.Json
