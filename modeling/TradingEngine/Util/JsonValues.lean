import TradingEngine.Library.JsonText
import TradingEngine.Util.JsonSuffix

/-! How far one value reaches for the scanner: a string to its closing quote, a
container to the bracket that closes it, anything else to the next delimiter. -/

set_option autoImplicit false

namespace TradingEngine.Json

open Library.JsonText

theorem isJsonWhitespace_eq : isJsonWhitespace = isBlank := rfl

/-!
## Strings
-/

theorem stringLength_quote (rest : Text) : stringLength ('"' :: rest) = 0 := by
  rw [stringLength.eq_def]
  simp only [↓reduceIte]

theorem stringLength_plain {c : Char} (rest : Text) (notQuote : c ≠ '"') (notBackslash : c ≠ '\\') :
    stringLength (c :: rest) = 1 + stringLength rest := by
  rw [stringLength.eq_def]
  simp only [notQuote, notBackslash, ↓reduceIte]

theorem stringLength_escape (c : Char) (rest : Text) : stringLength ('\\' :: c :: rest) = 2 + stringLength rest := rfl

theorem stringLength_body {body : Text} (whole : isBody body = true) (rest : Text) :
    stringLength (body ++ '"' :: rest) = body.length := by
  induction body using isBody.induct with
  | case1 => exact stringLength_quote rest
  | case2 tail =>
      rw [isBody_quote] at whole
      cases whole
  | case3 => cases whole
  | case4 c tail _ ih =>
      rw [List.cons_append, List.cons_append, stringLength_escape, ih whole, List.length_cons, List.length_cons]
      omega
  | case5 c tail notQuote notBackslash ih =>
      rw [isBody_plain _ notQuote notBackslash] at whole
      rw [List.cons_append, stringLength_plain _ notQuote notBackslash, ih whole, List.length_cons]
      omega

/-- A string ends at a quote behind a whole body, or the text ends first. -/
theorem stringLength_cases (text : Text) :
    text.length ≤ stringLength text ∨
      ∃ (body : Body) (rest : Text), text = body.text ++ '"' :: rest ∧ stringLength text = body.text.length := by
  induction text using stringLength.induct with
  | case1 => exact .inl (Nat.zero_le _)
  | case2 rest => exact .inr ⟨⟨[], rfl⟩, rest, rfl, stringLength_quote rest⟩
  | case3 => exact .inl (by decide)
  | case4 c tail _ ih =>
      rw [stringLength_escape, List.length_cons, List.length_cons]
      rcases ih with beyond | ⟨⟨body, whole⟩, rest, rfl, length⟩
      · exact .inl (by omega)
      · refine .inr ⟨⟨'\\' :: c :: body, whole⟩, rest, rfl, ?_⟩
        rw [length]
        simp only [List.length_cons]
        omega
  | case5 c tail notQuote notBackslash ih =>
      rw [stringLength_plain _ notQuote notBackslash, List.length_cons]
      rcases ih with beyond | ⟨⟨body, whole⟩, rest, rfl, length⟩
      · exact .inl (by omega)
      · refine .inr ⟨⟨c :: body, (isBody_plain body notQuote notBackslash).trans whole⟩, rest, rfl, ?_⟩
        rw [length]
        simp only [List.length_cons]
        omega

/-!
## Containers
-/

variable {opening closing : Char} {fuel depth : Nat} {rest : Text}

theorem containerLength_done (fuel : Nat) (rest : Text) : containerLength opening closing fuel 0 rest = 0 := by
  cases fuel with
  | zero => rfl
  | succ fuel => cases rest <;> rfl

theorem containerLength_nil (fuel depth : Nat) : containerLength opening closing fuel depth [] = 0 := by
  cases fuel <;> rfl

theorem containerLength_quoted (fuel depth : Nat) (body : Body) (rest : Text) :
    containerLength opening closing (fuel + 1) (depth + 1) (quote body.text ++ rest) =
      (quote body.text).length + containerLength opening closing fuel (depth + 1) rest := by
  have length := stringLength_body body.body rest
  have behind : (body.text ++ '"' :: rest).drop (body.text.length + 1) = rest := by
    rw [← List.drop_drop, List.drop_left, List.drop_one, List.tail_cons]
  simp only [quote, List.cons_append, List.append_assoc, List.nil_append, containerLength]
  rw [length, behind, if_neg (Nat.succ_ne_zero _), if_pos trivial]
  simp
  omega

theorem Kind.opening_ne (kind : Kind opening closing) : opening ≠ '"' ∧ closing ≠ '"' ∧ closing ≠ opening := by
  cases kind <;> decide

theorem containerLength_opened (kind : Kind opening closing) (fuel depth : Nat) (rest : Text) :
    containerLength opening closing (fuel + 1) (depth + 1) (opening :: rest) =
      1 + containerLength opening closing fuel (depth + 2) rest := by
  obtain ⟨notQuote, -, -⟩ := Kind.opening_ne kind
  rw [containerLength, if_neg (Nat.succ_ne_zero _), if_neg notQuote, if_pos rfl]

theorem containerLength_closed (kind : Kind opening closing) (fuel depth : Nat) (rest : Text) :
    containerLength opening closing (fuel + 1) (depth + 1) (closing :: rest) =
      1 + containerLength opening closing fuel depth rest := by
  obtain ⟨-, notQuote, different⟩ := Kind.opening_ne kind
  rw [containerLength, if_neg (Nat.succ_ne_zero _), if_neg notQuote, if_neg different, if_pos rfl, Nat.add_sub_cancel]

theorem containerLength_other (fuel depth : Nat) {c : Char} (rest : Text) (notQuote : c ≠ '"') (notOpening : c ≠ opening)
    (notClosing : c ≠ closing) :
    containerLength opening closing (fuel + 1) (depth + 1) (c :: rest) =
      1 + containerLength opening closing fuel (depth + 1) rest := by
  rw [containerLength, if_neg (Nat.succ_ne_zero _), if_neg notQuote, if_neg notOpening, if_neg notClosing]

/-- Fuel beyond the length of the text changes nothing. -/
theorem containerLength_fuel {other : Nat} {text : Text} (enough : text.length ≤ fuel) (also : text.length ≤ other)
    (depth : Nat) : containerLength opening closing fuel depth text = containerLength opening closing other depth text := by
  induction fuel generalizing other depth text with
  | zero =>
      obtain rfl : text = [] := List.length_eq_zero_iff.mp (by omega)
      rw [containerLength_nil, containerLength_nil]
  | succ fuel ih =>
      cases text with
      | nil => rw [containerLength_nil, containerLength_nil]
      | cons c rest =>
          rw [List.length_cons] at enough also
          obtain ⟨other, rfl⟩ : ∃ fewer, other = fewer + 1 := ⟨other - 1, by omega⟩
          have same (depth : Nat) : containerLength opening closing fuel depth rest =
              containerLength opening closing other depth rest := ih (by omega) (by omega) depth
          have behind : (rest.drop (stringLength rest + 1)).length ≤ rest.length := by simp
          have skipped : containerLength opening closing fuel depth (rest.drop (stringLength rest + 1)) =
              containerLength opening closing other depth (rest.drop (stringLength rest + 1)) :=
            ih (by omega) (by omega) depth
          rw [containerLength, containerLength, same, same, same]
          dsimp only
          rw [skipped]

/-- The loop stops behind the bracket that closes the container. -/
theorem containerLength_closes (kind : Kind opening closing) {inner : Text} (closes : Closes opening closing depth inner)
    (enough : inner.length ≤ fuel) (rest : Text) :
    containerLength opening closing fuel depth (inner ++ rest) = inner.length := by
  induction closes generalizing fuel with
  | done => exact containerLength_done _ _
  | quoted body _ ih =>
      obtain ⟨fuel, rfl⟩ : ∃ fewer, fuel = fewer + 1 := ⟨fuel - 1, by simp [quote] at enough; omega⟩
      rw [List.append_assoc, containerLength_quoted, ih (by simp [quote] at enough; omega), List.length_append]
  | opened _ _ ih =>
      rw [List.length_cons] at enough
      obtain ⟨fuel, rfl⟩ : ∃ fewer, fuel = fewer + 1 := ⟨fuel - 1, by omega⟩
      rw [List.cons_append, containerLength_opened kind, ih (by omega), List.length_cons, Nat.add_comm]
  | closed _ ih =>
      rw [List.length_cons] at enough
      obtain ⟨fuel, rfl⟩ : ∃ fewer, fuel = fewer + 1 := ⟨fuel - 1, by omega⟩
      rw [List.cons_append, containerLength_closed kind, ih (by omega), List.length_cons, Nat.add_comm]
  | other notQuote notOpening notClosing _ ih =>
      rw [List.length_cons] at enough
      obtain ⟨fuel, rfl⟩ : ∃ fewer, fuel = fewer + 1 := ⟨fuel - 1, by omega⟩
      rw [List.cons_append, containerLength_other _ _ _ notQuote notOpening notClosing, ih (by omega), List.length_cons,
        Nat.add_comm]

/-- A container ends at the bracket that closes it, or the text ends first. -/
theorem containerLength_cases (kind : Kind opening closing) {text : Text} (enough : text.length ≤ fuel) (depth : Nat) :
    text.length ≤ containerLength opening closing fuel depth text ∨
      ∃ inner rest, text = inner ++ rest ∧ Closes opening closing depth inner ∧
        containerLength opening closing fuel depth text = inner.length := by
  induction fuel generalizing depth text with
  | zero => exact .inl enough
  | succ fuel ih =>
      cases depth with
      | zero => exact .inr ⟨[], text, rfl, .done, containerLength_done _ _⟩
      | succ depth =>
          cases text with
          | nil => exact .inl (Nat.zero_le _)
          | cons c text =>
              rw [List.length_cons] at enough ⊢
              have shorter : text.length ≤ fuel := by omega
              by_cases isQuote : c = '"'
              · subst isQuote
                rcases stringLength_cases text with beyond | ⟨body, rest, rfl, -⟩
                · refine .inl ?_
                  rw [containerLength, if_neg (Nat.succ_ne_zero _), if_pos rfl]
                  dsimp only
                  omega
                · have regroup : '"' :: (body.text ++ '"' :: rest) = quote body.text ++ rest := by simp [quote]
                  have width : (body.text ++ '"' :: rest).length + 1 = (quote body.text).length + rest.length := by
                    rw [← List.length_append, ← regroup, List.length_cons]
                  rw [regroup, containerLength_quoted, width]
                  rcases ih (show rest.length ≤ fuel by simp at shorter; omega) (depth + 1) with
                    beyond | ⟨inner, later, rfl, closes, length⟩
                  · exact .inl (by omega)
                  · exact .inr ⟨quote body.text ++ inner, later, (List.append_assoc _ _ _).symm, .quoted body closes,
                      by rw [length, List.length_append]⟩
              · by_cases isOpening : c = opening
                · subst isOpening
                  rw [containerLength_opened kind]
                  rcases ih shorter (depth + 2) with beyond | ⟨inner, later, rfl, closes, length⟩
                  · exact .inl (by omega)
                  · exact .inr ⟨_ :: inner, later, rfl, .opened trivial closes, by rw [length, List.length_cons, Nat.add_comm]⟩
                · by_cases isClosing : c = closing
                  · subst isClosing
                    rw [containerLength_closed kind]
                    rcases ih shorter depth with beyond | ⟨inner, later, rfl, closes, length⟩
                    · exact .inl (by omega)
                    · exact .inr ⟨_ :: inner, later, rfl, .closed closes, by rw [length, List.length_cons, Nat.add_comm]⟩
                  · rw [containerLength_other _ _ _ isQuote isOpening isClosing]
                    rcases ih shorter (depth + 1) with beyond | ⟨inner, later, rfl, closes, length⟩
                    · exact .inl (by omega)
                    · exact .inr ⟨_ :: inner, later, rfl, .other isQuote isOpening isClosing closes,
                        by rw [length, List.length_cons, Nat.add_comm]⟩

/-!
## Values
-/

theorem valueLength_string (body : Body) (rest : Text) :
    valueLength (quote body.text ++ rest) = (quote body.text).length := by
  rw [quote, List.append_assoc, List.cons_append, List.singleton_append, valueLength, if_pos rfl,
    stringLength_body body.body]
  simp
  omega

theorem valueLength_object {inner : Text} (closes : Closes '\x7b' '\x7d' 1 inner) (rest : Text) :
    valueLength ('\x7b' :: inner ++ rest) = ('\x7b' :: inner).length := by
  rw [List.cons_append, valueLength, if_neg (by decide), if_pos rfl,
    containerLength_closes .curly closes (by simp), List.length_cons, Nat.add_comm]

theorem valueLength_array {inner : Text} (closes : Closes '[' ']' 1 inner) (rest : Text) :
    valueLength ('[' :: inner ++ rest) = ('[' :: inner).length := by
  rw [List.cons_append, valueLength, if_neg (by decide), if_neg (by decide), if_pos rfl,
    containerLength_closes .square closes (by simp), List.length_cons, Nat.add_comm]

/-- The first character of a value that is neither a string nor a container. -/
def startsWord (c : Char) : Bool := !(c = '"' || c = '\x7b' || c = '[')

theorem valueLength_startsWord {c : Char} (starts : startsWord c = true) (rest : Text) :
    valueLength (c :: rest) = ((c :: rest).takeWhile fun d => !isDelimiter d).length := by
  simp only [startsWord, Bool.not_eq_true', Bool.or_eq_false_iff, decide_eq_false_iff_not] at starts
  rw [valueLength, if_neg starts.1.1, if_neg starts.1.2, if_neg starts.2]

theorem valueLength_word {c : Char} (starts : startsWord c = true) {word rest : Text}
    (plain : ∀ d ∈ c :: word, isDelimiter d = false) (stops : ∀ d ∈ rest.head?, isDelimiter d = true) :
    valueLength (c :: word ++ rest) = (c :: word).length := by
  have none : rest.takeWhile (fun d => !isDelimiter d) = [] := by
    cases rest with
    | nil => rfl
    | cons d later => exact List.takeWhile_cons_of_neg (by simp [stops d rfl])
  rw [List.cons_append, valueLength_startsWord starts, ← List.cons_append,
    List.takeWhile_append_of_pos fun d member => by simp [plain d member], none, List.append_nil]

end TradingEngine.Json
