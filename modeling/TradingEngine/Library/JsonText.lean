import Mathlib

/-! JSON as it is written: values with the white space between their parts, the text
of a value, and the members it has, its own and those of the values inside it. The
body of a string keeps its escapes. -/

set_option autoImplicit false

namespace TradingEngine.Library.JsonText

/-!
## Characters
-/

def isBlank (c : Char) : Bool := c = ' ' || c = '\t' || c = '\n' || c = '\r'

/-- The characters of numbers and of the literals `true`, `false` and `null` are among these. -/
def isWordChar (c : Char) : Bool :=
  !(isBlank c || c = ',' || c = ':' || c = '\x7b' || c = '\x7d' || c = '[' || c = ']' || c = '"' || c = '\\')

/-- No quote but after a backslash, and every backslash before a character. -/
def isBody : List Char → Bool
  | [] => true
  | c :: rest =>
      if c = '"' then false
      else if c = '\\' then
        match rest with
        | [] => false
        | _ :: tail => isBody tail
      else isBody rest

theorem isBody_quote (rest : List Char) : isBody ('"' :: rest) = false := by
  rw [isBody.eq_def]
  simp only [↓reduceIte]

theorem isBody_plain {c : Char} (rest : List Char) (notQuote : c ≠ '"') (notBackslash : c ≠ '\\') :
    isBody (c :: rest) = isBody rest := by
  rw [isBody.eq_def]
  simp only [notQuote, notBackslash, ↓reduceIte]

theorem isBody_of_plain {text : List Char} (noQuote : '"' ∉ text) (noBackslash : '\\' ∉ text) : isBody text = true := by
  induction text with
  | nil => rfl
  | cons c rest ih =>
      rw [List.mem_cons, not_or] at noQuote noBackslash
      rw [isBody_plain rest (Ne.symm noQuote.1) (Ne.symm noBackslash.1), ih noQuote.2 noBackslash.2]

/-- An escaped quote stands behind a backslash, and what follows it is a body again. -/
theorem isBody_at_quote {front back : List Char} (plain : '"' ∉ front) (whole : isBody (front ++ '"' :: back) = true) :
    '\\' ∈ front ∧ isBody back = true := by
  induction front using isBody.induct with
  | case1 =>
      rw [List.nil_append, isBody_quote] at whole
      cases whole
  | case2 tail => simp at plain
  | case3 => exact ⟨List.mem_cons_self, whole⟩
  | case4 c tail _ ih =>
      simp only [List.mem_cons, not_or] at plain
      exact ⟨List.mem_cons_self, (ih plain.2.2 whole).2⟩
  | case5 c tail notQuote notBackslash ih =>
      rw [List.cons_append, isBody_plain _ notQuote notBackslash] at whole
      simp only [List.mem_cons, not_or] at plain
      obtain ⟨backslash, rest⟩ := ih plain.2 whole
      exact ⟨List.mem_cons_of_mem _ backslash, rest⟩

structure Blank where
  text : List Char
  blank : text.all isBlank = true

structure Word where
  text : List Char
  nonempty : text ≠ []
  word : text.all isWordChar = true

structure Body where
  text : List Char
  body : isBody text = true

/-- A name with its quotes and colon. -/
structure Label where
  before : Blank
  name : Body
  after : Blank
  beforeValue : Blank

def quote (body : List Char) : List Char := '"' :: body ++ ['"']

def Label.text (label : Label) : List Char :=
  label.before.text ++ quote label.name.text ++ label.after.text ++ ':' :: label.beforeValue.text

/-!
## Values
-/

mutual

inductive Value where
  | word (word : Word)
  | string (body : Body)
  | emptyArray (inner : Blank)
  | array (items : Items)
  | emptyObject (inner : Blank)
  | object (members : Members)

inductive Items where
  | last (before : Blank) (value : Value) (after : Blank)
  | more (before : Blank) (value : Value) (after : Blank) (rest : Items)

inductive Members where
  | last (label : Label) (value : Value) (after : Blank)
  | more (label : Label) (value : Value) (after : Blank) (rest : Members)

end

mutual

def Value.text : Value → List Char
  | .word word => word.text
  | .string body => quote body.text
  | .emptyArray inner => '[' :: inner.text ++ [']']
  | .array items => '[' :: items.text ++ [']']
  | .emptyObject inner => '\x7b' :: inner.text ++ ['\x7d']
  | .object members => '\x7b' :: members.text ++ ['\x7d']

def Items.text : Items → List Char
  | .last before value after => before.text ++ value.text ++ after.text
  | .more before value after rest => before.text ++ value.text ++ after.text ++ ',' :: rest.text

def Members.text : Members → List Char
  | .last label value after => label.text ++ value.text ++ after.text
  | .more label value after rest => label.text ++ value.text ++ after.text ++ ',' :: rest.text

end

def Items.values : Items → List Value
  | .last _ value _ => [value]
  | .more _ value _ rest => value :: rest.values

def Members.entries : Members → List (List Char × Value)
  | .last label value _ => [(label.name.text, value)]
  | .more label value _ rest => (label.name.text, value) :: rest.entries

/-- The items of an array. -/
def Value.items : Value → List Value
  | .array items => items.values
  | _ => []

/-- The members of an object, those of the values inside it left out. -/
def Value.members : Value → List (List Char × Value)
  | .object members => members.entries
  | _ => []

def Value.isArray : Value → Bool
  | .array _ | .emptyArray _ => true
  | _ => false

def Value.isObject : Value → Bool
  | .object _ | .emptyObject _ => true
  | _ => false

theorem Value.items_of_mem_members {value : Value} {entry : List Char × Value} (member : entry ∈ value.members) :
    value.items = [] := by
  cases value with
  | object members => rfl
  | _ => cases member

theorem Value.members_of_isArray {value : Value} (isArray : value.isArray = true) : value.members = [] := by
  cases value with
  | array items => rfl
  | emptyArray inner => rfl
  | _ => cases isArray

/-- The body of a string. -/
def Value.string? : Value → Option (List Char)
  | .string body => some body.text
  | _ => none

/-- The text of a number or literal, or of a string without its quotes. -/
def Value.scalarText? : Value → Option (List Char)
  | .word literal => some literal.text
  | .string body => some body.text
  | _ => none

mutual

/-- The names of members at any depth, in the order of the text. -/
def Value.names : Value → List (List Char)
  | .word _ | .string _ | .emptyArray _ | .emptyObject _ => []
  | .array items => items.names
  | .object members => members.names

def Items.names : Items → List (List Char)
  | .last _ value _ => value.names
  | .more _ value _ rest => value.names ++ rest.names

def Members.names : Members → List (List Char)
  | .last label value _ => label.name.text :: value.names
  | .more label value _ rest => label.name.text :: value.names ++ rest.names

end

mutual

/-- The value of the first member of a name in the text, at whatever depth. -/
def Value.firstNamed (name : List Char) : Value → Option Value
  | .word _ | .string _ | .emptyArray _ | .emptyObject _ => none
  | .array items => items.firstNamed name
  | .object members => members.firstNamed name

def Items.firstNamed (name : List Char) : Items → Option Value
  | .last _ value _ => value.firstNamed name
  | .more _ value _ rest => (value.firstNamed name).or (rest.firstNamed name)

def Members.firstNamed (name : List Char) : Members → Option Value
  | .last label value _ => if label.name.text = name then some value else value.firstNamed name
  | .more label value _ rest =>
      if label.name.text = name then some value else (value.firstNamed name).or (rest.firstNamed name)

end

/-- The value of an object's own member of a name. -/
def Value.ownNamed (name : List Char) (value : Value) : Option Value :=
  (value.members.find? fun entry => entry.1 = name).map Prod.snd

def Value.isScalar : Value → Bool
  | .word _ | .string _ => true
  | _ => false

/-- An object without arrays and objects inside it. -/
def Value.isFlat (value : Value) : Bool := value.isObject && value.members.all fun entry => entry.2.isScalar

/-- The items of the first array of a name in the text, where it is an array. -/
def Value.itemsNamed (name : List Char) (value : Value) : List Value :=
  (value.firstNamed name).elim [] Value.items

/-- The items of an object's own array of a name. -/
def Value.ownItems (name : List Char) (value : Value) : List Value := (value.ownNamed name).elim [] Value.items

/-- No inner member of the name comes before the object's own. -/
def Value.Unshadowed (name : List Char) (value : Value) : Prop := value.firstNamed name = value.ownNamed name

theorem Value.Unshadowed.itemsNamed_eq {name : List Char} {value : Value} (unshadowed : value.Unshadowed name) :
    value.itemsNamed name = value.ownItems name := by
  rw [Value.itemsNamed, unshadowed, Value.ownItems]

/-!
## Compact values
-/

def Blank.none : Blank := ⟨[], rfl⟩

/-- A text as a body, the empty one where it has a bare quote or backslash. -/
def Body.ofText (text : List Char) : Body := if whole : isBody text = true then ⟨text, whole⟩ else ⟨[], rfl⟩

def Label.compact (name : List Char) : Label := ⟨.none, .ofText name, .none, .none⟩

def Items.ofList (first : Value) : List Value → Items
  | [] => .last .none first .none
  | next :: rest => .more .none first .none (Items.ofList next rest)

def Members.ofList (first : List Char × Value) : List (List Char × Value) → Members
  | [] => .last (.compact first.1) first.2 .none
  | next :: rest => .more (.compact first.1) first.2 .none (Members.ofList next rest)

def Value.ofText (text : List Char) : Value := .string (.ofText text)

def Value.ofItems : List Value → Value
  | [] => .emptyArray .none
  | first :: rest => .array (Items.ofList first rest)

def Value.ofMembers : List (List Char × Value) → Value
  | [] => .emptyObject .none
  | first :: rest => .object (Members.ofList first rest)

theorem Items.values_ofList (first : Value) (rest : List Value) : (Items.ofList first rest).values = first :: rest := by
  induction rest generalizing first with
  | nil => rfl
  | cons next rest ih => rw [Items.ofList, Items.values, ih]

theorem Members.entries_ofList (first : List Char × Value) (rest : List (List Char × Value))
    (bodies : ∀ entry ∈ first :: rest, isBody entry.1 = true) : (Members.ofList first rest).entries = first :: rest := by
  have name : (Label.compact first.1).name.text = first.1 := by
    rw [Label.compact, Body.ofText, dif_pos (bodies first List.mem_cons_self)]
  induction rest generalizing first with
  | nil => rw [Members.ofList, Members.entries, name]
  | cons next rest ih =>
      have tail : ∀ entry ∈ next :: rest, isBody entry.1 = true :=
        fun entry member => bodies entry (List.mem_cons_of_mem _ member)
      have nextName : (Label.compact next.1).name.text = next.1 := by
        rw [Label.compact, Body.ofText, dif_pos (tail next List.mem_cons_self)]
      rw [Members.ofList, Members.entries, name, ih next tail nextName]

theorem Value.items_ofItems (items : List Value) : (Value.ofItems items).items = items := by
  cases items with
  | nil => rfl
  | cons first rest => exact Items.values_ofList first rest

theorem Value.members_ofMembers {members : List (List Char × Value)}
    (bodies : (members.all fun entry => isBody entry.1) = true) : (Value.ofMembers members).members = members := by
  cases members with
  | nil => rfl
  | cons first rest => exact Members.entries_ofList first rest (List.all_eq_true.mp bodies)

theorem Value.text_ofText {text : List Char} (whole : isBody text = true) : (Value.ofText text).text = quote text := by
  rw [Value.ofText, Value.text, Body.ofText, dif_pos whole]

theorem Label.text_compact {name : List Char} (whole : isBody name = true) : (Label.compact name).text = quote name ++ [':'] := by
  simp [Label.compact, Label.text, Body.ofText, whole, Blank.none]

/-- With a comma before every member but the first. -/
theorem Members.text_ofList (first : List Char × Value) (rest : List (List Char × Value))
    (bodies : ∀ entry ∈ first :: rest, isBody entry.1 = true) :
    (Members.ofList first rest).text =
      quote first.1 ++ ':' :: first.2.text ++ rest.flatMap fun entry => ',' :: quote entry.1 ++ ':' :: entry.2.text := by
  induction rest generalizing first with
  | nil =>
      rw [Members.ofList, Members.text, Label.text_compact (bodies first List.mem_cons_self)]
      simp [Blank.none]
  | cons next rest ih =>
      have tail : ∀ entry ∈ next :: rest, isBody entry.1 = true :=
        fun entry member => bodies entry (List.mem_cons_of_mem _ member)
      rw [Members.ofList, Members.text, Label.text_compact (bodies first List.mem_cons_self), ih next tail]
      simp [Blank.none]

theorem Value.text_ofMembers {first : List Char × Value} {rest : List (List Char × Value)}
    (bodies : ((first :: rest).all fun entry => isBody entry.1) = true) :
    (Value.ofMembers (first :: rest)).text =
      '\x7b' :: (quote first.1 ++ ':' :: first.2.text ++ rest.flatMap fun entry => ',' :: quote entry.1 ++ ':' :: entry.2.text) ++
        ['\x7d'] := by
  rw [Value.ofMembers, Value.text, Members.text_ofList first rest (List.all_eq_true.mp bodies)]

/-- With a comma behind every item. -/
theorem Items.text_ofList (first : Value) (rest : List Value) :
    (Items.ofList first rest).text ++ [','] = (first :: rest).flatMap fun value => value.text ++ [','] := by
  induction rest generalizing first with
  | nil => simp [Items.ofList, Items.text, Blank.none]
  | cons next rest ih =>
      rw [List.flatMap_cons, ← ih next]
      simp [Items.ofList, Items.text, Blank.none]

/-!
## Ends of values
-/

/-- What may follow a value: nothing, or a comma or closing bracket after white space. -/
def Ends (rest : List Char) : Prop :=
  match rest.dropWhile isBlank with
  | [] => True
  | c :: _ => c = ',' ∨ c = ']' ∨ c = '\x7d'

theorem Blank.isBlank_of_mem (blank : Blank) {c : Char} (member : c ∈ blank.text) : isBlank c = true :=
  List.all_eq_true.mp blank.blank c member

theorem Blank.dropWhile_append (blank : Blank) (rest : List Char) :
    (blank.text ++ rest).dropWhile isBlank = rest.dropWhile isBlank :=
  List.dropWhile_append_of_pos fun _ member => blank.isBlank_of_mem member

theorem ends_nil : Ends [] := trivial

theorem ends_comma (rest : List Char) : Ends (',' :: rest) := .inl rfl

theorem ends_bracket (rest : List Char) : Ends (']' :: rest) := .inr (.inl rfl)

theorem ends_brace (rest : List Char) : Ends ('\x7d' :: rest) := .inr (.inr rfl)

theorem Ends.blank {rest : List Char} (ends : Ends rest) (blank : Blank) : Ends (blank.text ++ rest) := by
  rw [Ends, blank.dropWhile_append]
  exact ends

/-!
## Brackets of one kind

Counting only the brackets of one kind, and none inside strings, is enough to come
to the end of a container.
-/

/-- The text closes this many brackets that are open before it, the last at its end;
every number of open brackets it goes up to is among those that fit. -/
inductive ClosesWithin (fits : Nat → Prop) (opening closing : Char) : Nat → List Char → Prop where
  | done : ClosesWithin fits opening closing 0 []
  | quoted {depth : Nat} {rest : List Char} (body : Body) : ClosesWithin fits opening closing (depth + 1) rest →
      ClosesWithin fits opening closing (depth + 1) (quote body.text ++ rest)
  | opened {depth : Nat} {rest : List Char} : fits (depth + 2) → ClosesWithin fits opening closing (depth + 2) rest →
      ClosesWithin fits opening closing (depth + 1) (opening :: rest)
  | closed {depth : Nat} {rest : List Char} : ClosesWithin fits opening closing depth rest →
      ClosesWithin fits opening closing (depth + 1) (closing :: rest)
  | other {depth : Nat} {rest : List Char} {c : Char} : c ≠ '"' → c ≠ opening → c ≠ closing →
      ClosesWithin fits opening closing (depth + 1) rest → ClosesWithin fits opening closing (depth + 1) (c :: rest)

abbrev Closes : Char → Char → Nat → List Char → Prop := ClosesWithin fun _ => True

/-- The two kinds of brackets. -/
inductive Kind : Char → Char → Prop where
  | square : Kind '[' ']'
  | curly : Kind '\x7b' '\x7d'

mutual

/-- How many brackets are open at once, at most. -/
def Value.nesting : Value → Nat
  | .word _ | .string _ => 0
  | .emptyArray _ | .emptyObject _ => 1
  | .array items => items.nesting + 1
  | .object members => members.nesting + 1

def Items.nesting : Items → Nat
  | .last _ value _ => value.nesting
  | .more _ value _ rest => max value.nesting rest.nesting

def Members.nesting : Members → Nat
  | .last _ value _ => value.nesting
  | .more _ value _ rest => max value.nesting rest.nesting

end

/-- Where so many brackets are open, this many more fit. -/
def Room (fits : Nat → Prop) (more depth : Nat) : Prop := ∀ count ≤ more, fits (depth + count)

theorem Room.fewer {fits : Nat → Prop} {more fewer depth : Nat} (room : Room fits more depth) (less : fewer ≤ more) :
    Room fits fewer depth := fun count few => room count (few.trans less)

theorem Room.inside {fits : Nat → Prop} {more depth : Nat} (room : Room fits (more + 1) depth) :
    Room fits more (depth + 1) := fun count few => by
  rw [Nat.add_assoc, Nat.add_comm 1]
  exact room (count + 1) (by omega)

theorem room_true (more depth : Nat) : Room (fun _ => True) more depth := fun _ _ => trivial

section Counting

variable {fits : Nat → Prop} {opening closing : Char} {depth : Nat} {rest : List Char}

theorem ClosesWithin.append_plain {text : List Char} (plain : ∀ c ∈ text, c ≠ '"' ∧ c ≠ opening ∧ c ≠ closing)
    (closes : ClosesWithin fits opening closing (depth + 1) rest) :
    ClosesWithin fits opening closing (depth + 1) (text ++ rest) := by
  induction text with
  | nil => exact closes
  | cons c text ih =>
      obtain ⟨notQuote, notOpening, notClosing⟩ := plain c List.mem_cons_self
      exact .other notQuote notOpening notClosing (ih fun other member => plain other (List.mem_cons_of_mem _ member))

theorem Kind.not_blank (kind : Kind opening closing) {c : Char} (blank : isBlank c = true) :
    c ≠ '"' ∧ c ≠ opening ∧ c ≠ closing := by
  simp only [isBlank, Bool.or_eq_true, decide_eq_true_eq] at blank
  cases kind <;> rcases blank with ((rfl | rfl) | rfl) | rfl <;> decide

theorem Kind.not_word (kind : Kind opening closing) {c : Char} (word : isWordChar c = true) :
    c ≠ '"' ∧ c ≠ opening ∧ c ≠ closing := by
  cases kind <;> simp_all [isWordChar]

theorem ClosesWithin.append_blank (kind : Kind opening closing) (blank : Blank)
    (closes : ClosesWithin fits opening closing (depth + 1) rest) :
    ClosesWithin fits opening closing (depth + 1) (blank.text ++ rest) :=
  closes.append_plain fun _ member => kind.not_blank (blank.isBlank_of_mem member)

theorem ClosesWithin.append_word (kind : Kind opening closing) (word : Word)
    (closes : ClosesWithin fits opening closing (depth + 1) rest) :
    ClosesWithin fits opening closing (depth + 1) (word.text ++ rest) :=
  closes.append_plain fun c member => kind.not_word (List.all_eq_true.mp word.word c member)

theorem ClosesWithin.comma (kind : Kind opening closing) (closes : ClosesWithin fits opening closing (depth + 1) rest) :
    ClosesWithin fits opening closing (depth + 1) (',' :: rest) := by
  cases kind <;> exact .other (by decide) (by decide) (by decide) closes

theorem ClosesWithin.append_label (kind : Kind opening closing) (label : Label)
    (closes : ClosesWithin fits opening closing (depth + 1) rest) :
    ClosesWithin fits opening closing (depth + 1) (label.text ++ rest) := by
  have value := closes.append_blank kind label.beforeValue
  have colon : ClosesWithin fits opening closing (depth + 1) (':' :: (label.beforeValue.text ++ rest)) := by
    cases kind <;> exact .other (by decide) (by decide) (by decide) value
  have name := ClosesWithin.quoted label.name (colon.append_blank kind label.after)
  simpa [Label.text] using name.append_blank kind label.before

/-- The text closes what it opens, where there is room for its brackets. -/
def Balances (fits : Nat → Prop) (opening closing : Char) (nesting : Nat) (inner : List Char) : Prop :=
  ∀ (depth : Nat) (rest : List Char), Room fits nesting (depth + 1) → ClosesWithin fits opening closing (depth + 1) rest →
    ClosesWithin fits opening closing (depth + 1) (inner ++ rest)

theorem balances_blank (kind : Kind opening closing) (blank : Blank) : Balances fits opening closing 0 blank.text :=
  fun _ _ _ closes => closes.append_blank kind blank

/-- A pair of brackets around a text that keeps the count keeps it too. -/
theorem Balances.square (kind : Kind opening closing) {inner : List Char} {nesting : Nat}
    (keeps : Balances fits opening closing nesting inner) :
    Balances fits opening closing (nesting + 1) ('[' :: inner ++ [']']) := by
  intro depth rest room closes
  rw [List.append_assoc, List.cons_append, List.singleton_append]
  cases kind with
  | square => exact .opened (room 1 (by omega)) (keeps _ _ room.inside (.closed closes))
  | curly =>
      refine .other (by decide) (by decide) (by decide) (keeps _ _ (room.fewer (Nat.le_succ _)) ?_)
      exact .other (by decide) (by decide) (by decide) closes

theorem Balances.curly (kind : Kind opening closing) {inner : List Char} {nesting : Nat}
    (keeps : Balances fits opening closing nesting inner) :
    Balances fits opening closing (nesting + 1) ('\x7b' :: inner ++ ['\x7d']) := by
  intro depth rest room closes
  rw [List.append_assoc, List.cons_append, List.singleton_append]
  cases kind with
  | curly => exact .opened (room 1 (by omega)) (keeps _ _ room.inside (.closed closes))
  | square =>
      refine .other (by decide) (by decide) (by decide) (keeps _ _ (room.fewer (Nat.le_succ _)) ?_)
      exact .other (by decide) (by decide) (by decide) closes

mutual

/-- The text of a value opens and closes as many brackets. -/
theorem Value.closes (kind : Kind opening closing) : (value : Value) → Balances fits opening closing value.nesting value.text
  | .word word => fun _ _ _ closes => closes.append_word kind word
  | .string body => fun _ _ _ closes => .quoted body closes
  | .emptyArray inner => (balances_blank kind inner).square kind
  | .array items => (items.closes kind).square kind
  | .emptyObject inner => (balances_blank kind inner).curly kind
  | .object members => (members.closes kind).curly kind

theorem Items.closes (kind : Kind opening closing) : (items : Items) → Balances fits opening closing items.nesting items.text
  | .last before value after => fun _ _ room closes => by
      have inner := (value.closes kind _ _ room (closes.append_blank kind after)).append_blank kind before
      simpa [Items.text] using inner
  | .more before value after rest => fun _ _ room closes => by
      have later := (rest.closes kind _ _ (room.fewer (le_max_right _ _)) closes).comma kind
      have inner := value.closes kind _ _ (room.fewer (le_max_left _ _)) (later.append_blank kind after)
      simpa [Items.text] using inner.append_blank kind before

theorem Members.closes (kind : Kind opening closing) : (members : Members) →
    Balances fits opening closing members.nesting members.text
  | .last label value after => fun _ _ room closes => by
      have inner := (value.closes kind _ _ room (closes.append_blank kind after)).append_label kind label
      simpa [Members.text] using inner
  | .more label value after rest => fun _ _ room closes => by
      have later := (rest.closes kind _ _ (room.fewer (le_max_right _ _)) closes).comma kind
      have inner := value.closes kind _ _ (room.fewer (le_max_left _ _)) (later.append_blank kind after)
      simpa [Members.text] using inner.append_label kind label

end

end Counting

end TradingEngine.Library.JsonText
