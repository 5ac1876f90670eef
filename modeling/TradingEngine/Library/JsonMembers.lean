import TradingEngine.Library.JsonText

/-! The members of JSON values at any depth: their names, which comes first in the
text, and where in the text their values stand. -/

set_option autoImplicit false

namespace TradingEngine.Library.JsonText

/-!
## Names and values inside a text
-/

theorem Label.name_inside (label : Label) (rest : List Char) : label.name.text <:+: label.text ++ rest := by
  refine ⟨label.before.text ++ ['"'], '"' :: label.after.text ++ ':' :: label.beforeValue.text ++ rest, ?_⟩
  simp [Label.text, quote]

theorem middle_inside {text : List Char} (front back : List Char) : text <:+: front ++ text ++ back := ⟨front, back, rfl⟩

mutual

theorem Value.names_inside : (value : Value) → ∀ name ∈ value.names, name <:+: value.text
  | .word _, _, member | .string _, _, member | .emptyArray _, _, member | .emptyObject _, _, member => by
      simp [Value.names] at member
  | .array items, name, member => (items.names_inside name member).trans (middle_inside ['['] [']'])
  | .object members, name, member => (members.names_inside name member).trans (middle_inside ['\x7b'] ['\x7d'])

theorem Items.names_inside : (items : Items) → ∀ name ∈ items.names, name <:+: items.text
  | .last before value after, name, member => (value.names_inside name member).trans (middle_inside _ _)
  | .more before value after rest, name, member => by
      rw [Items.text]
      rcases List.mem_append.mp member with here | later
      · exact ((value.names_inside name here).trans (middle_inside before.text after.text)).trans
          (List.prefix_append _ _).isInfix
      · exact (rest.names_inside name later).trans
          ((List.suffix_cons _ _).isInfix.trans (List.suffix_append _ _).isInfix)

theorem Members.names_inside : (members : Members) → ∀ name ∈ members.names, name <:+: members.text
  | .last label value after, name, member => by
      rw [Members.text]
      rcases List.mem_cons.mp member with rfl | here
      · rw [List.append_assoc]
        exact label.name_inside _
      · exact (value.names_inside name here).trans (middle_inside _ _)
  | .more label value after rest, name, member => by
      rw [Members.text]
      rcases List.mem_cons.mp member with rfl | inside
      · rw [List.append_assoc, List.append_assoc]
        exact label.name_inside _
      rcases List.mem_append.mp inside with here | later
      · exact ((value.names_inside name here).trans (middle_inside label.text after.text)).trans
          (List.prefix_append _ _).isInfix
      · exact (rest.names_inside name later).trans
          ((List.suffix_cons _ _).isInfix.trans (List.suffix_append _ _).isInfix)

end

mutual

theorem Value.firstNamed_inside {name : List Char} :
    (value : Value) → ∀ found ∈ value.firstNamed name, found.text <:+: value.text
  | .word _, _, here | .string _, _, here | .emptyArray _, _, here | .emptyObject _, _, here => by
      simp [Value.firstNamed] at here
  | .array items, found, here => (items.firstNamed_inside found here).trans (middle_inside ['['] [']'])
  | .object members, found, here => (members.firstNamed_inside found here).trans (middle_inside ['\x7b'] ['\x7d'])

theorem Items.firstNamed_inside {name : List Char} :
    (items : Items) → ∀ found ∈ items.firstNamed name, found.text <:+: items.text
  | .last before value after, found, here => (value.firstNamed_inside found here).trans (middle_inside _ _)
  | .more before value after rest, found, here => by
      rw [Items.text]
      rcases Option.or_eq_some_iff.mp here with first | ⟨-, later⟩
      · exact ((value.firstNamed_inside found first).trans (middle_inside before.text after.text)).trans
          (List.prefix_append _ _).isInfix
      · exact (rest.firstNamed_inside found later).trans
          ((List.suffix_cons _ _).isInfix.trans (List.suffix_append _ _).isInfix)

theorem Members.firstNamed_inside {name : List Char} :
    (members : Members) → ∀ found ∈ members.firstNamed name, found.text <:+: members.text
  | .last label value after, found, here => by
      rw [Members.firstNamed] at here
      split at here
      · cases here
        exact middle_inside _ _
      · exact (value.firstNamed_inside found here).trans (middle_inside _ _)
  | .more label value after rest, found, here => by
      rw [Members.firstNamed] at here
      rw [Members.text]
      split at here
      · cases here
        exact (middle_inside label.text after.text).trans (List.prefix_append _ _).isInfix
      rcases Option.or_eq_some_iff.mp here with first | ⟨-, later⟩
      · exact ((value.firstNamed_inside found first).trans (middle_inside label.text after.text)).trans
          (List.prefix_append _ _).isInfix
      · exact (rest.firstNamed_inside found later).trans
          ((List.suffix_cons _ _).isInfix.trans (List.suffix_append _ _).isInfix)

end

theorem Members.entries_inside : (members : Members) → ∀ entry ∈ members.entries, entry.2.text <:+: members.text
  | .last label value after, entry, member => by
      rw [Members.entries, List.mem_singleton] at member
      subst member
      exact middle_inside _ _
  | .more label value after rest, entry, member => by
      rw [Members.text]
      rcases List.mem_cons.mp member with rfl | later
      · exact (middle_inside label.text after.text).trans (List.prefix_append _ _).isInfix
      · exact (rest.entries_inside entry later).trans
          ((List.suffix_cons _ _).isInfix.trans (List.suffix_append _ _).isInfix)

theorem Value.ownNamed_inside {name : List Char} {value found : Value} (named : value.ownNamed name = some found) :
    found.text <:+: value.text := by
  obtain ⟨entry, here, rfl⟩ := Option.map_eq_some_iff.mp named
  have member := List.mem_of_find?_eq_some here
  cases value with
  | object members => exact (members.entries_inside entry member).trans (middle_inside ['\x7b'] ['\x7d'])
  | _ => cases member

/-!
## Flat objects
-/

theorem Value.firstNamed_scalar {value : Value} (scalar : value.isScalar = true) (name : List Char) :
    value.firstNamed name = none := by
  cases value with
  | word word => rfl
  | string body => rfl
  | emptyArray inner => cases scalar
  | array items => cases scalar
  | emptyObject inner => cases scalar
  | object members => cases scalar

theorem Members.firstNamed_flat (name : List Char) : (members : Members) →
    (members.entries.all fun entry => entry.2.isScalar) = true →
    members.firstNamed name = (members.entries.find? fun entry => entry.1 = name).map Prod.snd
  | .last label value after, scalars => by
      have scalar : value.isScalar = true := by simpa [Members.entries] using scalars
      rw [Members.firstNamed, Members.entries, Value.firstNamed_scalar scalar]
      by_cases here : label.name.text = name <;> simp [here]
  | .more label value after rest, scalars => by
      have both : value.isScalar = true ∧ (rest.entries.all fun entry => entry.2.isScalar) = true := by
        simpa only [Members.entries, List.all_cons, Bool.and_eq_true] using scalars
      rw [Members.firstNamed, Members.entries, Value.firstNamed_scalar both.1, Members.firstNamed_flat name rest both.2]
      by_cases here : label.name.text = name <;> simp [here]

/-- In a flat object every member is the object's own. -/
theorem Value.unshadowed_flat {value : Value} (flat : value.isFlat = true) (name : List Char) : value.Unshadowed name := by
  cases value with
  | object members => exact members.firstNamed_flat name flat
  | emptyObject inner => rfl
  | word word => cases flat
  | string body => cases flat
  | emptyArray inner => cases flat
  | array items => cases flat

/-!
## Names by members and items
-/

theorem Items.mem_names {name : List Char} (items : Items) :
    name ∈ items.names ↔ ∃ item ∈ items.values, name ∈ item.names := by
  cases items with
  | last before value after => simp [Items.names, Items.values]
  | more before value after rest => simp [Items.names, Items.values, Items.mem_names rest]

theorem Members.mem_names {name : List Char} (members : Members) :
    name ∈ members.names ↔ ∃ entry ∈ members.entries, name = entry.1 ∨ name ∈ entry.2.names := by
  cases members with
  | last label value after => simp [Members.names, Members.entries]
  | more label value after rest =>
      rw [Members.names, Members.entries, List.mem_append, List.mem_cons, Members.mem_names rest]
      simp only [List.exists_mem_cons_iff]

/-- The names in a value are those of its members, and those inside its members and items. -/
theorem Value.mem_names {name : List Char} {value : Value} :
    name ∈ value.names ↔
      (∃ entry ∈ value.members, name = entry.1 ∨ name ∈ entry.2.names) ∨ ∃ item ∈ value.items, name ∈ item.names := by
  cases value with
  | array items => simp [Value.names, Value.members, Value.items, items.mem_names]
  | object members => simp [Value.names, Value.members, Value.items, members.mem_names]
  | word word => simp [Value.names, Value.members, Value.items]
  | string body => simp [Value.names, Value.members, Value.items]
  | emptyArray inner => simp [Value.names, Value.members, Value.items]
  | emptyObject inner => simp [Value.names, Value.members, Value.items]

/-- What a member has for a name: its value, or what stands inside that. -/
def namedIn (name : List Char) (entry : List Char × Value) : Option Value :=
  if entry.1 = name then some entry.2 else entry.2.firstNamed name

theorem Members.firstNamed_eq (name : List Char) (members : Members) :
    members.firstNamed name = members.entries.findSome? (namedIn name) := by
  cases members with
  | last label value after =>
      rw [Members.firstNamed, Members.entries, List.findSome?_singleton, namedIn]
  | more label value after rest =>
      rw [Members.firstNamed, Members.entries, List.findSome?_cons, Members.firstNamed_eq name rest, namedIn]
      by_cases here : label.name.text = name
      · simp [here]
      · cases value.firstNamed name <;> simp [here]

mutual

theorem Value.firstNamed_eq_none {name : List Char} :
    (value : Value) → name ∉ value.names → value.firstNamed name = none
  | .word _, _ | .string _, _ | .emptyArray _, _ | .emptyObject _, _ => rfl
  | .array items, absent => items.firstNamed_eq_none absent
  | .object members, absent => members.firstNamed_eq_none absent

theorem Items.firstNamed_eq_none {name : List Char} :
    (items : Items) → name ∉ items.names → items.firstNamed name = none
  | .last before value after, absent => value.firstNamed_eq_none absent
  | .more before value after rest, absent => by
      simp only [Items.names, List.mem_append, not_or] at absent
      rw [Items.firstNamed, value.firstNamed_eq_none absent.1, rest.firstNamed_eq_none absent.2, Option.none_or]

theorem Members.firstNamed_eq_none {name : List Char} :
    (members : Members) → name ∉ members.names → members.firstNamed name = none
  | .last label value after, absent => by
      simp only [Members.names, List.mem_cons, not_or] at absent
      rw [Members.firstNamed, if_neg (Ne.symm absent.1), value.firstNamed_eq_none absent.2]
  | .more label value after rest, absent => by
      simp only [Members.names, List.cons_append, List.mem_cons, List.mem_append, not_or] at absent
      rw [Members.firstNamed, if_neg (Ne.symm absent.1), value.firstNamed_eq_none absent.2.1,
        rest.firstNamed_eq_none absent.2.2, Option.none_or]

end

mutual

/-- The names in a value found are names in the value it is found in. -/
theorem Value.names_of_firstNamed {name : List Char} :
    (value : Value) → ∀ found ∈ value.firstNamed name, found.names ⊆ value.names
  | .word _, _, here | .string _, _, here | .emptyArray _, _, here | .emptyObject _, _, here => by
      simp [Value.firstNamed] at here
  | .array items, found, here => items.names_of_firstNamed found here
  | .object members, found, here => members.names_of_firstNamed found here

theorem Items.names_of_firstNamed {name : List Char} :
    (items : Items) → ∀ found ∈ items.firstNamed name, found.names ⊆ items.names
  | .last before value after, found, here => value.names_of_firstNamed found here
  | .more before value after rest, found, here => by
      rcases Option.or_eq_some_iff.mp here with first | ⟨-, later⟩
      · exact List.subset_append_of_subset_left _ (value.names_of_firstNamed found first)
      · exact List.subset_append_of_subset_right _ (rest.names_of_firstNamed found later)

theorem Members.names_of_firstNamed {name : List Char} :
    (members : Members) → ∀ found ∈ members.firstNamed name, found.names ⊆ members.names
  | .last label value after, found, here => by
      rw [Members.firstNamed] at here
      split at here
      · cases here
        exact List.subset_cons_self _ _
      · exact List.subset_cons_of_subset _ (value.names_of_firstNamed found here)
  | .more label value after rest, found, here => by
      rw [Members.firstNamed] at here
      refine List.subset_cons_of_subset _ ?_
      split at here
      · cases here
        exact List.subset_append_left _ _
      rcases Option.or_eq_some_iff.mp here with first | ⟨-, later⟩
      · exact List.subset_append_of_subset_left _ (value.names_of_firstNamed found first)
      · exact List.subset_append_of_subset_right _ (rest.names_of_firstNamed found later)

end

theorem Value.names_of_itemsNamed {name : List Char} {value item : Value} (member : item ∈ value.itemsNamed name) :
    item.names ⊆ value.names := by
  intro inner inside
  rw [Value.itemsNamed] at member
  cases named : value.firstNamed name with
  | none =>
      rw [named] at member
      cases member
  | some found =>
      rw [named] at member
      exact value.names_of_firstNamed found named (Value.mem_names.mpr (.inr ⟨item, member, inside⟩))

theorem namedIn_eq_none {name : List Char} {entry : List Char × Value} (other : entry.1 ≠ name)
    (absent : name ∉ entry.2.names) : namedIn name entry = none := by
  rw [namedIn, if_neg other, entry.2.firstNamed_eq_none absent]

/-- A name that stands in one member only is found there, whatever the order. -/
theorem Value.firstNamed_of_only {name : List Char} {value found : Value} {entry : List Char × Value}
    (member : entry ∈ value.members) (here : namedIn name entry = some found)
    (only : ∀ other ∈ value.members, other = entry ∨ namedIn name other = none) : value.firstNamed name = some found := by
  have search (entries : List (List Char × Value)) (member : entry ∈ entries)
      (only : ∀ other ∈ entries, other = entry ∨ namedIn name other = none) :
      entries.findSome? (namedIn name) = some found := by
    induction entries with
    | nil => cases member
    | cons first rest ih =>
        rw [List.findSome?_cons]
        rcases only first List.mem_cons_self with rfl | nothing
        · rw [here]
        · rw [nothing]
          refine ih ?_ fun other later => only other (List.mem_cons_of_mem _ later)
          rcases List.mem_cons.mp member with rfl | later
          · rw [here] at nothing
            cases nothing
          · exact later
  cases value with
  | object members =>
      rw [Value.firstNamed, members.firstNamed_eq]
      exact search _ member only
  | word word => cases member
  | string body => cases member
  | emptyArray inner => cases member
  | array items => cases member
  | emptyObject inner => cases member

/-- A member of an object of distinct names is found, where its name stands nowhere inside the values. -/
theorem Value.firstNamed_of_mem {members : List (List Char × Value)} (bodies : (members.all fun entry => isBody entry.1) = true)
    (distinct : (members.map Prod.fst).Nodup) {name : List Char} {found : Value} (member : (name, found) ∈ members)
    (absent : ∀ entry ∈ members, name ∉ entry.2.names) : (Value.ofMembers members).firstNamed name = some found := by
  have own := Value.members_ofMembers bodies
  have itself : namedIn name (name, found) = some found := if_pos rfl
  refine Value.firstNamed_of_only (own.symm ▸ member) itself ?_
  intro other here
  rw [own] at here
  by_cases same : other.1 = name
  · exact .inl (List.inj_on_of_nodup_map distinct here member same)
  · exact .inr (namedIn_eq_none same (absent other here))

theorem Value.mem_names_ofMembers {members : List (List Char × Value)} (bodies : (members.all fun entry => isBody entry.1) = true)
    {name : List Char} : name ∈ (Value.ofMembers members).names ↔ ∃ entry ∈ members, name = entry.1 ∨ name ∈ entry.2.names := by
  have none : (Value.ofMembers members).items = [] := by
    cases members with
    | nil => rfl
    | cons first rest => rfl
  rw [Value.mem_names, Value.members_ofMembers bodies, none]
  simp

theorem Value.mem_names_ofItems {items : List Value} {name : List Char} :
    name ∈ (Value.ofItems items).names ↔ ∃ item ∈ items, name ∈ item.names := by
  have none : (Value.ofItems items).members = [] := by
    cases items with
    | nil => rfl
    | cons first rest => rfl
  rw [Value.mem_names, Value.items_ofItems, none]
  simp

/-!
## Members with their places
-/

/-- A member at any depth, with the place its value has in the text. -/
structure Located where
  name : List Char
  offset : Nat
  value : Value

def Located.shift (distance : Nat) (member : Located) : Located := { member with offset := distance + member.offset }

mutual

/-- The members at any depth, in the order of the text. -/
def Value.located : Value → List Located
  | .word _ | .string _ | .emptyArray _ | .emptyObject _ => []
  | .array items => items.located.map (.shift 1)
  | .object members => members.located.map (.shift 1)

def Items.located : Items → List Located
  | .last before value _ => value.located.map (.shift before.text.length)
  | .more before value after rest =>
      value.located.map (.shift before.text.length) ++
        rest.located.map (.shift (before.text ++ value.text ++ after.text ++ [',']).length)

def Members.located : Members → List Located
  | .last label value _ =>
      ⟨label.name.text, label.text.length, value⟩ :: value.located.map (.shift label.text.length)
  | .more label value after rest =>
      ⟨label.name.text, label.text.length, value⟩ :: value.located.map (.shift label.text.length) ++
        rest.located.map (.shift (label.text ++ value.text ++ after.text ++ [',']).length)

end

/-- The first member of a name among these. -/
def firstOf (name : List Char) (members : List Located) : Option Located := members.find? fun member => member.name = name

theorem firstOf_shift (name : List Char) (distance : Nat) (members : List Located) :
    firstOf name (members.map (.shift distance)) = (firstOf name members).map (.shift distance) := by
  rw [firstOf, List.find?_map]
  rfl

theorem firstOf_append (name : List Char) (first second : List Located) :
    firstOf name (first ++ second) = (firstOf name first).or (firstOf name second) := List.find?_append

theorem value_shift (distance : Nat) (found : Option Located) :
    (found.map (.shift distance)).map Located.value = found.map Located.value := by
  cases found <;> rfl

mutual

theorem Value.firstNamed_eq_firstOf (name : List Char) : (value : Value) →
    value.firstNamed name = (firstOf name value.located).map Located.value
  | .word _ | .string _ | .emptyArray _ | .emptyObject _ => rfl
  | .array items => by
      rw [Value.firstNamed, Value.located, firstOf_shift, value_shift, items.firstNamed_eq_firstOf name]
  | .object members => by
      rw [Value.firstNamed, Value.located, firstOf_shift, value_shift, members.firstNamed_eq_firstOf name]

theorem Items.firstNamed_eq_firstOf (name : List Char) : (items : Items) →
    items.firstNamed name = (firstOf name items.located).map Located.value
  | .last before value after => by
      rw [Items.firstNamed, Items.located, firstOf_shift, value_shift, value.firstNamed_eq_firstOf name]
  | .more before value after rest => by
      rw [Items.firstNamed, Items.located, firstOf_append, firstOf_shift, firstOf_shift, Option.map_or, value_shift, value_shift,
        value.firstNamed_eq_firstOf name, rest.firstNamed_eq_firstOf name]

theorem Members.firstNamed_eq_firstOf (name : List Char) : (members : Members) →
    members.firstNamed name = (firstOf name members.located).map Located.value
  | .last label value after => by
      rw [Members.firstNamed, Members.located, firstOf, List.find?_cons, ← firstOf, firstOf_shift]
      by_cases here : label.name.text = name
      · simp [here]
      · simp only [here, decide_false, if_false, value_shift, value.firstNamed_eq_firstOf name]
  | .more label value after rest => by
      rw [Members.firstNamed, Members.located, List.cons_append, firstOf, List.find?_cons, ← firstOf, firstOf_append,
        firstOf_shift, firstOf_shift]
      by_cases here : label.name.text = name
      · simp [here]
      · simp only [here, decide_false, if_false, Option.map_or, value_shift, value.firstNamed_eq_firstOf name,
          rest.firstNamed_eq_firstOf name]

end

/-- The text has the member's label and, where the member says, its value. -/
def Located.StandsIn (member : Located) (text : List Char) : Prop :=
  ∃ front label tail, text = front ++ Label.text label ++ member.value.text ++ tail ∧ label.name.text = member.name ∧
    member.offset = (front ++ label.text).length

theorem Located.StandsIn.within {member : Located} {text : List Char} (stands : member.StandsIn text)
    (front back : List Char) : (member.shift front.length).StandsIn (front ++ text ++ back) := by
  obtain ⟨before, label, tail, rfl, named, offset⟩ := stands
  refine ⟨front ++ before, label, tail ++ back, ?_, named, ?_⟩
  · simp [Located.shift]
  · rw [List.append_assoc, List.length_append, ← offset]
    rfl

theorem standsIn_map {members : List Located} {text : List Char} (each : ∀ member ∈ members, member.StandsIn text)
    (front back : List Char) :
    ∀ member ∈ members.map (Located.shift front.length), member.StandsIn (front ++ text ++ back) := by
  intro member moved
  obtain ⟨inner, listed, rfl⟩ := List.mem_map.mp moved
  exact (each inner listed).within front back

mutual

theorem Value.located_stand : (value : Value) → ∀ member ∈ value.located, member.StandsIn value.text
  | .word _, _, listed | .string _, _, listed | .emptyArray _, _, listed | .emptyObject _, _, listed => by
      simp [Value.located] at listed
  | .array items, member, listed => standsIn_map items.located_stand ['['] [']'] member listed
  | .object members, member, listed => standsIn_map members.located_stand ['\x7b'] ['\x7d'] member listed

theorem Items.located_stand : (items : Items) → ∀ member ∈ items.located, member.StandsIn items.text
  | .last before value after, member, listed => standsIn_map value.located_stand before.text after.text member listed
  | .more before value after rest, member, listed => by
      rcases List.mem_append.mp listed with here | later
      · have stands := standsIn_map value.located_stand before.text (after.text ++ ',' :: rest.text) member here
        rwa [← List.append_assoc] at stands
      · have stands := standsIn_map rest.located_stand (before.text ++ value.text ++ after.text ++ [',']) [] member later
        rw [Items.text]
        simpa using stands

theorem Members.located_stand : (members : Members) → ∀ member ∈ members.located, member.StandsIn members.text
  | .last label value after, member, listed => by
      rcases List.mem_cons.mp listed with rfl | inside
      · exact ⟨[], label, after.text, rfl, rfl, rfl⟩
      · exact standsIn_map value.located_stand label.text after.text member inside
  | .more label value after rest, member, listed => by
      rw [Members.text]
      rcases List.mem_cons.mp listed with rfl | behind
      · exact ⟨[], label, after.text ++ ',' :: rest.text, by simp, rfl, rfl⟩
      rcases List.mem_append.mp behind with inside | later
      · have stands := standsIn_map value.located_stand label.text (after.text ++ ',' :: rest.text) member inside
        rwa [← List.append_assoc] at stands
      · have stands := standsIn_map rest.located_stand (label.text ++ value.text ++ after.text ++ [',']) [] member later
        simpa using stands

end

theorem name_shift (distance : Nat) (members : List Located) :
    (members.map (.shift distance)).map Located.name = members.map Located.name := by
  rw [List.map_map]
  rfl

mutual

theorem Value.names_located : (value : Value) → value.located.map Located.name = value.names
  | .word _ | .string _ | .emptyArray _ | .emptyObject _ => rfl
  | .array items => (name_shift 1 _).trans items.names_located
  | .object members => (name_shift 1 _).trans members.names_located

theorem Items.names_located : (items : Items) → items.located.map Located.name = items.names
  | .last before value after => (name_shift _ _).trans value.names_located
  | .more before value after rest => by
      rw [Items.located, Items.names, List.map_append, name_shift, name_shift, value.names_located, rest.names_located]

theorem Members.names_located : (members : Members) → members.located.map Located.name = members.names
  | .last label value after => by
      rw [Members.located, Members.names, List.map_cons, name_shift, value.names_located]
  | .more label value after rest => by
      rw [Members.located, Members.names, List.map_append, List.map_cons, name_shift, name_shift, value.names_located,
        rest.names_located]

end

theorem firstOf_eq_none_iff {name : List Char} {members : List Located} :
    firstOf name members = none ↔ name ∉ members.map Located.name := by
  simp [firstOf]

/-- A whole text: a value with white space around it. -/
structure Document where
  before : Blank
  value : Value
  after : Blank

def Document.text (document : Document) : List Char := document.before.text ++ document.value.text ++ document.after.text

def Document.located (document : Document) : List Located := document.value.located.map (.shift document.before.text.length)

theorem Document.located_stand (document : Document) : ∀ member ∈ document.located, member.StandsIn document.text :=
  standsIn_map document.value.located_stand document.before.text document.after.text

theorem Document.names_located (document : Document) : document.located.map Located.name = document.value.names :=
  (name_shift _ _).trans document.value.names_located

end TradingEngine.Library.JsonText
