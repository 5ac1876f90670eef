import TradingEngine.Engine.State
import TradingEngine.Orders.BatchOrders

/-! The requests as the exchange reads them. A request message is the text of a JSON
value: a few strings and an array of records, each a list of named texts and numbers.
What the record says is found in the text by name, with nothing of another member. -/

set_option autoImplicit false

namespace TradingEngine

open Library.Exec Library.JsonText

/-!
## Records
-/

inductive Field where
  | text (body : Text)
  | number (value : Int)

namespace Field

def value : Field → Value
  | .text body => .ofText body
  | .number value => .word (numberWord value)

def Fits : Field → Prop
  | .text body => Plain body
  | .number value => -(2 ^ 63) ≤ value ∧ value < 2 ^ 63

/-- The field is what the reader finds under the key. -/
def ReadIn (message key : Text) : Field → Prop
  | .text body => Json.findString message key = some body
  | .number value => (Json.findNumber message key).map Json.parseLL = some (.ok value)

def render : Field → Text
  | .text body => quote body
  | .number value => toDecimalInt value

theorem text_value {field : Field} (fits : field.Fits) : field.value.text = field.render := by
  cases field with
  | text body => exact Value.text_ofText (Plain.isBody fits)
  | number number =>
      change (Value.word (numberWord number)).text = _
      rw [Value.text, numberWord, render]

theorem names_value (field : Field) : field.value.names = [] := by
  cases field <;> exact names_scalar rfl

theorem readIn_of_firstNamed {field : Field} (fits : field.Fits) {value : Value} {key : Text} (isKey : Json.IsKey key)
    (plain : ∀ name ∈ value.names, '\\' ∉ name) (named : value.firstNamed key = some field.value) :
    field.ReadIn value.text key := by
  cases field with
  | text body => exact findString_plain plain isKey fits named
  | number number =>
      have digits : ∀ c ∈ (numberWord number).text, Json.isNumberChar c = true := by
        intro c member
        rcases mem_toDecimalInt member with rfl | digit
        · rfl
        · rw [Json.isNumberChar, digit]
          rfl
      rw [ReadIn, Json.findNumber_text isKey plain named digits, Option.map_some]
      exact congrArg some (parseLL_toDecimalInt fits.1 fits.2)

end Field

theorem isBody_of_isKey {key : Text} (isKey : Json.IsKey key) : isBody key = true :=
  isBody_of_plain isKey.plain.1 isKey.plain.2

abbrev Record : Type := List (Text × Field)

namespace Record

def members (record : Record) : List (Text × Value) := record.map fun entry => (entry.1, entry.2.value)

def value (record : Record) : Value := .ofMembers record.members

structure WellFormed (record : Record) : Prop where
  keys : ∀ entry ∈ record, Json.IsKey entry.1
  distinct : (record.map Prod.fst).Nodup
  fits : ∀ entry ∈ record, entry.2.Fits

theorem WellFormed.bodies {record : Record} (wellFormed : record.WellFormed) :
    (record.members.all fun entry => isBody entry.1) = true := by
  rw [members, List.all_map, List.all_eq_true]
  exact fun entry member => isBody_of_isKey (wellFormed.keys entry member)

theorem WellFormed.mem_names {record : Record} (wellFormed : record.WellFormed) {name : Text}
    (member : name ∈ record.value.names) : name ∈ record.map Prod.fst := by
  obtain ⟨entry, here, own | inside⟩ := (Value.mem_names_ofMembers wellFormed.bodies).mp member
  · obtain ⟨field, listed, rfl⟩ := List.mem_map.mp here
    exact own ▸ List.mem_map_of_mem listed
  · obtain ⟨field, -, rfl⟩ := List.mem_map.mp here
    rw [Field.names_value] at inside
    cases inside

def render (record : Record) : Text :=
  '\x7b' :: (record.flatMap fun entry => ',' :: quote entry.1 ++ ':' :: entry.2.render).tail ++ ['\x7d']

theorem WellFormed.text {record : Record} (wellFormed : record.WellFormed) (some : record ≠ []) :
    record.value.text = record.render := by
  have bodies := wellFormed.bodies
  cases record with
  | nil => exact absurd rfl some
  | cons first rest =>
      have own := Field.text_value (wellFormed.fits first List.mem_cons_self)
      have later : (rest.map fun entry => (entry.1, entry.2.value)).flatMap
            (fun entry => ',' :: quote entry.1 ++ ':' :: entry.2.text) =
          rest.flatMap fun entry => ',' :: quote entry.1 ++ ':' :: entry.2.render := by
        rw [List.flatMap_map]
        refine List.flatMap_congr fun entry member => ?_
        rw [Field.text_value (wellFormed.fits entry (List.mem_cons_of_mem _ member))]
      rw [members, List.map_cons] at bodies
      rw [value, members, List.map_cons, Value.text_ofMembers bodies, later, own]
      rfl

/-- Every field is found under its name. -/
theorem WellFormed.reads {record : Record} (wellFormed : record.WellFormed) {entry : Text × Field}
    (member : entry ∈ record) : entry.2.ReadIn record.value.text entry.1 := by
  refine Field.readIn_of_firstNamed (wellFormed.fits entry member) (wellFormed.keys entry member) ?_ ?_
  · intro name named
    obtain ⟨other, listed, rfl⟩ := List.mem_map.mp (wellFormed.mem_names named)
    exact (wellFormed.keys other listed).plain.2
  · refine Value.firstNamed_of_mem wellFormed.bodies ?_ (List.mem_map_of_mem member) ?_
    · have names : record.members.map Prod.fst = record.map Prod.fst := by
        rw [members, List.map_map]
        rfl
      exact names ▸ wellFormed.distinct
    · intro other here inside
      obtain ⟨field, -, rfl⟩ := List.mem_map.mp here
      rw [Field.names_value] at inside
      cases inside

end Record

/-!
## Messages
-/

/-- Texts by name, and the records under `args`. -/
structure RequestMessage where
  head : List (Text × Text)
  args : List Record

namespace RequestMessage

def members (message : RequestMessage) : List (Text × Value) :=
  message.head.map (fun entry => (entry.1, .ofText entry.2)) ++ [(kArgs, .ofItems (message.args.map Record.value))]

def value (message : RequestMessage) : Value := .ofMembers message.members

def names (message : RequestMessage) : List Text := message.head.map Prod.fst ++ [kArgs]

structure WellFormed (message : RequestMessage) : Prop where
  keys : ∀ name ∈ message.names, Json.IsKey name
  distinct : message.names.Nodup
  plain : ∀ entry ∈ message.head, Plain entry.2
  args : ∀ record ∈ message.args, record.WellFormed
  /-- No record has a member under a name of the message. -/
  apart : ∀ record ∈ message.args, ∀ entry ∈ record, entry.1 ∉ message.names

theorem map_fst_members (message : RequestMessage) : message.members.map Prod.fst = message.names := by
  rw [members, List.map_append, List.map_map]
  rfl

theorem WellFormed.bodies {message : RequestMessage} (wellFormed : message.WellFormed) :
    (message.members.all fun entry => isBody entry.1) = true := by
  rw [List.all_eq_true]
  intro entry member
  refine isBody_of_isKey (wellFormed.keys entry.1 ?_)
  rw [← map_fst_members]
  exact List.mem_map_of_mem member

/-- The names inside the members are those of the records. -/
theorem WellFormed.inside {message : RequestMessage} (wellFormed : message.WellFormed) {entry : Text × Value}
    (member : entry ∈ message.members) {name : Text} (inside : name ∈ entry.2.names) :
    ∃ record ∈ message.args, ∃ field ∈ record, field.1 = name := by
  rcases List.mem_append.mp member with heading | last
  · obtain ⟨text, -, rfl⟩ := List.mem_map.mp heading
    have none : (Value.ofText text.2).names = [] := names_scalar rfl
    rw [none] at inside
    cases inside
  · rw [List.mem_singleton.mp last] at inside
    obtain ⟨item, listed, named⟩ := Value.mem_names_ofItems.mp inside
    obtain ⟨record, isArg, rfl⟩ := List.mem_map.mp listed
    obtain ⟨field, isField, same⟩ := List.mem_map.mp ((wellFormed.args record isArg).mem_names named)
    exact ⟨record, isArg, field, isField, same⟩

theorem WellFormed.plainNames {message : RequestMessage} (wellFormed : message.WellFormed) :
    ∀ name ∈ message.value.names, '\\' ∉ name := by
  intro name member
  obtain ⟨entry, here, own | inside⟩ := (Value.mem_names_ofMembers wellFormed.bodies).mp member
  · refine (wellFormed.keys name ?_).plain.2
    rw [← map_fst_members, own]
    exact List.mem_map_of_mem here
  · obtain ⟨record, isArg, field, isField, rfl⟩ := wellFormed.inside here inside
    exact ((wellFormed.args record isArg).keys field isField).plain.2

theorem WellFormed.firstNamed {message : RequestMessage} (wellFormed : message.WellFormed) {key : Text} {found : Value}
    (member : (key, found) ∈ message.members) : message.value.firstNamed key = some found := by
  refine Value.firstNamed_of_mem wellFormed.bodies (message.map_fst_members ▸ wellFormed.distinct) member ?_
  intro entry here inside
  obtain ⟨record, isArg, field, isField, same⟩ := wellFormed.inside here inside
  refine wellFormed.apart record isArg field isField ?_
  rw [same, ← map_fst_members]
  exact List.mem_map_of_mem member

/-- A message reads back: its texts under their names, one element a record, and in
that element the fields of the record. -/
theorem WellFormed.reads {message : RequestMessage} (wellFormed : message.WellFormed) :
    (∀ entry ∈ message.head, Json.findString message.value.text entry.1 = some entry.2) ∧
    ∃ elements : List Text,
      (∀ (σ : Type) (action : Text → EStateM Exn σ PUnit),
        Json.forEachArrayElement message.value.text kArgs action = forM elements action) ∧
      List.Forall₂ (fun record element => ∀ entry ∈ record, entry.2.ReadIn element entry.1)
        message.args elements := by
  constructor
  · intro entry member
    refine findString_plain wellFormed.plainNames ?_ (wellFormed.plain entry member)
      (wellFormed.firstNamed (List.mem_append_left _ (List.mem_map_of_mem member)))
    exact wellFormed.keys entry.1 (List.mem_append_left _ (List.mem_map_of_mem member))
  · refine ⟨message.args.map fun record => record.value.text, fun σ action => ?_, ?_⟩
    · have isKey : Json.IsKey kArgs := wellFormed.keys kArgs (List.mem_append_right _ List.mem_cons_self)
      have array := wellFormed.firstNamed (List.mem_append_right _ List.mem_cons_self)
      rw [Json.forEachArrayElement_text isKey wellFormed.plainNames, Value.itemsNamed, array, Option.elim_some,
        Value.items_ofItems, List.forM_map, List.forM_map]
    · rw [List.forall₂_map_right_iff, List.forall₂_same]
      exact fun record isArg entry member => (wellFormed.args record isArg).reads member

def render (message : RequestMessage) : Text :=
  '\x7b' :: (message.head.flatMap fun entry => ',' :: quote entry.1 ++ ':' :: quote entry.2).tail ++
    ',' :: quote kArgs ++ ':' :: '[' :: (message.args.flatMap fun record => ',' :: record.render).tail ++ [']', '\x7d']

theorem text_items (first : Value) (rest : List Value) :
    (Items.ofList first rest).text = first.text ++ rest.flatMap fun value => ',' :: value.text := by
  induction rest generalizing first with
  | nil => simp [Items.ofList, Items.text, Blank.none]
  | cons next rest ih => simp [Items.ofList, Items.text, Blank.none, ih]

theorem text_args {args : List Record} (wellFormed : ∀ record ∈ args, record.WellFormed)
    (filled : ∀ record ∈ args, record ≠ []) (some : args ≠ []) :
    (Value.ofItems (args.map Record.value)).text =
      '[' :: (args.flatMap fun record => ',' :: record.render).tail ++ [']'] := by
  have texts : ∀ record ∈ args, record.value.text = record.render :=
    fun record member => (wellFormed record member).text (filled record member)
  cases args with
  | nil => exact absurd rfl some
  | cons first rest =>
      have own := texts first List.mem_cons_self
      have later : (rest.map Record.value).flatMap (fun value => ',' :: value.text) =
          rest.flatMap fun record => ',' :: record.render := by
        rw [List.flatMap_map]
        exact List.flatMap_congr fun record member => by rw [texts record (List.mem_cons_of_mem _ member)]
      rw [List.map_cons, Value.ofItems, Value.text, text_items, own, later]
      rfl

/-- The text of a message is what the formats of the source spell out. -/
theorem WellFormed.text {message : RequestMessage} (wellFormed : message.WellFormed) (headed : message.head ≠ [])
    (filled : ∀ record ∈ message.args, record ≠ []) (some : message.args ≠ []) :
    message.value.text = message.render := by
  have bodies := wellFormed.bodies
  have args := text_args wellFormed.args filled some
  obtain ⟨head, records⟩ := message
  cases head with
  | nil => exact absurd rfl headed
  | cons first rest =>
      have own := Value.text_ofText (wellFormed.plain first List.mem_cons_self).isBody
      have later : (rest.map fun entry => (entry.1, Value.ofText entry.2)).flatMap
            (fun entry => ',' :: quote entry.1 ++ ':' :: entry.2.text) =
          rest.flatMap fun entry => ',' :: quote entry.1 ++ ':' :: quote entry.2 := by
        rw [List.flatMap_map]
        refine List.flatMap_congr fun entry member => ?_
        rw [Value.text_ofText (wellFormed.plain entry (List.mem_cons_of_mem _ member)).isBody]
      rw [members, List.map_cons, List.cons_append] at bodies
      rw [value, members, List.map_cons, List.cons_append, Value.text_ofMembers bodies, List.flatMap_append, later, own,
        List.flatMap_singleton, args, render]
      simp only [List.flatMap_cons, List.cons_append, List.tail_cons, List.append_assoc, List.nil_append]

end RequestMessage

/-!
## Orders, amendments, cancels
-/

def kNewPx : Text := "newPx".toList
def kNewSz : Text := "newSz".toList

/-- What a request says, by name. -/
def Outgoing.request : Outgoing → Option RequestMessage
  | .order id request => some ⟨[(kId, id), (kOp, kOrderOp)],
      [[(kInstIdCode, .number request.instIdCode), (kTdMode, .text kCash), (kSide, .text request.side),
        (kOrdType, .text request.ordType), (kPx, .text request.px), (kSz, .text request.sz), (kClOrdId, .text id)]]⟩
  | .amendOrder id instIdCode ordId newPx newSz => some ⟨[(kId, id), (kOp, kAmendOrderOp)],
      [[(kInstIdCode, .number instIdCode), (kOrdId, .text ordId), (kNewPx, .text newPx), (kNewSz, .text newSz)]]⟩
  | .cancelOrder id instIdCode ordId => some ⟨[(kId, id), (kOp, kCancelOrderOp)],
      [[(kInstIdCode, .number instIdCode), (kOrdId, .text ordId)]]⟩
  | .other _ => none

/-- The pieces of the three formats, cut at the names. -/
theorem requestFormat_pieces :
    "\",\"op\":\"order\",\"args\":[".toList =
        '"' :: ',' :: quote kOp ++ ':' :: quote kOrderOp ++ ',' :: quote kArgs ++ [':', '['] ∧
      "\",\"op\":\"amend-order\",\"args\":[\x7b\"instIdCode\":".toList =
        '"' :: ',' :: quote kOp ++ ':' :: quote kAmendOrderOp ++ ',' :: quote kArgs ++
          ':' :: '[' :: '\x7b' :: quote kInstIdCode ++ [':'] ∧
      "\",\"op\":\"cancel-order\",\"args\":[\x7b\"instIdCode\":".toList =
        '"' :: ',' :: quote kOp ++ ':' :: quote kCancelOrderOp ++ ',' :: quote kArgs ++
          ':' :: '[' :: '\x7b' :: quote kInstIdCode ++ [':'] ∧
      ",\"ordId\":\"".toList = ',' :: quote kOrdId ++ [':', '"'] ∧
      "\",\"newPx\":\"".toList = '"' :: ',' :: quote kNewPx ++ [':', '"'] ∧
      "\",\"newSz\":\"".toList = '"' :: ',' :: quote kNewSz ++ [':', '"'] ∧
      "\"\x7d]\x7d".toList = ['"', '\x7d', ']', '\x7d'] := by
  decide +kernel

theorem render_orderArg (request : OrderRequest) (clOrdId : Text) :
    Record.render [(kInstIdCode, .number request.instIdCode), (kTdMode, .text kCash), (kSide, .text request.side),
      (kOrdType, .text request.ordType), (kPx, .text request.px), (kSz, .text request.sz), (kClOrdId, .text clOrdId)] =
        formatOrderArg request clOrdId := by
  obtain ⟨instIdCode, tdMode, side, ordType, px, sz, clOrdIdName, closing⟩ := orderArgFormat_pieces
  delta formatOrderArg
  rw [instIdCode, tdMode, side, ordType, px, sz, clOrdIdName, closing]
  simp only [Record.render, Field.render, List.flatMap_cons, List.flatMap_nil, List.cons_append, List.tail_cons, quote,
    List.append_assoc, List.nil_append, List.append_nil]

theorem render_order (id : Text) (request : OrderRequest) :
    RequestMessage.render ⟨[(kId, id), (kOp, kOrderOp)],
      [[(kInstIdCode, .number request.instIdCode), (kTdMode, .text kCash), (kSide, .text request.side),
        (kOrdType, .text request.ordType), (kPx, .text request.px), (kSz, .text request.sz), (kClOrdId, .text id)]]⟩ =
      "\x7b\"id\":\"".toList ++ id ++ "\",\"op\":\"order\",\"args\":[".toList ++
        formatOrderArg request id ++ "]\x7d".toList := by
  obtain ⟨opening, -, ending⟩ := batchOrdersFormat_pieces
  rw [opening, requestFormat_pieces.1, ending]
  simp only [RequestMessage.render, List.flatMap_cons, List.flatMap_nil, render_orderArg, List.cons_append,
    List.tail_cons, quote, List.append_assoc, List.nil_append, List.append_nil]

theorem render_amendOrder (id : Text) (instIdCode : Int) (ordId newPx newSz : Text) :
    RequestMessage.render ⟨[(kId, id), (kOp, kAmendOrderOp)],
      [[(kInstIdCode, .number instIdCode), (kOrdId, .text ordId), (kNewPx, .text newPx), (kNewSz, .text newSz)]]⟩ =
      "\x7b\"id\":\"".toList ++ id ++ "\",\"op\":\"amend-order\",\"args\":[\x7b\"instIdCode\":".toList ++
        toDecimalInt instIdCode ++ ",\"ordId\":\"".toList ++ ordId ++ "\",\"newPx\":\"".toList ++ newPx ++
        "\",\"newSz\":\"".toList ++ newSz ++ "\"\x7d]\x7d".toList := by
  obtain ⟨opening, -, -⟩ := batchOrdersFormat_pieces
  obtain ⟨-, amendOrder, -, ordIdName, newPxName, newSzName, closing⟩ := requestFormat_pieces
  rw [opening, amendOrder, ordIdName, newPxName, newSzName, closing]
  simp only [RequestMessage.render, Record.render, Field.render, List.flatMap_cons, List.flatMap_nil, List.cons_append,
    List.tail_cons, quote, List.append_assoc, List.nil_append, List.append_nil]

theorem render_cancelOrder (id : Text) (instIdCode : Int) (ordId : Text) :
    RequestMessage.render ⟨[(kId, id), (kOp, kCancelOrderOp)],
      [[(kInstIdCode, .number instIdCode), (kOrdId, .text ordId)]]⟩ =
      "\x7b\"id\":\"".toList ++ id ++ "\",\"op\":\"cancel-order\",\"args\":[\x7b\"instIdCode\":".toList ++
        toDecimalInt instIdCode ++ ",\"ordId\":\"".toList ++ ordId ++ "\"\x7d]\x7d".toList := by
  obtain ⟨opening, -, -⟩ := batchOrdersFormat_pieces
  obtain ⟨-, -, cancelOrder, ordIdName, -, -, closing⟩ := requestFormat_pieces
  rw [opening, cancelOrder, ordIdName, closing]
  simp only [RequestMessage.render, Record.render, Field.render, List.flatMap_cons, List.flatMap_nil, List.cons_append,
    List.tail_cons, quote, List.append_assoc, List.nil_append, List.append_nil]

/-- The text of the payload is that of the request it carries. -/
theorem Outgoing.render_request {payload : Outgoing} {message : RequestMessage}
    (carries : payload.request = some message) : message.render = payload.message := by
  cases payload with
  | order id request =>
      cases carries
      exact render_order id request
  | amendOrder id instIdCode ordId newPx newSz =>
      cases carries
      exact render_amendOrder id instIdCode ordId newPx newSz
  | cancelOrder id instIdCode ordId =>
      cases carries
      exact render_cancelOrder id instIdCode ordId
  | other text => cases carries

/-- What has to hold of the names alone. -/
def NamesApart (headNames recordNames : List Text) : Prop :=
  (headNames ++ recordNames).all (fun key => !key.isEmpty && key.all isWordChar) = true ∧
    (headNames ++ recordNames).Nodup

instance (headNames recordNames : List Text) : Decidable (NamesApart headNames recordNames) :=
  inferInstanceAs (Decidable (_ ∧ _))

theorem Record.wellFormed_of_names {record : Record} {headNames recordNames : List Text}
    (named : record.map Prod.fst = recordNames) (names : NamesApart headNames recordNames)
    (fits : ∀ entry ∈ record, entry.2.Fits) : record.WellFormed := by
  obtain ⟨keys, distinct⟩ := names
  refine ⟨fun entry member => ?_, named ▸ (List.nodup_append.mp distinct).2.1, fits⟩
  have listed : entry.1 ∈ recordNames := named ▸ List.mem_map_of_mem member
  exact Json.isKey_of_all keys (List.mem_append_right _ listed)

theorem RequestMessage.wellFormed_single {head : List (Text × Text)} {record : Record} {recordNames : List Text}
    (named : record.map Prod.fst = recordNames) (names : NamesApart (head.map Prod.fst ++ [kArgs]) recordNames)
    (plain : ∀ entry ∈ head, Plain entry.2) (fits : ∀ entry ∈ record, entry.2.Fits) :
    RequestMessage.WellFormed ⟨head, [record]⟩ := by
  obtain ⟨headDistinct, -, apart⟩ := List.nodup_append.mp names.2
  refine ⟨?_, headDistinct, plain, ?_, ?_⟩
  · exact fun name isName => Json.isKey_of_all names.1 (List.mem_append_left _ isName)
  · intro only isOnly
    rw [List.mem_singleton.mp isOnly]
    exact Record.wellFormed_of_names named names fits
  · intro only isOnly entry isField isName
    rw [List.mem_singleton.mp isOnly] at isField
    exact apart entry.1 isName entry.1 (named ▸ List.mem_map_of_mem isField) rfl

theorem Outgoing.wellFormed_request {payload : Outgoing} {message : RequestMessage}
    (carries : payload.request = some message) (plain : ∀ entry ∈ message.head, Plain entry.2)
    (fits : ∀ record ∈ message.args, ∀ entry ∈ record, entry.2.Fits) :
    message.WellFormed ∧ message.value.text = payload.message := by
  have written (wellFormed : message.WellFormed) (headed : message.head ≠ [])
      (filled : ∀ record ∈ message.args, record ≠ []) (some : message.args ≠ []) :
      message.WellFormed ∧ message.value.text = payload.message :=
    ⟨wellFormed, (wellFormed.text headed filled some).trans (Outgoing.render_request carries)⟩
  cases payload with
  | order id request =>
      cases carries
      have names : NamesApart [kId, kOp, kArgs] [kInstIdCode, kTdMode, kSide, kOrdType, kPx, kSz, kClOrdId] := by decide +kernel
      exact written (RequestMessage.wellFormed_single rfl names plain (fits _ List.mem_cons_self))
        (List.cons_ne_nil _ _) (by simp) (List.cons_ne_nil _ _)
  | amendOrder id instIdCode ordId newPx newSz =>
      cases carries
      have names : NamesApart [kId, kOp, kArgs] [kInstIdCode, kOrdId, kNewPx, kNewSz] := by decide +kernel
      exact written (RequestMessage.wellFormed_single rfl names plain (fits _ List.mem_cons_self))
        (List.cons_ne_nil _ _) (by simp) (List.cons_ne_nil _ _)
  | cancelOrder id instIdCode ordId =>
      cases carries
      have names : NamesApart [kId, kOp, kArgs] [kInstIdCode, kOrdId] := by decide +kernel
      exact written (RequestMessage.wellFormed_single rfl names plain (fits _ List.mem_cons_self))
        (List.cons_ne_nil _ _) (by simp) (List.cons_ne_nil _ _)
  | other text => cases carries

/-- Whatever texts without a quote or a backslash a request is made of, the message
that goes out says that request: the id and the operation under their names, and one
record under `args` in which every field is found as it was put in. -/
theorem Outgoing.request_reads_back {payload : Outgoing} {message : RequestMessage}
    (carries : payload.request = some message) (plain : ∀ entry ∈ message.head, Plain entry.2)
    (fits : ∀ record ∈ message.args, ∀ entry ∈ record, entry.2.Fits) :
    (∀ entry ∈ message.head, Json.findString payload.message entry.1 = some entry.2) ∧
    ∃ elements : List Text,
      (∀ (σ : Type) (action : Text → EStateM Exn σ PUnit),
        Json.forEachArrayElement payload.message kArgs action = forM elements action) ∧
      List.Forall₂ (fun record element => ∀ entry ∈ record, entry.2.ReadIn element entry.1)
        message.args elements := by
  obtain ⟨wellFormed, written⟩ := Outgoing.wellFormed_request carries plain fits
  rw [← written]
  exact wellFormed.reads

/-- An amendment of order 7 to a price of 101 and a size of 0.02. -/
def sampleAmendment : Outgoing := .amendOrder "12".toList 4 "7".toList "101".toList "0.02".toList

theorem Outgoing.request_reads_back_amendment :
    ∃ message, sampleAmendment.request = some message ∧
      Json.findString sampleAmendment.message kId = some "12".toList ∧
      Json.findString sampleAmendment.message kOp = some kAmendOrderOp ∧
      ∃ element, (∀ (σ : Type) (action : Text → EStateM Exn σ PUnit),
          Json.forEachArrayElement sampleAmendment.message kArgs action = forM [element] action) ∧
        Json.findString element kOrdId = some "7".toList ∧ Json.findString element kNewPx = some "101".toList := by
  have texts : ∀ text ∈ ["12".toList, kAmendOrderOp, "7".toList, "101".toList, "0.02".toList],
      '"' ∉ text ∧ '\\' ∉ text := by decide +kernel
  have code : -(2 ^ 63) ≤ (4 : Int) ∧ (4 : Int) < 2 ^ 63 := by decide
  obtain ⟨head, elements, iterates, read⟩ := @Outgoing.request_reads_back sampleAmendment _ rfl
    (by
      rintro entry (_ | ⟨_, _ | ⟨_, ⟨⟩⟩⟩)
      · exact texts _ (by simp)
      · exact texts _ (by simp))
    (by
      rintro record (_ | ⟨_, ⟨⟩⟩) entry (_ | ⟨_, _ | ⟨_, _ | ⟨_, _ | ⟨_, ⟨⟩⟩⟩⟩⟩)
      · exact code
      all_goals exact texts _ (by simp))
  refine ⟨_, rfl, head (kId, _) List.mem_cons_self, head (kOp, _) (List.mem_cons_of_mem _ List.mem_cons_self), ?_⟩
  cases read with
  | cons fields none =>
      cases none
      have second := fields (kOrdId, .text _) (List.mem_cons_of_mem _ List.mem_cons_self)
      have third := fields (kNewPx, .text _) (List.mem_cons_of_mem _ (List.mem_cons_of_mem _ List.mem_cons_self))
      exact ⟨_, iterates, second, third⟩

/-!
## REST bodies
-/

/-- `kOrderBodyFormat` with its arguments. -/
def orderBody (request : OrderRequest) (clOrdId : Text) : Text :=
  "\x7b\"instId\":\"".toList ++ request.instId ++ "\",\"tdMode\":\"".toList ++ kCash ++ "\",\"side\":\"".toList ++
    request.side ++ "\",\"ordType\":\"".toList ++ request.ordType ++ "\",\"px\":\"".toList ++ request.px ++
    "\",\"sz\":\"".toList ++ request.sz ++ "\",\"clOrdId\":\"".toList ++ clOrdId ++ "\"\x7d".toList

/-- `kCancelOrderBodyFormat` with its arguments. -/
def cancelOrderBody (instId ordId : Text) : Text :=
  "\x7b\"instId\":\"".toList ++ instId ++ "\",\"ordId\":\"".toList ++ ordId ++ "\"\x7d".toList

/-- What is posted, where something is. -/
def Effect.body : Effect → Option Text
  | .restPlace clOrdId request => some (orderBody request clOrdId)
  | .restCancel instId ordId => some (cancelOrderBody instId ordId)
  | .send _ _ _ | .restPending | .triggered _ | .removed _ => none

/-- What a post says, by name. -/
def Effect.record : Effect → Record
  | .restPlace clOrdId request =>
      [(kInstId, .text request.instId), (kTdMode, .text kCash), (kSide, .text request.side),
        (kOrdType, .text request.ordType), (kPx, .text request.px), (kSz, .text request.sz), (kClOrdId, .text clOrdId)]
  | .restCancel instId ordId => [(kInstId, .text instId), (kOrdId, .text ordId)]
  | .send _ _ _ | .restPending | .triggered _ | .removed _ => []

theorem restFormat_pieces :
    "\x7b\"instId\":\"".toList = '\x7b' :: quote kInstId ++ [':', '"'] ∧
      "\",\"tdMode\":\"".toList = '"' :: ',' :: quote kTdMode ++ [':', '"'] ∧
      "\",\"ordId\":\"".toList = '"' :: ',' :: quote kOrdId ++ [':', '"'] := by
  decide +kernel

theorem render_orderBody (request : OrderRequest) (clOrdId : Text) :
    (Effect.restPlace clOrdId request).record.render = orderBody request clOrdId := by
  obtain ⟨-, -, side, ordType, px, sz, clOrdIdName, closing⟩ := orderArgFormat_pieces
  obtain ⟨opening, tdMode, -⟩ := restFormat_pieces
  delta orderBody
  rw [opening, tdMode, side, ordType, px, sz, clOrdIdName, closing]
  simp only [Effect.record, Record.render, Field.render, List.flatMap_cons, List.flatMap_nil, List.cons_append,
    List.tail_cons, quote, List.append_assoc, List.nil_append, List.append_nil]

theorem render_cancelOrderBody (instId ordId : Text) :
    (Effect.restCancel instId ordId).record.render = cancelOrderBody instId ordId := by
  obtain ⟨-, -, -, -, -, -, -, closing⟩ := orderArgFormat_pieces
  obtain ⟨opening, -, ordIdName⟩ := restFormat_pieces
  delta cancelOrderBody
  rw [opening, ordIdName, closing]
  simp only [Effect.record, Record.render, Field.render, List.flatMap_cons, List.flatMap_nil, List.cons_append,
    List.tail_cons, quote, List.append_assoc, List.nil_append, List.append_nil]

/-- The body of a post is its record, read by name. -/
theorem Effect.posted_body_reads_back {effect : Effect} {body : Text} (posted : effect.body = some body)
    (fits : ∀ entry ∈ effect.record, entry.2.Fits) : ∀ entry ∈ effect.record, entry.2.ReadIn body entry.1 := by
  cases effect with
  | restPlace clOrdId request =>
      cases posted
      have names : NamesApart [] [kInstId, kTdMode, kSide, kOrdType, kPx, kSz, kClOrdId] := by decide +kernel
      have wellFormed : (Effect.restPlace clOrdId request).record.WellFormed :=
        Record.wellFormed_of_names rfl names fits
      rw [← render_orderBody, ← wellFormed.text (List.cons_ne_nil _ _)]
      exact fun entry member => wellFormed.reads member
  | restCancel instId ordId =>
      cases posted
      have names : NamesApart [] [kInstId, kOrdId] := by decide +kernel
      have wellFormed : (Effect.restCancel instId ordId).record.WellFormed :=
        Record.wellFormed_of_names rfl names fits
      rw [← render_cancelOrderBody, ← wellFormed.text (List.cons_ne_nil _ _)]
      exact fun entry member => wellFormed.reads member
  | send | restPending | triggered | removed => cases posted

theorem Effect.posted_body_reads_back_cancel :
    Json.findString (cancelOrderBody "ETH-USDT".toList "7".toList) kOrdId = some "7".toList := by
  have texts : ∀ text ∈ ["ETH-USDT".toList, "7".toList], '"' ∉ text ∧ '\\' ∉ text := by decide +kernel
  have read := @Effect.posted_body_reads_back (.restCancel "ETH-USDT".toList "7".toList) _ rfl (by
    rintro entry (_ | ⟨_, _ | ⟨_, ⟨⟩⟩⟩)
    · exact texts _ List.mem_cons_self
    · exact texts _ (List.mem_cons_of_mem _ List.mem_cons_self))
  exact read (kOrdId, .text _) (List.mem_cons_of_mem _ List.mem_cons_self)

end TradingEngine
