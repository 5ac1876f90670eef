import TradingEngine.Common.DecimalText
import TradingEngine.Orders.OrderRequests
import TradingEngine.Util.JsonRendering

/-! Batch order messages. The message is the text of a JSON value, so that the scanner
finds in it what was put there; its ids are drawn one after the other and never repeat. -/

set_option autoImplicit false

namespace TradingEngine

open Library.Exec Library.JsonText

/-!
## Building the message
-/

structure WsBatchOrderRequest where
  id : Text
  message : Text
  clOrdIds : List Text

def batchOrdersMessage (id argsJson : Text) : Text :=
  "\x7b\"id\":\"".toList ++ id ++ "\",\"op\":\"batch-orders\",\"args\":[".toList ++ argsJson ++ "]\x7d".toList

/-- The loop over the requests; an id is drawn before its request is checked. -/
def appendOrderArgs : List OrderRequest → Text → List Text → EStateM Fault IdSource (Text × List Text)
  | [], argsJson, clOrdIds => return (argsJson, clOrdIds)
  | request :: rest, argsJson, clOrdIds => do
      let clOrdId ← IdSource.generateId
      if request.ordType = kMarket then throw (.thrown marketOrderError)
      else appendOrderArgs rest (argsJson ++ formatOrderArg request clOrdId ++ [',']) (clOrdIds ++ [clOrdId])

def buildWsBatchOrdersMessage (requests : List OrderRequest) : EStateM Fault IdSource WsBatchOrderRequest := do
  if requests = [] then
    throw (.thrown (.invalidArgument "Batch order request must include at least one order".toList))
  else
    let (argsJson, clOrdIds) ← appendOrderArgs requests [] []
    let id ← IdSource.generateId
    -- the last element of the text is the trailing comma
    return ⟨id, batchOrdersMessage id argsJson.dropLast, clOrdIds⟩

/-!
## Ids
-/

namespace IdSource

/-- The next ids. -/
def drawn : Nat → IdSource → List Nat
  | 0, _ => []
  | count + 1, source => source.nextId :: drawn count source.advanced

/-- Neither the last id nor a reading of the clock is above the bound. -/
def Below (bound count : Nat) (source : IdSource) : Prop :=
  source.lastId ≤ bound ∧ ∀ index < count, source.systemClock.reading (source.systemClock.reads + index) ≤ bound

theorem Below.advanced {bound count : Nat} {source : IdSource} (below : source.Below bound (count + 1)) :
    source.advanced.Below (bound + 1) count := by
  obtain ⟨started, readings⟩ := below
  have now := readings 0 (Nat.succ_pos _)
  rw [Nat.add_zero] at now
  refine ⟨?_, fun index small => ?_⟩
  · change max (source.lastId + 1) (source.systemClock.reading source.systemClock.reads).toNat ≤ bound + 1
    omega
  · have later := readings (index + 1) (Nat.succ_lt_succ small)
    rw [← Nat.add_assoc, Nat.add_right_comm] at later
    change source.systemClock.reading (source.systemClock.reads + 1 + index) ≤ _
    omega

theorem Below.mono {bound fewer more : Nat} {source : IdSource} (below : source.Below bound more) (le : fewer ≤ more) :
    source.Below bound fewer := ⟨below.1, fun index small => below.2 index (Nat.lt_of_lt_of_le small le)⟩

theorem lastId_iterate {bound count : Nat} {source : IdSource} (below : source.Below bound count) :
    (advanced^[count] source).lastId ≤ bound + count := by
  induction count generalizing bound source with
  | zero => exact below.1
  | succ count ih =>
      rw [Function.iterate_succ_apply]
      have later := ih below.advanced
      omega

theorem lt_of_mem_drawn {count : Nat} {source : IdSource} {id : Nat} (member : id ∈ source.drawn count) : source.lastId < id := by
  induction count generalizing source with
  | zero => cases member
  | succ count ih =>
      have next : source.lastId < source.nextId := Nat.lt_of_lt_of_le (Nat.lt_succ_self _) (Nat.le_max_left _ _)
      rcases List.mem_cons.mp member with rfl | later
      · exact next
      · exact Nat.lt_trans next (ih later)

/-- Ids increase, whatever the clock shows. -/
theorem drawn_increasing (count : Nat) (source : IdSource) : (source.drawn count).Pairwise (· < ·) := by
  induction count generalizing source with
  | zero => exact List.Pairwise.nil
  | succ count ih => exact List.pairwise_cons.mpr ⟨fun _ => lt_of_mem_drawn, ih _⟩

theorem drawn_nodup (count : Nat) (source : IdSource) : ((source.drawn count).map toDecimal).Nodup :=
  (List.nodup_map_iff toDecimal_injective).mpr ((source.drawn_increasing count).imp fun less => Nat.ne_of_lt less)

theorem length_drawn (count : Nat) (source : IdSource) : (source.drawn count).length = count := by
  induction count generalizing source with
  | zero => rfl
  | succ count ih => rw [drawn, List.length_cons, ih]

theorem drawn_succ (count : Nat) (source : IdSource) :
    source.drawn (count + 1) = source.drawn count ++ [(advanced^[count] source).nextId] := by
  induction count generalizing source with
  | zero => rfl
  | succ count ih => rw [drawn, ih, drawn, List.cons_append, Function.iterate_succ_apply]

end IdSource

/-- The arguments, each with its comma. -/
def orderArgs (requests : List OrderRequest) (clOrdIds : List Text) : Text :=
  (List.zipWith formatOrderArg requests clOrdIds).flatMap (· ++ [','])

theorem run_appendOrderArgs {requests : List OrderRequest} (limit : ∀ request ∈ requests, request.ordType ≠ kMarket)
    {bound : Nat} {source : IdSource} (below : source.Below bound requests.length) (room : bound + requests.length < 2 ^ 63)
    (argsJson : Text) (clOrdIds : List Text) :
    appendOrderArgs requests argsJson clOrdIds source =
      .ok (argsJson ++ orderArgs requests ((source.drawn requests.length).map toDecimal),
        clOrdIds ++ (source.drawn requests.length).map toDecimal) (IdSource.advanced^[requests.length] source) := by
  induction requests generalizing bound source argsJson clOrdIds with
  | nil => simp [appendOrderArgs, orderArgs, IdSource.drawn, run_pure]
  | cons request rest ih =>
      rw [List.forall_mem_cons] at limit
      rw [List.length_cons] at below room
      have started := below.1
      have later := ih limit.2 below.advanced (by omega) (argsJson ++ formatOrderArg request (toDecimal source.nextId) ++ [','])
        (clOrdIds ++ [toDecimal source.nextId])
      rw [appendOrderArgs, run_bind_ok (IdSource.run_generateId (by omega)), if_neg limit.1, later]
      simp [orderArgs, IdSource.drawn]

/-!
## Numbers
-/

theorem mem_toDecimalInt {value : Int} {c : Char} (member : c ∈ toDecimalInt value) : c = '-' ∨ c.isDigit = true := by
  rw [toDecimalInt] at member
  split at member
  · rcases List.mem_cons.mp member with minus | digit
    · exact .inl minus
    · exact .inr (Exact.digits_toDecimal _ c digit)
  · exact .inr (Exact.digits_toDecimal _ c member)

theorem toDecimal_ne_nil (value : Nat) : toDecimal value ≠ [] := Nat.toDigits_ne_nil

theorem isWordChar_of_digit {c : Char} (digit : c.isDigit = true) : isWordChar c = true := by
  cases word : isWordChar c with
  | true => rfl
  | false =>
      simp only [isWordChar, isBlank, Bool.not_eq_false', Bool.or_eq_true, decide_eq_true_eq] at word
      rcases word with ((((((((((rfl | rfl) | rfl) | rfl) | rfl) | rfl) | rfl) | rfl) | rfl) | rfl) | rfl) | rfl <;> cases digit

def numberWord (value : Int) : Word where
  text := toDecimalInt value
  nonempty := by
    rw [toDecimalInt]
    split
    · exact List.cons_ne_nil _ _
    · exact toDecimal_ne_nil _
  word := List.all_eq_true.mpr fun c member => by
    rcases mem_toDecimalInt member with rfl | digit
    · rfl
    · exact isWordChar_of_digit digit

theorem parseLL_toDecimalInt {value : Int} (low : -(2 ^ 63) ≤ value) (high : value < 2 ^ 63) :
    Json.parseLL (toDecimalInt value) = .ok value := by
  have digits : (toDecimal value.natAbs).takeWhile Char.isDigit = toDecimal value.natAbs :=
    List.takeWhile_eq_self_iff.mpr (Exact.digits_toDecimal _)
  have magnitude : Nat.ofDigitChars 10 (toDecimal value.natAbs) 0 = value.natAbs := Nat.ofDigitChars_ten_toDigits
  have some := toDecimal_ne_nil value.natAbs
  rw [toDecimalInt]
  by_cases negative : value < 0
  · have restored : -(value.natAbs : Int) = value := by omega
    rw [if_pos negative]
    simp only [Json.parseLL, digits, magnitude, some, false_or, ↓reduceIte, restored]
    rw [if_neg (by omega)]
  · have restored : (value.natAbs : Int) = value := by omega
    have unsigned : ∀ rest, toDecimal value.natAbs ≠ '-' :: rest := by
      intro rest same
      have digit := Exact.digits_toDecimal value.natAbs '-' (same ▸ List.mem_cons_self)
      cases digit
    rw [if_neg negative]
    unfold Json.parseLL
    split
    rename_i sign unsignedText read
    split at read
    · rename_i rest same
      exact absurd same (unsigned rest)
    · cases read
      simp only [digits, magnitude, some, false_or, Bool.false_eq_true, ↓reduceIte, restored]
      rw [if_neg (by omega)]

/-!
## The message as a value
-/

def kOp : Text := "op".toList
def kArgs : Text := "args".toList
def kInstIdCode : Text := "instIdCode".toList
def kTdMode : Text := "tdMode".toList
def kOrdType : Text := "ordType".toList

def argMembers (request : OrderRequest) (clOrdId : Text) : List (Text × Value) :=
  [(kInstIdCode, .word (numberWord request.instIdCode)), (kTdMode, .ofText kCash), (kSide, .ofText request.side),
    (kOrdType, .ofText request.ordType), (kPx, .ofText request.px), (kSz, .ofText request.sz), (kClOrdId, .ofText clOrdId)]

def messageMembers (id : Text) (args : List Value) : List (Text × Value) :=
  [(kId, .ofText id), (kOp, .ofText "batch-orders".toList), (kArgs, .ofItems args)]

def Plain (text : Text) : Prop := '"' ∉ text ∧ '\\' ∉ text

theorem Plain.isBody {text : Text} (plain : Plain text) : isBody text = true := isBody_of_plain plain.1 plain.2

/-- The text fields of the request that are written into the message. -/
structure PlainFields (request : OrderRequest) : Prop where
  side : Plain request.side
  ordType : Plain request.ordType
  px : Plain request.px
  sz : Plain request.sz

theorem plain_toDecimal (value : Nat) : Plain (toDecimal value) := by
  constructor
  all_goals
    intro member
    cases Exact.digits_toDecimal value _ member

theorem bodies_argMembers (request : OrderRequest) (clOrdId : Text) :
    ((argMembers request clOrdId).all fun entry => isBody entry.1) = true := by
  have labels : [kInstIdCode, kTdMode, kSide, kOrdType, kPx, kSz, kClOrdId].all isBody = true := by decide +kernel
  simpa only [argMembers, List.all_cons, List.all_nil] using labels

/-- The format's pieces, cut at the names. -/
theorem orderArgFormat_pieces :
    "\x7b\"instIdCode\":".toList = '\x7b' :: quote kInstIdCode ++ [':'] ∧
      ",\"tdMode\":\"".toList = ',' :: quote kTdMode ++ [':', '"'] ∧
      "\",\"side\":\"".toList = '"' :: ',' :: quote kSide ++ [':', '"'] ∧
      "\",\"ordType\":\"".toList = '"' :: ',' :: quote kOrdType ++ [':', '"'] ∧
      "\",\"px\":\"".toList = '"' :: ',' :: quote kPx ++ [':', '"'] ∧
      "\",\"sz\":\"".toList = '"' :: ',' :: quote kSz ++ [':', '"'] ∧
      "\",\"clOrdId\":\"".toList = '"' :: ',' :: quote kClOrdId ++ [':', '"'] ∧
      "\"\x7d".toList = ['"', '\x7d'] := by
  decide +kernel

theorem text_argMembers {request : OrderRequest} (fields : PlainFields request) {clOrdId : Text} (plain : Plain clOrdId) :
    (Value.ofMembers (argMembers request clOrdId)).text = formatOrderArg request clOrdId := by
  have cash : isBody kCash = true := by decide +kernel
  have number : (Value.word (numberWord request.instIdCode)).text = toDecimalInt request.instIdCode := by rw [Value.text, numberWord]
  obtain ⟨instIdCode, tdMode, side, ordType, px, sz, clOrdIdName, closing⟩ := orderArgFormat_pieces
  delta formatOrderArg
  rw [argMembers, Value.text_ofMembers (bodies_argMembers request clOrdId), instIdCode, tdMode, side, ordType, px, sz, clOrdIdName,
    closing]
  simp only [List.flatMap_cons, List.flatMap_nil, number, Value.text_ofText cash, Value.text_ofText fields.side.isBody,
    Value.text_ofText fields.ordType.isBody, Value.text_ofText fields.px.isBody, Value.text_ofText fields.sz.isBody,
    Value.text_ofText plain.isBody, quote, List.append_assoc, List.cons_append, List.nil_append, List.append_nil]

theorem bodies_messageMembers (id : Text) (args : List Value) :
    ((messageMembers id args).all fun entry => isBody entry.1) = true := by
  have labels : [kId, kOp, kArgs].all isBody = true := by decide +kernel
  simpa only [messageMembers, List.all_cons, List.all_nil] using labels

theorem batchOrdersFormat_pieces :
    "\x7b\"id\":\"".toList = '\x7b' :: quote kId ++ [':', '"'] ∧
      "\",\"op\":\"batch-orders\",\"args\":[".toList =
        '"' :: ',' :: quote kOp ++ ':' :: quote "batch-orders".toList ++ ',' :: quote kArgs ++ [':', '['] ∧
      "]\x7d".toList = [']', '\x7d'] := by
  decide +kernel

theorem text_messageMembers {id : Text} (plain : Plain id) (first : Value) (rest : List Value) :
    (Value.ofMembers (messageMembers id (first :: rest))).text =
      batchOrdersMessage id ((first :: rest).flatMap fun value => value.text ++ [',']).dropLast := by
  have operation : isBody "batch-orders".toList = true := by decide +kernel
  have array : (Value.ofItems (first :: rest)).text = '[' :: (Items.ofList first rest).text ++ [']'] := by
    rw [Value.ofItems, Value.text]
  obtain ⟨opening, middle, closing⟩ := batchOrdersFormat_pieces
  rw [← Items.text_ofList, List.dropLast_concat, messageMembers, Value.text_ofMembers (bodies_messageMembers id (first :: rest))]
  delta batchOrdersMessage
  rw [opening, middle, closing]
  simp only [List.flatMap_cons, List.flatMap_nil, array, Value.text_ofText operation, Value.text_ofText plain.isBody, quote,
    List.append_assoc, List.cons_append, List.nil_append, List.append_nil]

theorem names_scalar {value : Value} (scalar : value.isScalar = true) : value.names = [] := by
  cases value with
  | word word => rfl
  | string body => rfl
  | emptyArray inner => cases scalar
  | array items => cases scalar
  | emptyObject inner => cases scalar
  | object members => cases scalar

theorem scalars_argMembers {request : OrderRequest} {clOrdId : Text} {entry : Text × Value}
    (member : entry ∈ argMembers request clOrdId) : entry.2.names = [] := by
  simp only [argMembers, List.mem_cons, List.not_mem_nil, or_false] at member
  rcases member with rfl | rfl | rfl | rfl | rfl | rfl | rfl
  all_goals exact names_scalar rfl

theorem mem_names_arg {request : OrderRequest} {clOrdId name : Text}
    (member : name ∈ (Value.ofMembers (argMembers request clOrdId)).names) :
    name ∈ [kInstIdCode, kTdMode, kSide, kOrdType, kPx, kSz, kClOrdId] := by
  obtain ⟨entry, here, own | inside⟩ := (Value.mem_names_ofMembers (bodies_argMembers request clOrdId)).mp member
  · have names : (argMembers request clOrdId).map Prod.fst = [kInstIdCode, kTdMode, kSide, kOrdType, kPx, kSz, kClOrdId] := by
      rw [argMembers, List.map_cons, List.map_cons, List.map_cons, List.map_cons, List.map_cons, List.map_cons, List.map_cons,
        List.map_nil]
    rw [← names, own]
    exact List.mem_map_of_mem here
  · rw [scalars_argMembers here] at inside
    cases inside

/-- A plain string is read whole. -/
theorem findString_plain {value : Value} (names : ∀ name ∈ value.names, '\\' ∉ name) {key text : Text}
    (isKey : Json.IsKey key) (plain : Plain text) (named : value.firstNamed key = some (.ofText text)) :
    Json.findString value.text key = some text := by
  have string : (Value.ofText text).string? = some text := by
    simp [Value.ofText, Value.string?, Body.ofText, plain.isBody]
  have unquoted : ∀ found body, value.firstNamed key = some found → found.string? = some body → '"' ∉ body := by
    intro found body isFound isString
    rw [named] at isFound
    cases isFound
    rw [string] at isString
    cases isString
    exact plain.1
  rw [Json.findString_text isKey names unquoted, named, Option.bind_some, string]

/-- An element of the message has the fields of its request, as the scanner reads them. -/
structure ReadsBack (request : OrderRequest) (clOrdId element : Text) : Prop where
  side : Json.findString element kSide = some request.side
  ordType : Json.findString element kOrdType = some request.ordType
  px : Json.findString element kPx = some request.px
  sz : Json.findString element kSz = some request.sz
  clOrdId : Json.findString element kClOrdId = some clOrdId
  instIdCode : (Json.findNumber element kInstIdCode).map Json.parseLL = some (.ok request.instIdCode)

/-- The names the reader looks for, and the others of the message. -/
theorem isKey_of_mem {key : Text} (member : key ∈ [kInstIdCode, kTdMode, kSide, kOrdType, kPx, kSz, kClOrdId, kId, kOp, kArgs]) :
    Json.IsKey key := Json.isKey_of_all (by decide +kernel) member

theorem plain_names_arg {request : OrderRequest} {clOrdId name : Text}
    (member : name ∈ (Value.ofMembers (argMembers request clOrdId)).names) : '\\' ∉ name :=
  (isKey_of_mem (List.mem_append_left [kId, kOp, kArgs] (mem_names_arg member))).plain.2

theorem firstNamed_arg {request : OrderRequest} {clOrdId key : Text} {found : Value}
    (member : (key, found) ∈ argMembers request clOrdId) :
    (Value.ofMembers (argMembers request clOrdId)).firstNamed key = some found := by
  have distinct : [kInstIdCode, kTdMode, kSide, kOrdType, kPx, kSz, kClOrdId].Nodup := by decide +kernel
  refine Value.firstNamed_of_mem (bodies_argMembers request clOrdId) ?_ member ?_
  · simpa only [argMembers, List.map_cons, List.map_nil] using distinct
  · intro entry here inside
    rw [scalars_argMembers here] at inside
    cases inside

theorem readsBack_arg {request : OrderRequest} (fields : PlainFields request)
    (code : -(2 ^ 63) ≤ request.instIdCode ∧ request.instIdCode < 2 ^ 63) {clOrdId : Text} (plain : Plain clOrdId) :
    ReadsBack request clOrdId (Value.ofMembers (argMembers request clOrdId)).text := by
  have read {key text : Text} (isKey : Json.IsKey key) (plainText : Plain text)
      (member : (key, Value.ofText text) ∈ argMembers request clOrdId) :
      Json.findString (Value.ofMembers (argMembers request clOrdId)).text key = some text :=
    findString_plain (fun _ => plain_names_arg) isKey plainText (firstNamed_arg member)
  have number : ∀ c ∈ (numberWord request.instIdCode).text, Json.isNumberChar c = true := by
    intro c member
    rcases mem_toDecimalInt member with rfl | digit
    · rfl
    · rw [Json.isNumberChar, digit]
      rfl
  have codeNamed : (kInstIdCode, Value.word (numberWord request.instIdCode)) ∈ argMembers request clOrdId := List.mem_cons_self
  constructor
  · exact read (isKey_of_mem (by simp)) fields.side (by simp only [argMembers, List.mem_cons, true_or, or_true])
  · exact read (isKey_of_mem (by simp)) fields.ordType (by simp only [argMembers, List.mem_cons, true_or, or_true])
  · exact read (isKey_of_mem (by simp)) fields.px (by simp only [argMembers, List.mem_cons, true_or, or_true])
  · exact read (isKey_of_mem (by simp)) fields.sz (by simp only [argMembers, List.mem_cons, true_or, or_true])
  · exact read (isKey_of_mem (by simp)) plain (by simp only [argMembers, List.mem_cons, true_or, or_true])
  · rw [Json.findNumber_text (isKey_of_mem (by simp)) (fun _ => plain_names_arg) (firstNamed_arg codeNamed) number, Option.map_some]
    exact congrArg some (parseLL_toDecimalInt code.1 code.2)

/-!
## Reading a batch back
-/

def argValues (requests : List OrderRequest) (clOrdIds : List Text) : List Value :=
  List.zipWith (fun request clOrdId => Value.ofMembers (argMembers request clOrdId)) requests clOrdIds

theorem text_argValues {requests : List OrderRequest} (fields : ∀ request ∈ requests, PlainFields request) {clOrdIds : List Text}
    (plain : ∀ clOrdId ∈ clOrdIds, Plain clOrdId) :
    (argValues requests clOrdIds).map Value.text = List.zipWith formatOrderArg requests clOrdIds := by
  induction requests generalizing clOrdIds with
  | nil => rw [argValues, List.zipWith_nil_left, List.zipWith_nil_left, List.map_nil]
  | cons request rest ih =>
      cases clOrdIds with
      | nil => rw [argValues, List.zipWith_nil_right, List.zipWith_nil_right, List.map_nil]
      | cons clOrdId others =>
          rw [List.forall_mem_cons] at fields plain
          have later := ih fields.2 plain.2
          rw [argValues] at later ⊢
          rw [List.zipWith_cons_cons, List.zipWith_cons_cons, List.map_cons, later, text_argMembers fields.1 plain.1]

theorem readsBack_args {requests : List OrderRequest} (fields : ∀ request ∈ requests, PlainFields request)
    (codes : ∀ request ∈ requests, -(2 ^ 63) ≤ request.instIdCode ∧ request.instIdCode < 2 ^ 63) {clOrdIds : List Text}
    (plain : ∀ clOrdId ∈ clOrdIds, Plain clOrdId) :
    List.Forall₂ (fun pair element => ReadsBack pair.1 pair.2 element) (requests.zip clOrdIds)
      ((argValues requests clOrdIds).map Value.text) := by
  induction requests generalizing clOrdIds with
  | nil => exact .nil
  | cons request rest ih =>
      cases clOrdIds with
      | nil => exact .nil
      | cons clOrdId others =>
          rw [List.forall_mem_cons] at fields codes plain
          exact .cons (readsBack_arg fields.1 codes.1 plain.1) (ih fields.2 codes.2 plain.2)

theorem mem_argValues {requests : List OrderRequest} {clOrdIds : List Text} {value : Value}
    (member : value ∈ argValues requests clOrdIds) :
    ∃ request clOrdId, value = Value.ofMembers (argMembers request clOrdId) := by
  induction requests generalizing clOrdIds with
  | nil => cases member
  | cons request rest ih =>
      cases clOrdIds with
      | nil => cases member
      | cons clOrdId others =>
          rcases List.mem_cons.mp member with same | later
          · exact ⟨request, clOrdId, same⟩
          · exact ih later

theorem mem_names_args {requests : List OrderRequest} {clOrdIds : List Text} {name : Text}
    (member : name ∈ (Value.ofItems (argValues requests clOrdIds)).names) :
    name ∈ [kInstIdCode, kTdMode, kSide, kOrdType, kPx, kSz, kClOrdId] := by
  obtain ⟨item, here, inside⟩ := Value.mem_names_ofItems.mp member
  obtain ⟨request, clOrdId, rfl⟩ := mem_argValues here
  exact mem_names_arg inside

/-- The names inside the values of the message are those of its arguments. -/
theorem mem_names_inside {id : Text} {requests : List OrderRequest} {clOrdIds : List Text} {entry : Text × Value}
    (member : entry ∈ messageMembers id (argValues requests clOrdIds)) {name : Text} (inside : name ∈ entry.2.names) :
    name ∈ [kInstIdCode, kTdMode, kSide, kOrdType, kPx, kSz, kClOrdId] := by
  simp only [messageMembers, List.mem_cons, List.not_mem_nil, or_false] at member
  rcases member with rfl | rfl | rfl
  · cases (names_scalar rfl : (Value.ofText id).names = []) ▸ inside
  · cases (names_scalar rfl : (Value.ofText "batch-orders".toList).names = []) ▸ inside
  · exact mem_names_args inside

theorem firstNamed_message {id : Text} {requests : List OrderRequest} {clOrdIds : List Text} {key : Text} {found : Value}
    (member : (key, found) ∈ messageMembers id (argValues requests clOrdIds))
    (other : key ∉ [kInstIdCode, kTdMode, kSide, kOrdType, kPx, kSz, kClOrdId]) :
    (Value.ofMembers (messageMembers id (argValues requests clOrdIds))).firstNamed key = some found := by
  have distinct : [kId, kOp, kArgs].Nodup := by decide +kernel
  refine Value.firstNamed_of_mem (bodies_messageMembers id _) ?_ member ?_
  · simpa only [messageMembers, List.map_cons, List.map_nil] using distinct
  · intro entry here inside
    exact other (mem_names_inside here inside)

theorem plain_names_message {id : Text} {requests : List OrderRequest} {clOrdIds : List Text} {name : Text}
    (member : name ∈ (Value.ofMembers (messageMembers id (argValues requests clOrdIds))).names) : '\\' ∉ name := by
  obtain ⟨entry, here, own | inside⟩ := (Value.mem_names_ofMembers (bodies_messageMembers id _)).mp member
  · have names : (messageMembers id (argValues requests clOrdIds)).map Prod.fst = [kId, kOp, kArgs] := by
      rw [messageMembers, List.map_cons, List.map_cons, List.map_cons, List.map_nil]
    have known : name ∈ [kId, kOp, kArgs] := by
      rw [← names, own]
      exact List.mem_map_of_mem here
    exact (isKey_of_mem (List.mem_append_right [kInstIdCode, kTdMode, kSide, kOrdType, kPx, kSz, kClOrdId] known)).plain.2
  · exact (isKey_of_mem (List.mem_append_left [kId, kOp, kArgs] (mem_names_inside here inside))).plain.2

theorem text_batch {requests : List OrderRequest} (some : requests ≠ []) {id : Text} (plainId : Plain id)
    (fields : ∀ request ∈ requests, PlainFields request) {clOrdIds : List Text} (plain : ∀ clOrdId ∈ clOrdIds, Plain clOrdId)
    (length : clOrdIds.length = requests.length) :
    (Value.ofMembers (messageMembers id (argValues requests clOrdIds))).text =
      batchOrdersMessage id (orderArgs requests clOrdIds).dropLast := by
  have args : orderArgs requests clOrdIds = (argValues requests clOrdIds).flatMap fun value => value.text ++ [','] := by
    rw [orderArgs, ← text_argValues fields plain, List.flatMap_map]
  rw [args]
  cases values : argValues requests clOrdIds with
  | nil =>
      have none : (argValues requests clOrdIds).length = 0 := by rw [values, List.length_nil]
      rw [argValues, List.length_zipWith, length, Nat.min_self] at none
      exact absurd (List.length_eq_zero_iff.mp none) some
  | cons first rest => exact text_messageMembers plainId first rest

/-- The message is the text of one value, under ids drawn one after the other. -/
theorem run_buildWsBatchOrdersMessage {requests : List OrderRequest} (some : requests ≠ [])
    (limit : ∀ request ∈ requests, request.ordType ≠ kMarket) (fields : ∀ request ∈ requests, PlainFields request)
    {bound : Nat} {source : IdSource} (below : source.Below bound (requests.length + 1))
    (room : bound + requests.length + 1 < 2 ^ 63) :
    ∃ id clOrdIds next,
      buildWsBatchOrdersMessage requests source =
        .ok ⟨id, (Value.ofMembers (messageMembers id (argValues requests clOrdIds))).text, clOrdIds⟩ next ∧
      clOrdIds ++ [id] = (source.drawn (requests.length + 1)).map toDecimal := by
  have appended := run_appendOrderArgs limit (below.mono (Nat.le_succ _)) (by omega) [] []
  have drawnAll := source.drawn_succ requests.length
  have reached := IdSource.lastId_iterate (below.mono (Nat.le_succ _))
  have lastRun := @IdSource.run_generateId (IdSource.advanced^[requests.length] source) (by omega)
  have plain : ∀ clOrdId ∈ (source.drawn requests.length).map toDecimal, Plain clOrdId := by
    intro clOrdId member
    obtain ⟨value, -, rfl⟩ := List.mem_map.mp member
    exact plain_toDecimal value
  have message := text_batch some (plain_toDecimal (IdSource.advanced^[requests.length] source).nextId) fields plain
    (by rw [List.length_map, IdSource.length_drawn])
  refine ⟨toDecimal (IdSource.advanced^[requests.length] source).nextId, (source.drawn requests.length).map toDecimal,
    (IdSource.advanced^[requests.length] source).advanced, ?_, ?_⟩
  · rw [buildWsBatchOrdersMessage, if_neg some, run_bind_ok appended]
    dsimp only [List.nil_append]
    rw [run_bind_ok lastRun, run_pure, message]
  · rw [drawnAll, List.map_append]
    rfl

/-- A batch reads back: one element a request, in order, with the fields of that request, and no id drawn twice. -/
theorem batch_orders_read_back {requests : List OrderRequest} (some : requests ≠ [])
    (limit : ∀ request ∈ requests, request.ordType ≠ kMarket) (fields : ∀ request ∈ requests, PlainFields request)
    (codes : ∀ request ∈ requests, -(2 ^ 63) ≤ request.instIdCode ∧ request.instIdCode < 2 ^ 63) {bound : Nat} {source : IdSource}
    (below : source.Below bound (requests.length + 1)) (room : bound + requests.length + 1 < 2 ^ 63) :
    ∃ batch next, buildWsBatchOrdersMessage requests source = .ok batch next ∧
      batch.clOrdIds.length = requests.length ∧
      (∃ elements : List Text,
        (∀ (σ : Type) (action : Text → EStateM Exn σ PUnit),
          Json.forEachArrayElement batch.message kArgs action = forM elements action) ∧
        List.Forall₂ (fun pair element => ReadsBack pair.1 pair.2 element) (requests.zip batch.clOrdIds) elements) ∧
      Json.findString batch.message kId = Option.some batch.id ∧ (batch.clOrdIds ++ [batch.id]).Nodup := by
  obtain ⟨id, clOrdIds, next, run, ids⟩ := run_buildWsBatchOrdersMessage some limit fields below room
  have plain : ∀ text ∈ clOrdIds ++ [id], Plain text := by
    intro text member
    rw [ids] at member
    obtain ⟨value, -, rfl⟩ := List.mem_map.mp member
    exact plain_toDecimal value
  have length : clOrdIds.length = requests.length := by
    have total := congrArg List.length ids
    rw [List.length_append, List.length_map, IdSource.length_drawn, List.length_singleton] at total
    omega
  have inArgs {key : Text} (member : key ∈ [kId, kOp, kArgs]) : Json.IsKey key :=
    isKey_of_mem (List.mem_append_right [kInstIdCode, kTdMode, kSide, kOrdType, kPx, kSz, kClOrdId] member)
  refine ⟨_, next, run, length, ⟨(argValues requests clOrdIds).map Value.text, ?_, ?_⟩, ?_, ?_⟩
  · intro σ action
    have member : (kArgs, Value.ofItems (argValues requests clOrdIds)) ∈ messageMembers id (argValues requests clOrdIds) := by
      simp only [messageMembers, List.mem_cons, true_or, or_true]
    have array := firstNamed_message member (by decide +kernel)
    rw [Json.forEachArrayElement_text (inArgs (by simp)) (fun _ => plain_names_message), Value.itemsNamed, array, Option.elim_some,
      Value.items_ofItems, List.forM_map]
  · exact readsBack_args fields codes fun clOrdId member => plain clOrdId (List.mem_append_left _ member)
  · exact findString_plain (fun _ => plain_names_message) (inArgs (by simp)) (plain id (by simp))
      (firstNamed_message List.mem_cons_self (by decide +kernel))
  · rw [ids]
    exact IdSource.drawn_nodup _ source

def sampleRequests : List OrderRequest :=
  [⟨"BTC-USDT".toList, "buy".toList, kLimit, "100.5".toList, "0.1".toList, 7⟩,
    ⟨"BTC-USDT".toList, "sell".toList, kLimit, "101".toList, "side".toList, -3⟩]

/-- A clock that stands still. -/
def stoppedClock (reading : Int) : Clock := ⟨fun _ => reading, 0⟩

theorem batch_orders_read_back_two :
    ∃ batch next, buildWsBatchOrdersMessage sampleRequests ⟨0, stoppedClock 1700⟩ = .ok batch next ∧
      batch.clOrdIds.length = sampleRequests.length ∧
      (∃ elements : List Text,
        (∀ (σ : Type) (action : Text → EStateM Exn σ PUnit),
          Json.forEachArrayElement batch.message kArgs action = forM elements action) ∧
        List.Forall₂ (fun pair element => ReadsBack pair.1 pair.2 element) (sampleRequests.zip batch.clOrdIds) elements) ∧
      Json.findString batch.message kId = some batch.id ∧ (batch.clOrdIds ++ [batch.id]).Nodup := by
  have limit : ∀ request ∈ sampleRequests, request.ordType ≠ kMarket := by decide +kernel
  have fields : ∀ request ∈ sampleRequests, PlainFields request := by
    have plain : ∀ request ∈ sampleRequests, ∀ text ∈ [request.side, request.ordType, request.px, request.sz],
        '"' ∉ text ∧ '\\' ∉ text := by decide +kernel
    intro request member
    exact ⟨plain request member _ (by simp), plain request member _ (by simp), plain request member _ (by simp),
      plain request member _ (by simp)⟩
  have below : IdSource.Below 1700 3 ⟨0, stoppedClock 1700⟩ := ⟨by decide, fun _ _ => le_refl (1700 : Int)⟩
  exact batch_orders_read_back (by decide +kernel) limit fields (by decide +kernel) below (by decide)

end TradingEngine
