import TradingEngine.Library.BoundedTable
import TradingEngine.Risk.Risk
import TradingEngine.Util.JsonRendering

/-! The balances after a run of account messages: one entry a currency, the last
detail of each currency that found room in the table. -/

set_option autoImplicit false

namespace TradingEngine

open Library.Exec Library.JsonText Library.BoundedTable

variable {D : Type} [DoubleArith D]

/-- The string of the first member of a name, at whatever depth. -/
def stringNamed (value : Value) (name : Text) : Option Text := (value.firstNamed name).bind Value.string?

/-- The string of the value's own member of a name. -/
def ownString (value : Value) (name : Text) : Option Text := (value.ownNamed name).bind Value.string?

/-- A string that `strtod` reads as the number. -/
def NumberNamed (value : Value) (name : Text) (number : D) : Prop :=
  ∃ text, ownString value name = some text ∧ '"' ∉ text ∧ DoubleArith.strtod text = some number

/-- A detail names its currency and both balances, and nothing inside it goes by
their names before that. -/
structure RendersDetail (detail : Balance D) (value : Value) : Prop where
  unshadowed : ∀ name ∈ [kCcy, kCashBal, kAvailBal], value.Unshadowed name
  ccy : ownString value kCcy = some detail.ccy
  whole : '"' ∉ detail.ccy
  cashBal : NumberNamed value kCashBal detail.cashBal
  availBal : NumberNamed value kAvailBal detail.availBal

/-- The details of a message: those of the element of `data`. -/
def detailRows (message : Value) : List Value := (message.ownItems kData).head?.elim [] (Value.ownItems kDetails)

/-- A message of the account channel with the details it carries. -/
structure AccountMessage (D : Type) [DoubleArith D] where
  value : Value
  details : List (Balance D)
  escapeFree : ∀ name ∈ value.names, '\\' ∉ name
  channel : stringNamed value kChannel = some kAccountChannel
  data : value.Unshadowed kData
  element : ∀ element ∈ (value.ownItems kData).head?, element.Unshadowed kDetails
  rendered : List.Forall₂ RendersDetail details (detailRows value)

/-- The currencies named, each once. -/
def currencies (details : List (Balance D)) : List Text := (details.map Balance.ccy).dedup

namespace AccountState

/-!
## One detail
-/

def accountKeys : List Text := [kChannel, kData, kDetails, kCcy, kCashBal, kAvailBal]

theorem isKey_account {key : Text} (known : key ∈ accountKeys) : Json.IsKey key := Json.isKey_of_all rfl known

theorem findString_named {key : Text} (known : key ∈ accountKeys) {value : Value} (plain : ∀ name ∈ value.names, '\\' ∉ name)
    {text : Text} (named : stringNamed value key = some text) (whole : '"' ∉ text) :
    Json.findString value.text key = some text := by
  rw [Json.findString_text (isKey_account known) plain]
  · exact named
  · intro found body isFound isString
    rw [stringNamed, isFound, Option.bind_some, isString] at named
    cases named
    exact whole

theorem stringNamed_eq {value : Value} {name : Text} (unshadowed : value.Unshadowed name) :
    stringNamed value name = ownString value name := by
  rw [stringNamed, unshadowed, ownString]

theorem findString_number {key : Text} (known : key ∈ accountKeys) {value : Value}
    (plain : ∀ name ∈ value.names, '\\' ∉ name) (unshadowed : value.Unshadowed key) {number : D}
    (named : NumberNamed value key number) :
    ∃ text, Json.findString value.text key = some text ∧ Json.parseDouble text = .ok number := by
  obtain ⟨text, isString, whole, read⟩ := named
  refine ⟨text, findString_named known plain (stringNamed_eq unshadowed ▸ isString) whole, ?_⟩
  rw [Json.parseDouble, read]

/-- What a well-formed detail does once its three strings are found. -/
def store (account : AccountState D) (detail : Balance D) : AccountState D :=
  match account.balances.findIdx? (fun held => held.ccy = detail.ccy) with
  | some index =>
      account.modifyAt index fun held => { held with cashBal := detail.cashBal, availBal := detail.availBal }
  | none => account.push detail

theorem applyDetail_text {detail : Balance D} {value : Value} (plain : ∀ name ∈ value.names, '\\' ∉ name)
    (renders : RendersDetail detail value) (account : AccountState D) :
    applyDetail value.text account = .ok .unit (account.store detail) := by
  have own {name : Text} (listed : name ∈ [kCcy, kCashBal, kAvailBal]) := renders.unshadowed name listed
  have ccy : Json.findString value.text kCcy = some detail.ccy :=
    findString_named (by simp [accountKeys]) plain ((stringNamed_eq (own (by simp))).trans renders.ccy) renders.whole
  obtain ⟨cashText, cashFound, cashRead⟩ := findString_number (by simp [accountKeys]) plain (own (by simp)) renders.cashBal
  obtain ⟨availText, availFound, availRead⟩ :=
    findString_number (by simp [accountKeys]) plain (own (by simp)) renders.availBal
  rw [applyDetail, ccy, cashFound, availFound]
  simp only [run_bind, run_get, store]
  cases held : account.balances.findIdx? (fun held => held.ccy = detail.ccy) with
  | some index => simp [run_bind, run_lift, run_modify, cashRead, availRead, modifyAt, List.modify_modify_eq, Function.comp_def]
  | none =>
      by_cases room : account.balances.length < kCapacity
      · simp [run_bind, run_lift, run_modify, cashRead, availRead, room]
      · simp [run_pure, room, push]

omit [DoubleArith D] in
theorem store_writes (account : AccountState D) (detail : Balance D) :
    Writes Balance.ccy kCapacity detail account.balances (account.store detail).balances := by
  unfold store
  cases held : account.balances.findIdx? (fun held => held.ccy = detail.ccy) with
  | some index =>
      obtain ⟨inside, same, -⟩ := List.findIdx?_eq_some_iff_getElem.mp held
      obtain ⟨front, old, back, split, length, modified⟩ := List.exists_of_modify
        (fun held : Balance D => { held with cashBal := detail.cashBal, availBal := detail.availBal }) inside
      have isOld : old.ccy = detail.ccy := by simpa [split, ← length] using same
      dsimp only [modifyAt]
      rw [modified, split, isOld]
      exact .replaced isOld
  | none =>
      have fresh : detail.ccy ∉ account.balances.map Balance.ccy := by
        simpa [List.findIdx?_eq_none_iff] using held
      dsimp only
      rw [push]
      split
      case isTrue room => exact .added fresh room
      case isFalse noRoom => exact .dropped fresh (Nat.le_of_not_lt noRoom)

/-!
## Runs
-/

theorem applyDetails_text {details : List (Balance D)} {rows : List Value} (rendered : List.Forall₂ RendersDetail details rows)
    (plain : ∀ row ∈ rows, ∀ name ∈ row.names, '\\' ∉ name) (account : AccountState D) :
    forM rows (fun row => applyDetail row.text) account = .ok .unit (details.foldl store account) := by
  induction rendered generalizing account with
  | nil => rfl
  | cons here _ ih =>
      have applied := applyDetail_text (plain _ List.mem_cons_self) here account
      rw [List.forM_cons, run_bind_ok applied, List.foldl_cons]
      exact ih (fun row member => plain row (List.mem_cons_of_mem _ member)) _

theorem applyMessage_text (message : AccountMessage D) (account : AccountState D) :
    applyMessage message.value.text account = .ok .unit (message.details.foldl store account) := by
  have known {key : Text} (listed : key ∈ accountKeys) := isKey_account listed
  have channel := findString_named (by simp [accountKeys]) message.escapeFree message.channel (by decide)
  rw [applyMessage, if_neg (by simp [channel]), findData,
    Json.findArrayElement_text (known (by simp [accountKeys])) message.escapeFree, ← List.head?_eq_getElem?,
    message.data.itemsNamed_eq]
  have rendered := message.rendered
  unfold detailRows at rendered
  cases data : (message.value.ownItems kData).head? with
  | none =>
      rw [data] at rendered
      rw [List.forall₂_nil_right_iff.mp rendered]
      rfl
  | some element =>
      rw [data] at rendered
      have member := List.mem_of_head? data
      rw [← message.data.itemsNamed_eq] at member
      have inside := Value.names_of_itemsNamed member
      have plain : ∀ name ∈ element.names, '\\' ∉ name := fun name member => message.escapeFree name (inside member)
      dsimp only [Option.map_some]
      rw [Json.forEachArrayElement_text (known (by simp [accountKeys])) plain]
      have details : element.itemsNamed kDetails = element.ownItems kDetails :=
        (message.element element data).itemsNamed_eq
      have rows : ∀ row ∈ element.ownItems kDetails, ∀ name ∈ row.names, '\\' ∉ name := fun row member name named =>
        plain name (Value.names_of_itemsNamed (details ▸ member) named)
      rw [details]
      exact applyDetails_text rendered rows account

/-- The account after a run of messages. -/
def applyMessages (messages : List (AccountMessage D)) : EStateM Exn (AccountState D) PUnit :=
  forM messages fun message => applyMessage message.value.text

theorem applyMessages_text (messages : List (AccountMessage D)) (account : AccountState D) :
    applyMessages messages account = .ok .unit ((messages.flatMap AccountMessage.details).foldl store account) := by
  unfold applyMessages
  induction messages generalizing account with
  | nil => rfl
  | cons message rest ih =>
      rw [List.forM_cons, run_bind_ok (applyMessage_text message account), ih, List.flatMap_cons, List.foldl_append]

omit [DoubleArith D] in
theorem records_foldl (details : List (Balance D)) {history : List (Balance D)} {account : AccountState D}
    (records : Records Balance.ccy kCapacity history account.balances) :
    Records Balance.ccy kCapacity (history ++ details) (details.foldl store account).balances := by
  induction details generalizing history account with
  | nil => simpa using records
  | cons detail rest ih => simpa using ih (records.write (account.store_writes detail))

def sampleDetail (ccy : Char) : Balance ℚ := ⟨[ccy], 1, 1⟩

def sampleRow (ccy : Char) : Value :=
  .ofMembers [(kCcy, .ofText [ccy]), (kCashBal, .ofText ['1']), (kAvailBal, .ofText ['1'])]

def sampleElement (rows : List Value) : Value := .ofMembers [(kDetails, .ofItems rows)]

def sampleMessage (rows : List Value) : Value :=
  .ofMembers [("arg".toList, .ofMembers [(kChannel, .ofText kAccountChannel)]), (kData, .ofItems [sampleElement rows])]

theorem own_sampleMessage (rows : List Value) : (sampleMessage rows).ownNamed kData = some (.ofItems [sampleElement rows]) := by
  obtain ⟨arg, data, other⟩ : isBody "arg".toList = true ∧ isBody kData = true ∧ "arg".toList ≠ kData := by decide +kernel
  rw [Value.ownNamed, sampleMessage, Value.members_ofMembers (by simp only [List.all_cons, arg, data]; rfl)]
  rw [List.find?_cons_of_neg (by simpa using other), List.find?_cons_of_pos (by simp)]
  rfl

theorem own_sampleElement (rows : List Value) : (sampleElement rows).ownNamed kDetails = some (.ofItems rows) := by
  have details : isBody kDetails = true := by decide +kernel
  rw [Value.ownNamed, sampleElement, Value.members_ofMembers (by simp only [List.all_cons, details]; rfl)]
  rw [List.find?_cons_of_pos (by simp)]
  rfl

theorem ownItems_sample (rows : List Value) : (sampleMessage rows).ownItems kData = [sampleElement rows] := by
  rw [Value.ownItems, own_sampleMessage, Option.elim_some, Value.items_ofItems]

theorem detailRows_sample (rows : List Value) : detailRows (sampleMessage rows) = rows := by
  rw [detailRows, ownItems_sample, List.head?_cons, Option.elim_some, Value.ownItems, own_sampleElement, Option.elim_some,
    Value.items_ofItems]

theorem unshadowed_sampleMessage (rows : List Value) : (sampleMessage rows).Unshadowed kData := by
  obtain ⟨arg, channel, data⟩ : (Label.compact "arg".toList).name.text ≠ kData ∧
      (Label.compact kChannel).name.text ≠ kData ∧ (Label.compact kData).name.text = kData := by decide +kernel
  rw [Value.Unshadowed, own_sampleMessage]
  simp only [sampleMessage, Value.ofMembers, Members.ofList, Value.ofText, Value.firstNamed, Members.firstNamed, if_neg arg,
    if_neg channel, if_pos data, Option.none_or]

theorem unshadowed_sampleElement (rows : List Value) : (sampleElement rows).Unshadowed kDetails := by
  have details : (Label.compact kDetails).name.text = kDetails := by decide +kernel
  rw [Value.Unshadowed, own_sampleElement]
  simp only [sampleElement, Value.ofMembers, Members.ofList, Value.firstNamed, Members.firstNamed, if_pos details]

def seventeen : List Char := "abcdefghijklmnopq".toList

theorem rendersDetail_seventeen {ccy : Char} (member : ccy ∈ seventeen) : RendersDetail (sampleDetail ccy) (sampleRow ccy) := by
  have strings : seventeen.all (fun ccy => decide ((sampleRow ccy).isFlat = true ∧ ownString (sampleRow ccy) kCcy = some [ccy] ∧
      '"' ∉ [ccy] ∧ ownString (sampleRow ccy) kCashBal = some ['1'] ∧
      ownString (sampleRow ccy) kAvailBal = some ['1'])) = true := by
    decide +kernel
  have one : DoubleArith.strtod ['1'] = some (1 : ℚ) := by decide +kernel
  obtain ⟨flat, isCcy, whole, cashBal, availBal⟩ := of_decide_eq_true (List.all_eq_true.mp strings ccy member)
  exact ⟨fun name _ => Value.unshadowed_flat flat name, isCcy, whole, ⟨['1'], cashBal, by decide, one⟩, ['1'], availBal,
    by decide, one⟩

def seventeenMessage : AccountMessage ℚ where
  value := sampleMessage (seventeen.map sampleRow)
  details := seventeen.map sampleDetail
  escapeFree := by decide +kernel
  channel := by decide +kernel
  data := unshadowed_sampleMessage _
  element := by
    rw [ownItems_sample]
    rintro element ⟨rfl⟩
    exact unshadowed_sampleElement _
  rendered := by
    rw [detailRows_sample, List.forall₂_map_left_iff, List.forall₂_map_right_iff, List.forall₂_same]
    exact fun _ => rendersDetail_seventeen

end AccountState

end TradingEngine
