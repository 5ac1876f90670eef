import TradingEngine.MarketData.MarketData
import TradingEngine.Util.JsonRendering

/-! Books pushes and the JSON they are written as: the members of the data object in
any order, white space anywhere, and further members beside those that are read.
What is read from the text is the push. -/

set_option autoImplicit false

namespace TradingEngine

open Library.Exec Library.JsonText

variable {D : Type} [DoubleArith D]

structure BooksPush (D : Type) where
  instId : Text
  bids : List (D × D)
  asks : List (D × D)
  seqId : Int
  prevSeqId : Int

/-- The calls a push stands for, in order. -/
def BooksPush.perform (push : BooksPush D) : EStateM Exn (OrderBook D) PUnit := do
  if push.prevSeqId = -1 then
    modify OrderBook.beginSnapshot
  forM push.bids fun level => modify fun book => book.setBid level.1 level.2
  forM push.asks fun level => modify fun book => book.setAsk level.1 level.2
  modify fun book => book.setSeqId push.seqId

/-- The keys that are looked up in a push. -/
def bookKeys : List Text := [kChannel, kData, kSeqId, kPrevSeqId, kBids, kAsks]

/-- No name in the value, at any depth, is looked up. -/
def Unread (value : Value) : Prop := ∀ name ∈ value.names, name ∉ bookKeys

def UnreadMembers (extras : List (Text × Value)) : Prop := ∀ entry ∈ extras, entry.1 ∉ bookKeys ∧ Unread entry.2

/-!
## Renderings
-/

/-- A number, in quotes or not, as `strtod` reads it. -/
def RendersNumber (number : D) (value : Value) : Prop :=
  ∃ text, value.scalarText? = some text ∧ DoubleArith.strtod text = some number

/-- A level is an array that begins with its price and size. -/
structure RendersLevel (level : D × D) (value : Value) : Prop where
  unread : Unread value
  items : ∃ price size more, value.items = price :: size :: more ∧
    RendersNumber level.1 price ∧ RendersNumber level.2 size

structure RendersSide (levels : List (D × D)) (value : Value) : Prop where
  isArray : value.isArray = true
  levels : List.Forall₂ RendersLevel levels value.items

structure DataRendering (push : BooksPush D) where
  value : Value
  seqId : Word
  prevSeqId : Word
  bids : Value
  asks : Value
  extras : List (Text × Value)
  isObject : value.isObject = true
  members : value.members.Perm
    ([(kSeqId, .word seqId), (kPrevSeqId, .word prevSeqId), (kBids, bids), (kAsks, asks)] ++ extras)
  seqId_eq : Json.parseLL seqId.text = .ok push.seqId
  prevSeqId_eq : Json.parseLL prevSeqId.text = .ok push.prevSeqId
  rendersBids : RendersSide push.bids bids
  rendersAsks : RendersSide push.asks asks
  unread : UnreadMembers extras

structure PushRendering (push : BooksPush D) where
  message : Value
  arg : Value
  channel : Body
  instId : Body
  argExtras : List (Text × Value)
  array : Value
  data : DataRendering push
  extras : List (Text × Value)
  members : message.members.Perm ([("arg".toList, arg), (kData, array)] ++ extras)
  argMembers : arg.members.Perm ([(kChannel, .string channel), (kInstId, .string instId)] ++ argExtras)
  channel_eq : channel.text = kBooksChannel
  instId_eq : instId.text = push.instId
  items : array.items = [data.value]
  unread : UnreadMembers extras
  argUnread : UnreadMembers argExtras
  escapeFree : ∀ name ∈ message.names, '\\' ∉ name

/-!
## Numbers and levels
-/

theorem stripQuotes_quote (body : Text) : stripQuotes (quote body) = body := by
  have length : (quote body).length = body.length + 2 := by simp [quote]
  have last : (quote body).getLast? = some '"' := List.getLast?_append_of_ne_nil _ (by simp)
  rw [stripQuotes, if_pos ⟨by omega, rfl, last⟩, length]
  simp [quote, Json.substr]

theorem stripQuotes_word (word : Word) : stripQuotes word.text = word.text := by
  obtain ⟨c, rest, text⟩ := List.exists_cons_of_ne_nil word.nonempty
  have wordChar : isWordChar c = true := List.all_eq_true.mp word.word c (by simp [text])
  rw [stripQuotes, if_neg]
  rintro ⟨-, first, -⟩
  rw [text, List.head?_cons, Option.some.injEq] at first
  subst first
  cases wordChar

theorem parseDouble_text {number : D} {value : Value} (renders : RendersNumber number value) :
    Json.parseDouble (stripQuotes value.text) = .ok number := by
  obtain ⟨text, scalar, read⟩ := renders
  have stripped : stripQuotes value.text = text := by
    cases value with
    | word word =>
        cases scalar
        exact stripQuotes_word word
    | string body =>
        cases scalar
        exact stripQuotes_quote body.text
    | emptyArray inner => cases scalar
    | array items => cases scalar
    | emptyObject inner => cases scalar
    | object members => cases scalar
  rw [stripped, Json.parseDouble, read]

theorem isArray_of_items {value item : Value} {rest : List Value} (items : value.items = item :: rest) :
    value.isArray = true := by
  cases value with
  | array inner => rfl
  | emptyArray inner => rfl
  | word word => cases items
  | string body => cases items
  | emptyObject inner => cases items
  | object members => cases items

theorem parseLevel_text {level : D × D} {value : Value} (renders : RendersLevel level value) :
    parseLevel value.text = .ok level := by
  obtain ⟨price, size, more, items, priceRead, sizeRead⟩ := renders.items
  have isArray := isArray_of_items items
  rw [parseLevel, Json.findElement_text isArray, Json.findElement_text isArray, items]
  simp only [kBooksLevelPriceIdx, kBooksLevelSizeIdx, List.getElem?_cons_zero, List.getElem?_cons_succ, Option.map_some,
    parseDouble_text priceRead, parseDouble_text sizeRead]
  rfl

theorem applyLevels_text {levels : List (D × D)} {value : Value} (renders : RendersSide levels value) (key : Text) :
    applyLevels value.text key = forM levels fun level =>
      if key = kBids then modify fun book : OrderBook D => book.setBid level.1 level.2
      else modify fun book => book.setAsk level.1 level.2 := by
  rw [applyLevels, Json.forEachElement_text renders.isArray]
  have each := renders.levels
  clear renders
  generalize value.items = items at each
  induction each with
  | nil => rfl
  | cons here _ ih =>
      rw [List.forM_cons, List.forM_cons, ih, applyLevel, parseLevel_text here]
      rfl

/-!
## The data object
-/

theorem Unread.of_items {value : Value} (isArray : value.isArray = true) (items : ∀ item ∈ value.items, Unread item) :
    Unread value := by
  intro name member
  rcases Value.mem_names.mp member with ⟨entry, inObject, -⟩ | ⟨item, inArray, inside⟩
  · rw [Value.members_of_isArray isArray] at inObject
    cases inObject
  · exact items item inArray name inside

theorem RendersSide.unread {levels : List (D × D)} {value : Value} (renders : RendersSide levels value) : Unread value := by
  refine Unread.of_items renders.isArray fun item member => ?_
  have each := renders.levels
  clear renders
  generalize value.items = items at each member
  induction each with
  | nil => cases member
  | cons here _ ih =>
      rcases List.mem_cons.mp member with rfl | later
      · exact here.unread
      · exact ih later

/-- The fields after one more member. -/
def BookFields.store (fields : BookFields) (entry : Text × Value) : BookFields where
  seqId := if entry.1 = kSeqId then some entry.2.text else fields.seqId
  prevSeqId := if entry.1 = kPrevSeqId then some entry.2.text else fields.prevSeqId
  bids := if entry.1 = kBids then some entry.2.text else fields.bids
  asks := if entry.1 = kAsks then some entry.2.text else fields.asks

theorem BookFields.eq_mk {fields : BookFields} {seqId prevSeqId bids asks : Option Text} (first : fields.seqId = seqId)
    (second : fields.prevSeqId = prevSeqId) (third : fields.bids = bids) (fourth : fields.asks = asks) :
    fields = ⟨seqId, prevSeqId, bids, asks⟩ := by
  subst first second third fourth
  rfl

theorem run_collectField (entry : Text × Value) (fields : BookFields) :
    collectField entry.1 entry.2.text fields = .ok .unit (fields.store entry) := by
  have apart : kSeqId ≠ kPrevSeqId ∧ kSeqId ≠ kBids ∧ kSeqId ≠ kAsks ∧ kPrevSeqId ≠ kBids ∧ kPrevSeqId ≠ kAsks ∧
      kBids ≠ kAsks := by decide
  unfold collectField BookFields.store
  split_ifs with seqId prevSeqId bids asks
  all_goals try simp only [run_modify, run_pure]
  all_goals simp_all

theorem run_collectFields (entries : List (Text × Value)) (fields : BookFields) :
    forM entries (fun entry => collectField entry.1 entry.2.text) fields = .ok .unit (entries.foldl .store fields) := by
  induction entries generalizing fields with
  | nil => rfl
  | cons entry rest ih => rw [List.forM_cons, run_bind_ok (run_collectField entry fields), ih, List.foldl_cons]

/-- A field that one key sets holds the value of the one member of this key. -/
theorem get_foldl_store {key : Text} {get : BookFields → Option Text}
    (stores : ∀ fields entry, get (fields.store entry) = if entry.1 = key then some entry.2.text else get fields)
    {entries : List (Text × Value)} {value : Value} (only : ∀ entry ∈ entries, entry.1 = key → entry.2 = value)
    (fields : BookFields) :
    get (entries.foldl .store fields) = if key ∈ entries.map Prod.fst then some value.text else get fields := by
  induction entries generalizing fields with
  | nil => simp
  | cons entry rest ih =>
      rw [List.foldl_cons, ih (fun other member => only other (List.mem_cons_of_mem _ member)), stores, List.map_cons]
      by_cases here : entry.1 = key
      · rw [if_pos here, only entry List.mem_cons_self here, ite_self, if_pos (by simp [here])]
      · rw [if_neg here]
        have same : (key ∈ entry.1 :: rest.map Prod.fst) ↔ key ∈ rest.map Prod.fst := by
          rw [List.mem_cons, or_iff_right (Ne.symm here)]
        simp only [same]

namespace DataRendering

variable {push : BooksPush D} (data : DataRendering push)

/-- The members that are read. -/
def read : List (Text × Value) :=
  [(kSeqId, .word data.seqId), (kPrevSeqId, .word data.prevSeqId), (kBids, data.bids), (kAsks, data.asks)]

theorem mem_members {entry : Text × Value} : entry ∈ data.value.members ↔ entry ∈ data.read ∨ entry ∈ data.extras := by
  rw [data.members.mem_iff, List.mem_append]
  rfl

theorem read_nodup : (data.read.map Prod.fst).Nodup := by
  change [kSeqId, kPrevSeqId, kBids, kAsks].Nodup
  decide

theorem read_keys {entry : Text × Value} (member : entry ∈ data.read) : entry.1 ∈ bookKeys := by
  simp only [read, List.mem_cons, List.not_mem_nil, or_false] at member
  rcases member with rfl | rfl | rfl | rfl <;> simp [bookKeys]

theorem unread_of_read {entry : Text × Value} (member : entry ∈ data.read) : Unread entry.2 := by
  simp only [read, List.mem_cons, List.not_mem_nil, or_false] at member
  rcases member with rfl | rfl | rfl | rfl
  · intro name inside
    cases inside
  · intro name inside
    cases inside
  · exact data.rendersBids.unread
  · exact data.rendersAsks.unread

theorem only {key : Text} {value : Value} (listed : (key, value) ∈ data.read) :
    ∀ entry ∈ data.value.members, entry.1 = key → entry.2 = value := by
  intro entry member same
  rcases data.mem_members.mp member with inRead | extra
  · have one := List.inj_on_of_nodup_map data.read_nodup inRead listed same
    rw [one]
  · have known : entry.1 ∈ bookKeys := same ▸ data.read_keys listed
    exact absurd known (data.unread entry extra).1

theorem key_mem {key : Text} {value : Value} (listed : (key, value) ∈ data.read) : key ∈ data.value.members.map Prod.fst :=
  List.mem_map.mpr ⟨(key, value), data.mem_members.mpr (.inl listed), rfl⟩

theorem get_members {key : Text} {value : Value} {get : BookFields → Option Text} (listed : (key, value) ∈ data.read)
    (stores : ∀ fields entry, get (fields.store entry) = if entry.1 = key then some entry.2.text else get fields) :
    get (data.value.members.foldl .store {}) = some value.text := by
  rw [get_foldl_store stores (data.only listed), if_pos (data.key_mem listed)]

/-- The loop over the members collects those that are read, in whatever order they come. -/
theorem readFields_text (plain : ∀ entry ∈ data.value.members, '\\' ∉ entry.1) :
    readFields data.value.text =
      .ok ⟨some data.seqId.text, some data.prevSeqId.text, some data.bids.text, some data.asks.text⟩ := by
  have seqId : (kSeqId, Value.word data.seqId) ∈ data.read := by simp [read]
  have prevSeqId : (kPrevSeqId, Value.word data.prevSeqId) ∈ data.read := by simp [read]
  have bids : (kBids, data.bids) ∈ data.read := by simp [read]
  have asks : (kAsks, data.asks) ∈ data.read := by simp [read]
  have whole : data.value.members.foldl BookFields.store {} =
      ⟨some data.seqId.text, some data.prevSeqId.text, some data.bids.text, some data.asks.text⟩ :=
    BookFields.eq_mk (data.get_members seqId fun _ _ => rfl) (data.get_members prevSeqId fun _ _ => rfl)
      (data.get_members bids fun _ _ => rfl) (data.get_members asks fun _ _ => rfl)
  rw [readFields, Json.forEachField_text data.isObject plain, run_collectFields, whole]

theorem names_read {name : Text} (member : name ∈ data.value.names) :
    name ∈ [kSeqId, kPrevSeqId, kBids, kAsks] ∨ name ∉ bookKeys := by
  rcases Value.mem_names.mp member with ⟨entry, inObject, here⟩ | ⟨item, inArray, -⟩
  · rcases data.mem_members.mp inObject with inRead | extra
    · rcases here with rfl | inside
      · exact .inl (List.mem_map_of_mem inRead)
      · exact .inr (data.unread_of_read inRead name inside)
    · rcases here with rfl | inside
      · exact .inr (data.unread entry extra).1
      · exact .inr ((data.unread entry extra).2 name inside)
  · have seqId : (kSeqId, Value.word data.seqId) ∈ data.value.members := data.mem_members.mpr (.inl List.mem_cons_self)
    rw [Value.items_of_mem_members seqId] at inArray
    cases inArray

end DataRendering

/-!
## The message
-/

namespace PushRendering

variable {push : BooksPush D} (rendering : PushRendering push)

theorem plain_data : ∀ entry ∈ rendering.data.value.members, '\\' ∉ entry.1 := by
  intro entry member
  refine rendering.escapeFree entry.1 (Value.mem_names.mpr (.inl ⟨(kData, rendering.array), ?_, .inr ?_⟩))
  · exact rendering.members.mem_iff.mpr (by simp)
  · refine Value.mem_names.mpr (.inr ⟨rendering.data.value, ?_, Value.mem_names.mpr (.inl ⟨entry, member, .inl rfl⟩)⟩)
    rw [rendering.items]
    exact List.mem_singleton_self _

theorem isArray : rendering.array.isArray = true := isArray_of_items rendering.items

theorem array_names {name : Text} (member : name ∈ rendering.array.names) : name ∈ rendering.data.value.names := by
  rcases Value.mem_names.mp member with ⟨entry, inObject, -⟩ | ⟨item, inArray, inside⟩
  · rw [Value.members_of_isArray rendering.isArray] at inObject
    cases inObject
  · rw [rendering.items, List.mem_singleton] at inArray
    exact inArray ▸ inside

theorem no_channel_in_array : kChannel ∉ rendering.array.names := by
  intro member
  rcases rendering.data.names_read (rendering.array_names member) with isRead | unread
  · exact absurd isRead (by decide)
  · exact unread (by simp [bookKeys])

theorem mem_members {entry : Text × Value} : entry ∈ rendering.message.members ↔
    entry = ("arg".toList, rendering.arg) ∨ entry = (kData, rendering.array) ∨ entry ∈ rendering.extras := by
  rw [rendering.members.mem_iff]
  simp

theorem mem_argMembers {entry : Text × Value} : entry ∈ rendering.arg.members ↔
    entry = (kChannel, .string rendering.channel) ∨ entry = (kInstId, .string rendering.instId) ∨
      entry ∈ rendering.argExtras := by
  rw [rendering.argMembers.mem_iff]
  simp

theorem namedIn_extra {extras : List (Text × Value)} (unread : UnreadMembers extras) {key : Text} (known : key ∈ bookKeys)
    {entry : Text × Value} (member : entry ∈ extras) : namedIn key entry = none :=
  namedIn_eq_none (fun same => (unread entry member).1 (same ▸ known)) fun inside => (unread entry member).2 key inside known

theorem arg_channel : rendering.arg.firstNamed kChannel = some (.string rendering.channel) := by
  have here : namedIn kChannel (kChannel, Value.string rendering.channel) = some (.string rendering.channel) := if_pos rfl
  refine Value.firstNamed_of_only (rendering.mem_argMembers.mpr (.inl rfl)) here fun other member => ?_
  rcases rendering.mem_argMembers.mp member with same | rfl | extra
  · exact .inl same
  · have other : kInstId ≠ kChannel := by decide
    exact .inr (namedIn_eq_none other (by simp [Value.names]))
  · exact .inr (namedIn_extra rendering.argUnread (by simp [bookKeys]) extra)

theorem message_channel : rendering.message.firstNamed kChannel = some (.string rendering.channel) := by
  have here : namedIn kChannel ("arg".toList, rendering.arg) = some (.string rendering.channel) := by
    have other : "arg".toList ≠ kChannel := by decide
    rw [namedIn, if_neg other, rendering.arg_channel]
  refine Value.firstNamed_of_only (rendering.mem_members.mpr (.inl rfl)) here fun other member => ?_
  rcases rendering.mem_members.mp member with same | rfl | extra
  · exact .inl same
  · have other : kData ≠ kChannel := by decide
    exact .inr (namedIn_eq_none other rendering.no_channel_in_array)
  · exact .inr (namedIn_extra rendering.unread (by simp [bookKeys]) extra)

theorem no_data_in_arg : kData ∉ rendering.arg.names := by
  intro inArg
  rcases Value.mem_names.mp inArg with ⟨entry, member, here⟩ | ⟨item, inArray, -⟩
  · rcases rendering.mem_argMembers.mp member with rfl | rfl | extra
    · have other : kData ≠ kChannel := by decide
      simp [Value.names, other] at here
    · have other : kData ≠ kInstId := by decide
      simp [Value.names, other] at here
    · have known : kData ∈ bookKeys := by simp [bookKeys]
      rcases here with same | inside
      · exact (rendering.argUnread entry extra).1 (same ▸ known)
      · exact (rendering.argUnread entry extra).2 kData inside known
  · rw [Value.items_of_mem_members (rendering.mem_argMembers.mpr (.inl rfl))] at inArray
    cases inArray

theorem message_data : rendering.message.firstNamed kData = some rendering.array := by
  have here : namedIn kData (kData, rendering.array) = some rendering.array := if_pos rfl
  refine Value.firstNamed_of_only (rendering.mem_members.mpr (.inr (.inl rfl))) here fun other member => ?_
  rcases rendering.mem_members.mp member with rfl | same | extra
  · have other : "arg".toList ≠ kData := by decide
    exact .inr (namedIn_eq_none other rendering.no_data_in_arg)
  · exact .inl same
  · exact .inr (namedIn_extra rendering.unread (by simp [bookKeys]) extra)

theorem isKey_book {key : Text} (known : key ∈ bookKeys) : Json.IsKey key := Json.isKey_of_all rfl known

theorem findString_channel : Json.findString rendering.message.text kChannel = some kBooksChannel := by
  have known : kChannel ∈ bookKeys := by simp [bookKeys]
  rw [Json.findString_text (isKey_book known) rendering.escapeFree, rendering.message_channel, Option.bind_some,
    Value.string?, rendering.channel_eq]
  intro found body named string
  rw [rendering.message_channel] at named
  cases named
  cases string
  rw [rendering.channel_eq]
  decide

theorem findData_text : findData rendering.message.text = some rendering.data.value.text := by
  have known : kData ∈ bookKeys := by simp [bookKeys]
  rw [findData, Json.findArrayElement_text (isKey_book known) rendering.escapeFree, Value.itemsNamed, rendering.message_data,
    Option.elim_some, rendering.items]
  rfl

/-- The push as it is read, its levels and its own seqId still texts. -/
def pushRead : BookPush :=
  ⟨push.prevSeqId, rendering.data.seqId.text, some rendering.data.bids.text, some rendering.data.asks.text⟩

theorem readPush_text : readPush rendering.message.text = .ok (some rendering.pushRead) := by
  rw [readPush, if_neg (by simp [rendering.findString_channel]), rendering.findData_text]
  dsimp only
  rw [rendering.data.readFields_text rendering.plain_data]
  change (Json.parseLL rendering.data.prevSeqId.text >>= _) = _
  rw [rendering.data.prevSeqId_eq]
  rfl

theorem applySide_bids : applySide rendering.pushRead.bids kBids =
    forM push.bids fun level => modify fun book : OrderBook D => book.setBid level.1 level.2 := by
  have levels := applyLevels_text rendering.data.rendersBids kBids
  simp only [↓reduceIte] at levels
  exact levels

theorem applySide_asks : applySide rendering.pushRead.asks kAsks =
    forM push.asks fun level => modify fun book : OrderBook D => book.setAsk level.1 level.2 := by
  have levels := applyLevels_text rendering.data.rendersAsks kAsks
  have other : kAsks ≠ kBids := by decide
  simp only [other, ↓reduceIte] at levels
  exact levels

theorem isSnapshot_pushRead : rendering.pushRead.isSnapshot = true ↔ push.prevSeqId = -1 := decide_eq_true_iff

theorem apply_pushRead : rendering.pushRead.apply = push.perform := by
  have seqId : (lift (Json.parseLL rendering.pushRead.seqIdText) : EStateM Exn (OrderBook D) Int) = pure push.seqId := by
    change lift (Json.parseLL rendering.data.seqId.text) = _
    rw [rendering.data.seqId_eq]
    rfl
  have base : rendering.pushRead.base = fun book : OrderBook D =>
      if push.prevSeqId = -1 then book.beginSnapshot else book := by
    funext book
    simp only [BookPush.base, rendering.isSnapshot_pushRead]
  rw [BookPush.apply, rendering.applySide_bids, rendering.applySide_asks, seqId, base, BooksPush.perform]
  by_cases snapshot : push.prevSeqId = -1
  · simp only [if_pos snapshot, pure_bind]
  · simp only [if_neg snapshot, pure_bind]
    rfl

theorem gaps_pushRead (book : OrderBook D) : rendering.pushRead.gaps book = true ↔
    push.prevSeqId ≠ -1 ∧ book.hasSnapshot = true ∧ push.prevSeqId ≠ book.lastSeqId := by
  rw [BookPush.gaps, Bool.and_eq_true, Bool.and_eq_true, Bool.not_eq_true', ← Bool.not_eq_true, rendering.isSnapshot_pushRead,
    bne_iff_ne, and_assoc]
  rfl

end PushRendering

/-- Whatever its white space, member order and further members, a books message
does exactly what its push stands for, unless the push does not chain onto the book. -/
theorem book_message_decoded (push : BooksPush D) (rendering : PushRendering push) :
    (applyBookMessage rendering.message.text : EStateM Exn (OrderBook D) BookMessageResult) = do
      let book ← get
      if push.prevSeqId ≠ -1 ∧ book.hasSnapshot = true ∧ push.prevSeqId ≠ book.lastSeqId then
        return .kGapDetected
      push.perform
      return .kApplied := by
  have read : (lift (readPush rendering.message.text) : EStateM Exn (OrderBook D) (Option BookPush)) =
      pure (some rendering.pushRead) := by
    rw [rendering.readPush_text]
    rfl
  rw [applyBookMessage, read, pure_bind]
  simp only [rendering.gaps_pushRead, rendering.apply_pushRead]

def samplePush : BooksPush ℚ := ⟨kEthUsdt, [(99, 1)], [(101, 2)], 10, -1⟩

def sampleLevel (price size : String) : Value := .ofItems [.ofText price.toList, .ofText size.toList, .ofText ['0']]

theorem rendersLevel_sample {price size : String} {level : ℚ × ℚ} (bodies : isBody price.toList = true ∧ isBody size.toList = true)
    (priceRead : DoubleArith.strtod price.toList = some level.1) (sizeRead : DoubleArith.strtod size.toList = some level.2) :
    RendersLevel level (sampleLevel price size) where
  unread := by
    intro name member
    simp [sampleLevel, Value.ofItems, Items.ofList, Value.ofText, Value.names, Items.names] at member
  items := by
    refine ⟨_, _, _, Value.items_ofItems _, ⟨price.toList, ?_, priceRead⟩, size.toList, ?_, sizeRead⟩
    · simp [Value.ofText, Body.ofText, Value.scalarText?, bodies.1]
    · simp [Value.ofText, Body.ofText, Value.scalarText?, bodies.2]

theorem rendersSide_sample {price size : String} {level : ℚ × ℚ} (renders : RendersLevel level (sampleLevel price size)) :
    RendersSide [level] (.ofItems [sampleLevel price size]) := by
  refine ⟨rfl, ?_⟩
  rw [Value.items_ofItems]
  exact .cons renders .nil

def sampleSeqId : Word := ⟨"10".toList, by decide, by decide⟩

def samplePrevSeqId : Word := ⟨"-1".toList, by decide, by decide⟩

def sampleExtras : List (Text × Value) := [("ts".toList, .ofText "1597026383085".toList)]

theorem sampleExtras_unread : UnreadMembers sampleExtras := by
  intro entry member
  rw [List.mem_singleton.mp member]
  exact ⟨by decide, fun name inside => by cases inside⟩

/-- The asks first, then a member that is not read. -/
def sampleData : DataRendering samplePush where
  value := .ofMembers ((kAsks, .ofItems [sampleLevel "101" "2"]) :: sampleExtras ++
    [(kSeqId, .word sampleSeqId), (kPrevSeqId, .word samplePrevSeqId), (kBids, .ofItems [sampleLevel "99" "1"])])
  seqId := sampleSeqId
  prevSeqId := samplePrevSeqId
  bids := .ofItems [sampleLevel "99" "1"]
  asks := .ofItems [sampleLevel "101" "2"]
  extras := sampleExtras
  isObject := rfl
  members := by
    rw [Value.members_ofMembers (by decide +kernel)]
    exact List.perm_append_comm
  seqId_eq := by decide +kernel
  prevSeqId_eq := by decide +kernel
  rendersBids := rendersSide_sample (rendersLevel_sample (by decide) (by decide +kernel) (by decide +kernel))
  rendersAsks := rendersSide_sample (rendersLevel_sample (by decide) (by decide +kernel) (by decide +kernel))
  unread := sampleExtras_unread

def sampleArg : Value := .ofMembers [(kChannel, .ofText kBooksChannel), (kInstId, .ofText kEthUsdt)]

def sampleRendering : PushRendering samplePush where
  message := .ofMembers [("arg".toList, sampleArg), (kData, .ofItems [sampleData.value])]
  arg := sampleArg
  channel := .ofText kBooksChannel
  instId := .ofText kEthUsdt
  argExtras := []
  array := .ofItems [sampleData.value]
  data := sampleData
  extras := []
  members := by
    rw [Value.members_ofMembers (by decide +kernel)]
    exact List.Perm.refl _
  argMembers := by
    rw [sampleArg, Value.members_ofMembers (by decide +kernel)]
    exact List.Perm.refl _
  channel_eq := by decide +kernel
  instId_eq := by decide +kernel
  items := Value.items_ofItems _
  unread := fun _ member => by cases member
  argUnread := fun _ member => by cases member
  escapeFree := by decide +kernel

theorem book_message_decoded_snapshot :
    sampleRendering.message.text = ("\x7b\"arg\":\x7b\"channel\":\"books\",\"instId\":\"ETH-USDT\"\x7d,\"data\":[\x7b" ++
      "\"asks\":[[\"101\",\"2\",\"0\"]],\"ts\":\"1597026383085\",\"seqId\":10,\"prevSeqId\":-1," ++
      "\"bids\":[[\"99\",\"1\",\"0\"]]\x7d]\x7d").toList ∧
    applyBookMessage sampleRendering.message.text (OrderBook.initial : OrderBook ℚ) = .ok .kApplied
      (((OrderBook.initial.beginSnapshot.setBid 99 1).setAsk 101 2).setSeqId 10) := by
  refine ⟨by decide +kernel, ?_⟩
  rw [book_message_decoded samplePush sampleRendering]
  rfl

end TradingEngine
