import TradingEngine.Net.WebSocketHandshakeProperties

/-! The lookup of a header in a response whose header block is complete. The block is
cut into lines at its line breaks; the loop visits their beginnings and no others. -/

set_option autoImplicit false

namespace TradingEngine

open Library.Exec

/-- The lines between the line breaks of a text. -/
def splitLines : Bytes → List Bytes
  | [] => [[]]
  | [byte] => [[byte]]
  | first :: second :: rest =>
      if first = 13 ∧ second = 10 then [] :: splitLines rest
      else (splitLines (second :: rest)).modifyHead (first :: ·)

/-- Where the first empty line has its line break. -/
def blockEnd (response : Bytes) : Nat := (findBytes kHeaderTerminator response).getD response.length

/-- The status line and the header lines. -/
def blockLines (response : Bytes) : List Bytes := splitLines (response.take (blockEnd response))

/-- The line that `FindHeader` takes at a position. -/
def lineAt (response : Bytes) (pos : Nat) : Bytes := substrBytes response pos (sizeSub (findFrom response kCrLf pos) pos)

/-- The positions at which `FindHeader` looks for the end of a line. -/
inductive Visits (response name : Bytes) : Nat → Prop where
  | start : Visits response name 0
  | next {pos : Nat} : Visits response name pos → pos < response.length → lineAt response pos ≠ [] →
      ¬ (findFrom (lineAt response pos) [kColon] 0 ≠ npos ∧
        toLower ((lineAt response pos).take (findFrom (lineAt response pos) [kColon] 0)) = name) →
      Visits response name (sizeAdd (findFrom response kCrLf pos) kCrLf.length)

/-!
## Lines of a text
-/

theorem splitLines_cut (text : Bytes) : ∃ first rest, splitLines text = first :: rest ∧
    joinLines (first :: rest) = text ++ kCrLf ∧ ∀ line ∈ first :: rest, ¬ kCrLf <:+: line := by
  fun_induction splitLines text with
  | case1 => exact ⟨[], [], rfl, rfl, by decide⟩
  | case2 byte =>
      refine ⟨[byte], [], rfl, rfl, fun line member => ?_⟩
      rw [List.mem_singleton.mp member]
      exact fun inside => absurd inside.length_le (by simp [kCrLf])
  | case3 first second rest isBreak ih =>
      obtain ⟨line, lines, split, joined, unbroken⟩ := ih
      obtain ⟨rfl, rfl⟩ := isBreak
      refine ⟨[], line :: lines, by rw [split], ?_, ?_⟩
      · rw [joinLines_cons, joined]
        rfl
      · rw [List.forall_mem_cons]
        exact ⟨by decide, unbroken⟩
  | case4 first second rest notBreak ih =>
      obtain ⟨line, lines, split, joined, unbroken⟩ := ih
      rw [List.forall_mem_cons] at unbroken
      refine ⟨first :: line, lines, by rw [split]; rfl, ?_, ?_⟩
      · rw [joinLines_cons] at joined ⊢
        rw [List.cons_append, List.cons_append, joined]
        rfl
      · rw [List.forall_mem_cons]
        refine ⟨fun inside => ?_, unbroken.2⟩
        rcases List.infix_cons_iff.mp inside with front | later
        · -- a break at the beginning is the first two bytes of the text
          obtain ⟨isReturn, behind⟩ := List.cons_prefix_cons.mp front
          obtain ⟨tail, rfl⟩ := behind
          exact notBreak ⟨isReturn.symm, (List.cons.inj joined).1.symm⟩
        · exact unbroken.1 later

/-!
## The end of the block
-/

theorem findBytes_split {pattern text : Bytes} {index : Nat} (found : findBytes pattern text = some index) :
    ∃ rest, text = text.take index ++ (pattern ++ rest) := by
  induction text generalizing index with
  | nil =>
      rw [findBytes] at found
      split at found
      · rename_i empty
        exact ⟨[], by simp [empty]⟩
      · cases found
  | cons byte text ih =>
      rw [findBytes] at found
      split at found
      · rename_i here
        cases found
        obtain ⟨rest, whole⟩ := List.isPrefixOf_iff_prefix.mp here
        exact ⟨rest, whole.symm⟩
      · obtain ⟨later, foundLater, rfl⟩ := Option.map_eq_some_iff.mp found
        obtain ⟨rest, whole⟩ := ih foundLater
        refine ⟨rest, ?_⟩
        rw [List.take_succ_cons, List.cons_append, ← whole]

/-- An occurrence is found there or before. -/
theorem findBytes_of_occurrence (pattern front back : Bytes) :
    ∃ index ≤ front.length, findBytes pattern (front ++ (pattern ++ back)) = some index := by
  induction front with
  | nil =>
      refine ⟨0, le_rfl, ?_⟩
      rw [List.nil_append]
      cases whole : pattern ++ back with
      | nil => rw [findBytes, if_pos (List.append_eq_nil_iff.mp whole).1]
      | cons byte rest =>
          rw [findBytes, if_pos (List.isPrefixOf_iff_prefix.mpr ⟨back, whole⟩)]
  | cons byte front ih =>
      obtain ⟨index, inside, found⟩ := ih
      rw [List.cons_append, findBytes]
      split
      · exact ⟨0, Nat.zero_le _, rfl⟩
      · exact ⟨index + 1, Nat.succ_le_succ inside, by rw [found]; rfl⟩

theorem findBytes_blockEnd {response : Bytes} (ended : kHeaderTerminator <:+: response) :
    findBytes kHeaderTerminator response = some (blockEnd response) := by
  obtain ⟨front, back, rfl⟩ := ended
  obtain ⟨index, -, found⟩ := findBytes_of_occurrence kHeaderTerminator front back
  rw [List.append_assoc, blockEnd, found, Option.getD_some]

section Block

variable {response : Bytes} (starts : kExpectedStatusLine <+: response) (ended : kHeaderTerminator <:+: response)
include starts ended

/-- The lines of the block, none of them empty, and what follows the block. -/
theorem block_split : ∃ rest, response = joinLines (blockLines response) ++ (kCrLf ++ rest) ∧
    (∀ line ∈ blockLines response, IsLine line) ∧
    (joinLines (blockLines response)).length = blockEnd response + 2 := by
  have found := findBytes_blockEnd ended
  have inside := length_of_findBytes found
  obtain ⟨rest, whole⟩ := findBytes_split found
  obtain ⟨first, others, split, joined, unbroken⟩ := splitLines_cut (response.take (blockEnd response))
  have lines : blockLines response = first :: others := split
  have cut : response = joinLines (blockLines response) ++ (kCrLf ++ rest) := by
    rw [lines, joined, List.append_assoc]
    exact whole
  have length : (joinLines (blockLines response)).length = blockEnd response + 2 := by
    rw [lines, joined, List.length_append, List.length_take, Nat.min_eq_left (by omega)]
    rfl
  refine ⟨rest, cut, fun line member => ⟨?_, ?_⟩, length⟩
  · rintro rfl
    obtain ⟨before, after, around⟩ := List.append_of_mem member
    rw [around] at cut length
    -- an empty line behind another one would end the block there
    rcases List.eq_nil_or_concat before with rfl | ⟨earlier, last, rfl⟩
    · rw [cut] at starts
      exact absurd (List.cons_prefix_cons.mp starts).1 (by decide)
    · obtain ⟨index, early, foundEarly⟩ := findBytes_of_occurrence kHeaderTerminator (joinLines earlier ++ last)
        (joinLines after ++ (kCrLf ++ rest))
      have same : response = joinLines earlier ++ last ++ (kHeaderTerminator ++ (joinLines after ++ (kCrLf ++ rest))) := by
        rw [cut]
        simp [joinLines, kHeaderTerminator, kCrLf]
      rw [← same, found, Option.some.injEq] at foundEarly
      simp only [joinLines, List.concat_eq_append, List.flatMap_append, List.flatMap_cons, List.flatMap_nil, List.length_append,
        List.length_nil, show kCrLf.length = 2 from rfl] at length early
      omega
  · rw [lines] at member
    exact unbroken line member

/-- The first line begins like the response. -/
theorem status_line : ∃ status others, blockLines response = status :: others ∧ kExpectedStatusLine <+: status := by
  obtain ⟨rest, cut, isLine, -⟩ := block_split starts ended
  obtain ⟨status, others, split, -, -⟩ := splitLines_cut (response.take (blockEnd response))
  have lines : blockLines response = status :: others := split
  refine ⟨status, others, lines, ?_⟩
  rw [lines, joinLines_cons] at cut
  simp only [List.append_assoc] at cut
  have front : status <+: response := ⟨_, cut.symm⟩
  rcases Nat.le_total kExpectedStatusLine.length status.length with long | short
  · exact List.prefix_of_prefix_length_le starts front long
  · -- a shorter line would put a line break into the expected text
    rcases Nat.eq_or_lt_of_le short with same | less
    · exact List.prefix_of_prefix_length_le starts front (Nat.le_of_eq same.symm)
    · have further : status ++ [13] <+: response := ⟨_, by rw [List.append_assoc]; exact cut.symm⟩
      have inside := List.prefix_of_prefix_length_le further starts (by rw [List.length_append]; exact less)
      exact absurd (inside.subset (List.mem_append_right _ List.mem_cons_self)) (by decide)

/-- At the beginning of a line, or of the empty line, the next line break is the line's own. -/
theorem findFrom_block {before after : List Bytes} (split : blockLines response = before ++ after) :
    findFrom response kCrLf (joinLines before).length = (joinLines before).length + (after.headD []).length ∧
      (joinLines before).length + (after.headD []).length + 2 ≤ blockEnd response + 4 := by
  obtain ⟨rest, cut, isLine, length⟩ := block_split starts ended
  rw [split] at cut isLine length
  cases after with
  | nil =>
      rw [List.append_nil] at cut length
      refine ⟨?_, by rw [length]; exact Nat.le_refl _⟩
      rw [cut]
      exact findFrom_line (by decide : ¬ kCrLf <:+: []) _ rest
  | cons line later =>
      have whole : response = joinLines before ++ (line ++ (kCrLf ++ (joinLines later ++ (kCrLf ++ rest)))) := by
        rw [cut, joinLines_append, joinLines_cons]
        simp only [List.append_assoc]
      have unbroken := (isLine line (List.mem_append_right _ List.mem_cons_self)).unbroken
      refine ⟨?_, ?_⟩
      · rw [whole]
        exact findFrom_line unbroken _ _
      · rw [joinLines_append, List.length_append, length_joinLines_cons] at length
        rw [List.headD_cons]
        omega

theorem visits_block (word : response.length < 2 ^ 64) {name : Bytes} {pos : Nat} (visits : Visits response name pos) :
    ∃ before after, blockLines response = before ++ after ∧ pos = (joinLines before).length := by
  induction visits with
  | start => exact ⟨[], _, rfl, rfl⟩
  | next _ _ nonempty _ ih =>
      obtain ⟨before, after, split, rfl⟩ := ih
      obtain ⟨found, within⟩ := findFrom_block starts ended split
      have bound := length_of_findBytes (findBytes_blockEnd ended)
      rw [show kHeaderTerminator.length = 4 from rfl] at bound
      cases after with
      | nil =>
          refine absurd ?_ nonempty
          rw [List.headD_nil, List.length_nil, Nat.add_zero] at found
          rw [lineAt, found, sizeSub_eq le_rfl (by omega), Nat.sub_self]
          rfl
      | cons line later =>
          refine ⟨before ++ [line], later, by simp [split], ?_⟩
          rw [List.headD_cons] at found within
          rw [found, show kCrLf.length = 2 from rfl, sizeAdd_eq (by omega), joinLines_append, List.length_append,
            length_joinLines_cons]
          rfl

/-- The lookup gives the first header of the name, whatever follows the block. -/
theorem findHeader_block (name : Bytes) {more : Bytes}
    (small : (response.take (blockEnd response + 4) ++ more).length < 2 ^ 64) :
    findHeader (response.take (blockEnd response + 4) ++ more) name =
      .ok (((blockLines response).find? (isHeader name)).map lineValue) := by
  obtain ⟨rest, cut, isLine, length⟩ := block_split starts ended
  have block : response.take (blockEnd response + 4) = joinLines (blockLines response) ++ kCrLf := by
    have size : (joinLines (blockLines response) ++ kCrLf).length = blockEnd response + 4 := by
      rw [List.length_append, length]
      rfl
    rw [← size]
    nth_rewrite 2 [cut]
    rw [← List.append_assoc, List.take_left]
  rw [block] at small ⊢
  have enough : (blockLines response).length < (joinLines (blockLines response) ++ kCrLf ++ more).length + 1 := by
    refine Nat.lt_succ_of_le ((length_le_joinLines _).trans ?_)
    rw [List.append_assoc, List.length_append]
    exact Nat.le_add_right _ _
  exact findHeaderFrom_lines isLine name [] more enough (by rw [List.nil_append, List.append_assoc]) small

end Block

/-- A status line has no header name: its first word has a slash. -/
theorem isHeader_status {name status : Bytes} (starts : kExpectedStatusLine <+: status) (token : 47 ∉ name) :
    isHeader name status = false := by
  rw [← Bool.not_eq_true, isHeader_iff]
  rintro ⟨front, rest, rfl, -, rfl⟩
  rcases Nat.lt_or_ge front.length kExpectedStatusLine.length with short | long
  · have further : front ++ [kColon] <+: front ++ kColon :: rest := ⟨rest, by simp⟩
    have inside := List.prefix_of_prefix_length_le further starts (by rw [List.length_append]; exact short)
    exact absurd (inside.subset (List.mem_append_right _ List.mem_cons_self)) (by decide)
  · have inside := List.prefix_of_prefix_length_le starts ⟨_, rfl⟩ long
    have slash : (47 : UInt8) ∈ front := inside.subset (by decide)
    exact token (List.mem_map.mpr ⟨47, slash, by decide⟩)

/-- In a response with a complete header block every line break that is looked for is
found inside the block, what follows the block makes no difference, and the first
header of the name is returned; the status line is never one. -/
theorem header_lookup_confined {response : Bytes} (word : response.length < 2 ^ 64)
    (starts : kExpectedStatusLine <+: response) (ended : kHeaderTerminator <:+: response) {name : Bytes}
    (lower : toLower name = name) :
    (∀ pos, Visits response name pos → findFrom response kCrLf pos ≠ npos ∧ pos ≤ findFrom response kCrLf pos ∧
      findFrom response kCrLf pos + kCrLf.length ≤ blockEnd response + kHeaderTerminator.length) ∧
    (∀ more, (response.take (blockEnd response + kHeaderTerminator.length) ++ more).length < 2 ^ 64 →
      findHeader (response.take (blockEnd response + kHeaderTerminator.length) ++ more) name = findHeader response name) ∧
    findHeader response name = .ok (((blockLines response).find? (isHeader (toLower name))).map lineValue) ∧
    (47 ∉ name →
      findHeader response name = .ok (((blockLines response).tail.find? (isHeader (toLower name))).map lineValue)) := by
  have bound := length_of_findBytes (findBytes_blockEnd ended)
  have found : findHeader response name = .ok (((blockLines response).find? (isHeader name)).map lineValue) := by
    have whole := List.take_append_drop (blockEnd response + 4) response
    have looked := findHeader_block starts ended name (whole.symm ▸ word)
    rwa [whole] at looked
  rw [lower, found]
  refine ⟨fun pos visits => ?_, fun more small => findHeader_block starts ended name small, rfl, fun token => ?_⟩
  · obtain ⟨before, after, split, rfl⟩ := visits_block starts ended word visits
    obtain ⟨lineEnd, within⟩ := findFrom_block starts ended split
    rw [show kHeaderTerminator.length = 4 from rfl] at bound
    rw [lineEnd, npos]
    exact ⟨by omega, Nat.le_add_right _ _, within⟩
  · obtain ⟨status, others, lines, expected⟩ := status_line starts ended
    rw [lines, List.find?_cons_of_neg (by rw [isHeader_status expected token]; exact Bool.false_ne_true), List.tail_cons]

/-!
## The handshake ends
-/

theorem terminator_of_found {response : Bytes} (found : findFrom response kHeaderTerminator 0 ≠ npos) :
    kHeaderTerminator <:+: response := by
  rw [findFrom, if_pos (Nat.zero_le _), List.drop_zero] at found
  cases here : findBytes kHeaderTerminator response with
  | none =>
      rw [here] at found
      exact absurd rfl found
  | some index =>
      obtain ⟨rest, split⟩ := findBytes_split here
      exact ⟨response.take index, rest, by rw [List.append_assoc]; exact split.symm⟩

theorem readUntilTerminator_ne_outOfFuel {reads : List Bytes} {fuel : Nat} (enough : reads.length < fuel) {part written : Bytes}
    {exception : Exn} {next : Transport} (threw : readUntilTerminator fuel part ⟨reads, written⟩ = .error exception next) :
    exception ≠ .outOfFuel := by
  induction reads generalizing fuel part with
  | nil =>
      obtain ⟨fuel, rfl⟩ : ∃ more, fuel = more + 1 := ⟨fuel - 1, by omega⟩
      rw [readUntilTerminator] at threw
      split at threw
      · cases threw
      · cases threw
        exact fun same => by cases same
  | cons read rest ih =>
      obtain ⟨fuel, rfl⟩ : ∃ more, fuel = more + 1 := ⟨fuel - 1, by omega⟩
      rw [readUntilTerminator] at threw
      split at threw
      · cases threw
      · exact ih (by simpa using enough) threw

theorem readUntilTerminator_ok {reads : List Bytes} {fuel : Nat} {part written response : Bytes} {next : Transport}
    (ran : readUntilTerminator fuel part ⟨reads, written⟩ = .ok response next) :
    kHeaderTerminator <:+: response ∧ response.length ≤ part.length + reads.flatten.length := by
  induction reads generalizing fuel part with
  | nil =>
      cases fuel with
      | zero => cases ran
      | succ fuel =>
          rw [readUntilTerminator] at ran
          split at ran
          · rename_i found
            cases ran
            exact ⟨terminator_of_found found, Nat.le_add_right _ _⟩
          · cases ran
  | cons read rest ih =>
      cases fuel with
      | zero => cases ran
      | succ fuel =>
          rw [readUntilTerminator] at ran
          split at ran
          · rename_i found
            cases ran
            exact ⟨terminator_of_found found, Nat.le_add_right _ _⟩
          · obtain ⟨ended, bounded⟩ := ih ran
            refine ⟨ended, ?_⟩
            rw [List.length_append] at bounded
            rw [List.flatten_cons, List.length_append]
            omega

/-- The checks of a complete response end with a result or an exception of their own. -/
theorem checkHandshakeResponse_ne_outOfFuel {response : Bytes} (word : response.length < 2 ^ 64)
    (ended : kHeaderTerminator <:+: response) (accept : Bytes) :
    checkHandshakeResponse accept response ≠ .error .outOfFuel := by
  unfold checkHandshakeResponse
  split
  · exact fun same => by cases same
  · rename_i starts
    have whole := List.take_append_drop (blockEnd response + 4) response
    have expected : kExpectedStatusLine <+: response := by simpa using starts
    have looked := findHeader_block expected ended kAcceptHeaderName (whole.symm ▸ word)
    rw [whole] at looked
    rw [looked]
    cases ((blockLines response).find? (isHeader kAcceptHeaderName)).map lineValue with
    | none => exact fun same => by cases same
    | some value =>
        change (if value ≠ accept then _ else _) ≠ _
        split
        · exact fun same => by cases same
        · exact fun same => by cases same

theorem performWebSocketHandshake_ne_outOfFuel {host path : Text} {extraHeaders : List Text} {key : Bytes}
    {expectedAccept : Bytes → Bytes} {reads : List Bytes} (bounded : reads.flatten.length < 2 ^ 64) {exception : Exn}
    {next : Transport}
    (threw : performWebSocketHandshake host path extraHeaders key expectedAccept ⟨reads, []⟩ = .error exception next) :
    exception ≠ .outOfFuel := by
  rw [performWebSocketHandshake, Transport.write, run_bind_ok (run_modify _ _), readHandshakeResponse, bind_assoc,
    run_bind_ok (run_get _)] at threw
  rcases of_bind_error threw with early | ⟨response, middle, ran, late⟩
  · exact readUntilTerminator_ne_outOfFuel (Nat.lt_succ_self _) early
  · obtain ⟨ended, short⟩ := readUntilTerminator_ok ran
    have word : response.length < 2 ^ 64 := by
      rw [List.length_nil, Nat.zero_add] at short
      exact Nat.lt_of_le_of_lt short bounded
    have checked := checkHandshakeResponse_ne_outOfFuel word ended (expectedAccept key)
    rw [run_lift] at late
    cases result : checkHandshakeResponse (expectedAccept key) response with
    | ok value =>
        rw [result] at late
        cases late
    | error other =>
        rw [result] at late checked
        cases late
        exact fun same => checked (by rw [same])

def sampleResponse : Bytes :=
  toBytes "HTTP/1.1 101 Switching Protocols\r\nUpgrade: websocket\r\nSec-WebSocket-Accept:  abc\r\n\r\nUpgrade: later".toList

theorem header_lookup_confined_accept :
    kAcceptHeaderName = toLower kAcceptHeaderName ∧
      findHeader sampleResponse kAcceptHeaderName = .ok (some (toBytes "abc".toList)) := by
  have confined := @header_lookup_confined sampleResponse (by decide +kernel) (by decide +kernel) (by decide +kernel)
    kAcceptHeaderName (by decide +kernel)
  refine ⟨by decide +kernel, confined.2.2.1.trans ?_⟩
  decide +kernel

end TradingEngine
