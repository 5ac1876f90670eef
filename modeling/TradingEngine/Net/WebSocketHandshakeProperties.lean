import TradingEngine.Net.WebSocketHandshake

/-! Upgrade responses. A valid response is accepted with whatever bytes came behind it
in the read that completed it. -/

set_option autoImplicit false

namespace TradingEngine

open Library.Exec

/-!
## Finding
-/

theorem length_of_findBytes {pattern text : Bytes} {index : Nat} (found : findBytes pattern text = some index) :
    index + pattern.length ≤ text.length := by
  induction text generalizing index with
  | nil =>
      rw [findBytes] at found
      split at found
      · rename_i empty
        cases found
        simp [empty]
      · cases found
  | cons byte rest ih =>
      rw [findBytes] at found
      split at found
      · rename_i here
        cases found
        simpa using (List.isPrefixOf_iff_prefix.mp here).length_le
      · obtain ⟨later, foundLater, rfl⟩ := Option.map_eq_some_iff.mp found
        have := ih foundLater
        simp only [List.length_cons]
        omega

/-- What was found stays found where it was when more text follows. -/
theorem findBytes_append {pattern text : Bytes} {index : Nat} (found : findBytes pattern text = some index)
    (more : Bytes) : findBytes pattern (text ++ more) = some index := by
  have inside := length_of_findBytes found
  induction text generalizing index with
  | nil =>
      rw [findBytes] at found
      split at found
      · rename_i empty
        cases found
        subst empty
        cases more <;> rfl
      · cases found
  | cons byte rest ih =>
      rw [findBytes] at found
      rw [List.cons_append, findBytes]
      split at found
      · rename_i here
        cases found
        have further : pattern <+: byte :: (rest ++ more) :=
          (List.isPrefixOf_iff_prefix.mp here).trans (List.prefix_append (byte :: rest) more)
        rw [if_pos (List.isPrefixOf_iff_prefix.mpr further)]
      · rename_i absent
        obtain ⟨later, foundLater, rfl⟩ := Option.map_eq_some_iff.mp found
        have shorter := length_of_findBytes foundLater
        have still : ¬ pattern.isPrefixOf (byte :: (rest ++ more)) = true := by
          intro here
          refine absent (List.isPrefixOf_iff_prefix.mpr ?_)
          refine List.prefix_of_prefix_length_le (List.isPrefixOf_iff_prefix.mp here)
            (List.prefix_append (byte :: rest) more) ?_
          simp only [List.length_cons]
          omega
        rw [if_neg still, ih foundLater shorter]
        rfl

/-- A line without a break does not begin with one, also with the break behind it. -/
theorem not_crlf_first {byte : UInt8} {line : Bytes} (unbroken : ¬ kCrLf <:+: byte :: line) (rest : Bytes) :
    ¬ kCrLf <+: byte :: (line ++ (kCrLf ++ rest)) := by
  intro front
  cases line with
  | nil =>
      -- a carriage return followed by the one of the break
      have second : (10 : UInt8) = 13 := (List.cons_prefix_cons.mp (List.cons_prefix_cons.mp front).2).1
      cases second
  | cons next line =>
      refine unbroken (List.IsPrefix.isInfix ?_)
      obtain ⟨first, later⟩ := List.cons_prefix_cons.mp front
      obtain ⟨second, -⟩ := List.cons_prefix_cons.mp later
      rw [← first, ← second]
      exact ⟨line, rfl⟩

theorem unbroken_tail {byte : UInt8} {line : Bytes} (unbroken : ¬ kCrLf <:+: byte :: line) : ¬ kCrLf <:+: line :=
  fun inside => unbroken (inside.trans (List.suffix_cons byte line).isInfix)

/-- The first line break is behind a line that has none. -/
theorem findBytes_crlf {line : Bytes} (unbroken : ¬ kCrLf <:+: line) (rest : Bytes) :
    findBytes kCrLf (line ++ (kCrLf ++ rest)) = some line.length := by
  induction line with
  | nil => rfl
  | cons byte line ih =>
      have absent : ¬ kCrLf.isPrefixOf (byte :: (line ++ (kCrLf ++ rest))) = true :=
        fun here => not_crlf_first unbroken rest (List.isPrefixOf_iff_prefix.mp here)
      rw [List.cons_append, findBytes, if_neg absent, ih (unbroken_tail unbroken)]
      rfl

/-- The end of the header block is not in a line that another one follows. -/
theorem findBytes_terminator_line {line : Bytes} (unbroken : ¬ kCrLf <:+: line) {rest : Bytes}
    (follows : ¬ kCrLf <+: rest) :
    findBytes kHeaderTerminator (line ++ (kCrLf ++ rest)) =
      (findBytes kHeaderTerminator rest).map (· + (line ++ kCrLf).length) := by
  induction line with
  | nil =>
      have absent : ¬ kHeaderTerminator.isPrefixOf (13 :: 10 :: rest) = true := by
        intro here
        obtain ⟨-, later⟩ := List.cons_prefix_cons.mp (List.isPrefixOf_iff_prefix.mp here)
        exact follows (List.cons_prefix_cons.mp later).2
      have second : ¬ kHeaderTerminator.isPrefixOf (10 :: rest) = true := by
        intro here
        have first : (13 : UInt8) = 10 := (List.cons_prefix_cons.mp (List.isPrefixOf_iff_prefix.mp here)).1
        cases first
      have whole : ([] : Bytes) ++ (kCrLf ++ rest) = 13 :: 10 :: rest := rfl
      rw [whole, findBytes, if_neg absent, findBytes, if_neg second, Option.map_map]
      rfl
  | cons byte line ih =>
      have absent : ¬ kHeaderTerminator.isPrefixOf (byte :: (line ++ (kCrLf ++ rest))) = true := by
        intro here
        refine not_crlf_first unbroken rest (List.IsPrefix.trans ?_ (List.isPrefixOf_iff_prefix.mp here))
        exact ⟨kCrLf, rfl⟩
      rw [List.cons_append, findBytes, if_neg absent, ih (unbroken_tail unbroken), Option.map_map]
      rfl

theorem findBytes_byte_of_notMem {byte : UInt8} {text : Bytes} (absent : byte ∉ text) : findBytes [byte] text = none := by
  induction text with
  | nil => rfl
  | cons first text ih =>
      rw [List.mem_cons, not_or] at absent
      have different : ¬ [byte].isPrefixOf (first :: text) = true := by simpa using absent.1
      rw [findBytes, if_neg different, ih absent.2]
      rfl

theorem findBytes_byte {byte : UInt8} {front : Bytes} (absent : byte ∉ front) (rest : Bytes) :
    findBytes [byte] (front ++ byte :: rest) = some front.length := by
  induction front with
  | nil => simp [findBytes]
  | cons first front ih =>
      rw [List.mem_cons, not_or] at absent
      have different : ¬ [byte].isPrefixOf (first :: (front ++ byte :: rest)) = true := by simpa using absent.1
      rw [List.cons_append, findBytes, if_neg different, ih absent.2]
      rfl

/-!
## Responses
-/

/-- A line of the header block. -/
structure IsLine (line : Bytes) : Prop where
  nonempty : line ≠ []
  unbroken : ¬ kCrLf <:+: line

instance (line : Bytes) : Decidable (IsLine line) :=
  decidable_of_iff (line ≠ [] ∧ ¬ kCrLf <:+: line) ⟨fun holds => ⟨holds.1, holds.2⟩, fun isLine => ⟨isLine.1, isLine.2⟩⟩

/-- The line is a header of this name, given in lower case. -/
def Names (name line : Bytes) : Prop :=
  ∃ front rest, line = front ++ kColon :: rest ∧ kColon ∉ front ∧ toLower front = name

theorem Names.colon_mem {name line : Bytes} (names : Names name line) : kColon ∈ line := by
  obtain ⟨front, rest, rfl, -⟩ := names
  exact List.mem_append_right _ List.mem_cons_self

def headerLine (name : Bytes) (blanks : Nat) (value : Bytes) : Bytes :=
  name ++ kColon :: (List.replicate blanks kWhitespace ++ value)

def joinLines (lines : List Bytes) : Bytes := lines.flatMap (· ++ kCrLf)

/-- An upgrade response that grants the key `accept` is the digest of. -/
structure UpgradeResponse (accept : Bytes) where
  /-- What follows the expected beginning of the status line. -/
  status : Bytes
  leading : List Bytes
  name : Bytes
  blanks : Nat
  trailing : List Bytes
  lines : ∀ line ∈ (kExpectedStatusLine ++ status) :: leading ++ headerLine name blanks accept :: trailing, IsLine line
  named : toLower name = kAcceptHeaderName
  first : ∀ line ∈ (kExpectedStatusLine ++ status) :: leading, ¬ Names kAcceptHeaderName line
  trimmed : accept.head? ≠ some kWhitespace

namespace UpgradeResponse

variable {accept : Bytes}

def before (response : UpgradeResponse accept) : List Bytes := (kExpectedStatusLine ++ response.status) :: response.leading

def bytes (response : UpgradeResponse accept) : Bytes :=
  joinLines (response.before ++ headerLine response.name response.blanks accept :: response.trailing) ++ kCrLf

end UpgradeResponse

theorem findFrom_line {line : Bytes} (unbroken : ¬ kCrLf <:+: line) (front rest : Bytes) :
    findFrom (front ++ (line ++ (kCrLf ++ rest))) kCrLf front.length = front.length + line.length := by
  rw [findFrom, if_pos (by simp), List.drop_left, findBytes_crlf unbroken]
  exact Nat.add_comm _ _

/-- One round of the loop of `FindHeader`. -/
theorem findHeaderFrom_line {line : Bytes} (isLine : IsLine line) (name front rest : Bytes) (fuel : Nat)
    (bounded : (front ++ (line ++ (kCrLf ++ rest))).length < 2 ^ 64) :
    findHeaderFrom (front ++ (line ++ (kCrLf ++ rest))) name (fuel + 1) front.length =
      if findFrom line [kColon] 0 ≠ npos ∧ toLower (line.take (findFrom line [kColon] 0)) = name then
        .ok (some (headerValue line (findFrom line [kColon] 0)))
      else findHeaderFrom (front ++ (line ++ (kCrLf ++ rest))) name fuel (front ++ (line ++ kCrLf)).length := by
  have inside : front.length < (front ++ (line ++ (kCrLf ++ rest))).length := by
    have := List.length_pos_iff.mpr isLine.nonempty
    simp only [List.length_append]
    omega
  simp only [List.length_append, show kCrLf.length = 2 from rfl] at bounded
  have size : sizeSub (front.length + line.length) front.length = line.length := by
    rw [sizeSub_eq (Nat.le_add_right _ _) (by omega), Nat.add_sub_cancel_left]
  have here : substrBytes (front ++ (line ++ (kCrLf ++ rest))) front.length line.length = line := by
    rw [substrBytes, List.drop_left, List.take_left]
  have next : sizeAdd (front.length + line.length) kCrLf.length = (front ++ (line ++ kCrLf)).length := by
    rw [show kCrLf.length = 2 from rfl, sizeAdd_eq (by omega)]
    simp only [List.length_append, show kCrLf.length = 2 from rfl]
    omega
  rw [findHeaderFrom, if_pos inside]
  simp only [findFrom_line isLine.unbroken, size, here, next, isLine.nonempty, if_false]

theorem findFrom_colon {front : Bytes} (absent : kColon ∉ front) (rest : Bytes) :
    findFrom (front ++ kColon :: rest) [kColon] 0 = front.length := by
  rw [findFrom, if_pos (Nat.zero_le _), List.drop_zero, findBytes_byte absent]
  rfl

/-- The text of a line before its first colon, all of it where there is none. -/
def lineName (line : Bytes) : Bytes := line.takeWhile (· ≠ kColon)

/-- What follows the first colon, without its leading blanks. -/
def lineValue (line : Bytes) : Bytes := headerValue line (lineName line).length

/-- The line has a name, and it is this one in lower case. -/
def isHeader (name line : Bytes) : Bool := kColon ∈ line ∧ toLower (lineName line) = name

theorem lineName_append {front : Bytes} (absent : kColon ∉ front) (rest : Bytes) : lineName (front ++ kColon :: rest) = front := by
  have plain : ∀ byte ∈ front, decide (byte ≠ kColon) = true := fun byte member =>
    decide_eq_true fun same => absent (same ▸ member)
  rw [lineName, List.takeWhile_append_of_pos plain]
  simp

theorem isHeader_iff {name line : Bytes} : isHeader name line = true ↔ Names name line := by
  rw [isHeader, decide_eq_true_iff]
  constructor
  · rintro ⟨present, named⟩
    obtain ⟨front, rest, rfl, absent⟩ := List.eq_append_cons_of_mem present
    rw [lineName_append absent] at named
    exact ⟨front, rest, rfl, absent, named⟩
  · rintro ⟨front, rest, rfl, absent, named⟩
    rw [lineName_append absent]
    exact ⟨List.mem_append_right _ List.mem_cons_self, named⟩

/-- The test of the loop is whether the line is the header. -/
theorem header_test {line : Bytes} (bounded : line.length < 2 ^ 64) (name : Bytes) :
    (findFrom line [kColon] 0 ≠ npos ∧ toLower (line.take (findFrom line [kColon] 0)) = name ↔ isHeader name line = true) ∧
      (isHeader name line = true → findFrom line [kColon] 0 = (lineName line).length) := by
  rw [isHeader, decide_eq_true_iff]
  by_cases present : kColon ∈ line
  · obtain ⟨front, rest, rfl, absent⟩ := List.eq_append_cons_of_mem present
    rw [findFrom_colon absent, lineName_append absent, List.take_left]
    have small : front.length ≠ npos := by
      rw [List.length_append, List.length_cons] at bounded
      unfold npos
      omega
    exact ⟨and_congr_left' (iff_of_true small present), fun _ => rfl⟩
  · have missing : findFrom line [kColon] 0 = npos := by
      rw [findFrom, if_pos (Nat.zero_le _), List.drop_zero, findBytes_byte_of_notMem present]
      rfl
    exact ⟨iff_of_false (fun found => found.1 missing) fun found => present found.1, fun found => absurd found.1 present⟩

/-- The value behind the blanks. -/
theorem headerValue_headerLine (name value : Bytes) (blanks : Nat) (trimmed : value.head? ≠ some kWhitespace) :
    headerValue (headerLine name blanks value) name.length = value := by
  have behind : (headerLine name blanks value).drop (name.length + 1) = List.replicate blanks kWhitespace ++ value := by
    rw [headerLine, ← List.drop_drop, List.drop_left]
    rfl
  rw [headerValue, behind, List.dropWhile_append_of_pos (by simp)]
  cases value with
  | nil => rfl
  | cons first value =>
      have different : first ≠ kWhitespace := by simpa using trimmed
      rw [List.dropWhile_cons_of_neg (by simpa using different)]

theorem colon_notMem_of_toLower {name lower : Bytes} (named : toLower name = lower) (absent : kColon ∉ lower) :
    kColon ∉ name := by
  intro present
  refine absent (named ▸ List.mem_map.mpr ⟨kColon, present, ?_⟩)
  decide

theorem joinLines_cons (line : Bytes) (lines : List Bytes) : joinLines (line :: lines) = line ++ kCrLf ++ joinLines lines := rfl

theorem joinLines_append (first second : List Bytes) : joinLines (first ++ second) = joinLines first ++ joinLines second :=
  List.flatMap_append

/-- The loop ends at the blank line. -/
theorem findHeaderFrom_blank (name front rest : Bytes) (fuel : Nat) (bounded : (front ++ (kCrLf ++ rest)).length < 2 ^ 64) :
    findHeaderFrom (front ++ (kCrLf ++ rest)) name (fuel + 1) front.length = .ok none := by
  have here : findFrom (front ++ (kCrLf ++ rest)) kCrLf front.length = front.length :=
    findFrom_line (by decide : ¬ kCrLf <:+: []) front rest
  rw [List.length_append] at bounded
  have size : sizeSub front.length front.length = 0 := by rw [sizeSub_eq le_rfl (by omega), Nat.sub_self]
  rw [findHeaderFrom, if_pos (by simp [kCrLf])]
  simp only [here, size, substrBytes, List.take_zero, if_true]

/-- The loop returns the value of the first header of the name in the block. -/
theorem findHeaderFrom_lines {lines : List Bytes} (isLine : ∀ line ∈ lines, IsLine line) (name front rest : Bytes)
    {fuel : Nat} (enough : lines.length < fuel) {text : Bytes} (whole : text = front ++ (joinLines lines ++ (kCrLf ++ rest)))
    (bounded : text.length < 2 ^ 64) :
    findHeaderFrom text name fuel front.length = .ok ((lines.find? (isHeader name)).map lineValue) := by
  induction lines generalizing front fuel with
  | nil =>
      obtain ⟨fuel, rfl⟩ : ∃ more, fuel = more + 1 := ⟨fuel - 1, by omega⟩
      rw [whole] at bounded ⊢
      exact findHeaderFrom_blank name front rest fuel bounded
  | cons line lines ih =>
      obtain ⟨fuel, rfl⟩ : ∃ more, fuel = more + 1 := ⟨fuel - 1, by omega⟩
      rw [List.forall_mem_cons] at isLine
      have split : text = front ++ (line ++ (kCrLf ++ (joinLines lines ++ (kCrLf ++ rest)))) := by
        rw [whole, joinLines_cons]
        simp only [List.append_assoc]
      have round := findHeaderFrom_line isLine.1 name front (joinLines lines ++ (kCrLf ++ rest)) fuel (split ▸ bounded)
      have short : line.length < 2 ^ 64 := by
        rw [split] at bounded
        simp only [List.length_append] at bounded
        omega
      obtain ⟨test, place⟩ := header_test short name
      rw [← split] at round
      simp only [test] at round
      rw [round]
      by_cases here : isHeader name line = true
      · rw [if_pos here, List.find?_cons_of_pos here, place here]
        rfl
      · rw [if_neg here, List.find?_cons_of_neg here]
        refine ih isLine.2 (front ++ (line ++ kCrLf)) (by simpa using enough) ?_
        rw [split]
        simp only [List.append_assoc]

theorem length_joinLines_cons (line : Bytes) (lines : List Bytes) :
    (joinLines (line :: lines)).length = line.length + 2 + (joinLines lines).length := by
  rw [joinLines_cons, List.length_append, List.length_append]
  rfl

theorem length_le_joinLines (lines : List Bytes) : lines.length ≤ (joinLines lines).length := by
  induction lines with
  | nil => exact Nat.zero_le _
  | cons line lines ih =>
      rw [length_joinLines_cons, List.length_cons]
      omega

theorem findBytes_terminator_last {line : Bytes} (unbroken : ¬ kCrLf <:+: line) :
    findBytes kHeaderTerminator (line ++ (kCrLf ++ kCrLf)) = some line.length := by
  induction line with
  | nil => rfl
  | cons byte line ih =>
      have absent : ¬ kHeaderTerminator.isPrefixOf (byte :: (line ++ (kCrLf ++ kCrLf))) = true := by
        intro here
        refine not_crlf_first unbroken kCrLf (List.IsPrefix.trans ?_ (List.isPrefixOf_iff_prefix.mp here))
        exact ⟨kCrLf, rfl⟩
      rw [List.cons_append, findBytes, if_neg absent, ih (unbroken_tail unbroken)]
      rfl

/-- The header block ends where its lines do. -/
theorem findBytes_terminator {line : Bytes} {lines : List Bytes} (isLine : ∀ other ∈ line :: lines, IsLine other) :
    findBytes kHeaderTerminator (joinLines (line :: lines) ++ kCrLf) = some ((joinLines (line :: lines)).length - 2) := by
  induction lines generalizing line with
  | nil =>
      rw [List.forall_mem_cons] at isLine
      rw [length_joinLines_cons, joinLines_cons, joinLines, List.flatMap_nil, List.append_nil, List.append_assoc]
      exact findBytes_terminator_last isLine.1.unbroken
  | cons next lines ih =>
      rw [List.forall_mem_cons] at isLine
      have follows : ¬ kCrLf <+: joinLines (next :: lines) ++ kCrLf := by
        have nextLine := isLine.2 next List.mem_cons_self
        rw [joinLines_cons, List.append_assoc, List.append_assoc]
        cases next with
        | nil => exact absurd rfl nextLine.nonempty
        | cons byte next => exact not_crlf_first nextLine.unbroken _
      rw [joinLines_cons, List.append_assoc, List.append_assoc,
        findBytes_terminator_line isLine.1.unbroken follows, ih isLine.2, Option.map_some]
      congr 1
      simp only [List.length_append, length_joinLines_cons, show kCrLf.length = 2 from rfl]
      omega

/-!
## Reading the response
-/

/-- The reads are cut at the end of `front`. -/
def CutAfter (front : Bytes) (reads : List Bytes) : Prop :=
  ∃ early late, reads = early ++ late ∧ early.flatten = front

theorem cutAfter_cons {front read : Bytes} {reads : List Bytes} (proper : front ≠ []) :
    CutAfter front (read :: reads) ↔ ∃ more, front = read ++ more ∧ CutAfter more reads := by
  constructor
  · rintro ⟨early, late, split, rfl⟩
    cases early with
    | nil => exact absurd rfl proper
    | cons first early =>
        obtain ⟨rfl, rfl⟩ := List.cons.inj split
        exact ⟨early.flatten, rfl, early, late, rfl, rfl⟩
  · rintro ⟨more, rfl, early, late, rfl, rfl⟩
    exact ⟨read :: early, late, rfl, rfl⟩

theorem cutAfter_nil (reads : List Bytes) : CutAfter [] reads := ⟨[], reads, rfl, rfl⟩

namespace UpgradeResponse

variable {accept : Bytes} (response : UpgradeResponse accept)

theorem checked (extra : Bytes) (bounded : (response.bytes ++ extra).length < 2 ^ 63) :
    checkHandshakeResponse accept (response.bytes ++ extra) = .ok .unit := by
  have whole : response.bytes ++ extra = [] ++ (joinLines (response.before ++
      headerLine response.name response.blanks accept :: response.trailing) ++ (kCrLf ++ extra)) := by
    rw [bytes, List.append_assoc, List.nil_append]
  have status : kExpectedStatusLine.isPrefixOf (response.bytes ++ extra) = true := by
    rw [List.isPrefixOf_iff_prefix, whole, UpgradeResponse.before, List.cons_append, joinLines_cons]
    simp only [List.append_assoc, List.nil_append]
    exact List.prefix_append _ _
  have enough : (response.before ++ headerLine response.name response.blanks accept :: response.trailing).length <
      (response.bytes ++ extra).length + 1 := by
    have := length_le_joinLines (response.before ++ headerLine response.name response.blanks accept :: response.trailing)
    refine Nat.lt_succ_of_le (le_trans this ?_)
    rw [whole, List.nil_append, List.length_append]
    exact Nat.le_add_right _ _
  have others : ((kExpectedStatusLine ++ response.status) :: response.leading).find? (isHeader kAcceptHeaderName) = none :=
    List.find?_eq_none.mpr fun line member found => response.first line member (isHeader_iff.mp found)
  have colon := colon_notMem_of_toLower response.named (by decide)
  have named : lineName (headerLine response.name response.blanks accept) = response.name := lineName_append colon _
  have isAccept : isHeader kAcceptHeaderName (headerLine response.name response.blanks accept) = true :=
    isHeader_iff.mpr ⟨_, _, rfl, colon, response.named⟩
  have found : findHeader (response.bytes ++ extra) kAcceptHeaderName = .ok (some accept) := by
    refine (findHeaderFrom_lines response.lines _ [] extra enough whole (by omega)).trans ?_
    rw [List.find?_append, others, Option.none_or, List.find?_cons_of_pos isAccept, Option.map_some, lineValue, named,
      headerValue_headerLine _ _ _ response.trimmed]
  rw [checkHandshakeResponse, status, found]
  simp [bind, Except.bind, pure, Except.pure]

/-- The response ends at its first empty line. -/
theorem ends : findBytes kHeaderTerminator response.bytes = some (response.bytes.length - 4) ∧
    4 ≤ response.bytes.length := by
  have found := findBytes_terminator response.lines
  have size : response.bytes.length = (joinLines (response.before ++
      headerLine response.name response.blanks accept :: response.trailing)).length + 2 := by
    rw [bytes, List.length_append]
    rfl
  have long : 2 ≤ (joinLines (response.before ++
      headerLine response.name response.blanks accept :: response.trailing)).length := by
    rw [before, List.cons_append, length_joinLines_cons]
    omega
  exact ⟨by rw [size]; exact found, by omega⟩

/-- Before its last byte the response is not recognised as complete. -/
theorem findBytes_part {part rest : Bytes} (split : response.bytes = part ++ rest) (proper : rest ≠ []) :
    findBytes kHeaderTerminator part = none := by
  cases found : findBytes kHeaderTerminator part with
  | none => rfl
  | some index =>
      have same := findBytes_append found rest
      have inside := length_of_findBytes found
      rw [← split, response.ends.1, Option.some.injEq] at same
      have more := List.length_pos_iff.mpr proper
      rw [split, List.length_append] at same
      rw [show kHeaderTerminator.length = 4 from rfl] at inside
      omega

theorem findFrom_part {part rest : Bytes} (split : response.bytes = part ++ rest) (proper : rest ≠ []) :
    findFrom part kHeaderTerminator 0 = npos := by
  rw [findFrom, if_pos (Nat.zero_le _), List.drop_zero, response.findBytes_part split proper]
  rfl

theorem findFrom_whole (extra : Bytes) (bounded : (response.bytes ++ extra).length < 2 ^ 63) :
    findFrom (response.bytes ++ extra) kHeaderTerminator 0 ≠ npos := by
  rw [findFrom, if_pos (Nat.zero_le _), List.drop_zero, findBytes_append response.ends.1]
  rw [List.length_append] at bounded
  simp only [Option.map_some, Option.getD_some, npos]
  omega

/-- The loop stops with the read that completes the response, and keeps what came
behind it in that read; nothing did just where the reads are cut there. -/
theorem run_readUntilTerminator (stream : Bytes) (written : Bytes) {reads : List Bytes} {part missing : Bytes}
    (split : response.bytes = part ++ missing) (proper : missing ≠ []) (arrives : reads.flatten = missing ++ stream)
    (bounded : ∀ read ∈ reads, response.bytes.length + read.length < 2 ^ 63) {fuel : Nat}
    (enough : reads.length < fuel) :
    ∃ extra back, readUntilTerminator fuel part ⟨reads, written⟩ = .ok (response.bytes ++ extra) ⟨back, written⟩ ∧
      (response.bytes ++ extra).length < 2 ^ 63 ∧ stream = extra ++ back.flatten ∧
        (extra = [] ↔ CutAfter missing reads) := by
  induction reads generalizing part missing fuel with
  | nil =>
      rw [List.flatten_nil] at arrives
      exact absurd (List.append_eq_nil_iff.mp arrives.symm).1 proper
  | cons read reads ih =>
      obtain ⟨fuel, rfl⟩ : ∃ more, fuel = more + 1 := ⟨fuel - 1, by omega⟩
      have notYet := response.findFrom_part split proper
      rw [List.flatten_cons] at arrives
      have stepped : readUntilTerminator (fuel + 1) part ⟨read :: reads, written⟩ =
          readUntilTerminator fuel (part ++ read) ⟨reads, written⟩ := by
        rw [readUntilTerminator, if_neg (by simpa using notYet)]
        rfl
      rw [stepped, cutAfter_cons proper]
      rw [List.forall_mem_cons] at bounded
      have complete {extra : Bytes} (whole : part ++ read = response.bytes ++ extra)
          (small : (response.bytes ++ extra).length < 2 ^ 63) :
          readUntilTerminator fuel (part ++ read) ⟨reads, written⟩ = .ok (response.bytes ++ extra) ⟨reads, written⟩ := by
        obtain ⟨fuel, rfl⟩ : ∃ more, fuel = more + 1 := ⟨fuel - 1, by rw [List.length_cons] at enough; omega⟩
        rw [whole, readUntilTerminator, if_pos (response.findFrom_whole extra small)]
        rfl
      rcases List.append_eq_append_iff.mp arrives with ⟨more, rfl, later⟩ | ⟨extra, rfl, rest⟩
      · by_cases done : more = []
        · subst done
          have whole : part ++ read = response.bytes ++ [] := by rw [split, List.append_nil, List.append_nil]
          have small : (response.bytes ++ []).length < 2 ^ 63 := by
            rw [List.append_nil]
            exact Nat.lt_of_le_of_lt (Nat.le_add_right _ _) bounded.1
          exact ⟨[], reads, complete whole small, small, later.symm, fun _ => ⟨[], rfl, cutAfter_nil reads⟩, fun _ => rfl⟩
        · have further : response.bytes = part ++ read ++ more := by rw [split, List.append_assoc]
          obtain ⟨extra, back, ran, small, keeps, cut⟩ := ih further done later bounded.2 (by simpa using enough)
          refine ⟨extra, back, ran, small, keeps, cut.trans ⟨fun here => ⟨more, rfl, here⟩, ?_⟩⟩
          rintro ⟨other, same, here⟩
          rwa [List.append_cancel_left same]
      · have whole : part ++ (missing ++ extra) = response.bytes ++ extra := by rw [split, List.append_assoc]
        have small : (response.bytes ++ extra).length < 2 ^ 63 := by
          have := bounded.1
          rw [List.length_append] at this ⊢
          omega
        refine ⟨extra, reads, complete whole small, small, rest, ?_, ?_⟩
        · rintro rfl
          exact ⟨[], by rw [List.append_nil, List.append_nil], cutAfter_nil reads⟩
        · rintro ⟨more, same, -⟩
          rw [List.append_assoc, List.self_eq_append_right] at same
          exact (List.append_eq_nil_iff.mp same).1

/-- The handshake returns; what came behind the response in its last read is gone. -/
theorem run_performWebSocketHandshake (host path : Text) (extraHeaders : List Text) (key : Bytes)
    {expectedAccept : Bytes → Bytes} (digest : expectedAccept key = accept) {stream : Bytes} {reads : List Bytes}
    (arrives : reads.flatten = response.bytes ++ stream)
    (bounded : ∀ read ∈ reads, response.bytes.length + read.length < 2 ^ 63) (written : Bytes) :
    ∃ extra back, performWebSocketHandshake host path extraHeaders key expectedAccept ⟨reads, written⟩ =
        .ok .unit ⟨back, written ++ handshakeRequest host path key extraHeaders⟩ ∧
      stream = extra ++ back.flatten ∧ (extra = [] ↔ CutAfter response.bytes reads) := by
  have nonempty : response.bytes ≠ [] := by
    have := response.ends.2
    intro empty
    rw [empty] at this
    cases this
  obtain ⟨extra, back, ran, small, keeps, cut⟩ := response.run_readUntilTerminator stream
    (written ++ handshakeRequest host path key extraHeaders) (List.nil_append _).symm nonempty arrives bounded
    (Nat.lt_succ_self _)
  have checked := response.checked extra small
  refine ⟨extra, back, ?_, keeps, cut⟩
  rw [performWebSocketHandshake, Transport.write, run_bind_ok (run_modify _ _), readHandshakeResponse, bind_assoc,
    run_bind_ok (run_get _), run_bind_ok ran, digest, checked]
  rfl

end UpgradeResponse

end TradingEngine
