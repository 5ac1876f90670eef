import TradingEngine.Library.SlotArray

/-! A map kept as its best entries only. At most `capacity` entries are held,
ranked by key; an entry beyond that is dropped and never comes back by itself.
Against the unbounded map of the same changes, the best key is wrong just when, since
a still current key was dropped, `capacity` more better entries were erased than added. -/

set_option autoImplicit false

namespace TradingEngine.Library.BoundedRanking

open SlotArray

variable {K V : Type} [DecidableEq K] (before : K → K → Prop) [DecidableRel before]

def keys (entries : List (K × V)) : List K := entries.map Prod.fst

/-- The entries ranked before a key. -/
def ranksBefore (key : K) (entry : K × V) : Bool := before entry.1 key

def insertRanked (key : K) (value : V) (entries : List (K × V)) : List (K × V) :=
  entries.takeWhile (ranksBefore before key) ++ (key, value) :: entries.dropWhile (ranksBefore before key)

def overwrite (key : K) (value : V) (entries : List (K × V)) : List (K × V) :=
  entries.map fun entry => if entry.1 = key then (key, value) else entry

def assign (capacity : Nat) (key : K) (value : V) (entries : List (K × V)) : List (K × V) :=
  if key ∈ keys entries then overwrite key value entries
  else (insertRanked before key value entries).take capacity

def erase (key : K) (entries : List (K × V)) : List (K × V) :=
  entries.filter fun entry => entry.1 ≠ key

/-- Sorted best first, with distinct keys. -/
def Ranked (entries : List (K × V)) : Prop :=
  entries.Pairwise fun left right => before left.1 right.1

inductive Change (K V : Type) where
  | assign (key : K) (value : V)
  | erase (key : K)

/-- The bounded entries beside the unbounded map and, for each key, how many entries
ranked before it were erased since it was last dropped for lack of room, less those
added. -/
structure Tracked (K V : Type) where
  entries : List (K × V)
  reference : K → Option V
  netErased : K → Nat

def Tracked.empty : Tracked K V := ⟨[], fun _ => none, fun _ => 0⟩

def Tracked.apply (capacity : Nat) (tracked : Tracked K V) : Change K V → Tracked K V
  | .assign key value =>
      let kept := assign before capacity key value tracked.entries
      { entries := kept
        reference := Function.update tracked.reference key (some value)
        netErased := fun other =>
          if other ∈ key :: keys tracked.entries ∧ other ∉ keys kept then 0
          else if key ∉ keys tracked.entries ∧ before key other then tracked.netErased other - 1
          else tracked.netErased other }
  | .erase key =>
      { entries := erase key tracked.entries
        reference := Function.update tracked.reference key none
        netErased := fun other =>
          if key ∈ keys tracked.entries ∧ before key other then tracked.netErased other + 1
          else tracked.netErased other }

def Tracked.Missing (tracked : Tracked K V) (key : K) : Prop :=
  tracked.reference key ≠ none ∧ key ∉ keys tracked.entries

structure Tracked.Valid (capacity : Nat) (tracked : Tracked K V) : Prop where
  ranked : Ranked before tracked.entries
  bounded : tracked.entries.length ≤ capacity
  agrees : ∀ entry ∈ tracked.entries, tracked.reference entry.1 = some entry.2
  covered : ∀ key, tracked.Missing key →
    capacity = tracked.entries.countP (ranksBefore before key) + tracked.netErased key

/-- The best key of a map: present, and ranked before every other present key. -/
def IsBest (reference : K → Option V) (key : K) : Prop :=
  reference key ≠ none ∧ ∀ other, reference other ≠ none → other = key ∨ before key other

omit [DecidableEq K] [DecidableRel before] in
theorem ranked_iff_keys (entries : List (K × V)) :
    Ranked before entries ↔ (keys entries).Pairwise before := by
  rw [keys, List.pairwise_map, Ranked]

omit [DecidableEq K] in
theorem countP_eq_keys (key : K) (entries : List (K × V)) :
    entries.countP (ranksBefore before key) = (keys entries).countP fun other => before other key := by
  rw [keys, List.countP_map]
  rfl

@[simp] theorem keys_overwrite (key : K) (value : V) (entries : List (K × V)) :
    keys (overwrite key value entries) = keys entries := by
  simp only [keys, overwrite, List.map_map]
  apply List.map_congr_left
  intro entry _
  by_cases same : entry.1 = key <;> simp [same]

omit [DecidableEq K] in
theorem insertRanked_perm (key : K) (value : V) (entries : List (K × V)) :
    (insertRanked before key value entries).Perm ((key, value) :: entries) := by
  have split := List.takeWhile_append_dropWhile (p := ranksBefore before key) (l := entries)
  conv_rhs => rw [← split]
  exact List.perm_middle

theorem mem_assign {capacity : Nat} {key : K} {value : V} {entries : List (K × V)} {entry : K × V}
    (member : entry ∈ assign before capacity key value entries) : entry = (key, value) ∨ entry ∈ entries := by
  unfold assign at member
  split at member
  · obtain ⟨old, oldMember, rfl⟩ := List.mem_map.mp member
    by_cases same : old.1 = key
    · exact .inl (if_pos same)
    · rw [if_neg same]
      exact .inr oldMember
  · exact List.mem_cons.mp ((insertRanked_perm before key value entries).mem_iff.mp (List.mem_of_mem_take member))

/-- A new entry is kept unless a full ranking stands before it. -/
theorem mem_assign_new {capacity : Nat} {key : K} (value : V) {entries : List (K × V)}
    (bounded : entries.length ≤ capacity) (fresh : key ∉ keys entries) :
    (key, value) ∈ assign before capacity key value entries ∨
      entries.length = capacity ∧ ∀ entry ∈ entries, ranksBefore before key entry = true := by
  have pieces := List.takeWhile_append_dropWhile (p := ranksBefore before key) (l := entries)
  have lengths := congrArg List.length pieces
  rw [List.length_append] at lengths
  rw [assign, if_neg fresh, insertRanked, List.take_append]
  by_cases room : (entries.takeWhile (ranksBefore before key)).length < capacity
  · refine .inl (List.mem_append_right _ ?_)
    obtain ⟨left, size⟩ := Nat.exists_eq_succ_of_ne_zero (Nat.sub_ne_zero_of_lt room)
    rw [size, List.take_succ_cons]
    exact List.mem_cons_self
  · have nothing : entries.dropWhile (ranksBefore before key) = [] :=
      List.eq_nil_of_length_eq_zero (by omega)
    rw [nothing, List.append_nil] at pieces
    refine .inr ⟨by omega, fun entry member => ?_⟩
    rw [← pieces] at member
    exact List.mem_takeWhile_imp member

theorem assign_crowded {capacity : Nat} {key : K} {value : V} {entries : List (K × V)}
    (fresh : key ∉ keys entries) (full : entries.length = capacity)
    (before_all : ∀ entry ∈ entries, ranksBefore before key entry = true) :
    assign before capacity key value entries = entries := by
  have passed : entries.takeWhile (ranksBefore before key) = entries :=
    List.takeWhile_eq_self_iff.mpr before_all
  rw [assign, if_neg fresh, insertRanked, passed, ← full, List.take_left]

omit [DecidableEq K] in
/-- A key cut off by the capacity ranks behind `capacity` kept entries. -/
theorem countP_of_dropped {entries : List (K × V)} (ranked : Ranked before entries) {key : K}
    {capacity : Nat} (present : key ∈ keys entries) (dropped : key ∉ keys (entries.take capacity)) :
    (entries.take capacity).countP (ranksBefore before key) = capacity := by
  have split := List.take_append_drop capacity entries
  obtain ⟨entry, member, rfl⟩ := List.mem_map.mp present
  rw [← split, List.mem_append] at member
  have cut : entry ∈ entries.drop capacity :=
    member.resolve_left fun kept => dropped (List.mem_map.mpr ⟨entry, kept, rfl⟩)
  rw [Ranked, ← split, List.pairwise_append] at ranked
  have allBefore : ∀ other ∈ entries.take capacity, ranksBefore before entry.1 other = true := by
    intro other kept
    simpa [ranksBefore] using ranked.2.2 other kept entry cut
  have long : capacity < entries.length := by
    have nonempty := List.length_pos_of_mem cut
    rw [List.length_drop] at nonempty
    omega
  rw [List.countP_eq_length.mpr allBefore, List.length_take]
  omega

/-- Erasing a key takes away its entry. -/
theorem countP_erase {entries : List (K × V)} (distinct : (keys entries).Nodup) (key other : K) :
    entries.countP (ranksBefore before other) = (erase key entries).countP (ranksBefore before other) +
      if key ∈ keys entries ∧ before key other then 1 else 0 := by
  induction entries with
  | nil => simp [erase, keys]
  | cons head tail ih =>
      simp only [keys, List.map_cons, List.nodup_cons] at distinct
      by_cases same : head.1 = key
      · have untouched : erase key tail = tail := by
          apply List.filter_eq_self.mpr
          intro entry member
          have other : entry.1 ≠ key := by
            rintro rfl
            exact distinct.1 (same ▸ List.mem_map_of_mem member)
          simpa using other
        have kept : erase key (head :: tail) = tail := by
          rw [erase, List.filter_cons_of_neg (by simpa using same)]
          exact untouched
        have held : key ∈ keys (head :: tail) := by simp [keys, same]
        rw [kept, List.countP_cons, ranksBefore, same]
        simp [held]
      · have kept : erase key (head :: tail) = head :: erase key tail :=
          List.filter_cons_of_pos (by simpa using same)
        have held : key ∈ keys (head :: tail) ↔ key ∈ keys tail := by simp [keys, Ne.symm same]
        rw [kept, List.countP_cons, List.countP_cons, ih distinct.2]
        simp only [held]
        omega

/-!
## Validity of every reachable pair
-/

section order

variable [IsStrictTotalOrder K before]

omit [DecidableEq K] in
theorem ranked_closed (key : K) (left right : K × V) (related : before left.1 right.1)
    (passes : ranksBefore before key right = true) : ranksBefore before key left = true := by
  simp only [ranksBefore, decide_eq_true_eq] at passes ⊢
  exact IsTrans.trans _ _ _ related passes

omit [DecidableEq K] in
/-- Cutting a ranking off keeps the entries ranked before any key. -/
theorem countP_take {entries : List (K × V)} (ranked : Ranked before entries) (key : K) (size : Nat) :
    (entries.take size).countP (ranksBefore before key) =
      min size (entries.countP (ranksBefore before key)) := by
  induction entries generalizing size with
  | nil => simp
  | cons head tail ih =>
      cases size with
      | zero => simp
      | succ size =>
          rw [Ranked, List.pairwise_cons] at ranked
          by_cases passes : ranksBefore before key head = true
          · rw [List.take_succ_cons, List.countP_cons_of_pos passes, List.countP_cons_of_pos passes,
              ih ranked.2]
            omega
          · have none_later : tail.countP (ranksBefore before key) = 0 := by
              rw [List.countP_eq_zero]
              intro other member later
              exact passes (ranked_closed before key head other (ranked.1 other member) later)
            rw [List.take_succ_cons, List.countP_cons_of_neg passes, List.countP_cons_of_neg passes,
              ih ranked.2, none_later]
            simp

omit [DecidableEq K] in
theorem ranked_insert {entries : List (K × V)} (ranked : Ranked before entries) {key : K} (value : V)
    (fresh : key ∉ keys entries) : Ranked before (insertRanked before key value entries) := by
  have split := List.takeWhile_append_dropWhile (p := ranksBefore before key) (l := entries)
  have partitioned := dropWhile_partitioned ranked (ranked_closed before key)
  rw [Ranked, ← split, List.pairwise_append] at ranked
  obtain ⟨front, back, across⟩ := ranked
  rw [Ranked, insertRanked, List.pairwise_append, List.pairwise_cons]
  refine ⟨front, ⟨?_, back⟩, ?_⟩
  · intro entry member
    have later : ¬ before entry.1 key := by
      simpa [ranksBefore] using partitioned entry member
    have different : key ≠ entry.1 := by
      rintro rfl
      exact fresh (List.mem_map.mpr ⟨entry, (List.dropWhile_suffix _).subset member, rfl⟩)
    by_contra notEarlier
    exact different (Std.Trichotomous.trichotomous _ _ notEarlier later)
  · intro entry member other otherMember
    rcases List.mem_cons.mp otherMember with rfl | inBack
    · simpa [ranksBefore] using List.mem_takeWhile_imp member
    · exact across entry member other inBack

omit [DecidableRel before] [IsStrictTotalOrder K before] in
theorem ranked_overwrite_iff (key : K) (value : V) (entries : List (K × V)) :
    Ranked before (overwrite key value entries) ↔ Ranked before entries := by
  rw [ranked_iff_keys, keys_overwrite, ← ranked_iff_keys]

theorem ranked_assign {entries : List (K × V)} (ranked : Ranked before entries) (capacity : Nat)
    (key : K) (value : V) : Ranked before (assign before capacity key value entries) := by
  unfold assign
  split
  · exact (ranked_overwrite_iff before key value entries).mpr ranked
  · rename_i fresh
    exact (ranked_insert before ranked value fresh).sublist (List.take_sublist capacity _)

omit [DecidableEq K] [DecidableRel before] in
theorem keys_nodup {entries : List (K × V)} (ranked : Ranked before entries) : (keys entries).Nodup := by
  rw [ranked_iff_keys] at ranked
  refine List.Pairwise.imp (fun {left right} related => ?_) ranked
  rintro rfl
  exact Std.Irrefl.irrefl left related

omit [DecidableEq K] [IsStrictTotalOrder K before] in
theorem Tracked.Valid.empty (capacity : Nat) : (Tracked.empty : Tracked K V).Valid before capacity where
  ranked := List.Pairwise.nil
  bounded := Nat.zero_le _
  agrees := by simp [Tracked.empty]
  covered := by
    intro key missing
    exact absurd rfl missing.1

omit [IsStrictTotalOrder K before] in
theorem Tracked.Valid.overwrite {capacity : Nat} {tracked : Tracked K V} (valid : tracked.Valid before capacity)
    {key : K} (value : V) (held : key ∈ keys tracked.entries) :
    (tracked.apply before capacity (.assign key value)).Valid before capacity := by
  have kept : assign before capacity key value tracked.entries = BoundedRanking.overwrite key value tracked.entries :=
    if_pos held
  constructor
  · simp only [Tracked.apply, kept]
    exact (ranked_overwrite_iff before key value _).mpr valid.ranked
  · simp only [Tracked.apply, kept, BoundedRanking.overwrite, List.length_map]
    exact valid.bounded
  · simp only [Tracked.apply, kept, BoundedRanking.overwrite]
    intro entry member
    obtain ⟨old, oldMember, rfl⟩ := List.mem_map.mp member
    by_cases same : old.1 = key
    · simp [same]
    · simpa [same] using valid.agrees old oldMember
  · intro other missing
    obtain ⟨present, absent⟩ := missing
    simp only [Tracked.apply, kept, keys_overwrite] at present absent ⊢
    have different : other ≠ key := fun same => absent (same ▸ held)
    rw [Function.update_of_ne different] at present
    have covered := valid.covered other ⟨present, absent⟩
    rw [countP_eq_keys, keys_overwrite, ← countP_eq_keys]
    simpa [different, absent, held] using covered

theorem Tracked.Valid.insert {capacity : Nat} {tracked : Tracked K V} (valid : tracked.Valid before capacity)
    {key : K} (value : V) (fresh : key ∉ keys tracked.entries) :
    (tracked.apply before capacity (.assign key value)).Valid before capacity := by
  have kept : assign before capacity key value tracked.entries =
      (insertRanked before key value tracked.entries).take capacity := if_neg fresh
  have ranked := ranked_insert before valid.ranked value fresh
  have perm := insertRanked_perm before key value tracked.entries
  have keysPerm : ∀ other, other ∈ keys (insertRanked before key value tracked.entries) ↔
      other ∈ key :: keys tracked.entries := fun other => (perm.map Prod.fst).mem_iff
  constructor
  · simp only [Tracked.apply, kept]
    exact ranked.sublist (List.take_sublist capacity _)
  · simp only [Tracked.apply, kept, List.length_take]
    exact Nat.min_le_left _ _
  · simp only [Tracked.apply, kept]
    intro entry member
    rcases List.mem_cons.mp (perm.mem_iff.mp (List.mem_of_mem_take member)) with rfl | old
    · simp
    · have different : entry.1 ≠ key := by
        rintro rfl
        exact fresh (List.mem_map.mpr ⟨entry, old, rfl⟩)
      rw [Function.update_of_ne different]
      exact valid.agrees entry old
  · intro other missing
    obtain ⟨present, absent⟩ := missing
    simp only [Tracked.apply, kept] at present absent ⊢
    by_cases dropped : other ∈ key :: keys tracked.entries
    · rw [countP_of_dropped before ranked ((keysPerm other).mpr dropped) absent, if_pos ⟨dropped, absent⟩]
      rfl
    · have different : other ≠ key := fun same => dropped (same ▸ List.mem_cons_self)
      rw [Function.update_of_ne different] at present
      have covered := valid.covered other
        ⟨present, fun held => dropped (List.mem_cons_of_mem _ held)⟩
      rw [if_neg (fun both => dropped both.1), countP_take before ranked, perm.countP_eq]
      -- one more better entry, unless the better ones fill the ranking already
      by_cases better : before key other
      · rw [List.countP_cons_of_pos (by simpa [ranksBefore] using better), if_pos ⟨fresh, better⟩]
        omega
      · rw [List.countP_cons_of_neg (by simpa [ranksBefore] using better), if_neg fun both => better both.2]
        omega

theorem Tracked.Valid.erase {capacity : Nat} {tracked : Tracked K V} (valid : tracked.Valid before capacity)
    (key : K) : (tracked.apply before capacity (.erase key)).Valid before capacity := by
  constructor
  · exact List.Pairwise.filter _ valid.ranked
  · exact (List.length_filter_le _ _).trans valid.bounded
  · intro entry member
    simp only [Tracked.apply, BoundedRanking.erase, List.mem_filter, decide_eq_true_eq] at member ⊢
    rw [Function.update_of_ne member.2]
    exact valid.agrees entry member.1
  · intro other missing
    obtain ⟨present, absent⟩ := missing
    simp only [Tracked.apply] at present absent ⊢
    have different : other ≠ key := by
      rintro rfl
      simp at present
    rw [Function.update_of_ne different] at present
    have absentBefore : other ∉ keys tracked.entries := by
      intro held
      obtain ⟨entry, member, rfl⟩ := List.mem_map.mp held
      exact absent (List.mem_map.mpr ⟨entry, List.mem_filter.mpr ⟨member, by simpa using different⟩, rfl⟩)
    have covered := valid.covered other ⟨present, absentBefore⟩
    rw [countP_erase before (keys_nodup before valid.ranked) key other] at covered
    split
    · rename_i counted
      rw [if_pos counted] at covered
      omega
    · rename_i counted
      rw [if_neg counted] at covered
      omega

theorem Tracked.Valid.apply {capacity : Nat} {tracked : Tracked K V} (valid : tracked.Valid before capacity)
    (change : Change K V) : (tracked.apply before capacity change).Valid before capacity := by
  cases change with
  | assign key value =>
      by_cases held : key ∈ keys tracked.entries
      · exact valid.overwrite before value held
      · exact valid.insert before value held
  | erase key => exact valid.erase before key

/-!
## Ranked slots
-/

omit [DecidableEq K] in
/-- A held key stands right behind the entries ranked before it. -/
theorem split_at_key {entries : List (K × V)} (ranked : Ranked before entries) {key : K}
    (held : key ∈ keys entries) :
    ∃ value tail, entries = entries.takeWhile (ranksBefore before key) ++ (key, value) :: tail ∧
      (∀ entry ∈ entries.takeWhile (ranksBefore before key), entry.1 ≠ key) ∧
      ∀ entry ∈ tail, entry.1 ≠ key := by
  have split := List.takeWhile_append_dropWhile (p := ranksBefore before key) (l := entries)
  have partitioned := dropWhile_partitioned ranked (ranked_closed before key)
  have front : ∀ entry ∈ entries.takeWhile (ranksBefore before key), entry.1 ≠ key := by
    intro entry member same
    have earlier : before entry.1 key := by
      simpa [ranksBefore] using List.mem_takeWhile_imp member
    exact Std.Irrefl.irrefl key (same ▸ earlier)
  obtain ⟨entry, member, rfl⟩ := List.mem_map.mp held
  rw [← split, List.mem_append] at member
  have behind := member.resolve_left fun inFront => front entry inFront rfl
  cases rest : entries.dropWhile (ranksBefore before entry.1) with
  | nil => simp [rest] at behind
  | cons head tail =>
      rw [Ranked, ← split, rest, List.pairwise_append, List.pairwise_cons] at ranked
      rw [rest] at behind split partitioned
      have headLast : ¬ before head.1 entry.1 := by
        simpa [ranksBefore] using partitioned head List.mem_cons_self
      have same : entry = head := by
        rcases List.mem_cons.mp behind with rfl | later
        · rfl
        · exact absurd (ranked.2.1.1 entry later) headLast
      subst same
      refine ⟨entry.2, tail, split.symm, front, ?_⟩
      intro other later sameKey
      exact Std.Irrefl.irrefl entry.1 (by simpa only [sameKey] using ranked.2.1.1 other later)

omit [DecidableEq K] in
theorem getElem?_rank {entries : List (K × V)} (ranked : Ranked before entries) {key : K}
    (held : key ∈ keys entries) :
    ∃ value, entries[(entries.takeWhile (ranksBefore before key)).length]? = some (key, value) := by
  obtain ⟨value, tail, whole, -, -⟩ := split_at_key before ranked held
  refine ⟨value, ?_⟩
  generalize entries.takeWhile (ranksBefore before key) = front at whole
  subst whole
  simp

theorem eraseIdx_rank {entries : List (K × V)} (ranked : Ranked before entries) {key : K}
    (held : key ∈ keys entries) :
    entries.eraseIdx (entries.takeWhile (ranksBefore before key)).length = erase key entries := by
  obtain ⟨value, tail, whole, front, back⟩ := split_at_key before ranked held
  generalize entries.takeWhile (ranksBefore before key) = passed at whole front
  subst whole
  have keepFront : passed.filter (fun entry => entry.1 ≠ key) = passed :=
    List.filter_eq_self.mpr fun entry member => by simpa using front entry member
  have keepBack : tail.filter (fun entry => entry.1 ≠ key) = tail :=
    List.filter_eq_self.mpr fun entry member => by simpa using back entry member
  rw [erase, List.filter_append, List.filter_cons_of_neg (by simp), keepFront, keepBack,
    List.eraseIdx_append_of_length_le le_rfl]
  simp

theorem set_rank {entries : List (K × V)} (ranked : Ranked before entries) {key : K}
    (held : key ∈ keys entries) (value : V) :
    entries.set (entries.takeWhile (ranksBefore before key)).length (key, value) =
      overwrite key value entries := by
  obtain ⟨old, tail, whole, front, back⟩ := split_at_key before ranked held
  generalize entries.takeWhile (ranksBefore before key) = passed at whole front
  subst whole
  have unchanged : ∀ part : List (K × V), (∀ entry ∈ part, entry.1 ≠ key) →
      overwrite key value part = part := by
    intro part others
    conv_rhs => rw [← List.map_id part]
    exact List.map_congr_left fun entry member => if_neg (others entry member)
  have keepFront := unchanged passed front
  have keepBack := unchanged tail back
  rw [overwrite] at keepFront keepBack
  rw [overwrite, List.map_append, List.map_cons, keepFront, keepBack, List.set_append_right _ _ le_rfl]
  simp

/-!
## The best key
-/

omit [DecidableEq K] [IsStrictTotalOrder K before] in
/-- The bounded entries are empty only when the map is, as long as every missing
key was dropped recently enough. -/
theorem Tracked.Valid.empty_iff {capacity : Nat} {tracked : Tracked K V} (valid : tracked.Valid before capacity)
    (recent : ∀ key, tracked.Missing key → tracked.netErased key < capacity) :
    tracked.entries = [] ↔ ∀ key, tracked.reference key = none := by
  constructor
  · intro none_held key
    by_contra present
    have missing : tracked.Missing key := ⟨present, by simp [keys, none_held]⟩
    have covered := valid.covered key missing
    have soon := recent key missing
    simp only [none_held, List.countP_nil] at covered
    omega
  · intro absent
    rw [List.eq_nil_iff_forall_not_mem]
    intro entry member
    have present := valid.agrees entry member
    rw [absent] at present
    cases present

theorem Tracked.Valid.head_isBest {capacity : Nat} {tracked : Tracked K V} (valid : tracked.Valid before capacity)
    (recent : ∀ key, tracked.Missing key → tracked.netErased key < capacity)
    {head : K × V} {tail : List (K × V)} (held : tracked.entries = head :: tail) :
    IsBest before tracked.reference head.1 := by
  have ranked := valid.ranked
  rw [Ranked, held, List.pairwise_cons] at ranked
  have headHeld : head ∈ tracked.entries := by simp [held]
  refine ⟨by simp [valid.agrees head headHeld], ?_⟩
  intro other present
  by_cases kept : other ∈ keys tracked.entries
  · obtain ⟨entry, member, rfl⟩ := List.mem_map.mp kept
    rw [held] at member
    rcases List.mem_cons.mp member with rfl | later
    · exact .inl rfl
    · exact .inr (ranked.1 entry later)
  · -- some held entry ranks before the missing key, and the head before that one
    have covered := valid.covered other ⟨present, kept⟩
    have soon := recent other ⟨present, kept⟩
    have positive : 0 < tracked.entries.countP (ranksBefore before other) := by omega
    obtain ⟨entry, member, earlier⟩ := List.countP_pos_iff.mp positive
    simp only [ranksBefore, decide_eq_true_eq] at earlier
    rw [held] at member
    rcases List.mem_cons.mp member with rfl | later
    · exact .inr earlier
    · exact .inr (IsTrans.trans _ _ _ (ranked.1 entry later) earlier)

omit [DecidableEq K] [DecidableRel before] in
theorem IsBest.unique {reference : K → Option V} {left right : K} (leftBest : IsBest before reference left)
    (rightBest : IsBest before reference right) : left = right := by
  rcases leftBest.2 right rightBest.1 with same | leftFirst
  · exact same.symm
  · rcases rightBest.2 left leftBest.1 with same | rightFirst
    · exact same
    · exact absurd (IsTrans.trans _ _ _ leftFirst rightFirst) (Std.Irrefl.irrefl left)

theorem Tracked.Valid.head_eq_iff {capacity : Nat} {tracked : Tracked K V} (valid : tracked.Valid before capacity)
    (recent : ∀ key, tracked.Missing key → tracked.netErased key < capacity) (key : K) :
    (keys tracked.entries).head? = some key ↔ IsBest before tracked.reference key := by
  cases held : tracked.entries with
  | nil =>
      have empty := (valid.empty_iff before recent).mp held
      simp [keys, IsBest, empty]
  | cons head tail =>
      have best := valid.head_isBest before recent held
      simp only [keys, List.map_cons, List.head?_cons, Option.some.injEq]
      constructor
      · rintro rfl
        exact best
      · exact best.unique before

omit [DecidableEq K] [IsStrictTotalOrder K before] in
/-- A missing key that no held entry ranks before belies the head. -/
theorem Tracked.Valid.recent_of_best {capacity : Nat} {tracked : Tracked K V} (valid : tracked.Valid before capacity)
    (best : ∀ key, (keys tracked.entries).head? = some key ↔ IsBest before tracked.reference key)
    (empty : tracked.entries = [] ↔ ∀ key, tracked.reference key = none) {key : K} (missing : tracked.Missing key) :
    tracked.netErased key < capacity := by
  have covered := valid.covered key missing
  suffices positive : 0 < tracked.entries.countP (ranksBefore before key) by omega
  cases held : tracked.entries with
  | nil => exact absurd (empty.mp held key) missing.1
  | cons head tail =>
      have isBest : IsBest before tracked.reference head.1 := (best head.1).mp (by rw [held]; rfl)
      have other : key ≠ head.1 := by
        rintro rfl
        exact missing.2 (by simp [keys, held])
      have earlier := (isBest.2 key missing.1).resolve_left other
      exact List.countP_pos_iff.mpr ⟨head, List.mem_cons_self, by simpa [ranksBefore] using earlier⟩

end order

end TradingEngine.Library.BoundedRanking
