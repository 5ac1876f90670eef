import Mathlib

/-! Tables of bounded size, keyed by one field of their entries. An entry replaces
the one of its key, is added while there is room, and is dropped otherwise. -/

set_option autoImplicit false

namespace TradingEngine.Library.BoundedTable

variable {α κ : Type} [DecidableEq κ] {key : α → κ} {capacity : Nat}

/-- What writing an entry makes of a table. -/
inductive Writes (key : α → κ) (capacity : Nat) (entry : α) : List α → List α → Prop where
  | replaced {front back : List α} {old : α} : key old = key entry →
      Writes key capacity entry (front ++ old :: back) (front ++ entry :: back)
  | added {table : List α} : key entry ∉ table.map key → table.length < capacity →
      Writes key capacity entry table (table ++ [entry])
  | dropped {table : List α} : key entry ∉ table.map key → capacity ≤ table.length →
      Writes key capacity entry table table

/-- The last of the entries with a key. -/
def lastWith (key : α → κ) (wanted : κ) (entries : List α) : Option α :=
  entries.reverse.find? fun entry => key entry = wanted

theorem lastWith_append_self (entries : List α) (entry : α) : lastWith key (key entry) (entries ++ [entry]) = some entry := by
  simp [lastWith]

theorem lastWith_append_other {wanted : κ} {entry : α} (other : key entry ≠ wanted) (entries : List α) :
    lastWith key wanted (entries ++ [entry]) = lastWith key wanted entries := by
  simp [lastWith, other]

theorem key_of_lastWith {wanted : κ} {entries : List α} {entry : α} (found : lastWith key wanted entries = some entry) :
    key entry = wanted ∧ entry ∈ entries :=
  ⟨by simpa using List.find?_some found, List.mem_reverse.mp (List.mem_of_find?_eq_some found)⟩

/-- The table holds the last entries of its keys, and every key it lacks came to a full table. -/
structure Records (key : α → κ) (capacity : Nat) (history table : List α) : Prop where
  nodup : (table.map key).Nodup
  last : ∀ entry ∈ table, lastWith key (key entry) history = some entry
  full : ∀ entry ∈ history, key entry ∉ table.map key → capacity ≤ table.length

theorem records_nil : Records key capacity [] [] where
  nodup := List.nodup_nil
  last := fun _ member => by cases member
  full := fun _ member => by cases member

namespace Records

variable {history table next : List α} {entry : α}

theorem replace {front back : List α} {old : α} (records : Records key capacity history (front ++ old :: back))
    (same : key old = key entry) : Records key capacity (history ++ [entry]) (front ++ entry :: back) := by
  have keys : (front ++ entry :: back).map key = (front ++ old :: back).map key := by simp [same]
  have distinct := records.nodup
  simp only [List.map_append, List.map_cons, List.nodup_middle, List.nodup_cons, List.mem_append] at distinct
  have length : (front ++ entry :: back).length = (front ++ old :: back).length := by simp
  refine ⟨keys ▸ records.nodup, fun held member => ?_, fun written member absent => ?_⟩
  · rw [List.mem_append, List.mem_cons] at member
    have rest (inside : held ∈ front ∨ held ∈ back) : lastWith key (key held) (history ++ [entry]) = some held := by
      have other : key entry ≠ key held := by
        intro equal
        rw [← same] at equal
        refine distinct.1 (inside.imp (fun here => ?_) fun here => ?_)
        · exact equal ▸ List.mem_map_of_mem here
        · exact equal ▸ List.mem_map_of_mem here
      rw [lastWith_append_other other]
      refine records.last held ?_
      rw [List.mem_append, List.mem_cons]
      exact inside.imp_right .inr
    rcases member with here | rfl | here
    · exact rest (.inl here)
    · exact lastWith_append_self history held
    · exact rest (.inr here)
  · rw [length]
    rw [keys] at absent
    rcases List.mem_append.mp member with earlier | isEntry
    · exact records.full written earlier absent
    · rw [List.mem_singleton.mp isEntry, ← same] at absent
      exact absurd (List.mem_map_of_mem (by simp)) absent

/-- A held entry is not the last of its key any more only if an entry of its key is written. -/
theorem last_other (records : Records key capacity history table) (fresh : key entry ∉ table.map key) {held : α}
    (member : held ∈ table) : lastWith key (key held) (history ++ [entry]) = some held := by
  have other : key entry ≠ key held := fun equal => fresh (equal ▸ List.mem_map_of_mem member)
  rw [lastWith_append_other other]
  exact records.last held member

theorem add (records : Records key capacity history table) (fresh : key entry ∉ table.map key)
    (room : table.length < capacity) : Records key capacity (history ++ [entry]) (table ++ [entry]) := by
  refine ⟨?_, fun held member => ?_, fun written member absent => ?_⟩
  · rw [List.map_append]
    exact List.Nodup.append records.nodup (List.nodup_singleton _) (by simpa using fresh)
  · rcases List.mem_append.mp member with here | isEntry
    · exact records.last_other fresh here
    · rw [List.mem_singleton.mp isEntry]
      exact lastWith_append_self history entry
  · rw [List.map_append, List.mem_append, not_or] at absent
    rcases List.mem_append.mp member with earlier | isEntry
    · exact absurd (records.full written earlier absent.1) (by omega)
    · rw [List.mem_singleton.mp isEntry] at absent
      exact absurd (List.mem_singleton_self _) absent.2

theorem drop (records : Records key capacity history table) (fresh : key entry ∉ table.map key)
    (noRoom : capacity ≤ table.length) : Records key capacity (history ++ [entry]) table :=
  ⟨records.nodup, fun _ member => records.last_other fresh member, fun _ _ _ => noRoom⟩

theorem write (records : Records key capacity history table) (writes : Writes key capacity entry table next) :
    Records key capacity (history ++ [entry]) next := by
  cases writes with
  | replaced same => exact records.replace same
  | added fresh room => exact records.add fresh room
  | dropped fresh noRoom => exact records.drop fresh noRoom

theorem keys_subset (records : Records key capacity history table) : table.map key ⊆ history.map key := by
  intro wanted member
  obtain ⟨held, inside, rfl⟩ := List.mem_map.mp member
  exact List.mem_map_of_mem (key_of_lastWith (records.last held inside)).2

theorem find_isSome_iff {wanted : κ} :
    (table.find? fun entry => key entry = wanted).isSome = true ↔ wanted ∈ table.map key := by
  simp [List.find?_isSome]

theorem find_of_held (records : Records key capacity history table) {wanted : κ} (held : wanted ∈ table.map key) :
    table.find? (fun entry => key entry = wanted) = lastWith key wanted history := by
  cases found : table.find? fun entry => key entry = wanted with
  | none =>
      rw [← find_isSome_iff, found] at held
      cases held
  | some entry =>
      obtain rfl : key entry = wanted := by simpa using List.find?_some found
      exact (records.last entry (List.mem_of_find?_eq_some found)).symm

/-- Every key of the history is held exactly when there is room for all of them. -/
theorem holds_all_iff (records : Records key capacity history table) (bounded : table.length ≤ capacity) :
    (∀ wanted ∈ history.map key, wanted ∈ table.map key) ↔ (history.map key).dedup.length ≤ capacity := by
  constructor
  · intro all
    have inside : (history.map key).dedup ⊆ table.map key := fun wanted member => all wanted (List.mem_dedup.mp member)
    calc (history.map key).dedup.length
        ≤ (table.map key).length := ((List.nodup_dedup _).subperm inside).length_le
      _ ≤ capacity := by rw [List.length_map]; exact bounded
  · intro room wanted member
    by_contra absent
    obtain ⟨entry, written, rfl⟩ := List.mem_map.mp member
    have full := records.full entry written absent
    have distinct : (key entry :: table.map key).Nodup := List.nodup_cons.mpr ⟨absent, records.nodup⟩
    have inside : key entry :: table.map key ⊆ (history.map key).dedup := by
      intro other here
      rw [List.mem_dedup]
      rcases List.mem_cons.mp here with rfl | held
      · exact member
      · exact records.keys_subset held
    have more := (distinct.subperm inside).length_le
    rw [List.length_cons, List.length_map] at more
    omega

/-- Lookups give the last entry of every key written exactly when all keys have room. -/
theorem find_eq_lastWith_iff (records : Records key capacity history table) (bounded : table.length ≤ capacity) :
    (∀ wanted ∈ history.map key, table.find? (fun entry => key entry = wanted) = lastWith key wanted history) ↔
      (history.map key).dedup.length ≤ capacity := by
  rw [← records.holds_all_iff bounded]
  refine forall₂_congr fun wanted member => ⟨fun found => ?_, records.find_of_held⟩
  obtain ⟨entry, written, rfl⟩ := List.mem_map.mp member
  rw [← find_isSome_iff, found, lastWith, List.find?_isSome]
  exact ⟨entry, List.mem_reverse.mpr written, by simp⟩

end Records

end TradingEngine.Library.BoundedTable
