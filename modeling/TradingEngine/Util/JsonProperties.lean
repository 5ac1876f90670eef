import TradingEngine.Util.Json

/-! Iteration of the scanner as a list of views. The views do not depend on the
action, so a loop over an array is the action run over them in order. A loop
can only fail to return at a view that is empty. -/

set_option autoImplicit false

namespace TradingEngine.Json

open Library.Exec

variable {σ : Type}

/-- The views a loop passes to its action, and whether it returns after them. -/
def elementsFrom (array : Text) : Nat → Nat → List Text × Bool
  | 0, _ => ([], false)
  | fuel + 1, pos =>
      let start := skipWhitespace array pos
      if endsArray array start then ([], true)
      else
        let stop := skipValue array start
        let rest := elementsFrom array fuel (afterElement array stop)
        (substr array start (stop - start) :: rest.1, rest.2)

def arrayElements (json key : Text) : List Text × Bool :=
  match findValueStart json key with
  | none => ([], true)
  | some valueStart =>
      if json[valueStart]? = some '[' then
        elementsFrom (json.drop valueStart) ((json.drop valueStart).length + 1) 1
      else ([], true)

/-- A loop over views: the action on each, then the return if there is one. -/
def runElements (elements : List Text × Bool) (action : Text → EStateM Exn σ PUnit) :
    EStateM Exn σ PUnit := do
  forM elements.1 action
  if elements.2 then pure .unit else throw .outOfFuel

theorem forEachElementFrom_eq (array : Text) (action : Text → EStateM Exn σ PUnit)
    (fuel pos : Nat) :
    forEachElementFrom array action fuel pos = runElements (elementsFrom array fuel pos) action := by
  induction fuel generalizing pos with
  | zero => rfl
  | succ fuel ih =>
      simp only [forEachElementFrom, elementsFrom]
      split
      · rfl
      · simp only [runElements, List.forM_cons, bind_assoc, ih]

theorem forEachArrayElement_eq (json key : Text) (action : Text → EStateM Exn σ PUnit) :
    forEachArrayElement json key action = runElements (arrayElements json key) action := by
  unfold forEachArrayElement arrayElements
  cases findValueStart json key with
  | none => rfl
  | some valueStart =>
      dsimp only
      split
      · exact forEachElementFrom_eq _ _ _ _
      · rfl

theorem le_skipWhitespace (text : Text) (pos : Nat) : pos ≤ skipWhitespace text pos :=
  Nat.le_add_right _ _

theorem le_afterElement (array : Text) (stop : Nat) : stop ≤ afterElement array stop := by
  have skipped := le_skipWhitespace array stop
  unfold afterElement
  dsimp only
  split <;> omega

theorem lt_length_of_not_endsArray {array : Text} {pos : Nat} (opens : endsArray array pos = false) :
    pos < array.length := by
  by_contra past
  have absent : array[pos]? = none := List.getElem?_eq_none (by omega)
  simp [endsArray, absent] at opens

theorem substr_ne_nil {text : Text} {start stop : Nat} (nonempty : substr text start (stop - start) ≠ []) :
    start < stop := by
  by_contra same
  have width : stop - start = 0 := by omega
  exact nonempty (by simp [substr, width])

/-- Every view that is not empty moves the loop on, so an array whose views are
all non-empty is left within its fuel. -/
theorem elementsFrom_returns (array : Text) (fuel pos : Nat) (some_fuel : fuel ≠ 0)
    (enough : array.length + 1 ≤ pos + fuel)
    (nonempty : ∀ element ∈ (elementsFrom array fuel pos).1, element ≠ []) :
    (elementsFrom array fuel pos).2 = true := by
  induction fuel generalizing pos with
  | zero => exact absurd rfl some_fuel
  | succ fuel ih =>
      simp only [elementsFrom] at nonempty ⊢
      split
      · rfl
      · rename_i opens
        simp only [opens, Bool.false_eq_true, ↓reduceIte, List.mem_cons, forall_eq_or_imp] at nonempty
        have inside := lt_length_of_not_endsArray (by simpa using opens)
        have moved := substr_ne_nil nonempty.1
        have skipped := le_skipWhitespace array pos
        have beyond := le_afterElement array (skipValue array (skipWhitespace array pos))
        exact ih _ (by omega) (by omega) nonempty.2

theorem arrayElements_returns (json key : Text)
    (nonempty : ∀ element ∈ (arrayElements json key).1, element ≠ []) :
    (arrayElements json key).2 = true := by
  unfold arrayElements at nonempty ⊢
  cases found : findValueStart json key with
  | none => rfl
  | some valueStart =>
      simp only [found] at nonempty
      dsimp only
      split
      · rename_i isArray
        rw [if_pos isArray] at nonempty
        exact elementsFrom_returns _ _ _ (by omega) (by omega) nonempty
      · rfl

theorem moves_forEachArrayElement {relation : σ → σ → Prop}
    (reflexive : ∀ current, relation current current)
    (transitive : ∀ first second third,
      relation first second → relation second third → relation first third)
    {json key : Text} {action : Text → EStateM Exn σ PUnit}
    (iterate : ∀ element, Moves relation (action element)) :
    Moves relation (forEachArrayElement json key action) := by
  rw [forEachArrayElement_eq, runElements]
  refine moves_bind transitive (moves_forM reflexive transitive fun element _ => iterate element) ?_
  intro _
  split
  · exact moves_pure reflexive _
  · exact moves_throw reflexive _

/-- A text with no quote has no members. -/
@[simp] theorem findString_nil (key : Text) : findString [] key = none := by
  simp [findString, findValueStart, findValueStartFrom, findFrom, findText]

end TradingEngine.Json
