/-!
# Handles

A session refers to what it has made by text handles.  Storing under a handle that is in use
replaces what was there.
-/

namespace GroundLogic

/-- What is stored under which handle. -/
abbrev Handles (Item : Type) := List (String × Item)

namespace Handles

variable {Item : Type}

def get? (handle : String) : Handles Item → Option Item
  | [] => none
  | (used, item) :: rest => if used = handle then some item else get? handle rest

def put (handle : String) (item : Item) : Handles Item → Handles Item
  | [] => [(handle, item)]
  | (used, old) :: rest =>
      if used = handle then (handle, item) :: rest else (used, old) :: put handle item rest

def erase (handle : String) (handles : Handles Item) : Handles Item :=
  handles.filter fun entry => entry.1 ≠ handle

theorem get?_put (handles : Handles Item) (handle : String) (item : Item) (tested : String) :
    get? tested (put handle item handles) =
      if handle = tested then some item else get? tested handles := by
  induction handles with
  | nil => rfl
  | cons head tail inductionHypothesis =>
      obtain ⟨used, old⟩ := head
      simp only [put]
      by_cases here : used = handle
      · subst here
        simp only [if_true, get?]
        by_cases same : used = tested <;> simp [same]
      · simp only [if_neg here, get?, inductionHypothesis]
        by_cases same : used = tested
        · have different : handle ≠ tested := fun equality =>
            here (same.trans equality.symm)
          simp [same, different]
        · simp [same]

end Handles

end GroundLogic
