/-!
# Splitting at a separator

The pieces of a list between the occurrences of a separator. There is always at least one piece,
and joining the pieces with the separator gives the list back.
-/

set_option autoImplicit false

namespace Governance.Text

variable {α : Type} [DecidableEq α]

def splitOn (separator : α) : List α → List (List α)
  | [] => [[]]
  | item :: rest =>
    if item = separator then [] :: splitOn separator rest
    else match splitOn separator rest with
      | [] => [[item]]
      | piece :: pieces => (item :: piece) :: pieces

def splitOnce? (separator : α) : List α → Option (List α × List α)
  | [] => none
  | item :: rest =>
    if item = separator then some ([], rest)
    else (splitOnce? separator rest).map fun (before, after) => (item :: before, after)

theorem splitOn_ne_nil (separator : α) (list : List α) : splitOn separator list ≠ [] := by
  cases list with
  | nil => exact List.cons_ne_nil _ _
  | cons item rest =>
      simp only [splitOn]
      split
      · exact List.cons_ne_nil _ _
      · split <;> exact List.cons_ne_nil _ _

theorem intercalate_splitOn (separator : α) (list : List α) :
    [separator].intercalate (splitOn separator list) = list := by
  induction list with
  | nil => simp [splitOn, List.intercalate]
  | cons item rest ih =>
      simp only [splitOn]
      split
      · rename_i same
        cases pieces : splitOn separator rest with
        | nil => exact absurd pieces (splitOn_ne_nil separator rest)
        | cons piece pieces' =>
            rw [pieces] at ih
            simpa [List.intercalate, same] using ih
      · cases pieces : splitOn separator rest with
        | nil => exact absurd pieces (splitOn_ne_nil separator rest)
        | cons piece pieces' =>
            rw [pieces] at ih
            cases pieces' with
            | nil => simpa [List.intercalate] using ih
            | cons next more => simpa [List.intercalate] using ih

end Governance.Text
