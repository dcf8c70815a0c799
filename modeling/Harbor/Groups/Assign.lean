import Harbor.Library.Text
import Harbor.Policy.Reserved

/-!
# Group lists

The list functions of the admin handlers (`normGroups`, `sameGroupSet`,
`groupsDropped`) and of the renewal (`keepReservedGroups`, `groupsReduced`).
-/

namespace Harbor.Groups

open Library.Text Policy

/-- The loop of `normGroups`; `seen` is the map of names already kept. -/
def normGroupsFrom (seen : List String) : List String → List String
  | [] => []
  | group :: rest =>
    let trimmed := trimSpace group
    if trimmed = "" ∨ trimmed ∈ seen then normGroupsFrom seen rest
    else trimmed :: normGroupsFrom (trimmed :: seen) rest

def normGroups (groups : List String) : List String :=
  normGroupsFrom [] groups

def sameGroupSet (left right : List String) : Bool :=
  let normLeft := normGroups left
  let normRight := normGroups right
  normLeft.length == normRight.length && normRight.all fun group => normLeft.contains group

/-- Whether some element of `left` is absent from `right`. -/
def groupsDropped (left right : List String) : Bool :=
  left.any fun group => !right.contains group

/-- The second loop of `keepReservedGroups`: re-add the reserved groups of the
live certificate that are missing from the result built so far. -/
def readdReserved : List String → List String → List String × List String
  | [], result => (result, [])
  | group :: issued, result =>
    if isReservedGroup group && !result.contains group then
      let (final, kept) := readdReserved issued (result ++ [group])
      (final, group :: kept)
    else readdReserved issued result

def keepReservedGroups (issued desired : List String) : List String × List String :=
  if !grantsReservedGroup issued then (desired, [])
  else readdReserved issued desired

def groupsReduced (oldSet newSet : List String) : Bool :=
  oldSet.any fun group => !newSet.contains group

variable {name : String}

theorem mem_normGroupsFrom : name ∈ normGroupsFrom seen groups ↔
      name ≠ "" ∧ name ∉ seen ∧ ∃ grp ∈ groups, trimSpace grp = name := by
  induction groups generalizing seen with
  | nil => simp [normGroupsFrom]
  | cons grp rest ih =>
    by_cases dropped : trimSpace grp = "" ∨ trimSpace grp ∈ seen
    · rw [normGroupsFrom]
      simp only [if_pos dropped, ih, List.mem_cons, exists_eq_or_imp]
      constructor
      · rintro ⟨ne, new, later⟩
        exact ⟨ne, new, .inr later⟩
      · rintro ⟨ne, new, rfl | later⟩
        · exact (dropped.elim ne new).elim
        · exact ⟨ne, new, later⟩
    · rw [normGroupsFrom]
      simp only [if_neg dropped, List.mem_cons, ih, exists_eq_or_imp]
      obtain ⟨nonemptyHead, unseenHead⟩ := not_or.mp dropped
      constructor
      · rintro (rfl | ⟨ne, new, later⟩)
        · exact ⟨nonemptyHead, unseenHead, .inl rfl⟩
        · exact ⟨ne, fun mem => new (.inr mem), .inr later⟩
      · rintro ⟨ne, new, first | later⟩
        · exact .inl first.symm
        · by_cases same : name = trimSpace grp
          · exact .inl same
          · exact .inr ⟨ne, by simp [same, new], later⟩

theorem mem_normGroups : name ∈ normGroups gs ↔ name ≠ "" ∧ ∃ grp ∈ gs, trimSpace grp = name := by
  simp [normGroups, mem_normGroupsFrom]

variable {issued : List String}

theorem keepReservedGroups_of_unreserved
    (tidy : Unreserved issued) : keepReservedGroups issued want = (want, []) := by
  have bad : grantsReservedGroup issued = false := grantsReservedGroup_eq_false_iff.mpr tidy
  simp [keepReservedGroups, bad]

theorem mem_readdReserved : name ∈ (readdReserved issued res).1 ↔
      name ∈ res ∨ isReservedGroup name = true ∧ name ∈ issued := by
  induction issued generalizing res with
  | nil => simp [readdReserved]
  | cons grp issued ih =>
    simp only [readdReserved]
    split
    · rename_i lacks
      simp only [Bool.and_eq_true] at lacks
      simp only [ih, List.mem_append, List.mem_cons]
      grind
    · rename_i kept
      simp only [Bool.and_eq_true, Bool.not_eq_true', not_and,
        Bool.not_eq_false, List.contains_iff_mem] at kept
      rw [ih]
      grind

theorem mem_keepReservedGroups : name ∈ (keepReservedGroups issued want).1 ↔
      name ∈ want ∨ isReservedGroup name = true ∧ name ∈ issued := by
  unfold keepReservedGroups
  split
  · rename_i tidy
    simp only [Bool.not_eq_true', grantsReservedGroup_eq_false_iff] at tidy
    constructor
    · exact .inl
    · rintro (wanted | ⟨rsv, held⟩)
      · exact wanted
      · rw [tidy name held] at rsv
        cases rsv
  · exact mem_readdReserved

end Harbor.Groups
