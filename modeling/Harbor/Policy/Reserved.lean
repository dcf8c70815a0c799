import Mathlib.Data.List.Basic

/-!
# Reserved mesh groups

`control-plane` and `lighthouse` are owned by the firewall baseline.  Every
package that guards them calls the two predicates below.
-/

namespace Harbor.Policy

def groupControlPlane : String := "control-plane"

def groupLighthouse : String := "lighthouse"

def isReservedGroup (group : String) : Bool :=
  group == groupControlPlane || group == groupLighthouse

def grantsReservedGroup (groups : List String) : Bool :=
  groups.any isReservedGroup

def Unreserved (groups : List String) : Prop :=
  ∀ group ∈ groups, isReservedGroup group = false

theorem grantsReservedGroup_eq_false_iff :
    grantsReservedGroup groups = false ↔ Unreserved groups := by
  simp [grantsReservedGroup, Unreserved]

end Harbor.Policy
