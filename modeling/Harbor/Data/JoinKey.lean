import Harbor.Data.Enrollment

/-!
# The join_keys table

A join key is a bearer secret held as a hash.  `Lookup` reads the active key
for a secret and checks it; `Consume` takes one use with a conditional update.
-/

namespace Harbor

open Library

namespace JoinKey

inductive State where
  | active
  | revoked
deriving DecidableEq, Repr

inductive Error where
  | notFound
  | expired
  | exhausted
deriving DecidableEq, Repr

def Error.message : Error → String
  | .notFound => "joinkey: no matching active key"
  | .expired => "joinkey: key expired"
  | .exhausted => "joinkey: key use limit reached"

end JoinKey

/-- A row of `join_keys`. -/
structure JoinKey where
  id : Int
  name : String := ""
  secretHash : Bytes := []
  groups : List String := []
  subRange : String := ""
  maxUses : Int := 0
  usedCount : Int := 0
  expiresAt : Int := 0
  autoIssue : Bool := false
  ephemeral : Bool := false
  quotaPerHour : Int := 0
  state : JoinKey.State := .active
  createdAt : Int := 0
deriving DecidableEq, Repr

abbrev JoinKeys := Table JoinKey.id

namespace JoinKeys

/-- `secret_hash = ? AND state = 'active'`, first row. -/
def findActive (keys : JoinKeys) (secretHash : Bytes) : Option JoinKey :=
  keys.rows.find? fun row =>
    row.secretHash == secretHash && row.state == .active

/-- The condition of the update in `Consume`. -/
def consumable (id maxUses : Int) (row : JoinKey) : Bool :=
  row.id == id && row.state == .active && (decide (maxUses ≤ 0) || decide (row.usedCount < maxUses))

/-- The conditional update of `Consume`, with the number of rows it reports. -/
def consume (keys : JoinKeys) (id maxUses : Int) : Nat × JoinKeys :=
  (keys.affected (consumable id maxUses), keys.update (consumable id maxUses)
      (fun row => { row with usedCount := row.usedCount + 1 }) fun _ => rfl)

def usedCount (keys : JoinKeys) (id : Int) : Int :=
  ((keys.find id).map (·.usedCount)).getD 0

theorem usedCount_consume_le (keys : JoinKeys) (id maxUses wanted : Int) :
    (keys.consume id maxUses).2.usedCount wanted ≤ keys.usedCount wanted + 1 := by
  simp only [usedCount, consume, Table.find_update]
  cases keys.find wanted with
  | none => simp
  | some row =>
    simp only [Option.map_some, Option.getD_some]
    split_ifs
    · exact le_refl _
    · omega

end JoinKeys

/-- The checks of `Lookup` on the key it found. -/
def JoinKey.check (key : JoinKey) (now : Int) : Except JoinKey.Error JoinKey :=
  if key.expiresAt ≠ 0 ∧ key.expiresAt ≤ now then .error .expired
  else if 0 < key.maxUses ∧ key.maxUses ≤ key.usedCount then .error .exhausted
  else .ok key

end Harbor
