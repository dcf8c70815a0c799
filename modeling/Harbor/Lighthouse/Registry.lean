import Harbor.Library.Pool
import Harbor.Library.Procedure
import Harbor.Library.Table

/-!
# The lighthouse registry

`Add`, `Replace` and `Remove` change the table of lighthouses hosts are told
about.  `Replace` and `Remove` are transactions of several statements at READ
COMMITTED: each statement sees the rows committed by then, and an update holds
the lock of its row until the transaction ends.  What a transaction has written
is part of its position and reaches the table with the commit.
-/

namespace Harbor.Lighthouse

open Library

inductive State where
  | active
  | removed
deriving DecidableEq, Repr

/-- A row of `lighthouses`; `overlay_ip` is unique. -/
structure Row where
  overlayIP : String
  publicAddrs : List String := []
  hostname : String := ""
  state : State := .active
  createdAt : Int := 0
  updatedAt : Int := 0
deriving DecidableEq, Repr

abbrev Rows := Table Row.overlayIP

inductive Error where
  | notFound
  | lastActive
  | noAddrs
  | noOverlayIP
  | alreadyExists
  | add (text : String)
  | database (text : String)
deriving DecidableEq, Repr

structure Registry where
  rows : Rows
  locked : List String

structure Io where
  fault : Fault := .ok
  text : String := ""
  now : Int := 0

inductive Request where
  | add (overlayIP hostname : String) (addrs : List String)
  | replace (overlayIP : String) (addrs : List String)
  | remove (overlayIP : String)

inductive Call where
  | addInsert (overlayIP hostname : String) (addrs : List String)
  | replaceFind (overlayIP : String) (addrs : List String)
  | replaceUpdate (overlayIP : String) (addrs : List String)
  | replaceCommit (overlayIP : String) (addrs : List String) (now : Int)
  | replaceGet (overlayIP : String)
  | removeFind (overlayIP : String)
  | removeCount (overlayIP : String)
  | removeUpdate (overlayIP : String)
  | removeCommit (overlayIP : String) (now : Int)
  | returned (result : Except Error (Option Row))
deriving DecidableEq, Repr

def accept : Request → Call
  | .add overlayIP hostname addrs =>
    if overlayIP = "" then .returned (.error .noOverlayIP)
    else if addrs = [] then .returned (.error .noAddrs)
    else .addInsert overlayIP hostname addrs
  | .replace overlayIP addrs =>
    if addrs = [] then .returned (.error .noAddrs)
    else .replaceFind overlayIP addrs
  | .remove overlayIP => .removeFind overlayIP

def Row.isActive (row : Row) : Bool :=
  row.state == .active

namespace Registry

variable (registry : Registry) (io : Io)

/-- `SELECT count(*) … WHERE state = 'active'`. -/
def activeCount : Nat :=
  registry.rows.affected Row.isActive

def first (overlayIP : String) : Except Error Row :=
  if io.fault ≠ .ok then .error (.database io.text)
  else
    match registry.rows.find overlayIP with
    | none => .error .notFound
    | some row => .ok row

def lock (overlayIP : String) : Registry :=
  { registry with locked := overlayIP :: registry.locked }

def unlock (overlayIP : String) : Registry :=
  { registry with locked := registry.locked.filter (· != overlayIP) }

def change (overlayIP : String) (update : Row → Row)
    (keepsKey : ∀ row, (update row).overlayIP = row.overlayIP) : Registry :=
  { registry with
    rows := registry.rows.update (fun row => row.overlayIP == overlayIP)
      update keepsKey }

/-- The columns `Replace` writes. -/
def replaced (addrs : List String) (now : Int) (row : Row) : Row :=
  { row with publicAddrs := addrs, state := .active, updatedAt := now }

/-- The columns `Remove` writes. -/
def retired (now : Int) (row : Row) : Row :=
  { row with state := .removed, updatedAt := now }

/-- `Create(&row)`. -/
def insert (row : Row) : Registry × Call :=
  if io.fault = .failed then (registry, .returned (.error (.add io.text)))
  else
    match registry.rows.insert? row with
    | none => (registry, .returned (.error .alreadyExists))
    | some rows =>
      ({ registry with rows := rows }, .returned (if io.fault = .ok then .ok (some row)
          else .error (.add io.text)))

def update (overlayIP : String) (next : Call) : Option (Registry × Call) :=
  if io.fault ≠ .ok then
    some (registry, .returned (.error (.database io.text)))
  else if overlayIP ∈ registry.locked then none
  else some (registry.lock overlayIP, next)

def commit (overlayIP : String) (update : Row → Row)
    (keepsKey : ∀ row, (update row).overlayIP = row.overlayIP) (next : Call) : Registry × Call :=
  if io.fault = .failed then
    (registry.unlock overlayIP, .returned (.error (.database io.text)))
  else
    ((registry.change overlayIP update keepsKey).unlock overlayIP,
      if io.fault = .ok then next
      else .returned (.error (.database io.text)))

def advance : Call → Option (Registry × Call)
  | .addInsert overlayIP hostname addrs =>
    some (registry.insert io
      { overlayIP := overlayIP
        publicAddrs := addrs
        hostname := hostname
        createdAt := io.now
        updatedAt := io.now })
  | .replaceFind overlayIP addrs =>
    match registry.first io overlayIP with
    | .error error => some (registry, .returned (.error error))
    | .ok _ => some (registry, .replaceUpdate overlayIP addrs)
  | .replaceUpdate overlayIP addrs =>
    registry.update io overlayIP (.replaceCommit overlayIP addrs io.now)
  | .replaceCommit overlayIP addrs now =>
    some (registry.commit io overlayIP (replaced addrs now) (fun _ => rfl) (.replaceGet overlayIP))
  | .replaceGet overlayIP =>
    match registry.first io overlayIP with
    | .error error => some (registry, .returned (.error error))
    | .ok row => some (registry, .returned (.ok (some row)))
  | .removeFind overlayIP =>
    match registry.first io overlayIP with
    | .error error => some (registry, .returned (.error error))
    | .ok row =>
      if row.state = .removed then some (registry, .returned (.ok none))
      else some (registry, .removeCount overlayIP)
  | .removeCount overlayIP =>
    if io.fault ≠ .ok then
      some (registry, .returned (.error (.database io.text)))
    else if registry.activeCount ≤ 1 then
      some (registry, .returned (.error .lastActive))
    else some (registry, .removeUpdate overlayIP)
  | .removeUpdate overlayIP =>
    registry.update io overlayIP (.removeCommit overlayIP io.now)
  | .removeCommit overlayIP now =>
    some (registry.commit io overlayIP (retired now) (fun _ => rfl) (.returned (.ok none)))
  | .returned _ => none

end Registry

def machine : Machine Registry Request Io Call where
  accept _ := accept
  advance _ registry io call := registry.advance io call

/-- A `Remove` that has counted and not ended. -/
def Call.counted : Call → Bool
  | .removeUpdate _ | .removeCommit _ _ => true
  | _ => false

/-- A `Remove` whose next statement is the count. -/
def Call.counts : Call → Bool
  | .removeCount _ => true
  | _ => false

/-- A `Remove` counts only when no other `Remove` is between its count and its
end. -/
def Apart (pool : Pool Registry Call) : Pool.Event Request Io → Prop
  | .statement index _ =>
    pool.calls[index]?.any Call.counts = true → ∀ call ∈ pool.calls, call.counted = false
  | .request _ => True

instance (pool : Pool Registry Call) : DecidablePred (Apart pool)
  | .statement index _ =>
    inferInstanceAs (Decidable (pool.calls[index]?.any Call.counts = true →
      ∀ call ∈ pool.calls, call.counted = false))
  | .request _ => inferInstanceAs (Decidable True)

end Harbor.Lighthouse
