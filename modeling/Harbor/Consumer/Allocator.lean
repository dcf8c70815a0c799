import Harbor.Consumer.World

/-!
# The address allocator

`Allocate` and `Release` of the overlay address allocator.  An allocation reads
the occupied addresses and inserts the lowest free one in two statements; a
racing allocator makes the insert collide on the unique address, and the loop
picks again.
-/

namespace Harbor.Consumer

open Library Ipam

abbrev Run := Procedure Statement Statement.Answer

abbrev send (statement : Statement) : Run statement.Answer :=
  Procedure.request statement

/-- `now().UnixNano()`. -/
abbrev clock : Run Int :=
  send .clock

def maxAllocAttempts : Nat := 100

def nameDefault : String := "default"

inductive AllocateError where
  | poolExhausted
  | unknownSubRange (name : String)
  | contended
  | resolver (text : String)
  | ensureDevice (name text : String)
  | purge (text : String)
  | load (text : String)
  | create (text : String)
deriving DecidableEq, Repr

def AllocateError.message : AllocateError → String
  | .poolExhausted => "ipam: no free addresses in range"
  | .unknownSubRange name => "ipam: unknown sub-range: " ++ name.quote
  | .contended => "ipam: allocation contended, retries exhausted"
  | .resolver text => text
  | .ensureDevice name text =>
    "ipam: ensure device " ++ name.quote ++ ": " ++ text
  | .purge text => "ipam: purge quarantine: " ++ text
  | .load text => "ipam: load allocations: " ++ text
  | .create text => "ipam: allocate: " ++ text

inductive ReleaseError where
  | notAllocated
  | release (text : String)
deriving DecidableEq, Repr

/-- The netblock resolver an allocator is wired with: none, one that maps names
to ranges, or the registry, which also knows ids and kinds. -/
inductive Resolver where
  | none
  | ranges
  | registry
deriving DecidableEq, Repr

structure Allocator where
  pool : Prefix
  subRanges : List (String × Prefix) := []
  reserved : List Addr := []
  quarantineTTL : Int := 0
  resolver : Resolver := .registry
  grower : Bool := true

namespace Allocator

def resolve (a : Allocator) (netblockName : String) : Run (Except AllocateError Resolved) :=
  match a.resolver with
  | .registry => do
    match ← send (.resolveFull netblockName) with
    | .error text => return .error (.resolver text)
    | .ok res =>
      if res.reserved then
        match ← send (.resolveFull nameDefault) with
        | .ok fallback => return .ok fallback
        | .error _ => return .ok res
      else return .ok res
  | .ranges => do
    match ← send (.resolveNetblock netblockName) with
    | .error text => return .error (.resolver text)
    | .ok cidr =>
      let name := if netblockName = "" then nameDefault else netblockName
      return .ok { name := name, cidr := cidr }
  | .none =>
    if netblockName = "" then return .ok { cidr := a.pool }
    else
      match a.subRanges.lookup netblockName with
      | none => return .error (.unknownSubRange netblockName)
      | some range => return .ok { name := netblockName, cidr := range }

def skippedCarves (a : Allocator) (res : Resolved) : Run (List Prefix) :=
  if a.resolver ≠ .none ∧ res.named = false then do
    match ← send .carves with
    | .ok carves => return carves.filter res.cidr.overlaps
    | .error _ => return []
  else return []

def firstFree (a : Allocator) (res : Resolved) : Run (Except AllocateError Addr) := do
  match ← send .pluckAllocations with
  | .error text => return .error (.load text)
  | .ok occupied =>
    let carves ← a.skippedCarves res
    match lowestFree res.cidr a.reserved occupied carves with
    | some ip => return .ok ip
    | none => return .error .poolExhausted

/-- The loop of `Allocate`, with the attempts that are left. -/
def allocateLoop (a : Allocator) (deviceID : Int) (method : String) :
    Nat → Resolved → Run (Except AllocateError Addr)
  | 0, _ => return .error .contended
  | attempts + 1, res => do
    match ← a.firstFree res with
    | .error .poolExhausted =>
      if res.named = true ∧ a.grower = true then
        match ← send (.grow res.name) with
        | .ok (some grown) =>
          a.allocateLoop deviceID method attempts { res with cidr := grown }
        | _ => return .error .poolExhausted
      else return .error .poolExhausted
    | .error error => return .error error
    | .ok ip =>
      let now ← clock
      match ← send (.createAllocation
          { ip := ip
            deviceID := deviceID
            state := .allocated
            allocatedAt := now
            netblockID := res.id
            method := method }) with
      | .ok () => return .ok ip
      | .error .duplicatedKey =>
        a.allocateLoop deviceID method attempts res
      | .error (.failed text) => return .error (.create text)

def allocate (a : Allocator) (deviceName netblockName method : String) :
    Run (Except AllocateError Addr) := do
  match ← a.resolve netblockName with
  | .error error => return .error error
  | .ok res =>
    let createdAt ← clock
    match ← send (.firstOrCreateDevice deviceName createdAt) with
    | .error text => return .error (.ensureDevice deviceName text)
    | .ok device =>
      match ← send .purgeExpiredQuarantine with
      | .error text => return .error (.purge text)
      | .ok () => a.allocateLoop device.id method maxAllocAttempts res

def release (a : Allocator) (ip : Addr) : Run (Except ReleaseError Unit) :=
  if a.quarantineTTL ≤ 0 then do
    match ← send (.deleteAllocation ip) with
    | .error text => return .error (.release text)
    | .ok 0 => return .error .notAllocated
    | .ok _ => return .ok ()
  else do
    match ← send (.quarantineAllocation ip a.quarantineTTL) with
    | .error text => return .error (.release text)
    | .ok 0 => return .error .notAllocated
    | .ok _ => return .ok ()

end Allocator

end Harbor.Consumer
