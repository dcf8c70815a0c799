import Harbor.Netblocks.World

/-!
# The netblock registry

The mutations of the netblocks table and the reads behind name resolution.  All
checks of a mutation run before its write, over rows and allocations read
earlier; the write itself is conditional on the block's own row only.
-/

namespace Harbor.Netblocks

open Library Ipam

inductive RegistryError where
  | notFound (name : Option String)
  | nameTaken
  | noName
  | badCIDR
  | outOfPool (cidr pool : Prefix)
  | reservedAddress (ip : Addr)
  | overlap (cidr : Prefix) (name : String) (other : Prefix)
  | protectedBlock
  | stranded (ip : Addr)
  | poolFull
  | reservedKind
  | seedKind
  | growKind (name : String) (kind : Kind)
  | liveAddrs (text : String)
  | database (operation text : String)
deriving DecidableEq, Repr

def RegistryError.message : RegistryError → String
  | .notFound none => "netblock: not found"
  | .notFound (some name) => "netblock: not found: " ++ name.quote
  | .nameTaken => "netblock: a netblock with that name already exists"
  | .noName => "netblock: a name is required"
  | .badCIDR => "netblock: CIDR is not a valid IPv4 prefix"
  | .outOfPool cidr pool =>
    "netblock: CIDR is not inside the mesh pool: " ++ prefixString cidr ++
      " not in " ++ prefixString pool
  | .reservedAddress ip =>
    "netblock: CIDR overlaps an existing netblock or reservation: reserved " ++ addrString ip
  | .overlap cidr name other =>
    "netblock: CIDR overlaps an existing netblock or reservation: " ++
      prefixString cidr ++ " overlaps " ++ name ++ " (" ++ prefixString other ++ ")"
  | .protectedBlock =>
    "netblock: protected netblock cannot be modified or removed"
  | .stranded ip =>
    "netblock: edit/remove would strand live allocations outside the new " ++
      "range: " ++ addrString ip
  | .poolFull => "netblock: pool full for this size — no aligned slot available"
  | .reservedKind =>
    "netblock: reserved/default kinds are seeded at genesis, not created " ++ "via Add"
  | .seedKind => "netblock: seed: kind must be \"reserved\" or \"default\""
  | .growKind name kind =>
    "netblock: grow: only named netblocks auto-grow (" ++ name.quote ++
      " is " ++ kind.text.quote ++ ")"
  | .liveAddrs text => "ipam: live addrs: " ++ text
  | .database operation text => "netblock: " ++ operation ++ ": " ++ text

def Netblock.resolved (row : Netblock) : Resolved :=
  { id := row.id
    name := row.name
    cidr := row.range
    named := row.kind == .named
    reserved := row.kind == .reserved }

/-- A registry of one process; `allocs` says whether the stranding guard is
wired. -/
structure Registry where
  process : Nat
  pool : Prefix
  reserved : List Addr := []
  allocs : Bool := true

namespace Registry

variable (r : Registry)

def list : Run (Except RegistryError (List Netblock)) := do
  match ← send .list with
  | .error text => return .error (.database "list" text)
  | .ok rows => return .ok rows

def get (name : String) : Run (Except RegistryError Netblock) := do
  match ← send (.get name) with
  | .error text => return .error (.database "get" text)
  | .ok none => return .error (.notFound none)
  | .ok (some row) => return .ok row

def invalidate : Run Unit :=
  send (.invalidate r.process)

def others (rows : List Netblock) (excludeName : String) : List Netblock :=
  rows.filter fun row => row.name != excludeName

structure Checked where
  cidr : Prefix
  compared : List Prefix

/-- A CIDR that is not a valid IPv4 prefix is `none`. -/
def validateCIDR (cidr : Option Prefix) (excludeName : String) :
    Run (Except RegistryError Checked) :=
  match cidr with
  | none => return .error .badCIDR
  | some given =>
    let cidr := given.masked
    if prefixInside cidr r.pool = false then
      return .error (.outOfPool cidr r.pool)
    else
      match r.reserved.find? cidr.contains with
      | some ip => return .error (.reservedAddress ip)
      | none => do
        match ← list with
        | .error error => return .error error
        | .ok rows =>
          match (others rows excludeName).find? (fun row => cidr.overlaps row.range) with
          | some row =>
            return .error (.overlap cidr row.name row.range)
          | none =>
            return .ok
              { cidr := cidr
                compared := (others rows excludeName).map (·.range) }

def checkNoStranded (oldRange : Prefix) (newRange : Option Prefix) :
    Run (Except RegistryError (Option (List Addr))) :=
  if r.allocs = false then return .ok none
  else do
    match ← send .liveAddrs with
    | .error text => return .error (.liveAddrs text)
    | .ok addrs =>
      match addrs.find? fun ip => oldRange.contains ip &&
          !(newRange.any fun range => range.contains ip) with
      | some ip => return .error (.stranded ip)
      | none => return .ok (some addrs)

/-- The ranges a free range was compared with, `none` when it is not free. -/
def rangeFree (rng : Prefix) (excludeName : String) :
    Run (Except RegistryError (Option (List Prefix))) :=
  if r.reserved.any rng.contains then return .ok none
  else do
    match ← list with
    | .error error => return .error error
    | .ok rows =>
      if (others rows excludeName).any fun row => rng.overlaps row.range then
        return .ok none
      else if r.allocs then
        match ← send .liveAddrs with
        | .error text => return .error (.liveAddrs text)
        | .ok addrs =>
          if addrs.any rng.contains then return .ok none
          else return .ok (some ((others rows excludeName).map (·.range)))
      else return .ok (some ((others rows excludeName).map (·.range)))

def add (name : String) (cidr : Option Prefix) (description actor : String) :
    Run (Except RegistryError Netblock) :=
  if name = "" then return .error .noName
  else if name = nameCentral ∨ name = nameDefault then
    return .error .reservedKind
  else do
    match ← r.validateCIDR cidr "" with
    | .error error => return .error error
    | .ok checked =>
      let now ← send .clock
      match ← send (.create
          { name := name
            cidr := checked.cidr
            kind := .named
            description := description
            createdAt := now
            createdBy := actor } checked.compared) with
      | .error .duplicatedKey => return .error .nameTaken
      | .error (.failed text) => return .error (.database "add" text)
      | .ok row =>
        r.invalidate
        return .ok row

def seed (name : String) (cidr : Option Prefix) (kind : Kind)
    (description actor : String) : Run (Except RegistryError Netblock) :=
  if name = "" then return .error .noName
  else if kind = .named then return .error .seedKind
  else do
    match ← get name with
    | .ok existing => return .ok existing
    | .error (.notFound _) =>
      match ← r.validateCIDR cidr "" with
      | .error error => return .error error
      | .ok checked =>
        let now ← send .clock
        match ← send (.create
            { name := name
              cidr := checked.cidr
              kind := kind
              description := description
              isProtected := true
              createdAt := now
              createdBy := actor } checked.compared) with
        | .error .duplicatedKey => get name
        | .error (.failed text) => return .error (.database "seed" text)
        | .ok row =>
          r.invalidate
          return .ok row
    | .error error => return .error error

def update (name : String) (cidr : Option Prefix) (description : String) :
    Run (Except RegistryError Netblock) := do
  match ← get name with
  | .error error => return .error error
  | .ok row =>
    if row.isProtected then return .error .protectedBlock
    else
      match ← r.validateCIDR cidr name with
      | .error error => return .error error
      | .ok checked =>
        match ← r.checkNoStranded row.range (some checked.cidr) with
        | .error error => return .error error
        | .ok live =>
          match ← send (.setCIDR name row.range checked.cidr
              (some description) checked.compared live) with
          | .error text => return .error (.database "update" text)
          | .ok 0 => return .error (.notFound none)
          | .ok (_ + 1) =>
            r.invalidate
            return .ok (Blocks.recut checked.cidr (some description) row)

def remove (name : String) : Run (Except RegistryError Unit) := do
  match ← get name with
  | .error error => return .error error
  | .ok row =>
    if row.isProtected then return .error .protectedBlock
    else
      match ← r.checkNoStranded row.range none with
      | .error error => return .error error
      | .ok live =>
        match ← send (.delete name row.range live) with
        | .error text => return .error (.database "remove" text)
        | .ok () =>
          r.invalidate
          return .ok ()

def grow (name : String) : Run (Except RegistryError Prefix) := do
  match ← get name with
  | .error error => return .error error
  | .ok row =>
    if row.kind ≠ .named then return .error (.growKind name row.kind)
    else
      let cur := row.range
      match buddyOf cur with
      | none => return .error .poolFull
      | some buddy =>
        let next := parentOf cur
        if next.addr ≠ cur.addr then return .error .poolFull
        else if next.bits < r.pool.bits ∨ prefixInside next r.pool = false then
          return .error .poolFull
        else
          match ← r.rangeFree buddy name with
          | .error error => return .error error
          | .ok none => return .error .poolFull
          | .ok (some compared) =>
            match ← send (.setCIDR name cur next none compared none) with
            | .error text => return .error (.database "grow" text)
            | .ok 0 => return .error .poolFull
            | .ok (_ + 1) =>
              r.invalidate
              return .ok next

def snapshot : Run (Except RegistryError (List Netblock)) := do
  match ← send (.readCache r.process) with
  | (some rows, _) => return .ok rows
  | (none, startGen) =>
    match ← list with
    | .error error => return .error error
    | .ok rows =>
      send (.publish r.process startGen rows)
      return .ok rows

def named (rows : List Netblock) (name : String) : Option Netblock :=
  rows.find? fun row => row.name == name

/-- The block a name stands for: its own, or else `default`. -/
def lookup (rows : List Netblock) (name : String) :
    Except RegistryError Netblock :=
  let name := if name = "" then nameDefault else name
  match named rows name with
  | some row => .ok row
  | none =>
    if name ≠ nameDefault then
      match named rows nameDefault with
      | some row => .ok row
      | none => .error (.notFound (some name))
    else .error (.notFound (some name))

def resolve (name : String) : Run (Except RegistryError Prefix) := do
  match ← r.snapshot with
  | .error error => return .error error
  | .ok rows => return (lookup rows name).map (·.range)

def resolveFull (name : String) : Run (Except RegistryError Resolved) := do
  match ← r.snapshot with
  | .error error => return .error error
  | .ok rows => return (lookup rows name).map (·.resolved)

/-- Every block but those of kind `default`. -/
def carved (rows : List Netblock) : List Prefix :=
  (rows.filter fun row => row.kind != .default).map (·.range)

def carves : Run (Except RegistryError (List Prefix)) := do
  match ← r.snapshot with
  | .error error => return .error error
  | .ok rows => return .ok (carved rows)

end Registry

end Harbor.Netblocks
