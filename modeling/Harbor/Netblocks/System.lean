import Harbor.Netblocks.Registry

/-!
# Registries and allocators over one database

Every process owns a registry and an allocator wired to it.  The allocator is
the consumer's, with its resolver statements answered by the registry.
-/

namespace Harbor.Netblocks

open Library Ipam

def told {Value : Type} (answer : Except RegistryError Value) :
    Except String Value :=
  answer.mapError RegistryError.message

def Registry.expand (r : Registry) : (statement : Consumer.Statement) → Run statement.Answer
  | .resolveNetblock name => do return told (← r.resolve name)
  | .resolveFull name => do return told (← r.resolveFull name)
  | .carves => do return told (← r.carves)
  | .grow name => do return (told (← r.grow name)).map some
  | statement => send (.store statement)

/-- The processes: one mesh pool with its reservations, and for each process
whether its stranding guard is wired and how its allocator is set up. -/
structure Config where
  pool : Prefix
  reserved : List Addr := []
  allocs : Nat → Bool := fun _ => true
  allocator : Nat → Consumer.Allocator

/-- `New` masks the pool. -/
def Config.registry (config : Config) (process : Nat) : Registry where
  process := process
  pool := config.pool.masked
  reserved := config.reserved
  allocs := config.allocs process

inductive Request where
  | add (name : String) (cidr : Option Prefix) (description actor : String)
  | seed (name : String) (cidr : Option Prefix) (kind : Kind) (description actor : String)
  | update (name : String) (cidr : Option Prefix) (description : String)
  | remove (name : String)
  | grow (name : String)
  | allocate (deviceName netblockName method : String)
  | release (ip : Addr)
deriving DecidableEq, Repr

inductive Response where
  | block (answer : Except RegistryError Netblock)
  | removed (answer : Except RegistryError Unit)
  | grown (answer : Except RegistryError Prefix)
  | allocated (answer : Except Consumer.AllocateError Addr)
  | released (answer : Except Consumer.ReleaseError Unit)

/-- A call of `Allocate` in a process. -/
def Config.allocate (config : Config) (process : Nat) (deviceName netblockName method : String) :
    Run (Except Consumer.AllocateError Addr) :=
  ((config.allocator process).allocate deviceName netblockName
    method).translate (config.registry process).expand

def Config.release (config : Config) (process : Nat) (ip : Addr) :
    Run (Except Consumer.ReleaseError Unit) :=
  ((config.allocator process).release ip).translate (config.registry process).expand

def Config.handle (config : Config) (process : Nat) : Request → Run Response
  | .add name cidr description actor => do
    return .block (← (config.registry process).add name cidr description actor)
  | .seed name cidr kind description actor => do
    return .block (← (config.registry process).seed name cidr kind description actor)
  | .update name cidr description => do
    return .block (← (config.registry process).update name cidr description)
  | .remove name => do
    return .removed (← (config.registry process).remove name)
  | .grow name => do
    return .grown (← (config.registry process).grow name)
  | .allocate deviceName netblockName method => do
    return .allocated (← config.allocate process deviceName netblockName method)
  | .release ip => do
    return .released (← config.release process ip)

def system (config : Config) (env : Consumer.Env) :
    Service (Nat × Request) Statement Statement.Answer Response World Choice where
  procedure := fun job => config.handle job.1 job.2
  execute := execute env

end Harbor.Netblocks
