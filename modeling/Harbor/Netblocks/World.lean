import Harbor.Consumer.Allocator
import Harbor.Ipam.Prefix
import Harbor.Library.Interleaving

/-!
# The netblocks table and its readers

The rows of `netblocks`, the caches that every registry keeps of them, and the
statements registries and allocators send.  Everything an allocator does beside
resolving names is a statement of the consumer's store.  A write of the
netblocks table also carries what its call had read before: the ranges the new
range was compared with and the live addresses the stranding guard saw.
Executing a statement ignores them.
-/

namespace Harbor.Netblocks

open Library Ipam List

inductive Kind where
  | reserved
  | default
  | named
deriving DecidableEq, Repr

def Kind.text : Kind → String
  | .reserved => "reserved"
  | .default => "default"
  | .named => "named"

def nameCentral : String := "central"

def nameDefault : String := "default"

/-- A row of `netblocks`. -/
structure Netblock where
  id : Int := 0
  name : String
  cidr : Prefix
  kind : Kind
  description : String := ""
  isProtected : Bool := false
  createdAt : Int := 0
  createdBy : String := ""
deriving DecidableEq, Repr

/-- `Netblock.Prefix`. -/
def Netblock.range (row : Netblock) : Prefix :=
  row.cidr.masked

/-- The `netblocks` table: names are unique and ids grow with every insert. -/
@[ext]
structure Blocks where
  table : Table Netblock.name
  lastID : Int
  ascending : table.rows.Pairwise fun first second => first.id < second.id
  bounded : ∀ row ∈ table.rows, row.id ≤ lastID

namespace Blocks

variable (blocks : Blocks)

abbrev rows : List Netblock :=
  blocks.table.rows

/-- `ORDER BY id DESC`. -/
def listed : List Netblock :=
  blocks.rows.reverse

variable {row : Netblock}

theorem mem_listed : row ∈ blocks.listed ↔ row ∈ blocks.rows :=
  mem_reverse

theorem eq_of_id_eq (memL : l ∈ blocks.rows) (memR : r ∈ blocks.rows) (eq : l.id = r.id) :
    l = r := by
  have uniq : (blocks.rows.map (·.id)).Nodup :=
    List.Pairwise.map _ (fun _ _ less => ne_of_lt less) blocks.ascending
  exact inj_on_of_nodup_map uniq memL memR eq

/-- `INSERT`; the database numbers the row. -/
def create? (row : Netblock) : Option Blocks :=
  match inserted : blocks.table.insert? { row with id := blocks.lastID + 1 } with
  | none => none
  | some table =>
    some
      { table := table
        lastID := blocks.lastID + 1
        ascending := by
          rw [(Table.insert?_eq_some inserted).1, pairwise_append]
          refine ⟨blocks.ascending, pairwise_singleton _ _, ?_⟩
          intro old member new last
          rw [mem_singleton.mp last]
          exact Int.lt_add_one_of_le (blocks.bounded old member)
        bounded := by
          intro old member
          rw [(Table.insert?_eq_some inserted).1, mem_append] at member
          rcases member with earlier | last
          · exact (blocks.bounded old earlier).trans (by omega)
          · rw [mem_singleton.mp last] }

/-- `name = ? AND cidr = ?`. -/
def isBlock (name : String) (old : Prefix) (row : Netblock) : Bool :=
  row.name == name && row.cidr == old

/-- The columns `Update` and `Grow` write. -/
def recut (new : Prefix) (description : Option String) (row : Netblock) :
    Netblock :=
  { row with
    cidr := new
    description := description.getD row.description }

theorem recut_name (new : Prefix) (desc : Option String)
    (row : Netblock) : (recut new desc row).name = row.name := rfl

def setCIDR (name : String) (old new : Prefix) (description : Option String) : Blocks where
  table := blocks.table.update (isBlock name old) (recut new description)
    (recut_name new description)
  lastID := blocks.lastID
  ascending := by
    refine List.Pairwise.map _ ?_ blocks.ascending
    intro first second less
    split_ifs <;> exact less
  bounded := by
    intro row member
    obtain ⟨old, earlier, rfl⟩ := Table.mem_update.mp member
    have bound := blocks.bounded old earlier
    split_ifs <;> exact bound

/-- `DELETE … WHERE name = ?`. -/
def delete (name : String) : Blocks where
  table := blocks.table.keep fun row => row.name != name
  lastID := blocks.lastID
  ascending := blocks.ascending.sublist filter_sublist
  bounded := fun row member =>
    blocks.bounded row (mem_of_mem_filter member)

variable {blocks}

theorem rows_create? (created : blocks.create? row = some new) :
    new.rows = blocks.rows ++ [{ row with id := blocks.lastID + 1 }] ∧
      blocks.table.find row.name = none := by
  unfold create? at created
  split at created
  · cases created
  · rename_i table put
    cases created
    exact Table.insert?_eq_some put

variable {name : String}

theorem mem_delete : row ∈ (blocks.delete name).rows ↔ row ∈ blocks.rows ∧ row.name ≠ name := by
  simp [rows, delete, Table.keep]

theorem mem_setCIDR : row ∈ (blocks.setCIDR name old new desc).rows ↔ ∃ earlier ∈ blocks.rows,
        (if isBlock name old earlier then recut new desc earlier
          else earlier) = row := by
  show row ∈ (blocks.table.update (isBlock name old) (recut new desc)
    (recut_name new desc)).rows ↔ _
  exact Table.mem_update

theorem setCIDR_of_affected_eq_zero (missed : blocks.table.affected (isBlock name old) = 0) :
    blocks.setCIDR name old new desc = blocks :=
  Blocks.ext (Table.update_of_affected_eq_zero (recut_name new desc) missed) rfl

end Blocks

inductive Statement where
  | store (statement : Consumer.Statement)
  | clock
  | list
  | get (name : String)
  | create (row : Netblock) (compared : List Prefix)
  | setCIDR (name : String) (old new : Prefix) (description : Option String)
      (compared : List Prefix) (live : Option (List Addr))
  | delete (name : String) (old : Prefix) (live : Option (List Addr))
  | liveAddrs
  | readCache (process : Nat)
  | publish (process generation : Nat) (rows : List Netblock)
  | invalidate (process : Nat)

def Statement.Answer : Statement → Type
  | .store statement => statement.Answer
  | .clock => Int
  | .list => Except String (List Netblock)
  | .get _ => Except String (Option Netblock)
  | .create _ _ => Except Consumer.InsertError Netblock
  | .setCIDR _ _ _ _ _ _ => Except String Nat
  | .delete _ _ _ => Except String Unit
  | .liveAddrs => Except String (List Addr)
  | .readCache _ => Option (List Netblock) × Nat
  | .publish _ _ _ | .invalidate _ => Unit

structure World where
  store : Consumer.World
  netblocks : Blocks
  now : Int := 0
  caches : Nat → Option (List Netblock) := fun _ => none
  generations : Nat → Nat := fun _ => 0

/-- How a statement ends and how long it took; `evicted` says that another
mutation of the same process has invalidated the cache before it is read. -/
structure Choice where
  base : Consumer.Choice := {}
  elapsed : Nat := 0
  evicted : Bool := false

namespace World

variable (world : World)

def tick (choice : Choice) : World :=
  { world with now := world.now + choice.elapsed }

def database {Value : Type} (choice : Choice) (value : Value)
    (after : World) : Except String Value × World :=
  choice.base.fault.settle (.error choice.base.text) world (.ok value, after)

def create (choice : Choice) (row : Netblock) : Except Consumer.InsertError Netblock × World :=
  choice.base.fault.settle (.error (.failed choice.base.text)) world
    (match world.netblocks.create? row with
      | some blocks =>
        (.ok { row with id := blocks.lastID }, { world with netblocks := blocks })
      | none => (.error .duplicatedKey, world))

def setCIDR (name : String) (old new : Prefix) (description : Option String) :
    World :=
  { world with
    netblocks := world.netblocks.setCIDR name old new description }

def delete (name : String) : World :=
  { world with netblocks := world.netblocks.delete name }

def invalidate (process : Nat) : World :=
  { world with
    caches := Function.update world.caches process none
    generations := Function.update world.generations process
      (world.generations process + 1) }

def publish (process generation : Nat) (rows : List Netblock) : World :=
  if world.generations process = generation then
    { world with caches := Function.update world.caches process (some rows) }
  else world

end World

def perform (env : Consumer.Env) (choice : Choice) (world : World) :
    (statement : Statement) → statement.Answer × World
  | .store statement =>
    let outcome := Consumer.execute env { choice.base with now := world.now } world.store statement
    (outcome.1, { world with store := outcome.2 })
  | .clock => (world.now, world)
  | .list => world.database choice world.netblocks.listed world
  | .get name => world.database choice (world.netblocks.table.find name) world
  | .create row _ => world.create choice row
  | .setCIDR name old new description _ _ =>
    world.database choice (world.netblocks.table.affected (Blocks.isBlock name old))
      (world.setCIDR name old new description)
  | .delete name _ _ => world.database choice () (world.delete name)
  | .liveAddrs =>
    world.database choice (world.store.allocations.liveAddrs world.now) world
  | .readCache process =>
    let current := if choice.evicted then world.invalidate process else world
    ((current.caches process, current.generations process), current)
  | .publish process generation rows =>
    ((), world.publish process generation rows)
  | .invalidate process => ((), world.invalidate process)

def execute (env : Consumer.Env) (choice : Choice) (world : World)
    (statement : Statement) : statement.Answer × World :=
  perform env choice (world.tick choice) statement

abbrev Run := Procedure Statement Statement.Answer

abbrev send (statement : Statement) : Run statement.Answer :=
  Procedure.request statement

end Harbor.Netblocks
