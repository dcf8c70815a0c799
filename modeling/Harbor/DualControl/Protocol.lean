import Harbor.Library.Procedure
import Harbor.Library.Table
import Mathlib.Data.Finset.Card

/-!
# The dual-control protocol

`Controller.Propose`, `Approve` and `Deny` over the shared `approvals` tables,
cut at their SQL statements.  Isolation is READ COMMITTED: a statement sees
committed rows and those of its own transaction, an insert that collides with
a row of an open transaction waits for it, and an update waits for the row
lock.  A row inserted by an open transaction carries the call that owns it;
`locks` names the call whose open transaction has rewritten a change.

What a committer does is a parameter: `Program` says which kinds each
construction site registers and how a kind's committer changes the world.
-/

namespace Harbor.DualControl

open Library

inductive ChangeState where
  | pending
  | committing
  | committed
  | denied
  | failed
deriving DecidableEq, Repr

inductive Decision where
  | approve
  | deny
deriving DecidableEq, Repr

inductive Error where
  | notFound
  | notPending
  | selfApproval
  | duplicateActor
  | noProposer
  | noActor
  | commit
  | database
  | crashed
deriving DecidableEq, Repr

structure Change (Payload : Type) where
  id : Int
  kind : String
  target : String := ""
  payload : Payload
  state : ChangeState := .pending
  quorum : Int
  proposer : String
  createdAt : Int := 0
  decidedAt : Int := 0
deriving DecidableEq, Repr

/-- A sign-off row; `owner` is the call whose open transaction inserted it. -/
structure Signoff where
  changeID : Int
  actor : String
  decision : Decision
  createdAt : Int := 0
  owner : Option Nat := none
deriving DecidableEq, Repr

/-- The columns of the constraint `UNIQUE(change_id, actor)`. -/
def Signoff.key (signoff : Signoff) : Int × String :=
  (signoff.changeID, signoff.actor)

structure Program (Site Payload World : Type) where
  quorum : Site → Int
  registered : Site → List String
  commit : String → Change Payload → World → Option World

namespace Program

variable {Site Payload World : Type}

/-- `Controller.committer`: nil for a kind that was not registered here. -/
def committer (program : Program Site Payload World) (site : Site)
    (kind : String) : Option (Change Payload → World → Option World) :=
  if kind ∈ program.registered site then some (program.commit kind) else none

/-- `New` clamps the quorum to at least two. -/
def clampedQuorum (program : Program Site Payload World) (site : Site) : Int :=
  if program.quorum site < 2 then 2 else program.quorum site

end Program

structure Io where
  fault : Fault := .ok
  now : Int := 0

/-- The shared tables, the world the committers act on, and two logs: the
changes whose committer returned success and those whose `Deny` did. -/
structure Database (Payload World : Type) where
  changes : Table (@Change.id Payload)
  signoffs : Table Signoff.key
  locks : Int → Option Nat
  world : World
  applied : List (Change Payload)
  vetoed : List Int

inductive Call (Site Payload : Type) where
  | idle
  | approveLoad (site : Site) (id : Int) (actor : String)
  | approveDup (site : Site) (ch : Change Payload) (actor : String)
  | approveInsert (site : Site) (ch : Change Payload) (actor : String)
  | approveCount (site : Site) (ch : Change Payload)
  | approveCommit (site : Site) (ch : Change Payload) (quorumReached : Bool)
  | approveClaim (site : Site) (ch : Change Payload)
  | approveRun (site : Site) (ch : Change Payload)
  | approveFinalize (ch : Change Payload) (outcome : ChangeState)
  | reload (id : Int)
  | denyLoad (id : Int) (actor : String)
  | denyDup (ch : Change Payload) (actor : String)
  | denyInsert (ch : Change Payload) (actor : String)
  | denyUpdate (ch : Change Payload)
  | denyCommit (ch : Change Payload) (now : Int)
  | denyReload (id : Int)
  | returned (result : Except Error (Change Payload))

section

variable {Payload World : Type}

def visibleTo (me : Nat) (owner : Option Nat) : Bool :=
  owner == none || owner == some me

namespace Database

def stateOf (db : Database Payload World) (id : Int) : Option ChangeState :=
  (db.changes.find id).map Change.state

def hasVoted (db : Database Payload World) (me : Nat) (id : Int) (actor : String) : Bool :=
  db.signoffs.rows.any fun signoff =>
    signoff.changeID == id && signoff.actor == actor && visibleTo me signoff.owner

/-- The approve rows of a change whose owner passes `sees`. -/
def approveRows (db : Database Payload World) (sees : Option Nat → Bool)
    (id : Int) : List Signoff :=
  db.signoffs.rows.filter fun signoff =>
    signoff.changeID == id && signoff.decision == .approve && sees signoff.owner

def approversSeen (db : Database Payload World) (sees : Option Nat → Bool)
    (id : Int) : Finset String :=
  ((db.approveRows sees id).map Signoff.actor).toFinset

def approvers (db : Database Payload World) (id : Int) : Finset String :=
  db.approversSeen Option.isNone id

def releaseLocks (locks : Int → Option Nat) (me : Nat) : Int → Option Nat :=
  fun id => if locks id = some me then none else locks id

def rollback (db : Database Payload World) (me : Nat) :
    Database Payload World :=
  { db with
    signoffs := db.signoffs.keep fun signoff => signoff.owner != some me
    locks := releaseLocks db.locks me }

def publish (db : Database Payload World) (me : Nat) :
    Database Payload World :=
  { db with
    signoffs := db.signoffs.update (fun signoff => signoff.owner == some me)
      (fun signoff => { signoff with owner := none }) (fun _ => rfl)
    locks := releaseLocks db.locks me }

/-- `UPDATE approvals SET state = 'committing' WHERE id AND state = 'pending'`. -/
def claim (db : Database Payload World) (id : Int) : Database Payload World :=
  { db with
    changes := db.changes.update
      (fun row => row.id == id && row.state == .pending)
      (fun row => { row with state := .committing }) (fun _ => rfl) }

/-- `UPDATE approvals SET state, decided_at WHERE id`. -/
def decide (db : Database Payload World) (id : Int) (state : ChangeState)
    (now : Int) : Database Payload World :=
  { db with
    changes := db.changes.update (fun row => row.id == id)
      (fun row => { row with state := state, decidedAt := now })
      (fun _ => rfl) }

def lockedByOther (db : Database Payload World) (me : Nat) (id : Int) : Bool :=
  db.locks id != none && db.locks id != some me

end Database

end

section

variable {Site Payload World : Type}

def abort (me : Nat) (db : Database Payload World) (error : Error) :
    Database Payload World × Call Site Payload :=
  (db.rollback me, .returned (.error error))

def insertVote (me : Nat) (db : Database Payload World) (io : Io)
    (vote : Signoff) (next : Call Site Payload) :
    Option (Database Payload World × Call Site Payload) :=
  if io.fault ≠ .ok then some (abort me db .database)
  else
    match db.signoffs.insert? vote with
    | some signoffs => some ({ db with signoffs := signoffs }, next)
    | none =>
      if (db.signoffs.find vote.key).any (fun row => !visibleTo me row.owner) then none
      else some (abort me db .database)

def loadPending (me : Nat) (db : Database Payload World) (io : Io) (id : Int)
    (next : Change Payload → Database Payload World × Call Site Payload) :
    Database Payload World × Call Site Payload :=
  if io.fault ≠ .ok then abort me db .database
  else
    match db.changes.find id with
    | none => abort me db .notFound
    | some ch =>
      if ch.state ≠ .pending then abort me db .notPending else next ch

/-- One statement of `Approve`. -/
def advanceApprove (program : Program Site Payload World) (me : Nat)
    (db : Database Payload World) (io : Io) :
    Call Site Payload → Option (Database Payload World × Call Site Payload)
  | .approveLoad site id actor =>
    some (loadPending me db io id fun ch =>
      if actor = ch.proposer then abort me db .selfApproval
      else (db, .approveDup site ch actor))
  | .approveDup site ch actor =>
    if io.fault ≠ .ok then some (abort me db .database)
    else if db.hasVoted me ch.id actor then
      some (abort me db .duplicateActor)
    else some (db, .approveInsert site ch actor)
  | .approveInsert site ch actor =>
    insertVote me db io ⟨ch.id, actor, .approve, io.now, some me⟩ (.approveCount site ch)
  | .approveCount site ch =>
    if io.fault ≠ .ok then some (abort me db .database)
    else
      let approvals := (db.approveRows (visibleTo me) ch.id).length
      some (db, .approveCommit site ch (Decidable.decide (ch.quorum ≤ approvals)))
  | .approveCommit site ch quorumReached =>
    match io.fault with
    | .failed => some (abort me db .database)
    | .lost => some (db.publish me, .returned (.error .database))
    | .ok =>
      some (db.publish me,
        if quorumReached then .approveClaim site ch else .reload ch.id)
  | .approveClaim site ch =>
    if db.lockedByOther me ch.id then none
    else if io.fault = .failed then
      some (db, .returned (.error .database))
    else if db.stateOf ch.id = some .pending then
      some (db.claim ch.id,
        if io.fault = .ok then .approveRun site ch
        else .returned (.error .database))
    else
      some (db, if io.fault = .ok then .reload ch.id
        else .returned (.error .database))
  | .approveRun site ch =>
    match program.committer site ch.kind with
    | none => some (db, .approveFinalize ch .committed)
    | some commit =>
      match commit ch db.world, io.fault with
      | some world, .ok =>
        some ({ db with world := world, applied := db.applied ++ [ch] },
          .approveFinalize ch .committed)
      | some world, .lost =>
        some ({ db with world := world }, .approveFinalize ch .failed)
      | _, _ => some (db, .approveFinalize ch .failed)
  | .approveFinalize ch outcome =>
    if db.lockedByOther me ch.id then none
    else
      some (if io.fault = .failed then db
          else db.decide ch.id outcome io.now,
        if outcome = .failed then .returned (.error .commit)
        else .reload ch.id)
  | .reload id =>
    match io.fault, db.changes.find id with
    | .ok, some ch => some (db, .returned (.ok ch))
    | _, _ => some (db, .returned (.error .database))
  | _ => none

/-- One statement of `Deny`.  An error of the duplicate count is ignored, as in
the source. -/
def advanceDeny (me : Nat) (db : Database Payload World) (io : Io) :
    Call Site Payload → Option (Database Payload World × Call Site Payload)
  | .denyLoad id actor =>
    some (loadPending me db io id fun ch => (db, .denyDup ch actor))
  | .denyDup ch actor =>
    if io.fault = .ok ∧ db.hasVoted me ch.id actor = true then
      some (db, .denyUpdate ch)
    else some (db, .denyInsert ch actor)
  | .denyInsert ch actor =>
    insertVote me db io ⟨ch.id, actor, .deny, io.now, some me⟩ (.denyUpdate ch)
  | .denyUpdate ch =>
    if db.lockedByOther me ch.id then none
    else if io.fault ≠ .ok then some (abort me db .database)
    else
      some ({ db with locks := Function.update db.locks ch.id (some me) }, .denyCommit ch io.now)
  | .denyCommit ch now =>
    match io.fault with
    | .failed => some (abort me db .database)
    | .lost =>
      some ((db.decide ch.id .denied now).publish me, .returned (.error .database))
    | .ok =>
      some ((db.decide ch.id .denied now).publish me, .denyReload ch.id)
  | .denyReload id =>
    match io.fault, db.changes.find id with
    | .ok, some ch =>
      some ({ db with vetoed := db.vetoed ++ [id] }, .returned (.ok ch))
    | _, _ => some (db, .returned (.error .database))
  | _ => none

def advance (program : Program Site Payload World) (me : Nat)
    (db : Database Payload World) (io : Io) (call : Call Site Payload) :
    Option (Database Payload World × Call Site Payload) :=
  (advanceApprove program me db io call).or (advanceDeny me db io call)

end

inductive Request (Site : Type) where
  | approve (site : Site) (id : Int) (actor : String)
  | deny (id : Int) (actor : String)

inductive Event (Site Payload : Type) where
  | request (call : Nat) (request : Request Site)
  | statement (call : Nat) (io : Io)
  | crash (call : Nat)
  | propose (site : Site) (id : Int) (kind target : String)
      (payload : Payload) (proposer : String) (now : Int)

structure State (Site Payload World : Type) where
  db : Database Payload World
  calls : Nat → Call Site Payload

section

variable {Site Payload World : Type}

def accept : Request Site → Call Site Payload
  | .approve site id actor =>
    if actor = "" then .returned (.error .noActor)
    else .approveLoad site id actor
  | .deny id actor =>
    if actor = "" then .returned (.error .noActor) else .denyLoad id actor

/-- The transaction of `Propose`.  Both rows are new and invisible until it
commits, so it is one step. -/
def Database.propose (db : Database Payload World) (ch : Change Payload) :
    Option (Database Payload World) :=
  match db.changes.insert? ch,
      db.signoffs.insert? ⟨ch.id, ch.proposer, .approve, ch.createdAt, none⟩
      with
  | some changes, some signoffs =>
    some { db with changes := changes, signoffs := signoffs }
  | _, _ => none

def step (program : Program Site Payload World) (state : State Site Payload World) :
    Event Site Payload → Option (State Site Payload World)
  | .request call request =>
    match state.calls call with
    | .idle =>
      some { state with
        calls := Function.update state.calls call (accept request) }
    | _ => none
  | .statement call io =>
    (advance program call state.db io (state.calls call)).map fun (db, next) =>
        { db := db, calls := Function.update state.calls call next }
  | .crash call =>
    some
      { db := state.db.rollback call
        calls := Function.update state.calls call
          (.returned (.error .crashed)) }
  | .propose site id kind target payload proposer now =>
    if proposer = "" then none
    else
      (state.db.propose
        { id := id, kind := kind, target := target, payload := payload,
          quorum := program.clampedQuorum site, proposer := proposer,
          createdAt := now }).map fun db => { state with db := db }

structure Quiet (state : State Site Payload World) : Prop where
  calls : ∀ call, state.calls call = .idle
  locks : ∀ id, state.db.locks id = none
  owners : ∀ signoff ∈ state.db.signoffs.rows, signoff.owner = none
  applied : state.db.applied = []
  vetoed : state.db.vetoed = []

def State.initial (world : World) : State Site Payload World where
  db :=
    { changes := .empty, signoffs := .empty
      locks := fun _ => none, world := world, applied := [], vetoed := [] }
  calls _ := .idle

theorem State.initial_quiet (w : World) : Quiet (State.initial w : State Site Payload World) where
  calls _ := rfl
  locks _ := rfl
  owners _ member := (List.not_mem_nil member).elim
  applied := rfl
  vetoed := rfl

end

end Harbor.DualControl
