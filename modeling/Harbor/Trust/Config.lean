import Harbor.AwsAttest.Verify
import Harbor.Policy.Reserved
import Mathlib.Data.List.Sort

/-!
# Trust configurations

`cloudtrust.Config` says which AWS principals may attest into the mesh,
`usertrust.Config` which directory groups may enroll through SSO.  Both carry a
fleet-wide list of default groups and a list of entries, resolve an identity
by the first entry that matches it, and count as privileged when they grant a
reserved group or issue without an approval.
-/

namespace Harbor.Trust

open Policy

def mergeGroups (defaults granted : List String) : List String :=
  (defaults ++ granted).dedup.insertionSort (· ≤ ·)

/-- The privilege predicate of both packages over their entries, each with its
auto-issue flag and the groups it grants. -/
def privileged (defaults : List String) (entries : List (Bool × List String)) :
    Bool :=
  defaults.any isReservedGroup || entries.any fun entry => entry.1 || entry.2.any isReservedGroup

structure Grant where
  groups : List String
  netblock : String
  autoIssue : Bool
deriving DecidableEq, Repr

end Harbor.Trust

namespace Harbor.AwsAttest

open Library.Text

def matchParts : List (List Char) → List Char → Bool
  | [], _ => false
  | [last], text => last.isSuffixOf text
  | part :: parts, text =>
    match afterFirst part text with
    | none => false
    | some rest => matchParts parts rest

def matchGlob (pattern text : String) : Bool :=
  match pattern.toList.splitOn '*' with
  | [] => false
  | [_] => pattern == text
  | first :: parts =>
    first.isPrefixOf text.toList && matchParts parts (text.toList.drop first.length)

structure Policy where
  accounts : List String
  arnPatterns : List String
deriving DecidableEq, Repr

/-- `Policy.Check`; the error names what is not allowed. -/
def Policy.check (gate : Policy) (id : Identity) : Except String Unit :=
  if !gate.accounts.isEmpty && !gate.accounts.contains id.account then
    .error ("awsattest: caller account/role is not allowlisted: account " ++ id.account)
  else if !gate.arnPatterns.isEmpty && !gate.arnPatterns.any (matchGlob · id.arn) then
    .error ("awsattest: caller account/role is not allowlisted: arn " ++ id.arn)
  else .ok ()

end Harbor.AwsAttest

namespace Harbor.CloudTrust

open AwsAttest Trust

def providerAWS : String := "aws"

structure AWSAccount where
  account : String := ""
  arnPatterns : List String := []
  groups : List String := []
  autoIssue : Bool := false
  netblock : String := ""
deriving DecidableEq, Repr

structure Config where
  defaultGroups : List String := []
  aws : List AWSAccount := []
deriving DecidableEq, Repr

inductive Error where
  | empty
  | noAccount
  | dupAccount (account : String)
deriving DecidableEq, Repr

def Error.message : Error → String
  | .empty => "cloudtrust: at least one trusted principal is required"
  | .noAccount => "cloudtrust: each AWS entry needs an account id"
  | .dupAccount account =>
    "cloudtrust: duplicate AWS account entry: " ++ account

/-- The loop of `Validate` with the accounts seen so far. -/
def validateAccounts (seen : List String) : List AWSAccount → Except Error Unit
  | [] => .ok ()
  | a :: rest =>
    if a.account = "" then .error .noAccount
    else if a.account ∈ seen then .error (.dupAccount a.account)
    else validateAccounts (a.account :: seen) rest

def validate (c : Config) : Except Error Unit :=
  if c.aws.isEmpty then .error .empty else validateAccounts [] c.aws

def containsPrivileged (c : Config) : Bool :=
  privileged c.defaultGroups (c.aws.map fun a => (a.autoIssue, a.groups))

def Config.resolveGroups (c : Config) (principalGroups : List String) :
    List String :=
  mergeGroups c.defaultGroups principalGroups

def Config.matchAWS (c : Config) (id : Identity) : Option Grant :=
  (c.aws.find? fun a =>
    (Policy.check ⟨[a.account], a.arnPatterns⟩ id).toBool).map fun a =>
      { groups := c.resolveGroups a.groups
        netblock := a.netblock
        autoIssue := a.autoIssue }

end Harbor.CloudTrust

namespace Harbor.UserTrust

open Policy Trust

/-- `MeshGroups` distinguishes a nil slice from an empty one, since the field
is written out in both cases. -/
structure IDPEntry where
  realm : String := ""
  directoryGroup : String := ""
  meshGroups : Option (List String) := none
  autoIssue : Bool := false
  netblock : String := ""
deriving DecidableEq, Repr

def IDPEntry.granted (e : IDPEntry) : List String :=
  e.meshGroups.getD []

structure Config where
  defaultGroups : List String := []
  idpEntries : List IDPEntry := []
deriving DecidableEq, Repr

inductive Error where
  | empty
  | noRealm
  | noGroup
  | duplicateGroup (realm directoryGroup : String)
  | grantsNothing (realm directoryGroup : String)
  | autoIssuePrivileged (realm directoryGroup detail : String)
deriving DecidableEq, Repr

def Error.message : Error → String
  | .empty => "usertrust: at least one IdP entry is required"
  | .noRealm => "usertrust: each IdP entry needs a realm"
  | .noGroup => "usertrust: each IdP entry needs a directory_group"
  | .duplicateGroup realm directoryGroup =>
    "usertrust: duplicate (realm, directory_group) entry: realm=" ++ realm ++
      " directory_group=" ++ directoryGroup
  | .grantsNothing realm directoryGroup =>
    "usertrust: entry grants no groups (no mesh_groups and no " ++
      "default_groups): realm=" ++ realm ++ " directory_group=" ++ directoryGroup
  | .autoIssuePrivileged realm directoryGroup detail =>
    "usertrust: auto_issue entry grants a reserved/privileged group " ++
      "(admin/privileged groups never auto-issue): realm=" ++ realm ++
      " directory_group=" ++ directoryGroup ++ " " ++ detail

def reservedGrant (defaults : List String) (e : IDPEntry) : Option String :=
  match e.granted.find? isReservedGroup with
  | some g => some ("group=" ++ g)
  | none =>
    (defaults.find? isReservedGroup).map fun g => "default_group=" ++ g

/-- The loop of `Validate` with the keys seen so far. -/
def validateEntries (defaults : List String) (seen : List (String × String)) :
    List IDPEntry → Except Error Unit
  | [] => .ok ()
  | e :: rest =>
    if e.realm = "" then .error .noRealm
    else if e.directoryGroup = "" then .error .noGroup
    else if (e.realm, e.directoryGroup) ∈ seen then
      .error (.duplicateGroup e.realm e.directoryGroup)
    else if e.granted.isEmpty && defaults.isEmpty then
      .error (.grantsNothing e.realm e.directoryGroup)
    else
      match e.autoIssue, reservedGrant defaults e with
      | true, some detail =>
        .error (.autoIssuePrivileged e.realm e.directoryGroup detail)
      | _, _ =>
        validateEntries defaults ((e.realm, e.directoryGroup) :: seen) rest

def validate (c : Config) : Except Error Unit :=
  if c.idpEntries.isEmpty then .error .empty
  else validateEntries c.defaultGroups [] c.idpEntries

def containsPrivileged (c : Config) : Bool :=
  privileged c.defaultGroups (c.idpEntries.map fun e => (e.autoIssue, e.granted))

def resolveGroups (defaults entryGroups : List String) : List String :=
  mergeGroups defaults entryGroups

/-- `Match`: the first entry for the realm whose directory group the user is
in. -/
def matchEntries (cfg : Config) (realm : String) (userGroups : List String) :
    Option Grant :=
  (cfg.idpEntries.find? fun e =>
    e.realm == realm && userGroups.contains e.directoryGroup).map fun e =>
      { groups := resolveGroups cfg.defaultGroups e.granted
        netblock := e.netblock
        autoIssue := e.autoIssue }

end Harbor.UserTrust
