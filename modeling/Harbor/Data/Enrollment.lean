import Harbor.Library.Table

/-!
# The enrollments table

One row per enrollment attempt.  A JSON array column is represented by the
list every reader decodes from it.
-/

namespace Harbor

open Library

abbrev Bytes := List UInt8

namespace Enrollment

inductive Status where
  | pending
  | issued
  | denied
  deriving DecidableEq, Repr

end Enrollment

/-- A row of `enrollments`. -/
structure Enrollment where
  id : Int
  enrollmentID : String := ""
  deviceName : String := ""
  pubkeyHash : String := ""
  pubkey : Bytes := []
  method : String := ""
  joinKeyID : Int := 0
  groups : List String := []
  desiredGroups : List String := []
  groupsGeneration : Int := 0
  issuedGeneration : Int := 0
  reductionPendingEnforcement : Bool := false
  reductionOldNotAfter : Int := 0
  subRange : String := ""
  status : Enrollment.Status
  certPEM : Bytes := []
  overlayIP : String := ""
  fingerprint : String := ""
  caFingerprint : String := ""
  createdAt : Int := 0
  decidedAt : Int := 0
  approver : String := ""
  ephemeral : Bool := false
  attestProvider : String := ""
  attestAccount : String := ""
  attestPrincipal : String := ""
  attestRegion : String := ""
  verifiedAt : Int := 0
  goos : String := ""
  goarch : String := ""
  deriving DecidableEq, Repr

namespace Enrollment

/-- `overlay_ip = ? AND status = 'issued'`. -/
def issuedAt (ip : String) (row : Enrollment) : Bool :=
  row.overlayIP == ip && row.status == .issued

end Enrollment

abbrev Enrollments := Table Enrollment.id

end Harbor
