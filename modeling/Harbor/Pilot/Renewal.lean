import Harbor.Library.Files

/-!
# Renewing the identity of a host

`Renew` asks for a certificate for a fresh key and, when the response verifies,
replaces the files of the host one after the other: the private key by a
rename, the other files by plain writes.  Parsing and verification are
functions of the files; the response is any.
-/

namespace Harbor.Pilot

open Library
open Library.FileProcedure

/-- The files of the layout that `Renew` reads or writes. -/
inductive HostFile where
  | hostKey
  | hostKeyNew
  | hostPub
  | caBundle
  | hostCert
  | bundle
  | trust
  | trustTmp
  | config
deriving DecidableEq, Repr

structure HostBundle (Byte : Type) where
  caBundle : List (List Byte)
  certificate : List Byte
  configKeyVersion : Int := 0
  configSigningKeys : List (List Byte) := []

structure Codec (Byte Key : Type) where
  newline : Byte
  /-- The public key that belongs to a private-key file. -/
  privateKey : List Byte → Option Key
  /-- The public key of the leaf in a certificate file. -/
  leafKey : List Byte → Option Key
  /-- Whether a CA bundle parses. -/
  poolParses : List Byte → Bool
  /-- Whether a leaf verifies against a CA bundle. -/
  verifies : List Byte → List Byte → Bool
  /-- The signed bundle in the body of a response. -/
  renewResponse : List Byte → Option (List Byte)
  /-- A bundle that verifies under the pins and the learned trust file. -/
  verifyBundle : Option (List Byte) → List Byte → Option (HostBundle Byte)
  /-- The version of a trust file; that of an unreadable one is 0. -/
  trustVersion : List Byte → Int
  encodeTrust : Int → List (List Byte) → List Byte
  renderNebulaConfig : HostBundle Byte → Option (List Byte)

inductive RenewError (Byte : Type) where
  | transport
  | status (code : Nat) (body : List Byte)
  | response
  | bundle
  | parseCABundle
  | parseLeaf
  | notVerified
  | notOurKey
  | hostKey
  | hostPub
  | artifacts
deriving DecidableEq, Repr

structure KeyPair {Byte Key : Type} (codec : Codec Byte Key) where
  publicKey : Key
  privateKeyPEM : List Byte
  publicKeyPEM : List Byte
  parses : codec.privateKey privateKeyPEM = some publicKey

abbrev HostProcedure (Byte Value : Type) : Type :=
  FileProcedure HostFile (List Byte) Value

section

variable {Byte Key : Type} [DecidableEq Key] (codec : Codec Byte Key)

/-- `strings.Join(b.CABundle, "\n")`. -/
def joinedCABundle (b : HostBundle Byte) : List Byte :=
  List.intercalate [codec.newline] b.caBundle

def verifyCert (b : HostBundle Byte) (publicKey : Key) : Except (RenewError Byte) Unit :=
  if codec.poolParses (joinedCABundle codec b) then
    match codec.leafKey b.certificate with
    | none => .error .parseLeaf
    | some leaf =>
      if codec.verifies (joinedCABundle codec b) b.certificate then
        if leaf = publicKey then .ok () else .error .notOurKey
      else .error .notVerified
  else .error .parseCABundle

def writePrivateKeyAtomic (keys : KeyPair codec) : HostProcedure Byte Bool := do
  if ← writeFile .hostKeyNew keys.privateKeyPEM then
    rename .hostKeyNew .hostKey
  else
    pure false

def persistTrustFile (version : Int) (keys : List (List Byte)) :
    HostProcedure Byte Bool :=
  if keys.isEmpty then
    pure true
  else do
    let current ← readFile .trust
    if version < (current.toOption.map codec.trustVersion).getD 0 then
      pure true
    else if ← writeFile .trustTmp (codec.encodeTrust version keys) then
      rename .trustTmp .trust
    else
      pure false

/-- The part of `writeArtifacts` after the certificate. -/
def writeConfiguration (b : HostBundle Byte) (raw : List Byte) :
    HostProcedure Byte Bool := do
  if ← writeFile .bundle raw then
    if ← persistTrustFile codec b.configKeyVersion b.configSigningKeys then
      match codec.renderNebulaConfig b with
      | some config => writeFile .config config
      | none => pure false
    else
      pure false
  else
    pure false

def writeArtifacts (b : HostBundle Byte) (raw : List Byte) :
    HostProcedure Byte Bool := do
  if ← writeFile .caBundle (joinedCABundle codec b) then
    if ← writeFile .hostCert b.certificate then
      writeConfiguration codec b raw
    else
      pure false
  else
    pure false

/-- The part of `Renew` after the checks. -/
def rotate (keys : KeyPair codec) (b : HostBundle Byte) (raw : List Byte) :
    HostProcedure Byte (Except (RenewError Byte) Unit) := do
  if ← writePrivateKeyAtomic codec keys then
    if ← writeFile .hostPub keys.publicKeyPEM then
      let written ← writeArtifacts codec b raw
      pure (if written then .ok () else .error .artifacts)
    else
      pure (.error .hostPub)
  else
    pure (.error .hostKey)

/-- The part of `Renew` after the response is decoded. -/
def applyBundle (keys : KeyPair codec) (raw : List Byte) (trust : Option (List Byte)) :
    HostProcedure Byte (Except (RenewError Byte) Unit) :=
  match codec.verifyBundle trust raw with
  | none => pure (.error .bundle)
  | some b =>
    match verifyCert codec b keys.publicKey with
    | .error failure => pure (.error failure)
    | .ok () => rotate codec keys b raw

/-- `Renew` with the key pair it generated, on the status and body of the
response, if there is one. -/
def renew (keys : KeyPair codec) (response : Option (Nat × List Byte)) :
    HostProcedure Byte (Except (RenewError Byte) Unit) :=
  match response with
  | none => pure (.error .transport)
  | some (code, body) =>
    if code ≠ 200 then
      pure (.error (.status code body))
    else
      match codec.renewResponse body with
      | none => pure (.error .response)
      | some raw => do
        let trust ← readFile .trust
        applyBundle codec keys raw trust.toOption

def runRenew (keys : KeyPair codec) (response : Option (Nat × List Byte))
    (outcomes : List Outcome) (disk : Disk HostFile (List Byte)) :
    Option (Except (RenewError Byte) Unit) × Disk HostFile (List Byte) :=
  (renew codec keys response).cut (FileOp.perform List.take) outcomes disk

end

/-! ## The identity on disk -/

section

variable {Byte Key : Type} {codec : Codec Byte Key}
  {keys : KeyPair codec} {b : HostBundle Byte} {raw : List Byte}
  {disk fin : Disk HostFile (List Byte)} {outcomes : List Outcome}

def Usable (codec : Codec Byte Key) (disk : Disk HostFile (List Byte)) :
    Prop :=
  ∃ privateKey certificate caBundle key,
    disk .hostKey = some privateKey ∧ disk .hostCert = some certificate ∧
      disk .caBundle = some caBundle ∧ codec.privateKey privateKey = some key ∧
      codec.leafKey certificate = some key ∧ codec.verifies caBundle certificate = true

def Old (before after : Disk HostFile (List Byte)) : Prop :=
  after .hostKey = before .hostKey ∧ after .hostCert = before .hostCert ∧
    after .caBundle = before .caBundle

def New (keys : KeyPair codec) (b : HostBundle Byte) (after : Disk HostFile (List Byte)) : Prop :=
  after .hostKey = some keys.privateKeyPEM ∧ after .hostCert = some b.certificate ∧
    after .caBundle = some (joinedCABundle codec b)

theorem Usable.paired (fit : Usable codec disk) : (disk .hostKey).bind codec.privateKey =
      (disk .hostCert).bind codec.leafKey := by
  obtain ⟨privateKey, cert, -, key, kept, sent, -, read, cap, -⟩ := fit
  rw [kept, sent, Option.bind_some, Option.bind_some, read, cap]

theorem Old.usable (old : Old disk fin) (fit : Usable codec disk) :
    Usable codec fin := by
  obtain ⟨keyEq, sameCert, sameCA⟩ := old
  unfold Usable
  rw [keyEq, sameCert, sameCA]
  exact fit

theorem old_of_agree (eq : AgreeExcept [.hostKeyNew] disk fin) :
    Old disk fin :=
  ⟨eq _ (by decide), eq _ (by decide), eq _ (by decide)⟩

def later : List HostFile :=
  [.bundle, .trust, .trustTmp, .config]

theorem New.of_agree (new : New keys b disk) (eq : AgreeExcept later disk fin) : New keys b fin :=
  ⟨(eq _ (by decide)).trans new.1, (eq _ (by decide)).trans new.2.1,
    (eq _ (by decide)).trans new.2.2⟩

theorem persistTrustFile_touches (v : Int) (trusted : List (List Byte)) :
    (persistTrustFile codec v trusted).Issues (FileOp.Touches later) fun _ => True := by
  unfold persistTrustFile
  split
  · trivial
  · refine Procedure.issues_send trivial fun cur => ?_
    split
    · trivial
    · have staged : HostFile.trustTmp ∈ later := by decide
      have tgt : HostFile.trust ∈ later := by decide
      refine Procedure.issues_send staged fun put => ?_
      split
      · exact ⟨⟨staged, tgt⟩, fun _ => trivial⟩
      · trivial

theorem writeConfiguration_touches : (writeConfiguration codec b raw).Issues (FileOp.Touches later)
      fun _ => True := by
  have pack : HostFile.bundle ∈ later := by decide
  have cfg : HostFile.config ∈ later := by decide
  refine Procedure.issues_send pack fun put => ?_
  split
  · refine (persistTrustFile_touches _ _).bind fun persisted _ => ?_
    split
    · split
      · exact ⟨cfg, fun _ => trivial⟩
      · trivial
    · trivial
  · trivial

/-- When the rename of the key takes effect, the public key, the CA bundle and
the certificate are written completely. -/
def Uninterrupted (outcomes : List Outcome) : Prop :=
  [.ok, .ok] <+: outcomes → [.ok, .ok, .ok, .ok, .ok] <+: outcomes

theorem rotate_pair (alone : Uninterrupted outcomes) :
    Old disk ((rotate codec keys b raw).cut (FileOp.perform List.take) outcomes disk).2 ∨
      New keys b ((rotate codec keys b raw).cut (FileOp.perform List.take) outcomes disk).2 := by
  have stay : AgreeExcept [.hostKeyNew] disk disk := .refl
  have beside : ∀ text, Old disk (Function.update disk .hostKeyNew text) := by
    intro text
    exact old_of_agree (stay.update (by decide) text)
  match outcomes with
  | [] | .failed :: _ => exact .inl (old_of_agree stay)
  | .torn length :: _ | [.ok] | .ok :: .failed :: _ | .ok :: .torn _ :: _ => exact .inl (beside _)
  | .ok :: .ok :: _ =>
    obtain ⟨rest, same⟩ := alone (by simp)
    rw [← same]
    exact .inr (New.of_agree ⟨rfl, rfl, rfl⟩ (cut_agrees writeConfiguration_touches.map rest _))

variable [DecidableEq Key] {response : Option (Nat × List Byte)}

theorem New.usable (new : New keys b fin) (good : verifyCert codec b keys.publicKey = .ok ()) :
    Usable codec fin := by
  unfold verifyCert at good
  cases read : codec.poolParses (joinedCABundle codec b) with
  | false => simp [read] at good
  | true =>
    cases hit : codec.leafKey b.certificate with
    | none => simp [read, hit] at good
    | some l =>
      simp only [read, hit, if_true] at good
      split_ifs at good with chain cap
      exact ⟨_, _, _, l, new.1, new.2.1, new.2.2, cap ▸ keys.parses, hit, chain⟩

def Whole (keys : KeyPair codec) (before after : Disk HostFile (List Byte)) :
    Prop :=
  Old before after ∨ ∃ b, verifyCert codec b keys.publicKey = .ok () ∧ New keys b after

theorem Whole.usable (all : Whole keys disk fin) (fit : Usable codec disk) : Usable codec fin := by
  rcases all with old | ⟨b, good, new⟩
  · exact old.usable fit
  · exact new.usable good

theorem applyBundle_whole (alone : Uninterrupted outcomes) (trust : Option (List Byte)) :
    Whole keys disk ((applyBundle codec keys raw trust).cut
      (FileOp.perform List.take) outcomes disk).2 := by
  unfold applyBundle
  split
  · exact .inl ⟨rfl, rfl, rfl⟩
  · rename_i b took
    split
    · exact .inl ⟨rfl, rfl, rfl⟩
    · rename_i good
      rcases rotate_pair alone with old | new
      · exact .inl old
      · exact .inr ⟨b, good, new⟩

/-- A renewal, cut off or failing anywhere but between the rename of the key and
the end of the certificate, leaves a usable identity: all files old or all
new.  The first outcome is that of reading the trust file. -/
theorem renewal_keeps_identity (usable : Usable codec disk)
    (uninterrupted : Uninterrupted outcomes.tail) :
    Usable codec (runRenew codec keys response outcomes disk).2 ∧
      Whole keys disk (runRenew codec keys response outcomes disk).2 := by
  have whole : Whole keys disk (runRenew codec keys response outcomes disk).2 := by
    unfold runRenew renew
    split
    · exact .inl ⟨rfl, rfl, rfl⟩
    · split
      · exact .inl ⟨rfl, rfl, rfl⟩
      · split
        · exact .inl ⟨rfl, rfl, rfl⟩
        · rename_i raw decoded
          cases outcomes with
          | nil => exact .inl ⟨rfl, rfl, rfl⟩
          | cons outcome outcomes =>
            show Whole keys disk ((applyBundle codec keys raw _).cut _
              outcomes (FileOp.perform List.take outcome disk (.read .trust)).2).2
            rw [perform_read]
            exact applyBundle_whole uninterrupted _
  exact ⟨whole.usable usable, whole⟩

end

namespace Example

/-- Keys are numbers; a private key is written 1 and the number, a certificate 2
and the number, and there is one CA. -/
def codec : Codec Nat Nat where
  newline := 0
  privateKey
    | [1, key] => some key
    | _ => none
  leafKey
    | [2, key] => some key
    | _ => none
  poolParses ca := ca == [3]
  verifies ca certificate := ca == [3] && certificate.length == 2
  renewResponse body := some body
  verifyBundle _ raw := some { caBundle := [[3]], certificate := raw }
  trustVersion _ := 0
  encodeTrust _ _ := []
  renderNebulaConfig _ := some [4]

def fresh : KeyPair codec where
  publicKey := 8
  privateKeyPEM := [1, 8]
  publicKeyPEM := [8]
  parses := rfl

def host : Disk HostFile (List Nat)
  | .hostKey => some [1, 7]
  | .hostCert => some [2, 7]
  | .caBundle => some [3]
  | _ => none

def after (outcomes : List Outcome) : Disk HostFile (List Nat) :=
  (runRenew codec fresh (some (200, [2, 8])) outcomes host).2

end Example

open Example

theorem renewal_keeps_identity_torn_bundle : Uninterrupted [.ok, .ok, .ok, .ok, .ok, .torn 1] ∧
      Usable codec (after [.ok, .ok, .ok, .ok, .ok, .ok, .torn 1]) ∧
      Whole fresh host (after [.ok, .ok, .ok, .ok, .ok, .ok, .torn 1]) := by
  have usable : Usable codec host :=
    ⟨[1, 7], [2, 7], [3], 7, rfl, rfl, rfl, rfl, rfl, rfl⟩
  have uninterrupted : Uninterrupted [.ok, .ok, .ok, .ok, .ok, .torn 1] := by
    unfold Uninterrupted
    decide
  exact ⟨uninterrupted, @renewal_keeps_identity Nat Nat codec
    fresh host [.ok, .ok, .ok, .ok, .ok, .ok, .torn 1] _ (some (200, [2, 8])) usable uninterrupted⟩

/-- A renewal that is cut off after the rename of the key, or fails on the next
write, leaves the new key with the old certificate; one that is cut off in the
write of the certificate leaves a part of it. -/
theorem renewal_loses_identity : Usable codec host ∧ (after [.ok, .ok, .ok] .hostKey = some [1, 8] ∧
        after [.ok, .ok, .ok] .hostCert = some [2, 7]) ∧ (runRenew codec fresh (some (200, [2, 8]))
          [.ok, .ok, .ok, .failed] host).1 = some (.error .hostPub) ∧
      after [.ok, .ok, .ok, .failed] .hostCert = some [2, 7] ∧
      after [.ok, .ok, .ok, .ok, .ok, .torn 1] .hostCert = some [2] ∧
      ∀ outcomes ∈ [[.ok, .ok, .ok], [.ok, .ok, .ok, .failed], [.ok, .ok, .ok, .ok, .ok, .torn 1]],
        ¬ Usable codec (after outcomes) := by
  refine ⟨⟨[1, 7], [2, 7], [3], 7, rfl, rfl, rfl, rfl, rfl, rfl⟩, by decide,
    rfl, by decide, by decide, ?_⟩
  have unpaired : ∀ outcomes ∈ [[.ok, .ok, .ok], [.ok, .ok, .ok, .failed],
      [.ok, .ok, .ok, .ok, .ok, .torn 1]], (after outcomes .hostKey).bind codec.privateKey ≠
        (after outcomes .hostCert).bind codec.leafKey := by
    decide
  intro outcomes listed usable
  exact unpaired outcomes listed usable.paired

end Harbor.Pilot
