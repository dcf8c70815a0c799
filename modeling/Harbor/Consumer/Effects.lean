import Harbor.Consumer.Conduct

/-!
# Effects of single statements

What `execute` does to the tables, for the arguments about interleaved calls:
reads change nothing, and a statement that writes ends in one of three ways.
-/

namespace Harbor.Consumer

open Library Ipam Queue Table

inductive Part where
  | enrollments
  | joinKeys
  | nonces
  | devices
  | allocations
  | items
  | results
deriving DecidableEq

def Statement.writes : Statement → Option Part
  | .createEnrollment _ | .claimIssued _ _ | .claimDenied _ _ _ =>
    some .enrollments
  | .consumeJoinKey _ _ => some .joinKeys
  | .observe _ => some .nonces
  | .firstOrCreateDevice _ _ => some .devices
  | .purgeExpiredQuarantine | .createAllocation _ | .deleteAllocation _
  | .quarantineAllocation _ _ => some .allocations
  | .claim _ _ | .ackItem _ | .nackItem _ => some .items
  | .putResult _ => some .results
  | _ => none

structure World.Framed (part : Option Part) (before after : World) : Prop where
  enrollments : part ≠ some .enrollments → after.enrollments = before.enrollments
  joinKeys : part ≠ some .joinKeys → after.joinKeys = before.joinKeys
  nonces : part ≠ some .nonces → after.nonces = before.nonces
  devices : part ≠ some .devices → after.devices = before.devices
  allocations : part ≠ some .allocations → after.allocations = before.allocations
  items : part ≠ some .items → after.items = before.items ∧ after.acked = before.acked
  results : part ≠ some .results →
    after.results = before.results ∧ after.delivered = before.delivered

theorem World.Framed.refl (part : Option Part) (w : World) :
    World.Framed part w w :=
  ⟨fun _ => rfl, fun _ => rfl, fun _ => rfl, fun _ => rfl, fun _ => rfl,
    fun _ => ⟨rfl, rfl⟩, fun _ => ⟨rfl, rfl⟩⟩

variable {V : Type}

theorem database_ok {io : Choice} (ok : io.fault = .ok) (was : World) (val : V) (new : World) :
    io.database was val new = (.ok val, new) := by
  simp [Choice.database, Fault.settle, ok]

theorem createAllocation_ok {io : Choice} (ok : io.fault = .ok)
    {w : World} (row : Allocation) : w.createAllocation io row =
      match w.allocations.insert? row with
      | some allocs => (.ok (), { w with allocations := allocs })
      | none => (.error .duplicatedKey, w) := by
  unfold World.createAllocation
  rw [ok]
  rfl

theorem database_cases (io : Choice) (was : World)
    (val : V) (new : World) : io.database was val new = (.ok val, new) ∨
      io.database was val new = (.error io.text, was) ∨
      io.database was val new = (.error io.text, new) := by
  unfold Choice.database Fault.settle
  cases io.fault with
  | ok => exact .inl rfl
  | failed => exact .inr (.inl rfl)
  | lost => exact .inr (.inr rfl)

theorem database_framed (io : Choice) (v : V) (frame : World.Framed part was new) :
    World.Framed part was (io.database was v new).2 := by
  rcases database_cases io was v new with ended | ended | ended
  · rw [ended]
    exact frame
  · rw [ended]
    exact .refl part was
  · rw [ended]
    exact frame

theorem execute_framed (env : Env) (io : Choice) (w : World) (s : Statement) :
    World.Framed s.writes w (execute env io w s).2 := by
  cases s with
  | observe nonce =>
    change World.Framed _ w (w.observe io env nonce).2
    unfold World.observe
    split
    · apply database_framed
      constructor <;> simp [Statement.writes]
    · exact database_framed io _ (.refl _ w)
  | firstOrCreateDevice n made =>
    change World.Framed _ w (w.firstOrCreateDevice io n made).2
    unfold World.firstOrCreateDevice
    split
    · exact database_framed io _ (.refl _ w)
    · dsimp only
      split
      · apply database_framed
        constructor <;> simp [Statement.writes]
      · exact .refl _ w
  | createEnrollment row =>
    change World.Framed _ w (w.createEnrollment io row).2
    unfold World.createEnrollment
    split
    · apply database_framed
      constructor <;> simp [Statement.writes]
    · exact .refl _ w
  | createAllocation row =>
    change World.Framed _ w (w.createAllocation io row).2
    unfold World.createAllocation Fault.settle
    cases io.fault with
    | failed => exact .refl _ w
    | ok | lost =>
      dsimp only
      split
      · constructor <;> simp [Statement.writes]
      · exact .refl _ w
  | nackItem id =>
    change World.Framed _ w (w.nackItem io env id).2
    unfold World.nackItem
    split
    · apply database_framed
      constructor <;> simp [Statement.writes]
    · exact .refl _ w
  | _ =>
    first
    | exact World.Framed.refl _ w
    | exact database_framed io _ (.refl _ w)
    | apply database_framed
      constructor <;> simp [Statement.writes]

theorem execute_read (env : Env) (io : Choice) (w : World) (read : s.writes = none) :
    (execute env io w s).2 = w := by
  have frame := execute_framed env io w s
  rw [read] at frame
  obtain ⟨rows, joinKeys, nonces, devices, allocs, xs, res⟩ := frame
  generalize (execute env io w s).2 = new at *
  cases new
  cases w
  simp_all

theorem claim_answer (ans : Except String Nat) :
    (∃ count, ans = .ok (count + 1)) ∨ ans = .ok 0 ∨ ∃ t, ans = .error t := by
  match ans with
  | .ok (count + 1) => exact .inl ⟨count, rfl⟩
  | .ok 0 => exact .inr (.inl rfl)
  | .error t => exact .inr (.inr ⟨t, rfl⟩)

theorem affected_isPending (rs : EnrollmentRows) (id : String) :
    rs.affected (World.isPending id) ≠ 0 ↔
      ∃ row, rs.find id = some row ∧ row.status = .pending := by
  simp only [Table.affected, ne_eq, List.countP_eq_zero, not_forall]
  constructor
  · rintro ⟨row, mem, sel⟩
    simp only [World.isPending, Bool.and_eq_true, beq_iff_eq, Classical.not_not] at sel
    exact ⟨row, find_eq_some_iff.mpr ⟨mem, sel.1⟩, sel.2⟩
  · rintro ⟨row, hit, due⟩
    obtain ⟨mem, eq⟩ := find_eq_some_iff.mp hit
    exact ⟨row, mem, by simp [World.isPending, eq, due]⟩

theorem find_claimed {rs : EnrollmentRows} {id want : String} {ch : Enrollment → Enrollment}
    (keyKept : ∀ row, (ch row).enrollmentID = row.enrollmentID) :
    (rs.update (World.isPending id) ch keyKept).find want = (rs.find want).map fun row =>
        if want = id ∧ row.status = .pending then ch row
        else row := by
  rw [find_update]
  cases hit : rs.find want with
  | none => rfl
  | some row =>
    obtain ⟨_, eq⟩ := find_eq_some_iff.mp hit
    simp [World.isPending, eq]

end Harbor.Consumer
