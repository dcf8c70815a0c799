import Harbor.Lighthouse.Registry

/-!
# Discovery is never lost

A `Remove` relies on the count it has read until it commits.  While at most one
of them does, there is one active lighthouse more than there are removals under
way; two that count at the same time can each rely on the other's row.
-/

namespace Harbor.Lighthouse

open Library

section

variable {reg fin : Registry} {io : Io} {call next : Call}

inductive Effect (registry : Registry) (call : Call) : Registry → Call → Prop where
  | grown {after : Registry} {next : Call} (active : registry.activeCount ≤ after.activeCount)
      (counted : next.counted = true → call.counted = true) : Effect registry call after next
  | counted {overlayIP : String} {next : Call} (position : call = .removeCount overlayIP)
      (several : 1 < registry.activeCount) : Effect registry call registry next
  | removed {after : Registry} {next : Call}
      (position : call.counted = true) (ended : next.counted = false)
      (active : registry.activeCount ≤ after.activeCount + 1) : Effect registry call after next

theorem insert_effect (row : Row) : Effect reg call (reg.insert io row).1
      (reg.insert io row).2 := by
  unfold Registry.insert
  split
  · exact .grown (le_refl _) (by rintro ⟨⟩)
  · split
    · exact .grown (le_refl _) (by rintro ⟨⟩)
    · rename_i rs put
      refine .grown ?_ (by rintro ⟨⟩)
      obtain ⟨ins, _⟩ := Table.insert?_eq_some put
      simp only [Registry.activeCount, Table.affected, ins, List.countP_append]
      omega

theorem update_effect (upd : reg.update io ip tgt = some (fin, next))
    (kept : tgt.counted = true → call.counted = true) :
    Effect reg call fin next := by
  unfold Registry.update at upd
  split_ifs at upd
  · cases upd
    exact .grown (le_refl _) (by rintro ⟨⟩)
  · cases upd
    exact .grown (le_refl _) kept

theorem activeCount_replaced (reg : Registry) (ip : String)
    (ips : List String) (now : Int) : reg.activeCount ≤ (reg.change ip
      (Registry.replaced ips now) fun _ => rfl).activeCount := by
  apply Table.affected_le_update
  · intro row
    rfl
  · intro row
    rfl

theorem activeCount_retired (reg : Registry) (ip : String) (now : Int) :
    reg.activeCount ≤ (reg.change ip (Registry.retired now) fun _ => rfl).activeCount + 1 := by
  apply Table.affected_le_update_add_one
  intro row
  rfl

theorem replaceCommit_effect (ip : String) (ips : List String) (now : Int) :
    let out := reg.commit io ip (Registry.replaced ips now) (fun _ => rfl) (.replaceGet ip)
    Effect reg call out.1 out.2 := by
  have big := activeCount_replaced reg ip ips now
  simp only [Registry.commit]
  split_ifs
  · exact .grown (le_refl _) (by rintro ⟨⟩)
  · exact .grown big (by rintro ⟨⟩)
  · exact .grown big (by rintro ⟨⟩)

theorem removeCommit_effect (ip : String) (now : Int) :
    let out := reg.commit io ip (Registry.retired now) (fun _ => rfl) (.returned (.ok none))
    Effect reg (.removeCommit ip now) out.1 out.2 := by
  have less := activeCount_retired reg ip now
  simp only [Registry.commit]
  split_ifs
  · exact .removed rfl rfl (Nat.le_succ _)
  · exact .removed rfl rfl less
  · exact .removed rfl rfl less

theorem advance_effect (ran : reg.advance io call = some (fin, next)) :
    Effect reg call fin next := by
  have eq : ∀ {res : Call}, res.counted = false →
      Effect reg call reg res := by
    intro res past
    refine .grown (le_refl _) ?_
    rw [past]
    rintro ⟨⟩
  cases call with
  | addInsert ip hostname ips =>
    rw [Registry.advance, Option.some.injEq] at ran
    have eff := @insert_effect reg io (.addInsert ip hostname ips)
      { overlayIP := ip, publicAddrs := ips, hostname := hostname,
        createdAt := io.now, updatedAt := io.now }
    rwa [ran] at eff
  | replaceFind ip ips =>
    simp only [Registry.advance] at ran
    split at ran <;> cases ran <;> exact eq rfl
  | replaceUpdate ip ips => exact update_effect ran (by rintro ⟨⟩)
  | replaceCommit ip ips now =>
    rw [Registry.advance, Option.some.injEq] at ran
    have eff := @replaceCommit_effect reg io (.replaceCommit ip ips now) ip ips now
    rwa [ran] at eff
  | replaceGet ip =>
    simp only [Registry.advance] at ran
    split at ran <;> cases ran <;> exact eq rfl
  | removeFind ip =>
    simp only [Registry.advance] at ran
    split at ran
    · cases ran
      exact eq rfl
    · split_ifs at ran <;> cases ran <;> exact eq rfl
  | removeCount ip =>
    simp only [Registry.advance] at ran
    split_ifs at ran with f few
    · cases ran
      exact eq rfl
    · cases ran
      exact eq rfl
    · cases ran
      exact .counted rfl (Nat.lt_of_not_le few)
  | removeUpdate ip => exact update_effect ran fun _ => rfl
  | removeCommit ip now =>
    rw [Registry.advance, Option.some.injEq] at ran
    have eff := @removeCommit_effect reg io ip now
    rwa [ran] at eff
  | returned res => cases ran

end

/-- One for a `Remove` that has counted and not ended. -/
def Call.claim (call : Call) : Int :=
  call.counted.toNat

def Covered (pool : Pool Registry Call) : Prop :=
  1 + pool.total Call.claim ≤ pool.shared.activeCount

theorem total_claim_eq_zero {p : Pool Registry Call}
    (none : ∀ c ∈ p.calls, c.counted = false) : p.total Call.claim = 0 := by
  apply Pool.total_eq_zero
  intro c had
  rw [Call.claim, none c had]
  rfl

theorem Covered.step {p new : Pool Registry Call}
    {ev : Pool.Event Request Io} (cov : Covered p) (ne : Apart p ev)
    (hop : machine.step p ev = some new) : Covered new := by
  unfold Covered at cov ⊢
  cases Machine.step_move hop with
  | requested req =>
    have none : (accept req).claim = 0 := by
      cases req with
      | add | replace =>
        simp only [accept]
        split_ifs <;> rfl
      | remove => rfl
    rw [Pool.total_append]
    show 1 + (_ + (accept req).claim) ≤ _
    rw [none, Int.add_zero]
    exact cov
  | @advanced idx io c next reg here ran =>
    rw [Pool.total_set reg Call.claim here]
    show _ ≤ (reg.activeCount : Int)
    have cap : next.claim ≤ 1 := by
      unfold Call.claim
      exact_mod_cast Bool.toNat_le next.counted
    cases advance_effect ran with
    | grown live counted =>
      have less : next.claim ≤ c.claim := by
        unfold Call.claim
        cases now : next.counted with
        | false => exact_mod_cast Nat.zero_le _
        | true => rw [counted now]
      omega
    | counted pos several =>
      have solo := ne (by rw [here, pos]; rfl)
      have none := total_claim_eq_zero solo
      have own : c.claim = 0 := by
        rw [pos]
        rfl
      omega
    | removed pos past live =>
      have own : c.claim = 1 := by
        rw [Call.claim, pos]
        rfl
      have free : next.claim = 0 := by
        rw [Call.claim, past]
        rfl
      omega

/-- From at least one active lighthouse on, and while no two removals overlap
from their count to their end, every committed state has one. -/
theorem discovery_never_lost {rows : Rows} {finish : Pool Registry Call}
    (discovered : 1 ≤ rows.affected Row.isActive) (reached : Reaches machine.step Apart
      (.quiet { rows := rows, locked := [] }) finish) :
    1 ≤ finish.shared.rows.affected Row.isActive := by
  have covered : Covered finish := by
    refine reached.invariant Covered ?_ fun covered apart taken =>
      covered.step apart taken
    unfold Covered
    rw [Pool.total_quiet]
    show 1 + 0 ≤ ((rows.affected Row.isActive : Nat) : Int)
    omega
  have claims : 0 ≤ finish.total Call.claim := by
    apply Pool.total_nonneg
    intro call _
    exact Int.natCast_nonneg _
  unfold Covered Registry.activeCount at covered
  omega

namespace Example

def fleet : Registry where
  rows := ⟨[{ overlayIP := "10.0.0.1" }, { overlayIP := "10.0.0.2" }], by decide⟩
  locked := []

def inTurn : List (Pool.Event Request Io) :=
  [.request (.remove "10.0.0.1"), .request (.remove "10.0.0.2")] ++
    List.replicate 4 (.statement 0 {}) ++ List.replicate 2 (.statement 1 {})

def atOnce : List (Pool.Event Request Io) :=
  [.request (.remove "10.0.0.1"), .request (.remove "10.0.0.2")] ++
    (List.replicate 4 [.statement 0 {}, .statement 1 {}]).flatten

end Example

open Example

theorem discovery_never_lost_in_turn : ∃ finish, Reaches machine.step Apart (.quiet fleet) finish ∧
      finish.calls[1]? = some (.returned (.error .lastActive)) ∧
      1 ≤ finish.shared.rows.affected Row.isActive := by
  have reached := @reaches_getD _ _ machine.step Apart _
    (.quiet fleet) inTurn (.quiet fleet) (by decide)
  exact ⟨_, reached, by decide, discovery_never_lost (by decide) reached⟩

theorem discovery_lost_by_two_removals : ∃ finish, Reachable machine.step (.quiet fleet) finish ∧
      1 ≤ fleet.rows.affected Row.isActive ∧ finish.shared.rows.affected Row.isActive = 0 := by
  have reached := @reachable_getD _ _ machine.step (.quiet fleet) atOnce (.quiet fleet) (by decide)
  exact ⟨_, reached, by decide, by decide⟩

end Harbor.Lighthouse
