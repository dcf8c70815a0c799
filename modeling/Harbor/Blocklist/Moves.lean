import Harbor.Blocklist.System

/-!
# What a step does to the blocklist

A version is published when an attempt starts its rollout, and stays; a bundle
takes its version and its list from the tables, and a host its bundle from an
assembly.  `step_move` says so once for all events.
-/

namespace Harbor.Blocklist

open Library List

section

def Published (db : Rollouts.Database) (id version : Int) : Prop :=
  ∃ r ∈ db.rollouts.rows, r.lane = .blocklist ∧ r.id = id ∧ r.targetVersion = version

variable {was fin : Rollouts.Database} {e : Rollouts.Event}

theorem published_of_replaces {r next : Rollouts.Rollout} (mem : r ∈ was.rollouts.rows)
    (swap : Rollouts.Replaces r next was fin) (l : next.lane = r.lane) (key : next.id = r.id)
    (tgt : next.targetVersion = r.targetVersion) (id ver : Int) :
    Published fin id ver ↔ Published was id ver := by
  constructor
  · rintro ⟨row, had, ofLane, idEq, tgtEq⟩
    rcases (swap row).mp had with ⟨old, _⟩ | rfl
    · exact ⟨row, old, ofLane, idEq, tgtEq⟩
    · exact ⟨r, mem, l ▸ ofLane, key ▸ idEq, tgt ▸ tgtEq⟩
  · rintro ⟨row, had, ofLane, idEq, tgtEq⟩
    by_cases eq : row.id = r.id
    · have rs := was.rollouts.row_eq_of_key_eq had mem eq
      subst rs
      exact ⟨next, (swap next).mpr (.inr rfl), l.trans ofLane, key.trans idEq, tgt.trans tgtEq⟩
    · exact ⟨row, (swap row).mpr (.inl ⟨had, eq⟩), ofLane, idEq, tgtEq⟩

theorem published_append {cfg : Rollouts.StartConfig} {new now : Int} (rs : fin.rollouts.rows =
      was.rollouts.rows ++ [cfg.rollout new now]) (id ver : Int) :
    Published fin id ver ↔ Published was id ver ∨
      cfg.lane = some .blocklist ∧ id = new ∧ ver = cfg.targetVersion := by
  unfold Published
  rw [rs]
  simp only [mem_append, mem_singleton, or_and_right, exists_or,
    exists_eq_left, Rollouts.StartConfig.rollout]
  refine or_congr_right (and_congr ?_ (and_congr eq_comm eq_comm))
  cases cfg.lane <;> simp

theorem published_start {r : Rollouts.Rollout} (went : was.start cfg now = .ok (r, fin)) :
    ∃ new, (∀ row ∈ was.rollouts.rows, row.id < new) ∧ ∀ id ver, Published fin id ver ↔
        Published was id ver ∨ cfg.lane = some .blocklist ∧ id = new ∧ ver = cfg.targetVersion := by
  unfold Rollouts.Database.start at went
  split at went
  · cases went
  · split at went
    · cases went
    · dsimp only at went
      split at went
      · rename_i rollouts hs put _
        cases went
        obtain ⟨rs, _⟩ := Table.insert?_eq_some put
        refine ⟨_, ?_, published_append rs⟩
        intro row mem
        exact lt_nextID (mem_map_of_mem mem)
      · cases went

theorem published_effect (eff : Rollouts.Effect was e fin) : (∀ id ver,
      Published fin id ver ↔ Published was id ver) ∨
    ∃ cfg now new, e = .start cfg now ∧ (∀ row ∈ was.rollouts.rows, row.id < new) ∧
      ∀ id ver, Published fin id ver ↔ Published was id ver ∨
          cfg.lane = some .blocklist ∧ id = new ∧ ver = cfg.targetVersion := by
  cases eff with
  | kept rs _ =>
    left
    intro id ver
    unfold Published
    rw [rs]
  | started cfg r went _ _ made fresh rows _ =>
    right
    obtain ⟨new, rfl⟩ := made
    exact ⟨cfg, _, new, went, fresh, published_append rows⟩
  | stopped r _ live swap _ =>
    left
    obtain ⟨hit, _⟩ := Rollouts.activeCurrent_eq_some_iff.mp live
    obtain ⟨mem, _⟩ := Rollouts.current_eq_some_iff.mp hit
    exact published_of_replaces mem swap rfl rfl rfl
  | advanced r _ live _ move swap _ =>
    left
    obtain ⟨hit, _⟩ := Rollouts.activeCurrent_eq_some_iff.mp live
    obtain ⟨mem, _⟩ := Rollouts.current_eq_some_iff.mp hit
    rcases move with ⟨_, rfl⟩ | ⟨_, rfl⟩ <;>
      exact published_of_replaces mem swap rfl rfl rfl

variable {db : Rollouts.Database}

theorem Published.le_blocklistVersion {id ver : Int} (published : Published db id ver) :
    ver ≤ db.blocklistVersion := by
  obtain ⟨r, mem, l, _, rfl⟩ := published
  exact (Rollouts.blocklistVersion_spec mem l).1

theorem blocklistVersion_published (db : Rollouts.Database) : db.blocklistVersion = 0 ∨
      ∃ id, Published db id db.blocklistVersion := by
  by_cases some : ∃ r ∈ db.rollouts.rows, r.lane = .blocklist
  · obtain ⟨r, mem, lane⟩ := some
    obtain ⟨_, top, had, topLane, same⟩ := Rollouts.blocklistVersion_spec mem lane
    exact .inr ⟨top.id, top, had, topLane, rfl, same⟩
  · left
    apply Rollouts.blocklistVersion_eq_zero
    intro r mem lane
    exact some ⟨r, mem, lane⟩

end

section

variable {cfg : Config} {s fin : State} {e : Event}

theorem published_startRollout (s : State) (me : Nat) (turn : Attempt)
    (hs : List String) (tgt now : Int) (f : Fault) : (∀ id ver, Published
        (startRollout s me turn hs tgt now f).rollouts id ver ↔ Published s.rollouts id ver) ∨
    ∃ new, (∀ row ∈ s.rollouts.rollouts.rows, row.id < new) ∧ ∀ id ver, Published
        (startRollout s me turn hs tgt now f).rollouts id
        ver ↔ Published s.rollouts id ver ∨ id = new ∧ ver = tgt := by
  unfold startRollout
  split
  · exact .inl fun _ _ => Iff.rfl
  · split
    · rename_i r move went
      obtain ⟨new, fresh, published⟩ := published_start went
      refine .inr ⟨new, fresh, ?_⟩
      intro id ver
      refine (published id ver).trans (or_congr_right ?_)
      simp [Attempt.config]
    all_goals exact .inl fun _ _ => Iff.rfl

theorem published_foreign {was move : Rollouts.Database} {e : Rollouts.Event}
    (alt : foreign e = true)
    (ran : Rollouts.step was e = some move) (id ver : Int) :
    Published move id ver ↔ Published was id ver := by
  rcases published_effect (Rollouts.step_effect ran) with kept | ⟨cfg, now, new, rfl, _, published⟩
  · exact kept id ver
  · rw [published]
    simp only [foreign, bne_iff_ne] at alt
    simp [alt]

theorem published_heartbeat (ran : Rollouts.step was (.heartbeat b) = some move) (id ver : Int) :
    Published move id ver ↔ Published was id ver := by
  cases ran
  exact Iff.rfl

inductive Proceeds : Change → Change → Prop where
  | begins (next : Change) : Proceeds .idle next
  | lifts (attempt : Attempt) (fingerprint : String) (active : Nat)
      (next : Change) : Proceeds (.lift attempt fingerprint active) next
  | reads (attempt : Attempt) (hosts : List String) :
      Proceeds (.fleet attempt) (.version attempt hosts)
  | fails (attempt : Attempt) : Proceeds (.fleet attempt) (.ended .fatal)
  | aims (attempt : Attempt) (hosts : List String) (target : Int) :
      Proceeds (.version attempt hosts) (.start attempt hosts target)

inductive Move (state : State) (event : Event) (after : State) : Prop where
  | change (me : Nat) (next : Change) (rows : Revocation.Rows) : Proceeds (state.changes me) next →
      after = { state with revocations := rows }.comes me next → Move state event after
  | attempt (me : Nat) (now : Int) (fault : Fault) (attempt : Attempt)
      (hosts : List String) (target : Int) : event = .start me now fault →
      state.changes me = .start attempt hosts target →
      after = startRollout state me attempt hosts target now fault → Move state event after
  | engine (db : Rollouts.Database) : (∀ id version, Published db id version ↔
        Published state.rollouts id version) → after = { state with rollouts := db } →
      Move state event after
  | versioned (assembly : Nat) (host : String) (version : Int) :
      version = 0 ∨ version = state.rollouts.blocklistVersion →
      after = state.puts assembly (.list host version) → Move state event after
  | listed (assembly : Nat) (host : String) (version : Int) (fault : Fault) :
      event = .readList assembly fault → state.assemblies assembly = .list host version →
      after = state.puts assembly (.assembled host
        { blocklistVersion := version
          blocklist :=
            if fault = .ok then
              Revocation.activeFingerprints state.revocations
            else [] }) →
      Move state event after
  | applied (assembly : Nat) (host : String) (bundle : Bundle) :
      state.assemblies assembly = .assembled host bundle → after = state.apply host bundle →
      Move state event after
  | kept : after = state → Move state event after

theorem add_comes (cfg : Config) (s : State) (me : Nat)
    (addition : Addition) (turn : Attempt) (f : Fault) : ∃ next rs, add cfg s me addition turn f =
        { s with revocations := rs }.comes me next ∧ ((∃ turn, next = .fleet turn) ∨
        ∃ out, next = .ended out ∧ out.attempted = false) := by
  unfold add
  split
  · exact ⟨_, s.revocations, rfl, .inr ⟨_, rfl, rfl⟩⟩
  · exact ⟨_, s.revocations, rfl, .inr ⟨_, rfl, rfl⟩⟩
  · cases f with
    | ok => exact ⟨_, _, rfl, .inl ⟨_, rfl⟩⟩
    | failed => exact ⟨_, s.revocations, rfl, .inr ⟨_, rfl, rfl⟩⟩
    | lost => exact ⟨_, _, rfl, .inr ⟨_, rfl, rfl⟩⟩

theorem remove_comes (cfg : Config) (s : State) (me : Nat)
    (turn : Attempt) (fp : String) (live : Nat) (now : Int) (f : Fault) :
    ∃ next rs, remove cfg s me turn fp live now f = { s with revocations := rs }.comes me next := by
  unfold remove
  dsimp only
  split
  · exact ⟨_, s.revocations, rfl⟩
  · cases f with
    | ok => exact ⟨_, _, rfl⟩
    | failed => exact ⟨_, s.revocations, rfl⟩
    | lost => exact ⟨_, _, rfl⟩

theorem step_move (ran : step cfg s e = some fin) :
    Move s e fin := by
  cases e with
  | add me addition turn f =>
    simp only [step] at ran
    split at ran
    · rename_i idle
      rw [Option.some.injEq] at ran
      subst ran
      obtain ⟨next, rs, move, _⟩ := add_comes cfg s me addition turn f
      exact .change me next rs (idle ▸ .begins next) move
    · cases ran
  | remove me fp turn f =>
    simp only [step] at ran
    split at ran
    · rename_i idle
      rw [Option.some.injEq] at ran
      subst ran
      exact .change me _ s.revocations (idle ▸ .begins _) rfl
    · cases ran
  | lift me now f =>
    simp only [step] at ran
    split at ran
    · rename_i turn fp live pos
      rw [Option.some.injEq] at ran
      subst ran
      obtain ⟨next, rs, move⟩ := remove_comes cfg s me turn fp live now f
      exact .change me next rs (pos ▸ .lifts _ _ _ next) move
    · cases ran
  | lighthouse me desc =>
    simp only [step] at ran
    split at ran
    · rename_i idle
      rw [Option.some.injEq] at ran
      subst ran
      exact .change me _ s.revocations (idle ▸ .begins _) rfl
    · cases ran
  | fleet me f =>
    simp only [step] at ran
    split at ran
    · rename_i turn pos
      rw [Option.some.injEq] at ran
      subst ran
      refine .change me _ s.revocations ?_ rfl
      rw [pos]
      split
      · exact .reads turn _
      · exact .fails turn
    · cases ran
  | version me f =>
    simp only [step] at ran
    split at ran
    · rename_i turn hs pos
      rw [Option.some.injEq] at ran
      subst ran
      exact .change me _ s.revocations (pos ▸ .aims turn hs _)
        rfl
    · cases ran
  | start me now f =>
    simp only [step] at ran
    split at ran
    · rename_i turn hs tgt pos
      rw [Option.some.injEq] at ran
      subst ran
      exact .attempt me now f turn hs tgt rfl pos rfl
    · cases ran
  | engine e =>
    simp only [step] at ran
    split_ifs at ran with alt
    obtain ⟨db, move, rfl⟩ := Option.map_eq_some_iff.mp ran
    exact .engine db (published_foreign alt move) rfl
  | enroll mk h =>
    cases ran
    exact .versioned mk h 0 (.inl rfl) rfl
  | readVersion mk h f =>
    cases ran
    refine .versioned mk h _ ?_ rfl
    split
    · exact .inr rfl
    · exact .inl rfl
  | readList mk f =>
    simp only [step] at ran
    split at ran
    · rename_i h ver pos
      rw [Option.some.injEq] at ran
      subst ran
      exact .listed mk h ver f rfl pos rfl
    · cases ran
  | fetch mk =>
    simp only [step] at ran
    split at ran
    · rename_i h bundle pos
      rw [Option.some.injEq] at ran
      subst ran
      unfold fetchConfig
      split
      · split
        · exact .kept rfl
        · exact .applied mk h bundle pos rfl
      · exact .applied mk h bundle pos rfl
    · cases ran
  | renew mk =>
    simp only [step] at ran
    split at ran
    · rename_i h bundle pos
      rw [Option.some.injEq] at ran
      subst ran
      exact .applied mk h bundle pos rfl
    · cases ran
  | heartbeat b =>
    simp only [step] at ran
    split_ifs at ran
    obtain ⟨db, move, rfl⟩ := Option.map_eq_some_iff.mp ran
    exact .engine db (published_heartbeat move) rfl

theorem startRollout_comes (s : State) (me : Nat) (turn : Attempt)
    (hs : List String) (tgt now : Int) (f : Fault) : ∃ db out, startRollout s me turn hs tgt now f =
        { s with rollouts := db }.comes me (.ended out) := by
  unfold startRollout
  split
  · exact ⟨s.rollouts, _, rfl⟩
  · split
    · exact ⟨_, _, rfl⟩
    all_goals exact ⟨s.rollouts, _, rfl⟩

end

end Harbor.Blocklist
