import Harbor.Library.Pool
import Harbor.Trust.Store

/-!
# Versions of a config

`Set` reads the row of its kind and writes the next version in a second
statement, and appends its audit row after the commit.  Under READ COMMITTED
nothing holds the row between the two statements.  A write becomes visible with
its commit and nothing is read in between, so the two are one step.
-/

namespace Harbor.Trust

open Function Library Option Table

variable {Bytes : Type}

structure SetRequest (Bytes : Type) where
  kind : String
  payload : Bytes
  actor : String

/-- Where a `Set` stands; a failed one returns no row. -/
inductive SetCall (Bytes : Type) where
  | read (request : SetRequest Bytes)
  | write (out : Stored Bytes)
  | audit (out : Stored Bytes)
  | returned (result : Option (Stored Bytes))

def nextVersion (store : Store Bytes) (kind : String) : Int :=
  match store.find kind with
  | none => 1
  | some cur => cur.version + 1

/-- The write of a `Set`: an insert for the first version, an update of the row
of the kind otherwise. -/
def upsert? (store : Store Bytes) (out : Stored Bytes) : Option (Store Bytes) :=
  if out.version = 1 then store.insert? out
  else
    some (store.update (fun cur => cur.kind == out.kind)
      (fun cur => { cur with
        payload := out.payload, version := out.version, updatedBy := out.updatedBy })
      fun _ => rfl)

def setMachine : Machine (Store Bytes) (SetRequest Bytes) Fault (SetCall Bytes) where
  accept _ request := if request.kind = "" then .returned none else .read request
  advance _ store fault
    | .read request =>
      if fault ≠ .ok then some (store, .returned none)
      else
        some (store, .write
          { kind := request.kind, payload := request.payload
            version := nextVersion store request.kind, updatedBy := request.actor })
    | .write out =>
      if fault = .failed then some (store, .returned none)
      else
        match upsert? store out with
        | none => some (store, .returned none)
        | some after => some (after, if fault = .ok then .audit out else .returned none)
    | .audit out => some (store, .returned (if fault = .ok then some out else none))
    | .returned _ => none

def SetCall.written : SetCall Bytes → Option (Stored Bytes)
  | .audit out => some out
  | .returned result => result
  | _ => none

def Undisturbed (pool : Pool (Store Bytes) (SetCall Bytes)) :
    Pool.Event (SetRequest Bytes) Fault → Prop
  | .request _ => True
  | .statement index fault =>
    match pool.calls[index]? with
    | some (.write out) => out.version = nextVersion pool.shared out.kind ∧ fault ≠ .lost
    | some (.audit _) => fault = .ok
    | _ => True

instance (pool : Pool (Store Bytes) (SetCall Bytes)) : DecidablePred (Undisturbed pool) := by
  intro event
  unfold Undisturbed
  split
  · infer_instance
  · split <;> infer_instance

inductive SetMove (store : Store Bytes) (call : SetCall Bytes) :
    Store Bytes → SetCall Bytes → Prop where
  | kept {next : SetCall Bytes} (same : next.written = call.written) : SetMove store call store next
  | wrote {after : Store Bytes} {next : SetCall Bytes} {out cur : Stored Bytes}
      (before : call.written = none) (now : next.written = some out)
      (higher : ∀ old, store.find out.kind = some old → old.version < out.version)
      (stored : after.find out.kind = some cur)
      (content : cur.version = out.version ∧ cur.payload = out.payload)
      (others : ∀ kind, kind ≠ out.kind → after.find kind = store.find kind) :
      SetMove store call after next

theorem upsert?_finds {db new : Store Bytes} {out : Stored Bytes}
    (fresh : out.version = nextVersion db out.kind) (done : upsert? db out = some new) :
    (∃ cur, new.find out.kind = some cur ∧ cur.version = out.version ∧
      cur.payload = out.payload) ∧ ∀ k, k ≠ out.kind → new.find k = db.find k := by
  unfold upsert? at done
  split_ifs at done with fst
  · refine ⟨⟨out, by rw [find_insert? done, if_pos rfl], rfl, rfl⟩, fun k alt => ?_⟩
    rw [find_insert? done, if_neg alt]
  · cases done
    unfold nextVersion at fresh
    cases hit : db.find out.kind with
    | none => simp [hit, fst] at fresh
    | some cur =>
      have ks := (find_eq_some_iff.mp hit).2
      refine ⟨⟨{ cur with
          payload := out.payload, version := out.version, updatedBy := out.updatedBy },
        ?_, rfl, rfl⟩, fun k alt => ?_⟩
      · rw [find_update, hit, map_some, if_pos (by simpa using ks)]
      · rw [find_update]
        cases had : db.find k with
        | none => rfl
        | some row =>
          have differs : row.kind ≠ out.kind := (find_eq_some_iff.mp had).2 ▸ alt
          rw [map_some, if_neg (by simpa using differs)]

theorem lt_nextVersion {db : Store Bytes}
    (hit : db.find k = some old) : old.version < nextVersion db k := by
  rw [nextVersion, hit]
  exact Int.lt_succ _

section

variable {pool : Pool (Store Bytes) (SetCall Bytes)} {index : Nat} {fault : Fault}
  {call next : SetCall Bytes} {fin : Store Bytes}

theorem advance_setMove (calm : Undisturbed pool (.statement index fault))
    (here : pool.calls[index]? = some call)
    (ran : setMachine.advance index pool.shared fault call = some (fin, next)) :
    SetMove pool.shared call fin next := by
  simp only [Undisturbed, here] at calm
  cases call with
  | read req =>
    simp only [setMachine] at ran
    split_ifs at ran <;> cases ran
    · exact .kept rfl
    · exact .kept rfl
  | write out =>
    obtain ⟨new, said⟩ := calm
    simp only [setMachine] at ran
    split at ran
    · cases ran
      exact .kept rfl
    · rename_i eff
      have fine : fault = .ok := by
        cases fault with
        | ok => rfl
        | failed => exact absurd rfl eff
        | lost => exact absurd rfl said
      split at ran
      · cases ran
        exact .kept rfl
      · rename_i db done
        rw [if_pos fine] at ran
        cases ran
        obtain ⟨⟨cur, kept, t⟩, rest⟩ := upsert?_finds new done
        exact .wrote rfl rfl (fun old hit => new ▸ lt_nextVersion hit) kept t rest
  | audit out =>
    cases ran
    rw [if_pos calm]
    exact .kept rfl
  | returned res => cases ran

end

def writtenBy (pool : Pool (Store Bytes) (SetCall Bytes)) (index : Nat) : Option (Stored Bytes) :=
  pool.calls[index]?.bind SetCall.written

structure Versioned (store : Store Bytes) (written : Nat → Option (Stored Bytes)) : Prop where
  distinct : ∀ i j out other, i ≠ j → written i = some out → written j = some other →
    out.kind = other.kind → out.version ≠ other.version
  below : ∀ i out, written i = some out → ∃ cur, store.find out.kind = some cur ∧
    out.version ≤ cur.version ∧ (out.version = cur.version → cur.payload = out.payload)
  latest : ∀ i out cur, written i = some out → store.find out.kind = some cur →
    ∃ j newest, written j = some newest ∧ newest.kind = out.kind ∧ newest.version = cur.version

section

variable {db fin : Store Bytes} {written : Nat → Option (Stored Bytes)}
  {index : Nat} {out cur : Stored Bytes}

theorem Versioned.lower (vers : Versioned db written)
    (higher : ∀ old, db.find out.kind = some old → old.version < out.version)
    {i : Nat} (earlier : written i = some alt)
    (ks : alt.kind = out.kind) : alt.version < out.version := by
  obtain ⟨old, hit, least, -⟩ := vers.below i alt earlier
  have cap := higher old (ks ▸ hit)
  omega

theorem Versioned.write (vers : Versioned db written) (blank : written index = none)
    (higher : ∀ old, db.find out.kind = some old → old.version < out.version)
    (kept : fin.find out.kind = some cur)
    (t : cur.version = out.version ∧ cur.payload = out.payload)
    (rest : ∀ k, k ≠ out.kind → fin.find k = db.find k) :
    Versioned fin (update written index (some out)) := by
  have split : ∀ i alt, update written index (some out) i = some alt →
      i = index ∧ alt = out ∨ i ≠ index ∧ written i = some alt := by
    intro i alt here
    by_cases mine : i = index
    · subst i
      rw [update_self, Option.some.injEq] at here
      exact .inl ⟨rfl, here.symm⟩
    · rw [update_of_ne mine] at here
      exact .inr ⟨mine, here⟩
  refine ⟨?_, ?_, ?_⟩
  · intro i j l r differ fst snd ks
    rcases split i l fst with ⟨rfl, rfl⟩ | ⟨_, earlier⟩
    · rcases split j r snd with ⟨rfl, _⟩ | ⟨_, was⟩
      · exact absurd rfl differ
      · exact (vers.lower higher was ks.symm).ne'
    · rcases split j r snd with ⟨rfl, rfl⟩ | ⟨_, was⟩
      · exact (vers.lower higher earlier ks).ne
      · exact vers.distinct i j l r differ earlier was ks
  · intro i alt here
    rcases split i alt here with ⟨rfl, rfl⟩ | ⟨_, earlier⟩
    · exact ⟨cur, kept, t.1.ge, fun _ => t.2⟩
    · by_cases ks : alt.kind = out.kind
      · have cap := vers.lower higher earlier ks
        exact ⟨cur, ks ▸ kept, by omega, fun equal => by omega⟩
      · rw [rest _ ks]
        exact vers.below i alt earlier
  · intro i alt row here hit
    by_cases ks : alt.kind = out.kind
    · rw [ks, kept, Option.some.injEq] at hit
      subst row
      exact ⟨index, out, update_self .., ks.symm, t.1.symm⟩
    · rw [rest _ ks] at hit
      rcases split i alt here with ⟨rfl, rfl⟩ | ⟨_, earlier⟩
      · exact absurd rfl ks
      · obtain ⟨j, newest, last, tail⟩ := vers.latest i alt row earlier hit
        refine ⟨j, newest, ?_, tail⟩
        rw [update_of_ne, last]
        rintro rfl
        rw [blank] at last
        cases last

end

theorem writtenBy_set {p : Pool (Store Bytes) (SetCall Bytes)} {idx : Nat}
    {c next : SetCall Bytes} (new : Store Bytes) (here : p.calls[idx]? = some c) :
    writtenBy ⟨new, p.calls.set idx next⟩ = update (writtenBy p) idx next.written := by
  funext i
  by_cases mine : i = idx
  · subst i
    simp [writtenBy, (List.getElem?_eq_some_iff.mp here).1]
  · rw [update_of_ne mine, writtenBy, List.getElem?_set_ne (Ne.symm mine), writtenBy]

theorem writtenBy_append (p : Pool (Store Bytes) (SetCall Bytes)) {c : SetCall Bytes}
    (blank : c.written = none) : writtenBy { p with calls := p.calls ++ [c] } = writtenBy p := by
  funext i
  simp only [writtenBy, List.getElem?_append]
  split_ifs with lies
  · rfl
  · rw [List.getElem?_eq_none (Nat.le_of_not_lt lies)]
    cases hit : [c][i - p.calls.length]? with
    | none => rfl
    | some last =>
      rw [List.mem_singleton.mp (List.mem_of_getElem? hit), bind_some, blank]
      rfl

theorem versioned_of_reaches {db : Store Bytes}
    (met : Reaches setMachine.step Undisturbed (.quiet db) finish) :
    Versioned finish.shared (writtenBy finish) := by
  refine met.invariant (fun p => Versioned p.shared (writtenBy p)) ⟨nofun, nofun, nofun⟩ ?_
  intro p new ev vers calm did
  cases Machine.step_move did with
  | requested req =>
    have blank : (setMachine.accept p.shared req).written = none := by
      simp only [setMachine]
      split <;> rfl
    rw [writtenBy_append p blank]
    exact vers
  | @advanced idx f c next db here ran =>
    have mine : writtenBy p idx = c.written := by
      rw [writtenBy, here, bind_some]
    rw [writtenBy_set db here]
    cases advance_setMove calm here ran with
    | kept eq =>
      rw [eq, ← mine, update_eq_self]
      exact vers
    | wrote was now higher stored t rest =>
      rw [now]
      exact vers.write (mine.trans was) higher stored t rest

def Succeeded (pool : Pool (Store Bytes) (SetCall Bytes)) (index : Nat) (out : Stored Bytes) :
    Prop :=
  pool.calls[index]? = some (.returned (some out))

structure NeverReused (pool : Pool (Store Bytes) (SetCall Bytes)) : Prop where
  distinct : ∀ i j out other, i ≠ j → Succeeded pool i out → Succeeded pool j other →
    out.kind = other.kind → out.version ≠ other.version
  stored : (∀ call ∈ pool.calls, ∃ result, call = .returned result) →
    ∀ i out, Succeeded pool i out →
      (∀ j other, Succeeded pool j other → other.kind = out.kind → other.version ≤ out.version) →
      ∃ cur, pool.shared.find out.kind = some cur ∧ cur.version = out.version ∧
        cur.payload = out.payload

/-- Versions are never reused as long as no `Set` is disturbed between its statements. -/
theorem set_never_reuses {store : Store Bytes} {finish : Pool (Store Bytes) (SetCall Bytes)}
    (reached : Reaches setMachine.step Undisturbed (.quiet store) finish) :
    NeverReused finish := by
  have versioned := versioned_of_reaches reached
  have written : ∀ i out, Succeeded finish i out → writtenBy finish i = some out := by
    intro i out here
    rw [writtenBy, here]
    rfl
  refine ⟨?_, ?_⟩
  · intro i j out other differ first second
    exact versioned.distinct i j out other differ (written i out first) (written j other second)
  · intro returned i out here highest
    obtain ⟨cur, found, least, payload⟩ := versioned.below i out (written i out here)
    obtain ⟨j, newest, last, sameKind, version⟩ :=
      versioned.latest i out cur (written i out here) found
    obtain ⟨call, there, written⟩ := Option.bind_eq_some_iff.mp last
    obtain ⟨result, rfl⟩ := returned call (List.mem_of_getElem? there)
    obtain rfl : result = some newest := written
    have bound := highest j newest there sameKind
    have equal : out.version = cur.version := by omega
    exact ⟨cur, found, equal.symm, payload equal⟩

namespace Example

def stored : Store Nat :=
  ⟨[{ kind := "policy", payload := 0, version := 1, updatedBy := "seed" }], by simp⟩

def settings (payload : Nat) (actor : String) : SetRequest Nat :=
  ⟨"policy", payload, actor⟩

def twoSets (order : List Nat) : List (Pool.Event (SetRequest Nat) Fault) :=
  [.request (settings 1 "alice"), .request (settings 2 "bob")] ++
    order.map fun index => .statement index .ok

def versions (pool : Pool (Store Nat) (SetCall Nat)) : List (Option Int) × List (Int × Nat) :=
  (pool.calls.map fun call => call.written.map Stored.version,
    pool.shared.rows.map fun row => (row.version, row.payload))

end Example

open Example

theorem set_never_reuses_sequential : ∃ finish,
    Reaches setMachine.step Undisturbed (.quiet stored) finish ∧
      versions finish = ([some 2, some 3], [(3, 2)]) ∧ NeverReused finish := by
  have executed : (runEvents (guarded setMachine.step Undisturbed) (.quiet stored)
      (twoSets [0, 0, 0, 1, 1, 1])).map versions = some ([some 2, some 3], [(3, 2)]) := by
    decide
  obtain ⟨finish, ran, result⟩ := Option.map_eq_some_iff.mp executed
  have reached := reaches_of_runEvents ran
  exact ⟨finish, reached, result, set_never_reuses reached⟩

/-- Both calls read version 1 before either writes, and both return version 2. -/
theorem concurrent_sets_reuse_version : ¬ ∀ finish : Pool (Store Nat) (SetCall Nat),
    Reachable setMachine.step (.quiet stored) finish → NeverReused finish := by
  intro claimed
  obtain ⟨finish, ran, first, second⟩ : ∃ finish, runEvents setMachine.step
      (.quiet stored) (twoSets [0, 1, 0, 1, 0, 1]) = some finish ∧
      Succeeded finish 0 ⟨"policy", 1, 2, "alice"⟩ ∧ Succeeded finish 1 ⟨"policy", 2, 2, "bob"⟩ :=
    ⟨_, rfl, rfl, rfl⟩
  exact (claimed finish (reachable_of_runEvents ran)).distinct 0 1 _ _ (by decide) first second
    rfl rfl

end Harbor.Trust
