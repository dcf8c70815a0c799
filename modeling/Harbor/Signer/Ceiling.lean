import Harbor.Library.Run
import Harbor.Library.Window
import Harbor.Signer.Breaker

/-!
# The signing ceiling

Cores acquire from the shared breaker and operators reset it, with one clock
that does not run backwards.  The answers of a lane between two resets form an
era: grants that are sparse, then the one trip, then refusals.  The tables keep
exactly what is needed of the current era, whatever the sweeps have removed.
-/

namespace Harbor.Signer

open Function Library List

abbrev Era := List (Int × Answer)

def Era.grants (era : Era) : List Int :=
  (era.filter fun entry => entry.2.allowed).map Prod.fst

def Era.isClosed (era : Era) : Bool :=
  era.any fun entry => !entry.2.allowed

structure Governed (ceiling : Ceiling) (era : Era) : Prop where
  sparse : Sparse ceiling.max ceiling.window era.grants
  latched : era.Pairwise fun earlier later =>
    earlier.2.allowed = false → later.2.allowed = false
  once : era.countP (fun entry => entry.2.justTripped) =
    if era.isClosed then 1 else 0

structure Fleet where
  board : Board
  clock : Int
  era : String → Era
  past : String → List Era

inductive Event where
  | acquire (lane : String) (now : Int)
  | reset (lane : String)
  | collect (lane : String) (reading : Int)

namespace Fleet

def initial (clock : Int) : Fleet where
  board := .empty
  clock := clock
  era _ := []
  past _ := []

/-- A sweep can use a reading taken before the last acquire, or a later one. -/
def step (ceilings : String → Ceiling) (fleet : Fleet) : Event → Option Fleet
  | .acquire lane now =>
    if fleet.clock ≤ now then
      let outcome := fleet.board.acquire (ceilings lane) lane now
      some { fleet with
        board := outcome.1
        clock := now
        era := update fleet.era lane
          (fleet.era lane ++ [(now, outcome.2)]) }
    else none
  | .reset lane =>
    some { fleet with
      board := fleet.board.reset lane
      era := update fleet.era lane []
      past := update fleet.past lane
        (fleet.past lane ++ [fleet.era lane]) }
  | .collect lane reading =>
    some { fleet with
      board := fleet.board.collect (ceilings lane) lane reading
      clock := max fleet.clock reading }

end Fleet

section

variable {cap : Ceiling} {era : Era} {now : Int}

theorem Era.grants_append (ans : Answer) : Era.grants (era ++ [(now, ans)]) =
      era.grants ++ if ans.allowed then [now] else [] := by
  unfold Era.grants
  cases may : ans.allowed <;> simp [may]

theorem Era.isClosed_append (ans : Answer) : Era.isClosed (era ++ [(now, ans)]) =
      (era.isClosed || !ans.allowed) := by
  simp [Era.isClosed]

theorem governed_nil (pos : 0 < cap.max) : Governed cap [] where
  sparse := sparse_nil (le_of_lt pos)
  latched := .nil
  once := rfl

theorem Governed.append (law : Governed cap era) (ans : Answer)
    (room : ans.allowed = true → (era.grants.countP (fun t =>
        decide (now - cap.window < t)) : Int) < cap.max)
    (closed : era.isClosed = true → ans = .refused)
    (opened : era.isClosed = false → ans = .granted ∨ ans = .tripped) :
    Governed cap (era ++ [(now, ans)]) := by
  refine ⟨?_, ?_, ?_⟩
  · rw [Era.grants_append]
    cases may : ans.allowed with
    | false => simpa using law.sparse
    | true => simpa using law.sparse.append (room may)
  · rw [pairwise_append]
    refine ⟨law.latched, pairwise_singleton _ _, ?_⟩
    intro old mem late last bad
    rw [mem_singleton] at last
    subst last
    have shut : era.isClosed = true := by
      unfold Era.isClosed
      rw [any_eq_true]
      exact ⟨old, mem, by simp [bad]⟩
    rw [closed shut]
    rfl
  · rw [countP_append, law.once, Era.isClosed_append]
    cases shut : era.isClosed with
    | true => simp [closed shut, Answer.refused]
    | false =>
      rcases opened shut with rfl | rfl <;>
        simp [Answer.granted, Answer.tripped]

end

section

variable {caps : String → Ceiling} {ln : String} {f fin : Fleet} {ev : Event}

structure Tracks (ceiling : Ceiling) (lane : String) (fleet : Fleet) : Prop where
  latch : fleet.board.isOpen lane = (fleet.era lane).isClosed
  counts : ∀ now, fleet.clock ≤ now → fleet.board.recent lane (now - ceiling.window) =
      (fleet.era lane).grants.countP (fun time => decide (now - ceiling.window < time))
  current : Governed ceiling (fleet.era lane)
  earlier : ∀ era ∈ fleet.past lane, Governed ceiling era

/-- What `acquire` does below a positive limit. -/
inductive Acquired (board : Board) (ceiling : Ceiling) (lane : String)
    (now : Int) : Board → Answer → Prop where
  | refused (latched : board.isOpen lane = true) : Acquired board ceiling lane now board .refused
  | tripped (closed : board.isOpen lane = false) : Acquired board ceiling lane now
        (board.upsertLatch { lane := lane, isOpen := true, openedAt := now }) .tripped
  | granted (closed : board.isOpen lane = false)
      (room : board.recent lane (now - ceiling.window) < ceiling.max) :
      Acquired board ceiling lane now
        { board with issuances := board.issuances ++ [⟨lane, now⟩] } .granted

theorem acquire_acquired {board : Board} {cap : Ceiling} {now : Int} (pos : 0 < cap.max) :
    Acquired board cap ln now (board.acquire cap ln now).1 (board.acquire cap ln now).2 := by
  unfold Board.acquire
  rw [if_neg (not_le.mpr pos)]
  split_ifs with shut full
  · exact .refused shut
  · exact .tripped (Bool.eq_false_iff.mpr shut)
  · exact .granted (Bool.eq_false_iff.mpr shut) (not_le.mp full)

theorem acquire_other {board : Board} {cap : Ceiling} {alt : String}
    {now cutoff : Int} (ne : ln ≠ alt) : (board.acquire cap alt now).1.isOpen ln = board.isOpen ln ∧
      (board.acquire cap alt now).1.recent ln cutoff =
        board.recent ln cutoff := by
  unfold Board.acquire
  split_ifs
  · exact ⟨rfl, rfl⟩
  · exact ⟨rfl, rfl⟩
  · refine ⟨?_, rfl⟩
    rw [isOpen_upsertLatch, if_neg ne]
  · refine ⟨rfl, ?_⟩
    rw [recent_append, if_neg fun both => ne both.1.symm, Nat.add_zero]

theorem Tracks.acquire (logs : Tracks (caps ln) ln f)
    (pos : 0 < (caps ln).max) (late : f.clock ≤ now) :
    Tracks (caps ln) ln { f with
      board := (f.board.acquire (caps ln) ln now).1
      clock := now
      era := update f.era ln (f.era ln ++
        [(now, (f.board.acquire (caps ln) ln now).2)]) } := by
  have got := @acquire_acquired ln f.board (caps ln) now pos
  revert got
  generalize f.board.acquire (caps ln) ln now = out
  obtain ⟨board, ans⟩ := out
  intro got
  have grew : ∀ t, now ≤ t → (Era.grants (f.era ln)).countP
        (fun grant => decide (t - (caps ln).window < grant)) =
      f.board.recent ln (t - (caps ln).window) := by
    intro t fin
    exact (logs.counts t (le_trans late fin)).symm
  simp only at got ⊢
  refine ⟨?_, ?_, ?_, logs.earlier⟩
  all_goals simp only [update_self]
  · rw [Era.isClosed_append, ← logs.latch]
    cases got with
    | refused latched => simp [latched]
    | tripped closed => simp [isOpen_upsertLatch, Answer.tripped]
    | granted closed =>
      simp only [Answer.granted, Bool.not_true, Bool.or_false]
      rfl
  · intro t fin
    rw [Era.grants_append, countP_append, grew t fin]
    cases got with
    | refused latched => simp [Answer.refused]
    | tripped closed => simp [Answer.tripped]; rfl
    | granted closed room =>
      rw [recent_append]
      simp [Answer.granted, countP_singleton]
  · refine logs.current.append ans ?_ ?_ ?_
    · intro may
      rw [grew now (le_refl now)]
      cases got with
      | refused | tripped => cases may
      | granted closed room => exact room
    · intro shut
      rw [← logs.latch] at shut
      cases got with
      | refused => rfl
      | tripped closed | granted closed => simp [closed] at shut
    · intro shut
      rw [← logs.latch] at shut
      cases got with
      | refused latched => simp [latched] at shut
      | tripped closed => exact .inr rfl
      | granted closed => exact .inl rfl

variable {alt : String}

theorem Tracks.elsewhere (logs : Tracks (caps ln) ln f)
    (ne : ln ≠ alt) (late : f.clock ≤ now) (era : Era) :
    Tracks (caps ln) ln { f with
      board := (f.board.acquire (caps alt) alt now).1
      clock := now
      era := update f.era alt era } := by
  have off : ∀ cutoff, _ := fun cutoff =>
    @acquire_other ln f.board (caps alt) alt now cutoff ne
  refine ⟨?_, ?_, ?_, logs.earlier⟩
  all_goals simp only [update_of_ne ne]
  · exact (off 0).1.trans logs.latch
  · intro t good
    exact (off _).2.trans (logs.counts t (le_trans late good))
  · exact logs.current

theorem Tracks.reset (logs : Tracks (caps ln) ln f) (pos : 0 < (caps ln).max) :
    Tracks (caps ln) ln { f with
      board := f.board.reset ln
      era := update f.era ln []
      past := update f.past ln
        (f.past ln ++ [f.era ln]) } := by
  refine ⟨?_, ?_, ?_, ?_⟩
  all_goals simp only [update_self]
  · rw [isOpen_reset, if_pos rfl]
    rfl
  · intro t _
    rw [recent_reset, if_pos rfl]
    rfl
  · exact governed_nil pos
  · intro era mem
    rcases mem_append.mp mem with old | last
    · exact logs.earlier era old
    · rw [mem_singleton] at last
      subst last
      exact logs.current

theorem Tracks.reset_other (logs : Tracks (caps ln) ln f)
    (ne : ln ≠ alt) (era : Era) (past : List Era) :
    Tracks (caps ln) ln { f with
      board := f.board.reset alt
      era := update f.era alt era
      past := update f.past alt past } := by
  refine ⟨?_, ?_, ?_, ?_⟩
  all_goals simp only [update_of_ne ne]
  · rw [isOpen_reset, if_neg ne]
    exact logs.latch
  · intro t good
    rw [recent_reset, if_neg ne]
    exact logs.counts t good
  · exact logs.current
  · exact logs.earlier

theorem Tracks.collect (logs : Tracks (caps ln) ln f) :
    Tracks (caps ln) ln { f with
      board := f.board.collect (caps alt) alt reading
      clock := max f.clock reading } := by
  refine ⟨logs.latch, ?_, logs.current, logs.earlier⟩
  intro time late
  obtain ⟨after, read⟩ := max_le_iff.mp late
  rw [← logs.counts time after]
  refine recent_collect ?_
  rintro rfl
  omega

theorem Tracks.step (logs : Tracks (caps ln) ln f)
    (pos : 0 < (caps ln).max) (ran : f.step caps ev = some fin) : Tracks (caps ln) ln fin := by
  cases ev with
  | acquire alt now =>
    simp only [Fleet.step] at ran
    split_ifs at ran with late
    rw [Option.some.injEq] at ran
    subst ran
    by_cases eq : ln = alt
    · subst eq
      exact logs.acquire pos late
    · exact logs.elsewhere eq late _
  | reset alt =>
    cases ran
    by_cases eq : ln = alt
    · subst eq
      exact logs.reset pos
    · exact logs.reset_other eq _ _
  | collect alt reading =>
    cases ran
    exact logs.collect

theorem tracks_of_reachable (pos : 0 < (caps ln).max)
    (met : Reachable (Fleet.step caps) (.initial init) f) : Tracks (caps ln) ln f := by
  refine met.invariant (Tracks (caps ln) ln) ?_ ?_
  · refine ⟨rfl, ?_, governed_nil pos, ?_⟩
    · intro now _
      rfl
    · intro era mem
      cases mem
  · intro f fin ev logs _ ran
    exact logs.step pos ran

end

section

structure Twin where
  board : Board
  memory : Memory
  clock : Int
  answers : List (Answer × Answer)

inductive TwinEvent where
  | acquire (first now second : Int)
  | reset
  | collect (reading : Int)

namespace Twin

def initial (clock : Int) : Twin where
  board := .empty
  memory := {}
  clock := clock
  answers := []

def step (ceiling : Ceiling) (lane : String) (twin : Twin) : TwinEvent → Option Twin
  | .acquire first now second =>
    if twin.clock ≤ first ∧ first ≤ now ∧ now ≤ second then
      let shared := twin.board.acquire ceiling lane now
      let alone := twin.memory.acquire ceiling first second
      some {
        board := shared.1
        memory := alone.1
        clock := second
        answers := twin.answers ++ [(shared.2, alone.2)] }
    else none
  | .reset =>
    some { twin with
      board := twin.board.reset lane
      memory := twin.memory.reset }
  | .collect reading =>
    some { twin with
      board := twin.board.collect ceiling lane reading
      clock := max twin.clock reading }

end Twin

def Instant (_ : Twin) : TwinEvent → Prop
  | .acquire first _ second => first = second
  | _ => True

instance (twin : Twin) : DecidablePred (Instant twin)
  | .acquire first _ second => inferInstanceAs (Decidable (first = second))
  | .reset | .collect _ => inferInstanceAs (Decidable True)

variable {cap : Ceiling} {ln : String} {twin fin : Twin}

structure Alike (ceiling : Ceiling) (lane : String) (twin : Twin) : Prop where
  latch : twin.memory.isOpen = twin.board.isOpen lane
  counts : ∀ now, twin.clock ≤ now → twin.memory.events.countP
        (fun event => decide (now - ceiling.window < event)) =
      twin.board.recent lane (now - ceiling.window)
  answers : ∀ pair ∈ twin.answers, pair.1 = pair.2

theorem countP_kept {evs : List Int} (ord : cutoff ≤ later) :
    (evs.filter fun ev => decide (cutoff < ev)).countP (fun ev => decide (later < ev)) =
      evs.countP fun ev => decide (later < ev) := by
  rw [countP_filter]
  refine countP_congr ?_
  intro ev _
  simp only [Bool.and_eq_true, decide_eq_true_eq]
  exact ⟨fun both => both.1, fun late => ⟨late, lt_of_le_of_lt ord late⟩⟩

theorem Alike.answers_append (same : Alike cap ln twin) (eq : l = r) :
    ∀ pair ∈ twin.answers ++ [(l, r)], pair.1 = pair.2 := by
  intro pair mem
  rcases mem_append.mp mem with old | last
  · exact same.answers pair old
  · rw [mem_singleton] at last
    subst last
    exact eq

theorem Alike.acquire (eq : Alike cap ln twin) (pos : 0 < cap.max) (late : twin.clock ≤ now) :
    Alike cap ln {
      board := (twin.board.acquire cap ln now).1
      memory := (twin.memory.acquire cap now now).1
      clock := now
      answers := twin.answers ++ [((twin.board.acquire cap ln now).2,
        (twin.memory.acquire cap now now).2)] } := by
  have sum := eq.counts now late
  have length : (twin.memory.kept cap now).length = twin.board.recent ln (now - cap.window) := by
    rw [← sum, countP_eq_length_filter, Memory.kept]
  have kept : ∀ t, now ≤ t → (twin.memory.kept cap now).countP
          (fun ev => decide (t - cap.window < ev)) = twin.board.recent ln (t - cap.window) := by
    intro t good
    rw [Memory.kept, countP_kept (Int.sub_le_sub_right good _)]
    exact eq.counts t (le_trans late good)
  cases latched : twin.board.isOpen ln with
  | true =>
    have shut : twin.memory.isOpen = true := eq.latch.trans latched
    rw [Board.acquire_latched pos latched, Memory.acquire_latched shut]
    refine ⟨eq.latch, ?_, eq.answers_append rfl⟩
    intro t good
    exact eq.counts t (le_trans late good)
  | false =>
    have closed : twin.memory.isOpen = false := eq.latch.trans latched
    by_cases full : cap.max ≤ twin.board.recent ln (now - cap.window)
    · rw [Board.acquire_full pos latched full, Memory.acquire_full pos closed (length ▸ full)]
      refine ⟨?_, kept, eq.answers_append rfl⟩
      simp [isOpen_upsertLatch]
    · rw [Board.acquire_room pos latched full, Memory.acquire_room pos closed (length ▸ full)]
      refine ⟨eq.latch, ?_, eq.answers_append rfl⟩
      intro t good
      rw [countP_append, kept t good, recent_append]
      simp [countP_singleton]

theorem Alike.step (same : Alike cap ln twin) (pos : 0 < cap.max) (instant : Instant twin ev)
    (ran : twin.step cap ln ev = some fin) :
    Alike cap ln fin := by
  cases ev with
  | acquire fst now second =>
    simp only [Twin.step] at ran
    split_ifs at ran with ord
    rw [Option.some.injEq] at ran
    subst ran
    obtain ⟨late, low, up⟩ := ord
    have eq : fst = second := instant
    have init : fst = now := by omega
    have stop : second = now := by omega
    rw [init] at late ⊢
    rw [stop]
    exact same.acquire pos late
  | reset =>
    cases ran
    refine ⟨?_, ?_, same.answers⟩
    · rw [isOpen_reset, if_pos rfl]
      rfl
    · intro t _
      rw [recent_reset, if_pos rfl]
      rfl
  | collect reading =>
    cases ran
    refine ⟨same.latch, ?_, same.answers⟩
    intro time late
    obtain ⟨after, read⟩ := max_le_iff.mp late
    rw [same.counts time after]
    refine (recent_collect ?_).symm
    intro _
    omega

theorem alike_of_reaches (pos : 0 < cap.max)
    (met : Reaches (Twin.step cap ln) Instant (.initial init) twin) :
    Alike cap ln twin := by
  refine met.invariant (Alike cap ln) ?_ ?_
  · refine ⟨rfl, ?_, ?_⟩
    · intro now _
      rfl
    · intro pair mem
      cases mem
  · intro twin fin ev eq instant ran
    exact eq.step pos instant ran

end

/-- Of every lane with a positive limit, the answers between any two resets are
governed by its ceiling: no half-open interval of a window's length holds more
grants than the limit, no grant follows a refusal, and one refusal alone
reports the trip.  A process that asks both breakers gets the same answers as
long as the clock does not move within a call. -/
theorem signing_ceiling : (∀ (ceilings : String → Ceiling) (start : Int) (fleet : Fleet),
      Reachable (Fleet.step ceilings) (.initial start) fleet → ∀ lane, 0 < (ceilings lane).max →
        Governed (ceilings lane) (fleet.era lane) ∧
          ∀ era ∈ fleet.past lane, Governed (ceilings lane) era) ∧
    ∀ (ceiling : Ceiling) (lane : String) (start : Int) (twin : Twin), 0 < ceiling.max →
      Reaches (Twin.step ceiling lane) Instant (.initial start) twin →
      ∀ pair ∈ twin.answers, pair.1 = pair.2 := by
  refine ⟨?_, ?_⟩
  · intro ceilings start fleet reached lane positive
    have tracks := tracks_of_reachable positive reached
    exact ⟨tracks.current, tracks.earlier⟩
  · intro ceiling lane start twin positive reached
    exact (alike_of_reaches positive reached).answers

namespace Example

def single : Ceiling where
  max := 1
  window := 10

def opened : List Event :=
  [.acquire "ca" 0, .acquire "ca" 10, .collect "ca" 11, .acquire "ca" 12,
    .acquire "ca" 30, .reset "ca"]

def openedTwins : List TwinEvent :=
  [.acquire 0 0 0, .acquire 10 10 10, .collect 11, .acquire 12 12 12, .acquire 30 30 30, .reset]

def moving : List TwinEvent :=
  [.acquire 0 0 1, .acquire 10 10 10]

end Example

open Example

theorem signing_ceiling_opened : ∃ fleet twin,
      Reachable (Fleet.step fun _ => single) (.initial 0) fleet ∧
      fleet.past "ca" = [[(0, .granted), (10, .granted), (12, .tripped), (30, .refused)]] ∧
      (∀ era ∈ fleet.past "ca", Governed single era) ∧
      Reaches (Twin.step single "ca") Instant (.initial 0) twin ∧ twin.answers.length = 4 ∧
      ∀ pair ∈ twin.answers, pair.1 = pair.2 := by
  have reached := @reachable_getD _ _ (Fleet.step fun _ => single)
    (.initial 0) opened (.initial 0) (by decide)
  have alone := @reaches_getD _ _ (Twin.step single "ca") Instant _
    (.initial 0) openedTwins (.initial 0) (by decide)
  exact ⟨_, _, reached, by decide,
    (signing_ceiling.1 _ 0 _ reached "ca" (by decide)).2, alone, by decide,
    signing_ceiling.2 _ "ca" 0 _ (by decide) alone⟩

/-- When the clock moves within a call the breakers can part: the second call
is granted from the tables and trips the one in memory. -/
theorem breakers_part_when_clock_moves :
    ∃ twin, Reachable (Twin.step single "ca") (.initial 0) twin ∧ 0 < single.max ∧
      (Answer.granted, Answer.tripped) ∈ twin.answers := by
  have reached := @reachable_getD _ _ (Twin.step single "ca")
    (.initial 0) moving (.initial 0) (by decide)
  exact ⟨_, reached, by decide, by decide⟩

end Harbor.Signer
