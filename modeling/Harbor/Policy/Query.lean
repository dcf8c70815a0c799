import Harbor.Policy.Analysis

/-!
# Reachability queries

A query names two groups, a protocol and a port, each possibly a wildcard, and
`ValidateQuery` lets ranges of ports through as well.  The answer is compared
with the concrete packets the query stands for.
-/

namespace Harbor.Firewall

open Library.Text Harbor.Policy List

def validateQuery (fold : CaseMap) (proto port : String) : Option String :=
  if protoOk (fold.lower proto) = false then
    some ("bad proto " ++ proto.quote ++ " (want tcp|udp|icmp|any)")
  else if port = "any" then none
  else validatePort port

/-- A protocol and a port that the query covers. -/
def Asks (fold : CaseMap) (proto port q : String) (n : Int) : Prop :=
  q ∈ ["tcp", "udp", "icmp"] ∧ (fold.lower proto = "any" ∨ fold.lower proto = q) ∧
    (1 ≤ n ∧ n ≤ 65535) ∧ covers port n = true

/-- The rules of both ends permit the packet. -/
def Passes (p : Policy) (a b q : String) (n : Int) : Prop :=
  permits (compileHost p [a]).outbound ⟨q, n, [b]⟩ = true ∧
    permits (compileHost p [b]).inbound ⟨q, n, [a]⟩ = true

/-- A port specification that covers some port. -/
def Covering (spec : String) : Prop :=
  ∃ n, (1 ≤ n ∧ n ≤ 65535) ∧ covers spec n = true

/-- The rule is one between the groups for the protocol, or for one of those
asked for. -/
def Rule.Between (r : Rule) (a b q : String) : Prop :=
  (r.fromGroup = "any" ∨ r.fromGroup = a) ∧
    (r.toGroup = "any" ∨ r.toGroup = b) ∧
    (q = "any" ∨ r.proto = "any" ∨ r.proto = q)

/-- Some port is covered by both specifications. -/
def Overlap (spec port : String) : Prop :=
  ∃ n, ((1 ≤ n ∧ n ≤ 65535) ∧ covers port n = true) ∧ covers spec n = true

/-- The ports of a rule that a query can be compared with: a wildcard stands on
either side, or the query is for one port, which the rule covers. -/
def Sees (spec port : String) : Prop :=
  port = "any" ∨ spec = "any" ∨ (cutDash port = none ∧ Overlap spec port)

/-- A host of another group asks for the control plane. -/
def Served (a b : String) : Prop :=
  b = groupControlPlane ∧ a ≠ groupControlPlane

/-- Some rule between the groups is seen. -/
def Seen (p : Policy) (a b q port : String) : Prop :=
  ∃ r ∈ p.rules, r.Between a b q ∧ Sees r.port port

/-- Some rule between the groups has a port in common with the query. -/
def Shared (p : Policy) (a b q port : String) : Prop :=
  ∃ r ∈ p.rules, r.Between a b q ∧ Overlap r.port port

/-- The inputs on which a query gets a truthful answer. -/
structure Candid (p : Policy) (a b q port : String) : Prop where
  /-- A range that covers no port is asked for only where nothing answers. -/
  inverted : ¬Covering port →
    q ≠ "icmp" ∧ ¬Served a b ∧ ¬Seen p a b q port
  /-- Not all rules of the pair cover no port where every port is asked for. -/
  barren : q ≠ "icmp" → q ≠ "any" → port = "any" → b ≠ groupControlPlane →
    (∃ r ∈ p.rules, r.Between a b q) →
    ∃ r ∈ p.rules, r.Between a b q ∧ Covering r.port
  /-- ICMP passes, so some rule must answer a query for every protocol. -/
  whole : q = "any" → port ≠ "any" → Covering port →
    Served a b ∨ Seen p a b q port
  /-- The control plane may reach itself, so some rule must say so. -/
  plane : q ≠ "icmp" → q ≠ "any" → a = groupControlPlane →
    b = groupControlPlane → Covering port → Seen p a b q port
  /-- A range asked for is compared with no range. -/
  ranged : q ≠ "icmp" → q ≠ "any" → b ≠ groupControlPlane →
    Shared p a b q port → Seen p a b q port

variable {p : Policy} {port spec : String}

theorem passes_icmp (ok : validate p = none) (a b : String) (n : Int) : Passes p a b "icmp" n :=
  ⟨(permits_compileHost ok [a] .outbound _).mpr (.inr (.inr (.inr rfl))),
    (permits_compileHost ok [b] .inbound _).mpr (.inr (.inr (.inr rfl)))⟩

/-- A port specification that is no range: the wildcard or one port. -/
theorem single_port (one : cutDash port = none) (ok : portOk port = true) : port = "any" ∨
      ∃ n, atoi port = some n ∧ (1 ≤ n ∧ n ≤ 65535) ∧ ∀ m, covers port m = true ↔ m = n := by
  by_cases wild : port = "any"
  · exact .inl wild
  · simp only [portOk, beq_eq_false_iff_ne.mpr wild, one, Bool.false_or, portNumber] at ok
    split at ok
    · rename_i n read
      refine .inr ⟨n, read, of_decide_eq_true ok, ?_⟩
      intro m
      simp only [covers, beq_eq_false_iff_ne.mpr wild, one, read, Bool.false_or, beq_iff_eq,
        Option.some.injEq]
      exact eq_comm
    · cases ok

theorem covering_any : Covering "any" :=
  ⟨1, by decide, rfl⟩

theorem Overlap.covering (overlap : Overlap spec port) : Covering port := by
  obtain ⟨n, asked, -⟩ := overlap
  exact ⟨n, asked⟩

/-- `Atoi` reads no range: its dash is neither a sign nor a digit. -/
theorem atoi_of_range {lo hi : String} (cut : cutDash port = some (lo, hi))
    (number : portNumber lo = true) : atoi port = none := by
  obtain ⟨shape, -⟩ := cutDash_eq_some cut
  have dashed : ∀ digits : List Char, '-' ∈ digits → decimal digits = none := by
    intro digits present
    cases read : decimal digits with
    | none => rfl
    | some value => exact absurd present (not_mem_of_decimal (by decide) read)
  unfold atoi
  split
  · rename_i digits text
    rw [shape] at text
    cases letters : lo.toList with
    | nil =>
      have empty : lo = "" := String.toList_inj.mp letters
      rw [empty] at number
      exact absurd number (by decide)
    | cons first rest =>
      rw [letters, cons_append, cons.injEq] at text
      have dash : '-' ∈ digits := by
        rw [← text.2]
        simp
      rw [dashed digits dash]
      rfl
  · rename_i digits text
    have dash : '-' ∈ digits := by
      have present : '-' ∈ '+' :: digits := by
        rw [← text, shape]
        simp
      simpa using present
    rw [dashed digits dash]
    rfl
  · rw [dashed _ (by rw [shape]; simp)]
    rfl

theorem matchPort_iff_sees (ok : portOk port = true) :
    matchPort spec port = true ↔ Sees spec port := by
  unfold Sees
  by_cases wild : port = "any"
  · simp [matchPort, wild]
  by_cases everyPort : spec = "any"
  · simp [matchPort, everyPort]
  simp only [wild, everyPort, false_or]
  cases cut : cutDash port with
  | none =>
    obtain ⟨n, read, proper, only⟩ := (single_port cut ok).resolve_left wild
    rw [matchPort_eq_covers read]
    constructor
    · exact fun covered => ⟨rfl, n, ⟨proper, (only n).mpr rfl⟩, covered⟩
    · rintro ⟨-, m, ⟨-, same⟩, covered⟩
      exact (only m).mp same ▸ covered
  | some parts =>
    have numbers : portNumber parts.1 = true ∧ portNumber parts.2 = true := by
      simpa [portOk, wild, cut] using ok
    simp [matchPort, wild, everyPort, atoi_of_range cut numbers.1]

theorem overlap_of_sees (covering : Covering port) (fixed : port ≠ "any")
    (sees : Sees spec port) : Overlap spec port := by
  rcases sees with wild | rfl | ⟨-, overlap⟩
  · exact absurd wild fixed
  · obtain ⟨n, asked⟩ := covering
    exact ⟨n, asked, rfl⟩
  · exact overlap

theorem overlap_any : Overlap spec "any" ↔ Covering spec := by
  constructor
  · rintro ⟨n, ⟨proper, -⟩, covered⟩
    exact ⟨n, proper, covered⟩
  · rintro ⟨n, proper, covered⟩
    exact ⟨n, ⟨proper, rfl⟩, covered⟩

theorem grants_iff {r : Rule} (ok : portOk port = true) :
    r.grants a b q port ↔ r.Between a b q ∧ Sees r.port port := by
  unfold Rule.grants Rule.Between
  rw [matchPort_iff_sees ok]
  simp only [matchGroup, matchProto, Bool.or_eq_true, beq_iff_eq, or_assoc, and_assoc]

theorem ok_of_validateQuery (took : validateQuery fold proto port = none) :
    protoOk (fold.lower proto) = true ∧ portOk port = true := by
  unfold validateQuery at took
  split_ifs at took with bad wild
  · exact ⟨by simpa using bad, by rw [wild]; rfl⟩
  · unfold validatePort at took
    split_ifs at took with ok
    exact ⟨by simpa using bad, ok⟩

/-- What passes of a query passes by the baseline or by a rule of the pair. -/
theorem passes_iff (valid : validate p = none) (named : protoOk q = true)
    (lowered : CaseMap.lower fold proto = q) :
    (∃ q n, Asks fold proto port q n ∧ Passes p a b q n) ↔
      (Covering port ∧ (q = "icmp" ∨ q = "any" ∨ b = groupControlPlane)) ∨
        ∃ r ∈ p.rules, r.Between a b q ∧ Overlap r.port port := by
  simp only [protoOk, mem_cons, not_mem_nil, or_false, decide_eq_true_eq] at named
  constructor
  · rintro ⟨sent, n, ⟨listed, equal, asked⟩, passes⟩
    rw [lowered] at equal
    by_cases icmp : sent = "icmp"
    · rw [icmp] at equal
      exact .inl ⟨⟨n, asked⟩, equal.elim (fun any => .inr (.inl any)) .inl⟩
    · have firm : sent ≠ "any" ∧ sent ≠ "icmp" := by
        refine ⟨?_, icmp⟩
        rintro rfl
        exact absurd listed (by decide)
      rcases (permits_both_iff valid firm).mp passes with plane | ⟨r, listed, carries⟩
      · exact .inl ⟨⟨n, asked⟩, .inr (.inr plane)⟩
      · obtain ⟨source, target, speaks, covered⟩ := carries
        refine .inr ⟨r, listed, ⟨?_, ?_, ?_⟩, n, asked, covered⟩
        · simpa [matchGroup] using source
        · simpa [matchGroup] using target
        · simp only [matchProto, Bool.or_eq_true, beq_iff_eq, firm.1, false_or] at speaks
          refine equal.imp_right fun same => ?_
          rw [same]
          exact speaks
  · intro found
    have covering : Covering port := by
      rcases found with ⟨covering, -⟩ | ⟨_, -, -, overlap⟩
      · exact covering
      · exact overlap.covering
    obtain ⟨n, asked⟩ := covering
    by_cases icmp : q = "icmp" ∨ q = "any"
    · exact ⟨"icmp", n, ⟨by decide, lowered ▸ icmp.symm, asked⟩, passes_icmp valid a b n⟩
    · have firm : q ≠ "any" ∧ q ≠ "icmp" :=
        ⟨fun any => icmp (.inr any), fun same => icmp (.inl same)⟩
      have listed : q ∈ ["tcp", "udp", "icmp"] := by
        rcases named with rfl | rfl | rfl | rfl
        · decide
        · decide
        · decide
        · exact absurd rfl firm.1
      rcases found with ⟨-, same | any | plane⟩ | ⟨r, member, between, m, also, covered⟩
      · exact absurd (.inl same) icmp
      · exact absurd (.inr any) icmp
      · exact ⟨q, n, ⟨listed, .inr lowered, asked⟩,
          (permits_both_iff valid firm).mpr (.inl plane)⟩
      · refine ⟨q, m, ⟨listed, .inr lowered, also⟩,
          (permits_both_iff valid firm).mpr (.inr ⟨r, member, ?_, ?_, ?_, covered⟩)⟩
        · simpa [matchGroup] using between.1
        · simpa [matchGroup] using between.2.1
        · simpa [matchProto, firm.1] using between.2.2

section

variable {a b q : String}

theorem Shared.covering (shared : Shared p a b q port) : Covering port := by
  obtain ⟨_, -, -, overlap⟩ := shared
  exact overlap.covering

theorem shared_of_seen (covering : Covering port) (fixed : port ≠ "any")
    (seen : Seen p a b q port) : Shared p a b q port := by
  obtain ⟨r, listed, between, sees⟩ := seen
  exact ⟨r, listed, between, overlap_of_sees covering fixed sees⟩

/-- What `Reachable` answers. -/
def Answered (p : Policy) (a b q port : String) : Prop :=
  q = "icmp" ∨ Served a b ∨ (q = "any" ∧ port = "any") ∨ Seen p a b q port

/-- What passes. -/
def Passing (p : Policy) (a b q port : String) : Prop :=
  (Covering port ∧ (q = "icmp" ∨ q = "any" ∨ b = groupControlPlane)) ∨
    Shared p a b q port

theorem candid_of_agree (agree : Answered p a b q port ↔ Passing p a b q port) :
    Candid p a b q port where
  inverted := by
    intro bare
    have silent : ¬Answered p a b q port := by
      intro answered
      rcases agree.mp answered with ⟨covering, -⟩ | shared
      · exact bare covering
      · exact bare shared.covering
    exact ⟨fun icmp => silent (.inl icmp),
      fun served => silent (.inr (.inl served)),
      fun seen => silent (.inr (.inr (.inr seen)))⟩
  barren := by
    rintro icmp any rfl foreign ⟨r, listed, between⟩
    rcases agree.mp (.inr (.inr (.inr ⟨r, listed, between, .inl rfl⟩))) with
      ⟨-, same | every | plane⟩ | ⟨other, member, joins, overlap⟩
    · exact absurd same icmp
    · exact absurd every any
    · exact absurd plane foreign
    · exact ⟨other, member, joins, overlap_any.mp overlap⟩
  whole := by
    rintro rfl fixed covering
    rcases agree.mpr (.inl ⟨covering, .inr (.inl rfl)⟩) with icmp | served | ⟨-, wild⟩ | seen
    · exact absurd icmp (by decide)
    · exact .inl served
    · exact absurd wild fixed
    · exact .inr seen
  plane := by
    intro icmp any own plane covering
    rcases agree.mpr (.inl ⟨covering, .inr (.inr plane)⟩) with same | served | ⟨every, -⟩ | seen
    · exact absurd same icmp
    · exact absurd own served.2
    · exact absurd every any
    · exact seen
  ranged := by
    intro icmp any foreign shared
    rcases agree.mpr (.inr shared) with same | served | ⟨every, -⟩ | seen
    · exact absurd same icmp
    · exact absurd served.1 foreign
    · exact absurd every any
    · exact seen

theorem Candid.passing (candid : Candid p a b q port)
    (answered : Answered p a b q port) : Passing p a b q port := by
  by_cases covering : Covering port
  · rcases answered with icmp | served | ⟨any, -⟩ | seen
    · exact .inl ⟨covering, .inl icmp⟩
    · exact .inl ⟨covering, .inr (.inr served.1)⟩
    · exact .inl ⟨covering, .inr (.inl any)⟩
    · by_cases baseline : q = "icmp" ∨ q = "any" ∨ b = groupControlPlane
      · exact .inl ⟨covering, baseline⟩
      · by_cases wild : port = "any"
        · simp only [not_or] at baseline
          obtain ⟨r, listed, between, -⟩ := seen
          obtain ⟨other, member, joins, covers⟩ := candid.barren baseline.1 baseline.2.1
            wild baseline.2.2 ⟨r, listed, between⟩
          exact .inr ⟨other, member, joins, wild ▸ overlap_any.mpr covers⟩
        · exact .inr (shared_of_seen covering wild seen)
  · obtain ⟨icmp, unserved, unseen⟩ := candid.inverted covering
    rcases answered with same | served | ⟨-, rfl⟩ | seen
    · exact absurd same icmp
    · exact absurd served unserved
    · exact absurd covering_any covering
    · exact absurd seen unseen

theorem Candid.answered (candid : Candid p a b q port)
    (passing : Passing p a b q port) : Answered p a b q port := by
  have covering : Covering port := passing.elim And.left Shared.covering
  by_cases icmp : q = "icmp"
  · exact .inl icmp
  by_cases any : q = "any"
  · by_cases wild : port = "any"
    · exact .inr (.inr (.inl ⟨any, wild⟩))
    · rcases candid.whole any wild covering with served | seen
      · exact .inr (.inl served)
      · exact .inr (.inr (.inr seen))
  by_cases plane : b = groupControlPlane
  · by_cases own : a = groupControlPlane
    · exact .inr (.inr (.inr (candid.plane icmp any own plane covering)))
    · exact .inr (.inl ⟨plane, own⟩)
  rcases passing with ⟨-, same | every | target⟩ | shared
  · exact absurd same icmp
  · exact absurd every any
  · exact absurd target plane
  · exact .inr (.inr (.inr (candid.ranged icmp any plane shared)))

end

/-- For every valid policy the answer to a valid query is whether some packet of
it passes, exactly on the inputs that are `Candid`. -/
theorem reachable_truthful (fold : CaseMap) {p : Policy}
    (valid : validate p = none)
    {a b proto port : String}
    (accepted : validateQuery fold proto port = none) :
    ((reachable fold p a b proto port).allowed = true ↔
      ∃ q n, Asks fold proto port q n ∧ Passes p a b q n) ↔
      Candid p a b (fold.lower proto) port := by
  obtain ⟨named, ok⟩ := ok_of_validateQuery accepted
  rw [reachable_allowed fold rfl, passes_iff valid named rfl]
  simp only [grants_iff ok]
  exact ⟨candid_of_agree, fun candid => ⟨candid.passing, candid.answered⟩⟩

theorem reachable_truthful_any_port :
    (reachable .plain sampleRules "web" "db" "TCP" "any").allowed = true ↔
      ∃ q n, Asks .plain "TCP" "any" q n ∧ Passes sampleRules "web" "db" q n := by
  refine (reachable_truthful .plain (by decide) (by decide)).mpr ?_
  have shared : ∃ r ∈ sampleRules.rules, r.Between "web" "db" "tcp" ∧ Covering r.port :=
    ⟨⟨"web", "db", "tcp", "5432"⟩, by decide, ⟨.inr rfl, .inr rfl, .inr (.inr rfl)⟩,
      5432, by decide, by decide⟩
  refine ⟨fun bare => absurd covering_any bare, fun _ _ _ _ _ => shared, ?_, ?_, ?_⟩
  · intro _ fixed
    exact absurd rfl fixed
  · intro _ _ plane
    exact absurd plane (by decide)
  · rintro _ _ _ ⟨r, listed, between, -⟩
    exact ⟨r, listed, between, .inl rfl⟩

/-- A query for a range inside the range of a rule is accepted and denied. -/
theorem range_query_denied :
    let p : Policy := ⟨0, [⟨"web", "db", "tcp", "8000-9000"⟩]⟩
    validate p = none ∧ validateQuery .plain "tcp" "8000-8001" = none ∧
      (reachable .plain p "web" "db" "tcp" "8000-8001").allowed = false ∧
      Asks .plain "tcp" "8000-8001" "tcp" 8000 ∧ Passes p "web" "db" "tcp" 8000 := by
  unfold Asks Passes
  decide

end Harbor.Firewall
