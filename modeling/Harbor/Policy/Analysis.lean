import Harbor.Policy.Firewall
import Mathlib.Data.Set.Basic

/-!
# What a policy permits, and what a change of it touches

`Reachable` answers whether traffic between two groups is permitted without
compiling any host, and `FlowDiff` with `BlastRadius` names the hosts a draft
touches.  Both are compared here with what the compiled rules permit.
-/

namespace Harbor.Firewall

open Library Library.Text Harbor.Policy List

/-! ## Reachability -/

inductive Reason where
  | rule
  | baselineControlPlane
  | baselineICMP
  | defaultDeny
deriving DecidableEq, Repr

structure Decision where
  allowed : Bool
  reason : Reason
  rule : Option Rule := none
  nearest : Option Rule := none
deriving DecidableEq, Repr

def matchGroup (ruleGroup query : String) : Bool :=
  ruleGroup == "any" || ruleGroup == query

def matchProto (ruleProto query : String) : Bool :=
  query == "any" || ruleProto == "any" || ruleProto == query

def matchPort (rulePort query : String) : Bool :=
  query == "any" || rulePort == "any" ||
    match atoi query with
    | none => false
    | some qn =>
      match cutDash rulePort with
      | none => atoi rulePort == some qn
      | some (lo, hi) =>
        match atoi lo, atoi hi with
        | some lon, some hin => decide (lon ≤ qn ∧ qn ≤ hin)
        | _, _ => false

/-- The loop of `Reachable`, with the nearest miss so far. -/
def evaluateRules (source target proto port : String) : Option Rule → List Rule → Decision
  | nearest, [] =>
    if proto = "any" ∧ port = "any" then
      { allowed := true, reason := .baselineICMP }
    else
      { allowed := false, reason := .defaultDeny, nearest := nearest }
  | nearest, r :: rest =>
    if !matchGroup r.fromGroup source || !matchGroup r.toGroup target then
      evaluateRules source target proto port nearest rest
    else if matchProto r.proto proto && matchPort r.port port then
      { allowed := true, reason := .rule, rule := some r }
    else
      evaluateRules source target proto port (nearest.or (some r)) rest

def reachable (fold : CaseMap) (p : Policy) (source target proto port : String) : Decision :=
  let proto := fold.lower proto
  if proto = "icmp" then { allowed := true, reason := .baselineICMP }
  else if target = groupControlPlane ∧ source ≠ groupControlPlane then
    { allowed := true, reason := .baselineControlPlane }
  else evaluateRules source target proto port none p.rules

def Rule.grants (r : Rule) (source target proto port : String) : Prop :=
  matchGroup r.fromGroup source = true ∧ matchGroup r.toGroup target = true ∧
    matchProto r.proto proto = true ∧ matchPort r.port port = true

/-- The rule lets the concrete traffic through on either side. -/
def Rule.carries (r : Rule) (source target proto : String) (n : Int) : Prop :=
  matchGroup r.fromGroup source = true ∧ matchGroup r.toGroup target = true ∧
    matchProto r.proto proto = true ∧ covers r.port n = true

theorem evaluateRules_allowed :
    (evaluateRules src tgt proto port nearest rs).allowed = true ↔
      (proto = "any" ∧ port = "any") ∨ ∃ r ∈ rs, r.grants src tgt proto port := by
  induction rs generalizing nearest with
  | nil =>
    simp only [evaluateRules, not_mem_nil, false_and, exists_false, or_false]
    split_ifs with wild
    · simp [wild]
    · simp [wild]
  | cons head rest ih =>
    simp only [evaluateRules, mem_cons, exists_eq_or_imp]
    split_ifs with apart granted
    · rw [ih]
      refine or_congr_right ⟨.inr, ?_⟩
      rintro (⟨source, target, -⟩ | later)
      · simp [source, target] at apart
      · exact later
    · simp only [Bool.or_eq_true, Bool.not_eq_true', not_or, Bool.not_eq_false] at apart
      simp only [Bool.and_eq_true] at granted
      simp only [true_iff]
      exact .inr (.inl ⟨apart.1, apart.2, granted.1, granted.2⟩)
    · rw [ih]
      refine or_congr_right ⟨.inr, ?_⟩
      rintro (⟨-, -, proto, port⟩ | later)
      · simp [proto, port] at granted
      · exact later

variable {text : String}

theorem ne_any_of_atoi {n : Int} (read : atoi text = some n) : (text == "any") = false := by
  rw [beq_eq_false_iff_ne]
  rintro rfl
  have left : atoi "any" = none := by decide
  rw [left] at read
  cases read

theorem matchPort_eq_covers {n : Int}
    (read : atoi query = some n) : matchPort spec query = covers spec n := by
  unfold matchPort
  rewrite [ne_any_of_atoi read, Bool.false_or, read]
  rfl

section

variable {r : Rule} {source tgt proto query : String} {n : Int}

theorem carries_iff_outbound (firm : proto ≠ "any") :
    r.carries source tgt proto n ↔ r.admits .outbound [source] ⟨proto, n, [tgt]⟩ := by
  unfold Rule.carries Rule.admits
  simp only [matchGroup, matchProto, Rule.own, Rule.peer, Bool.or_eq_true,
    beq_iff_eq, firm, false_or, mem_singleton]
  tauto

theorem carries_iff_inbound (firm : proto ≠ "any") :
    r.carries source tgt proto n ↔ r.admits .inbound [tgt] ⟨proto, n, [source]⟩ := by
  unfold Rule.carries Rule.admits
  simp only [matchGroup, matchProto, Rule.own, Rule.peer, Bool.or_eq_true,
    beq_iff_eq, firm, false_or, mem_singleton]
  tauto

theorem baselineAdmits_single
    (wire : proto ≠ "icmp") : BaselineAdmits dir [own] ⟨proto, n, [peer]⟩ ↔
      own = groupControlPlane ∨ dir = .outbound ∧ peer = groupControlPlane := by
  simp [BaselineAdmits, wire, eq_comm]

theorem permits_both_iff {p : Policy} (ok : validate p = none)
    (firm : proto ≠ "any" ∧ proto ≠ "icmp") :
    permits (compileHost p [source]).outbound ⟨proto, n, [tgt]⟩ = true ∧
        permits (compileHost p [tgt]).inbound ⟨proto, n, [source]⟩ = true ↔
      tgt = groupControlPlane ∨ ∃ r ∈ p.rules, r.carries source tgt proto n := by
  have outward := permits_compileHost ok [source] .outbound ⟨proto, n, [tgt]⟩
  have inward := permits_compileHost ok [tgt] .inbound ⟨proto, n, [source]⟩
  rw [baselineAdmits_single firm.2] at outward inward
  simp only [← carries_iff_outbound firm.1] at outward
  simp only [← carries_iff_inbound firm.1] at inward
  simp only [Compiled.rules] at outward inward
  rw [outward, inward]
  by_cases plane : tgt = groupControlPlane
  · simp [plane]
  · have inner : Direction.inbound ≠ .outbound := by decide
    simp only [plane, inner, false_and, and_false, or_false, false_or]
    exact ⟨fun both => both.2, fun had => ⟨.inl had, had⟩⟩

theorem reachable_allowed (fold : CaseMap) {p : Policy}
    (lowered : fold.lower proto = query) :
    (reachable fold p source tgt proto text).allowed = true ↔
      query = "icmp" ∨ (tgt = groupControlPlane ∧ source ≠ groupControlPlane) ∨
        (query = "any" ∧ text = "any") ∨
        ∃ r ∈ p.rules, r.grants source tgt query text := by
  simp only [reachable, lowered]
  split_ifs with icmp served
  · simp [icmp]
  · simp [served]
  · simp only [icmp, served, false_or, evaluateRules_allowed]

end

/-- For every valid policy the answer of `Reachable` on tcp and udp traffic
between two groups is whether the compiled rules of the source let it out and
those of the target let it in, exactly if not both groups are the control plane
or some rule carries the traffic. -/
theorem reachable_iff_compiled (fold : CaseMap) {p : Policy}
    (valid : validate p = none)
    {a b proto port : String} {n : Int}
    (transport : proto = "tcp" ∨ proto = "udp")
    (read : atoi port = some n) :
    ((reachable fold p a b proto port).allowed = true ↔
      permits (compileHost p [a]).outbound ⟨proto, n, [b]⟩ = true ∧
        permits (compileHost p [b]).inbound ⟨proto, n, [a]⟩ = true) ↔
      ¬(a = groupControlPlane ∧ b = groupControlPlane) ∨
        ∃ r ∈ p.rules, r.carries a b proto n := by
  have lowered : fold.lower proto = proto := by
    rcases transport with rfl | rfl
    · exact lower_eq_self fold (by decide)
    · exact lower_eq_self fold (by decide)
  have concrete : proto ≠ "any" ∧ proto ≠ "icmp" := by
    rcases transport with rfl | rfl <;> decide
  rw [permits_both_iff valid concrete, reachable_allowed fold lowered]
  have same : (∃ r ∈ p.rules, r.grants a b proto port) ↔
      ∃ r ∈ p.rules, r.carries a b proto n := by
    simp only [Rule.grants, Rule.carries, matchPort_eq_covers read]
  simp only [same, concrete.1, concrete.2, false_and, false_or, ne_eq]
  by_cases carried : ∃ r ∈ p.rules, r.carries a b proto n
  · simp only [carried, or_true]
  · simp only [carried, or_false]
    exact ⟨fun agree both => (agree.mpr both.2).2 both.1, fun apart =>
      ⟨And.left, fun plane => ⟨plane, fun own => apart ⟨own, plane⟩⟩⟩⟩

def sampleRules : Policy where
  rules := [⟨"web", "db", "tcp", "5432"⟩, ⟨"any", "dns", "udp", "53-53"⟩]

theorem reachable_iff_compiled_ports :
    ((reachable .plain sampleRules "web" "db" "tcp" "5432").allowed = true ↔
      permits (compileHost sampleRules ["web"]).outbound
          ⟨"tcp", 5432, ["db"]⟩ = true ∧
        permits (compileHost sampleRules ["db"]).inbound
          ⟨"tcp", 5432, ["web"]⟩ = true) ∧
      (reachable .plain sampleRules "web" "db" "tcp" "5432").allowed = true :=
  ⟨(reachable_iff_compiled .plain (by decide) (.inl rfl) (by decide)).mpr
    (.inl (by decide)), by decide⟩

/-- Two control-plane hosts: the simulator denies what both compiled rule sets
permit. -/
theorem control_plane_pair_denied : validate ⟨0, []⟩ = none ∧ atoi "443" = some 443 ∧
      (reachable .plain ⟨0, []⟩ groupControlPlane groupControlPlane "tcp" "443").allowed = false ∧
      permits (compileHost ⟨0, []⟩ [groupControlPlane]).outbound
        ⟨"tcp", 443, [groupControlPlane]⟩ = true ∧
      permits (compileHost ⟨0, []⟩ [groupControlPlane]).inbound
        ⟨"tcp", 443, [groupControlPlane]⟩ = true := by
  decide

/-! ## Differences -/

structure Flow where
  proto : String
  port : String
deriving DecidableEq, Repr

def Flow.key (flow : Flow) : String :=
  flow.proto ++ "|" ++ flow.port

structure FlowDelta where
  source : String
  target : String
  flow : Flow
deriving DecidableEq, Repr

structure DiffResult where
  added : List FlowDelta
  removed : List FlowDelta
deriving DecidableEq, Repr

def canonPort (port : String) : String :=
  match cutDash port with
  | some (lo, hi) => if lo = hi then lo else port
  | none => port

def Rule.flow (r : Rule) : Flow where
  proto := r.proto
  port := canonPort r.port

def literalFlows (p : Policy) (source target : String) : List Flow :=
  distinctBy Flow.key ((p.rules.filter fun r =>
    r.fromGroup == source && r.toGroup == target).map Rule.flow)

def flowsMinus (left right : List Flow) : List Flow :=
  left.filter fun flow => !(right.map Flow.key).contains flow.key

def pairLe (left right : String × String) : Bool :=
  if left.1 = right.1 then decide (left.2 ≤ right.2)
  else decide (left.1 < right.1)

def unionLiteralPairs (active draft : Policy) : List (String × String) :=
  (distinctBy id ((active.rules ++ draft.rules).map fun r =>
    (r.fromGroup, r.toGroup))).mergeSort pairLe

def deltas (left right : Policy) (pair : String × String) : List FlowDelta :=
  (flowsMinus (literalFlows left pair.1 pair.2) (literalFlows right pair.1 pair.2)).map fun flow =>
      ⟨pair.1, pair.2, flow⟩

def flowDiff (active draft : Policy) : DiffResult where
  added := (unionLiteralPairs active draft).flatMap (deltas draft active)
  removed := (unionLiteralPairs active draft).flatMap (deltas active draft)

structure BlastResult where
  hosts : List String
  count : Nat
  total : Nat
deriving DecidableEq, Repr

def touch (groupHosts : String → List String) (allHosts : List String)
    (group : String) : List String :=
  if group = "any" then allHosts else groupHosts group

def blastRadius (diff : DiffResult) (groupHosts : String → List String)
    (allHosts : List String) : BlastResult :=
  let affected := distinctBy id ((diff.added ++ diff.removed).flatMap fun d =>
    touch groupHosts allHosts d.source ++ touch groupHosts allHosts d.target)
  let hosts := affected.mergeSort fun left right => decide (left ≤ right)
  { hosts := hosts, count := hosts.length, total := allHosts.length }

abbrev Membership := List (String × List String)

/-- The map `fleetGroupMap` builds, which leaves the reserved groups out. -/
def Membership.groupHosts (members : Membership) (group : String) :
    List String :=
  if isReservedGroup group then []
  else (members.filter fun host => host.2.contains group).map Prod.fst

def Membership.allHosts (members : Membership) : List String :=
  members.map Prod.fst

/-! ## What a difference names -/

theorem atoi_of_portNumber (num : portNumber text = true) : ∃ n, atoi text = some n := by
  unfold portNumber at num
  split at num
  · rename_i n read
    exact ⟨n, read⟩
  · cases num

theorem cutDash_eq_none (tidy : '-' ∉ text.toList) : cutDash text = none := by
  unfold cutDash
  rw [cutChars_eq_none_iff.mpr tidy]
  rfl

theorem canonPort_covers (ok : portOk port = true) (n : Int) :
    covers (canonPort port) n = covers port n := by
  unfold canonPort
  cases cut : cutDash port with
  | none => rfl
  | some parts =>
    obtain ⟨lo, hi⟩ := parts
    simp only
    split_ifs with eq
    · subst eq
      have same : (port == "any") = false := by
        rw [beq_eq_false_iff_ne]
        rintro rfl
        have uncut : cutDash "any" = none := by decide
        rw [uncut] at cut
        cases cut
      simp only [portOk, same, cut, Bool.false_or, Bool.and_self] at ok
      obtain ⟨v, read⟩ := atoi_of_portNumber ok
      simp only [covers, same, cut, read, Bool.false_or,
        cutDash_eq_none (cutDash_eq_some cut).2, ne_any_of_atoi read]
      rw [Bool.eq_iff_iff]
      simp only [beq_iff_eq, Option.some.injEq, decide_eq_true_eq]
      omega
    · rfl

theorem Flow.eq_of_key_eq {l r : Flow} (leftOk : protoOk l.proto = true)
    (rightOk : protoOk r.proto = true) (eq : l.key = r.key) : l = r := by
  have cs := congrArg String.toList eq
  simp only [Flow.key, String.toList_append] at cs
  obtain ⟨proto, port⟩ := append_separator_inj (bar_not_mem_of_protoOk leftOk)
    (bar_not_mem_of_protoOk rightOk) (by simpa using cs)
  cases l
  cases r
  simp only [String.toList_inj] at proto port
  subst proto port
  rfl

theorem covers_of_flow_eq {l r : Rule} (leftOk : RuleOk l) (rightOk : RuleOk r)
    (eq : l.flow = r.flow) (n : Int) : covers l.port n = covers r.port n := by
  rw [← canonPort_covers leftOk.port, ← canonPort_covers rightOk.port]
  exact congrArg (covers · n) (congrArg Flow.port eq)

def Rule.tuple (r : Rule) : FlowDelta := ⟨r.fromGroup, r.toGroup, r.flow⟩

def tuples (p : Policy) : Set FlowDelta :=
  {d | ∃ r ∈ p.rules, r.tuple = d}

section

variable {left right : Policy} {d : FlowDelta}

theorem protoOk_of_mem_literalFlows (ok : validate left = none)
    (mem : flow ∈ literalFlows left src tgt) : protoOk flow.proto = true := by
  obtain ⟨r, has, rfl⟩ := mem_map.mp (mem_of_mem_distinctBy mem)
  exact (ruleOk_of_validate ok r (mem_filter.mp has).1).proto

theorem mem_literalFlows (ok : validate left = none) :
    d.flow ∈ literalFlows left d.source d.target ↔ d ∈ tuples left := by
  unfold literalFlows
  rw [mem_distinctBy_iff]
  · simp only [mem_map, mem_filter, Bool.and_eq_true, beq_iff_eq]
    constructor
    · rintro ⟨r, ⟨has, src, tgt⟩, flow⟩
      exact ⟨r, has, by rw [Rule.tuple, src, tgt, flow]⟩
    · rintro ⟨r, has, rfl⟩
      exact ⟨r, ⟨has, rfl, rfl⟩, rfl⟩
  · intro one oneListed alt otherListed
    obtain ⟨r, has, rfl⟩ := mem_map.mp oneListed
    obtain ⟨s, here, rfl⟩ := mem_map.mp otherListed
    exact Flow.eq_of_key_eq (ruleOk_of_validate ok r (mem_filter.mp has).1).proto
      (ruleOk_of_validate ok s (mem_filter.mp here).1).proto

theorem mem_flowsMinus (okL : validate left = none) (okR : validate right = none) :
    flow ∈ flowsMinus (literalFlows left src tgt) (literalFlows right src tgt) ↔
      flow ∈ literalFlows left src tgt ∧ flow ∉ literalFlows right src tgt := by
  unfold flowsMinus
  rw [mem_filter, Bool.not_eq_true', ← Bool.not_eq_true, contains_iff_mem, mem_map]
  refine and_congr_right ?_
  intro mem
  refine not_congr ⟨?_, fun both => ⟨flow, both, rfl⟩⟩
  rintro ⟨o, both, eq⟩
  exact Flow.eq_of_key_eq (protoOk_of_mem_literalFlows okR both)
    (protoOk_of_mem_literalFlows okL mem) eq ▸ both

theorem mem_deltas (okL : validate left = none) (okR : validate right = none) :
    d ∈ deltas left right pair ↔ (d.source, d.target) = pair ∧ d ∈ tuples left \ tuples right := by
  unfold deltas
  simp only [mem_map, mem_flowsMinus okL okR]
  constructor
  · rintro ⟨flow, ⟨same, unnamed⟩, rfl⟩
    exact ⟨rfl, (mem_literalFlows okL).mp same,
      fun both => unnamed ((mem_literalFlows okR).mpr both)⟩
  · rintro ⟨rfl, same, unnamed⟩
    exact ⟨d.flow, ⟨(mem_literalFlows okL).mpr same,
      fun both => unnamed ((mem_literalFlows okR).mp both)⟩, rfl⟩

end

theorem mem_unionLiteralPairs {r : Rule} (mem : r ∈ live.rules ∨ r ∈ draft.rules) :
    (r.fromGroup, r.toGroup) ∈ unionLiteralPairs live draft := by
  have has : (r.fromGroup, r.toGroup) ∈
      (live.rules ++ draft.rules).map fun r => (r.fromGroup, r.toGroup) :=
    mem_map.mpr ⟨r, mem_append.mpr mem, rfl⟩
  unfold unionLiteralPairs
  rw [mem_mergeSort]
  exact mem_distinctBy_id.mpr has

theorem mem_blastRadius :
    h ∈ (blastRadius diff groupHosts allHosts).hosts ↔ ∃ d ∈ diff.added ++ diff.removed,
        h ∈ touch groupHosts allHosts d.source ∨ h ∈ touch groupHosts allHosts d.target := by
  simp only [blastRadius]
  rw [mem_mergeSort, mem_distinctBy_id]
  simp only [mem_flatMap, mem_append]

section

variable {left right : Policy} {r : Rule}
  {dir : Direction} {groups : List String} {packet : Packet}
  {members : Membership} {host : String}

theorem checkInvariantsFrom_unreserved {i : Nat} (test : checkInvariantsFrom i rs = none) :
    ∀ r ∈ rs, isReservedGroup r.fromGroup = false ∧ isReservedGroup r.toGroup = false := by
  induction rs generalizing i with
  | nil =>
    intro r mem
    cases mem
  | cons head rest ih =>
    simp only [checkInvariantsFrom] at test
    split at test
    · cases test
    · rename_i tidy
      intro r mem
      rcases mem_cons.mp mem with rfl | later
      · simpa using tidy
      · exact ih test r later

theorem mem_touch_of_admits (mem : (host, groups) ∈ members) (lets : r.admits dir groups packet)
    (spare : isReservedGroup (r.own dir) = false) :
    host ∈ touch members.groupHosts members.allHosts (r.own dir) := by
  unfold touch
  split_ifs with wild
  · exact mem_map_of_mem (f := Prod.fst) mem
  · have held : r.own dir ∈ groups := lets.1.resolve_left wild
    simp only [Membership.groupHosts, spare, Bool.false_eq_true, if_false]
    exact mem_map_of_mem (f := Prod.fst) (mem_filter.mpr ⟨mem, by simpa using held⟩)

theorem tuple_mem_deltas (okL : validate left = none)
    (okR : validate right = none) (mem : r ∈ left.rules)
    (lets : r.admits dir groups packet) (deny : ¬∃ alt ∈ right.rules,
      alt.admits dir groups packet) : r.tuple ∈ deltas left right (r.fromGroup, r.toGroup) := by
  refine (mem_deltas okL okR).mpr ⟨rfl, ⟨r, mem, rfl⟩, ?_⟩
  rintro ⟨alt, here, eq⟩
  obtain ⟨src, tgt, flow⟩ := FlowDelta.mk.inj eq
  have cov := covers_of_flow_eq (ruleOk_of_validate okR alt here)
    (ruleOk_of_validate okL r mem) flow
  have proto : alt.proto = r.proto := congrArg Flow.proto flow
  refine deny ⟨alt, here, ?_⟩
  obtain ⟨hit, speaks, reaches, met⟩ := lets
  have own : alt.own dir = r.own dir := by
    cases dir
    · exact tgt
    · exact src
  have peer : alt.peer dir = r.peer dir := by
    cases dir
    · exact src
    · exact tgt
  exact ⟨own ▸ hit, proto ▸ speaks, (cov _).trans reaches, peer ▸ met⟩

theorem exists_delta_touching (okL : validate left = none)
    (okR : validate right = none) (test : checkInvariants left = none)
    (mem : (host, groups) ∈ members)
    (ok : permits ((compileHost left groups).rules dir) packet = true)
    (refuses : permits ((compileHost right groups).rules dir) packet = false) :
    ∃ r ∈ left.rules, ∃ d ∈ deltas left right (r.fromGroup, r.toGroup),
      host ∈ touch members.groupHosts members.allHosts d.source ∨
        host ∈ touch members.groupHosts members.allHosts d.target := by
  rw [permits_compileHost okL] at ok
  rw [← Bool.not_eq_true, permits_compileHost okR, not_or] at refuses
  obtain ⟨r, has, lets⟩ := ok.resolve_right refuses.2
  have spare := checkInvariantsFrom_unreserved test r has
  refine ⟨r, has, r.tuple, tuple_mem_deltas okL okR has lets refuses.1, ?_⟩
  cases dir with
  | inbound => exact .inr (mem_touch_of_admits mem lets spare.2)
  | outbound => exact .inl (mem_touch_of_admits mem lets spare.1)

end

/-- Whatever the membership of the fleet, a host whose compiled rules permit a
packet under one of two published policies and not under the other is among
the hosts the blast radius of their difference reports. -/
theorem blastRadius_misses_nobody {active draft : Policy} (activeValid : validate active = none)
    (draftValid : validate draft = none) (activeChecked : checkInvariants active = none)
    (draftChecked : checkInvariants draft = none)
    (members : Membership) {host : String} {groups : List String}
    (member : (host, groups) ∈ members) {direction : Direction} {packet : Packet}
    (differs : permits ((compileHost active groups).rules direction) packet ≠
      permits ((compileHost draft groups).rules direction) packet) :
    host ∈ (blastRadius (flowDiff active draft) members.groupHosts members.allHosts).hosts := by
  rw [mem_blastRadius]
  cases passes : permits ((compileHost active groups).rules direction) packet with
  | true =>
    have refuses : permits ((compileHost draft groups).rules direction) packet = false := by
      rw [passes] at differs
      simpa using differs.symm
    obtain ⟨r, listed, d, named, touched⟩ := exists_delta_touching
      activeValid draftValid activeChecked member passes refuses
    refine ⟨d, List.mem_append_right _ (List.mem_flatMap.mpr ?_), touched⟩
    exact ⟨_, mem_unionLiteralPairs (.inl listed), named⟩
  | false =>
    have admitted : permits ((compileHost draft groups).rules direction) packet = true := by
      rw [passes] at differs
      simpa using differs.symm
    obtain ⟨r, listed, d, named, touched⟩ := exists_delta_touching
      draftValid activeValid draftChecked member admitted passes
    refine ⟨d, List.mem_append_left _ (List.mem_flatMap.mpr ?_), touched⟩
    exact ⟨_, mem_unionLiteralPairs (.inr listed), named⟩

/-- Opening a port of the database to everybody touches its host. -/
theorem blastRadius_misses_nobody_opened : "10.0.0.2" ∈ (blastRadius
      (flowDiff sampleRules ⟨1, [⟨"any", "db", "tcp", "5432"⟩]⟩)
      (Membership.groupHosts [("10.0.0.1", ["web"]), ("10.0.0.2", ["db"])]) (Membership.allHosts
        [("10.0.0.1", ["web"]), ("10.0.0.2", ["db"])])).hosts :=
  blastRadius_misses_nobody (by decide) (by decide) (by decide) (by decide)
    [("10.0.0.1", ["web"]), ("10.0.0.2", ["db"])] (show ("10.0.0.2", ["db"]) ∈ _ by decide)
    (show permits ((compileHost sampleRules ["db"]).rules .inbound) ⟨"tcp", 5432, ["app"]⟩ ≠
      permits ((compileHost ⟨1, [⟨"any", "db", "tcp", "5432"⟩]⟩
        ["db"]).rules .inbound) ⟨"tcp", 5432, ["app"]⟩ by decide)

end Harbor.Firewall
