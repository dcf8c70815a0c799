import Harbor.Library.Distinct
import Harbor.Library.Text
import Harbor.Policy.Reserved

/-!
# The firewall policy and its compiler

A policy is a list of allow rules between groups.  `CompileHost` turns it into
the inbound and the outbound rules of one host and adds the baseline, and the
host's nebula passes a packet that some rule of its direction matches.
-/

namespace Harbor.Firewall

open Library Library.Text Policy List

structure Rule where
  fromGroup : String
  toGroup : String
  proto : String
  port : String
deriving DecidableEq, Repr

structure Policy where
  version : Int := 0
  rules : List Rule
deriving DecidableEq, Repr

structure FirewallRule where
  proto : String
  port : String
  host : String := ""
  group : String := ""
deriving DecidableEq, Repr

structure Compiled where
  inbound : List FirewallRule
  outbound : List FirewallRule
deriving DecidableEq, Repr

/-! ## Numbers in texts -/

def decimalFrom : Nat → List Char → Option Nat
  | value, [] => some value
  | value, c :: rest =>
    if c.isDigit then decimalFrom (value * 10 + (c.toNat - 48)) rest
    else none

def decimal : List Char → Option Nat
  | [] => none
  | digits => decimalFrom 0 digits

def maxInt : Int := 9223372036854775807

/-- `strconv.Atoi`: a sign or none, then digits, within the range of `int`. -/
def atoi (text : String) : Option Int :=
  match text.toList with
  | '-' :: digits =>
    (decimal digits).bind fun value =>
      if (value : Int) ≤ maxInt + 1 then some (-value) else none
  | '+' :: digits | digits =>
    (decimal digits).bind fun value =>
      if (value : Int) ≤ maxInt then some value else none

def cutChars : List Char → Option (List Char × List Char)
  | [] => none
  | c :: rest =>
    if c = '-' then some ([], rest)
    else (cutChars rest).map fun parts => (c :: parts.1, parts.2)

/-- `strings.Cut` with the separator `-`. -/
def cutDash (text : String) : Option (String × String) :=
  (cutChars text.toList).map fun parts =>
    (String.ofList parts.1, String.ofList parts.2)

/-! ## Validation -/

/-- The closure of `validatePort`: a number that is a port. -/
def portNumber (text : String) : Bool :=
  match atoi text with
  | some n => decide (1 ≤ n ∧ n ≤ 65535)
  | none => false

def portOk (port : String) : Bool :=
  port == "any" ||
    match cutDash port with
    | none => portNumber port
    | some (lo, hi) => portNumber lo && portNumber hi

def validatePort (port : String) : Option String :=
  if portOk port then none else some ("bad port " ++ port.quote)

def protoOk (proto : String) : Bool :=
  proto ∈ ["tcp", "udp", "icmp", "any"]

/-- The loop of `Validate` from a position on. -/
def validateFrom : Nat → List Rule → Option String
  | _, [] => none
  | i, r :: rest =>
    if r.fromGroup = "" ∨ r.toGroup = "" then
      some s!"policy: rule {i}: empty group"
    else if protoOk r.proto = false then
      some (s!"policy: rule {i}: bad proto " ++ r.proto.quote)
    else
      match validatePort r.port with
      | some text => some (s!"policy: rule {i}: " ++ text)
      | none => validateFrom (i + 1) rest

def validate (p : Policy) : Option String :=
  validateFrom 0 p.rules

/-- The loop of `CheckInvariants` from a position on. -/
def checkInvariantsFrom : Nat → List Rule → Option String
  | _, [] => none
  | i, r :: rest =>
    match [r.fromGroup, r.toGroup].find? isReservedGroup with
    | some g =>
      some (s!"policy: rule {i} references reserved group " ++ g.quote ++
        " — its reachability is guaranteed by the baseline and cannot be shaped by policy")
    | none => checkInvariantsFrom (i + 1) rest

def checkInvariants (p : Policy) : Option String :=
  checkInvariantsFrom 0 p.rules

/-! ## Compilation -/

def selector (proto port group : String) : FirewallRule :=
  if group = "any" then { proto := proto, port := port, host := "any" }
  else { proto := proto, port := port, group := group }

def FirewallRule.key (r : FirewallRule) : String :=
  r.proto ++ "|" ++ r.port ++ "|" ++ r.host ++ "|" ++ r.group

def dedup (rules : List FirewallRule) : List FirewallRule :=
  distinctBy FirewallRule.key rules

def anyRule : FirewallRule where
  proto := "any"
  port := "any"
  host := "any"

def icmpRule : FirewallRule where
  proto := "icmp"
  port := "any"
  host := "any"

def controlPlaneRule : FirewallRule where
  proto := "any"
  port := "any"
  group := groupControlPlane

def compileHost (p : Policy) (hostGroups : List String) : Compiled :=
  let inbound := (p.rules.filter fun r =>
    r.toGroup == "any" || hostGroups.contains r.toGroup).map
      fun r => selector r.proto r.port r.fromGroup
  let outbound := (p.rules.filter fun r =>
    r.fromGroup == "any" || hostGroups.contains r.fromGroup).map
      fun r => selector r.proto r.port r.toGroup
  if hostGroups.contains groupControlPlane then
    { inbound := dedup (inbound ++ [anyRule] ++ [icmpRule])
      outbound := dedup (outbound ++ [anyRule] ++ [icmpRule]) }
  else
    { inbound := dedup (inbound ++ [icmpRule])
      outbound := dedup (outbound ++ [controlPlaneRule] ++ [icmpRule]) }

/-! ## What nebula passes -/

structure Packet where
  proto : String
  port : Int
  peer : List String
deriving DecidableEq, Repr

def covers (spec : String) (port : Int) : Bool :=
  spec == "any" ||
    match cutDash spec with
    | none => atoi spec == some port
    | some (lo, hi) =>
      match atoi lo, atoi hi with
      | some lo, some hi => decide (lo ≤ port ∧ port ≤ hi)
      | _, _ => false

def FirewallRule.passes (r : FirewallRule) (packet : Packet) : Bool :=
  (r.proto == "any" || r.proto == packet.proto) && covers r.port packet.port &&
    (r.host == "any" || packet.peer.contains r.group)

def permits (rules : List FirewallRule) (packet : Packet) : Bool :=
  rules.any (·.passes packet)

/-! ## Reading validation -/

/-- What `Validate` checks of a rule. -/
structure RuleOk (r : Rule) : Prop where
  proto : protoOk r.proto = true
  port : portOk r.port = true

theorem ruleOk_of_validateFrom {i : Nat}
    (valid : validateFrom i rs = none) : ∀ r ∈ rs, RuleOk r := by
  induction rs generalizing i with
  | nil =>
    intro r mem
    cases mem
  | cons head rest ih =>
    simp only [validateFrom] at valid
    split_ifs at valid with empty proto
    split at valid
    · cases valid
    · rename_i port
      intro r mem
      rcases mem_cons.mp mem with rfl | later
      · refine ⟨by simpa using proto, ?_⟩
        unfold validatePort at port
        split_ifs at port with ok
        exact ok
      · exact ih valid r later

variable {p : Policy}

theorem ruleOk_of_validate (ok : validate p = none) : ∀ r ∈ p.rules, RuleOk r :=
  ruleOk_of_validateFrom ok

/-! ## Keys -/

theorem not_mem_of_decimalFrom {mark : Char} (foreign : mark.isDigit = false)
    (read : decimalFrom val digits = some res) : mark ∉ digits := by
  induction digits generalizing val with
  | nil => exact not_mem_nil
  | cons c rest ih =>
    simp only [decimalFrom] at read
    split_ifs at read with digit
    refine not_mem_cons_of_ne_of_not_mem ?_ (ih read)
    intro same
    rw [same, digit] at foreign
    cases foreign

theorem not_mem_of_decimal {mark : Char} (foreign : mark.isDigit = false)
    (read : decimal digits = some res) : mark ∉ digits := by
  cases digits with
  | nil => exact not_mem_nil
  | cons c rest => exact not_mem_of_decimalFrom foreign read

theorem bar_not_mem_of_portNumber (num : portNumber t = true) : '|' ∉ t.toList := by
  unfold portNumber at num
  split at num
  · rename_i n read
    unfold atoi at read
    split at read
    · rename_i digits shape
      obtain ⟨val, digitsRead, -⟩ := Option.bind_eq_some_iff.mp read
      rw [shape]
      exact not_mem_cons_of_ne_of_not_mem (by decide)
        (not_mem_of_decimal (by decide) digitsRead)
    · rename_i digits shape
      obtain ⟨val, digitsRead, -⟩ := Option.bind_eq_some_iff.mp read
      rw [shape]
      exact not_mem_cons_of_ne_of_not_mem (by decide)
        (not_mem_of_decimal (by decide) digitsRead)
    · obtain ⟨val, digitsRead, -⟩ := Option.bind_eq_some_iff.mp read
      exact not_mem_of_decimal (by decide) digitsRead
  · cases num

theorem cutChars_eq_some (cut : cutChars t = some (lo, hi)) : t = lo ++ '-' :: hi ∧ '-' ∉ lo := by
  induction t generalizing lo with
  | nil => cases cut
  | cons c rest ih =>
    simp only [cutChars] at cut
    split_ifs at cut with dash
    · cases cut
      exact ⟨by rw [dash]; rfl, not_mem_nil⟩
    · obtain ⟨⟨was, after⟩, hit, eq⟩ :=
        Option.map_eq_some_iff.mp cut
      cases eq
      obtain ⟨rfl, tidy⟩ := ih hit
      exact ⟨rfl, not_mem_cons_of_ne_of_not_mem (Ne.symm dash) tidy⟩

theorem cutChars_eq_none_iff : cutChars t = none ↔ '-' ∉ t := by
  induction t with
  | nil => simp [cutChars]
  | cons c rest ih =>
    by_cases dash : c = '-'
    · simp [cutChars, dash]
    · simp [cutChars, dash, ih, Ne.symm dash]

theorem cutDash_eq_some (cut : cutDash t = some (lo, hi)) :
    t.toList = lo.toList ++ '-' :: hi.toList ∧ '-' ∉ lo.toList := by
  obtain ⟨⟨was, after⟩, hit, eq⟩ := Option.map_eq_some_iff.mp cut
  cases eq
  rw [String.toList_ofList, String.toList_ofList]
  exact cutChars_eq_some hit

variable {port : String}

theorem bar_not_mem_of_portOk (ok : portOk port = true) : '|' ∉ port.toList := by
  simp only [portOk, Bool.or_eq_true, beq_iff_eq] at ok
  rcases ok with rfl | ok
  · decide
  · split at ok
    · exact bar_not_mem_of_portNumber ok
    · rename_i lo hi cut
      simp only [Bool.and_eq_true] at ok
      have low := bar_not_mem_of_portNumber ok.1
      have high := bar_not_mem_of_portNumber ok.2
      rw [(cutDash_eq_some cut).1]
      simp [low, high]

variable {proto : String}

theorem bar_not_mem_of_protoOk (ok : protoOk proto = true) : '|' ∉ proto.toList := by
  simp only [protoOk, mem_cons, not_mem_nil, or_false, decide_eq_true_eq] at ok
  rcases ok with rfl | rfl | rfl | rfl <;> decide

structure Plain (r : FirewallRule) : Prop where
  proto : '|' ∉ r.proto.toList
  port : '|' ∉ r.port.toList
  host : '|' ∉ r.host.toList

theorem FirewallRule.key_toList (r : FirewallRule) :
    r.key.toList = r.proto.toList ++ '|' :: (r.port.toList ++
      '|' :: (r.host.toList ++ '|' :: r.group.toList)) := by
  simp [key]

theorem eq_of_key_eq (leftPlain : Plain l) (rPlain : Plain r) (eq : l.key = r.key) : l = r := by
  have chars := congrArg String.toList eq
  rw [FirewallRule.key_toList, FirewallRule.key_toList] at chars
  obtain ⟨proto, rest⟩ := append_separator_inj leftPlain.proto rPlain.proto chars
  obtain ⟨port, rest⟩ := append_separator_inj leftPlain.port rPlain.port rest
  obtain ⟨h, group⟩ := append_separator_inj leftPlain.host rPlain.host rest
  cases l
  cases r
  simp only [String.toList_inj] at proto port h group
  subst proto port h group
  rfl

theorem selector_plain (protoClean : '|' ∉ proto.toList) (portClean : '|' ∉ port.toList) :
    Plain (selector proto port group) := by
  unfold selector
  split_ifs
  · exact ⟨protoClean, portClean, by simp⟩
  · exact ⟨protoClean, portClean, by simp⟩

variable {packet : Packet}

theorem permits_dedup (bare : ∀ r ∈ rs, Plain r) :
    permits (dedup rs) packet = permits rs packet := by
  have eq : ∀ r, r ∈ dedup rs ↔ r ∈ rs := fun r =>
    mem_distinctBy_iff fun l memL right memR =>
      eq_of_key_eq (bare l memL) (bare right memR)
  rw [Bool.eq_iff_iff]
  simp only [permits, any_eq_true, eq]

/-! ## What the compiled rules permit -/

inductive Direction where
  | inbound
  | outbound
deriving DecidableEq, Repr

def Compiled.rules (compiled : Compiled) : Direction → List FirewallRule
  | .inbound => compiled.inbound
  | .outbound => compiled.outbound

def Rule.own (r : Rule) : Direction → String
  | .inbound => r.toGroup
  | .outbound => r.fromGroup

def Rule.peer (r : Rule) : Direction → String
  | .inbound => r.fromGroup
  | .outbound => r.toGroup

def Rule.admits (r : Rule) (direction : Direction) (hostGroups : List String)
    (packet : Packet) : Prop :=
  (r.own direction = "any" ∨ r.own direction ∈ hostGroups) ∧
    (r.proto = "any" ∨ r.proto = packet.proto) ∧ covers r.port packet.port = true ∧
    (r.peer direction = "any" ∨ r.peer direction ∈ packet.peer)

def BaselineAdmits (direction : Direction) (hostGroups : List String) (packet : Packet) : Prop :=
  groupControlPlane ∈ hostGroups ∨ (direction = .outbound ∧ groupControlPlane ∈ packet.peer) ∨
    packet.proto = "icmp"

theorem selector_passes :
    (selector proto port group).passes packet = true ↔ (proto = "any" ∨ proto = packet.proto) ∧
        covers port packet.port = true ∧ (group = "any" ∨ group ∈ packet.peer) := by
  unfold selector
  split_ifs with wild
  · simp [FirewallRule.passes, wild]
  · simp [FirewallRule.passes, wild, and_assoc]

/-- The rules of a policy that touch the host, as `CompileHost` writes them. -/
def userRules (p : Policy) (hostGroups : List String) (direction : Direction) :
    List FirewallRule :=
  (p.rules.filter fun r =>
    r.own direction == "any" || hostGroups.contains (r.own direction)).map
      fun r => selector r.proto r.port (r.peer direction)

def baselineRules (hostGroups : List String) : Direction → List FirewallRule
  | .inbound =>
    if hostGroups.contains groupControlPlane then [anyRule, icmpRule]
    else [icmpRule]
  | .outbound =>
    if hostGroups.contains groupControlPlane then [anyRule, icmpRule]
    else [controlPlaneRule, icmpRule]

theorem compileHost_rules (p : Policy) (gs : List String) (dir : Direction) :
    (compileHost p gs).rules dir = dedup (userRules p gs dir ++ baselineRules gs dir) := by
  simp only [compileHost]
  cases dir with
  | inbound | outbound =>
    simp only [baselineRules]
    split_ifs
    · simp [Compiled.rules, userRules, Rule.own, Rule.peer]
    · simp [Compiled.rules, userRules, Rule.own, Rule.peer]

variable {gs : List String} {dir : Direction}

theorem userRules_plain (valid : validate p = none) : ∀ r ∈ userRules p gs dir, Plain r := by
  intro compiled mem
  obtain ⟨r, listed, rfl⟩ := mem_map.mp mem
  have ok := ruleOk_of_validate valid r (mem_filter.mp listed).1
  exact selector_plain (bar_not_mem_of_protoOk ok.proto) (bar_not_mem_of_portOk ok.port)

theorem baselineRules_plain : ∀ r ∈ baselineRules gs dir, Plain r := by
  have all : Plain anyRule := ⟨by decide, by decide, by decide⟩
  have icmp : Plain icmpRule := ⟨by decide, by decide, by decide⟩
  have plane : Plain controlPlaneRule := ⟨by decide, by decide, by decide⟩
  cases dir with
  | inbound =>
    simp only [baselineRules]
    split_ifs
    · simp [all, icmp]
    · simp [icmp]
  | outbound =>
    simp only [baselineRules]
    split_ifs
    · simp [all, icmp]
    · simp [plane, icmp]

theorem permits_userRules : permits (userRules p gs dir) packet = true ↔
      ∃ r ∈ p.rules, r.admits dir gs packet := by
  simp only [permits, userRules, any_eq_true, mem_map,
    mem_filter, Bool.or_eq_true, beq_iff_eq, contains_iff_mem]
  constructor
  · rintro ⟨compiled, ⟨r, ⟨mem, hit⟩, rfl⟩, ok⟩
    exact ⟨r, mem, hit, selector_passes.mp ok⟩
  · rintro ⟨r, mem, hit, ok⟩
    exact ⟨_, ⟨r, ⟨mem, hit⟩, rfl⟩, selector_passes.mpr ok⟩

theorem permits_baselineRules : permits (baselineRules gs dir) packet = true ↔
      BaselineAdmits dir gs packet := by
  have all : anyRule.passes packet = true := by
    simp [anyRule, FirewallRule.passes, covers]
  have icmp : icmpRule.passes packet = true ↔ packet.proto = "icmp" := by
    have unlike : ("icmp" == "any") = false := by decide
    simp only [icmpRule, FirewallRule.passes, covers, unlike, beq_self_eq_true,
      Bool.true_or, Bool.and_true, Bool.false_or, beq_iff_eq]
    exact eq_comm
  have plane : controlPlaneRule.passes packet = true ↔ groupControlPlane ∈ packet.peer := by
    simp [controlPlaneRule, FirewallRule.passes, covers]
  unfold BaselineAdmits
  by_cases mem : groupControlPlane ∈ gs
  · cases dir <;> simp [baselineRules, permits, mem, all]
  · cases dir <;>
      simp [baselineRules, permits, mem, icmp, plane]

theorem listed_plain (ok : validate p = none) :
    ∀ r ∈ userRules p gs dir ++ baselineRules gs dir, Plain r := by
  intro r mem
  rcases mem_append.mp mem with user | baseline
  · exact userRules_plain ok r user
  · exact baselineRules_plain r baseline

theorem permits_compileHost (ok : validate p = none)
    (gs : List String) (dir : Direction) (packet : Packet) :
    permits ((compileHost p gs).rules dir) packet = true ↔ (∃ r ∈ p.rules, r.admits dir gs packet) ∨
        BaselineAdmits dir gs packet := by
  rw [compileHost_rules, permits_dedup (listed_plain ok), ← permits_userRules,
    ← permits_baselineRules]
  simp [permits]

/-- For every policy that `Validate` accepts the compiled rules of a host permit
what some rule on the host's side or the baseline does, dropping repetitions
changes nothing of it, and no rule is left twice. -/
theorem compileHost_exact (valid : validate p = none)
    (hostGroups : List String) (direction : Direction) :
    let listed := userRules p hostGroups direction ++ baselineRules hostGroups direction
    (∀ packet, permits ((compileHost p hostGroups).rules direction) packet = true ↔
      (∃ r ∈ p.rules, r.admits direction hostGroups packet) ∨
        BaselineAdmits direction hostGroups packet) ∧
      (compileHost p hostGroups).rules direction = dedup listed ∧
      (∀ packet, permits (dedup listed) packet = permits listed packet) ∧ (dedup listed).Nodup :=
  ⟨permits_compileHost valid hostGroups direction, compileHost_rules p hostGroups direction,
    fun _ => permits_dedup (listed_plain valid), nodup_distinctBy _ _⟩

theorem compileHost_exact_database :
    let p : Policy :=
      ⟨0, [⟨"web", "db", "tcp", "5432"⟩, ⟨"web", "db", "tcp", "5432"⟩]⟩
    ((compileHost p ["db"]).rules .inbound).Nodup ∧
      permits ((compileHost p ["db"]).rules .inbound)
        ⟨"tcp", 5432, ["web"]⟩ = true ∧
      ¬permits ((compileHost p ["db"]).rules .inbound)
        ⟨"tcp", 5432, ["app"]⟩ = true := by
  intro p
  obtain ⟨admitted, compiled, _, once⟩ :=
    compileHost_exact (p := p) (by decide) ["db"] .inbound
  refine ⟨compiled ▸ once, ?_, ?_⟩
  · refine (admitted _).mpr (.inl ⟨⟨"web", "db", "tcp", "5432"⟩, by decide, ?_⟩)
    exact ⟨.inr (by decide), .inr rfl, by decide, .inr (by decide)⟩
  · rw [admitted]
    rintro (⟨r, listed, admits⟩ | baseline)
    · have only : r = ⟨"web", "db", "tcp", "5432"⟩ := by
        simpa [p] using listed
      rw [only] at admits
      exact absurd admits.2.2.2 (by decide)
    · unfold BaselineAdmits at baseline
      exact absurd baseline (by decide)

/-- A rule `Validate` refuses has the key of a good one: the protocol `tcp|80` with
no port and the peer `h` against `tcp`, `80` and the peer `|h`. -/
theorem merged_rule_refused :
    let p : Policy := ⟨0, [⟨"h", "db", "tcp|80", ""⟩, ⟨"|h", "db", "tcp", "80"⟩]⟩
    (∃ r ∈ p.rules, r.admits .inbound ["db"] ⟨"tcp", 80, ["|h"]⟩) ∧
      permits ((compileHost p ["db"]).rules .inbound) ⟨"tcp", 80, ["|h"]⟩ = false ∧
      permits (userRules p ["db"] .inbound ++ baselineRules ["db"] .inbound)
        ⟨"tcp", 80, ["|h"]⟩ = true := by
  refine ⟨⟨⟨"|h", "db", "tcp", "80"⟩, by decide, ?_⟩, by decide, by decide⟩
  exact ⟨.inr (by decide), .inr rfl, by decide, .inr (by decide)⟩

end Harbor.Firewall
