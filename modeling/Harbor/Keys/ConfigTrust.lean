import Harbor.Keys.Provenance

/-!
# Config-key rotation and the hosts

Core stamps every bundle with the trusted config-signing keys and the
generation of their registry, in two reads.  A host takes the set of a bundle
over into its trust file unless the bundle is older, and reports what it trusts
in its heartbeats; `Activate` and `Retire` are gated by these reports.

A public key is represented by its fingerprint.  Whether a host accepts a
bundle at all, by its signature and its other versions, is left open.
-/

namespace Harbor.ConfigTrust

open Function Library Keys List

/-- The registry, the static key Core falls back to, the freshness window of
the gates and the keys each host has pinned. -/
structure Config where
  registry : Registry
  configKeyPEM : Option String
  staleAfter : Int
  pins : Nat → List String

structure Bundle where
  configSigningKeys : List String
  configKeyVersion : Int
deriving DecidableEq, Repr

structure TrustFile where
  version : Int := 0
  keys : List String := []
deriving DecidableEq, Repr

structure Host where
  file : TrustFile := {}
  inbox : List Bundle := []
deriving DecidableEq, Repr

/-- A row of `heartbeats`. -/
structure Report where
  overlayIP : Nat
  lastSeen : Int
  trustedConfigKeys : List String
deriving DecidableEq, Repr

inductive Assembly where
  | idle
  | keysRead (host : Nat) (keys : List String)
deriving DecidableEq, Repr

structure State where
  clock : Int
  registry : Keys.State
  reports : Table Report.overlayIP
  hosts : Nat → Host
  assemblies : Nat → Assembly

inductive Event where
  | tick (now : Int)
  | registry (event : Keys.Event)
  | readKeys (assembly host : Nat) (fault : Fault)
  | readVersion (assembly : Nat) (fault : Fault)
  | apply (host : Nat) (accepted : Bool)
  | heartbeat (host : Nat)

/-- `PersistTrustFile`. -/
def persistTrustFile (file : TrustFile) (version : Int) (keys : List String) :
    TrustFile :=
  if keys = [] then file
  else if version < file.version then file
  else { version := version, keys := keys }

namespace Config

/-- `ParsePubPEMs`: texts that do not parse are skipped. -/
def parsePubPEMs (config : Config) (pems : List String) : List String :=
  pems.filterMap fun pem => (config.registry.parse pem).toOption

/-- `TrustedSet`: the pins and the learned keys that are not among them. -/
def trustedSet (config : Config) (state : State) (host : Nat) :
    List String :=
  (config.parsePubPEMs (state.hosts host).file.keys).foldl
    (fun out key => if key ∈ out then out else out ++ [key]) (config.pins host)

/-- `configKeys`: a failed or empty read falls back to the static key. -/
def configKeys (config : Config) (keys : Keyring) (fault : Fault) :
    List String :=
  if fault = .ok ∧ keys.trusted ≠ [] then keys.trusted
  else config.configKeyPEM.toList

/-- `configKeyVersion`. -/
def configKeyVersion (keys : Keyring) (fault : Fault) : Int :=
  if fault = .ok then keys.generation else 0

def laggards (config : Config) (state : State) (fingerprint : String) :
    List Nat :=
  (state.reports.rows.filter fun report =>
    (decide (config.staleAfter ≤ 0) ||
      decide (state.clock - config.staleAfter ≤ report.lastSeen)) &&
    !report.trustedConfigKeys.contains fingerprint).map Report.overlayIP

/-- `DrainLaggards`: an error without an active key. -/
def drainLaggards (config : Config) (state : State) : Option Nat :=
  state.registry.db.keys.current.map fun row =>
    (config.laggards state row.fingerprint).length

/-- The caller of `Activate` asks for full adoption first, and the gate of
`Retire` is the count of laggards. -/
def gated (config : Config) (state : State) : Keys.Event → Option Keys.Event
  | .request call (.activate id now) =>
    match state.registry.db.keys.find id with
    | none => none
    | some row =>
      if config.laggards state row.fingerprint = [] then
        some (.request call (.activate id now))
      else none
  | .statement call io =>
    some (.statement call { io with gate := io.gate.bind fun _ => config.drainLaggards state })
  | event => some event

def step (config : Config) (state : State) : Event → Option State
  | .tick now =>
    if state.clock ≤ now then some { state with clock := now } else none
  | .registry event =>
    (config.gated state event).bind fun event =>
      (config.registry.step state.registry event).map fun registry =>
        { state with registry := registry }
  | .readKeys assembly host fault =>
    if state.assemblies assembly = .idle then
      some { state with
        assemblies := update state.assemblies assembly
          (.keysRead host
            (config.configKeys state.registry.db.keys fault)) }
    else none
  | .readVersion assembly fault =>
    match state.assemblies assembly with
    | .idle => none
    | .keysRead host keys =>
      some { state with
        assemblies := update state.assemblies assembly .idle
        hosts := update state.hosts host
          { state.hosts host with
            inbox := (state.hosts host).inbox ++
              [{ configSigningKeys := keys
                 configKeyVersion :=
                   configKeyVersion state.registry.db.keys fault }] } }
  | .apply host accepted =>
    match (state.hosts host).inbox with
    | [] => none
    | bundle :: rest =>
      some { state with
        hosts := update state.hosts host
          { file :=
              if accepted then
                persistTrustFile (state.hosts host).file
                  bundle.configKeyVersion bundle.configSigningKeys
              else (state.hosts host).file
            inbox := rest } }
  | .heartbeat host =>
    some { state with
      reports := state.reports.upsert
        { overlayIP := host, lastSeen := state.clock
          trustedConfigKeys := config.trustedSet state host }
        (fun row => { row with
          lastSeen := state.clock
          trustedConfigKeys := config.trustedSet state host })
        fun _ => rfl }

end Config

def State.initial : State where
  clock := 0
  registry := .initial
  reports := .empty
  hosts _ := {}
  assemblies _ := .idle

/-- Core reads the keys of a bundle without error and before they change. -/
def Whole (state : State) : Event → Prop
  | .readKeys _ _ fault =>
    fault = .ok ∧ state.registry.db.keys.trusted ≠ []
  | .readVersion assembly _ =>
    match state.assemblies assembly with
    | .idle => True
    | .keysRead _ keys => keys = state.registry.db.keys.trusted
  | _ => True

instance (state : State) : DecidablePred (Whole state) := by
  intro event
  unfold Whole
  split
  · infer_instance
  · split <;> infer_instance
  · infer_instance

section

variable (config : Config)

def Carries (keys : Keyring) (left right : List String) : Prop :=
  ∀ fingerprint ∈ config.parsePubPEMs left, keys.Serving fingerprint →
    fingerprint ∈ config.parsePubPEMs right

def Host.line (host : Host) : List (List String) :=
  host.file.keys :: host.inbox.map Bundle.configSigningKeys

def Confirmed (state : State) (host : Nat) (fingerprint : String) : Prop :=
  fingerprint ∈ config.pins host ∨ state.registry.db.keys.Known fingerprint ∧
      (state.registry.db.keys.Serving fingerprint →
        fingerprint ∈ config.parsePubPEMs (state.hosts host).file.keys)

structure Kept (state : State) : Prop where
  sound : Keys.Sound state.registry
  genuine : Genuine config.registry state.registry
  carries : ∀ host, (state.hosts host).line.Pairwise (Carries config state.registry.db.keys)
  known : ∀ host, ∀ pems ∈ (state.hosts host).line, ∀ fingerprint ∈ config.parsePubPEMs pems,
      state.registry.db.keys.Known fingerprint
  reported : ∀ report ∈ state.reports.rows, ∀ fingerprint ∈ report.trustedConfigKeys,
      Confirmed config state report.overlayIP fingerprint

end

section

variable {cfg : Config} {s : State} {host : Nat}
variable {key : String}

theorem mem_foldl_insert {keys out : List String} : key ∈ keys.foldl
        (fun out key => if key ∈ out then out else out ++ [key]) out ↔ key ∈ out ∨ key ∈ keys := by
  induction keys generalizing out with
  | nil => simp
  | cons head rest ih =>
    rw [foldl_cons, ih]
    split_ifs with had
    · constructor
      · rintro (old | later)
        · exact .inl old
        · exact .inr (mem_cons_of_mem _ later)
      · rintro (old | mem)
        · exact .inl old
        · rcases mem_cons.mp mem with rfl | later
          · exact .inl had
          · exact .inr later
    · simp [or_assoc]

theorem mem_trustedSet : key ∈ cfg.trustedSet s host ↔
      key ∈ cfg.pins host ∨ key ∈ cfg.parsePubPEMs (s.hosts host).file.keys :=
  mem_foldl_insert

theorem mem_parsePubPEMs : key ∈ cfg.parsePubPEMs pems ↔
      ∃ pem ∈ pems, cfg.registry.parse pem = .ok key := by
  simp only [Config.parsePubPEMs, mem_filterMap]
  constructor
  · rintro ⟨pem, mem, read⟩
    refine ⟨pem, mem, ?_⟩
    cases res : cfg.registry.parse pem with
    | error =>
      rw [res] at read
      cases read
    | ok fp =>
      rw [res] at read
      cases read
      rfl
  · rintro ⟨pem, mem, read⟩
    refine ⟨pem, mem, ?_⟩
    rw [read]
    rfl

theorem serving_mem_trusted (real : Genuine cfg.registry s.registry)
    (serves : s.registry.db.keys.Serving key) :
    key ∈ cfg.parsePubPEMs s.registry.db.keys.trusted := by
  obtain ⟨row, mem, rfl, live⟩ := serves
  exact mem_parsePubPEMs.mpr ⟨row.pem, mem_trusted mem live, real.rows row mem⟩

theorem known_of_mem_trusted (real : Genuine cfg.registry s.registry)
    (trusted : key ∈ cfg.parsePubPEMs s.registry.db.keys.trusted) :
    s.registry.db.keys.Known key := by
  obtain ⟨pem, mem, read⟩ := mem_parsePubPEMs.mp trusted
  unfold Keyring.trusted at mem
  rw [mem_insertionSort] at mem
  obtain ⟨row, had, rfl⟩ := mem_map.mp mem
  have rowMember := (mem_filter.mp had).1
  refine ⟨row, rowMember, ?_⟩
  have own := real.rows row rowMember
  rw [own] at read
  exact Except.ok.inj read

end

section

variable {config : Config} {state fin : State} {event : Event}

theorem Kept.registry (kept : Kept config state) {event : Keys.Event} {reg : Keys.State}
    (move : config.registry.step state.registry event = some reg) :
    Kept config { state with registry := reg } ∧ ∀ h key, Confirmed config state h key →
        Confirmed config { state with registry := reg } h key := by
  have sure : ∀ h key, Confirmed config state h key →
      Confirmed config { state with registry := reg } h key := by
    rintro h key (pin | ⟨seen, trusts⟩)
    · exact .inl pin
    · exact .inr ⟨known_step move seen, fun serves =>
        trusts (serving_back kept.sound move seen serves)⟩
  refine ⟨⟨(kept.sound.step move).1, kept.genuine.step move, ?_, ?_, ?_⟩, sure⟩
  · intro h
    have seen := kept.known h
    refine (kept.carries h).imp_of_mem ?_
    intro l r memL _ bears key mem serves
    exact bears key mem (serving_back kept.sound move (seen l memL key mem) serves)
  · intro h pems mem key read
    exact known_step move (kept.known h pems mem key read)
  · intro rep mem key has
    exact sure _ _ (kept.reported rep mem key has)

theorem Kept.rehost (kept : Kept config state) {h : Nat} {move : Host} (parts : Nat → Assembly)
    (bears : move.line.Pairwise (Carries config state.registry.db.keys))
    (seen : ∀ pems ∈ move.line, ∀ key ∈ config.parsePubPEMs pems,
      state.registry.db.keys.Known key) (keep : Carries config state.registry.db.keys
      (state.hosts h).file.keys move.file.keys) :
    Kept config { state with
        assemblies := parts
        hosts := update state.hosts h move } ∧
      ∀ alt key, Confirmed config state alt key →
        Confirmed config { state with
          assemblies := parts
          hosts := update state.hosts h move } alt key := by
  have sure : ∀ alt key, Confirmed config state alt key →
      Confirmed config { state with
        assemblies := parts
        hosts := update state.hosts h move } alt key := by
    rintro alt key (pin | ⟨had, trusts⟩)
    · exact .inl pin
    · refine .inr ⟨had, ?_⟩
      intro serves
      by_cases eq : alt = h
      · subst alt
        simp only [update_self]
        exact keep key (trusts serves) serves
      · simp only [update_of_ne eq]
        exact trusts serves
  refine ⟨⟨kept.sound, kept.genuine, ?_, ?_, ?_⟩, sure⟩
  · intro alt
    by_cases eq : alt = h
    · subst alt
      simp only [update_self]
      exact bears
    · simp only [update_of_ne eq]
      exact kept.carries alt
  · intro alt
    by_cases eq : alt = h
    · subst alt
      simp only [update_self]
      exact seen
    · simp only [update_of_ne eq]
      exact kept.known alt
  · intro rep mem key has
    exact sure _ _ (kept.reported rep mem key has)

theorem Kept.line_append (kept : Kept config state) (h : Nat) : ((state.hosts h).line ++
        [state.registry.db.keys.trusted]).Pairwise (Carries config state.registry.db.keys) ∧
      ∀ pems ∈ (state.hosts h).line ++ [state.registry.db.keys.trusted],
        ∀ key ∈ config.parsePubPEMs pems,
          state.registry.db.keys.Known key := by
  refine ⟨pairwise_append.mpr ⟨kept.carries h, pairwise_singleton _ _, ?_⟩, ?_⟩
  · intro l _ r last key _ serves
    rw [mem_singleton] at last
    rw [last]
    exact serving_mem_trusted kept.genuine serves
  · intro pems mem key read
    rcases mem_append.mp mem with old | last
    · exact kept.known h pems old key read
    · rw [mem_singleton] at last
      rw [last] at read
      exact known_of_mem_trusted kept.genuine read

theorem line_applied {host : Host} {pack : Bundle} {rest : List Bundle}
    (inbox : host.inbox = pack :: rest) (took : Bool) :
    let file := if took then
        persistTrustFile host.file pack.configKeyVersion pack.configSigningKeys
      else host.file
    (file.keys = host.file.keys ∨ file.keys = pack.configSigningKeys) ∧
      (Host.line { file := file, inbox := rest }).Sublist host.line := by
  intro file
  have cases : file.keys = host.file.keys ∨ file.keys = pack.configSigningKeys := by
    simp only [file]
    unfold persistTrustFile
    split_ifs
    · exact .inl rfl
    · exact .inl rfl
    · exact .inr rfl
    · exact .inl rfl
  refine ⟨cases, ?_⟩
  unfold Host.line
  rw [inbox, map_cons]
  rcases cases with same | taken
  · simp only [same]
    exact (sublist_cons_self _ _).cons_cons _
  · simp only [taken]
    exact sublist_cons_self _ _

theorem Kept.step (kept : Kept config state) (all : Whole state event)
    (taken : config.step state event = some fin) : Kept config fin ∧
      ∀ h key, Confirmed config state h key →
        Confirmed config fin h key := by
  cases event with
  | tick now =>
    simp only [Config.step] at taken
    split_ifs at taken
    cases taken
    exact ⟨⟨kept.sound, kept.genuine, kept.carries, kept.known,
      kept.reported⟩, fun _ _ sure => sure⟩
  | registry event =>
    simp only [Config.step] at taken
    obtain ⟨good, _, move⟩ := Option.bind_eq_some_iff.mp taken
    obtain ⟨reg, hop, rfl⟩ := Option.map_eq_some_iff.mp move
    exact kept.registry hop
  | readKeys assembly h f =>
    simp only [Config.step] at taken
    split_ifs at taken
    cases taken
    exact ⟨⟨kept.sound, kept.genuine, kept.carries, kept.known,
      kept.reported⟩, fun _ _ sure => sure⟩
  | readVersion assembly f =>
    simp only [Config.step] at taken
    split at taken
    · cases taken
    · rename_i h keys pos
      cases taken
      simp only [Whole, pos] at all
      obtain ⟨bears, seen⟩ := kept.line_append h
      refine kept.rehost _ ?_ ?_ (fun key mem _ => mem)
      · simpa [Host.line, all] using bears
      · simpa [Host.line, all] using seen
  | apply h took =>
    simp only [Config.step] at taken
    split at taken
    · cases taken
    · rename_i pack rest inbox
      cases taken
      obtain ⟨file, late⟩ := line_applied inbox took
      refine kept.rehost state.assemblies ((kept.carries h).sublist late) ?_ ?_
      · intro pems mem
        exact kept.known h pems (late.subset mem)
      · rcases file with eq | taken
        · rw [eq]
          exact fun key mem _ => mem
        · rw [taken]
          have line := kept.carries h
          unfold Host.line at line
          rw [inbox, map_cons] at line
          exact (pairwise_cons.mp line).1 _ mem_cons_self
  | heartbeat h =>
    simp only [Config.step, Option.some.injEq] at taken
    subst fin
    refine ⟨⟨kept.sound, kept.genuine, kept.carries, kept.known, ?_⟩, fun _ _ sure => sure⟩
    have trusted : ∀ key ∈ config.trustedSet state h,
        Confirmed config state h key := by
      intro key mem
      rcases mem_trustedSet.mp mem with pin | learned
      · exact .inl pin
      · exact .inr ⟨kept.known h _ mem_cons_self key learned, fun _ => learned⟩
    intro rep mem key has
    rcases Table.mem_upsert mem with earlier | rfl | ⟨old, _, eq, rfl⟩
    · exact kept.reported rep earlier key has
    · exact trusted key has
    · simp only [eq]
      exact trusted key has

theorem Kept.initial : Kept config .initial := by
  refine ⟨.initial, .initial, ?_, ?_, ?_⟩
  · intro h
    exact pairwise_singleton _ _
  · intro h pems mem key read
    simp only [Host.line, State.initial, map_nil, mem_singleton] at mem
    rw [mem] at read
    cases read
  · intro rep mem
    cases mem

/-- In every run in which every key set is read whole, a host that has reported
trust of a key trusts it whenever that key is the active one. -/
theorem confirmed_host_not_stranded {middle finish : State} {report : Report} {row : Key}
    (first : Reaches config.step Whole .initial middle) (member : report ∈ middle.reports.rows)
    (counted : row.fingerprint ∈ report.trustedConfigKeys)
    (rest : Reaches config.step Whole middle finish) (present : row ∈ finish.registry.db.keys.rows)
    (active : row.state = .active) :
    row.fingerprint ∈ config.trustedSet finish report.overlayIP := by
  have before : Kept config middle :=
    first.invariant (Kept config) .initial (fun kept whole taken => (kept.step whole taken).1)
  have both := rest.invariant (fun state => Kept config state ∧
      Confirmed config state report.overlayIP row.fingerprint)
    ⟨before, before.reported report member _ counted⟩ (by
      rintro earlier later event ⟨kept, confirmed⟩ whole taken
      obtain ⟨next, keeps⟩ := kept.step whole taken
      exact ⟨next, keeps _ _ confirmed⟩)
  apply mem_trustedSet.mpr
  rcases both.2 with pinned | ⟨_, trusts⟩
  · exact .inl pinned
  · refine .inr (trusts ⟨row, present, rfl, ?_⟩)
    rw [active]
    simp

end

namespace Example

def config : Config where
  registry := ⟨fun pem => .ok pem⟩
  configKeyPEM := some "k1"
  staleAfter := 0
  pins _ := ["k1"]

def registry (event : Keys.Event) : Event :=
  .registry event

def alone (call : Nat) (request : Request) (count : Nat) (io : Io) :
    List Event :=
  (Keys.Example.alone call request count io).map registry

def refresh (keys : Fault) : List Event :=
  [.readKeys 0 7 keys, .readVersion 0 .ok, .apply 7 true]

def learned : List Event :=
  alone 0 (.seedActive "one" "k1" "" "") 2 { now := 1, id := 1 } ++
    alone 1 (.stage "two" "k2" "" "" 2) 1 { id := 2 } ++ refresh .ok ++ [.heartbeat 7]

def cutOver : List Event :=
  alone 2 (.activate 2 3) 5 {}

def ready : State :=
  (runEvents config.step .initial learned).getD .initial

def rotated : State :=
  (runEvents config.step ready (cutOver ++ refresh .ok)).getD .initial

def stranded : State :=
  (runEvents config.step ready (cutOver ++ refresh .failed)).getD .initial

def second : Key where
  id := 2
  name := "two"
  fingerprint := "k2"
  pem := "k2"
  state := .active
  createdAt := 2
  updatedAt := 3

end Example

theorem confirmed_host_not_stranded_rotation :
    "k2" ∈ Example.config.trustedSet Example.rotated 7 := by
  have first : Reaches Example.config.step Whole .initial Example.ready :=
    reaches_getD Example.learned State.initial (by decide)
  have rest : Reaches Example.config.step Whole Example.ready
      Example.rotated :=
    reaches_getD (Example.cutOver ++ Example.refresh .ok) State.initial (by decide)
  have report : (⟨7, 0, ["k1", "k2"]⟩ : Report) ∈
      Example.ready.reports.rows := by
    decide
  have active : Example.second ∈ Example.rotated.registry.db.keys.rows := by
    decide
  exact confirmed_host_not_stranded first report (by decide) rest active rfl

/-- The key set cannot be read for one assembly, and the generation can: the
host replaces what it has learned by the static key. -/
theorem fallback_strands_confirmed_host :
    ¬ ∀ (config : Config) (middle finish : State) (report : Report) (row : Key),
      Reachable config.step .initial middle → report ∈ middle.reports.rows →
      row.fingerprint ∈ report.trustedConfigKeys → Reachable config.step middle finish →
      row ∈ finish.registry.db.keys.rows → row.state = .active →
      row.fingerprint ∈ config.trustedSet finish report.overlayIP := by
  intro claim
  have first : Reachable Example.config.step .initial Example.ready :=
    reachable_getD Example.learned State.initial (by decide)
  have rest : Reachable Example.config.step Example.ready Example.stranded :=
    reachable_getD (Example.cutOver ++ Example.refresh .failed) State.initial (by decide)
  have report : (⟨7, 0, ["k1", "k2"]⟩ : Report) ∈
      Example.ready.reports.rows := by
    decide
  have active : Example.second ∈ Example.stranded.registry.db.keys.rows := by
    decide
  have trusted := claim Example.config Example.ready Example.stranded _ _ first
    report (by decide) rest active rfl
  revert trusted
  decide

end Harbor.ConfigTrust
