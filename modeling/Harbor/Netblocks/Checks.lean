import Harbor.Netblocks.System

/-!
# What a mutation has checked when it writes

`Clears` says of a write of the netblocks table what the checks before it
established, in terms of what they had read.  Every statement of every call
satisfies it.
-/

namespace Harbor.Netblocks

open Library Ipam List

def Vacant (reserved : List Addr) (compared : List Prefix) (ip : Addr) :
    Prop :=
  ip ∉ reserved ∧ ∀ range ∈ compared, range.contains ip = false

def Spares (wired : Bool) (old : Prefix) (live : Option (List Addr)) (kept : Addr → Prop) : Prop :=
  wired = true → ∀ ip, old.contains ip = true → (∀ addrs ∈ live, ip ∈ addrs) → kept ip

def Clears (pool : Prefix) (reserved : List Addr) (wired : Bool) : Statement → Prop
  | .create row compared =>
    prefixInside row.range pool = true ∧
      ∀ ip, row.range.contains ip = true → Vacant reserved compared ip
  | .setCIDR _ old new _ compared live =>
    prefixInside new.masked pool = true ∧ (∀ ip, new.contains ip = true →
        old.contains ip = true ∨ Vacant reserved compared ip) ∧
      Spares wired old live fun ip => new.contains ip = true
  | .delete _ old live => Spares wired old live fun _ => False
  | _ => True

section

variable {r : Registry} {wired : Bool}

theorem list_issues : Registry.list.Issues (Clears r.pool r.reserved wired) fun _ => True := by
  refine Procedure.issues_send trivial ?_
  rintro (t | rows) <;> trivial

theorem get_issues (n : String) : (Registry.get n).Issues (Clears r.pool r.reserved wired)
      fun _ => True := by
  refine Procedure.issues_send trivial ?_
  rintro (t | _ | row) <;> trivial

theorem invalidate_issues : r.invalidate.Issues (Clears r.pool r.reserved wired) fun _ => True :=
  ⟨trivial, fun _ => trivial⟩

theorem validateCIDR_issues (cidr : Option Prefix) (excludeName : String) :
    (r.validateCIDR cidr excludeName).Issues (Clears r.pool r.reserved wired)
      fun ans => ∀ test, ans = .ok test → prefixInside test.cidr r.pool = true ∧
          test.cidr.masked = test.cidr ∧ ∀ ip, test.cidr.contains ip = true →
            Vacant r.reserved test.compared ip := by
  unfold Registry.validateCIDR
  split
  · rintro _ ⟨⟩
  · rename_i got
    dsimp only
    split_ifs with outside
    · rintro _ ⟨⟩
    · split
      · rintro _ ⟨⟩
      · rename_i left
        refine list_issues.bind ?_
        rintro (err | rows) _
        · rintro _ ⟨⟩
        · dsimp only
          split
          · rintro _ ⟨⟩
          · rename_i ne
            rintro _ ⟨⟩
            refine ⟨by simpa using outside, got.masked_masked, ?_⟩
            intro ip lies
            refine ⟨?_, ?_⟩
            · intro mem
              exact List.find?_eq_none.mp left ip mem lies
            · intro rng mem
              obtain ⟨row, has, rfl⟩ := mem_map.mp mem
              have free := List.find?_eq_none.mp ne row has
              rw [← Bool.not_eq_true]
              intro both
              exact free (Prefix.overlaps_iff.mpr ⟨ip, lies, both⟩)

theorem checkNoStranded_issues (guard : wired = true → r.allocs = true)
    (oldRange : Prefix) (newRange : Option Prefix) : (r.checkNoStranded oldRange newRange).Issues
      (Clears r.pool r.reserved wired) fun ans => ∀ live, ans = .ok live →
        Spares wired oldRange live fun ip => newRange.any (fun rng => rng.contains ip) = true := by
  unfold Registry.checkNoStranded
  split_ifs with unwired
  · rintro _ ⟨⟩ on
    rw [guard on] at unwired
    cases unwired
  · refine Procedure.issues_send trivial ?_
    rintro (t | addrs)
    · rintro _ ⟨⟩
    · dsimp only
      split
      · rintro _ ⟨⟩
      · rename_i kept
        rintro _ ⟨⟩ _ ip lies seen
        have spared := List.find?_eq_none.mp kept ip (seen addrs rfl)
        simpa [lies] using spared

theorem vacant_of_clear {rng : Prefix} {rest : List Netblock}
    (held : ¬r.reserved.any rng.contains = true)
    (ne : ¬(rest.any fun row => rng.overlaps row.range) = true) (ip : Addr)
    (lies : rng.contains ip = true) : Vacant r.reserved (rest.map (·.range)) ip := by
  simp only [any_eq_true, not_exists, not_and] at held ne
  refine ⟨fun mem => held ip mem lies, ?_⟩
  intro range mem
  obtain ⟨row, has, rfl⟩ := mem_map.mp mem
  rw [← Bool.not_eq_true]
  intro both
  exact ne row has (Prefix.overlaps_iff.mpr ⟨ip, lies, both⟩)

theorem rangeFree_issues (rng : Prefix) (excludeName : String) :
    (r.rangeFree rng excludeName).Issues (Clears r.pool r.reserved wired)
      fun ans => ∀ compared, ans = .ok (some compared) →
        ∀ ip, rng.contains ip = true → Vacant r.reserved compared ip := by
  unfold Registry.rangeFree
  split
  · rintro _ ⟨⟩
  · rename_i held
    refine list_issues.bind ?_
    rintro (err | rows) _
    · rintro _ ⟨⟩
    · dsimp only
      split
      · rintro _ ⟨⟩
      · rename_i ne
        split
        · refine Procedure.issues_send trivial ?_
          rintro (t | addrs)
          · rintro _ ⟨⟩
          · dsimp only
            split
            · rintro _ ⟨⟩
            · rintro _ ⟨⟩
              exact vacant_of_clear held ne
        · rintro _ ⟨⟩
          exact vacant_of_clear held ne

theorem create_clears {n : String} {k : Kind}
    {desc who : String} {now : Int} {isProtected : Bool} {test : Registry.Checked}
    (inv : prefixInside test.cidr r.pool = true ∧ test.cidr.masked = test.cidr ∧
      ∀ ip, test.cidr.contains ip = true → Vacant r.reserved test.compared ip) :
    Clears r.pool r.reserved wired (.create
        { name := n, cidr := test.cidr, kind := k,
          description := desc, isProtected := isProtected,
          createdAt := now, createdBy := who } test.compared) := by
  obtain ⟨lies, masked, vacant⟩ := inv
  refine ⟨?_, ?_⟩
  · simpa only [Netblock.range, masked] using lies
  · simpa only [Netblock.range, masked] using vacant

theorem add_issues (n : String) (cidr : Option Prefix) (desc actor : String) :
    (r.add n cidr desc actor).Issues (Clears r.pool r.reserved wired) fun _ => True := by
  unfold Registry.add
  split_ifs
  · trivial
  · trivial
  · refine (validateCIDR_issues cidr "").bind ?_
    rintro (err | checked) inv
    · trivial
    · refine Procedure.issues_send trivial fun now => ?_
      refine Procedure.issues_send (create_clears (inv checked rfl)) ?_
      rintro ((_ | text) | row)
      · trivial
      · trivial
      · exact invalidate_issues.bind fun _ _ => trivial

theorem seed_issues (n : String) (cidr : Option Prefix) (k : Kind)
    (desc actor : String) : (r.seed n cidr k desc actor).Issues
      (Clears r.pool r.reserved wired) fun _ => True := by
  unfold Registry.seed
  split_ifs
  · trivial
  · trivial
  · refine (get_issues n).bind ?_
    intro existing _
    split
    · trivial
    · refine (validateCIDR_issues cidr "").bind ?_
      rintro (err | checked) inv
      · trivial
      · refine Procedure.issues_send trivial fun now => ?_
        refine Procedure.issues_send (create_clears (inv checked rfl)) ?_
        rintro ((_ | text) | row)
        · exact get_issues n
        · trivial
        · exact invalidate_issues.bind fun _ _ => trivial
    · trivial

theorem update_issues (chk : wired = true → r.allocs = true) (n : String)
    (cidr : Option Prefix) (desc : String) :
    (r.update n cidr desc).Issues (Clears r.pool r.reserved wired) fun _ => True := by
  unfold Registry.update
  refine (get_issues n).bind ?_
  rintro (err | row) _
  · trivial
  · dsimp only
    split_ifs
    · trivial
    · refine (validateCIDR_issues cidr n).bind ?_
      rintro (err | checked) inv
      · trivial
      · obtain ⟨ins, masked, vacant⟩ := inv checked rfl
        refine (checkNoStranded_issues chk row.range (some checked.cidr)).bind ?_
        rintro (err | live) spared
        · trivial
        · refine Procedure.issues_send ⟨by rwa [masked], ?_, ?_⟩ ?_
          · exact fun ip contained => .inr (vacant ip contained)
          · simpa using spared live rfl
          · rintro (t | _ | count)
            · trivial
            · trivial
            · exact invalidate_issues.bind fun _ _ => trivial

theorem remove_issues (chk : wired = true → r.allocs = true) (n : String) :
    (r.remove n).Issues (Clears r.pool r.reserved wired) fun _ => True := by
  unfold Registry.remove
  refine (get_issues n).bind ?_
  rintro (err | row) _
  · trivial
  · dsimp only
    split_ifs
    · trivial
    · refine (checkNoStranded_issues chk row.range none).bind ?_
      rintro (err | live) spared
      · trivial
      · have free : Clears r.pool r.reserved wired (.delete n row.range live) := by
          intro on ip lies seen
          simpa using spared live rfl on ip lies seen
        refine Procedure.issues_send free ?_
        rintro (t | _)
        · trivial
        · exact invalidate_issues.bind fun _ _ => trivial

theorem grow_clears {n : String} {row : Netblock} {bud : Prefix}
    {compared : List Prefix} (sib : buddyOf row.range = some bud)
    (low : (parentOf row.range).addr = row.range.addr)
    (lies : prefixInside (parentOf row.range) r.pool = true)
    (vacant : ∀ ip, bud.contains ip = true → Vacant r.reserved compared ip) :
    Clears r.pool r.reserved wired
      (.setCIDR n row.range (parentOf row.range) none compared none) := by
  have net : (parentOf row.range).addr = row.range.network := by
    rw [low]
    exact row.cidr.masked_network.symm
  have halves := contains_parentOf_iff net sib
  refine ⟨?_, ?_, ?_⟩
  · rwa [parentOf_masked]
  · intro ip contained
    rcases (halves ip).mp contained with old | new
    · exact .inl old
    · exact .inr (vacant ip new)
  · intro _ ip old _
    exact (halves ip).mpr (.inl old)

theorem grow_issues (n : String) :
    (r.grow n).Issues (Clears r.pool r.reserved wired) fun _ => True := by
  unfold Registry.grow
  refine (get_issues n).bind ?_
  rintro (err | row) _
  · trivial
  · dsimp only
    split
    · trivial
    · split
      · trivial
      · rename_i bud sib
        split
        · trivial
        · rename_i low
          split
          · trivial
          · rename_i lies
            simp only [not_or, Bool.not_eq_false] at lies
            refine (rangeFree_issues bud n).bind ?_
            rintro (err | _ | compared) vacant
            · trivial
            · trivial
            · refine Procedure.issues_send (grow_clears sib
                (not_not.mp low) lies.2 (vacant compared rfl)) ?_
              rintro (t | _ | count)
              · trivial
              · trivial
              · exact invalidate_issues.bind fun _ _ => trivial

theorem snapshot_issues : r.snapshot.Issues (Clears r.pool r.reserved wired) fun _ => True := by
  refine Procedure.issues_send trivial ?_
  rintro ⟨_ | rows, gen⟩
  · refine list_issues.bind ?_
    rintro (err | rows) _
    · trivial
    · exact ⟨trivial, fun _ => trivial⟩
  · trivial

theorem expand_issues (s : Consumer.Statement) :
    (r.expand s).Issues (Clears r.pool r.reserved wired) fun _ => True := by
  have kept : ∀ alt : Consumer.Statement,
      (send (.store alt)).Issues (Clears r.pool r.reserved wired)
        fun _ => True := fun _ => ⟨trivial, fun _ => trivial⟩
  have snap : ∀ {V : Type} {next : Except RegistryError (List Netblock) → Run V},
      (∀ rs, (next rs).Issues (Clears r.pool r.reserved wired) fun _ => True) →
      (r.snapshot >>= next).Issues (Clears r.pool r.reserved wired) fun _ => True :=
    fun rest => snapshot_issues.bind fun rs _ => rest rs
  cases s with
  | resolveNetblock n | resolveFull n => exact (snap (by rintro (err | rows) <;> trivial)).map
  | carves => exact (snap (by rintro (err | rows) <;> trivial)).map
  | grow n => exact (grow_issues n).map
  | _ => exact kept _

end

theorem handle_issues {cfg : Config} {wired : Bool}
    (chk : ∀ process, wired = true → cfg.allocs process = true)
    (process : Nat) (req : Request) : (cfg.handle process req).Issues
      (Clears cfg.pool.masked cfg.reserved wired) fun _ => True := by
  show (cfg.handle process req).Issues
    (Clears (cfg.registry process).pool (cfg.registry process).reserved wired) fun _ => True
  have translated : ∀ {V : Type} (p : Consumer.Run V),
      (p.translate (cfg.registry process).expand).Issues (Clears (cfg.registry process).pool
          (cfg.registry process).reserved wired) fun _ => True :=
    fun p => Procedure.follows_translate (fun s _ => expand_issues s) p ()
  cases req with
  | add n cidr desc who => exact (add_issues n cidr desc who).map
  | seed n cidr k desc who => exact (seed_issues n cidr k desc who).map
  | update n cidr desc => exact (update_issues (chk process) n cidr desc).map
  | remove n => exact (remove_issues (chk process) n).map
  | grow n => exact (grow_issues n).map
  | allocate dev netblockName verb | release ip => exact (translated _).map

end Harbor.Netblocks
