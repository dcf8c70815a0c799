import Harbor.Netblocks.Fill
import Harbor.Netblocks.Stranding

/-!
# Allocations and the current table

Calls are made one after the other by processes that share the database.  Each
process resolves names through its own cache, which only its own mutations
invalidate.  An allocation that starts with a fresh cache stays inside the block
it records; one that starts after another process has moved the block does not.
-/

namespace Harbor.Netblocks

open Library Library.Procedure Ipam

structure Turn where
  process : Nat
  request : Request
  choices : Nat → Choice := fun _ => {}

def history (config : Config) (env : Consumer.Env) (start : World) (turns : List Turn) : World :=
  turns.foldl (fun world turn =>
    ((config.handle turn.process turn.request).run (execute env) turn.choices world).2) start

section

variable {faultless : Prop} {r : Registry} {a : Consumer.Allocator}
  {l : Lease} {b : Netblock} {allocations fin : Allocations}
  {bs final : Blocks} {since finish : Int} {ip : Addr}

theorem Scan.contains (scan : Scan faultless a.reserved allocations bs b (some ip)) :
    b.range.contains ip = true := by
  obtain ⟨carves, _, lowest⟩ := scan
  exact (lowestFree_eq_some.mp lowest).1.inside

theorem Fill.inside (fill : Fill faultless r a l finish b allocations bs since (.ok ip)
      fin final) (had : bs.table.find b.name = some b) :
    ∃ row ∈ fin.rows, row.ip = ip ∧ ∃ held ∈ final.rows, held.id = row.netblockID ∧
        held.range.contains ip = true := by
  generalize told : (Except.ok ip : Except Consumer.AllocateError Addr) = ans at fill
  induction fill with
  | @taken b allocations fin bs since time taken scan _ _ put =>
    cases told
    refine ⟨l.row ip time b.id, ?_, rfl, b, (Table.find_eq_some_iff.mp had).1, rfl, scan.contains⟩
    rw [(Table.insert?_eq_some put).1]
    exact List.mem_append_right _ List.mem_cons_self
  | grown _ _ _ _ doubles _ ih => exact ih (doubles.find had) told
  | exhausted | broken => cases told

end

/-- After any sequence of calls, an Allocate whose process has cached nothing or
exactly what the table holds returns an address inside the block that its new
row records, as the table holds it then. -/
theorem allocation_inside_recorded_block {config : Config}
    {env : Consumer.Env} {start : World} {turns : List Turn} {process : Nat}
    {deviceName name method : String} {choices : Nat → Choice} {ip : Addr}
    (registry : (config.allocator process).resolver = .registry)
    (fresh : FreshCache (history config env start turns) process)
    (returned : ((config.allocate process deviceName name method).run
      (execute env) choices (history config env start turns)).1 = .ok ip) :
    ∃ row ∈ ((config.allocate process deviceName name method).run (execute env) choices
        (history config env start turns)).2.store.allocations.rows, row.ip = ip ∧
      (∃ block ∈ ((config.allocate process deviceName name method).run (execute env) choices
          (history config env start turns)).2.netblocks.rows, block.id = row.netblockID) ∧
      ∀ block ∈ ((config.allocate process deviceName name method).run (execute env) choices
          (history config env start turns)).2.netblocks.rows,
        block.id = row.netblockID → block.range.contains ip = true := by
  have ended := allocate_run env (fun _ => True) choices deviceName name method
    registry fresh fun _ => trivial
  rw [returned] at ended
  cases ended with
  | filled targets _ _ fill =>
    obtain ⟨row, added, taken, held, present, recorded, inside⟩ :=
      fill.inside (Table.find_eq_some_iff.mpr ⟨(Blocks.mem_listed _).mp targets.mem, rfl⟩)
    refine ⟨row, added, taken, ⟨held, present, recorded⟩, ?_⟩
    intro block member same
    rw [Blocks.eq_of_id_eq _ member present (same.trans recorded.symm)]
    exact inside

namespace Example

def movedBlock : List Turn :=
  [{ process := 1, request := .allocate "host" "a" "token" },
    { process := 1, request := .release firstAddr },
    { process := 0, request := .update "a" (some second) "" }]

def movedBefore : List Turn :=
  [{ process := 0, request := .update "a" (some second) "" }]

def allocateAfter (turns : List Turn) : Except Consumer.AllocateError Addr × World :=
  (config.allocate 1 "host" "a" "token").run (execute env) (fun _ => {})
    (history config env (carved firstHalf) turns)

end Example

open Example

/-- A process that has cached a block allocates from its old range after another
process has moved it. -/
theorem stale_cache_allocates_outside : (allocateAfter movedBlock).1 = .ok firstAddr ∧
      ∀ row ∈ (allocateAfter movedBlock).2.store.allocations.rows, row.ip = firstAddr →
        ∀ block ∈ (allocateAfter movedBlock).2.netblocks.rows,
          block.id = row.netblockID → block.range.contains firstAddr = false := by
  decide

theorem allocation_inside_recorded_block_moved : ∃ row ∈ (allocateAfter
        movedBefore).2.store.allocations.rows, row.ip = 167772417 ∧
      (∃ block ∈ (allocateAfter movedBefore).2.netblocks.rows, block.id = row.netblockID) ∧
      ∀ block ∈ (allocateAfter movedBefore).2.netblocks.rows,
        block.id = row.netblockID → block.range.contains 167772417 = true :=
  allocation_inside_recorded_block rfl (by rintro _ ⟨⟩) (by decide)

end Harbor.Netblocks
