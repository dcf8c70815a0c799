import Harbor.Netblocks.Registry
import Mathlib.Data.List.Dedup

/-!
# The address bar of the console

`overlaySegments` cuts the pool at the edges of every block and of its growth
zone, colours each piece by its first address and joins neighbours that look
alike.  The colour of an address depends only on which edges are at or below
it, so it is the same all over a piece.
-/

namespace Harbor.Netblocks.Overlay

open Ipam List

inductive Color where
  | green
  | purple
  | red
  | yellow
deriving DecidableEq, Repr

structure Range where
  start : Nat
  stop : Nat

/-- A CIDR from its base to `cidrEnd`. -/
def span (cidr : Prefix) : Range :=
  ⟨cidr.addr, cidr.addr + cidr.size⟩

def Range.covers (range : Range) (addr : Nat) : Bool :=
  range.start ≤ addr && addr < range.stop

structure Zone where
  red : Option Prefix
  yellow : List Range

def marginBits : Nat := 3

def envelopeFloor : Nat := 24

def envelopeBits (p poolBits : Nat) : Nat :=
  min p (max (max envelopeFloor poolBits) (p - marginBits))

def maskBase (addr bits : Nat) : Nat :=
  addr / 2 ^ (32 - bits) * 2 ^ (32 - bits)

def envelopeZone (block : Prefix) (poolBits : Nat) : Zone :=
  let e := envelopeBits block.bits poolBits
  if block.bits ≤ e then ⟨none, []⟩
  else
    let envBase := maskBase block.addr e
    let envEnd := envBase + 2 ^ (32 - e)
    let redBase := envBase + block.size
    let yellowStart := envBase + 2 * block.size
    { red :=
        if redBase < envEnd then
          some ⟨redBase % 2 ^ 32, block.bits, Nat.mod_lt _ (by decide), block.bits_le⟩
        else none
      yellow := if yellowStart < envEnd then [⟨yellowStart, envEnd⟩] else [] }

structure Carve where
  cidr : Prefix
  zone : Zone
  name : String

section

variable (carves : List Carve)

def purples : List Range :=
  carves.map fun c => span c.cidr

def reds : List Range :=
  carves.flatMap fun c => c.zone.red.toList.map span

def yellows : List Range :=
  carves.flatMap fun c => c.zone.yellow

def colorAt (addr : Nat) : Color :=
  if (purples carves).any (·.covers addr) then .purple
  else if (reds carves).any (·.covers addr) then .red
  else if (yellows carves).any (·.covers addr) then .yellow
  else .green

def edges : List Nat :=
  (purples carves ++ reds carves ++ yellows carves).flatMap fun range => [range.start, range.stop]

end

structure Segment where
  base : Nat
  bits : Nat
  size : Nat
  color : Color
  label : Option String
deriving DecidableEq, Repr

def spanBits (start stop : Nat) : Nat :=
  ((range 33).find? fun bits => decide (2 ^ (32 - bits) ≤ stop - start)).getD 32

def label (carves : List Carve) (start : Nat) : Option String :=
  if colorAt carves start = .purple then
    (carves.find? fun c => (span c.cidr).covers start).map Carve.name
  else none

def rawSegments (carves : List Carve) : List Nat → List Segment
  | start :: stop :: rest =>
    if stop ≤ start then rawSegments carves (stop :: rest)
    else
      ⟨start, spanBits start stop, stop - start, colorAt carves start, label carves start⟩ ::
        rawSegments carves (stop :: rest)
  | _ => []

/-- The loop that joins a segment to the last one pushed. -/
def coalesceFrom (prev : Segment) : List Segment → List Segment
  | [] => [prev]
  | seg :: rest =>
    if prev.color = seg.color ∧ prev.label = seg.label ∧ prev.base + prev.size = seg.base then
      coalesceFrom
        { prev with
          size := prev.size + seg.size
          bits := spanBits prev.base (prev.base + (prev.size + seg.size)) } rest
    else prev :: coalesceFrom seg rest

def coalesce : List Segment → List Segment
  | [] => []
  | seg :: rest => coalesceFrom seg rest

structure Block where
  cidr : Prefix
  name : String
  growable : Bool

def carvesOf (pool : Prefix) (blocks : List Block) (pending : Option Prefix) : List Carve :=
  (blocks.map fun b =>
    ⟨b.cidr, if b.growable then envelopeZone b.cidr pool.bits else ⟨none, []⟩, b.name⟩) ++
    pending.toList.map fun cidr => ⟨cidr, envelopeZone cidr pool.bits, "(new)"⟩

def sortedEdges (pool : Prefix) (carves : List Carve) : List Nat :=
  (([pool.addr, pool.addr + pool.size] ++ edges carves).dedup.filter fun e =>
    decide (pool.addr ≤ e ∧ e ≤ pool.addr + pool.size)).insertionSort (· ≤ ·)

def overlaySegments (pool : Prefix) (blocks : List Block) (pending : Option Prefix) :
    List Segment :=
  let carves := carvesOf pool blocks pending
  coalesce (rawSegments carves (sortedEdges pool carves))

/-! ## What the colours mean -/

/-- The address lies in a block or in the pending carve. -/
def Held (blocks : List Block) (pending : Option Prefix) (addr : Nat) : Prop :=
  (∃ block ∈ blocks, block.cidr.addr ≤ addr ∧
      addr < block.cidr.addr + block.cidr.size) ∨
    ∃ cidr ∈ pending, cidr.addr ≤ addr ∧ addr < cidr.addr + cidr.size

/-- The address lies in the second place of a CIDR's size in its growth
envelope, if the envelope is larger than the CIDR. -/
def Doubling (poolBits : Nat) (cidr : Prefix) (addr : Nat) : Prop :=
  let bits := envelopeBits cidr.bits poolBits
  bits < cidr.bits ∧ maskBase cidr.addr bits + cidr.size ≤ addr ∧
    addr < maskBase cidr.addr bits + 2 * cidr.size

/-- The address lies in the envelope beyond its first two places. -/
def Margin (poolBits : Nat) (cidr : Prefix) (addr : Nat) : Prop :=
  let bits := envelopeBits cidr.bits poolBits
  bits < cidr.bits ∧ maskBase cidr.addr bits + 2 * cidr.size ≤ addr ∧
    addr < maskBase cidr.addr bits + 2 ^ (32 - bits)

/-- The address lies in such a zone of a growable block or of the pending
carve. -/
def Grows (zone : Prefix → Nat → Prop) (blocks : List Block)
    (pending : Option Prefix) (addr : Nat) : Prop :=
  (∃ block ∈ blocks, block.growable = true ∧ zone block.cidr addr) ∨
    ∃ cidr ∈ pending, zone cidr addr

/-- The colour of an address by itself: purple before red, red before yellow,
and green for the rest. -/
def Paints (pool : Prefix) (blocks : List Block) (pending : Option Prefix)
    (addr : Nat) : Color → Prop
  | .purple => Held blocks pending addr
  | .red =>
    ¬Held blocks pending addr ∧
      Grows (Doubling pool.bits) blocks pending addr
  | .yellow =>
    ¬Held blocks pending addr ∧
      ¬Grows (Doubling pool.bits) blocks pending addr ∧
      Grows (Margin pool.bits) blocks pending addr
  | .green =>
    ¬Held blocks pending addr ∧
      ¬Grows (Doubling pool.bits) blocks pending addr ∧
      ¬Grows (Margin pool.bits) blocks pending addr

/-- Non-empty segments that follow one another from `start` to `stop`, each in
the colour of all its addresses. -/
def Tiles (paints : Nat → Color → Prop) : Nat → List Segment → Nat → Prop
  | start, [], stop => start = stop
  | start, seg :: rest, stop =>
    seg.base = start ∧ 0 < seg.size ∧
      (∀ addr, start ≤ addr → addr < start + seg.size → paints addr seg.color) ∧
      Tiles paints (start + seg.size) rest stop

def Differ (left right : Segment) : Prop :=
  ¬(left.color = right.color ∧ left.label = right.label)

section

variable {cs : List Carve} {paints : Nat → Color → Prop} {init stop : Nat}

theorem any_covers_congr {ranges : List Range} {l r : Nat}
    (eq : ∀ e ∈ ranges.flatMap fun rng => [rng.start, rng.stop], e ≤ l ↔ e ≤ r) :
    ranges.any (·.covers l) = ranges.any (·.covers r) := by
  rw [Bool.eq_iff_iff, any_eq_true, any_eq_true]
  refine exists_congr fun rng => and_congr_right fun mem => ?_
  have fst := eq rng.start (mem_flatMap.mpr ⟨rng, mem, by simp⟩)
  have last := eq rng.stop (mem_flatMap.mpr ⟨rng, mem, by simp⟩)
  simp only [Range.covers, fst, ← not_le, last]

theorem colorAt_congr {l r : Nat} (eq : ∀ e ∈ edges cs, e ≤ l ↔ e ≤ r) :
    colorAt cs l = colorAt cs r := by
  simp only [edges, flatMap_append, mem_append] at eq
  simp only [colorAt, any_covers_congr fun e mem => eq e (.inl (.inl mem)),
    any_covers_congr fun e mem => eq e (.inl (.inr mem)),
    any_covers_congr fun e mem => eq e (.inr mem)]

theorem tiles_rawSegments {cuts : List Nat} (asc : (init :: cuts).Pairwise (· < ·))
    (bd : ∀ e ∈ init :: cuts, e ≤ stop) (ends : stop ∈ init :: cuts)
    (seen : ∀ e ∈ edges cs, e ≤ init ∨ e ∈ cuts ∨ stop < e) :
    Tiles (fun addr color => colorAt cs addr = color) init
      (rawSegments cs (init :: cuts)) stop := by
  induction cuts generalizing init with
  | nil => exact (mem_singleton.mp ends).symm
  | cons next cuts ih =>
    obtain ⟨gt, late⟩ := pairwise_cons.mp asc
    have less := gt next mem_cons_self
    have top := bd next (by simp)
    rw [rawSegments, if_neg (not_le.mpr less)]
    refine ⟨rfl, Nat.sub_pos_of_lt less, ?_, ?_⟩
    · intro addr low (high : addr < init + (next - init))
      refine colorAt_congr fun e mem => ?_
      have far : e ∈ next :: cuts → next ≤ e := fun listed => by
        rcases mem_cons.mp listed with rfl | old
        · exact le_rfl
        · exact ((pairwise_cons.mp late).1 e old).le
      rcases seen e mem with lt | listed | beyond
      · omega
      · have := far listed
        omega
      · omega
    · rw [Nat.add_sub_cancel' less.le]
      refine ih late (fun e mem => bd e (mem_cons_of_mem _ mem)) ?_ ?_
      · exact (mem_cons.mp ends).resolve_left (by omega)
      · intro e mem
        rcases seen e mem with lt | listed | beyond
        · exact .inl (lt.trans less.le)
        · rcases mem_cons.mp listed with rfl | old
          · exact .inl le_rfl
          · exact .inr (.inl old)
        · exact .inr (.inr beyond)

theorem coalesceFrom_sound {segs : List Segment} (prev : Segment)
    (tiles : Tiles paints init (prev :: segs) stop) :
    Tiles paints init (coalesceFrom prev segs) stop ∧ (coalesceFrom prev segs).IsChain Differ ∧
      ∃ head tail, coalesceFrom prev segs = head :: tail ∧
        head.color = prev.color ∧ head.label = prev.label := by
  induction segs generalizing prev init with
  | nil => exact ⟨tiles, .singleton _, prev, [], rfl, rfl, rfl⟩
  | cons seg tl ih =>
    obtain ⟨base, pos, bare, next, more, o, rest⟩ := tiles
    rw [coalesceFrom]
    split_ifs with same
    · refine ih _ ⟨base, Nat.add_pos_left pos _, ?_, ?_⟩
      · intro addr low (high : addr < init + (prev.size + seg.size))
        by_cases front : addr < init + prev.size
        · exact bare addr low front
        · exact same.1 ▸ o addr (by omega) (by omega)
      · rwa [← Nat.add_assoc]
    · obtain ⟨tiled, chn, head, tail, cut, color, label⟩ := ih seg ⟨next, more, o, rest⟩
      refine ⟨⟨base, pos, bare, tiled⟩, ?_, prev, _, rfl, rfl, rfl⟩
      rw [cut] at chn ⊢
      refine .cons_cons (fun eq => same ?_) chn
      exact ⟨eq.1.trans color, eq.2.trans label, by omega⟩

theorem coalesce_sound {segs : List Segment} (tiles : Tiles paints init segs stop) :
    Tiles paints init (coalesce segs) stop ∧ (coalesce segs).IsChain Differ := by
  cases segs with
  | nil => exact ⟨tiles, .nil⟩
  | cons seg rest =>
    obtain ⟨joined, chn, -⟩ := coalesceFrom_sound seg tiles
    exact ⟨joined, chn⟩

theorem mem_sortedEdges {p : Prefix} {e : Nat} : e ∈ sortedEdges p cs ↔
    (e = p.addr ∨ e = p.addr + p.size ∨ e ∈ edges cs) ∧ p.addr ≤ e ∧ e ≤ p.addr + p.size := by
  simp [sortedEdges]

theorem sortedEdges_ascending (p : Prefix) : (sortedEdges p cs).Pairwise (· < ·) := by
  have distinct : (sortedEdges p cs).Nodup :=
    (perm_insertionSort _ _).nodup_iff.mpr ((nodup_dedup _).filter _)
  have ord : (sortedEdges p cs).Pairwise (· ≤ ·) := pairwise_insertionSort _ _
  exact (ord.and distinct).imp fun both => lt_of_le_of_ne both.1 both.2

theorem tiles_sortedEdges (pool : Prefix) :
    Tiles (fun addr color => colorAt cs addr = color) pool.addr
      (rawSegments cs (sortedEdges pool cs)) (pool.addr + pool.size) := by
  have first : pool.addr ∈ sortedEdges pool cs :=
    mem_sortedEdges.mpr ⟨.inl rfl, le_rfl, Nat.le_add_right _ _⟩
  have asc := @sortedEdges_ascending cs pool
  have listed := @mem_sortedEdges cs pool
  cases ord : sortedEdges pool cs with
  | nil => exact absurd (ord ▸ first) not_mem_nil
  | cons least rest =>
    rw [ord] at first asc listed
    have same : least = pool.addr := by
      rcases mem_cons.mp first with same | later
      · exact same.symm
      · exact absurd ((pairwise_cons.mp asc).1 _ later) (not_lt.mpr (listed.mp mem_cons_self).2.1)
    subst same
    refine tiles_rawSegments asc (fun e mem => (listed.mp mem).2.2) ?_ ?_
    · exact listed.mpr ⟨.inr (.inl rfl), Nat.le_add_right _ _, le_rfl⟩
    · intro e mem
      by_cases ins : pool.addr ≤ e ∧ e ≤ pool.addr + pool.size
      · rcases mem_cons.mp (listed.mpr ⟨.inr (.inr mem), ins⟩) with rfl | old
        · exact .inl le_rfl
        · exact .inr (.inl old)
      · rcases not_and_or.mp ins with below | beyond
        · exact .inl (le_of_not_ge below)
        · exact .inr (.inr (not_le.mp beyond))

theorem Tiles.imp {means : Nat → Color → Prop} {segs : List Segment}
    (tiles : Tiles paints init segs stop)
    (implies : ∀ addr color, paints addr color → means addr color) :
    Tiles means init segs stop := by
  induction segs generalizing init with
  | nil => exact tiles
  | cons seg rest ih =>
    obtain ⟨base, positive, painted, later⟩ := tiles
    exact ⟨base, positive, fun addr low high => implies _ _ (painted addr low high), ih later⟩

end

/-! ## The colour of an address -/

section

variable {pool b : Prefix} {blocks : List Block} {pending : Option Prefix} {addr poolBits : Nat}

theorem Range.covers_iff {range : Range} :
    range.covers addr = true ↔ range.start ≤ addr ∧ addr < range.stop := by
  simp [Range.covers]

theorem maskBase_add_le (small : addr < 2 ^ 32) {bits : Nat} (short : bits ≤ 32) :
    maskBase addr bits + 2 ^ (32 - bits) ≤ 2 ^ 32 := by
  have split : 2 ^ 32 = 2 ^ bits * 2 ^ (32 - bits) := by
    rw [← Nat.pow_add, Nat.add_sub_cancel' short]
  have below : addr / 2 ^ (32 - bits) < 2 ^ bits :=
    Nat.div_lt_of_lt_mul (by rwa [Nat.mul_comm, ← split])
  calc maskBase addr bits + 2 ^ (32 - bits)
      = (addr / 2 ^ (32 - bits) + 1) * 2 ^ (32 - bits) := by
        rw [maskBase, Nat.succ_mul]
    _ ≤ 2 ^ bits * 2 ^ (32 - bits) := Nat.mul_le_mul_right _ below
    _ = 2 ^ 32 := split.symm

theorem size_lt_envelope (room : envelopeBits b.bits poolBits < b.bits) :
    b.size < 2 ^ (32 - envelopeBits b.bits poolBits) := by
  have bound := b.bits_le
  exact Nat.pow_lt_pow_right (by decide) (by omega)

theorem envelopeZone_red (room : envelopeBits b.bits poolBits < b.bits) :
    (envelopeZone b poolBits).red = some
      ⟨(maskBase b.addr (envelopeBits b.bits poolBits) + b.size) % 2 ^ 32, b.bits,
        Nat.mod_lt _ (by decide), b.bits_le⟩ := by
  simp [envelopeZone, not_le.mpr room, size_lt_envelope room]

theorem envelopeZone_full (full : b.bits ≤ envelopeBits b.bits poolBits) :
    envelopeZone b poolBits = ⟨none, []⟩ := by
  simp [envelopeZone, full]

/-- The start of the red range is an address, so it is not cut to 32 bits. -/
theorem redBase_mod (room : envelopeBits b.bits poolBits < b.bits) :
    (maskBase b.addr (envelopeBits b.bits poolBits) + b.size) % 2 ^ 32 =
      maskBase b.addr (envelopeBits b.bits poolBits) + b.size := by
  have short : envelopeBits b.bits poolBits ≤ 32 := room.le.trans b.bits_le
  have fits := maskBase_add_le b.addr_lt short
  have smaller := size_lt_envelope room
  exact Nat.mod_eq_of_lt (by omega)

theorem red_covers_iff :
    (∃ red ∈ (envelopeZone b poolBits).red, (span red).covers addr = true) ↔
      Doubling poolBits b addr := by
  by_cases full : b.bits ≤ envelopeBits b.bits poolBits
  · simp [envelopeZone_full full, Doubling, not_lt.mpr full]
  · have room := not_le.mp full
    simp only [envelopeZone_red room, Option.mem_some_iff, exists_eq_left',
      Range.covers_iff, span, redBase_mod room, Doubling, room, true_and]
    show _ ∧ addr < _ + b.size + b.size ↔ _
    omega

theorem yellow_covers_iff :
    (∃ range ∈ (envelopeZone b poolBits).yellow, range.covers addr = true) ↔
      Margin poolBits b addr := by
  by_cases full : b.bits ≤ envelopeBits b.bits poolBits
  · simp [envelopeZone_full full, Margin, not_lt.mpr full]
  · have room := not_le.mp full
    simp only [envelopeZone, full, if_false, Margin, room, true_and]
    split_ifs with some
    · simp [Range.covers_iff]
    · simp only [not_mem_nil, false_and, exists_false, false_iff]
      omega

theorem exists_carvesOf {holds : Carve → Prop} :
    (∃ carve ∈ carvesOf pool blocks pending, holds carve) ↔
      (∃ block ∈ blocks, holds ⟨block.cidr,
        if block.growable then envelopeZone block.cidr pool.bits else ⟨none, []⟩,
        block.name⟩) ∨
      ∃ cidr ∈ pending, holds ⟨cidr, envelopeZone cidr pool.bits, "(new)"⟩ := by
  simp [carvesOf, or_and_right, exists_or]

theorem purples_iff :
    (purples (carvesOf pool blocks pending)).any (·.covers addr) = true ↔
      Held blocks pending addr := by
  have listed : (purples (carvesOf pool blocks pending)).any (·.covers addr) = true ↔
      ∃ carve ∈ carvesOf pool blocks pending, (span carve.cidr).covers addr = true := by
    simp [purples]
  rw [listed, exists_carvesOf]
  simp only [Held, span, Range.covers_iff]

theorem reds_iff :
    (reds (carvesOf pool blocks pending)).any (·.covers addr) = true ↔
      Grows (Doubling pool.bits) blocks pending addr := by
  have listed : (reds (carvesOf pool blocks pending)).any (·.covers addr) = true ↔
      ∃ carve ∈ carvesOf pool blocks pending,
        ∃ red ∈ carve.zone.red, (span red).covers addr = true := by
    simp [reds]
  rw [listed, exists_carvesOf]
  refine or_congr (exists_congr fun block => and_congr_right fun _ => ?_)
    (exists_congr fun cidr => and_congr_right fun _ => red_covers_iff)
  by_cases growable : block.growable = true
  · simp only [growable, if_true, true_and, red_covers_iff]
  · simp [growable]

theorem yellows_iff :
    (yellows (carvesOf pool blocks pending)).any (·.covers addr) = true ↔
      Grows (Margin pool.bits) blocks pending addr := by
  have listed : (yellows (carvesOf pool blocks pending)).any (·.covers addr) = true ↔
      ∃ carve ∈ carvesOf pool blocks pending,
        ∃ range ∈ carve.zone.yellow, range.covers addr = true := by
    simp only [yellows, any_flatMap, any_eq_true]
  rw [listed, exists_carvesOf]
  refine or_congr (exists_congr fun block => and_congr_right fun _ => ?_)
    (exists_congr fun cidr => and_congr_right fun _ => yellow_covers_iff)
  by_cases growable : block.growable = true
  · simp only [growable, if_true, true_and, yellow_covers_iff]
  · simp [growable]

theorem paints_colorAt :
    Paints pool blocks pending addr (colorAt (carvesOf pool blocks pending) addr) := by
  unfold colorAt
  split_ifs with held doubling margin
  · exact purples_iff.mp held
  · exact ⟨mt purples_iff.mpr held, reds_iff.mp doubling⟩
  · exact ⟨mt purples_iff.mpr held, mt reds_iff.mpr doubling, yellows_iff.mp margin⟩
  · exact ⟨mt purples_iff.mpr held, mt reds_iff.mpr doubling, mt yellows_iff.mpr margin⟩

end

/-- The segments of the address bar partition the pool, all addresses of a
segment have its colour, and neighbours differ in colour or label. -/
theorem overlaySegments_partition (pool : Prefix) (blocks : List Block)
    (pending : Option Prefix) :
    Tiles (Paints pool blocks pending) pool.addr
        (overlaySegments pool blocks pending) (pool.addr + pool.size) ∧
      (overlaySegments pool blocks pending).IsChain Differ := by
  refine coalesce_sound ((tiles_sortedEdges pool).imp ?_)
  rintro addr _ rfl
  exact paints_colorAt

end Harbor.Netblocks.Overlay
