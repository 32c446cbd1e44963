import PortalPonder.Assembly.Sharding
import PortalPonder.Assembly.Losses
import PortalPonder.Historical.ChunkCoverage

/-!
# Headers are new

The check for missing columns counts a header only if the chunk data does not have it yet. It never
has: the operations of a cached entry tile its chunk, so no two of them fetch one block, and what an
operation finds in the chunk data was fetched by those before it.
-/

namespace PortalPonder.Assembly

open Historical (Children SyncDeps Cache Entry Op)

variable {F A Q : Type} {spec : Spec F}

/-- The headers of the chunk data are of blocks that the first `k` operations of the entry cover. -/
def HeadersBefore (e : Entry F A Q) (k : Nat) (cd : ChunkData) : Prop :=
  ∀ n hdr, cd.blockHeaders.get? n = some hdr → ∃ j op, j < k ∧ e.ops[j]? = some op ∧ op.Covers n

/-- The blocks of a call are in the range of its operation. -/
def HeadersWithin (spec : Spec F) (op : Op F A Q) (streams : Streams) : Prop :=
  ∀ b ∈ streams.headerBlocks spec, op.Covers b.header.number

theorem headersBefore_start (e : Entry F A Q) : HeadersBefore e 0 createChunkData := by
  intro n hdr found
  cases found

/-- Each operation adds headers of its own range. -/
theorem HeadersBefore.next {e : Entry F A Q} {k : Nat} {op : Op F A Q} {cd cd' : ChunkData}
    (before : HeadersBefore e k cd) (here : e.ops[k]? = some op) {upstream : TraceMatching F}
    {known : Children F Address} {streams : Streams} (within : HeadersWithin spec op streams)
    {fromBlock toBlock : Nat}
    (ran : runStreams spec upstream known streams cd fromBlock toBlock = .ok cd') :
    HeadersBefore e (k + 1) cd' := by
  intro n hdr found
  rw [(runStreams_ok ran).2, merged_blockHeaders_at] at found
  rcases Option.or_eq_some_iff.1 found with last | ⟨_, old⟩
  · obtain ⟨b, isLast, _⟩ := Option.map_eq_some_iff.1 last
    obtain ⟨mem, ofBlock⟩ := List.mem_filter.1 (List.mem_of_getLast? isLast)
    have number := (of_decide_eq_true ofBlock).1
    exact ⟨k, op, Nat.lt_succ_self k, here, number ▸ within b mem⟩
  · obtain ⟨j, op', lt, at_, covers⟩ := before n hdr old
    exact ⟨j, op', Nat.lt_succ_of_lt lt, at_, covers⟩

/-- Two positions with the property are two in the count. -/
theorem two_le_countP {α : Type} {p : α → Bool} {l : List α} {j k : Nat} {a b : α} (lt : j < k)
    (first : l[j]? = some a) (second : l[k]? = some b) (pa : p a = true) (pb : p b = true) :
    2 ≤ l.countP p := by
  have inTake : a ∈ l.take k := by
    refine List.mem_of_getElem? (i := j) ?_
    rw [List.getElem?_take, if_pos lt, first]
  have inDrop : b ∈ l.drop k := by
    refine List.mem_of_getElem? (i := 0) ?_
    rw [List.getElem?_drop, Nat.add_zero, second]
  have parts : l.countP p = (l.take k).countP p + (l.drop k).countP p := by
    rw [← List.countP_append, List.take_append_drop]
  have one : 0 < (l.take k).countP p := List.countP_pos_iff.2 ⟨a, inTake, pa⟩
  have two : 0 < (l.drop k).countP p := List.countP_pos_iff.2 ⟨b, inDrop, pb⟩
  omega

section Reached

variable {deps : SyncDeps F A Q} [DecidableEq F] [DecidableEq A]

/-- In every run of the chunk cache: a block of the chunk that an operation covers has no header in
the chunk data yet. -/
theorem header_fresh (on : deps.checks ≠ .off) {s : Cache F A Q}
    (reached : Machine.Reach (Cache.step deps) Cache.Promised (Cache.init deps) s)
    {e : Entry F A Q} (inEntries : e ∈ s.entries) {k : Nat} {op : Op F A Q}
    (here : e.ops[k]? = some op) {cd : ChunkData} (before : HeadersBefore e k cd) {n : Nat}
    (covers : op.Covers n) (low : (e.grid deps).1 ≤ n) (high : n ≤ (e.grid deps).2) :
    cd.blockHeaders.get? n = none := by
  obtain ⟨_, _, kept⟩ := (Cache.kept_of_reach on reached).entries e inEntries
  cases found : cd.blockHeaders.get? n with
  | none => rfl
  | some hdr =>
      obtain ⟨j, op', lt, at_, covers'⟩ := before n hdr found
      have twice : 2 ≤ e.hits n :=
        two_le_countP lt at_ here (decide_eq_true covers') (decide_eq_true covers)
      rw [kept.laid.once n low high] at twice
      split at twice
      · exact absurd twice (by decide)
      · exact absurd twice (by decide)

/-- So the headers of a call are new to the chunk. -/
theorem headers_fresh (on : deps.checks ≠ .off) {s : Cache F A Q}
    (reached : Machine.Reach (Cache.step deps) Cache.Promised (Cache.init deps) s)
    {e : Entry F A Q} (inEntries : e ∈ s.entries) {k : Nat} {op : Op F A Q}
    (here : e.ops[k]? = some op) {cd : ChunkData} (before : HeadersBefore e k cd) {streams : Streams}
    (within : HeadersWithin spec op streams)
    (inChunk : ∀ b ∈ streams.headerBlocks spec,
      (e.grid deps).1 ≤ b.header.number ∧ b.header.number ≤ (e.grid deps).2) :
    ∀ b ∈ streams.headerBlocks spec, cd.blockHeaders.get? b.header.number = none :=
  fun b mem => header_fresh on reached inEntries here before (within b mem) (inChunk b mem).1
    (inChunk b mem).2

/-- The same of the streams with their columns, by the blocks of the dataset. -/
theorem freshHeaders_of_reach (on : deps.checks ≠ .off) {s : Cache F A Q}
    (reached : Machine.Reach (Cache.step deps) Cache.Promised (Cache.init deps) s)
    {e : Entry F A Q} (inEntries : e ∈ s.entries) {k : Nat} {op : Op F A Q}
    (here : e.ops[k]? = some op) {cd : ChunkData} (before : HeadersBefore e k cd)
    {streams : ColumnStreams}
    (within : ∀ b ∈ streams.blocks.batches, ∀ blk ∈ b.blocks, op.Covers blk.header.number ∧
      (e.grid deps).1 ≤ blk.header.number ∧ blk.header.number ≤ (e.grid deps).2) :
    FreshHeaders cd streams :=
  fun b mem blk inBlocks => header_fresh on reached inEntries here before
    (within b mem blk inBlocks).1 (within b mem blk inBlocks).2.1 (within b mem blk inBlocks).2.2

end Reached

end PortalPonder.Assembly
