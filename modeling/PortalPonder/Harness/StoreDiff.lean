import PortalPonder.Harness.KeysetRows

/-!
# The store diff

`diffStores` diffs the tables of two sync stores, each read by `keysetRows`, and fails when one of
them does. The verdict is the one of a comparison of the tables as maps from keys to rows.
-/

namespace PortalPonder.Harness

open Keyed

/-! ## One table -/

/-- Two tables that are read by pages of any sizes, and walked at once: the pages are the rows, each
of them once and in key order, and the counts and the verdict are those of the two maps. -/
theorem tableDiff_exact {table : String} {keys : List String} {queryA queryB : Query}
    {A B : Table keys} (servesA : Serves queryA table A) (servesB : Serves queryB table B)
    {nextA nextB : Nat → List Row → Nat} (sizesA : ∀ i rows, MIN_BATCH ≤ nextA i rows)
    (sizesB : ∀ i rows, MIN_BATCH ≤ nextB i rows) {fuelA fuelB : Nat}
    (enoughA : A.rows.length < fuelA) (enoughB : B.rows.length < fuelB) (drop : List String)
    (mode : Mode) :
    ∃ as bs w,
      keysetPages queryA table keys nextA fuelA none MIN_BATCH = some as ∧
      keysetPages queryB table keys nextB fuelB none MIN_BATCH = some bs ∧
      (∀ quotient byteTarget, keysetRows quotient queryA table keys byteTarget fuelA = some as ∧
        keysetRows quotient queryB table keys byteTarget fuelB = some bs) ∧
      as.Perm A.rows ∧ Ascending (keyOf keys) as ∧ bs.Perm B.rows ∧ Ascending (keyOf keys) bs ∧
      streamingDiff drop mode (keyFnFor keys) as bs = some w ∧
      w.res.toCounts = compareMaps drop mode A.toMap B.toMap := by
  obtain ⟨w, walked, counts, _⟩ := streamingDiff_sorted drop mode
    A.ordered_keyed B.ordered_keyed A.ordered_ascending B.ordered_ascending
  rw [A.toMap_ordered, B.toMap_ordered] at counts
  refine ⟨A.ordered, B.ordered, w, servesA.keysetPages sizesA enoughA,
    servesB.keysetPages sizesB enoughB, fun quotient byteTarget => ⟨?_, ?_⟩, A.ordered_perm,
    A.ordered_ascending, B.ordered_perm, B.ordered_ascending, walked, counts⟩
  · exact servesA.keysetRows quotient byteTarget enoughA
  · exact servesB.keysetRows quotient byteTarget enoughB

/-- A database with one table that fits in a page. -/
def answerSmall {keys : List String} (t : Table keys) : Query := fun _ params =>
  if params = [] then t.ordered
  else
    match params.mapM fun p => p.bind toBig with
    | none => []
    | some cursor => t.ordered.filter fun r => cursor < keyOf keys r

theorem answerSmall_serves {keys : List String} {t : Table keys} (few : t.rows.length ≤ MIN_BATCH)
    (some_ : keys ≠ []) (table : String) : Serves (answerSmall t) table t where
  first := by
    intro limit enough
    have all : t.ordered.length ≤ limit := by
      rw [t.ordered_perm.length_eq]
      omega
    rw [List.take_of_length_le all]
    rfl
  next := by
    intro limit enough last mem
    have part : (t.ordered.filter fun r => keyOf keys last < keyOf keys r).length ≤ limit := by
      have le := List.length_filter_le (fun r => decide (keyOf keys last < keyOf keys r)) t.ordered
      rw [t.ordered_perm.length_eq] at le
      omega
    have behind : cursorOf keys last ≠ [] := by
      unfold cursorOf
      simpa using some_
    have key : ((cursorOf keys last).mapM fun p => p.bind toBig) = some (keyOf keys last) := by
      rw [cursorOf, List.mapM_map]
      exact t.keyed last mem
    rw [List.take_of_length_le part]
    unfold answerSmall
    rw [if_neg behind, key]

def blockKeys : List String := ["chain_id", "number"]

def blockRow (number : Int) (hash : String) (baseFee : Cell) : Row where
  entries := [("chain_id", .bigint 1), ("number", .bigint number),
    ("hash", .text (JSON.units hash)), ("base_fee_per_gas", baseFee)]
  nodup := (by decide : ["chain_id", "number", "hash", "base_fee_per_gas"].Nodup)

/-- Two blocks of one store, stored in some order. -/
def portalBlocks : Table blockKeys where
  rows := [blockRow 8 "0xb" (.bigint 7), blockRow 3 "0xa" .null]
  keyed := by decide +kernel
  unique := by decide +kernel

def rpcBlocks : Table blockKeys where
  rows := [blockRow 3 "0xa" (.bigint 0), blockRow 5 "0xc" (.bigint 0), blockRow 8 "0xb" (.bigint 9)]
  keyed := by decide +kernel
  unique := by decide +kernel

theorem tableDiff_exact_blocks :
    ∃ as bs w,
      keysetPages (answerSmall portalBlocks) "blocks" blockKeys (fun i _ => MIN_BATCH + i) 3 none
        MIN_BATCH = some as ∧
      keysetPages (answerSmall rpcBlocks) "blocks" blockKeys (fun _ _ => MAX_BATCH) 4 none
        MIN_BATCH = some bs ∧
      as.Perm portalBlocks.rows ∧ bs.Perm rpcBlocks.rows ∧
      streamingDiff ["total_difficulty"] .blocks (keyFnFor blockKeys) as bs = some w ∧
      w.res.toCounts = ⟨true, 2, 3, 0, 1, 1, 0, 1, 0, 2⟩ := by
  obtain ⟨as, bs, w, pagesA, pagesB, _, permA, _, permB, _, walked, counts⟩ :=
    tableDiff_exact (answerSmall_serves (t := portalBlocks) (by decide) (by decide) "blocks")
      (answerSmall_serves (t := rpcBlocks) (by decide) (by decide) "blocks")
      (fun i _ => Nat.le_add_right MIN_BATCH i) (fun _ _ => (by decide : MIN_BATCH ≤ MAX_BATCH))
      (by decide : portalBlocks.rows.length < 3) (by decide : rpcBlocks.rows.length < 4)
      ["total_difficulty"] .blocks
  refine ⟨as, bs, w, pagesA, pagesB, permA, permB, walked, counts.trans ?_⟩
  decide +kernel

/-! ## All tables -/

structure TableSpec where
  table : String
  keys : List String
  mode : Mode
  drop : List String
  deriving DecidableEq, Repr

/-- The keys are the primary keys of the sync store. -/
def TABLES : List TableSpec :=
  [⟨"logs", ["chain_id", "block_number", "log_index"], .strict, []⟩,
    ⟨"transactions", ["chain_id", "block_number", "transaction_index"], .transactions, []⟩,
    ⟨"transaction_receipts", ["chain_id", "block_number", "transaction_index"], .strict, []⟩,
    ⟨"traces", ["chain_id", "block_number", "transaction_index", "trace_index"], .strict, []⟩,
    ⟨"blocks", ["chain_id", "number"], .blocks, ["total_difficulty"]⟩]

/-- Between two stores of the Portal a block of one side is a gap, on either side. -/
def resolveTableSpecs (strictBlocks : Bool) : List TableSpec :=
  if strictBlocks = false then TABLES
  else TABLES.map fun spec => if spec.table = "blocks" then { spec with mode := .strict } else spec

section

variable (quotient : Rat → Rat → Option Rat) (queryA queryB : Query) (fuel : Nat)

def diffTable (byteTarget : Rat) (spec : TableSpec) : Option Walk := do
  let as ← keysetRows quotient queryA spec.table spec.keys byteTarget fuel
  let bs ← keysetRows quotient queryB spec.table spec.keys byteTarget fuel
  streamingDiff spec.drop spec.mode (keyFnFor spec.keys) as bs

/-- Whether the stores diverge. -/
def diffStores (strictBlocks : Bool) (byteTarget : Option Rat) : Option Bool := do
  let walks ← (resolveTableSpecs strictBlocks).mapM
    (diffTable quotient queryA queryB fuel (byteTarget.getD DEFAULT_BYTE_TARGET))
  some (walks.any fun w => w.res.fail)

end

/-- The tables of a store, by name and key columns. -/
abbrev Store := String → (keys : List String) → Table keys

/-- A database that serves all tables, each smaller than the fuel. -/
structure ServesStore (query : Query) (store : Store) (fuel : Nat) : Prop where
  serves : ∀ spec ∈ TABLES, Serves query spec.table (store spec.table spec.keys)
  enough : ∀ spec ∈ TABLES, (store spec.table spec.keys).rows.length < fuel

theorem resolveTableSpecs_table {strictBlocks : Bool} {spec : TableSpec}
    (mem : spec ∈ resolveTableSpecs strictBlocks) :
    ∃ s ∈ TABLES, s.table = spec.table ∧ s.keys = spec.keys := by
  unfold resolveTableSpecs at mem
  cases strictBlocks with
  | false => exact ⟨spec, mem, rfl, rfl⟩
  | true =>
      rw [if_neg (by decide)] at mem
      obtain ⟨s, there, rfl⟩ := List.mem_map.1 mem
      refine ⟨s, there, ?_⟩
      split
      · exact ⟨rfl, rfl⟩
      · exact ⟨rfl, rfl⟩

/-- The verdict on one table. -/
def Diverges (A B : Store) (spec : TableSpec) : Prop :=
  Fails spec.drop spec.mode (A spec.table spec.keys).toMap (B spec.table spec.keys).toMap

section

variable {quotient : Rat → Rat → Option Rat} {queryA queryB : Query} {fuel : Nat} {A B : Store}

theorem diffTable_exact (servesA : ServesStore queryA A fuel) (servesB : ServesStore queryB B fuel)
    (byteTarget : Rat) {strictBlocks : Bool} {spec : TableSpec}
    (mem : spec ∈ resolveTableSpecs strictBlocks) :
    ∃ w, diffTable quotient queryA queryB fuel byteTarget spec = some w ∧
      (w.res.fail = true ↔ Diverges A B spec) := by
  obtain ⟨s, there, table, keys⟩ := resolveTableSpecs_table mem
  have pageA := servesA.serves s there
  have pageB := servesB.serves s there
  have enoughA := servesA.enough s there
  have enoughB := servesB.enough s there
  rw [table, keys] at pageA pageB enoughA enoughB
  have rowsA := pageA.keysetRows quotient byteTarget enoughA
  have rowsB := pageB.keysetRows quotient byteTarget enoughB
  obtain ⟨w, walked, counts, _⟩ := streamingDiff_sorted spec.drop spec.mode
    (A spec.table spec.keys).ordered_keyed (B spec.table spec.keys).ordered_keyed
    (A spec.table spec.keys).ordered_ascending (B spec.table spec.keys).ordered_ascending
  rw [Table.toMap_ordered, Table.toMap_ordered] at counts
  refine ⟨w, ?_, ?_⟩
  · unfold diffTable
    rw [rowsA, rowsB]
    exact walked
  · have verdict : w.res.fail = (compareMaps spec.drop spec.mode _ _).fail :=
      congrArg Counts.fail counts
    rw [verdict]
    exact decide_eq_true_iff

/-- The stores diverge if and only if the maps of one of their tables do. -/
theorem diffStores_exact (servesA : ServesStore queryA A fuel) (servesB : ServesStore queryB B fuel)
    (strictBlocks : Bool) (byteTarget : Option Rat) :
    ∃ fail, diffStores quotient queryA queryB fuel strictBlocks byteTarget = some fail ∧
      (fail = true ↔ ∃ spec ∈ resolveTableSpecs strictBlocks, Diverges A B spec) := by
  have each : ∀ specs : List TableSpec, specs ⊆ resolveTableSpecs strictBlocks →
      ∃ walks, specs.mapM (diffTable quotient queryA queryB fuel
          (byteTarget.getD DEFAULT_BYTE_TARGET)) = some walks ∧
        ((walks.any fun w => w.res.fail) = true ↔ ∃ spec ∈ specs, Diverges A B spec) := by
    intro specs
    induction specs with
    | nil => exact fun _ => ⟨[], rfl, by simp⟩
    | cons spec rest ih =>
        intro sub
        obtain ⟨w, diffed, verdict⟩ := diffTable_exact servesA servesB
          (byteTarget.getD DEFAULT_BYTE_TARGET) (sub List.mem_cons_self)
        obtain ⟨walks, all, verdicts⟩ := ih fun s mem => sub (List.mem_cons_of_mem spec mem)
        refine ⟨w :: walks, ?_, ?_⟩
        · rw [List.mapM_cons, diffed, all]
          rfl
        · rw [List.any_cons, Bool.or_eq_true, verdict, verdicts]
          simp
  obtain ⟨walks, all, verdicts⟩ := each _ fun _ mem => mem
  refine ⟨_, ?_, verdicts⟩
  unfold diffStores
  rw [all]
  rfl

end

/-- A store that has blocks only. -/
def onlyBlocks (t : Table blockKeys) : Store := fun _ keys =>
  if same : keys = blockKeys then same ▸ t else ⟨[], (fun _ none_ => nomatch none_), List.nodup_nil⟩

/-- What tells the statements for the blocks from the others. -/
def blocksStatement : List Char := "select * from ponder_sync.\"b".toList

/-- A database of such a store. -/
def answerBlocks (t : Table blockKeys) : Query := fun sql params =>
  if sql.toList.take blocksStatement.length = blocksStatement then answerSmall t sql params else []

theorem buildKeysetSql_start (table : String) (keys : List String) (hasCursor : Bool) (limit : Nat)
    (named : table.toList ≠ []) :
    (buildKeysetSql table keys hasCursor limit).toList.take blocksStatement.length =
      "select * from ponder_sync.\"".toList ++ table.toList.take 1 := by
  have start : ∃ rest, (buildKeysetSql table keys hasCursor limit).toList =
      "select * from ponder_sync.".toList ++ ("\"".toList ++ (table.toList ++ rest)) := by
    unfold buildKeysetSql quoted
    simp only [String.toList_append, List.append_assoc]
    exact ⟨_, rfl⟩
  obtain ⟨rest, is⟩ := start
  obtain ⟨c, cs, name⟩ := List.exists_cons_of_ne_nil named
  rw [is, name]
  rfl

theorem answerBlocks_serves {t : Table blockKeys} (few : t.rows.length ≤ MIN_BATCH) {fuel : Nat}
    (enough : t.rows.length < fuel) : ServesStore (answerBlocks t) (onlyBlocks t) fuel := by
  have small := answerSmall_serves few (by decide) "blocks"
  have empty : ∀ table keys, table.toList ≠ [] → table.toList.take 1 ≠ ['b'] → keys ≠ blockKeys →
      Serves (answerBlocks t) table (onlyBlocks t table keys) ∧
        (onlyBlocks t table keys).rows.length < fuel := by
    intro table keys named other differ
    have none_ : onlyBlocks t table keys = ⟨[], (fun _ none_ => nomatch none_), List.nodup_nil⟩ :=
      dif_neg differ
    have answers : ∀ hasCursor limit params,
        answerBlocks t (buildKeysetSql table keys hasCursor limit) params = [] := by
      intro hasCursor limit params
      unfold answerBlocks
      rw [buildKeysetSql_start table keys hasCursor limit named, if_neg]
      intro same
      exact other (List.append_cancel_left same)
    rw [none_]
    refine ⟨⟨fun limit _ => ?_, fun _ _ _ none_ => nomatch none_⟩, Nat.zero_lt_of_lt enough⟩
    rw [answers]
    simp [Table.ordered]
  have blocks : Serves (answerBlocks t) "blocks" (onlyBlocks t "blocks" blockKeys) ∧
      (onlyBlocks t "blocks" blockKeys).rows.length < fuel := by
    have same : onlyBlocks t "blocks" blockKeys = t := dif_pos rfl
    have answers : ∀ hasCursor limit params,
        answerBlocks t (buildKeysetSql "blocks" blockKeys hasCursor limit) params =
          answerSmall t (buildKeysetSql "blocks" blockKeys hasCursor limit) params := by
      intro hasCursor limit params
      unfold answerBlocks
      rw [buildKeysetSql_start "blocks" blockKeys hasCursor limit (by decide), if_pos (by decide)]
    rw [same]
    exact ⟨⟨fun limit le => (answers false limit []).trans (small.first limit le),
      fun limit le last mem => (answers true limit _).trans (small.next limit le last mem)⟩, enough⟩
  have each : ∀ spec ∈ TABLES, Serves (answerBlocks t) spec.table
      (onlyBlocks t spec.table spec.keys) ∧
        (onlyBlocks t spec.table spec.keys).rows.length < fuel := by
    intro spec mem
    simp only [TABLES, List.mem_cons, List.not_mem_nil, or_false] at mem
    rcases mem with rfl | rfl | rfl | rfl | rfl
    · exact empty _ _ (by decide) (by decide) (by decide)
    · exact empty _ _ (by decide) (by decide) (by decide)
    · exact empty _ _ (by decide) (by decide) (by decide)
    · exact empty _ _ (by decide) (by decide) (by decide)
    · exact blocks
  exact ⟨fun spec mem => (each spec mem).1, fun spec mem => (each spec mem).2⟩

theorem diffStores_exact_blocks :
    ∃ fail, diffStores (fun a b => some (a / b)) (answerBlocks portalBlocks)
        (answerBlocks rpcBlocks) 4 true none = some fail ∧
      (fail = true ↔ ∃ spec ∈ resolveTableSpecs true,
        Diverges (onlyBlocks portalBlocks) (onlyBlocks rpcBlocks) spec) :=
  diffStores_exact (answerBlocks_serves (by decide) (by decide))
    (answerBlocks_serves (by decide) (by decide)) true none

end PortalPonder.Harness
