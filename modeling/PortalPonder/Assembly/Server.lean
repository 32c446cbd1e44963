import PortalPonder.Assembly.StreamRows

/-!
# What the server serves

A chain as the server has it, and what it answers to each kind of query: the logs that a request
matches with their transactions, every trace with its transaction, every header, the transactions
that a request matches. A stream has the blocks of its range that have rows, cut into batches
anywhere; a block without rows may come or not.
-/

namespace PortalPonder.Assembly

open Historical (Children)

variable {F : Type}

/-- The blocks by number; a hash is the hash of one transaction. -/
structure Chain where
  block : Nat → RawBlock
  number : ∀ n, (block n).header.number = n
  hash : ∀ n m, ∀ t ∈ (block n).transactions, ∀ t' ∈ (block m).transactions,
    ∀ h, truthy t.hash = some h → truthy t'.hash = some h → n = m ∧ t = t'

abbrev LogShard := List (LogRequest Address Hex)

abbrev TxShard := List (TxRequest Address)

/-- The log as the server matches it. -/
def servedLog (b : RawBlock) (l : RawLog) : ChainLog Address Hex := chainLog (toSyncLog l b.header)

def requestedLogs (requests : LogShard) (b : RawBlock) : List RawLog :=
  b.logs.filter fun l => requests.any fun r => requestMatched r (servedLog b l)

/-- The logs that a request matches, with their transactions. -/
def serveLogs (requests : LogShard) (b : RawBlock) : RawBlock where
  header := b.header
  logs := requestedLogs requests b
  transactions := b.transactions.filter fun t =>
    (requestedLogs requests b).any fun l => l.transactionIndex = t.transactionIndex
  traces := []

/-- All traces, with their transactions. -/
def serveTraces (b : RawBlock) : RawBlock where
  header := b.header
  logs := []
  transactions := b.transactions.filter fun t =>
    b.traces.any fun trace => trace.transactionIndex = t.transactionIndex
  traces := b.traces

def serveHeader (b : RawBlock) : RawBlock where
  header := b.header
  logs := []
  transactions := []
  traces := []

def requestedTxs (requests : TxShard) (b : RawBlock) : List RawTx :=
  b.transactions.filter fun t => requests.any fun r =>
    txRequestMatched r (t.from.map String.toLower) ((truthy t.to).map String.toLower)

def serveTxs (requests : TxShard) (b : RawBlock) : RawBlock where
  header := b.header
  logs := []
  transactions := requestedTxs requests b
  traces := []

def RawBlock.HasRows (b : RawBlock) : Prop := b.logs ≠ [] ∨ b.transactions ≠ [] ∨ b.traces ≠ []

/-- What a stream that ends without an error has yielded: every block of the range that the query has
to deliver, and any of the others, each once. -/
def Answers (chain : Chain) (fromBlock toBlock : Nat) (serve : RawBlock → RawBlock)
    (includeAllBlocks : Bool) (s : Streamed) : Prop :=
  s.failed = none → ∃ numbers : List Nat, numbers.Nodup ∧
    (∀ n ∈ numbers, fromBlock ≤ n ∧ n ≤ toBlock) ∧
    (∀ n, fromBlock ≤ n → n ≤ toBlock →
      includeAllBlocks = true ∨ (serve (chain.block n)).HasRows → n ∈ numbers) ∧
    s.blocks = numbers.map fun n => serve (chain.block n)

/-- The streams of a call answer its queries. -/
structure Asked (chain : Chain) (fromBlock toBlock : Nat) (logShards : List LogShard)
    (txShards : List TxShard) (streams : Streams) : Prop where
  logs : List.Forall₂ (fun requests s => Answers chain fromBlock toBlock (serveLogs requests) false s)
    logShards streams.logShards
  traces : Answers chain fromBlock toBlock serveTraces false streams.traces
  blocks : Answers chain fromBlock toBlock serveHeader true streams.blocks
  txs : List.Forall₂ (fun requests s => Answers chain fromBlock toBlock (serveTxs requests) false s)
    txShards streams.txShards

theorem exists_of_forall₂ {α β : Type} {R : α → β → Prop} {xs : List α} {ys : List β}
    (pairs : List.Forall₂ R xs ys) : ∀ x ∈ xs, ∃ y ∈ ys, R x y := by
  induction pairs with
  | nil => intro x mem; cases mem
  | cons pair _ ih =>
      intro x mem
      rcases List.mem_cons.1 mem with rfl | later
      · exact ⟨_, List.mem_cons_self, pair⟩
      · obtain ⟨y, mem, related⟩ := ih x later
        exact ⟨y, List.mem_cons_of_mem _ mem, related⟩

/-! ## The blocks of a stream with one number -/

section Answers

variable {chain : Chain} {fromBlock toBlock : Nat} {serve : RawBlock → RawBlock}
  {includeAllBlocks : Bool} {s : Streamed}

theorem mem_of_answers (answers : Answers chain fromBlock toBlock serve includeAllBlocks s)
    (ended : s.failed = none) {b : RawBlock} (mem : b ∈ s.blocks) :
    ∃ n, fromBlock ≤ n ∧ n ≤ toBlock ∧ b = serve (chain.block n) := by
  obtain ⟨numbers, _, range, _, blocks⟩ := answers ended
  rw [blocks] at mem
  obtain ⟨n, isNumber, rfl⟩ := List.mem_map.1 mem
  exact ⟨n, (range n isNumber).1, (range n isNumber).2, rfl⟩

theorem mem_answers (answers : Answers chain fromBlock toBlock serve includeAllBlocks s)
    (ended : s.failed = none) {n : Nat} (low : fromBlock ≤ n) (high : n ≤ toBlock)
    (delivered : includeAllBlocks = true ∨ (serve (chain.block n)).HasRows) :
    serve (chain.block n) ∈ s.blocks := by
  obtain ⟨numbers, _, _, all, blocks⟩ := answers ended
  rw [blocks]
  exact List.mem_map.2 ⟨n, all n low high delivered, rfl⟩

/-- At most one block of a stream has a number. -/
theorem filter_answers (answers : Answers chain fromBlock toBlock serve includeAllBlocks s)
    (ended : s.failed = none) (header : ∀ b, (serve b).header = b.header) (bn : Nat) :
    s.blocks.filter (fun b => b.header.number = bn) = [] ∧
        ¬ (fromBlock ≤ bn ∧ bn ≤ toBlock ∧
          (includeAllBlocks = true ∨ (serve (chain.block bn)).HasRows)) ∨
      s.blocks.filter (fun b => b.header.number = bn) = [serve (chain.block bn)] ∧
        fromBlock ≤ bn ∧ bn ≤ toBlock := by
  obtain ⟨numbers, nodup, range, all, blocks⟩ := answers ended
  have filtered : s.blocks.filter (fun b => b.header.number = bn) =
      (numbers.filter fun n => n = bn).map fun n => serve (chain.block n) := by
    rw [blocks, List.filter_map]
    congr 1
    refine List.filter_congr fun n _ => ?_
    show decide ((serve (chain.block n)).header.number = bn) = decide (n = bn)
    rw [header, chain.number]
  rw [filtered, List.filter_eq]
  by_cases mem : bn ∈ numbers
  · rw [List.count_eq_one_of_mem nodup mem]
    exact .inr ⟨rfl, range bn mem⟩
  · rw [List.count_eq_zero_of_not_mem mem]
    exact .inl ⟨rfl, fun ⟨low, high, delivered⟩ => mem (all bn low high delivered)⟩

end Answers

end PortalPonder.Assembly
