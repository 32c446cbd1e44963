import PortalPonder.Assembly.Contents

/-!
# Sharded queries

The requests of a source split into shards when one body would be too large. The shards are served
one after the other, blocks come in pieces from several of them, and rows come twice. Nothing of
this reaches the store: the chunks of a sharded run and of an unsharded one have the same contents,
and chunks with the same contents assemble to the same rows.
-/

namespace PortalPonder.Assembly

open Historical (Children)

variable {F : Type}

/-! ## Chunks with the same contents -/

/-- The rows are rows of the chain. -/
structure Contents.OfChain (chain : Chain) (c : Contents) : Prop where
  txs : ∀ bn t, c.txs bn t → t ∈ (chain.block bn).transactions
  traces : ∀ bn tb, c.traceBlocks bn = some tb →
    tb.header = (chain.block bn).header ∧ tb.txs ⊆ (chain.block bn).transactions
  accountTxs : ∀ bn t, c.accountTxs bn t → t ∈ (chain.block bn).transactions

def Alike (chain : Chain) (a b : ChunkData) : Prop :=
  ∃ c : Contents, c.OfChain chain ∧ Has chain a c ∧ Has chain b c

theorem Alike.symm {chain : Chain} {a b : ChunkData} (alike : Alike chain a b) : Alike chain b a :=
  let ⟨c, ofChain, hasA, hasB⟩ := alike
  ⟨c, ofChain, hasB, hasA⟩

theorem alike_symm {chain : Chain} {xs ys : List ChunkData}
    (alike : List.Forall₂ (Alike chain) xs ys) : List.Forall₂ (Alike chain) ys xs :=
  List.Forall₂.flip (alike.imp fun _ _ pair => pair.symm)

section Rows

variable {chain : Chain} {xs ys : List ChunkData} {lo hi : Nat} {spec : Spec F}
  {upstream : TraceMatching F} {known : Children F Address}

theorem keptLog_alike (alike : List.Forall₂ (Alike chain) xs ys) {cd : ChunkData} {bn : Nat}
    {hdr : RawHeader} {raw : RawLog} (log : KeptLog xs lo hi spec known cd bn hdr raw) :
    hdr = (chain.block bn).header ∧ ∃ cd', KeptLog ys lo hi spec known cd' bn hdr raw ∧
      ∀ t ∈ cd.txsAt bn, t ∈ cd'.txsAt bn ∧ t ∈ (chain.block bn).transactions := by
  obtain ⟨cd', inChunks, c, ofChain, has, has'⟩ := exists_of_forall₂ alike cd log.chunk
  obtain ⟨isHeader, some_⟩ := (has.headers bn hdr).1 log.header
  obtain ⟨mem, kept⟩ := List.mem_filter.1 log.kept
  refine ⟨isHeader, cd', ⟨inChunks, (has'.headers bn hdr).2 ⟨isHeader, some_⟩, log.low, log.high,
    List.mem_filter.2 ⟨(has'.logs bn raw).2 ((has.logs bn raw).1 mem), kept⟩⟩, fun t mem => ?_⟩
  have inContents := (has.txs bn t).1 mem
  exact ⟨(has'.txs bn t).2 inContents, ofChain.txs bn t inContents⟩

theorem logParent_alike (alike : List.Forall₂ (Alike chain) xs ys) {t : RawTx} {hdr : RawHeader}
    (parent : LogParent xs lo hi spec known t hdr) :
    LogParent ys lo hi spec known t hdr ∧
      ∃ n, t ∈ (chain.block n).transactions ∧ hdr = (chain.block n).header := by
  obtain ⟨cd, bn, raw, h, log, mem, hash, same⟩ := parent
  obtain ⟨header, cd', log', txs⟩ := keptLog_alike alike log
  exact ⟨⟨cd', bn, raw, h, log', (txs t mem).1, hash, same⟩, bn, (txs t mem).2, header⟩

theorem accountTx_alike (alike : List.Forall₂ (Alike chain) xs ys) {bn : Nat} {t : RawTx}
    {hdr : RawHeader} (account : AccountTx xs lo hi spec known bn t hdr) :
    AccountTx ys lo hi spec known bn t hdr ∧ t ∈ (chain.block bn).transactions ∧
      hdr = (chain.block bn).header := by
  obtain ⟨need, cd, inChunks, tb, found, low, high, rfl, mem, matched⟩ := account
  obtain ⟨cd', inChunks', c, ofChain, has, has'⟩ := exists_of_forall₂ alike cd inChunks
  have inContents : c.accountTxs bn t := by
    rw [← has.accountTxs, found]
    exact mem
  have header := has.txHeaders bn tb found
  have there : t ∈ txsOf (cd'.txBlocks.get? bn) := (has'.accountTxs bn t).2 inContents
  refine ⟨?_, ofChain.accountTxs bn t inContents, header⟩
  cases found' : cd'.txBlocks.get? bn with
  | none =>
      rw [found'] at there
      cases there
  | some tb' =>
      rw [found'] at there
      exact ⟨need, cd', inChunks', tb', found', low, high,
        (has'.txHeaders bn tb' found').trans header.symm, there, matched⟩

theorem filteredHeader_alike (alike : List.Forall₂ (Alike chain) xs ys) {bn : Nat} {hdr : RawHeader}
    (header : FilteredHeader xs lo hi spec bn hdr) :
    FilteredHeader ys lo hi spec bn hdr ∧ hdr = (chain.block bn).header := by
  obtain ⟨need, cd, inChunks, found, low, high⟩ := header
  obtain ⟨cd', inChunks', c, _, has, has'⟩ := exists_of_forall₂ alike cd inChunks
  have inContents := (has.blockHeaders bn hdr).1 found
  exact ⟨⟨need, cd', inChunks', (has'.blockHeaders bn hdr).2 inContents, low, high⟩, inContents.1⟩

theorem keptTrace_alike (alike : List.Forall₂ (Alike chain) xs ys) {bn : Nat} {tb : TraceBlock}
    {t : RawTrace} (trace : KeptTrace upstream spec known xs lo hi bn tb t) :
    KeptTrace upstream spec known ys lo hi bn tb t ∧ tb.header = (chain.block bn).header ∧
      tb.txs ⊆ (chain.block bn).transactions := by
  obtain ⟨cd, inChunks, found⟩ := trace.chunk
  obtain ⟨cd', inChunks', c, ofChain, has, has'⟩ := exists_of_forall₂ alike cd inChunks
  rw [has.traceBlocks] at found
  exact ⟨{ trace with chunk := ⟨cd', inChunks', (has'.traceBlocks bn).trans found⟩ },
    ofChain.traces bn tb found⟩

theorem txOf_alike (alike : List.Forall₂ (Alike chain) xs ys) {t : RawTx} {hdr : RawHeader}
    (of : TxOf xs lo hi spec known t hdr) :
    TxOf ys lo hi spec known t hdr ∧
      ∃ n, t ∈ (chain.block n).transactions ∧ hdr = (chain.block n).header := by
  rcases of with parent | ⟨bn, account⟩
  · exact (logParent_alike alike parent).imp .inl id
  · obtain ⟨account, mem, header⟩ := accountTx_alike alike account
    exact ⟨.inr ⟨bn, account⟩, bn, mem, header⟩

theorem receiptOf_alike (alike : List.Forall₂ (Alike chain) xs ys) {t : RawTx} {hdr : RawHeader}
    (of : ReceiptOf xs lo hi spec upstream known t hdr) :
    ReceiptOf ys lo hi spec upstream known t hdr ∧
      ∃ n, t ∈ (chain.block n).transactions ∧ hdr = (chain.block n).header := by
  rcases of with (⟨need, parent⟩ | ⟨bn, account⟩) | ⟨need, bn, tb, raw, trace, parent, rfl⟩
  · obtain ⟨parent, place⟩ := logParent_alike alike parent
    exact ⟨.inl (.inl ⟨need, parent⟩), place⟩
  · obtain ⟨account, mem, header⟩ := accountTx_alike alike account
    exact ⟨.inl (.inr ⟨bn, account⟩), bn, mem, header⟩
  · obtain ⟨trace, header, inBlock⟩ := keptTrace_alike alike trace
    have mem : t ∈ tb.txs := List.mem_reverse.1 (List.mem_of_find?_eq_some parent)
    exact ⟨.inr ⟨need, bn, tb, raw, trace, parent, rfl⟩, bn, inBlock mem, header⟩

/-! ### The rows -/

/-- The hash tells the transaction and its block. -/
theorem Chain.same_tx {t t' : RawTx} {hdr hdr' : RawHeader} {h : Hash}
    (place : ∃ n, t ∈ (chain.block n).transactions ∧ hdr = (chain.block n).header)
    (place' : ∃ n, t' ∈ (chain.block n).transactions ∧ hdr' = (chain.block n).header)
    (hash : truthy t.hash = some h) (hash' : truthy t'.hash = some h) : t = t' ∧ hdr = hdr' := by
  obtain ⟨n, mem, rfl⟩ := place
  obtain ⟨m, mem', rfl⟩ := place'
  obtain ⟨rfl, same⟩ := chain.hash n m t mem t' mem' h hash hash'
  exact ⟨same, rfl⟩

theorem logs_subset (alike : List.Forall₂ (Alike chain) xs ys) :
    (assembleRange xs (lo, hi) spec upstream known).logs ⊆
      (assembleRange ys (lo, hi) spec upstream known).logs := by
  intro log mem
  obtain ⟨cd, bn, hdr, raw, kept, rfl⟩ := mem_sourceRows_logs.1 mem
  obtain ⟨_, cd', kept', _⟩ := keptLog_alike alike kept
  exact mem_sourceRows_logs.2 ⟨cd', bn, hdr, raw, kept', rfl⟩

theorem txs_subset (alike : List.Forall₂ (Alike chain) xs ys) :
    (assembleRange xs (lo, hi) spec upstream known).txs ⊆
      (assembleRange ys (lo, hi) spec upstream known).txs := by
  intro tx mem
  obtain ⟨t, hdr, of, rfl⟩ := assembleRange_tx_of mem
  obtain ⟨of', place⟩ := txOf_alike alike of
  obtain ⟨tx', mem', sameHash, unhashed⟩ := assembleRange_tx upstream of'
  cases hash : truthy t.hash with
  | none =>
      rw [← unhashed hash]
      exact mem'
  | some h =>
      obtain ⟨t', hdr', of'', rfl⟩ := assembleRange_tx_of mem'
      have place' := (txOf_alike (alike_symm alike) of'').2
      obtain ⟨rfl, rfl⟩ := Chain.same_tx place place' hash (sameHash.trans hash)
      exact mem'

theorem receipts_subset (alike : List.Forall₂ (Alike chain) xs ys) :
    (assembleRange xs (lo, hi) spec upstream known).receipts ⊆
      (assembleRange ys (lo, hi) spec upstream known).receipts := by
  intro r mem
  obtain ⟨t, hdr, of, hashed, rfl⟩ := assembleRange_receipt_of mem
  obtain ⟨h, hash⟩ := Option.isSome_iff_exists.1 hashed
  obtain ⟨of', place⟩ := receiptOf_alike alike of
  obtain ⟨r', mem', hash'⟩ := assembleRange_receipt of' hash
  obtain ⟨t', hdr', of'', _, rfl⟩ := assembleRange_receipt_of mem'
  have place' := (receiptOf_alike (alike_symm alike) of'').2
  obtain ⟨rfl, rfl⟩ := Chain.same_tx place place' hash hash'
  exact mem'

theorem traces_subset (alike : List.Forall₂ (Alike chain) xs ys) :
    (assembleRange xs (lo, hi) spec upstream known).traces ⊆
      (assembleRange ys (lo, hi) spec upstream known).traces := by
  intro row inRange
  obtain ⟨m, mem, rfl⟩ := List.mem_map.1 inRange
  refine List.mem_map.2 ⟨m, ?_, rfl⟩
  unfold matchedTraces at mem ⊢
  split at mem
  · next need =>
      rw [if_pos need]
      obtain ⟨cd, inChunks, mem⟩ := List.mem_flatMap.1 mem
      obtain ⟨⟨bn, tb⟩, entry, mem⟩ := List.mem_flatMap.1 mem
      obtain ⟨entry, range⟩ := List.mem_filter.1 entry
      obtain ⟨cd', inChunks', c, _, has, has'⟩ := exists_of_forall₂ alike cd inChunks
      have found : cd'.traceBlocks.get? bn = some tb := by
        rw [has'.traceBlocks, ← has.traceBlocks]
        exact cd.traceBlocks.get?_of_mem entry
      exact List.mem_flatMap.2 ⟨cd', inChunks', List.mem_flatMap.2
        ⟨(bn, tb), List.mem_filter.2 ⟨cd'.traceBlocks.mem_of_get? found, range⟩, mem⟩⟩
  · cases mem

/-- A block that has a row has the header of the chain. -/
theorem blockOf_alike (alike : List.Forall₂ (Alike chain) xs ys) {bn : Nat} {hdr : RawHeader}
    (of : BlockOf xs lo hi spec known bn hdr) : hdr = (chain.block bn).header := by
  rcases of with ⟨cd, raw, log⟩ | header | ⟨t, account⟩
  · exact (keptLog_alike alike log).1
  · exact (filteredHeader_alike alike header).2
  · exact (accountTx_alike alike account).2.2

theorem txAt_alike (alike : List.Forall₂ (Alike chain) xs ys) {bn : Nat} {t : RawTx}
    (at_ : TxAt xs lo hi spec known bn t) : t ∈ (chain.block bn).transactions := by
  rcases at_ with ⟨cd, hdr, raw, log, mem⟩ | ⟨hdr, account⟩
  · obtain ⟨_, _, _, txs⟩ := keptLog_alike alike log
    exact (txs t mem).2
  · exact (accountTx_alike alike account).2.1

theorem sourceRows_has_block (alike : List.Forall₂ (Alike chain) xs ys) {bn : Nat} {hdr : RawHeader}
    (of : BlockOf xs lo hi spec known bn hdr) :
    ((sourceRows ys lo hi spec known).blocksByNumber.get? bn).isSome := by
  rcases of with ⟨cd, raw, log⟩ | header | ⟨t, account⟩
  · obtain ⟨_, cd', log', _⟩ := keptLog_alike alike log
    exact sourceRows_log log'
  · exact sourceRows_header (filteredHeader_alike alike header).1
  · obtain ⟨account', mem, _⟩ := accountTx_alike alike account
    rcases (sourceRows_account account').block with here | ⟨h, seen, hash⟩
    · exact here
    · -- the transaction was seen before, and then in this block
      obtain ⟨n, t', at_, hash', here⟩ := sourceRows_housed h seen
      have mem' := txAt_alike (alike_symm alike) at_
      obtain ⟨rfl, _⟩ := chain.hash n bn t' mem' t mem h hash' hash
      exact here

theorem blocks_subset (alike : List.Forall₂ (Alike chain) xs ys) :
    (assembleRange xs (lo, hi) spec upstream known).blocks ⊆
      (assembleRange ys (lo, hi) spec upstream known).blocks := by
  intro b mem
  obtain ⟨⟨bn, b⟩, entry, rfl⟩ := List.mem_map.1 mem
  obtain ⟨hdr, origin, same⟩ := sourceRows_from.blocks bn b (OrdMap.get?_of_mem _ entry)
  obtain ⟨b', found⟩ := Option.isSome_iff_exists.1 (sourceRows_has_block alike origin)
  obtain ⟨hdr', origin', same'⟩ := sourceRows_from.blocks bn b' found
  have header := blockOf_alike alike origin
  have header' := blockOf_alike (alike_symm alike) origin'
  have equal : b' = b := by rw [same, same', header, header']
  exact List.mem_map.2 ⟨(bn, b'), OrdMap.mem_of_get? _ found, equal⟩

end Rows

/-! ## Calls -/

/-- A call that returns has drained all its streams into the chunk data. -/
theorem runStreams_ok {spec : Spec F} {upstream : TraceMatching F} {known : Children F Address}
    {streams : Streams} {cd cd' : ChunkData} {fromBlock toBlock : Nat}
    (ran : runStreams spec upstream known streams cd fromBlock toBlock = .ok cd') :
    streams.Complete spec ∧ cd' = streams.merged spec cd := by
  unfold runStreams at ran
  obtain ⟨run, drained, checked⟩ := ok_of_bind ran
  have complete := complete_of_drainAll drained
  obtain ⟨run', drained', is⟩ := drainAll_complete upstream known cd complete
  rw [drained] at drained'
  cases drained'
  refine ⟨complete, ?_⟩
  split at checked
  · cases checked
  · cases checked
    exact is.cd

theorem runStreams_merged {spec : Spec F} {streams : Streams} (complete : streams.Complete spec)
    (nothing : streams.recorded spec = []) (upstream : TraceMatching F) (known : Children F Address)
    (cd : ChunkData) (fromBlock toBlock : Nat) :
    runStreams spec upstream known streams cd fromBlock toBlock = .ok (streams.merged spec cd) := by
  obtain ⟨run, drained, is⟩ := drainAll_complete upstream known cd complete
  have noColumn : run.neededMissing = [] := by
    refine List.eq_nil_iff_forall_not_mem.2 fun e mem => ?_
    have recorded : e ∈ streams.recorded spec := (is.missing e).1 mem
    rw [nothing] at recorded
    cases recorded
  unfold runStreams
  rw [drained]
  show (if columnsMissing spec cd run = true then _ else _) = _
  rw [if_neg (by simp [columnsMissing, noColumn]), is.cd]
  rfl

/-- A stream that fails fails the call. -/
theorem runStreams_fails {spec : Spec F} {streams : Streams} {s : Streamed}
    (used : s ∈ streams.used spec) (failed : s.failed ≠ none) (upstream : TraceMatching F)
    (known : Children F Address) (cd : ChunkData) (fromBlock toBlock : Nat) :
    ∃ e, runStreams spec upstream known streams cd fromBlock toBlock = .error (.stream e) := by
  unfold runStreams
  cases drained : drainAll spec upstream known streams cd with
  | ok run => exact absurd (complete_of_drainAll drained s used) failed
  | error e =>
      obtain ⟨e', rfl⟩ := drainAll_error drained
      exact ⟨e', rfl⟩

theorem Contents.OfChain.call {chain : Chain} {c : Contents} (ofChain : c.OfChain chain)
    (spec : Spec F) (fromBlock toBlock : Nat) (logs : RawBlock → RawLog → Prop)
    (txShards : List TxShard) :
    (c.call chain spec fromBlock toBlock logs (TxAsked txShards)).OfChain chain where
  txs bn t mem := by
    rcases mem with before | ⟨_, inBlock, _⟩
    · exact ofChain.txs bn t before
    · exact inBlock
  traces bn tb found := by
    change (if _ then joinTraces (c.traceBlocks bn) (serveTraces (chain.block bn))
      else c.traceBlocks bn) = some tb at found
    split at found
    · unfold joinTraces at found
      split at found
      · exact ofChain.traces bn tb found
      · have served : (serveTraces (chain.block bn)).transactions ⊆ (chain.block bn).transactions :=
          fun _ mem => (List.mem_filter.1 mem).1
        cases before : c.traceBlocks bn with
        | none =>
            rw [before] at found
            cases found
            exact ⟨rfl, served⟩
        | some ex =>
            rw [before] at found
            cases found
            obtain ⟨header, txs⟩ := ofChain.traces bn ex before
            exact ⟨header, List.append_subset.2 ⟨txs, served⟩⟩
    · exact ofChain.traces bn tb found
  accountTxs bn t mem := by
    rcases mem with before | ⟨_, _, inBlock, _⟩
    · exact ofChain.accountTxs bn t before
    · exact inBlock

/-- Two chunks that were fetched by the same calls, once in shards and once in single queries. -/
inductive Built (chain : Chain) (spec : Spec F) (upstream : TraceMatching F) :
    ChunkData → ChunkData → Prop where
  | fresh : Built chain spec upstream createChunkData createChunkData
  | call {a b a' b' : ChunkData} (checks : CheckMode) (logSize : LogShard → Nat)
      (txSize : TxShard → Nat) (logKnown txKnown : Children F Address) {known : Children F Address}
      {fromBlock toBlock : Nat} {logShards : List LogShard} {txShards : List TxShard}
      {sharded single : Streams}
      (before : Built chain spec upstream a b)
      (logsSharded : spec.logQueryShards checks logSize logKnown = .ok logShards)
      (txsSharded : spec.txQueryShards checks txSize txKnown = .ok txShards)
      (askedSharded : Asked chain fromBlock toBlock logShards txShards sharded)
      (askedSingle : Asked chain fromBlock toBlock (spec.logQuery logKnown).toList
        (spec.txQuery txKnown).toList single)
      (ranSharded : runStreams spec upstream known sharded a fromBlock toBlock = .ok a')
      (ranSingle : runStreams spec upstream known single b fromBlock toBlock = .ok b') :
      Built chain spec upstream a' b'

theorem Built.alike {chain : Chain} {spec : Spec F} {upstream : TraceMatching F} {a b : ChunkData}
    (built : Built chain spec upstream a b) : Alike chain a b := by
  induction built with
  | fresh =>
      exact ⟨.empty, ⟨fun _ _ mem => mem.elim, fun _ _ found => (nomatch found),
        fun _ _ mem => mem.elim⟩,
        has_createChunkData chain, has_createChunkData chain⟩
  | @call a b a' b' checks logSize txSize logKnown txKnown known fromBlock toBlock logShards txShards
      sharded single before logsSharded txsSharded askedSharded askedSingle ranSharded ranSingle ih =>
      obtain ⟨c, ofChain, hasA, hasB⟩ := ih
      obtain ⟨completeA, rfl⟩ := runStreams_ok ranSharded
      obtain ⟨completeB, rfl⟩ := runStreams_ok ranSingle
      -- cutting and packing the requests changes nothing of what they ask for
      have logs : LogAsked logShards = LogAsked (spec.logQuery logKnown).toList := by
        funext blk l
        unfold LogAsked
        rw [FetchSpec.logQueryShards_matched logsSharded, FetchSpec.logQuery_flatten,
          mergedLogRequests_matched]
      have txs : TxAsked txShards = TxAsked (spec.txQuery txKnown).toList := by
        funext blk t
        unfold TxAsked
        rw [shardTxRequests_matched txsSharded, FetchSpec.txQuery_flatten]
      have sharded := hasA.call askedSharded completeA
      rw [logs, txs] at sharded
      exact ⟨_, ofChain.call spec fromBlock toBlock _ _, sharded, hasB.call askedSingle completeB⟩

/-- Sharded and unsharded chunks assemble to the same rows; a call that returns has drained every
shard, and one shard that fails fails the call. -/
theorem sharding_preserves {chain : Chain} {spec : Spec F} {upstream : TraceMatching F}
    {sharded single : List ChunkData}
    (built : List.Forall₂ (Built chain spec upstream) sharded single) (lo hi : Nat)
    (known : Children F Address) :
    (∀ log, log ∈ (assembleRange sharded (lo, hi) spec upstream known).logs ↔
      log ∈ (assembleRange single (lo, hi) spec upstream known).logs) ∧
    (∀ tx, tx ∈ (assembleRange sharded (lo, hi) spec upstream known).txs ↔
      tx ∈ (assembleRange single (lo, hi) spec upstream known).txs) ∧
    (∀ r, r ∈ (assembleRange sharded (lo, hi) spec upstream known).receipts ↔
      r ∈ (assembleRange single (lo, hi) spec upstream known).receipts) ∧
    (∀ b, b ∈ (assembleRange sharded (lo, hi) spec upstream known).blocks ↔
      b ∈ (assembleRange single (lo, hi) spec upstream known).blocks) ∧
    (∀ t, t ∈ (assembleRange sharded (lo, hi) spec upstream known).traces ↔
      t ∈ (assembleRange single (lo, hi) spec upstream known).traces) ∧
    (∀ streams cd cd' fromBlock toBlock,
      runStreams spec upstream known streams cd fromBlock toBlock = .ok cd' →
        (∀ s ∈ streams.used spec, s.failed = none) ∧ cd' = streams.merged spec cd) ∧
    ∀ (streams : Streams) (cd : ChunkData) (fromBlock toBlock : Nat),
      (∃ s ∈ streams.used spec, s.failed ≠ none) →
        ∃ e, runStreams spec upstream known streams cd fromBlock toBlock = .error (.stream e) := by
  have alike : List.Forall₂ (Alike chain) sharded single := built.imp fun _ _ pair => pair.alike
  have back := alike_symm alike
  refine ⟨fun log => ⟨fun mem => ?_, fun mem => ?_⟩, fun tx => ⟨fun mem => ?_, fun mem => ?_⟩,
    fun r => ⟨fun mem => ?_, fun mem => ?_⟩, fun b => ⟨fun mem => ?_, fun mem => ?_⟩,
    fun t => ⟨fun mem => ?_, fun mem => ?_⟩, fun streams cd cd' fromBlock toBlock ran => ?_,
    fun streams cd fromBlock toBlock ⟨s, used, failed⟩ => ?_⟩
  · exact logs_subset alike mem
  · exact logs_subset back mem
  · exact txs_subset alike mem
  · exact txs_subset back mem
  · exact receipts_subset alike mem
  · exact receipts_subset back mem
  · exact blocks_subset alike mem
  · exact blocks_subset back mem
  · exact traces_subset alike mem
  · exact traces_subset back mem
  · exact runStreams_ok ran
  · exact runStreams_fails used failed upstream known cd fromBlock toBlock

/-! ## Two shards of one block -/

def sampleShardSpec : Spec String := compileFetchSpec [
  .log ⟨.oneOf ["0xaa"], none, some ["0x01"], none, none, none, none⟩ true,
  .log ⟨.oneOf ["0xbb"], none, some ["0x02"], none, none, none, none⟩ true]

def sampleRawTx : RawTx := ⟨some 0, some "0xf0", some "0xcc", none, .undefined, []⟩

/-- One transaction with a log for each of the filters. -/
def sampleChain : Chain where
  block n := { header := ⟨n, "0xb", "0xa", 60, []⟩
               logs := if n = 5 then
                 [⟨"0xaa", some ["0x00", "0x01"], none, some "0xf0", some 0, some 0⟩,
                   ⟨"0xbb", some ["0x00", "0x02"], none, some "0xf0", some 0, some 1⟩] else []
               transactions := if n = 5 then [sampleRawTx] else []
               traces := [] }
  number _ := rfl
  hash n m t mem t' mem' h _ _ := by
    dsimp only at mem mem'
    split at mem
    · next isFive =>
        split at mem'
        · next isFive' =>
            exact ⟨isFive.trans isFive'.symm,
              (List.mem_singleton.1 mem).trans (List.mem_singleton.1 mem').symm⟩
        · cases mem'
    · cases mem

/-- A stream that answers a query over block 5. -/
def sampleAnswer (serve : RawBlock → RawBlock) : Streamed :=
  ⟨[[serve (sampleChain.block 5)]], [], none⟩

theorem sampleAnswer_answers (serve : RawBlock → RawBlock) (includeAllBlocks : Bool) :
    Answers sampleChain 5 5 serve includeAllBlocks (sampleAnswer serve) := by
  refine fun _ => ⟨[5], List.nodup_singleton 5, fun n mem => ?_, fun n low high _ => ?_, rfl⟩
  · rw [List.mem_singleton.1 mem]
    exact ⟨Nat.le_refl 5, Nat.le_refl 5⟩
  · exact List.mem_singleton.2 (Nat.le_antisymm high low)

def sampleCall (logShards : List LogShard) : Streams where
  logShards := logShards.map fun requests => sampleAnswer (serveLogs requests)
  traces := sampleAnswer serveTraces
  blocks := sampleAnswer serveHeader
  txShards := []

theorem sampleCall_asked (logShards : List LogShard) :
    Asked sampleChain 5 5 logShards [] (sampleCall logShards) where
  logs := by
    unfold sampleCall
    rw [List.forall₂_map_right_iff]
    exact List.forall₂_same.2 fun requests _ => sampleAnswer_answers (serveLogs requests) false
  traces := sampleAnswer_answers serveTraces false
  blocks := sampleAnswer_answers serveHeader true
  txs := .nil

theorem sampleCall_runs (logShards : List LogShard) :
    runStreams sampleShardSpec sampleMatching (fun _ => OrdMap.empty) (sampleCall logShards)
      createChunkData 5 5 = .ok ((sampleCall logShards).merged sampleShardSpec createChunkData) := by
  have used : (sampleCall logShards).used sampleShardSpec =
      logShards.map fun requests => sampleAnswer (serveLogs requests) := by
    show (sampleCall logShards).logShards ++ [] ++ [] ++ [] = _
    simp [sampleCall]
  refine runStreams_merged ?_ ?_ _ _ _ 5 5
  · intro s mem
    rw [used] at mem
    obtain ⟨requests, _, rfl⟩ := List.mem_map.1 mem
    rfl
  · unfold Streams.recorded
    rw [used, List.flatMap_map]
    exact List.flatMap_eq_nil_iff.2 fun _ _ => rfl

def sampleRequests : LogShard :=
  [⟨some ["0xaa"], none, some ["0x01"], none, none, true⟩,
    ⟨some ["0xbb"], none, some ["0x02"], none, none, true⟩]

/-- The receipt of a transaction that two shards deliver. -/
theorem sharding_preserves_sample :
    toSyncReceipt sampleRawTx (sampleChain.block 5).header ∈
      (assembleRange [(sampleCall [sampleRequests]).merged sampleShardSpec createChunkData] (5, 5)
        sampleShardSpec sampleMatching fun _ => OrdMap.empty).receipts := by
  have built : Built sampleChain sampleShardSpec sampleMatching
      ((sampleCall (sampleRequests.map fun r => [r])).merged sampleShardSpec createChunkData)
      ((sampleCall [sampleRequests]).merged sampleShardSpec createChunkData) :=
    .call .on (fun l => 200000 * l.length) (fun _ => 0) (fun _ => OrdMap.empty)
      (fun _ => OrdMap.empty) .fresh rfl rfl
      (sampleCall_asked _) (sampleCall_asked _) (sampleCall_runs _) (sampleCall_runs _)
  exact ((sharding_preserves (.cons built .nil) 5 5 fun _ => OrdMap.empty).2.2.1 _).1
    (by decide +kernel)

end PortalPonder.Assembly
