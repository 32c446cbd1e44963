import PortalPonder.Assembly.Range

/-!
# Which rows a range has

The rows of `assembleRange` by what they are made from: a log for each kept log, a transaction for
each delivered parent of a kept log and for each matched account transaction, a receipt for those
that ask for one and for the parents of matched traces, a block for each of them. Everything the
loops do is one of five steps, and each only adds rows.
-/

namespace PortalPonder.Assembly

open Historical (Children entriesInRange mem_entriesInRange)

variable {F : Type}

theorem mem_mapEntries {V : Type} {m : OrdMap Nat V} {lo hi bn : Nat} {v : V} :
    (bn, v) ∈ mapEntries m lo hi ↔ m.get? bn = some v ∧ lo ≤ bn ∧ bn ≤ hi := by
  unfold mapEntries
  simp only [List.mem_filterMap, mem_entriesInRange, Option.map_eq_some_iff, Prod.mk.injEq,
    OrdMap.mem_keys_iff]
  constructor
  · rintro ⟨bn', ⟨_, low, high⟩, v', found, rfl, rfl⟩
    exact ⟨found, low, high⟩
  · rintro ⟨found, low, high⟩
    exact ⟨bn, ⟨by rw [found]; rfl, low, high⟩, v, found, rfl, rfl⟩

/-! ## Where rows may come from -/

/-- What the rows of a range may be made from: transactions, receipts and blocks. -/
structure Origins where
  tx : RawTx → RawHeader → Prop
  receipt : RawTx → RawHeader → Prop
  block : Nat → RawHeader → Prop

namespace Rows

variable {origins : Origins} {rows later : Rows}

/-- Every row has an origin, and a hash that was seen has its row. -/
structure From (origins : Origins) (rows : Rows) : Prop where
  txs : ∀ tx ∈ rows.txs, ∃ t hdr, origins.tx t hdr ∧ tx = toSyncTransaction t hdr
  receipts : ∀ r ∈ rows.receipts, ∃ t hdr, origins.receipt t hdr ∧ (truthy t.hash).isSome ∧
    r = toSyncReceipt t hdr
  blocks : ∀ bn b, rows.blocksByNumber.get? bn = some b →
    ∃ hdr, origins.block bn hdr ∧ b = toSyncBlockHeader hdr
  seenTx : ∀ h ∈ rows.seenTx, ∃ tx ∈ rows.txs, truthy tx.hash = some h
  seenReceipt : ∀ h ∈ rows.seenReceipt, ∃ r ∈ rows.receipts, truthy r.transactionHash = some h

/-- Rows are only added. -/
structure Grows (rows later : Rows) : Prop where
  txs : rows.txs ⊆ later.txs
  seenTx : rows.seenTx ⊆ later.seenTx
  seenReceipt : rows.seenReceipt ⊆ later.seenReceipt
  blocks : ∀ bn, (rows.blocksByNumber.get? bn).isSome → (later.blocksByNumber.get? bn).isSome

theorem Grows.refl (rows : Rows) : rows.Grows rows :=
  ⟨fun _ mem => mem, fun _ mem => mem, fun _ mem => mem, fun _ some_ => some_⟩

theorem Grows.trans {a b c : Rows} (first : a.Grows b) (second : b.Grows c) : a.Grows c :=
  ⟨fun _ mem => second.txs (first.txs mem), fun _ mem => second.seenTx (first.seenTx mem),
    fun _ mem => second.seenReceipt (first.seenReceipt mem),
    fun bn some_ => second.blocks bn (first.blocks bn some_)⟩

theorem foldl_grows {α : Type} {step : Rows → α → Rows}
    (grows : ∀ (rows : Rows) a, rows.Grows (step rows a)) (items : List α) (rows : Rows) : rows.Grows (items.foldl step rows) :=
  Folds.foldl_keeps rows.Grows (fun s a _ before => before.trans (grows s a)) (.refl rows)

theorem From.empty (origins : Origins) : From origins Rows.empty where
  txs _ mem := by cases mem
  receipts _ mem := by cases mem
  blocks _ _ found := by cases found
  seenTx _ mem := by cases mem
  seenReceipt _ mem := by cases mem

/-! ### A receipt -/

@[simp] theorem pushReceipt_logs (rows : Rows) (raw : RawTx) (hdr : RawHeader) :
    (rows.pushReceipt raw hdr).logs = rows.logs := by
  unfold pushReceipt
  split
  · rfl
  · split <;> rfl

@[simp] theorem pushReceipt_txs (rows : Rows) (raw : RawTx) (hdr : RawHeader) :
    (rows.pushReceipt raw hdr).txs = rows.txs := by
  unfold pushReceipt
  split
  · rfl
  · split <;> rfl

@[simp] theorem pushReceipt_seenTx (rows : Rows) (raw : RawTx) (hdr : RawHeader) :
    (rows.pushReceipt raw hdr).seenTx = rows.seenTx := by
  unfold pushReceipt
  split
  · rfl
  · split <;> rfl

@[simp] theorem pushReceipt_blocks (rows : Rows) (raw : RawTx) (hdr : RawHeader) :
    (rows.pushReceipt raw hdr).blocksByNumber = rows.blocksByNumber := by
  unfold pushReceipt
  split
  · rfl
  · split <;> rfl

theorem pushReceipt_seen (rows : Rows) {raw : RawTx} {h : Hash} (hash : truthy raw.hash = some h)
    (hdr : RawHeader) : h ∈ (rows.pushReceipt raw hdr).seenReceipt := by
  unfold pushReceipt
  rw [hash]
  dsimp only
  split
  · next seen => exact seen
  · exact List.mem_cons_self

theorem pushReceipt_grows (rows : Rows) (raw : RawTx) (hdr : RawHeader) :
    rows.Grows (rows.pushReceipt raw hdr) where
  txs _ mem := by simpa using mem
  seenTx _ mem := by simpa using mem
  seenReceipt h mem := by
    unfold pushReceipt
    split
    · exact mem
    · split
      · exact mem
      · exact List.mem_cons_of_mem _ mem
  blocks _ some_ := by simpa using some_

theorem From.pushReceipt (sound : From origins rows) {raw : RawTx} {hdr : RawHeader}
    (origin : origins.receipt raw hdr) : From origins (rows.pushReceipt raw hdr) := by
  unfold Rows.pushReceipt
  split
  · exact sound
  · next h hash =>
      split
      · exact sound
      · refine { sound with receipts := fun r mem => ?_, seenReceipt := fun h' mem => ?_ }
        · rcases List.mem_append.1 mem with before | new
          · exact sound.receipts r before
          · exact ⟨raw, hdr, origin, Option.isSome_of_eq_some hash, List.mem_singleton.1 new⟩
        · rcases List.mem_cons.1 mem with rfl | before
          · exact ⟨toSyncReceipt raw hdr, by simp, hash⟩
          · obtain ⟨r, mem, same⟩ := sound.seenReceipt h' before
            exact ⟨r, List.mem_append_left _ mem, same⟩

/-! ### A transaction -/

/-- The transaction has its row, or its hash has one. -/
def HasTx (rows : Rows) (raw : RawTx) (hdr : RawHeader) : Prop :=
  match truthy raw.hash with
  | none => toSyncTransaction raw hdr ∈ rows.txs
  | some h => h ∈ rows.seenTx

theorem HasTx.mono {raw : RawTx} {hdr : RawHeader} (has : rows.HasTx raw hdr)
    (grows : rows.Grows later) : later.HasTx raw hdr := by
  unfold HasTx at has ⊢
  split at has
  · exact grows.txs has
  · exact grows.seenTx has

theorem hasTx_of_saw {raw : RawTx} (saw : rows.sawTx raw = true) (hdr : RawHeader) :
    rows.HasTx raw hdr := by
  unfold sawTx at saw
  unfold HasTx
  cases hash : truthy raw.hash with
  | none =>
      rw [hash] at saw
      cases saw
  | some h =>
      rw [hash] at saw
      simpa using saw

theorem pushTx_has (rows : Rows) (raw : RawTx) (hdr : RawHeader) :
    (rows.pushTx raw hdr).HasTx raw hdr := by
  unfold HasTx pushTx
  cases hash : truthy raw.hash with
  | none => simp
  | some h => simp

theorem pushTx_grows (rows : Rows) (raw : RawTx) (hdr : RawHeader) :
    rows.Grows (rows.pushTx raw hdr) where
  txs _ mem := List.mem_append_left _ mem
  seenTx _ mem := List.mem_append_right _ mem
  seenReceipt _ mem := mem
  blocks _ some_ := some_

theorem From.pushTx (sound : From origins rows) {raw : RawTx} {hdr : RawHeader}
    (origin : origins.tx raw hdr) : From origins (rows.pushTx raw hdr) := by
  refine { sound with txs := fun tx mem => ?_, seenTx := fun h mem => ?_ }
  · rcases List.mem_append.1 mem with before | new
    · exact sound.txs tx before
    · exact ⟨raw, hdr, origin, List.mem_singleton.1 new⟩
  · rcases List.mem_append.1 mem with new | before
    · exact ⟨toSyncTransaction raw hdr, by simp [Rows.pushTx], Option.mem_toList.1 new⟩
    · obtain ⟨tx, mem, same⟩ := sound.seenTx h before
      exact ⟨tx, List.mem_append_left _ mem, same⟩

/-! ### A block -/

theorem setBlock_grows (rows : Rows) (bn : Nat) (b : SyncBlockHeader) :
    rows.Grows { rows with blocksByNumber := rows.blocksByNumber.set bn b } where
  txs _ mem := mem
  seenTx _ mem := mem
  seenReceipt _ mem := mem
  blocks bn' some_ := by
    dsimp only
    rw [OrdMap.get?_set]
    split
    · rfl
    · exact some_

theorem setBlock_has (rows : Rows) (bn : Nat) (b : SyncBlockHeader) :
    ((rows.blocksByNumber.set bn b).get? bn).isSome := by
  rw [OrdMap.get?_set_self]
  rfl

theorem From.setBlock (sound : From origins rows) {bn : Nat} {hdr : RawHeader}
    (origin : origins.block bn hdr) :
    From origins { rows with
      blocksByNumber := rows.blocksByNumber.set bn (toSyncBlockHeader hdr) } := by
  refine { sound with blocks := fun bn' b found => ?_ }
  dsimp only at found
  rw [OrdMap.get?_set] at found
  split at found
  · next same =>
      subst same
      exact ⟨hdr, origin, (Option.some.inj found).symm⟩
  · exact sound.blocks bn' b found

end Rows

/-! ## The steps of the loops -/

section Steps

variable {spec : Spec F} {known : Children F Address} {origins : Origins} {rows : Rows}

theorem parentTx_grows (hdr : RawHeader) (hashes : List Hash) (rows : Rows) (tx : RawTx) :
    rows.Grows (parentTx spec hdr hashes rows tx) := by
  unfold parentTx
  split
  · dsimp only
    split
    · exact (rows.pushTx_grows tx hdr).trans ((rows.pushTx tx hdr).pushReceipt_grows tx hdr)
    · exact rows.pushTx_grows tx hdr
  · exact .refl rows

theorem headerBlock_grows (rows : Rows) (e : Nat × RawHeader) : rows.Grows (headerBlock rows e) := by
  unfold headerBlock
  split
  · exact .refl rows
  · exact rows.setBlock_grows e.1 _

theorem headerBlock_has (rows : Rows) (e : Nat × RawHeader) :
    ((headerBlock rows e).blocksByNumber.get? e.1).isSome := by
  unfold headerBlock
  split
  · next some_ => exact some_
  · exact rows.setBlock_has e.1 _

theorem accountTx_grows (bn : Nat) (header : RawHeader) (rows : Rows) (raw : RawTx) :
    rows.Grows (accountTx spec known bn header rows raw) := by
  unfold accountTx
  split
  · have receipt := rows.pushReceipt_grows raw header
    dsimp only
    split
    · exact receipt
    · exact receipt.trans (((rows.pushReceipt raw header).pushTx_grows raw header).trans
        (((rows.pushReceipt raw header).pushTx raw header).setBlock_grows bn _))
  · exact .refl rows

theorem logBlock_grows (rows : Rows) (e : ChunkData × Nat × RawHeader) :
    rows.Grows (logBlock spec known rows e) := by
  unfold logBlock
  dsimp only
  split
  · exact .refl rows
  · refine Rows.Grows.trans ?_ (Rows.foldl_grows (parentTx_grows e.2.2 _) _ _)
    exact ⟨fun _ mem => mem, fun _ mem => mem, fun _ mem => mem,
      (rows.setBlock_grows e.2.1 (toSyncBlockHeader e.2.2)).blocks⟩

theorem txBlock_grows (rows : Rows) (e : Nat × TxBlock) : rows.Grows (txBlock spec known rows e) :=
  Rows.foldl_grows (accountTx_grows e.1 e.2.header) _ rows

/-- A parent transaction, if one of the kept logs is of it. -/
theorem parentTx_has {hdr : RawHeader} {hashes : List Hash} {tx : RawTx} {h : Hash}
    (hash : truthy tx.hash = some h) (kept : h ∈ hashes) (rows : Rows) :
    (parentTx spec hdr hashes rows tx).HasTx tx hdr := by
  unfold parentTx
  have here : ((truthy tx.hash).any fun h => h ∈ hashes) = true := by
    rw [hash]
    simpa using kept
  by_cases saw : rows.sawTx tx = true
  · rw [here, saw]
    exact Rows.hasTx_of_saw saw hdr
  · rw [here, Bool.eq_false_iff.2 saw]
    show (if spec.needReceipts then (rows.pushTx tx hdr).pushReceipt tx hdr
      else rows.pushTx tx hdr).HasTx tx hdr
    split
    · exact (rows.pushTx_has tx hdr).mono ((rows.pushTx tx hdr).pushReceipt_grows tx hdr)
    · exact rows.pushTx_has tx hdr

theorem parentTx_from (sound : Rows.From origins rows) {hdr : RawHeader} {hashes : List Hash}
    {tx : RawTx}
    (origin : ∀ h, truthy tx.hash = some h → h ∈ hashes →
      origins.tx tx hdr ∧ (spec.needReceipts = true → origins.receipt tx hdr)) :
    Rows.From origins (Assembly.parentTx spec hdr hashes rows tx) := by
  unfold Assembly.parentTx
  split
  · next kept =>
      rw [Bool.and_eq_true, Option.any_eq_true] at kept
      obtain ⟨⟨h, hash, mem⟩, _⟩ := kept
      obtain ⟨isTx, isReceipt⟩ := origin h hash (of_decide_eq_true mem)
      dsimp only
      split
      · next receipts => exact (sound.pushTx isTx).pushReceipt (isReceipt receipts)
      · exact sound.pushTx isTx
  · exact sound

theorem headerBlock_from (sound : Rows.From origins rows) {e : Nat × RawHeader}
    (origin : origins.block e.1 e.2) : Rows.From origins (Assembly.headerBlock rows e) := by
  unfold Assembly.headerBlock
  split
  · exact sound
  · exact sound.setBlock origin

theorem accountTx_from (sound : Rows.From origins rows) {bn : Nat} {header : RawHeader} {raw : RawTx}
    (origin : txFilterMatched spec known (toSyncTransaction raw header) bn = true →
      origins.tx raw header ∧ origins.receipt raw header ∧ origins.block bn header) :
    Rows.From origins (Assembly.accountTx spec known bn header rows raw) := by
  unfold Assembly.accountTx
  split
  · next matched =>
      obtain ⟨isTx, isReceipt, isBlock⟩ := origin matched
      dsimp only
      split
      · exact sound.pushReceipt isReceipt
      · exact ((sound.pushReceipt isReceipt).pushTx isTx).setBlock isBlock
  · exact sound

/-- What the rows have for an account transaction: its row, its receipt, and its block unless the
transaction was seen before. -/
structure HasAccount (rows : Rows) (bn : Nat) (header : RawHeader) (raw : RawTx) : Prop where
  tx : rows.HasTx raw header
  receipt : ∀ h, truthy raw.hash = some h → h ∈ rows.seenReceipt
  block : (rows.blocksByNumber.get? bn).isSome ∨ ∃ h ∈ rows.seenTx, truthy raw.hash = some h

theorem HasAccount.mono {later : Rows} {bn : Nat} {header : RawHeader} {raw : RawTx}
    (has : HasAccount rows bn header raw) (grows : rows.Grows later) :
    HasAccount later bn header raw where
  tx := has.tx.mono grows
  receipt h hash := grows.seenReceipt (has.receipt h hash)
  block := has.block.imp (grows.blocks bn) fun ⟨h, seen, hash⟩ => ⟨h, grows.seenTx seen, hash⟩

theorem accountTx_has {bn : Nat} {header : RawHeader} {raw : RawTx}
    (matched : txFilterMatched spec known (toSyncTransaction raw header) bn = true) (rows : Rows) :
    HasAccount (Assembly.accountTx spec known bn header rows raw) bn header raw := by
  unfold Assembly.accountTx
  rw [if_pos matched]
  dsimp only
  split
  · next saw =>
      obtain ⟨h, hash, seen⟩ := (Option.any_eq_true _ _).1 saw
      exact ⟨Rows.hasTx_of_saw saw header, fun h hash => rows.pushReceipt_seen hash header,
        .inr ⟨h, of_decide_eq_true seen, hash⟩⟩
  · exact ⟨(rows.pushReceipt raw header).pushTx_has raw header,
      fun h hash => rows.pushReceipt_seen hash header, .inl (Rows.setBlock_has _ bn _)⟩

theorem parentTx_seen {hdr : RawHeader} {hashes : List Hash} {tx : RawTx} {h : Hash}
    (seen : h ∈ (Assembly.parentTx spec hdr hashes rows tx).seenTx) :
    h ∈ rows.seenTx ∨ truthy tx.hash = some h := by
  have pushed : ∀ {h}, h ∈ (rows.pushTx tx hdr).seenTx → h ∈ rows.seenTx ∨ truthy tx.hash = some h := by
    intro h mem
    rcases List.mem_append.1 mem with new | before
    · exact .inr (Option.mem_toList.1 new)
    · exact .inl before
  unfold Assembly.parentTx at seen
  split at seen
  · dsimp only at seen
    split at seen
    · rw [Rows.pushReceipt_seenTx] at seen
      exact pushed seen
    · exact pushed seen
  · exact .inl seen

theorem headerBlock_seenTx (rows : Rows) (e : Nat × RawHeader) :
    (Assembly.headerBlock rows e).seenTx = rows.seenTx := by
  unfold Assembly.headerBlock
  split <;> rfl

theorem accountTx_seen {bn : Nat} {header : RawHeader} {raw : RawTx} {h : Hash}
    (seen : h ∈ (Assembly.accountTx spec known bn header rows raw).seenTx) :
    h ∈ rows.seenTx ∨
      txFilterMatched spec known (toSyncTransaction raw header) bn = true ∧
        truthy raw.hash = some h ∧
        ((Assembly.accountTx spec known bn header rows raw).blocksByNumber.get? bn).isSome := by
  unfold Assembly.accountTx at seen ⊢
  split at seen
  · next matched =>
      dsimp only at seen ⊢
      split at seen
      · exact .inl (by simpa using seen)
      · next new =>
          rw [if_pos matched, if_neg new]
          rcases List.mem_append.1 seen with hash | before
          · exact .inr ⟨matched, Option.mem_toList.1 hash, Rows.setBlock_has _ bn _⟩
          · exact .inl (by simpa using before)
  · exact .inl seen

/-- In the log loop with receipts, every transaction seen has its receipt. -/
def Receipted (spec : Spec F) (rows : Rows) : Prop :=
  spec.needReceipts = true → ∀ h ∈ rows.seenTx, h ∈ rows.seenReceipt

theorem Receipted.parentTx (all : Receipted spec rows) (hdr : RawHeader) (hashes : List Hash)
    (tx : RawTx) : Receipted spec (Assembly.parentTx spec hdr hashes rows tx) := by
  unfold Assembly.parentTx
  split
  · dsimp only
    intro receipts h mem
    rw [if_pos receipts] at mem ⊢
    rw [Rows.pushReceipt_seenTx] at mem
    rcases List.mem_append.1 mem with new | before
    · exact (rows.pushTx tx hdr).pushReceipt_seen (Option.mem_toList.1 new) hdr
    · exact ((rows.pushTx tx hdr).pushReceipt_grows tx hdr).seenReceipt (all receipts h before)
  · exact all

end Steps

/-! ## The rows of the sources -/

section Sources

variable (chunks : List ChunkData) (lo hi : Nat) (spec : Spec F) (known : Children F Address)

/-- A log of the range that is kept. -/
structure KeptLog (cd : ChunkData) (bn : Nat) (hdr : RawHeader) (raw : RawLog) : Prop where
  chunk : cd ∈ chunks
  header : cd.headers.get? bn = some hdr
  low : lo ≤ bn
  high : bn ≤ hi
  kept : raw ∈ keptLogs spec known cd bn hdr

/-- A delivered transaction with the hash of a kept log. -/
def LogParent (t : RawTx) (hdr : RawHeader) : Prop :=
  ∃ cd bn raw h, KeptLog chunks lo hi spec known cd bn hdr raw ∧
    t ∈ (cd.txs.get? bn).getD [] ∧ truthy t.hash = some h ∧ truthy raw.transactionHash = some h

/-- A delivered account transaction of the range that matches. -/
def AccountTx (bn : Nat) (t : RawTx) (hdr : RawHeader) : Prop :=
  spec.needTxFilter = true ∧ ∃ cd ∈ chunks, ∃ tb, cd.txBlocks.get? bn = some tb ∧ lo ≤ bn ∧
    bn ≤ hi ∧ tb.header = hdr ∧ t ∈ tb.txs ∧
    txFilterMatched spec known (toSyncTransaction t hdr) bn = true

/-- The header of a block that a block filter asks for. -/
def FilteredHeader (bn : Nat) (hdr : RawHeader) : Prop :=
  spec.needBlocks = true ∧ ∃ cd ∈ chunks, cd.blockHeaders.get? bn = some hdr ∧ lo ≤ bn ∧ bn ≤ hi

def origins : Origins where
  tx t hdr := LogParent chunks lo hi spec known t hdr ∨ ∃ bn, AccountTx chunks lo hi spec known bn t hdr
  receipt t hdr := spec.needReceipts = true ∧ LogParent chunks lo hi spec known t hdr ∨
    ∃ bn, AccountTx chunks lo hi spec known bn t hdr
  block bn hdr := (∃ cd raw, KeptLog chunks lo hi spec known cd bn hdr raw) ∨
    FilteredHeader chunks lo hi spec bn hdr ∨ ∃ t, AccountTx chunks lo hi spec known bn t hdr

def logEntries : List (ChunkData × Nat × RawHeader) :=
  chunks.flatMap fun cd => (mapEntries cd.headers lo hi).map fun e => (cd, e)

def logRows : Rows := (logEntries chunks lo hi).foldl (logBlock spec known) Rows.empty

def headerRows : Rows :=
  if spec.needBlocks then
    (chunks.flatMap fun cd => mapEntries cd.blockHeaders lo hi).foldl headerBlock
      (logRows chunks lo hi spec known)
  else logRows chunks lo hi spec known

variable {chunks lo hi spec known}

theorem sourceRows_eq : sourceRows chunks lo hi spec known =
    if spec.needTxFilter then
      (chunks.flatMap fun cd => mapEntries cd.txBlocks lo hi).foldl (txBlock spec known)
        (headerRows chunks lo hi spec known)
    else headerRows chunks lo hi spec known := rfl

theorem mem_logEntries {cd : ChunkData} {bn : Nat} {hdr : RawHeader} :
    (cd, bn, hdr) ∈ logEntries chunks lo hi ↔
      cd ∈ chunks ∧ cd.headers.get? bn = some hdr ∧ lo ≤ bn ∧ bn ≤ hi := by
  unfold logEntries
  simp only [List.mem_flatMap, List.mem_map, Prod.mk.injEq, Prod.exists]
  constructor
  · rintro ⟨cd', inChunks, bn', hdr', mem, rfl, rfl, rfl⟩
    exact ⟨inChunks, mem_mapEntries.1 mem⟩
  · rintro ⟨inChunks, found⟩
    exact ⟨cd, inChunks, bn, hdr, mem_mapEntries.2 found, rfl, rfl, rfl⟩

theorem logBlock_from {rows : Rows} (sound : Rows.From (origins chunks lo hi spec known) rows)
    {e : ChunkData × Nat × RawHeader} (mem : e ∈ logEntries chunks lo hi) :
    Rows.From (origins chunks lo hi spec known) (logBlock spec known rows e) := by
  obtain ⟨cd, bn, hdr⟩ := e
  obtain ⟨inChunks, header, low, high⟩ := mem_logEntries.1 mem
  unfold logBlock
  dsimp only
  split
  · exact sound
  · next some_ =>
      obtain ⟨raw, kept⟩ := List.exists_mem_of_ne_nil _ (by simpa using some_)
      have isLog : KeptLog chunks lo hi spec known cd bn hdr raw := ⟨inChunks, header, low, high, kept⟩
      have withBlock := sound.setBlock
        (show (origins chunks lo hi spec known).block bn hdr from .inl ⟨cd, raw, isLog⟩)
      refine Folds.foldl_keeps (Rows.From (origins chunks lo hi spec known))
        (fun s tx inTxs sound => parentTx_from sound fun h hash mem => ?_) { withBlock with }
      obtain ⟨raw', kept', same⟩ := List.mem_filterMap.1 mem
      have parent : LogParent chunks lo hi spec known tx hdr :=
        ⟨cd, bn, raw', h, ⟨inChunks, header, low, high, kept'⟩, inTxs, hash, same⟩
      exact ⟨.inl parent, fun receipts => .inl ⟨receipts, parent⟩⟩

theorem logRows_from : Rows.From (origins chunks lo hi spec known) (logRows chunks lo hi spec known) :=
  Folds.foldl_keeps (Rows.From (origins chunks lo hi spec known))
    (fun _ _ mem sound => logBlock_from sound mem) (.empty _)

theorem headerRows_from :
    Rows.From (origins chunks lo hi spec known) (headerRows chunks lo hi spec known) := by
  unfold headerRows
  split
  · next blocks =>
      refine Folds.foldl_keeps (Rows.From (origins chunks lo hi spec known))
        (fun s e mem sound => headerBlock_from sound ?_) logRows_from
      obtain ⟨cd, inChunks, found⟩ := List.mem_flatMap.1 mem
      exact .inr (.inl ⟨blocks, cd, inChunks, mem_mapEntries.1 found⟩)
  · exact logRows_from

/-- Every row of the sources is made from a row that was delivered and is kept. -/
theorem sourceRows_from :
    Rows.From (origins chunks lo hi spec known) (sourceRows chunks lo hi spec known) := by
  rw [sourceRows_eq]
  split
  · next filters =>
      refine Folds.foldl_keeps (Rows.From (origins chunks lo hi spec known))
        (fun s e mem sound => ?_) headerRows_from
      obtain ⟨cd, inChunks, found⟩ := List.mem_flatMap.1 mem
      obtain ⟨found, low, high⟩ := mem_mapEntries.1 found
      refine Folds.foldl_keeps (Rows.From (origins chunks lo hi spec known))
        (fun s raw inTxs sound => accountTx_from sound fun matched => ?_) sound
      have account : AccountTx chunks lo hi spec known e.1 raw e.2.header :=
        ⟨filters, cd, inChunks, e.2, found, low, high, rfl, inTxs, matched⟩
      exact ⟨.inr ⟨e.1, account⟩, .inr ⟨e.1, account⟩, .inr (.inr ⟨raw, account⟩)⟩
  · exact headerRows_from

/-! ### All rows are there -/

theorem headerRows_grows :
    (logRows chunks lo hi spec known).Grows (headerRows chunks lo hi spec known) := by
  unfold headerRows
  split
  · exact Rows.foldl_grows headerBlock_grows _ _
  · exact .refl _

theorem sourceRows_grows :
    (headerRows chunks lo hi spec known).Grows (sourceRows chunks lo hi spec known) := by
  rw [sourceRows_eq]
  split
  · exact Rows.foldl_grows txBlock_grows _ _
  · exact .refl _

theorem logBlock_receipted {rows : Rows} (all : Receipted spec rows)
    (e : ChunkData × Nat × RawHeader) : Receipted spec (logBlock spec known rows e) := by
  unfold logBlock
  dsimp only
  split
  · exact all
  · exact Folds.foldl_keeps (Receipted spec) (fun s tx _ all => Receipted.parentTx all e.2.2 _ tx) all

theorem logRows_receipted : Receipted spec (logRows chunks lo hi spec known) :=
  Folds.foldl_keeps (Receipted spec) (fun _ e _ all => logBlock_receipted all e)
    fun _ _ mem => by cases mem

/-- A kept log has its block, and its delivered parents have their rows. -/
theorem logBlock_has {cd : ChunkData} {bn : Nat} {hdr : RawHeader} {raw : RawLog}
    (kept : raw ∈ keptLogs spec known cd bn hdr) (rows : Rows) :
    ((logBlock spec known rows (cd, bn, hdr)).blocksByNumber.get? bn).isSome ∧
      ∀ t ∈ (cd.txs.get? bn).getD [], ∀ h, truthy t.hash = some h →
        truthy raw.transactionHash = some h →
        (logBlock spec known rows (cd, bn, hdr)).HasTx t hdr := by
  have some_ : (keptLogs spec known cd bn hdr).isEmpty = false := by
    rw [List.isEmpty_eq_false_iff]
    exact List.ne_nil_of_mem kept
  unfold logBlock
  dsimp only
  rw [some_]
  constructor
  · refine (Rows.foldl_grows (parentTx_grows hdr _) _ _).blocks bn ?_
    exact rows.setBlock_has bn _
  · intro t mem h hash same
    have inHashes : h ∈ (keptLogs spec known cd bn hdr).filterMap fun raw =>
        truthy raw.transactionHash := List.mem_filterMap.2 ⟨raw, kept, same⟩
    let Q : RawTx → Rows → Prop := fun t rows => truthy t.hash = some h → rows.HasTx t hdr
    exact Folds.foldl_does (fun _ => True) Q (fun _ _ _ _ => trivial)
      (fun s t _ _ hash => parentTx_has hash inHashes s)
      (fun s t b _ (has : Q t s) hash => (has hash).mono (parentTx_grows hdr _ s b)) trivial
      t mem hash

theorem logRows_has {cd : ChunkData} {bn : Nat} {hdr : RawHeader} {raw : RawLog}
    (log : KeptLog chunks lo hi spec known cd bn hdr raw) :
    ((logRows chunks lo hi spec known).blocksByNumber.get? bn).isSome ∧
      ∀ t ∈ (cd.txs.get? bn).getD [], ∀ h, truthy t.hash = some h →
        truthy raw.transactionHash = some h → (logRows chunks lo hi spec known).HasTx t hdr := by
  have mem := mem_logEntries.2 ⟨log.chunk, log.header, log.low, log.high⟩
  let Q : ChunkData × Nat × RawHeader → Rows → Prop := fun e rows =>
    ∀ raw ∈ keptLogs spec known e.1 e.2.1 e.2.2, (rows.blocksByNumber.get? e.2.1).isSome ∧
      ∀ t ∈ (e.1.txs.get? e.2.1).getD [], ∀ h, truthy t.hash = some h →
        truthy raw.transactionHash = some h → rows.HasTx t e.2.2
  have all : ∀ e ∈ logEntries chunks lo hi, Q e (logRows chunks lo hi spec known) :=
    Folds.foldl_does (fun _ => True) Q (fun _ _ _ _ => trivial)
      (fun rows _ _ _ raw kept => logBlock_has kept rows)
      (fun rows _ b _ has raw kept =>
        have grows := logBlock_grows rows b
        ⟨grows.blocks _ (has raw kept).1,
          fun t inTxs h hash same => ((has raw kept).2 t inTxs h hash same).mono grows⟩)
      trivial
  exact all (cd, bn, hdr) mem raw log.kept

/-- The parent of a kept log has its row, and its receipt if receipts are wanted. -/
theorem sourceRows_parent {t : RawTx} {hdr : RawHeader} (parent : LogParent chunks lo hi spec known t hdr) :
    (sourceRows chunks lo hi spec known).HasTx t hdr ∧
      (spec.needReceipts = true → ∀ h, truthy t.hash = some h →
        h ∈ (sourceRows chunks lo hi spec known).seenReceipt) := by
  obtain ⟨cd, bn, raw, h, log, mem, hash, same⟩ := parent
  have has := (logRows_has log).2 t mem h hash same
  have grows : (logRows chunks lo hi spec known).Grows (sourceRows chunks lo hi spec known) :=
    headerRows_grows.trans sourceRows_grows
  refine ⟨has.mono grows, fun receipts h' hash' => grows.seenReceipt ?_⟩
  refine logRows_receipted receipts h' ?_
  unfold Rows.HasTx at has
  rw [hash'] at has
  exact has

theorem sourceRows_log {cd : ChunkData} {bn : Nat} {hdr : RawHeader} {raw : RawLog}
    (log : KeptLog chunks lo hi spec known cd bn hdr raw) :
    ((sourceRows chunks lo hi spec known).blocksByNumber.get? bn).isSome :=
  (headerRows_grows.trans sourceRows_grows).blocks bn (logRows_has log).1

theorem sourceRows_header {bn : Nat} {hdr : RawHeader} (header : FilteredHeader chunks lo hi spec bn hdr) :
    ((sourceRows chunks lo hi spec known).blocksByNumber.get? bn).isSome := by
  obtain ⟨blocks, cd, inChunks, found⟩ := header
  refine sourceRows_grows.blocks bn ?_
  unfold headerRows
  rw [if_pos blocks]
  have mem : (bn, hdr) ∈ chunks.flatMap fun cd => mapEntries cd.blockHeaders lo hi :=
    List.mem_flatMap.2 ⟨cd, inChunks, mem_mapEntries.2 found⟩
  exact Folds.foldl_does (fun _ => True)
    (fun (e : Nat × RawHeader) (rows : Rows) => (rows.blocksByNumber.get? e.1).isSome)
    (fun _ _ _ _ => trivial) (fun rows e _ _ => headerBlock_has rows e)
    (fun rows e b _ has => (headerBlock_grows rows b).blocks e.1 has) trivial (bn, hdr) mem

theorem sourceRows_account {bn : Nat} {t : RawTx} {hdr : RawHeader}
    (account : AccountTx chunks lo hi spec known bn t hdr) :
    HasAccount (sourceRows chunks lo hi spec known) bn hdr t := by
  obtain ⟨filters, cd, inChunks, tb, found, low, high, rfl, inTxs, matched⟩ := account
  rw [sourceRows_eq, if_pos filters]
  have mem : (bn, tb) ∈ chunks.flatMap fun cd => mapEntries cd.txBlocks lo hi :=
    List.mem_flatMap.2 ⟨cd, inChunks, mem_mapEntries.2 ⟨found, low, high⟩⟩
  -- what one transaction brings about stays, within its block and after it
  let Q : Nat × TxBlock → RawTx → Rows → Prop := fun e t rows =>
    txFilterMatched spec known (toSyncTransaction t e.2.header) e.1 = true →
      HasAccount rows e.1 e.2.header t
  have does : ∀ (rows : Rows) e, ∀ t ∈ e.2.txs, Q e t (txBlock spec known rows e) := by
    intro rows e
    exact Folds.foldl_does (fun _ => True) (Q e) (fun _ _ _ _ => trivial)
      (fun s t _ _ matched => accountTx_has matched s)
      (fun s t b _ (has : Q e t s) matched =>
        (has matched).mono (accountTx_grows e.1 e.2.header s b)) trivial
  have all : ∀ e ∈ chunks.flatMap (fun cd => mapEntries cd.txBlocks lo hi), ∀ t ∈ e.2.txs,
      Q e t ((chunks.flatMap fun cd => mapEntries cd.txBlocks lo hi).foldl (txBlock spec known)
        (headerRows chunks lo hi spec known)) :=
    Folds.foldl_does (fun _ => True) (fun (e : Nat × TxBlock) rows => ∀ t ∈ e.2.txs, Q e t rows)
      (fun _ _ _ _ => trivial) (fun rows e _ _ => does rows e)
      (fun rows e b _ has t mem matched => (has t mem matched).mono (txBlock_grows rows b)) trivial
  exact all (bn, tb) mem t inTxs matched

/-! ### The blocks of the transactions -/

variable (chunks lo hi spec known) in
/-- A transaction that may have a row, by the number of its block. -/
def TxAt (bn : Nat) (t : RawTx) : Prop :=
  (∃ cd hdr raw, KeptLog chunks lo hi spec known cd bn hdr raw ∧ t ∈ (cd.txs.get? bn).getD []) ∨
    ∃ hdr, AccountTx chunks lo hi spec known bn t hdr

variable (chunks lo hi spec known) in
/-- Every transaction seen has a block. -/
def Housed (rows : Rows) : Prop :=
  ∀ h ∈ rows.seenTx, ∃ bn t, TxAt chunks lo hi spec known bn t ∧ truthy t.hash = some h ∧
    (rows.blocksByNumber.get? bn).isSome

theorem Housed.step {rows later : Rows} (housed : Housed chunks lo hi spec known rows)
    (grows : rows.Grows later)
    (new : ∀ h ∈ later.seenTx, h ∈ rows.seenTx ∨ ∃ bn t, TxAt chunks lo hi spec known bn t ∧
      truthy t.hash = some h ∧ (later.blocksByNumber.get? bn).isSome) :
    Housed chunks lo hi spec known later := by
  intro h seen
  rcases new h seen with before | here
  · obtain ⟨bn, t, isTx, hash, some_⟩ := housed h before
    exact ⟨bn, t, isTx, hash, grows.blocks bn some_⟩
  · exact here

theorem Housed.logBlock {rows : Rows} (housed : Housed chunks lo hi spec known rows)
    {e : ChunkData × Nat × RawHeader} (mem : e ∈ logEntries chunks lo hi) :
    Housed chunks lo hi spec known (Assembly.logBlock spec known rows e) := by
  obtain ⟨cd, bn, hdr⟩ := e
  obtain ⟨inChunks, header, low, high⟩ := mem_logEntries.1 mem
  unfold Assembly.logBlock
  dsimp only
  split
  · exact housed
  · next some_ =>
      obtain ⟨raw, kept⟩ := List.exists_mem_of_ne_nil _ (by simpa using some_)
      let P : Rows → Prop := fun s =>
        Housed chunks lo hi spec known s ∧ (s.blocksByNumber.get? bn).isSome
      have start : P { rows with
          logs := rows.logs ++ (keptLogs spec known cd bn hdr).map fun raw => toSyncLog raw hdr
          blocksByNumber := rows.blocksByNumber.set bn (toSyncBlockHeader hdr) } :=
        ⟨housed.step ⟨fun _ mem => mem, fun _ mem => mem, fun _ mem => mem,
          (rows.setBlock_grows bn (toSyncBlockHeader hdr)).blocks⟩ fun _ seen => .inl seen,
          rows.setBlock_has bn _⟩
      refine (Folds.foldl_keeps P (fun s tx inTxs keeps => ?_) start).1
      have grows : s.Grows (parentTx spec hdr
          ((keptLogs spec known cd bn hdr).filterMap fun raw => truthy raw.transactionHash) s tx) :=
        parentTx_grows hdr _ s tx
      have here := grows.blocks bn keeps.2
      refine ⟨keeps.1.step grows fun h seen => ?_, here⟩
      rcases parentTx_seen seen with before | hash
      · exact .inl before
      · exact .inr ⟨bn, tx, .inl ⟨cd, hdr, raw, ⟨inChunks, header, low, high, kept⟩, inTxs⟩, hash, here⟩

theorem sourceRows_housed : Housed chunks lo hi spec known (sourceRows chunks lo hi spec known) := by
  have logs : Housed chunks lo hi spec known (logRows chunks lo hi spec known) :=
    Folds.foldl_keeps (Housed chunks lo hi spec known) (fun _ _ mem housed => housed.logBlock mem)
      fun _ seen => by cases seen
  have headers : Housed chunks lo hi spec known (headerRows chunks lo hi spec known) := by
    unfold headerRows
    split
    · refine Folds.foldl_keeps (Housed chunks lo hi spec known) (fun s e _ housed => ?_) logs
      refine housed.step (headerBlock_grows s e) fun h seen => .inl ?_
      rw [headerBlock_seenTx] at seen
      exact seen
    · exact logs
  rw [sourceRows_eq]
  split
  · next filters =>
      refine Folds.foldl_keeps (Housed chunks lo hi spec known) (fun s e mem housed => ?_) headers
      obtain ⟨cd, inChunks, found⟩ := List.mem_flatMap.1 mem
      obtain ⟨found, low, high⟩ := mem_mapEntries.1 found
      refine Folds.foldl_keeps (Housed chunks lo hi spec known) (fun s raw inTxs housed => ?_) housed
      refine housed.step (accountTx_grows e.1 e.2.header s raw) fun h seen => ?_
      rcases accountTx_seen seen with before | ⟨matched, hash, here⟩
      · exact .inl before
      · exact .inr ⟨e.1, raw, .inr ⟨e.2.header, filters, cd, inChunks, e.2, found, low, high, rfl,
          inTxs, matched⟩, hash, here⟩
  · exact headers

/-! ### Logs -/

theorem parentTx_logs (hdr : RawHeader) (hashes : List Hash) (rows : Rows) (tx : RawTx) :
    (parentTx spec hdr hashes rows tx).logs = rows.logs := by
  unfold parentTx
  split
  · dsimp only
    split
    · exact (rows.pushTx tx hdr).pushReceipt_logs tx hdr
    · rfl
  · rfl

theorem logBlock_logs (rows : Rows) (e : ChunkData × Nat × RawHeader) :
    (logBlock spec known rows e).logs =
      rows.logs ++ (keptLogs spec known e.1 e.2.1 e.2.2).map fun raw => toSyncLog raw e.2.2 := by
  unfold logBlock
  dsimp only
  split
  · next empty =>
      rw [List.isEmpty_iff.1 empty]
      simp
  · exact Folds.foldl_keeps (fun s : Rows => s.logs = rows.logs ++
      (keptLogs spec known e.1 e.2.1 e.2.2).map fun raw => toSyncLog raw e.2.2)
      (fun s tx _ same => (parentTx_logs e.2.2 _ s tx).trans same) rfl

theorem foldl_logBlock_logs (entries : List (ChunkData × Nat × RawHeader)) (rows : Rows) :
    (entries.foldl (logBlock spec known) rows).logs = rows.logs ++ entries.flatMap fun e =>
      (keptLogs spec known e.1 e.2.1 e.2.2).map fun raw => toSyncLog raw e.2.2 := by
  induction entries generalizing rows with
  | nil => simp
  | cons e rest ih => rw [List.foldl_cons, ih, logBlock_logs, List.flatMap_cons, List.append_assoc]

theorem headerBlock_logs (rows : Rows) (e : Nat × RawHeader) : (headerBlock rows e).logs = rows.logs := by
  unfold headerBlock
  split <;> rfl

theorem accountTx_logs (bn : Nat) (header : RawHeader) (rows : Rows) (raw : RawTx) :
    (accountTx spec known bn header rows raw).logs = rows.logs := by
  unfold accountTx
  split
  · dsimp only
    split
    · exact rows.pushReceipt_logs raw header
    · exact rows.pushReceipt_logs raw header
  · rfl

theorem txBlock_logs (rows : Rows) (e : Nat × TxBlock) :
    (txBlock spec known rows e).logs = rows.logs :=
  Folds.foldl_keeps (fun s : Rows => s.logs = rows.logs)
    (fun s raw _ same => (accountTx_logs e.1 e.2.header s raw).trans same) rfl

/-- The logs of the range: the kept ones, block by block. -/
theorem sourceRows_logs : (sourceRows chunks lo hi spec known).logs =
    (logEntries chunks lo hi).flatMap fun e =>
      (keptLogs spec known e.1 e.2.1 e.2.2).map fun raw => toSyncLog raw e.2.2 := by
  have logs : (logRows chunks lo hi spec known).logs = [] ++ _ :=
    foldl_logBlock_logs (logEntries chunks lo hi) Rows.empty
  have headers : (headerRows chunks lo hi spec known).logs = (logRows chunks lo hi spec known).logs := by
    unfold headerRows
    split
    · exact Folds.foldl_keeps (fun s : Rows => s.logs = (logRows chunks lo hi spec known).logs)
        (fun s e _ same => (headerBlock_logs s e).trans same) rfl
    · rfl
  have whole : (sourceRows chunks lo hi spec known).logs = (headerRows chunks lo hi spec known).logs := by
    rw [sourceRows_eq]
    split
    · exact Folds.foldl_keeps (fun s : Rows => s.logs = (headerRows chunks lo hi spec known).logs)
        (fun s e _ same => (txBlock_logs s e).trans same) rfl
    · rfl
  rw [whole, headers]
  exact logs

theorem mem_sourceRows_logs {log : SyncLog} :
    log ∈ (sourceRows chunks lo hi spec known).logs ↔
      ∃ cd bn hdr raw, KeptLog chunks lo hi spec known cd bn hdr raw ∧ log = toSyncLog raw hdr := by
  rw [sourceRows_logs]
  simp only [List.mem_flatMap, List.mem_map]
  constructor
  · rintro ⟨⟨cd, bn, hdr⟩, mem, raw, kept, rfl⟩
    obtain ⟨inChunks, header, low, high⟩ := mem_logEntries.1 mem
    exact ⟨cd, bn, hdr, raw, ⟨inChunks, header, low, high, kept⟩, rfl⟩
  · rintro ⟨cd, bn, hdr, raw, log, rfl⟩
    exact ⟨(cd, bn, hdr), mem_logEntries.2 ⟨log.chunk, log.header, log.low, log.high⟩, raw, log.kept, rfl⟩

end Sources

end PortalPonder.Assembly
