import PortalPonder.Client.Errors
import PortalPonder.Lib.Rounds

/-!
# The historical stream

`fetchBatch` turns the answer to one request into a batch or an error; `streamRound` is one pass
of the inner loop of `stream`, with the error handling of its `catch`. The loop is answered from
outside, one answer a round.

Concurrency (the gate), metrics and waiting are left out: they do not decide what is yielded.
-/

namespace PortalPonder.Client

open JSON (Text Value)

/-- A parsed line. -/
abbrev RawBlock := Value

/-- `b.key`; a later member of the same name replaces an earlier one. -/
def member (key : String) : Value → Option Value
  | .obj members => (members.reverse.find? fun m => m.1 = JSON.units key).map Prod.snd
  | _ => none

/-- A number lexeme that can be a block number. -/
def blockNumber : Value → Option Nat
  | .num lexeme =>
      if lexeme.all Char.isDigit then some (Nat.ofDigitChars 10 lexeme 0) else none
  | _ => none

/-- `b.header?.number`, when it is a number. -/
def headerNumber (b : RawBlock) : Option Nat :=
  ((member "header" b).bind (member "number")).bind blockNumber

structure Response where
  status : Nat
  /-- what the `Retry-After` header says -/
  retryAfterMs : Option Nat
  body : Body
  deriving DecidableEq, Repr

/-- The part of the query that is rewritten from request to request, and the range. -/
structure Request where
  fields : Fields
  fromBlock : Nat
  toBlock : Nat
  deriving DecidableEq, Repr

structure Batch where
  blocks : List RawBlock
  last : Nat

/-- The longest request body the Portal takes, in bytes. -/
def MAX_RAW_QUERY_SIZE : Nat := 256 * 1024

/-- How many transient errors in a row are retried. -/
def MAX_TRANSIENT_RETRIES : Nat := 10

/-- The typed error of a response that is neither OK, 204 nor a throttle. -/
def badResponse (req : Request) (res : Response) : PortalError :=
  let text := res.body.text.take 300
  match parseSchemaFieldError res.status text req.fields with
  | some e => e
  | none =>
      if res.status ≠ 400 then .http res.status req.fromBlock text
      else
        match datasetStartsAt text with
        | some n => .datasetStart n
        | none =>
            match missingTable text with
            | some table => .missingTable table
            | none =>
                if queryIsTooLarge text then .queryTooLarge req.fromBlock
                else .http res.status req.fromBlock text

/-- The line loop: the blocks in order, and the greatest block number seen from `last` on. -/
def readBlocks (cursor : Nat) : List Text → Nat → Except PortalError Batch
  | [], last => .ok ⟨[], last⟩
  | line :: lines, last =>
      match JSON.parse line with
      | none => .error (.truncatedBody cursor)
      | some .null => .error .nullBlock
      | some b =>
          let last := match headerNumber b with
            | some n => if n > last then n else last
            | none => last
          match readBlocks cursor lines last with
          | .error e => .error e
          | .ok batch => .ok { batch with blocks := b :: batch.blocks }

/-- One request and its answer. `bodyLength` is the length of the serialized request. -/
def fetchBatch (bodyLength : Request → Nat) (req : Request)
    (answer : Except FetchError Response) : Except PortalError Batch :=
  let cursor := req.fromBlock
  if bodyLength req > MAX_RAW_QUERY_SIZE then .error (.requestTooLarge cursor)
  else
    match answer with
    | .error cause => .error (.network cause)
    | .ok res =>
        if res.status = 204 ∧ cursor ≤ req.toBlock then
          .error (.incompleteRange cursor req.toBlock)
        else if res.status ≥ 500 ∨ res.status = 429 ∨ res.status = 409 then
          .error (.throttle res.status res.retryAfterMs)
        else if ¬(200 ≤ res.status ∧ res.status ≤ 299) then .error (badResponse req res)
        else
          match readBlocks cursor (ndjsonLines res.body) cursor with
          | .error e => .error e
          | .ok batch =>
              match res.body.failure with
              | some cause => .error (.network cause)
              | none =>
                  if batch.blocks = [] then .error (.truncatedBody cursor) else .ok batch

/-! ## The loop -/

/-- Fields whose absence changes nothing that is stored. -/
def DROPPABLE_FIELDS : List FieldKey :=
  [⟨"transaction", "accessList"⟩, ⟨"block", "baseFeePerGas"⟩, ⟨"block", "nonce"⟩,
    ⟨"block", "mixHash"⟩, ⟨"block", "sha3Uncles"⟩, ⟨"block", "totalDifficulty"⟩]

/-- The requested fields without the dropped ones. -/
def stripFields (fields : Fields) (dropped : List FieldKey) : Fields :=
  fields.map fun t => (t.1, t.2.filter fun f => ⟨t.1, f⟩ ∉ dropped)

inductive StreamError where
  | portal (e : PortalError)
  /-- the body is over the cap although the filters are merged -/
  | queryTooLarge (cursor : Nat)
  /-- the dataset has no such table -/
  | noTable (table : String) (cursor toBlock : Nat)
  /-- a throttle that outlived the retries -/
  | throttleExhausted (status : Nat) (retryAfterMs : Option Nat) (attempts : Nat)
  deriving DecidableEq, Repr

/-- The variables of one `stream` call, and what it has yielded. -/
structure StreamState where
  cursor : Nat
  attempt : Nat
  dropped : List FieldKey
  triedCols : List FieldKey
  neededMissing : List (FieldKey × String)
  yielded : List (List RawBlock)

/-- How the generator ended: with everything it had yielded, by finishing or by an error. -/
structure StreamEnd where
  yielded : List (List RawBlock)
  outcome : Except StreamError Unit

def StreamState.throw (s : StreamState) (e : StreamError) : StreamEnd := ⟨s.yielded, .error e⟩

def StreamState.finish (s : StreamState) : StreamEnd := ⟨s.yielded, .ok ()⟩

/-- A batch is yielded, and the cursor moves behind it. -/
def onBatch (toBlock : Nat) (s : StreamState) (batch : Batch) : Except StreamEnd StreamState :=
  let s := { s with
    yielded := s.yielded ++ [batch.blocks]
    cursor := batch.last + 1
    attempt := 0 }
  if s.cursor ≤ toBlock then .ok s else .error s.finish

/-- A column of the dataset is missing: its field is dropped, once. -/
def onSchemaField (s : StreamState) (fieldKey : FieldKey) (tag : String) (e : PortalError) :
    Except StreamEnd StreamState :=
  if fieldKey ∈ s.triedCols then .error (s.throw (.portal e))
  else
    .ok { s with
      triedCols := fieldKey :: s.triedCols
      dropped := fieldKey :: s.dropped
      neededMissing :=
        if fieldKey ∈ DROPPABLE_FIELDS then s.neededMissing
        else (fieldKey, tag) :: s.neededMissing }

/-- The dataset starts later: its missing prefix is skipped. -/
def onDatasetStart (toBlock : Nat) (s : StreamState) (startsAt : Nat) (e : PortalError) :
    Except StreamEnd StreamState :=
  if startsAt > toBlock then .error s.finish
  else if startsAt > s.cursor then .ok { s with cursor := startsAt }
  else .error (s.throw (.portal e))

/-- A transient error is retried, a bounded number of times in a row. -/
def onTransient (s : StreamState) (e : PortalError) : Except StreamEnd StreamState :=
  if s.attempt ≥ MAX_TRANSIENT_RETRIES then
    match e with
    | .throttle status retryAfterMs =>
        .error (s.throw (.throttleExhausted status retryAfterMs (s.attempt + 1)))
    | e => .error (s.throw (.portal e))
  else .ok { s with attempt := s.attempt + 1 }

/-- The `catch` of the inner loop. -/
def onError (toBlock : Nat) (s : StreamState) (e : PortalError) :
    Except StreamEnd StreamState :=
  match e with
  | .queryTooLarge _ => .error (s.throw (.queryTooLarge s.cursor))
  | .missingTable table => .error (s.throw (.noTable table s.cursor toBlock))
  | .datasetStart startsAt => onDatasetStart toBlock s startsAt e
  | .schemaField fieldKey _ tag => onSchemaField s fieldKey tag e
  | e => if isTransientError e then onTransient s e else .error (s.throw (.portal e))

/-- The request of the current round. -/
def StreamState.request (query : Fields) (toBlock : Nat) (s : StreamState) : Request :=
  ⟨stripFields query s.dropped, s.cursor, toBlock⟩

/-- One pass of the inner loop, answered by `answer`. -/
def streamRound (bodyLength : Request → Nat) (query : Fields) (toBlock : Nat)
    (answer : Request → Except FetchError Response) (s : StreamState) :
    Except StreamEnd StreamState :=
  let req := s.request query toBlock
  match fetchBatch bodyLength req (answer req) with
  | .ok batch => onBatch toBlock s batch
  | .error e => onError toBlock s e

def streamStart (fromBlock : Nat) : StreamState := ⟨fromBlock, 0, [], [], [], []⟩

/-- The stream after `n` answers. -/
def stream (bodyLength : Request → Nat) (query : Fields) (fromBlock toBlock : Nat)
    (answers : Nat → Request → Except FetchError Response) (n : Nat) :
    Except StreamEnd StreamState :=
  if fromBlock ≤ toBlock then
    Rounds.rounds (streamRound bodyLength query toBlock) answers n (streamStart fromBlock)
  else .error (streamStart fromBlock).finish

end PortalPonder.Client
