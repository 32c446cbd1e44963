import PortalPonder.Client.Ndjson

/-!
# The error taxonomy of the client

The typed errors a request can end in, their classification as transient, and the reading of a
400 body: a column the dataset cannot serve, a dataset that starts later, a missing table, a
query that is too large.
-/

namespace PortalPonder.Client

open JSON (Text)

/-- A field of the request, `table.field`. -/
structure FieldKey where
  table : String
  field : String
  deriving DecidableEq, Repr

inductive PortalError where
  /-- the size guard, before the request is sent -/
  | requestTooLarge (cursor : Nat)
  | network (cause : FetchError)
  | incompleteRange (cursor toBlock : Nat)
  | throttle (status : Nat) (retryAfterMs : Option Nat)
  | schemaField (fieldKey : FieldKey) (tableKey tag : String)
  | datasetStart (startsAt : Nat)
  | missingTable (table : String)
  | queryTooLarge (cursor : Nat)
  | http (status cursor : Nat) (body : Text)
  | truncatedBody (cursor : Nat)
  /-- a property of `null` was read -/
  | nullBlock
  deriving DecidableEq, Repr

/-! ## Transient errors -/

/-- What the network pattern looks for, in lower case. -/
def networkWords : List String :=
  ["socket", "closed", "econnreset", "fetch failed", "terminated", "timeout", "network", "epipe",
    "und_err", "z_buf_error", "premature close", "premature_close"]

/-- `text` contains `word`. -/
def occurs (word : Text) : Text → Bool
  | [] => word.isEmpty
  | c :: cs => word.isPrefixOf (c :: cs) || occurs word cs

def isNetworkError (e : FetchError) : Bool :=
  let m := (e.message.toList ++ ' ' :: e.code.toList ++ ' ' :: e.causeMessage.toList ++
    ' ' :: e.causeCode.toList).map Char.toLower
  networkWords.any (fun word => occurs word.toList m) || e.name = "AbortError"

/-- An error of the client itself, which has a message only. -/
def ofMessage (message : Text) : FetchError := ⟨"Error", String.ofList message, "", "", ""⟩

/-- The part of the message of `PortalHttpError` that is not fixed is its body. -/
def httpMessage (status cursor : Nat) (body : Text) : Text :=
  "Portal ".toList ++ (toString status).toList ++ " @ ".toList ++ (toString cursor).toList ++
    ": ".toList ++ body

/-- The retryable set. The messages of the errors answered `false` here hold no network word. -/
def isTransientError : PortalError → Bool
  | .throttle _ _ => true
  | .truncatedBody _ => true
  | .incompleteRange _ _ => true
  | .network cause => isNetworkError cause
  | .http status cursor body => isNetworkError (ofMessage (httpMessage status cursor body))
  | .schemaField _ _ _ | .datasetStart _ | .missingTable _ | .queryTooLarge _
  | .requestTooLarge _ | .nullBlock => false

/-! ## Reading a 400 -/

/-- The leftmost match. -/
def search {α : Type} (match_ : Text → Option α) : Text → Option α
  | [] => match_ []
  | c :: cs =>
      match match_ (c :: cs) with
      | some a => some a
      | none => search match_ cs

/-- The text behind `word`, letter case aside. -/
def after (word : Text) (text : Text) : Option Text :=
  if (text.take word.length).map Char.toLower = word then some (text.drop word.length) else none

/-- A nonempty run of `p` and the text behind it. -/
def run1 (p : Char → Bool) (text : Text) : Option (Text × Text) :=
  let run := text.takeWhile p
  if run = [] then none else some (run, text.dropWhile p)

def isWord (c : Char) : Bool := c.isAlphanum || c = '_'

def isTableLetter (c : Char) : Bool := c.isAlpha || c = '_'

/-- `column '<column>' is not found in '<table>'` -/
def columnNotFound (text : Text) : Option (String × String) :=
  search (fun s => do
    let s ← after "column '".toList s
    let (column, s) ← run1 isWord s
    let s ← after "' is not found in '".toList s
    let (table, s) ← run1 isTableLetter s
    let _ ← after "'".toList s
    return (String.ofList column, String.ofList table)) text

def backquote : Char := Char.ofNat 0x60

/-- `unknown field <field>`, the field in back quotes; here letter case counts. -/
def unknownField (text : Text) : Option String :=
  search (fun s =>
    let word := "unknown field ".toList ++ [backquote]
    if word.isPrefixOf s then do
      let (field, s) ← run1 isWord (s.drop word.length)
      if [backquote].isPrefixOf s then return String.ofList field else none
    else none) text

/-- `dataset starts from|at block <number>` -/
def datasetStartsAt (text : Text) : Option Nat :=
  search (fun s => do
    let s ← after "dataset starts ".toList s
    let s ← (after "from".toList s).orElse fun _ => after "at".toList s
    let s ← after " block ".toList s
    let (digits, _) ← run1 Char.isDigit s
    return Nat.ofDigitChars 10 digits 0) text

/-- `table '<table>' does not exist` -/
def missingTable (text : Text) : Option String :=
  search (fun s => do
    let s ← after "table '".toList s
    let (table, s) ← run1 isTableLetter s
    let _ ← after "' does not exist".toList s
    return String.ofList table) text

def queryIsTooLarge (text : Text) : Bool :=
  (search (after "query is too large".toList) text).isSome

/-- The fields a request asks for, table by table. -/
abbrev Fields := List (String × List String)

/-- Plural table to the key of the request. -/
def TABLE_TO_KEY (table : String) : String :=
  if table = "transactions" then "transaction"
  else if table = "blocks" then "block"
  else if table = "logs" then "log"
  else if table = "traces" then "trace"
  else table

/-- `_x` becomes `X`. -/
def camel : Text → Text
  | [] => []
  | [c] => [c]
  | c :: d :: r =>
      if c = '_' ∧ (('a' ≤ d ∧ d ≤ 'z') ∨ d.isDigit) then d.toUpper :: camel r
      else c :: camel (d :: r)

def colToFieldKey (col table : String) : FieldKey :=
  let field :=
    if col = "access_list_size" ∨ col = "access_list" then "accessList"
    else String.ofList (camel col.toList)
  ⟨TABLE_TO_KEY table, field⟩

/-- The tables an unknown field is looked for in, in this order. -/
def fieldTables : List String := ["transaction", "block", "log", "trace"]

def Fields.requests (fields : Fields) (table field : String) : Bool :=
  fields.any fun t => t.1 = table && t.2.contains field

/-- The schema error a 400 text names. `fields` are those of the request it answers. -/
def parseSchemaFieldError (status : Nat) (text : Text) (fields : Fields) :
    Option PortalError :=
  if status ≠ 400 then none
  else
    match columnNotFound text with
    | some (column, table) =>
        some (.schemaField (colToFieldKey column table) (TABLE_TO_KEY table) column)
    | none =>
        match unknownField text with
        | some fn =>
            let table := (fieldTables.find? fun t => fields.requests t fn).getD "transaction"
            some (.schemaField ⟨table, fn⟩ table fn)
        | none => none

end PortalPonder.Client
