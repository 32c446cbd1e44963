import Mathlib.Init

/-!
# Wire shapes and their transforms

The raw shapes of the Portal's NDJSON (`RawHeader`, `RawLog`, `RawTx`) and the pure transforms
to the records ponder stores. The Portal mixes encodings: small bounded values are decimal
numbers, 256-bit quantities are hex strings; `hx` normalises both to hex.
-/

namespace PortalPonder

abbrev Hash := String
abbrev Hex := String
abbrev Address := String

/-- The JSON values the transforms read out of a raw record. The items of an array are only
ever passed through. -/
inductive JsVal where
  | undefined
  | null
  | num (n : Nat)
  | str (s : String)
  | arr (items : List String)
  deriving DecidableEq, Repr

/-- A realtime or block-query header always carries its hash, parent hash and timestamp; every
other projected column stands in `props`. -/
structure RawHeader where
  number : Nat
  hash : Hash
  parentHash : Hash
  timestamp : Nat
  props : List (String × JsVal)
  deriving DecidableEq, Repr

structure RawLog where
  address : String
  topics : Option (List Hex)
  data : Option Hex
  transactionHash : Option Hash
  transactionIndex : Option Nat
  logIndex : Option Nat
  deriving DecidableEq, Repr

structure RawTx where
  transactionIndex : Option Nat
  hash : Option Hash
  «from» : Option String
  «to» : Option String
  type : JsVal
  props : List (String × JsVal)
  deriving DecidableEq, Repr

/-- Read a property of a raw record; a missing one is `undefined`. -/
def prop (props : List (String × JsVal)) (name : String) : JsVal :=
  (props.lookup name).getD .undefined

/-! ## Quantities -/

/-- `numberToHex` / `toHex` of a non-negative integer. -/
def numberToHex (n : Nat) : Hex := "0x" ++ String.ofList (Nat.toDigits 16 n)

/-- The value of a lowercase hex digit. -/
def hexDigit (c : Char) : Nat := ("0123456789abcdef".toList.findIdx? (· = c)).getD 0

/-- `hexToNumber`: what a consumer of a stored record reads a quantity back with. -/
def hexToNumber (h : Hex) : Nat :=
  (h.toList.drop 2).foldl (fun acc c => 16 * acc + hexDigit c) 0

theorem hexDigit_digitChar {n : Nat} (small : n < 16) : hexDigit n.digitChar = n := by
  have all : ∀ m : Fin 16, hexDigit (Nat.digitChar m) = m := by decide
  exact all ⟨n, small⟩

theorem foldl_toDigits (n : Nat) :
    (Nat.toDigits 16 n).foldl (fun acc c => 16 * acc + hexDigit c) 0 = n := by
  induction n using Nat.base_induction 16 (by decide) with
  | single m small => simp [Nat.toDigits_of_lt_base small, hexDigit_digitChar small]
  | digit m k kSmall mPos ih =>
      rw [← Nat.toDigits_append_toDigits (by decide) mPos kSmall, List.foldl_append, ih,
        Nat.toDigits_of_lt_base kSmall]
      simp [hexDigit_digitChar kSmall]

@[simp] theorem hexToNumber_numberToHex (n : Nat) : hexToNumber (numberToHex n) = n := by
  have body : (numberToHex n).toList.drop 2 = Nat.toDigits 16 n := by
    simp [numberToHex]
  rw [hexToNumber, body, foldl_toDigits]

/-- number | decimal string | hex → 0x-hex; existing hex passes through, an empty quantity is 0. -/
def hx : JsVal → Hex
  | .str s =>
      if s = "0x" ∨ s = "" then "0x0"
      else if s.startsWith "0x" then s
      -- `BigInt` of a string that is no decimal numeral throws; the Portal sends none
      else numberToHex (s.toNat?.getD 0)
  | .num n => numberToHex n
  | _ => "0x0"

def opt : JsVal → Option Hex
  | .undefined => none
  | .null => none
  | v => some (hx v)

/-- An optional index, as `hx` sees it. -/
def ofIndex : Option Nat → JsVal
  | none => .undefined
  | some n => .num n

/-- `a ?? b` on raw values. -/
def JsVal.orElse (a b : JsVal) : JsVal :=
  match a with
  | .undefined => b
  | .null => b
  | v => v

/-! ## Stored records -/

structure SyncLog where
  address : Address
  topics : List Hex
  data : Hex
  blockNumber : Hex
  blockHash : Hash
  transactionHash : Option Hash
  transactionIndex : Hex
  logIndex : Hex
  removed : Bool
  deriving DecidableEq, Repr

structure SyncBlockHeader where
  number : Hex
  hash : Hash
  parentHash : Hash
  timestamp : Hex
  logsBloom : JsVal
  miner : JsVal
  gasUsed : Option Hex
  gasLimit : Option Hex
  baseFeePerGas : Option Hex
  nonce : JsVal
  mixHash : JsVal
  stateRoot : JsVal
  receiptsRoot : JsVal
  transactionsRoot : JsVal
  sha3Uncles : JsVal
  size : Option Hex
  difficulty : Option Hex
  totalDifficulty : Option Hex
  extraData : JsVal
  deriving DecidableEq, Repr

structure SyncTransaction where
  blockHash : Hash
  blockNumber : Hex
  «from» : Option Address
  «to» : Option Address
  gas : Hex
  hash : Option Hash
  input : JsVal
  nonce : Hex
  transactionIndex : Hex
  value : Hex
  type : Hex
  gasPrice : Option Hex
  maxFeePerGas : Option Hex
  maxPriorityFeePerGas : Option Hex
  v : Option Hex
  r : JsVal
  s : JsVal
  yParity : Option Hex
  accessList : Option (List String)
  deriving DecidableEq, Repr

def toSyncLog (l : RawLog) (h : RawHeader) : SyncLog where
  address := l.address.toLower
  topics := l.topics.getD []
  data := l.data.getD "0x"
  blockNumber := hx (.num h.number)
  blockHash := h.hash
  transactionHash := l.transactionHash
  transactionIndex := hx (ofIndex l.transactionIndex)
  logIndex := hx (ofIndex l.logIndex)
  removed := false

def toSyncBlockHeader (h : RawHeader) : SyncBlockHeader where
  number := hx (.num h.number)
  hash := h.hash
  parentHash := h.parentHash
  timestamp := hx (.num h.timestamp)
  logsBloom := prop h.props "logsBloom"
  miner := prop h.props "miner"
  gasUsed := opt (prop h.props "gasUsed")
  gasLimit := opt (prop h.props "gasLimit")
  baseFeePerGas := opt (prop h.props "baseFeePerGas")
  nonce := prop h.props "nonce"
  mixHash := prop h.props "mixHash"
  stateRoot := prop h.props "stateRoot"
  receiptsRoot := prop h.props "receiptsRoot"
  transactionsRoot := prop h.props "transactionsRoot"
  sha3Uncles := prop h.props "sha3Uncles"
  size := opt (prop h.props "size")
  difficulty := opt (prop h.props "difficulty")
  totalDifficulty := opt (prop h.props "totalDifficulty")
  extraData := prop h.props "extraData"

/-- The types whose envelope carries an access list (EIP-2930, 1559, 4844, 7702). -/
def ACCESS_LIST_TX_TYPES : List Nat := [1, 2, 3, 4]

/-- `Number(v)`, where it is a natural number. -/
def asNumber : JsVal → Option Nat
  | .num n => some n
  | .str s =>
      if s.startsWith "0x" then
        (s.toList.drop 2).foldl (fun acc c => acc.bind fun n =>
          (("0123456789abcdef".toList.findIdx? (· = c.toLower))).map (16 * n + ·)) (some 0)
      else s.toNat?
  | _ => none

def toSyncTransaction (tx : RawTx) (h : RawHeader) : SyncTransaction where
  blockHash := h.hash
  blockNumber := hx (.num h.number)
  «from» := tx.from.map String.toLower
  -- `tx.to ? … : null`: the empty string is falsy too
  «to» := (tx.«to».filter (· ≠ "")).map String.toLower
  gas := hx (prop tx.props "gas")
  hash := tx.hash
  input := (prop tx.props "input").orElse (.str "0x")
  nonce := hx ((prop tx.props "nonce").orElse (.num 0))
  transactionIndex := hx (ofIndex tx.transactionIndex)
  value := hx ((prop tx.props "value").orElse (.num 0))
  type := hx (tx.type.orElse (.num 0))
  gasPrice := opt (prop tx.props "gasPrice")
  maxFeePerGas := opt (prop tx.props "maxFeePerGas")
  maxPriorityFeePerGas := opt (prop tx.props "maxPriorityFeePerGas")
  v := opt (prop tx.props "v")
  r := prop tx.props "r"
  s := prop tx.props "s"
  yParity := opt (prop tx.props "yParity")
  accessList :=
    match (asNumber tx.type).filter (· ∈ ACCESS_LIST_TX_TYPES), prop tx.props "accessList" with
    | some _, .arr items => some items
    | _, _ => none

/-! ## Receipts -/

structure SyncTransactionReceipt where
  blockNumber : Hex
  blockHash : Hash
  transactionIndex : Hex
  transactionHash : Option Hash
  «from» : Option Address
  «to» : Option Address
  contractAddress : Option Address
  logsBloom : JsVal
  gasUsed : Hex
  cumulativeGasUsed : Hex
  effectiveGasPrice : Hex
  status : Hex
  type : Hex
  deriving DecidableEq, Repr

/-- `v ? … : null` on an optional string: the empty string is falsy too. -/
def truthy (v : Option String) : Option String := v.filter (· ≠ "")

/-- `v?.toLowerCase()` -/
def lowered : JsVal → Option String
  | .str s => some s.toLower
  | _ => none

/-- The receipt columns ride on the transaction. -/
def toSyncReceipt (tx : RawTx) (h : RawHeader) : SyncTransactionReceipt where
  blockNumber := hx (.num h.number)
  blockHash := h.hash
  transactionIndex := hx (ofIndex tx.transactionIndex)
  transactionHash := tx.hash
  «from» := tx.from.map String.toLower
  «to» := (truthy tx.«to»).map String.toLower
  contractAddress := truthy (lowered (prop tx.props "contractAddress"))
  logsBloom := prop tx.props "logsBloom"
  gasUsed := hx (prop tx.props "gasUsed")
  cumulativeGasUsed := hx (prop tx.props "cumulativeGasUsed")
  effectiveGasPrice := hx (prop tx.props "effectiveGasPrice")
  status :=
    if prop tx.props "status" = .num 1 ∨ prop tx.props "status" = .str "0x1" then "0x1" else "0x0"
  type := hx (tx.type.orElse (.num 0))

end PortalPonder
