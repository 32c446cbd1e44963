import PortalPonder.Lib.Stringify
import PortalPonder.Client.Dropped

/-!
# Request bodies

A query and the body it is sent in: `stream` takes the dropped fields away and adds the range. A
body is at most a few bytes longer than its query, so that a query under the sharding budget never
reaches the size guard of `fetchBatch`.
-/

namespace PortalPonder.Client

open JSON (Value stringify bracketed memberTexts partsLength)

/-- The members of a query in their order; the lists of requests are among `rest`. -/
structure PortalQuery where
  head : List (List Nat × Value)
  fields : Fields
  rest : List (List Nat × Value)

/-- One table of a projection. -/
def fieldMap (fields : List String) : Value :=
  .obj (fields.map fun f => (JSON.units f, .bool true))

def fieldsJson (fields : Fields) : Value :=
  .obj (fields.map fun t => (JSON.units t.1, fieldMap t.2))

namespace PortalQuery

def members (query : PortalQuery) : List (List Nat × Value) :=
  query.head ++ (JSON.units "fields", fieldsJson query.fields) :: query.rest

/-- `JSON.stringify(query)` -/
def text (query : PortalQuery) : List Nat := stringify (.obj query.members)

/-- The body of a request of `stream`. -/
def body (query : PortalQuery) (req : Request) : List Nat :=
  stringify (.obj ({ query with fields := req.fields }.members ++
    [(JSON.units "fromBlock", JSON.ofNat req.fromBlock),
      (JSON.units "toBlock", JSON.ofNat req.toBlock)]))

end PortalQuery

/-- The greatest safe integer. -/
def MAX_SAFE_BLOCK : Nat := 2 ^ 53 - 1

/-! ## Lengths -/

theorem memberTexts_length_le {ms ms' : List (List Nat × Value)}
    (shorter : List.Forall₂ (fun m m' => m.1 = m'.1 ∧
      (stringify m.2).length ≤ (stringify m'.2).length) ms ms') :
    partsLength (memberTexts ms) ≤ partsLength (memberTexts ms') := by
  induction shorter with
  | nil => exact Nat.le_refl _
  | @cons m m' rest rest' head tail ih =>
      obtain ⟨key, v⟩ := m
      obtain ⟨key', v'⟩ := m'
      obtain ⟨same, le⟩ := head
      dsimp only at same le
      subst same
      simp only [memberTexts, JSON.partsLength_cons, List.length_append, List.length_cons]
      omega

theorem memberTexts_sublist {ms ms' : List (List Nat × Value)} (sub : ms.Sublist ms') :
    partsLength (memberTexts ms) ≤ partsLength (memberTexts ms') := by
  induction sub with
  | slnil => exact Nat.le_refl _
  | cons m sub ih =>
      simp only [memberTexts, JSON.partsLength_cons]
      omega
  | cons_cons m sub ih =>
      simp only [memberTexts, JSON.partsLength_cons]
      omega

/-- Dropping fields never lengthens a projection. -/
theorem stripFields_length_le (fields : Fields) (dropped : List FieldKey) :
    (stringify (fieldsJson (stripFields fields dropped))).length ≤
      (stringify (fieldsJson fields)).length := by
  refine JSON.bracketed_length_le _ _ (memberTexts_length_le ?_)
  unfold stripFields
  induction fields with
  | nil => exact .nil
  | cons t rest ih =>
      refine .cons ⟨rfl, ?_⟩ ih
      exact JSON.bracketed_length_le _ _ (memberTexts_sublist (List.filter_sublist.map _))

/-- What the range adds to a body. -/
def RANGE_LENGTH : Nat := 56

theorem rangeTexts_length {fromBlock toBlock : Nat} (low : fromBlock ≤ MAX_SAFE_BLOCK)
    (high : toBlock ≤ MAX_SAFE_BLOCK) :
    partsLength (memberTexts [(JSON.units "fromBlock", JSON.ofNat fromBlock),
      (JSON.units "toBlock", JSON.ofNat toBlock)]) ≤ RANGE_LENGTH := by
  have from_ := JSON.ofNat_length (n := fromBlock) (k := 16) (by decide)
    (Nat.lt_of_le_of_lt low (by decide))
  have to_ := JSON.ofNat_length (n := toBlock) (k := 16) (by decide)
    (Nat.lt_of_le_of_lt high (by decide))
  have keys : (JSON.quoted (JSON.units "fromBlock")).length = 11 ∧
      (JSON.quoted (JSON.units "toBlock")).length = 9 := by decide
  simp only [memberTexts, JSON.partsLength_cons, JSON.partsLength_nil, List.length_append,
    List.length_cons, keys.1, keys.2]
  unfold RANGE_LENGTH
  omega

/-- A body is at most `RANGE_LENGTH` longer than its query. -/
theorem body_length_le (query : PortalQuery) (dropped : List FieldKey) {fromBlock toBlock : Nat}
    (low : fromBlock ≤ MAX_SAFE_BLOCK) (high : toBlock ≤ MAX_SAFE_BLOCK) :
    (query.body ⟨stripFields query.fields dropped, fromBlock, toBlock⟩).length ≤
      query.text.length + RANGE_LENGTH := by
  have range := rangeTexts_length low high
  have fields := stripFields_length_le query.fields dropped
  have nonempty : ∀ q : PortalQuery, memberTexts q.members ≠ [] := by
    intro q
    unfold PortalQuery.members
    rw [JSON.memberTexts_append]
    exact fun none_ => by simp [memberTexts] at none_
  have whole : query.text.length = partsLength (memberTexts query.members) + 1 :=
    JSON.bracketed_length _ _ (nonempty query)
  have sent : (query.body ⟨stripFields query.fields dropped, fromBlock, toBlock⟩).length =
      partsLength (memberTexts { query with fields := stripFields query.fields dropped }.members) +
        partsLength (memberTexts [(JSON.units "fromBlock", JSON.ofNat fromBlock),
          (JSON.units "toBlock", JSON.ofNat toBlock)]) + 1 := by
    show (bracketed '{' '}' (memberTexts _)).length = _
    rw [JSON.memberTexts_append, JSON.bracketed_length _ _ (by simp [nonempty]),
      JSON.partsLength_append]
  have shorter : partsLength (memberTexts
      { query with fields := stripFields query.fields dropped }.members) ≤
      partsLength (memberTexts query.members) := by
    unfold PortalQuery.members
    simp only [JSON.memberTexts_append, memberTexts, JSON.partsLength_append,
      JSON.partsLength_cons, List.length_append, List.length_cons]
    omega
  omega

/-- A query under a budget that leaves room for the range passes the size guard. -/
theorem body_within (query : PortalQuery) (dropped : List FieldKey) {fromBlock toBlock : Nat}
    (low : fromBlock ≤ MAX_SAFE_BLOCK) (high : toBlock ≤ MAX_SAFE_BLOCK)
    (small : query.text.length + RANGE_LENGTH ≤ MAX_RAW_QUERY_SIZE) :
    (query.body ⟨stripFields query.fields dropped, fromBlock, toBlock⟩).length ≤
      MAX_RAW_QUERY_SIZE :=
  Nat.le_trans (body_length_le query dropped low high) small

end PortalPonder.Client
