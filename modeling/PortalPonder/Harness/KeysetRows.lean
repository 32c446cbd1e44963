import Mathlib.Algebra.Order.Floor.Ring
import Mathlib.Data.Rat.Floor
import PortalPonder.Harness.StreamingDiff

/-!
# Keyset pages

`keysetRows` reads a table page by page in the order of its primary key. Each page resumes behind
the key of the last row of the page before, and its limit is sized by the width of the rows that
were seen. Whatever the limits are, the pages are the table.
-/

namespace PortalPonder.Harness

open Keyed

/-! ## Page sizes -/

/-- `Buffer.byteLength` -/
def byteLength : List Nat → Nat
  | [] => 0
  | [u] => if u < 0x80 then 1 else if u < 0x800 then 2 else 3
  | u :: l :: us =>
      if u < 0x80 then 1 + byteLength (l :: us)
      else if u < 0x800 then 2 + byteLength (l :: us)
      else if JSON.isHighSurrogate u = true ∧ JSON.isLowSurrogate l = true then 4 + byteLength us
      else 3 + byteLength (l :: us)

def cellBytes : Cell → Nat
  | .bytes data => data.length
  | .text us => byteLength us
  | .bigint n => (decimal n).length
  | .number n => (decimal n).length
  | .null => 1
  | .bool b => (JSON.stringify (.bool b)).length

def rowBytes (row : Row) : Nat := (row.entries.map fun e => cellBytes e.2).sum

def DEFAULT_BYTE_TARGET : Rat := 32 * 1024 * 1024

def MIN_BATCH : Nat := 5000

def MAX_BATCH : Nat := 50000

section

-- the division of two numbers: a rounded result, or nothing where it is not finite
variable (quotient : Rat → Rat → Option Rat)

def nextBatchSize (observedAvgRowBytes : Option Rat) (targetBytes : Rat) (floor ceiling : Nat) :
    Nat :=
  match observedAvgRowBytes with
  | none => floor
  | some avg =>
      if avg ≤ 0 then floor
      else
        match quotient targetBytes avg with
        -- an infinite estimate has the sign of the target
        | none => if targetBytes < 0 then floor else ceiling
        | some q =>
            let est := ⌊q⌋
            if est < floor then floor else if (ceiling : Int) < est then ceiling else est.toNat

/-- The size stays in its window, whatever the width is. -/
theorem nextBatchSize_window (avg : Option Rat) (targetBytes : Rat) {floor ceiling : Nat}
    (window : floor ≤ ceiling) :
    floor ≤ nextBatchSize quotient avg targetBytes floor ceiling ∧
      nextBatchSize quotient avg targetBytes floor ceiling ≤ ceiling := by
  have low : floor ≤ floor ∧ floor ≤ ceiling := ⟨le_refl floor, window⟩
  have high : floor ≤ ceiling ∧ ceiling ≤ ceiling := ⟨window, le_refl ceiling⟩
  unfold nextBatchSize
  cases avg with
  | none => exact low
  | some a =>
      dsimp only
      by_cases noWidth : a ≤ 0
      · rw [if_pos noWidth]
        exact low
      · rw [if_neg noWidth]
        cases quotient targetBytes a with
        | none =>
            dsimp only
            by_cases neg : targetBytes < 0
            · rw [if_pos neg]
              exact low
            · rw [if_neg neg]
              exact high
        | some q =>
            dsimp only
            by_cases under : ⌊q⌋ < floor
            · rw [if_pos under]
              exact low
            · rw [if_neg under]
              by_cases above : (ceiling : Int) < ⌊q⌋
              · rw [if_pos above]
                exact high
              · rw [if_neg above]
                omega

/-! ## Pages -/

def quoted (name : String) : String := "\"" ++ name ++ "\""

/-- The placeholders `$1, $2, …` of some columns. -/
def placeholders (keys : List String) : String :=
  ", ".intercalate ((List.range keys.length).map fun i => "$" ++ toString (i + 1))

def buildKeysetSql (table : String) (keys : List String) (hasCursor : Bool) (limit : Nat) :
    String :=
  let cols := ", ".intercalate (keys.map quoted)
  let order := "order by " ++ cols
  let where_ :=
    if hasCursor then "where (" ++ cols ++ ") > (" ++ placeholders keys ++ ")" else ""
  "select * from ponder_sync." ++ quoted table ++ " " ++ where_ ++ " " ++ order ++ " limit " ++
    toString limit

/-- `db.query`: a statement and its parameters, an absent one being `undefined`. -/
abbrev Query := String → List (Option Cell) → List Row

/-- The parameters of the page behind a row. -/
def cursorOf (keys : List String) (tail : Row) : List (Option Cell) := keys.map tail.get?

variable (query : Query) (table : String) (keys : List String)

/-- The loop. With `n` pages to go, `nextLimit n` tells by a full page how large the next one is. -/
def keysetPages (nextLimit : Nat → List Row → Nat) :
    Nat → Option (List (Option Cell)) → Nat → Option (List Row)
  | 0, _, _ => none
  | n + 1, last, limit =>
      let rows := query (buildKeysetSql table keys last.isSome limit) (last.getD [])
      match rows.getLast? with
      | none => some []
      | some tail =>
          if limit ≤ rows.length then
            (keysetPages nextLimit n (some (cursorOf keys tail)) (nextLimit n rows)).map fun rest =>
              rows ++ rest
          else some rows

/-- The limit of the page behind a page, by the average width of its rows. -/
def pageLimit (byteTarget : Rat) (rows : List Row) : Nat :=
  nextBatchSize quotient (quotient (rows.map rowBytes).sum rows.length) byteTarget MIN_BATCH
    MAX_BATCH

def keysetRows (byteTarget : Rat) (fuel : Nat) : Option (List Row) :=
  keysetPages query table keys (fun _ rows => pageLimit quotient byteTarget rows) fuel none
    MIN_BATCH

end

/-! ## Tables -/

def keyOf (keys : List String) (row : Row) : List Int := (keyFnFor keys row).getD []

/-- A table of the store: every row has its key, and no two rows have one. -/
structure Table (keys : List String) where
  rows : List Row
  keyed : ∀ r ∈ rows, keyFnFor keys r = some (keyOf keys r)
  unique : (rows.map (keyOf keys)).Nodup

namespace Table

variable {keys : List String} (t : Table keys)

/-- The rows in the order of their keys. -/
def ordered : List Row := t.rows.mergeSort fun a b => keyOf keys a ≤ keyOf keys b

/-- The row of each key. -/
def toMap : RowMap Int := Keyed.toMap (keyOf keys) t.rows

theorem ordered_perm : t.ordered.Perm t.rows := List.mergeSort_perm _ _

theorem ordered_keyed : ∀ r ∈ t.ordered, keyFnFor keys r = some (keyOf keys r) :=
  fun r mem => t.keyed r (t.ordered_perm.mem_iff.1 mem)

theorem ordered_ascending : Ascending (keyOf keys) t.ordered := by
  have sorted : t.ordered.Pairwise fun a b => decide (keyOf keys a ≤ keyOf keys b) = true := by
    apply List.pairwise_mergeSort
    · intro a b c ab bc
      exact decide_eq_true (le_trans (of_decide_eq_true ab) (of_decide_eq_true bc))
    · intro a b
      rw [Bool.or_eq_true, decide_eq_true_eq, decide_eq_true_eq]
      exact le_total _ _
  have apart : t.ordered.Pairwise fun a b => keyOf keys a ≠ keyOf keys b := by
    have unique : (t.ordered.map (keyOf keys)).Nodup :=
      (t.ordered_perm.map (keyOf keys)).nodup_iff.2 t.unique
    rwa [List.Nodup, List.pairwise_map] at unique
  exact (sorted.and apart).imp fun both => lt_of_le_of_ne (of_decide_eq_true both.1) both.2

theorem toMap_ordered : Keyed.toMap (keyOf keys) t.ordered = t.toMap :=
  Keyed.toMap_perm t.ordered_ascending.nodup t.ordered_perm

end Table

/-- The database returns the rows of a table in key order under the tuple condition, up to the
limit. -/
structure Serves (query : Query) (table : String) {keys : List String} (t : Table keys) : Prop where
  first : ∀ limit, MIN_BATCH ≤ limit →
    query (buildKeysetSql table keys false limit) [] = t.ordered.take limit
  next : ∀ limit, MIN_BATCH ≤ limit → ∀ last ∈ t.rows,
    query (buildKeysetSql table keys true limit) (cursorOf keys last) =
      (t.ordered.filter fun r => keyOf keys last < keyOf keys r).take limit

/-! ## The pages are the table -/

section

variable {query : Query} {table : String} {keys : List String} {t : Table keys}

/-- Where a loop stands that has yielded `done`. -/
def StandsAt (keys : List String) (done : List Row) : Option (List (Option Cell)) → Prop
  | none => done = []
  | some last => ∃ tail, done.getLast? = some tail ∧ last = cursorOf keys tail

/-- A page is the next part of the table. -/
theorem Serves.page (serves : Serves query table t) {done rest : List Row}
    (split : t.ordered = done ++ rest) {last : Option (List (Option Cell))}
    (stands : StandsAt keys done last) {limit : Nat} (enough : MIN_BATCH ≤ limit) :
    query (buildKeysetSql table keys last.isSome limit) (last.getD []) = rest.take limit := by
  cases last with
  | none =>
      have nothing : done = [] := stands
      rw [nothing, List.nil_append] at split
      rw [← split]
      exact serves.first limit enough
  | some cursor =>
      obtain ⟨tail, is, rfl⟩ := stands
      have there : tail ∈ t.rows := by
        rw [← t.ordered_perm.mem_iff, split]
        exact List.mem_append_left rest (List.mem_of_getLast? is)
      rw [← t.ordered_ascending.after split is fun r => decide_eq_true_iff]
      exact serves.next limit enough tail there

/-- From any place the loop yields what is left, whatever the sizes of the pages to come are. -/
theorem Serves.pages (serves : Serves query table t) {nextLimit : Nat → List Row → Nat}
    (sizes : ∀ i rows, MIN_BATCH ≤ nextLimit i rows) {n : Nat} {done rest : List Row}
    (split : t.ordered = done ++ rest) {last : Option (List (Option Cell))}
    (stands : StandsAt keys done last) {limit : Nat} (enough : MIN_BATCH ≤ limit)
    (fuel : rest.length < n) : keysetPages query table keys nextLimit n last limit = some rest := by
  induction n generalizing done rest last limit with
  | zero => omega
  | succ n ih =>
      have some_ : 0 < limit := Nat.lt_of_lt_of_le (by decide) enough
      unfold keysetPages
      dsimp only
      rw [serves.page split stands enough]
      cases tailIs : (rest.take limit).getLast? with
      | none =>
          rw [List.getLast?_eq_none_iff, List.take_eq_nil_iff] at tailIs
          rcases tailIs with zero | nothing
          · omega
          · rw [nothing]
      | some tail =>
          dsimp only
          by_cases full : limit ≤ (rest.take limit).length
          · rw [if_pos full]
            rw [List.length_take] at full
            have split' : t.ordered = (done ++ rest.take limit) ++ rest.drop limit := by
              rw [List.append_assoc, List.take_append_drop, split]
            have tail' : (done ++ rest.take limit).getLast? = some tail := by
              rw [List.getLast?_append, tailIs, Option.some_or]
            have stands' : StandsAt keys (done ++ rest.take limit) (some (cursorOf keys tail)) :=
              ⟨tail, tail', rfl⟩
            have later := ih split' stands' (sizes n (rest.take limit))
              (by rw [List.length_drop]; omega)
            rw [later, Option.map_some, List.take_append_drop]
          · rw [if_neg full]
            rw [List.length_take] at full
            rw [List.take_of_length_le (by omega)]

/-- Whatever the pages' sizes are, they are the table. -/
theorem Serves.keysetPages (serves : Serves query table t) {nextLimit : Nat → List Row → Nat}
    (sizes : ∀ i rows, MIN_BATCH ≤ nextLimit i rows) {fuel : Nat}
    (enough : t.rows.length < fuel) :
    keysetPages query table keys nextLimit fuel none MIN_BATCH = some t.ordered := by
  have start : StandsAt keys [] none := rfl
  have whole : t.ordered = [] ++ t.ordered := rfl
  refine serves.pages sizes whole start (le_refl MIN_BATCH) ?_
  rw [t.ordered_perm.length_eq]
  exact enough

theorem Serves.keysetRows (serves : Serves query table t) (quotient : Rat → Rat → Option Rat)
    (byteTarget : Rat) {fuel : Nat} (enough : t.rows.length < fuel) :
    keysetRows quotient query table keys byteTarget fuel = some t.ordered :=
  serves.keysetPages (fun _ _ => (nextBatchSize_window quotient _ _ (by decide)).1) enough

end

end PortalPonder.Harness
