import Mathlib.Data.String.Basic
import PortalPonder.Realtime.Degradation
import PortalPonder.Realtime.HotStream
import PortalPonder.Realtime.Link
import PortalPonder.Realtime.Wildcards
import PortalPonder.ShardBodies

/-!
# The cached request body

`streamHotBlocks` serializes a body once and posts it again as long as its key is the same. The key
has the revision of the requests in their place: the wire changes requests and widened keys only
together with the revision, and a body that widens keys itself is filed under the new one.
`Driven` is the stream, its producer and the wire, one step at a time.
-/

namespace PortalPonder.Realtime

open Client (Body Fields FieldKey DROPPABLE_FIELDS parseSchemaFieldError fieldsJson)
open Historical (Children)
open JSON (Value stringify units)

/-! ## Bodies -/

/-- What a body is serialized from. -/
structure HotBody where
  fromBlock : Int
  parentBlockHash : Option Hash
  fields : Fields
  logs : List (LogRequest Address Hex)
  deriving DecidableEq

def blockNumberJson : Int → Value
  | .ofNat n => JSON.ofNat n
  | .negSucc n => .num ('-' :: Nat.toDigits 10 (n + 1))

/-- `JSON.stringify(envelope(logs))` -/
def HotBody.text (b : HotBody) : List Nat :=
  stringify (.obj ([evmType, (units "fromBlock", blockNumberJson b.fromBlock)] ++
    (b.parentBlockHash.map fun hash => (units "parentBlockHash", Value.str (units hash))).toList ++
    [(units "includeAllBlocks", .bool true), (units "fields", fieldsJson b.fields),
      (units "logs", .arr (b.logs.map (LogRequest.toJson units units)))]))

structure DrivenArgs (F : Type) where
  hot : HotArgs
  wire : WireArgs F
  blockFields : List String
  logFields : List String
  txFields : List String
  checks : CheckMode

variable {F : Type} [DecidableEq F]

def DrivenArgs.fields (args : DrivenArgs F) : HotFields :=
  ⟨args.blockFields, args.logFields, some args.txFields⟩

/-- The body with some requests. -/
def DrivenArgs.envelope (args : DrivenArgs F) (cursor : Int) (parentBlockHash : Option Hash)
    (droppedFields : List FieldKey) (logs : List (LogRequest Address Hex)) : HotBody where
  fromBlock := cursor
  parentBlockHash := parentBlockHash
  fields := args.fields.request droppedFields
  logs := logs

/-- A body from scratch, and what it made of the widened keys. -/
def DrivenArgs.build (args : DrivenArgs F) (cursor : Int) (parentBlockHash : Option Hash)
    (droppedFields : List FieldKey) (logs : List (LogRequest Address Hex))
    (wildcardKeys : List (WildcardLogRequestKey Hex)) :
    Except InvariantViolation (HotBody × WildcardLogRequestsResult Address Hex) :=
  let envelope := args.envelope cursor parentBlockHash droppedFields
  let wildcarded := Wildcards.stripLogAddressesOverBudget args.checks
    { lower := String.toLower
      isDiscovery := fun request _ => isDiscoveryLogRequest args.wire request
      bodySize := fun requests => (envelope requests).text.length
      budget := SHARD_BODY_BUDGET
      requests := logs.map fun r => { r with transaction := true } } wildcardKeys
  wildcarded.map fun result => (envelope result.requests, result)

/-- `${cursor}|${revision}|${droppedFields.size}|${parentBlockHash ?? ''}` -/
def bodyKey (cursor : Int) (logsRevision dropped : Nat) (parentBlockHash : Option Hash) : String :=
  toString cursor ++ "|" ++ toString logsRevision ++ "|" ++ toString dropped ++ "|" ++
    parentBlockHash.getD ""

/-! ## The system -/

inductive DrivenStop where
  | wire (stop : WireStop)
  /-- a body that stays over the budget -/
  | body (v : InvariantViolation)

structure Driven (F : Type) where
  feed : Feed
  droppedFields : List FieldKey
  /-- the last body, with its key -/
  cached : Option (String × HotBody)
  /-- the body of the request that is not answered yet -/
  posted : Option HotBody
  /-- yielded by the producer, and not yet taken by the wire -/
  pending : List PortalRealtimeEvent
  wire : WireState F
  stop : Option DrivenStop

inductive DrivenAction where
  | post
  /-- `none` when the fetch throws -/
  | answer (res : Option HotResponse) (env : Env)
  | race (beat : Bool) (env : Env)
  | resume
  | abort
  /-- the wire takes the next event -/
  | consume

namespace Driven

def start (args : DrivenArgs F) (base : Children F Address) (anchor : Light) (now : Int) :
    Driven F where
  feed := .start args.hot anchor now
  droppedFields := []
  cached := none
  posted := none
  pending := []
  wire := .start args.wire base
  stop := none

/-- The stream reads the revision of the wire. -/
def withWire (s : Driven F) (wire : WireState F) : Driven F :=
  { s with wire := wire, feed := { s.feed with logsRevision := wire.logsRevision } }

def setWildcardLogRequestKeys (s : Driven F) (next : List (WildcardLogRequestKey Hex)) : Driven F :=
  s.withWire { s.wire with wildcardLogKeys := next, logsRevision := s.wire.logsRevision + 1 }

def computeBodyKey (s : Driven F) (parentBlockHash : Option Hash) : String :=
  bodyKey s.feed.stream.shell.cursor s.wire.logsRevision s.droppedFields.length parentBlockHash

/-- The body of the present inputs. -/
def build (args : DrivenArgs F) (s : Driven F) (parentBlockHash : Option Hash) :
    Except InvariantViolation (HotBody × WildcardLogRequestsResult Address Hex) :=
  args.build s.feed.stream.shell.cursor parentBlockHash s.droppedFields s.wire.logs
    s.wire.wildcardLogKeys

/-- From the loop top to the request. -/
def onPost (args : DrivenArgs F) (s : Driven F) : Driven F :=
  match resumeParent s.feed.floor s.feed.stream.shell with
  | .error e => { s with feed := { s.feed with stop := some (.shell e) } }
  | .ok parentBlockHash =>
      match s.cached.filter fun c => c.1 = s.computeBodyKey parentBlockHash with
      | some (_, body) => { s with posted := some body }
      | none =>
          match s.build args parentBlockHash with
          | .error v => { s with stop := some (.body v) }
          | .ok (body, wildcarded) =>
              let s :=
                if wildcarded.flipped.isEmpty then s
                else s.setWildcardLogRequestKeys wildcarded.wildcard
              -- the key of the next round, if nothing changes
              { s with
                cached := some (s.computeBodyKey parentBlockHash, body)
                posted := some body }

/-- The droppable field that a 4xx names. -/
def refusedField (s : Driven F) (posted : HotBody) (res : HotResponse) : Option FieldKey :=
  if 400 ≤ res.status ∧ res.status < 500 ∧ res.status ≠ 429 ∧ res.status ≠ 409 then
    match parseSchemaFieldError res.status ((res.body.map Body.refusal).getD []) posted.fields with
    | some (.schemaField fieldKey _ _) =>
        if fieldKey ∈ DROPPABLE_FIELDS ∧ fieldKey ∉ s.droppedFields then some fieldKey else none
    | _ => none
  else none

/-- The stream moves on; what its producer yielded waits for the wire. -/
def advance (s : Driven F) (feed : Feed) : Driven F :=
  { s with
    feed := feed
    pending := (feed.history.drop s.feed.history.length).flatMap Taken.events }

def onAnswer (args : DrivenArgs F) (s : Driven F) (posted : HotBody) (res : Option HotResponse)
    (env : Env) : Driven F :=
  let dropped := res.bind (s.refusedField posted)
  let res := res.map fun r => { r with droppable := dropped.isSome }
  { s.advance (s.feed.onRequest args.hot res (Pipe.handshake s.wire env)) with
    posted := none
    droppedFields := dropped.toList ++ s.droppedFields }

def onConsume (args : DrivenArgs F) (s : Driven F) (e : PortalRealtimeEvent)
    (rest : List PortalRealtimeEvent) : Driven F :=
  let t := (onEvent args.wire e).run s.wire
  { s.withWire t.state with
    pending := rest
    stop := (Turn.stop t).map .wire }

/-- A step of the open connection. -/
def onStream (args : DrivenArgs F) (s : Driven F) (a : FeedAction) : Option (Driven F) :=
  if s.posted.isSome then none else (s.feed.step args.hot a).map s.advance

def step (args : DrivenArgs F) (s : Driven F) (a : DrivenAction) : Option (Driven F) :=
  if s.stop.isSome then none
  else
    match a, s.pending with
    | .consume, e :: rest => some (s.onConsume args e rest)
    | .consume, [] => none
    | _, _ :: _ => none
    | .post, [] =>
        if s.feed.stop.isSome ∨ s.posted.isSome ∨ s.feed.stream.phase ≠ .top then none
        else some (s.onPost args)
    | .answer res env, [] => s.posted.map fun posted => s.onAnswer args posted res env
    | .race beat env, [] => s.onStream args (.race beat (Pipe.handshake s.wire env))
    | .resume, [] => s.onStream args .resume
    | .abort, [] => s.onStream args .abort

/-- The body built from scratch. -/
def scratch (args : DrivenArgs F) (s : Driven F) : Option HotBody :=
  match resumeParent s.feed.floor s.feed.stream.shell with
  | .error _ => none
  | .ok parentBlockHash => (s.build args parentBlockHash).toOption.map Prod.fst

end Driven

/-! ## Keys -/

/-- A text up to the first bar. -/
theorem append_bar_inj {a b s t : List Char} (noBarA : '|' ∉ a) (noBarB : '|' ∉ b)
    (same : a ++ '|' :: s = b ++ '|' :: t) : a = b ∧ s = t := by
  induction a generalizing b with
  | nil =>
      cases b with
      | nil => exact ⟨rfl, (List.cons.inj same).2⟩
      | cons c b => exact absurd ((List.cons.inj same).1 ▸ List.mem_cons_self) noBarB
  | cons c a ih =>
      cases b with
      | nil => exact absurd ((List.cons.inj same).1 ▸ List.mem_cons_self) noBarA
      | cons d b =>
          obtain ⟨head, rest⟩ := List.cons.inj same
          obtain ⟨tails, ends⟩ := ih (fun mem => noBarA (List.mem_cons_of_mem c mem))
            (fun mem => noBarB (List.mem_cons_of_mem d mem)) rest
          exact ⟨by rw [head, tails], ends⟩

theorem digits_noBar {c : Char} {n : Nat} (mem : c ∈ Nat.toDigits 10 n) : c ≠ '|' ∧ c ≠ '-' := by
  have digit := Nat.isDigit_of_mem_toDigits (by decide) (by decide) mem
  constructor
  · rintro rfl
    cases digit
  · rintro rfl
    cases digit

theorem toDigits_inj {m n : Nat} (same : Nat.toDigits 10 m = Nat.toDigits 10 n) : m = n := by
  have read := congrArg (fun ds => Nat.ofDigitChars 10 ds 0) same
  simpa [Nat.ofDigitChars_toDigits] using read

theorem natText (n : Nat) : (toString n).toList = Nat.toDigits 10 n := by
  simp [Nat.toString_eq_repr, Nat.repr]

theorem ofNatText (n : Nat) : (toString (Int.ofNat n)).toList = Nat.toDigits 10 n := by
  simp [Int.toString_eq_repr, Int.repr, Nat.repr]

theorem negSuccText (n : Nat) :
    (toString (Int.negSucc n)).toList = '-' :: Nat.toDigits 10 (n + 1) := by
  simp [Int.toString_eq_repr, Int.repr, Nat.repr]

theorem nat_noBar (n : Nat) : '|' ∉ (toString n).toList := by
  rw [natText]
  exact fun mem => (digits_noBar mem).1 rfl

theorem int_noBar (n : Int) : '|' ∉ (toString n).toList := by
  cases n with
  | ofNat n =>
      rw [ofNatText]
      exact fun mem => (digits_noBar mem).1 rfl
  | negSucc n =>
      rw [negSuccText]
      rintro (_ | ⟨_, mem⟩)
      exact (digits_noBar mem).1 rfl

theorem nat_text_inj {m n : Nat} (same : (toString m).toList = (toString n).toList) : m = n := by
  rw [natText, natText] at same
  exact toDigits_inj same

theorem int_text_inj {m n : Int} (same : (toString m).toList = (toString n).toList) : m = n := by
  have signed : ∀ a b : Nat, Nat.toDigits 10 a ≠ '-' :: Nat.toDigits 10 b := fun a b eq =>
    (digits_noBar (eq ▸ List.mem_cons_self)).2 rfl
  cases m with
  | ofNat m =>
      cases n with
      | ofNat n =>
          rw [ofNatText, ofNatText] at same
          rw [toDigits_inj same]
      | negSucc n =>
          rw [ofNatText, negSuccText] at same
          exact absurd same (signed _ _)
  | negSucc m =>
      cases n with
      | ofNat n =>
          rw [ofNatText, negSuccText] at same
          exact absurd same.symm (signed _ _)
      | negSucc n =>
          rw [negSuccText, negSuccText] at same
          have next := toDigits_inj (List.cons.inj same).2
          rw [Nat.succ.inj next]

/-- A key tells what it is made of; only a missing hash reads as an empty one. -/
theorem bodyKey_inj {cursor cursor' : Int} {rev rev' dropped dropped' : Nat}
    {parent parent' : Option Hash}
    (same : bodyKey cursor rev dropped parent = bodyKey cursor' rev' dropped' parent') :
    cursor = cursor' ∧ rev = rev' ∧ dropped = dropped' ∧ parent.getD "" = parent'.getD "" := by
  have chars := congrArg String.toList same
  have bar : "|".toList = ['|'] := rfl
  simp only [bodyKey, String.toList_append, bar, List.append_assoc, List.singleton_append] at chars
  obtain ⟨first, chars⟩ := append_bar_inj (int_noBar cursor) (int_noBar cursor') chars
  obtain ⟨second, chars⟩ := append_bar_inj (nat_noBar rev) (nat_noBar rev') chars
  obtain ⟨third, chars⟩ := append_bar_inj (nat_noBar dropped) (nat_noBar dropped') chars
  exact ⟨int_text_inj first, nat_text_inj second, nat_text_inj third, String.toList_inj.1 chars⟩

/-! ## What a step changes of the inputs -/

section Steps

variable {args : DrivenArgs F}

/-- A body that was built is built again once its keys are kept. -/
theorem build_again {cursor : Int} {parent : Option Hash} {dropped : List FieldKey}
    {logs : List (LogRequest Address Hex)} {keys : List (WildcardLogRequestKey Hex)}
    {body : HotBody} {wildcarded : WildcardLogRequestsResult Address Hex}
    (built : args.build cursor parent dropped logs keys = .ok (body, wildcarded)) :
    args.build cursor parent dropped logs wildcarded.wildcard =
      .ok (body, ⟨wildcarded.requests, wildcarded.wildcard, []⟩) := by
  unfold DrivenArgs.build at built ⊢
  dsimp only at built ⊢
  generalize strips : Wildcards.stripLogAddressesOverBudget args.checks _ keys = stripped at built
  cases stripped with
  | error v => cases built
  | ok result =>
      cases built
      rw [Wildcards.stripLogAddressesOverBudget_again strips]
      rfl

/-- The requests and the widened keys change only with the revision. -/
structure Revised (w w' : WireState F) : Prop where
  le : w.logsRevision ≤ w'.logsRevision
  same : w.logsRevision = w'.logsRevision →
    w'.logs = w.logs ∧ w'.wildcardLogKeys = w.wildcardLogKeys

omit [DecidableEq F] in
theorem Revised.of_unwidened {w w' : WireState F} (same : Unwidened w w') : Revised w w' :=
  ⟨Nat.le_of_eq same.revision.symm, fun _ => ⟨same.logs, same.keys⟩⟩

omit [DecidableEq F] in
theorem Revised.of_next {w w' : WireState F} (next : w'.logsRevision = w.logsRevision + 1) :
    Revised w w' := ⟨by omega, fun same => by omega⟩

theorem Handled.revised {w w' : WireState F} {e : PortalRealtimeEvent}
    {outs : List (RealtimeSyncEvent F)} {stop : Option WireStop}
    (handled : Handled args.wire w e outs w' stop) : Revised w w' := by
  cases handled with
  | held awaits reaches => exact .of_unwidened ⟨rfl, rfl, rfl⟩
  | finalized below => exact .of_unwidened (emitted_unwidened args.wire w _)
  | reorged =>
      rcases prune_requests args.wire w _ _ with same | rebuilt
      · exact .of_unwidened same
      · exact .of_next rebuilt.revision
  | lost awaits other => exact .of_unwidened ⟨rfl, rfl, rfl⟩
  | suppressed awaited incomplete => exact .of_next rfl
  | forwarded awaited complete => exact .of_unwidened (released_requests args.wire w _ _)

/-! ## The shell stays armed -/

theorem negotiate409_armed {lo : Int} {shell t : Shell} {prev : Option (List NumberedHash)}
    (ok : negotiate409 lo shell prev = .ok t) : t.armed = shell.armed := by
  unfold negotiate409 at ok
  dsimp only at ok
  split at ok
  · cases ok
  · split at ok
    · cases ok
      rfl
    · split at ok
      · cases ok
      · cases ok
        rfl

theorem onRequest_armed (hot : HotArgs) (feed : Feed) (res : Option HotResponse) (env : Env) :
    (feed.onRequest hot res env).stream.shell.armed = feed.stream.shell.armed := by
  unfold Feed.onRequest
  cases resumeParent feed.floor feed.stream.shell with
  | error e => rfl
  | ok parent =>
      cases res with
      | none => rfl
      | some res =>
          dsimp only
          split
          · rfl
          · split
            · cases moved : negotiate409 feed.floor feed.stream.shell res.previousBlocks with
              | error e => rfl
              | ok shell => exact negotiate409_armed moved
            · split
              · split
                · split <;> rfl
                · rfl
              · cases res.body <;> rfl

theorem step_armed {hot : HotArgs} {feed feed' : Feed} {a : FeedAction}
    (taken : feed.step hot a = some feed') : feed'.stream.shell.armed = feed.stream.shell.armed := by
  obtain ⟨-, stepped⟩ := Feed.step_cases taken
  cases stepped with
  | request top => exact onRequest_armed hot feed _ _
  | @race beat env conn racing =>
      unfold Feed.onRace
      split
      · rfl
      · rfl
      · rfl
      · unfold Feed.onLine
        dsimp only
        split
        · rfl
        · split <;> rfl
  | resume yielded =>
      unfold Feed.onResume
      split <;> rfl
  | revise => rfl
  | abort => rfl

/-! ## The invariant -/

/-- A cached body is the one that its key's inputs give, as long as they are the present ones. -/
def CachedFor (args : DrivenArgs F) (s : Driven F) (key : String) (body : HotBody) : Prop :=
  ∃ cursor hash rev dropped, key = bodyKey cursor rev dropped (some hash) ∧
    rev ≤ s.wire.logsRevision ∧ dropped ≤ s.droppedFields.length ∧
    (rev = s.wire.logsRevision → dropped = s.droppedFields.length →
      ∃ wildcarded, args.build cursor (some hash) s.droppedFields s.wire.logs
        s.wire.wildcardLogKeys = .ok (body, wildcarded))

/-- Dropped fields are added one at a time. -/
theorem CachedFor.step {s s' : Driven F} {key : String} {body : HotBody}
    (holds : CachedFor args s key body) (wire : Revised s.wire s'.wire)
    (dropped : ∃ added, s'.droppedFields = added ++ s.droppedFields) :
    CachedFor args s' key body := by
  obtain ⟨cursor, hash, rev, size, is, revLe, sizeLe, built⟩ := holds
  obtain ⟨added, dropped⟩ := dropped
  have longer : s'.droppedFields.length = added.length + s.droppedFields.length := by
    rw [dropped, List.length_append]
  refine ⟨cursor, hash, rev, size, is, Nat.le_trans revLe wire.le, by omega, ?_⟩
  intro atRev atSize
  have sameRev : s.wire.logsRevision = s'.wire.logsRevision :=
    Nat.le_antisymm wire.le (atRev ▸ revLe)
  obtain ⟨logs, keys⟩ := wire.same sameRev
  have none_ : added = [] := List.length_eq_zero_iff.1 (by omega)
  rw [logs, keys, dropped, none_, List.nil_append]
  exact built (atRev.trans sameRev.symm) (by omega)

structure BodyInv (args : DrivenArgs F) (s : Driven F) : Prop where
  armed : s.feed.stream.shell.armed = true
  cached : ∀ key body, s.cached = some (key, body) → CachedFor args s key body
  posted : ∀ body, s.posted = some body → s.scratch args = some body
  /-- nothing is posted while events wait for the wire -/
  busy : s.pending ≠ [] → s.posted = none

theorem BodyInv.start (base : Children F Address) (anchor : Light) (now : Int) :
    BodyInv args (.start args base anchor now) := ⟨rfl, nofun, nofun, fun _ => rfl⟩

/-- The hash of an armed stream's next request. -/
theorem resumeParent_some {lo : Int} {shell : Shell} {parent : Option Hash}
    (armed : shell.armed = true) (ok : resumeParent lo shell = .ok parent) :
    ∃ hash, parent = some hash := by
  unfold resumeParent at ok
  dsimp only at ok
  split at ok
  · cases ok
  · next known =>
    cases ok
    exact Option.ne_none_iff_exists'.1 fun none_ => known ⟨armed, none_⟩

theorem scratch_of_built {s : Driven F} {parent : Option Hash} {body : HotBody}
    {wildcarded : WildcardLogRequestsResult Address Hex}
    (ok : resumeParent s.feed.floor s.feed.stream.shell = .ok parent)
    (built : s.build args parent = .ok (body, wildcarded)) : s.scratch args = some body := by
  unfold Driven.scratch
  rw [ok]
  dsimp only
  rw [built]
  rfl

/-- A body is posted from the cache only if its inputs are the present ones. -/
theorem CachedFor.hit {s : Driven F} {key : String} {body : HotBody} {hash : Hash}
    (holds : CachedFor args s key body) (same : key = s.computeBodyKey (some hash)) :
    ∃ wildcarded, s.build args (some hash) = .ok (body, wildcarded) := by
  obtain ⟨cursor, hash', rev, size, is, -, -, built⟩ := holds
  rw [is] at same
  obtain ⟨rfl, atRev, atSize, rfl⟩ := bodyKey_inj same
  exact built atRev atSize

theorem BodyInv.post {s : Driven F} (inv : BodyInv args s) (idle : s.posted = none)
    (taken : s.pending = []) : BodyInv args (s.onPost args) := by
  have nothing : ∀ body, s.posted = some body → s.scratch args = some body := by
    intro body is
    cases idle.symm.trans is
  unfold Driven.onPost
  cases parent : resumeParent s.feed.floor s.feed.stream.shell with
  | error e => exact ⟨inv.armed, inv.cached, nothing, inv.busy⟩
  | ok parentBlockHash =>
      obtain ⟨hash, rfl⟩ := resumeParent_some inv.armed parent
      dsimp only
      cases found : s.cached.filter fun c => c.1 = s.computeBodyKey (some hash) with
      | some c =>
          obtain ⟨key, body⟩ := c
          obtain ⟨isCached, same⟩ := Option.filter_eq_some_iff.1 found
          refine ⟨inv.armed, inv.cached, fun body' is => ?_, fun some_ => absurd taken some_⟩
          cases is
          obtain ⟨wildcarded, built⟩ := (inv.cached key body isCached).hit (of_decide_eq_true same)
          exact scratch_of_built (s := { s with posted := some body }) parent built
      | none =>
          cases built : s.build args (some hash) with
          | error v => exact ⟨inv.armed, inv.cached, nothing, inv.busy⟩
          | ok made =>
              obtain ⟨body, wildcarded⟩ := made
              dsimp only
              by_cases kept : wildcarded.flipped.isEmpty = true
              · rw [if_pos kept]
                refine ⟨inv.armed, ?_, ?_, fun some_ => absurd taken some_⟩
                · intro key body' is
                  cases is
                  exact ⟨_, hash, _, _, rfl, Nat.le_refl _, Nat.le_refl _, fun _ _ => ⟨_, built⟩⟩
                · intro body' is
                  cases is
                  exact scratch_of_built (s := { s with cached := _, posted := some body }) parent
                    built
              · -- the widened keys are kept: with them the same body is built
                rw [if_neg kept]
                have again := build_again built
                refine ⟨inv.armed, ?_, ?_, fun some_ => absurd taken some_⟩
                · intro key body' is
                  cases is
                  exact ⟨_, hash, _, _, rfl, Nat.le_refl _, Nat.le_refl _, fun _ _ => ⟨_, again⟩⟩
                · intro body' is
                  cases is
                  exact scratch_of_built
                    (s := { s.setWildcardLogRequestKeys wildcarded.wildcard with
                      cached := _
                      posted := some body }) parent again

theorem BodyInv.answer {s : Driven F} (inv : BodyInv args s) (posted : HotBody)
    (res : Option HotResponse) (env : Env) : BodyInv args (s.onAnswer args posted res env) where
  armed := (onRequest_armed ..).trans inv.armed
  cached := fun key body is =>
    (inv.cached key body is).step (.of_unwidened ⟨rfl, rfl, rfl⟩) ⟨_, rfl⟩
  posted := nofun
  busy := fun _ => rfl

theorem BodyInv.stream {s s' : Driven F} (inv : BodyInv args s) {a : FeedAction}
    (taken : s.onStream args a = some s') : BodyInv args s' := by
  unfold Driven.onStream at taken
  split at taken
  · cases taken
  · next idle =>
    obtain ⟨feed, step, rfl⟩ := Option.map_eq_some_iff.1 taken
    have none_ : s.posted = none := by simpa using idle
    refine ⟨(step_armed step).trans inv.armed, fun key body is => ?_, fun body is => ?_,
      fun _ => none_⟩
    · exact (inv.cached key body is).step (.of_unwidened ⟨rfl, rfl, rfl⟩) ⟨[], rfl⟩
    · cases none_.symm.trans is

theorem BodyInv.consume {s : Driven F} (inv : BodyInv args s) (idle : s.posted = none)
    (e : PortalRealtimeEvent) (rest : List PortalRealtimeEvent) :
    BodyInv args (s.onConsume args e rest) where
  armed := inv.armed
  cached := fun key body is =>
    (inv.cached key body is).step (onEvent_handled e).revised ⟨[], rfl⟩
  posted := fun body is => by cases idle.symm.trans is
  busy := fun _ => idle

theorem BodyInv.step {s s' : Driven F} (inv : BodyInv args s) {a : DrivenAction}
    (taken : s.step args a = some s') : BodyInv args s' := by
  unfold Driven.step at taken
  split at taken
  · cases taken
  · split at taken
    · next e rest pending =>
      cases taken
      exact inv.consume (inv.busy (by rw [pending]; exact List.cons_ne_nil e rest)) e rest
    · cases taken
    · cases taken
    · next pending =>
      split at taken
      · cases taken
      · next idle =>
        cases taken
        simp only [not_or] at idle
        exact inv.post (by simpa using idle.2.1) pending
    · next res env pending =>
      obtain ⟨posted, -, rfl⟩ := Option.map_eq_some_iff.1 taken
      exact inv.answer posted res _
    · exact inv.stream taken
    · exact inv.stream taken
    · exact inv.stream taken

/-- In every state, the body that is posted is the one that its present inputs give. -/
theorem posted_from_scratch (args : DrivenArgs F) (base : Children F Address) (anchor : Light)
    (now : Int) {s : Driven F}
    (reached : Machine.Reach (Driven.step args) (fun _ _ => True) (.start args base anchor now) s) :
    ∀ body, s.posted = some body → s.scratch args = some body :=
  (reached.invariant (I := BodyInv args) (.start base anchor now)
    fun _ _ _ _ inv _ taken => inv.step taken).posted

end Steps

def cacheArgs : DrivenArgs String where
  hot := ⟨101, {}, fun _ => none, false⟩
  wire := sampleArgs
  blockFields := Client.BLOCK_FIELDS
  logFields := Client.LOG_FIELDS
  txFields := Client.TX_FIELDS
  checks := .on

def unknownMixHash : Body where
  reads := ["unknown field ".toList ++ Client.backquote :: "mixHash".toList ++ [Client.backquote]]
  flush := []
  failure := none

/-- A field is dropped, and the body without it is posted twice. -/
def cacheRun : List DrivenAction :=
  [.post, .answer (some ⟨400, some unknownMixHash, none, false⟩) ⟨fun _ => false, 1, 1, none⟩,
    .post, .answer none ⟨fun _ => false, 2, 2, none⟩, .post]

theorem cacheRun_runs : (Machine.replay (Driven.step cacheArgs)
    (.start cacheArgs (fun _ => .empty) ⟨100, "0x100", "0x099", 0⟩ 0) cacheRun).isSome := by
  decide +kernel

def cacheEnd : Driven String := (Machine.replay (Driven.step cacheArgs)
  (.start cacheArgs (fun _ => .empty) ⟨100, "0x100", "0x099", 0⟩ 0) cacheRun).get cacheRun_runs

theorem posted_from_scratch_sample :
    (cacheEnd.posted.map fun body => (body.fromBlock, body.parentBlockHash, body.logs.length)) =
        some (101, some "0x100", 1) ∧
      cacheEnd.droppedFields = [⟨"block", "mixHash"⟩] ∧
      ∀ body, cacheEnd.posted = some body → cacheEnd.scratch cacheArgs = some body := by
  have reached : Machine.Reach (Driven.step cacheArgs) (fun _ _ => True)
      (.start cacheArgs (fun _ => .empty) ⟨100, "0x100", "0x099", 0⟩ 0) cacheEnd :=
    Machine.Reach.init.replay (by decide +kernel) (Option.some_get cacheRun_runs).symm
  exact ⟨by decide +kernel, by decide +kernel, posted_from_scratch cacheArgs _ _ 0 reached⟩

end PortalPonder.Realtime
