import PortalPonder.Client.Truncation

/-!
# The head probe

`readTextWithIdle` gives whatever text has come when a body stalls or is dropped, and the probe
parses it all the same. What is read off a body that was cut at a byte is nevertheless what its
sender put there, or nothing: a cut is accepted as an object only when it is the whole one.
Waiting, and the timers themselves, are left out; when one of them wins is part of the answer.
-/

namespace PortalPonder.Client

open JSON (Text Value)

/-- How the reading of a body ends. -/
inductive Ending where
  /-- the sender closes it, which a cut connection may look like -/
  | done
  /-- a read stalls, or fails -/
  | stalled
  deriving DecidableEq, Repr

inductive ResponseBody where
  | stream (reads : List (List UInt8)) (ending : Ending)
  /-- no stream: the text, unless the idle timer wins or `text()` rejects -/
  | plain (text : Option Text)

/-- What a request is answered with. -/
inductive Answer where
  /-- `fetch` rejects, or the connect timer aborts it -/
  | rejected
  | response (body : ResponseBody)
  /-- neither stream nor `text()` -/
  | json (value : Option Value)

/-- All that was decoded, and the decoder's last word if the end came. -/
def readTextWithIdle : ResponseBody → Text
  | .stream reads .done =>
      let decoded := Utf8.Decoder.init.stream reads
      decoded.2.flatten ++ decoded.1.flush
  | .stream reads .stalled => (Utf8.Decoder.init.stream reads).2.flatten
  | .plain text => text.getD []

/-- The value of an answer, when it parses. -/
def Answer.parsed : Answer → Option Value
  | .rejected => none
  | .response body => JSON.parse (readTextWithIdle body)
  | .json value => value

structure Head (N : Type) where
  number : N
  hash : Option (List Nat)
  deriving DecidableEq, Repr

section

variable {N : Type} (toNumber : Text → N)

/-- `h?.number` and `h?.hash`, each only when it has its type. -/
def headOf (h : Value) : Option (Head N) :=
  match member "number" h with
  | some (.num lexeme) =>
      some ⟨toNumber lexeme, match member "hash" h with
        | some (.str hash) => some hash
        | _ => none⟩
  | _ => none

/-- The status of the response is not looked at. -/
def probeFinalizedHead (answer : Answer) : Option (Head N) := answer.parsed.bind (headOf toNumber)

def finalizedHead (answer : Answer) : Option N := (probeFinalizedHead toNumber answer).map Head.number

/-- One attempt an answer; the first head that is there is returned. -/
def finalizedHeadRetry : List Answer → Option N
  | [] => none
  | answer :: answers =>
      match finalizedHead toNumber answer with
      | some h => some h
      | none => finalizedHeadRetry answers

end

/-! ## Texts that are cut -/

/-- The end of a body adds the replacement character at most. -/
theorem readTextWithIdle_cut {text : Text} (plain : Utf8.Unmarked Utf8.Decoder.init text) {k : Nat}
    {reads : List (List UInt8)} (bytes : reads.flatten = (Utf8.encode text).take k)
    (ending : Ending) :
    readTextWithIdle (.stream reads ending) = (Utf8.charsBefore k text).1 ∨
      readTextWithIdle (.stream reads ending) =
        (Utf8.charsBefore k text).1 ++ [Utf8.replacement] := by
  obtain ⟨state, decoded⟩ := Utf8.stream_flatten (d := Utf8.Decoder.init) reads
  obtain ⟨out, last⟩ := Utf8.feedAll_encode (d := Utf8.Decoder.init) rfl plain k
  rw [bytes] at state decoded
  cases ending with
  | stalled =>
      left
      show (Utf8.Decoder.init.stream reads).2.flatten = _
      rw [decoded, out]
  | done =>
      show (Utf8.Decoder.init.stream reads).2.flatten ++ (Utf8.Decoder.init.stream reads).1.flush = _ ∨
        (Utf8.Decoder.init.stream reads).2.flatten ++ (Utf8.Decoder.init.stream reads).1.flush = _
      rw [decoded, out, state, last]
      by_cases inside : (Utf8.charsBefore k text).2 = true
      · right
        rw [if_pos inside]
      · left
        rw [if_neg inside, List.append_nil]

theorem charsBefore_prefix (k : Nat) (text : Text) :
    ∃ rest, text = (Utf8.charsBefore k text).1 ++ rest := by
  induction text generalizing k with
  | nil => exact ⟨[], rfl⟩
  | cons c cs ih =>
      rw [Utf8.charsBefore]
      by_cases fits : c.utf8Size ≤ k
      · obtain ⟨rest, split⟩ := ih (k - c.utf8Size)
        rw [if_pos fits]
        exact ⟨rest, by rw [List.cons_append, ← split]⟩
      · rw [if_neg fits]
        exact ⟨c :: cs, rfl⟩

/-- A body that starts as the text of a value, and goes on as it may: it is that value, or no
object. -/
theorem parse_stream_cut {text : Text} {v w : Value} (whole : JSON.parse text = some v) {k : Nat}
    {reads : List (List UInt8)} (bytes : reads.flatten = (Utf8.encode text).take k)
    {ending : Ending} (read : JSON.parse (readTextWithIdle (.stream reads ending)) = some w)
    (object : w.isObject = true) : w = v := by
  rcases readTextWithIdle_cut (.inr (JSON.parse_unmarked whole)) bytes ending with is | is
  · obtain ⟨rest, split⟩ := charsBefore_prefix k text
    rw [is] at read
    rw [split] at whole
    exact (JSON.parse_cut_object whole read object).symm
  · rw [is, show Utf8.replacement = '\uFFFD' from rfl, JSON.parse_replacement] at read
    cases read

/-! ## What was sent -/

/-- What a server sends for a value, and what may become of it on the way: some or all of its
bytes, in any reads. -/
inductive ResponseBody.Sends (sent : Value → Prop) : ResponseBody → Prop
  | stream {text : Text} {v : Value} (whole : JSON.parse text = some v) (here : sent v) {k : Nat}
      {reads : List (List UInt8)} (bytes : reads.flatten = (Utf8.encode text).take k)
      (ending : Ending) : Sends sent (.stream reads ending)
  | plain {text : Text} {v : Value} (whole : JSON.parse text = some v) (here : sent v) :
      Sends sent (.plain (some text))
  | nothing : Sends sent (.plain none)

inductive Answer.Sends (sent : Value → Prop) : Answer → Prop
  | rejected : Sends sent .rejected
  | response {body : ResponseBody} (sends : body.Sends sent) : Sends sent (.response body)
  | json {v : Value} (here : sent v) : Sends sent (.json (some v))
  | noJson : Sends sent (.json none)

section

variable {sent : Value → Prop} {text : Text} {v : Value}

/-- The first bytes of a body that then stalls. -/
theorem ResponseBody.Sends.stalled (whole : JSON.parse text = some v) (here : sent v) (k : Nat) :
    Sends sent (.stream [(Utf8.encode text).take k] .stalled) :=
  .stream whole here (List.append_nil _) .stalled

/-- A body that comes in two reads. -/
theorem ResponseBody.Sends.inTwo (whole : JSON.parse text = some v) (here : sent v) (k : Nat) :
    Sends sent (.stream [(Utf8.encode text).take k, (Utf8.encode text).drop k] .done) := by
  have bytes : [(Utf8.encode text).take k, (Utf8.encode text).drop k].flatten =
      (Utf8.encode text).take (Utf8.encode text).length := by simp
  exact .stream whole here bytes .done

/-- An object that is read was sent. -/
theorem ResponseBody.Sends.object {body : ResponseBody} (sends : body.Sends sent) {w : Value}
    (read : JSON.parse (readTextWithIdle body) = some w) (object : w.isObject = true) : sent w := by
  cases sends with
  | stream whole here bytes ending =>
      rw [parse_stream_cut whole bytes read object]
      exact here
  | @plain text v whole here =>
      have same : JSON.parse text = some w := read
      rw [whole] at same
      cases same
      exact here
  | nothing =>
      have empty : JSON.parse [] = some w := read
      cases empty

theorem Answer.Sends.object {answer : Answer} (sends : answer.Sends sent) {w : Value}
    (read : answer.parsed = some w) (object : w.isObject = true) : sent w := by
  cases sends with
  | rejected => cases read
  | response sends => exact sends.object read object
  | json here =>
      cases read
      exact here
  | noJson => cases read

end

/-- The number of a head that was sent. -/
def SentHead {N : Type} (toNumber : Text → N) (sent : Value → Prop) (n : N) : Prop :=
  ∃ h head, sent h ∧ headOf toNumber h = some head ∧ head.number = n

theorem member_object {key : String} {h m : Value} (found : member key h = some m) :
    h.isObject = true := by
  cases h with
  | obj members => rfl
  | _ => cases found

section

variable {N : Type} {toNumber : Text → N} {sent : Value → Prop}

theorem headOf_object {h : Value} {head : Head N} (is : headOf toNumber h = some head) :
    h.isObject = true := by
  unfold headOf at is
  split at is
  next lexeme number => exact member_object number
  next => cases is

/-- A head that is read is the one of an object that was sent. -/
theorem probeFinalizedHead_sent {answer : Answer} (sends : answer.Sends sent) {head : Head N}
    (probed : probeFinalizedHead toNumber answer = some head) :
    ∃ h, sent h ∧ headOf toNumber h = some head := by
  obtain ⟨h, read, is⟩ := Option.bind_eq_some_iff.1 probed
  exact ⟨h, sends.object read (headOf_object is), is⟩

theorem finalizedHead_sent {answer : Answer} (sends : answer.Sends sent) {n : N}
    (probed : finalizedHead toNumber answer = some n) : SentHead toNumber sent n := by
  obtain ⟨head, read, number⟩ := Option.map_eq_some_iff.1 probed
  obtain ⟨h, was, is⟩ := probeFinalizedHead_sent sends read
  exact ⟨h, head, was, is, number⟩

theorem finalizedHeadRetry_sent {answers : List Answer}
    (sends : ∀ answer ∈ answers, answer.Sends sent) {n : N}
    (probed : finalizedHeadRetry toNumber answers = some n) : SentHead toNumber sent n := by
  induction answers with
  | nil => cases probed
  | cons answer answers ih =>
      rw [finalizedHeadRetry] at probed
      split at probed
      next m found =>
        cases probed
        exact finalizedHead_sent (sends answer List.mem_cons_self) found
      next => exact ih (fun other mem => sends other (List.mem_cons_of_mem answer mem)) probed

end

end PortalPonder.Client
