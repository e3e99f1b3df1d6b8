import TokenMarkup.Highlight
import TokenMarkup.Metrics

/-!
# Highlighting on record

`Traced` is a computation together with the events that it puts on record. The stages of a request
are traced here: a stage is timed whether it succeeds or not, and counts something only when it
succeeds. How long a stage takes is up to a clock outside. The outcome of a traced request is that
of the plain one.
-/

namespace TokenMarkup

/-- An outcome and the events on the way to it. -/
structure Traced (α : Type) where
  events : List Event
  outcome : Except Fault α

namespace Traced

variable {α β : Type}

/-- An outcome with nothing on record. -/
def done (value : α) : Traced α := ⟨[], .ok value⟩

/-- Goes on with the value of a success. -/
def andThen (first : Traced α) (next : α → Traced β) : Traced β :=
  match first.outcome with
  | .ok value => ⟨first.events ++ (next value).events, (next value).outcome⟩
  | .error fault => ⟨first.events, .error fault⟩

/-- Changes the value of a success. -/
def map (f : α → β) (traced : Traced α) : Traced β := ⟨traced.events, f <$> traced.outcome⟩

/-- A stage that took `micros` microseconds. What it counts depends on its value. -/
def stage (name : String) (micros : Nat) (outcome : Except Fault α) (counts : α → List Event) :
    Traced α :=
  ⟨(match outcome with
      | .ok value => counts value
      | .error _ => []) ++ [.time name micros], outcome⟩

@[simp] theorem outcome_done (value : α) : (done value).outcome = .ok value := rfl

@[simp] theorem outcome_map (f : α → β) (traced : Traced α) :
    (traced.map f).outcome = f <$> traced.outcome := rfl

@[simp] theorem outcome_stage (name : String) (micros : Nat) (outcome : Except Fault α)
    (counts : α → List Event) : (stage name micros outcome counts).outcome = outcome := rfl

@[simp] theorem outcome_andThen (first : Traced α) (next : α → Traced β) :
    (first.andThen next).outcome = first.outcome >>= fun value => (next value).outcome := by
  unfold andThen
  cases first.outcome <;> rfl

end Traced

/-- How long a stage takes, in microseconds, by its name. -/
abbrev Clock := String → Nat

namespace Request

/-- The lexical tokens, on record if there are lexemes to use. -/
def traceLexical (request : Request) (settings : Settings) (clock : Clock) :
    Traced (List Token) :=
  if request.usesLexemes then
    Traced.stage "adapt" (clock "adapt") (request.lexical settings) fun tokens =>
      [.count .lexicalTokens tokens.length,
        .count .droppedLexemes (Lexemes.dropped request.lexemes)]
  else .done []

/-- The tokens of a text, on record. -/
def traceTokens (request : Request) (settings : Settings) (clock : Clock) :
    Traced (List Token) :=
  (Traced.stage "decode" (clock "decode") request.semantic fun tokens =>
    [.count .decodedTokens tokens.length]).andThen fun semantic =>
  (request.traceLexical settings clock).andThen fun lexical =>
  (Traced.stage "merge" (clock "merge") (Overlay.merge semantic lexical) fun overlay =>
    [.count .occludedTokens overlay.occluded]).map Overlay.tokens

/-- The spans of a text, on record. -/
def traceSpans (request : Request) (settings : Settings) (clock : Clock) : Traced (List Span) :=
  (request.traceTokens settings clock).andThen fun tokens =>
  Traced.stage "staple" (clock "staple")
    (Span.ofTokens tokens request.lines (request.encoding settings)) fun spans =>
    [.count .stapledSpans spans.length]

/-- A text as markup, on record. Only here it counts as a failure that a text cannot be
highlighted. -/
def traceMarkup (request : Request) (settings : Settings) (clock : Clock) : Traced Text :=
  let spans := request.traceSpans settings clock
  match spans.outcome with
  | .ok value =>
    ⟨spans.events ++ [.time "render" (clock "render"), .count .filesRendered 1],
      .ok (Markup.render settings.stems value)⟩
  | .error fault => ⟨spans.events ++ [.count .highlightFailures 1], .error fault⟩

@[simp] theorem outcome_traceLexical (request : Request) (settings : Settings) (clock : Clock) :
    (request.traceLexical settings clock).outcome = request.lexical settings := by
  unfold traceLexical lexical
  split <;> rfl

@[simp] theorem outcome_traceTokens (request : Request) (settings : Settings) (clock : Clock) :
    (request.traceTokens settings clock).outcome = request.tokens settings := by
  simp only [traceTokens, Traced.outcome_andThen, Traced.outcome_stage, Traced.outcome_map,
    outcome_traceLexical, tokens, overlay]
  cases request.semantic with
  | error fault => rfl
  | ok semantic => cases request.lexical settings <;> rfl

@[simp] theorem outcome_traceSpans (request : Request) (settings : Settings) (clock : Clock) :
    (request.traceSpans settings clock).outcome = request.spans settings := by
  simp [traceSpans, spans]

@[simp] theorem outcome_traceMarkup (request : Request) (settings : Settings) (clock : Clock) :
    (request.traceMarkup settings clock).outcome = request.markup settings := by
  simp only [traceMarkup, outcome_traceSpans, markup]
  cases request.spans settings <;> rfl

end Request

/-! ## Sessions -/

/-- What is asked for in a session. -/
inductive Command where
  | tokens (request : Request)
  | spans (request : Request)
  | highlight (request : Request)
  /-- Start the record anew. -/
  | reset
deriving DecidableEq, Repr

namespace Command

/-- The record after a command. -/
def run (settings : Settings) (clock : Clock) (metrics : Metrics) : Command → Metrics
  | tokens request => metrics.recordAll (request.traceTokens settings clock).events
  | spans request => metrics.recordAll (request.traceSpans settings clock).events
  | highlight request => metrics.recordAll (request.traceMarkup settings clock).events
  | reset => .empty

end Command

end TokenMarkup
