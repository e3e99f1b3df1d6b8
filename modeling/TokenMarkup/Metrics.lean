/-!
# Metrics

What happened while texts were highlighted: seven counters, and how long the stages took. Counters
are 64-bit words and wrap around. Of each stage only the most recent times are kept, and
`Metrics.stats?` sums them up.
-/

namespace TokenMarkup

/-- What is counted. -/
inductive Counter where
  /-- Tokens read from semantic streams. -/
  | decodedTokens
  /-- Tokens made from lexemes. -/
  | lexicalTokens
  /-- Lexemes of a kind that is not shown. -/
  | droppedLexemes
  /-- Lexical tokens left out under semantic ones. -/
  | occludedTokens
  /-- Spans that texts were cut into. -/
  | stapledSpans
  /-- Texts that were highlighted. -/
  | filesRendered
  /-- Texts that could not be highlighted. -/
  | highlightFailures
deriving DecidableEq, Repr

/-- The counters. -/
structure Counters where
  decodedTokens : UInt64 := 0
  lexicalTokens : UInt64 := 0
  droppedLexemes : UInt64 := 0
  occludedTokens : UInt64 := 0
  stapledSpans : UInt64 := 0
  filesRendered : UInt64 := 0
  highlightFailures : UInt64 := 0
deriving DecidableEq, Repr

namespace Counters

/-- The state of one counter. -/
def get (counters : Counters) : Counter → UInt64
  | .decodedTokens => counters.decodedTokens
  | .lexicalTokens => counters.lexicalTokens
  | .droppedLexemes => counters.droppedLexemes
  | .occludedTokens => counters.occludedTokens
  | .stapledSpans => counters.stapledSpans
  | .filesRendered => counters.filesRendered
  | .highlightFailures => counters.highlightFailures

/-- Adds to one counter. -/
def add (counters : Counters) (counter : Counter) (amount : UInt64) : Counters :=
  match counter with
  | .decodedTokens => { counters with decodedTokens := counters.decodedTokens + amount }
  | .lexicalTokens => { counters with lexicalTokens := counters.lexicalTokens + amount }
  | .droppedLexemes => { counters with droppedLexemes := counters.droppedLexemes + amount }
  | .occludedTokens => { counters with occludedTokens := counters.occludedTokens + amount }
  | .stapledSpans => { counters with stapledSpans := counters.stapledSpans + amount }
  | .filesRendered => { counters with filesRendered := counters.filesRendered + amount }
  | .highlightFailures =>
    { counters with highlightFailures := counters.highlightFailures + amount }

/-- Adding to a counter leaves the others alone. -/
theorem get_add (counters : Counters) (counter other : Counter) (amount : UInt64) :
    (counters.add counter amount).get other =
      if other = counter then counters.get other + amount else counters.get other := by
  cases counter <;> cases other <;> rfl

/-- The part of the lexical tokens that was left out, as a floating-point number. -/
def occlusionRate (counters : Counters) : Float :=
  if counters.lexicalTokens = 0 then 0
  else counters.occludedTokens.toFloat / counters.lexicalTokens.toFloat

end Counters

/-- Something that goes on record. -/
inductive Event where
  /-- A counter rises. -/
  | count (counter : Counter) (amount : Nat)
  /-- A stage took so many microseconds. -/
  | time (stage : String) (micros : Nat)
deriving DecidableEq, Repr

/-- A duration of seconds and nanoseconds in whole microseconds. -/
def microseconds (seconds nanoseconds : Nat) : Nat :=
  seconds * 1000000 + nanoseconds / 1000

/-! ## Times of a stage -/

/-- The times of one stage, in microseconds, oldest first. -/
abbrev Samples := List UInt64

namespace Samples

/-- How many times of a stage are kept. -/
def capacity : Nat := 1024

/-- Adds the latest time. The oldest one makes room if need be. -/
def push (samples : Samples) (micros : UInt64) : Samples :=
  (if samples.length = capacity then samples.drop 1 else samples) ++ [micros]

end Samples

/-- The times of all stages, each stage once. -/
abbrev Timings := List (String × Samples)

namespace Timings

/-- Adds the latest time of a stage. -/
def push (stage : String) (micros : UInt64) : Timings → Timings
  | [] => [(stage, Samples.push [] micros)]
  | (name, samples) :: rest =>
    if name = stage then (name, samples.push micros) :: rest
    else (name, samples) :: push stage micros rest

end Timings

/-- The times of one stage in six numbers. -/
structure StageStats where
  count : Nat
  min : Nat
  max : Nat
  mean : Nat
  p50 : Nat
  p95 : Nat
deriving DecidableEq, Repr

/-- The statistics of a stage: the smallest and the largest time, the mean rounded down, and the
times at one half and at nineteen twentieths of the sorted row. -/
def Samples.stats (samples : Samples) : StageStats :=
  let sorted := (samples.map UInt64.toNat).mergeSort Nat.ble
  let count := sorted.length
  { count
    min := sorted.headD 0
    max := sorted.getLastD 0
    mean := sorted.foldr (· + ·) 0 / count
    p50 := sorted.getD (count / 2) 0
    p95 := sorted.getD (Nat.min (95 * count / 100) (count - 1)) 0 }

/-! ## The record -/

/-- All that was counted and timed. -/
structure Metrics where
  counters : Counters := {}
  timings : Timings := []
deriving DecidableEq, Repr

namespace Metrics

/-- Nothing counted and nothing timed. -/
def empty : Metrics := {}

/-- Puts an event on record. Times are kept modulo `2 ^ 64`. -/
def record (metrics : Metrics) : Event → Metrics
  | .count counter amount =>
    { metrics with counters := metrics.counters.add counter (UInt64.ofNat amount) }
  | .time stage micros =>
    { metrics with timings := Timings.push stage (UInt64.ofNat micros) metrics.timings }

/-- Puts events on record, one after the other. -/
def recordAll (metrics : Metrics) (events : List Event) : Metrics :=
  events.foldl record metrics

/-- The times that are kept of a stage. -/
def samples? (metrics : Metrics) (stage : String) : Option Samples :=
  metrics.timings.lookup stage

/-- The statistics of a stage that was timed. -/
def stats? (metrics : Metrics) (stage : String) : Option StageStats :=
  (metrics.samples? stage).map Samples.stats

/-- The stages that were timed, sorted by name. -/
def stages (metrics : Metrics) : List String :=
  (metrics.timings.map Prod.fst).mergeSort fun a b => decide (a ≤ b)

end Metrics

end TokenMarkup
