import Mathlib.Algebra.Order.Field.Rat
import Mathlib.Data.List.DropRight
import TokenMarkup.Proofs.Acceptance
import TokenMarkup.Session

/-!
# What the record says about a session

A session is a list of calls, each with settings and a clock of its own. A call that fails leaves
behind what was counted and timed up to the failure, so the record of a session depends on where
each of its calls ended. Still it adds up (`Session.IsAccount`), after every call of every session:

* `Session.record_eq`: the record holds just the events since the last reset;
* `Metrics.get_recordAll`, `Metrics.held_recordAll`: what events do to counters and to the times
  that are held, whatever they are events of;
* `Call.events_balance`: what one call puts on record, wherever it ends.

The laws on sessions are sums of the laws on calls.
-/

namespace TokenMarkup

/-! ## Events -/

namespace Event

/-- By how much an event raises a counter. -/
def raises (counter : Counter) : Event → Nat
  | count name amount => if name = counter then amount else 0
  | time _ _ => 0

/-- How many times of a stage an event is: one or none. -/
def times (stage : String) : Event → Nat
  | count _ _ => 0
  | time name _ => if name = stage then 1 else 0

/-- What events amount to altogether, by what each of them is worth. -/
def total (worth : Event → Nat) (events : List Event) : Nat := (events.map worth).sum

@[simp] theorem raises_count (counter name : Counter) (amount : Nat) :
    raises counter (count name amount) = if name = counter then amount else 0 := rfl

@[simp] theorem raises_time (counter : Counter) (stage : String) (micros : Nat) :
    raises counter (time stage micros) = 0 := rfl

@[simp] theorem times_count (stage : String) (counter : Counter) (amount : Nat) :
    times stage (count counter amount) = 0 := rfl

@[simp] theorem times_time (stage name : String) (micros : Nat) :
    times stage (time name micros) = if name = stage then 1 else 0 := rfl

variable (worth : Event → Nat)

@[simp] theorem total_nil : total worth [] = 0 := rfl

@[simp] theorem total_cons (event : Event) (events : List Event) :
    total worth (event :: events) = worth event + total worth events := rfl

@[simp] theorem total_append (front back : List Event) :
    total worth (front ++ back) = total worth front + total worth back := by
  simp [total]

end Event

/-! ## The record of events -/

open Event (total raises times)

namespace Samples

/-- One more time is held, unless there is no room for more. -/
theorem length_push (samples : Samples) (micros : UInt64) (room : samples.length ≤ 1024) :
    (samples.push micros).length = min 1024 (samples.length + 1) := by
  unfold push capacity
  split <;> simp <;> omega

end Samples

namespace Timings

theorem lookup_cons (name other : String) (samples : Samples) (rest : Timings) :
    List.lookup name ((other, samples) :: rest) =
      if name = other then some samples else rest.lookup name := by
  by_cases same : name = other
  · simp [same]
  · have different : (name == other) = false := beq_false_of_ne same
    simp [List.lookup_cons, different, same]

/-- Another time of a stage leaves the other stages alone. -/
theorem lookup_push (stage name : String) (micros : UInt64) (timings : Timings) :
    (push stage micros timings).lookup name =
      if name = stage then some (Samples.push ((timings.lookup stage).getD []) micros)
      else timings.lookup name := by
  induction timings with
  | nil => exact lookup_cons name stage _ []
  | cons first rest ih =>
      obtain ⟨other, samples⟩ := first
      unfold push
      by_cases here : other = stage
      · subst here
        rw [if_pos rfl, lookup_cons, lookup_cons, lookup_cons, if_pos rfl]
        split <;> simp [*]
      · rw [if_neg here, lookup_cons, ih, lookup_cons, lookup_cons, if_neg (Ne.symm here)]
        split
        · next same => rw [if_neg (same ▸ here)]
        · rfl

end Timings

namespace Metrics

/-- What a counter says. -/
def value (metrics : Metrics) (counter : Counter) : Nat := (metrics.counters.get counter).toNat

/-- How many times of a stage are held. -/
def held (metrics : Metrics) (stage : String) : Nat := ((metrics.samples? stage).getD []).length

/-- What a counter says after events: all that they add to it, modulo the size of a word. -/
theorem get_recordAll (metrics : Metrics) (events : List Event) (counter : Counter) :
    (metrics.recordAll events).counters.get counter =
      metrics.counters.get counter + UInt64.ofNat (total (raises counter) events) := by
  induction events generalizing metrics with
  | nil => simp [recordAll]
  | cons event events ih =>
      have step : (metrics.record event).counters.get counter =
          metrics.counters.get counter + UInt64.ofNat (event.raises counter) := by
        cases event with
        | count name amount =>
            rw [record, Counters.get_add, Event.raises_count]
            by_cases same : counter = name
            · rw [if_pos same, if_pos same.symm]
            · rw [if_neg same, if_neg (Ne.symm same)]
              simp
        | time stage micros => simp [record]
      show ((metrics.record event).recordAll events).counters.get counter = _
      rw [ih, step, Event.total_cons, UInt64.ofNat_add, UInt64.add_assoc]

/-- How many times of a stage are held after events. -/
theorem held_recordAll (metrics : Metrics) (events : List Event) (stage : String)
    (room : metrics.held stage ≤ 1024) :
    (metrics.recordAll events).held stage =
      min 1024 (metrics.held stage + total (times stage) events) := by
  induction events generalizing metrics with
  | nil => simp [recordAll, room]
  | cons event events ih =>
      have step : (metrics.record event).held stage =
          min 1024 (metrics.held stage + event.times stage) := by
        cases event with
        | count name amount => exact (Nat.min_eq_right room).symm
        | time name micros =>
            unfold held samples? at room ⊢
            unfold record
            rw [Timings.lookup_push, Event.times_time]
            by_cases same : stage = name
            · subst same
              simpa using Samples.length_push _ _ room
            · simpa [same, Ne.symm same] using room
      show ((metrics.record event).recordAll events).held stage = _
      rw [ih _ (by omega), step, Event.total_cons]
      omega

end Metrics

/-! ## What one call puts on record -/

namespace Traced

variable {α β : Type} {first : Traced α} {next : α → Traced β} (name : String) (micros : Nat)
  (counts : α → List Event)

@[simp] theorem events_stage_ok (value : α) :
    (stage name micros (.ok value) counts).events = counts value ++ [.time name micros] := rfl

@[simp] theorem events_stage_error (fault : Fault) :
    (stage name micros (.error fault) counts).events = [.time name micros] := rfl

@[simp] theorem events_map (f : α → β) (traced : Traced α) :
    (traced.map f).events = traced.events := rfl

theorem events_andThen_of_ok {value : α} (done : first.outcome = .ok value) :
    (first.andThen next).events = first.events ++ (next value).events := by
  unfold andThen
  rw [done]

theorem events_andThen_of_error {fault : Fault} (failed : first.outcome = .error fault) :
    (first.andThen next).events = first.events := by
  unfold andThen
  rw [failed]

end Traced

/-- Whether there is an outcome and no fault. -/
def succeeds {α : Type} : Except Fault α → Bool
  | .ok _ => true
  | .error _ => false

@[simp] theorem succeeds_ok {α : Type} (value : α) : succeeds (.ok value) = true := rfl

@[simp] theorem succeeds_error {α : Type} (fault : Fault) :
    succeeds (.error fault : Except Fault α) = false := rfl

@[simp] theorem succeeds_map {α β : Type} (f : α → β) (outcome : Except Fault α) :
    succeeds (f <$> outcome) = succeeds outcome := by
  cases outcome <;> rfl

namespace Request

variable (request : Request) (settings : Settings) (clock : Clock)

/-- What a call does to get tokens, as the record shows it. -/
structure IsTokensEntry (events : List Event) : Prop where
  /-- No more is left out than there was. -/
  occluded_le : total (raises .occludedTokens) events ≤
    total (raises .lexicalTokens) events
  tokens_eq : ∀ merged, request.tokens settings = .ok merged →
    merged.length + total (raises .occludedTokens) events =
      total (raises .decodedTokens) events + total (raises .lexicalTokens) events
  decode_eq : total (times "decode") events = 1
  merge_eq : total (times "merge") events =
    if succeeds request.semantic && succeeds (request.lexical settings) then 1 else 0
  /-- Nothing is said of what comes later. -/
  later_counters : ∀ counter ∈ [Counter.stapledSpans, .filesRendered, .highlightFailures],
    total (raises counter) events = 0
  later_stages : ∀ stage ∈ ["staple", "render"], total (times stage) events = 0

/-- What is on record of the lexemes: how many tokens they became, and no stage but their own. -/
theorem events_traceLexical :
    (∀ lexical, request.lexical settings = .ok lexical →
      total (raises .lexicalTokens) (request.traceLexical settings clock).events =
        lexical.length) ∧
    (∀ counter, counter ≠ .lexicalTokens → counter ≠ .droppedLexemes →
      total (raises counter) (request.traceLexical settings clock).events = 0) ∧
    ∀ stage, stage ≠ "adapt" →
      total (times stage) (request.traceLexical settings clock).events = 0 := by
  unfold traceLexical
  split
  · cases request.lexical settings with
    | error fault => simp +contextual [eq_comm]
    | ok lexical => simp +contextual [eq_comm]
  · next unused => simp [Traced.done, lexical, unused]

theorem traceTokens_isTokensEntry :
    request.IsTokensEntry settings (request.traceTokens settings clock).events := by
  obtain ⟨lexicalTotal, otherTotal, otherStages⟩ := events_traceLexical request settings clock
  unfold traceTokens
  cases semanticRun : request.semantic with
  | error fault =>
      have noTokens : request.tokens settings = .error fault :=
        map_eq_error_iff.mpr (bind_eq_error_iff.mpr (.inl semanticRun))
      rw [Traced.events_andThen_of_error rfl]
      constructor <;> simp [semanticRun, noTokens]
  | ok semantic =>
      rw [Traced.events_andThen_of_ok rfl]
      cases lexicalRun : request.lexical settings with
      | error fault =>
          have noTokens : request.tokens settings = .error fault :=
            map_eq_error_iff.mpr (bind_eq_error_iff.mpr (.inr ⟨semantic, semanticRun,
              bind_eq_error_iff.mpr (.inl lexicalRun)⟩))
          rw [Traced.events_andThen_of_error (by rw [outcome_traceLexical, lexicalRun])]
          constructor <;> simp [semanticRun, lexicalRun, noTokens, otherTotal, otherStages]
      | ok lexical =>
          have tokensEq : request.tokens settings =
              Overlay.tokens <$> Overlay.merge semantic lexical := by
            rw [tokens, overlay, semanticRun, lexicalRun]
            rfl
          have lexicalEq := lexicalTotal lexical lexicalRun
          rw [Traced.events_andThen_of_ok (by rw [outcome_traceLexical, lexicalRun])]
          cases mergeRun : Overlay.merge semantic lexical with
          | error fault =>
              rw [mergeRun] at tokensEq
              constructor <;>
                simp [semanticRun, lexicalRun, tokensEq, otherTotal, otherStages]
          | ok overlay =>
              rw [mergeRun] at tokensEq
              obtain ⟨length_eq, occluded_le⟩ := Overlay.length_tokens mergeRun
              constructor <;>
                simp [semanticRun, lexicalRun, tokensEq, otherTotal, otherStages, lexicalEq,
                  length_eq, occluded_le]

/-- What is on record of the cut: the spans, if there are any, and the time, if it is tried. -/
def cutEvents : List Event :=
  (match request.spans settings with
    | .ok spans => [.count .stapledSpans spans.length]
    | .error _ => []) ++
  if succeeds (request.overlay settings) then [.time "staple" (clock "staple")] else []

/-- What is on record of the outcome: the markup, or that there is none. -/
def outcomeEvents : List Event :=
  match request.spans settings with
  | .ok _ => [.time "render" (clock "render"), .count .filesRendered 1]
  | .error _ => [.count .highlightFailures 1]

theorem events_traceSpans :
    (request.traceSpans settings clock).events =
      (request.traceTokens settings clock).events ++ request.cutEvents settings clock := by
  have sameVerdict : succeeds (request.overlay settings) = succeeds (request.tokens settings) :=
    (succeeds_map ..).symm
  unfold traceSpans cutEvents
  rw [sameVerdict]
  cases run : request.tokens settings with
  | error fault =>
      have noSpans : request.spans settings = .error fault := bind_eq_error_iff.mpr (.inl run)
      rw [Traced.events_andThen_of_error (by rw [outcome_traceTokens, run]), noSpans]
      simp
  | ok tokens =>
      have spansEq : request.spans settings =
          Span.ofTokens tokens request.lines (request.encoding settings) := by
        rw [spans, run]
        rfl
      rw [Traced.events_andThen_of_ok (by rw [outcome_traceTokens, run]), ← spansEq]
      cases request.spans settings <;> rfl

theorem events_traceMarkup :
    (request.traceMarkup settings clock).events =
      (request.traceSpans settings clock).events ++ request.outcomeEvents settings clock := by
  unfold traceMarkup outcomeEvents
  simp only [outcome_traceSpans]
  cases request.spans settings <;> rfl

end Request

/-- A command with the settings and the clock that it is run under. -/
structure Call where
  command : Command
  settings : Settings
  clock : Clock

namespace Call

/-- The record after a call. -/
def run (metrics : Metrics) (call : Call) : Metrics :=
  call.command.run call.settings call.clock metrics

/-- What a call puts on record. A reset puts nothing there. -/
def events (call : Call) : List Event :=
  match call.command with
  | .tokens request => (request.traceTokens call.settings call.clock).events
  | .spans request => (request.traceSpans call.settings call.clock).events
  | .highlight request => (request.traceMarkup call.settings call.clock).events
  | .reset => []

/-- The request of a call that is no reset. -/
def request? (call : Call) : Option Request :=
  match call.command with
  | .tokens request | .spans request | .highlight request => some request
  | .reset => none

/-- Whether markup is asked for. -/
def isHighlight (call : Call) : Bool :=
  match call.command with
  | .highlight _ => true
  | _ => false

/-- Whether the call gets to the overlay: its stream is decoded, and its lexemes are tokens. -/
def reachesOverlay (call : Call) : Bool :=
  call.request?.any fun request =>
    succeeds request.semantic && succeeds (request.lexical call.settings)

/-- Whether spans or markup are asked for and the call gets to the cut: the overlay succeeds. -/
def reachesCut (call : Call) : Bool :=
  match call.command with
  | .spans request | .highlight request => succeeds (request.overlay call.settings)
  | _ => false

/-- How many spans come of a call for spans or markup: none if it fails. -/
def spanCount (call : Call) : Nat :=
  match call.command with
  | .spans request | .highlight request =>
    match request.spans call.settings with
    | .ok spans => spans.length
    | .error _ => 0
  | _ => 0

/-- What a call puts on record once there are tokens. -/
def laterEvents (call : Call) : List Event :=
  match call.command with
  | .spans request => request.cutEvents call.settings call.clock
  | .highlight request =>
    request.cutEvents call.settings call.clock ++ request.outcomeEvents call.settings call.clock
  | _ => []

theorem events_eq {call : Call} {request : Request} (asked : call.request? = some request) :
    call.events = (request.traceTokens call.settings call.clock).events ++ call.laterEvents := by
  obtain ⟨command, settings, clock⟩ := call
  cases command with
  | reset => cases asked
  | tokens _ =>
      cases asked
      exact (List.append_nil _).symm
  | spans _ =>
      cases asked
      exact request.events_traceSpans settings clock
  | highlight _ =>
      cases asked
      show (request.traceMarkup settings clock).events = _ ++ (_ ++ _)
      rw [request.events_traceMarkup, request.events_traceSpans, List.append_assoc]

/-- How a call shows on record once there are tokens. -/
structure IsLaterEntry (call : Call) (events : List Event) : Prop where
  highlight_eq : total (raises .filesRendered) events + total (raises .highlightFailures) events =
    if call.isHighlight then 1 else 0
  spans_eq : total (raises .stapledSpans) events = call.spanCount
  staple_eq : total (times "staple") events = if call.reachesCut then 1 else 0
  render_eq : total (times "render") events = total (raises .filesRendered) events
  /-- Nothing is said of what went before. -/
  earlier_counters : ∀ counter ∈ [Counter.decodedTokens, .lexicalTokens, .occludedTokens],
    total (raises counter) events = 0
  earlier_stages : ∀ stage ∈ ["decode", "merge"], total (times stage) events = 0

theorem laterEvents_isLaterEntry (call : Call) : call.IsLaterEntry call.laterEvents := by
  obtain ⟨command, settings, clock⟩ := call
  cases command with
  | reset => constructor <;> simp [laterEvents, isHighlight, spanCount, reachesCut]
  | tokens _ => constructor <;> simp [laterEvents, isHighlight, spanCount, reachesCut]
  | spans request =>
      cases spansRun : request.spans settings <;> constructor <;>
        cases overlaid : succeeds (request.overlay settings) <;>
        simp [laterEvents, Request.cutEvents, isHighlight, spanCount, reachesCut, spansRun,
          overlaid]
  | highlight request =>
      cases spansRun : request.spans settings <;> constructor <;>
        cases overlaid : succeeds (request.overlay settings) <;>
        simp [laterEvents, Request.cutEvents, Request.outcomeEvents, isHighlight, spanCount,
          reachesCut, spansRun, overlaid]

/-- How a call that is no reset shows on record, wherever it ends. -/
structure IsEntry (call : Call) : Prop where
  occluded_le : total (raises .occludedTokens) call.events ≤
    total (raises .lexicalTokens) call.events
  tokens_eq : ∀ request merged, call.request? = some request →
    request.tokens call.settings = .ok merged →
    merged.length + total (raises .occludedTokens) call.events =
      total (raises .decodedTokens) call.events + total (raises .lexicalTokens) call.events
  highlight_eq : total (raises .filesRendered) call.events +
    total (raises .highlightFailures) call.events = if call.isHighlight then 1 else 0
  spans_eq : total (raises .stapledSpans) call.events = call.spanCount
  decode_eq : total (times "decode") call.events = 1
  merge_eq : total (times "merge") call.events = if call.reachesOverlay then 1 else 0
  staple_eq : total (times "staple") call.events = if call.reachesCut then 1 else 0
  render_eq : total (times "render") call.events = total (raises .filesRendered) call.events

theorem isEntry {call : Call} {request : Request} (asked : call.request? = some request) :
    call.IsEntry := by
  have first := request.traceTokens_isTokensEntry call.settings call.clock
  have later := call.laterEvents_isLaterEntry
  have laterCounters := first.later_counters
  have laterStages := first.later_stages
  have earlierCounters := later.earlier_counters
  have earlierStages := later.earlier_stages
  simp only [List.forall_mem_cons, List.not_mem_nil, false_imp_iff, implies_true, and_true]
    at laterCounters laterStages earlierCounters earlierStages
  have overlaid : call.reachesOverlay =
      (succeeds request.semantic && succeeds (request.lexical call.settings)) := by
    simp [reachesOverlay, asked]
  constructor <;> simp only [events_eq asked, Event.total_append, laterCounters, laterStages,
    earlierCounters, earlierStages, Nat.add_zero, Nat.zero_add]
  · exact first.occluded_le
  · intro request' merged asked' run
    obtain rfl : request = request' := Option.some.inj (asked.symm.trans asked')
    exact first.tokens_eq merged run
  · exact later.highlight_eq
  · exact later.spans_eq
  · exact first.decode_eq
  · rw [overlaid]
    exact first.merge_eq
  · exact later.staple_eq
  · exact later.render_eq

theorem run_of_request {call : Call} {request : Request} (asked : call.request? = some request)
    (metrics : Metrics) : call.run metrics = metrics.recordAll call.events := by
  obtain ⟨command, settings, clock⟩ := call
  cases command with
  | reset => cases asked
  | tokens _ => rfl
  | spans _ => rfl
  | highlight _ => rfl

theorem run_of_reset {call : Call} (asked : call.request? = none) (metrics : Metrics) :
    call.run metrics = .empty := by
  obtain ⟨command, settings, clock⟩ := call
  cases command with
  | reset => rfl
  | tokens _ => cases asked
  | spans _ => cases asked
  | highlight _ => cases asked

end Call

/-! ## Sessions -/

namespace Session

/-- The record after calls, of which the first found nothing on record. -/
def record (calls : List Call) : Metrics := calls.foldl Call.run .empty

/-- The calls since the last reset. -/
def recent (calls : List Call) : List Call := calls.rtakeWhile fun call => call.request?.isSome

/-- What calls put on record, one after the other. -/
def events (calls : List Call) : List Event := calls.flatMap Call.events

theorem recent_concat {call : Call} {request : Request} (asked : call.request? = some request)
    (calls : List Call) : recent (calls ++ [call]) = recent calls ++ [call] :=
  List.rtakeWhile_concat_pos _ _ _ (by simp [asked])

/-- On record is what happened since the last reset. -/
theorem record_eq (calls : List Call) :
    record calls = Metrics.empty.recordAll (events (recent calls)) := by
  induction calls using List.reverseRecOn with
  | nil => rfl
  | append_singleton calls call ih =>
      have last : record (calls ++ [call]) = call.run (record calls) := List.foldl_concat ..
      cases asked : call.request? with
      | none =>
          have none_recent : recent (calls ++ [call]) = [] :=
            List.rtakeWhile_concat_neg _ _ _ (by simp [asked])
          rw [last, Call.run_of_reset asked, none_recent]
          rfl
      | some request =>
          rw [last, Call.run_of_request asked, ih, recent_concat asked]
          simp [events, Metrics.recordAll]

theorem exists_request_of_mem_recent {calls : List Call} {call : Call}
    (member : call ∈ recent calls) : ∃ request, call.request? = some request := by
  unfold recent at member
  have asked := List.mem_rtakeWhile_imp member
  exact Option.isSome_iff_exists.mp asked

/-- How calls that are no resets show on record. -/
structure IsLedger (calls : List Call) : Prop where
  occluded_le : total (raises .occludedTokens) (events calls) ≤
    total (raises .lexicalTokens) (events calls)
  highlight_eq : total (raises .filesRendered) (events calls) +
    total (raises .highlightFailures) (events calls) = calls.countP Call.isHighlight
  spans_eq : total (raises .stapledSpans) (events calls) = (calls.map Call.spanCount).sum
  decode_eq : total (times "decode") (events calls) = calls.length
  merge_eq : total (times "merge") (events calls) = calls.countP Call.reachesOverlay
  staple_eq : total (times "staple") (events calls) = calls.countP Call.reachesCut
  render_eq : total (times "render") (events calls) = total (raises .filesRendered) (events calls)

theorem isLedger {calls : List Call} (entries : ∀ call ∈ calls, call.IsEntry) : IsLedger calls := by
  induction calls with
  | nil => constructor <;> simp [events]
  | cons call calls ih =>
      rw [List.forall_mem_cons] at entries
      obtain ⟨entry, entries⟩ := entries
      have ledger := ih entries
      have split : events (call :: calls) = call.events ++ events calls := List.flatMap_cons ..
      constructor <;> simp only [split, Event.total_append, List.countP_cons, List.map_cons,
        List.sum_cons, List.length_cons]
      · exact Nat.add_le_add entry.occluded_le ledger.occluded_le
      · have here := entry.highlight_eq
        have there := ledger.highlight_eq
        omega
      · rw [entry.spans_eq, ledger.spans_eq]
      · rw [entry.decode_eq, ledger.decode_eq, Nat.add_comm]
      · rw [entry.merge_eq, ledger.merge_eq, Nat.add_comm]
      · rw [entry.staple_eq, ledger.staple_eq, Nat.add_comm]
      · rw [entry.render_eq, ledger.render_eq]

/-- Whether no counter has ever reached the size of a word, in a session and on the way to it. -/
def Unwrapped (calls : List Call) : Prop :=
  ∀ earlier, earlier <+: calls → ∀ counter,
    total (raises counter) (events (recent earlier)) < 2 ^ 64

/-- What the record says after calls that are no resets. -/
structure IsAccount (calls : List Call) (metrics : Metrics) : Prop where
  occluded_le : metrics.value .occludedTokens ≤ metrics.value .lexicalTokens
  ratio_mem : (metrics.value .occludedTokens : ℚ) / metrics.value .lexicalTokens ∈ Set.Icc 0 1
  /-- Every call for markup is a success or a failure. -/
  highlight_eq : metrics.value .filesRendered + metrics.value .highlightFailures =
    calls.countP Call.isHighlight
  spans_eq : metrics.value .stapledSpans = (calls.map Call.spanCount).sum
  decode_eq : metrics.held "decode" = min 1024 calls.length
  merge_eq : metrics.held "merge" = min 1024 (calls.countP Call.reachesOverlay)
  staple_eq : metrics.held "staple" = min 1024 (calls.countP Call.reachesCut)
  render_eq : metrics.held "render" = min 1024 (metrics.value .filesRendered)

theorem value_record {calls : List Call} {counter : Counter}
    (small : total (raises counter) (events (recent calls)) < 2 ^ 64) :
    (record calls).value counter = total (raises counter) (events (recent calls)) := by
  have fresh : Metrics.empty.counters.get counter = 0 := by cases counter <;> rfl
  rw [Metrics.value, record_eq, Metrics.get_recordAll, fresh, UInt64.zero_add,
    UInt64.toNat_ofNat_of_lt' small]

theorem held_record (calls : List Call) (stage : String) :
    (record calls).held stage = min 1024 (total (times stage) (events (recent calls))) := by
  have fresh : Metrics.empty.held stage = 0 := rfl
  rw [record_eq, Metrics.held_recordAll _ _ _ (by omega), fresh, Nat.zero_add]

theorem record_isAccount {calls : List Call}
    (small : ∀ counter, total (raises counter) (events (recent calls)) < 2 ^ 64) :
    IsAccount (recent calls) (record calls) := by
  have ledger : IsLedger (recent calls) := by
    apply isLedger
    intro call member
    obtain ⟨request, asked⟩ := exists_request_of_mem_recent member
    exact Call.isEntry asked
  have occluded_le : (record calls).value .occludedTokens ≤
      (record calls).value .lexicalTokens := by
    rw [value_record (small _), value_record (small _)]
    exact ledger.occluded_le
  constructor
  · exact occluded_le
  · exact ⟨div_nonneg (Nat.cast_nonneg _) (Nat.cast_nonneg _),
      div_le_one_of_le₀ (Nat.cast_le.mpr occluded_le) (Nat.cast_nonneg _)⟩
  · rw [value_record (small _), value_record (small _), ledger.highlight_eq]
  · rw [value_record (small _), ledger.spans_eq]
  · rw [held_record, ledger.decode_eq]
  · rw [held_record, ledger.merge_eq]
  · rw [held_record, ledger.staple_eq]
  · rw [held_record, ledger.render_eq, value_record (small _)]

/-- By how much a counter rises from one record to another. -/
def rise (before after : Metrics) (counter : Counter) : Int :=
  after.value counter - before.value counter

/-- What a call that is no reset adds to a counter is what it counts. -/
theorem rise_record {calls : List Call} {call : Call} {request : Request}
    (asked : call.request? = some request) {counter : Counter}
    (small : total (raises counter) (events (recent (calls ++ [call]))) < 2 ^ 64) :
    rise (record calls) (record (calls ++ [call])) counter =
      total (raises counter) call.events := by
  have one_more : total (raises counter) (events (recent (calls ++ [call]))) =
      total (raises counter) (events (recent calls)) + total (raises counter) call.events := by
    rw [recent_concat asked]
    simp [events]
  rw [rise, value_record small, value_record (by omega), one_more]
  omega

/-- After every call of a session in which no counter wraps around, the record adds up, and what a
call for tokens brought is what was decoded and made from lexemes, less what was left out. -/
theorem record_adds_up {calls : List Call} (unwrapped : Unwrapped calls) :
    ∀ earlier, earlier <+: calls → IsAccount (recent earlier) (record earlier) ∧
      ∀ call request merged, earlier ++ [call] <+: calls → call.request? = some request →
        request.tokens call.settings = .ok merged →
        (merged.length : Int) =
          rise (record earlier) (record (earlier ++ [call])) .decodedTokens +
          rise (record earlier) (record (earlier ++ [call])) .lexicalTokens -
          rise (record earlier) (record (earlier ++ [call])) .occludedTokens := by
  intro earlier inFront
  refine ⟨record_isAccount (unwrapped earlier inFront), ?_⟩
  intro call request merged upToCall asked run
  have small := unwrapped (earlier ++ [call]) upToCall
  have balance := (Call.isEntry asked).tokens_eq request merged asked run
  rw [rise_record asked (small _), rise_record asked (small _), rise_record asked (small _)]
  omega

/-- A call for markup that fails at the stream, a reset, one that leaves a comment out, and a call
for spans that fails at the cut. -/
def mixed : List Call :=
  [⟨.highlight { text := [], stream := [0], legend := ⟨[], []⟩ }, {}, fun _ => 5⟩,
    ⟨.reset, {}, fun _ => 0⟩,
    ⟨.highlight
      { text := "ab".toList, stream := [0, 0, 1, 0, 0], legend := ⟨["x"], []⟩,
        lexemes := [⟨.comment, ⟨1, 1⟩, ⟨1, 3⟩⟩, ⟨.unknown, ⟨0, 0⟩, ⟨0, 0⟩⟩] }, {}, fun _ => 7⟩,
    ⟨.spans { text := [], stream := [0, 1, 1, 0, 0], legend := ⟨["x"], []⟩ },
      { encoding := some .utf8 }, fun _ => 9⟩]

/-- After all four calls the record covers the last two, and adds up. The third one decodes a token,
makes one from a lexeme and leaves that out. -/
theorem record_adds_up_mixed :
    Unwrapped mixed ∧ IsAccount (recent mixed) (record mixed) ∧
      (1 : Int) = rise (record (mixed.take 2)) (record (mixed.take 3)) .decodedTokens +
        rise (record (mixed.take 2)) (record (mixed.take 3)) .lexicalTokens -
        rise (record (mixed.take 2)) (record (mixed.take 3)) .occludedTokens := by
  have small : ∀ earlier ∈ mixed.inits, ∀ counter ∈ [Counter.decodedTokens, .lexicalTokens,
      .droppedLexemes, .occludedTokens, .stapledSpans, .filesRendered, .highlightFailures],
      total (raises counter) (events (recent earlier)) < 2 ^ 64 := by
    decide +kernel
  have unwrapped : Unwrapped mixed := by
    intro earlier inFront counter
    exact small earlier ((List.mem_inits _ _).mpr inFront) counter (by cases counter <;> simp)
  refine ⟨unwrapped, (record_adds_up unwrapped mixed (List.prefix_refl mixed)).1, ?_⟩
  exact (record_adds_up unwrapped (mixed.take 2) (List.take_prefix 2 mixed)).2 _ _
    [⟨0, 0, 1, "x", .empty⟩] (List.take_prefix 3 mixed) rfl (by decide +kernel)

end Session

end TokenMarkup
