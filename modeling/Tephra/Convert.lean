import Tephra.Types
import Tephra.Proto.Messages

/-!
# Public values and wire structs

`convert.ts`, as far as appends, reads and subscriptions need it.
-/

namespace Tephra

/-- `eventToWire`. -/
def eventToWire (event : Event) : WireEvent :=
  { type := event.type, tags := event.tags, payload := event.payload }

/-- `queryToWire`. -/
def queryToWire (query : Query) : WireQuery :=
  if query.matchAll then { all := true, items := [] }
  else
    { all := false
      items := query.items.map fun item => { types := item.types, tags := item.tags } }

/-- `conditionToWire`. -/
def conditionToWire (condition : AppendCondition) : WireAppendCondition :=
  { failIfEventsMatch := queryToWire condition.failIfEventsMatch
    after := condition.after
    failIfExists := condition.failIfExists.map queryToWire }

/-- `sequencedFromWire`. -/
def sequencedFromWire (seq : WireSequencedEvent) : Except Err SequencedEvent :=
  match seq.event with
  | none => .error (.protocol "server sent a sequenced event with no event")
  | some event =>
    .ok { position := seq.position
          event := Event.fromServer event.type event.tags event.payload }

/-- `serverErrorFromWire`. -/
def serverErrorFromWire (res : WireErrorResponse) : Err :=
  .server (errorCodeFromWire res.code) res.message res.retryable res.conflictPosition

/-- A batch converts exactly when every event in it is present. -/
theorem mapM_sequencedFromWire {events : List WireSequencedEvent}
    (h : ∀ e ∈ events, e.event.isSome) :
    ∃ mapped, events.mapM sequencedFromWire = .ok mapped := by
  induction events with
  | nil => exact ⟨[], rfl⟩
  | cons e events ih =>
    obtain ⟨event, hevent⟩ := Option.isSome_iff_exists.1 (h e List.mem_cons_self)
    obtain ⟨mapped, hmapped⟩ := ih fun e' he' => h e' (List.mem_cons_of_mem _ he')
    rw [List.mapM_cons, sequencedFromWire, hevent, hmapped]
    exact ⟨_, rfl⟩

end Tephra
