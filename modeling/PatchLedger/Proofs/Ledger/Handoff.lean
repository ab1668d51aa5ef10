import PatchLedger.Ledger.Handoff

/-!
One writer for any number of producers. In every run the writer finishes the calls
that are handed over, each once and in their order (`Handoff.Run.inHand`), so that
the ledger is the one that the patches give when they are submitted one after
another (`Handoff.Run.ledger`). Each producer's calls are handed over in the order
of its program (`Handoff.Run.pending`). Since the writer takes a call only when it
has finished those before, a flush that is over has all of them behind it.
-/

namespace PatchLedger

namespace Ledger

def outcomes : Ledger → List Patch → List Outcome
  | _, [] => []
  | l, p :: patches => (l.submit p).1 :: (l.submit p).2.outcomes patches

theorem submitAll_append (l : Ledger) (first second : List Patch) :
    l.submitAll (first ++ second) = (l.submitAll first).submitAll second :=
  List.foldl_append

theorem outcomes_append (l : Ledger) (first second : List Patch) :
    l.outcomes (first ++ second) = l.outcomes first ++ (l.submitAll first).outcomes second := by
  induction first generalizing l with
  | nil => rfl
  | cons p first ih => rw [List.cons_append, outcomes, outcomes, ih, List.cons_append]; rfl

end Ledger

/-- The calls of a producer that nobody has dealt with. -/
def Producer.pending (producer : Producer) : List Request :=
  (producer.call.bind Call.request?).toList ++ producer.program

def Call.remaining : Call → Nat
  | offered _ => 3
  | unanswered | answered => 1

def Producer.remaining (producer : Producer) : Nat :=
  4 * producer.program.length + producer.call.elim 0 Call.remaining

def Producer.allRemaining : List Producer → Nat
  | [] => 0
  | producer :: producers => producer.remaining + allRemaining producers

theorem Producer.allRemaining_modify {producers : List Producer} {i : Nat} {producer : Producer}
    (found : producers[i]? = some producer) (f : Producer → Producer) :
    allRemaining (producers.modify i f) + producer.remaining =
      allRemaining producers + (f producer).remaining := by
  induction producers generalizing i with
  | nil => cases found
  | cons first producers ih =>
    cases i with
    | zero =>
      cases found
      rw [List.modify_zero_cons, allRemaining, allRemaining]
      omega
    | succ i =>
      have rest := ih found
      rw [List.modify_succ_cons, allRemaining, allRemaining]
      omega

namespace Handoff

def patches (calls : List (Nat × Request)) : List Patch := calls.filterMap fun call => call.2.patch?

def callsOf (i : Nat) (calls : List (Nat × Request)) : List Request :=
  calls.filterMap fun call => if call.1 = i then some call.2 else none

def pending (s : Handoff) (i : Nat) : List Request := s.producers[i]?.elim [] Producer.pending

def remaining (s : Handoff) : Nat :=
  Producer.allRemaining s.producers + s.writer.inHand.toList.length

@[simp] theorem patches_append (calls calls' : List (Nat × Request)) :
    patches (calls ++ calls') = patches calls ++ patches calls' :=
  List.filterMap_append

@[simp] theorem callsOf_nil (i : Nat) : callsOf i [] = [] := rfl

@[simp] theorem callsOf_append (i : Nat) (calls calls' : List (Nat × Request)) :
    callsOf i (calls ++ calls') = callsOf i calls ++ callsOf i calls' :=
  List.filterMap_append

theorem mem_callsOf {i : Nat} {request : Request} {calls : List (Nat × Request)} :
    request ∈ callsOf i calls ↔ (i, request) ∈ calls := by
  rw [callsOf, List.mem_filterMap]
  constructor
  · intro ⟨call, member, same⟩
    obtain ⟨rfl, rfl⟩ := by simpa using same
    exact member
  · intro member
    exact ⟨(i, request), member, if_pos rfl⟩

@[simp] theorem writer_setCall (s : Handoff) (i : Nat) (call : Option Call) :
    (s.setCall i call).writer = s.writer := rfl

@[simp] theorem getElem?_setCall (s : Handoff) (i : Nat) (call : Option Call) (j : Nat) :
    (s.setCall i call).producers[j]? = if i = j
      then s.producers[j]?.map fun producer => { producer with call } else s.producers[j]? := by
  rw [setCall, List.getElem?_modify]
  split <;> simp

inductive Step (s : Handoff) : Event → Handoff → Prop where
  | issue {i : Nat} {request : Request} {program : List Request}
      (ready : s.producers[i]? = some ⟨none, request :: program⟩) :
      Step s (.issue i)
        { s with producers := s.producers.set i ⟨some (.offered request), program⟩ }
  | take {i : Nat} {request : Request} {program : List Request} (idle : s.writer = .idle)
      (offered : s.producers[i]? = some ⟨some (.offered request), program⟩) :
      Step s (.take i) { s.setCall i (awaited request) with writer := .holding i request }
  | store {i : Nat} {patch : Patch} (holding : s.writer = .holding i (.store patch)) :
      Step s .work { s with ledger := (s.ledger.submit patch).2, writer := .idle }
  | flush {i : Nat} (holding : s.writer = .holding i .flush) :
      Step s .work { s.setCall i (some .answered) with writer := .idle }
  | stop {i : Nat} (holding : s.writer = .holding i .stop) :
      Step s .work { s.setCall i (some .answered) with writer := .stopped }
  | receive {i : Nat} {program : List Request}
      (answered : s.producers[i]? = some ⟨some .answered, program⟩) :
      Step s (.receive i) (s.setCall i none)
  | refuse {i : Nat} {request : Request} {program : List Request} (stopped : s.writer = .stopped)
      (offered : s.producers[i]? = some ⟨some (.offered request), program⟩) :
      Step s (.refuse i) (s.setCall i none)

theorem step?_eq_some_iff {s s' : Handoff} {event : Event} :
    s.step? event = some s' ↔ Step s event s' := by
  constructor
  · intro h
    cases event with
    | issue i =>
      simp only [step?] at h
      split at h
      · next ready => cases h; exact Step.issue ready
      · cases h
    | take i =>
      simp only [step?] at h
      split at h
      · next idle offered => cases h; exact Step.take idle offered
      · cases h
    | work =>
      simp only [step?] at h
      split at h
      · next holding => cases h; exact Step.store holding
      · next holding => cases h; exact Step.flush holding
      · next holding => cases h; exact Step.stop holding
      · cases h
    | receive i =>
      simp only [step?] at h
      split at h
      · next answered => cases h; exact Step.receive answered
      · cases h
    | refuse i =>
      simp only [step?] at h
      split at h
      · next stopped offered => cases h; exact Step.refuse stopped offered
      · cases h
  · rintro (ready | ⟨idle, offered⟩ | holding | holding | holding | answered | ⟨stopped, offered⟩)
    · simp only [step?, ready]
    · simp only [step?, idle, offered]
    · simp only [step?, holding]
    · simp only [step?, holding]
    · simp only [step?, holding]
    · simp only [step?, answered]
    · simp only [step?, stopped, offered]

/-- A producer waits for an answer exactly while the writer has its call in hand. -/
def Sound (s : Handoff) : Prop :=
  ∀ i, s.call? i = some .unanswered ↔
    ∃ request, s.writer = .holding i request ∧ awaited request = some .unanswered

theorem sound_start (l : Ledger) (programs : List (List Request)) : (start l programs).Sound := by
  intro i
  cases form : programs[i]? <;> simp [start, call?, form]

theorem Sound.exists_waiting {s : Handoff} (sound : s.Sound) {i : Nat} {request : Request}
    (holding : s.writer = .holding i request) (awaits : awaited request = some .unanswered) :
    ∃ program, s.producers[i]? = some ⟨some .unanswered, program⟩ := by
  have waits := (sound i).2 ⟨request, holding, awaits⟩
  obtain ⟨⟨call, program⟩, found, same⟩ := Option.bind_eq_some_iff.1 waits
  exact ⟨program, same ▸ found⟩

theorem call?_of_producer {s : Handoff} {i : Nat} {producer : Producer}
    (found : s.producers[i]? = some producer) : s.call? i = producer.call := by
  rw [call?, found, Option.bind_some]

theorem offer?_of_producer {s : Handoff} {i : Nat} {producer : Producer}
    (found : s.producers[i]? = some producer) : s.offer? i = producer.call.bind Call.request? := by
  rw [offer?, call?_of_producer found]

theorem pending_of_producer {s : Handoff} {i : Nat} {producer : Producer}
    (found : s.producers[i]? = some producer) : s.pending i = producer.pending := by
  rw [pending, found, Option.elim_some]

theorem pending_setCall (s : Handoff) (i : Nat) {call : Option Call}
    (nothing : call.bind Call.request? = none) (j : Nat) :
    s.pending j =
      callsOf j ((s.offer? i).map fun request => (i, request)).toList ++
        (s.setCall i call).pending j := by
  rw [pending, pending, getElem?_setCall]
  by_cases same : i = j
  · subst same
    cases found : s.producers[i]? with
    | none => simp [offer?, call?, found, callsOf]
    | some producer =>
      cases offered : producer.call.bind Call.request? <;>
        simp [offer?, call?, found, callsOf, Producer.pending, offered, nothing]
  · cases s.offer? i <;> simp [callsOf, same]

theorem set_eq_modify (producers : List Producer) (i : Nat) (producer : Producer) :
    producers.set i producer = producers.modify i fun _ => producer := by
  induction producers generalizing i with
  | nil => simp
  | cons first producers ih => cases i <;> simp [ih]

theorem getElem?_set_of_some {producers : List Producer} {i : Nat} {producer : Producer}
    (found : producers[i]? = some producer) (next : Producer) (j : Nat) :
    (producers.set i next)[j]? = if i = j then some next else producers[j]? := by
  rw [List.getElem?_set, if_pos (List.getElem?_eq_some_iff.1 found).1]

theorem allRemaining_setCall {s : Handoff} {i : Nat} {producer : Producer}
    (found : s.producers[i]? = some producer) (call : Option Call) :
    Producer.allRemaining (s.setCall i call).producers + producer.call.elim 0 Call.remaining =
      Producer.allRemaining s.producers + call.elim 0 Call.remaining := by
  have sum := Producer.allRemaining_modify found fun producer => { producer with call }
  simp only [Producer.remaining, setCall] at sum ⊢
  omega

namespace Step

variable {s s' : Handoff} {event : Event} (step : Step s event s')

include step

theorem sound (sound : s.Sound) : s'.Sound := by
  intro j
  have before := sound j
  cases step with
  | @issue i request program ready =>
    by_cases same : i = j
    · subst same
      rw [call?_of_producer ready] at before
      simpa [call?, getElem?_set_of_some ready] using before
    · simpa [call?, getElem?_set_of_some ready, same] using before
  | @take i request program idle offered =>
    by_cases same : i = j
    · subst same
      simp [call?, offered]
    · simpa [call?, same, idle] using before
  | @store i patch holding =>
    have none : s.call? j ≠ some .unanswered := by
      intro waits
      obtain ⟨request, held, awaits⟩ := before.1 waits
      cases holding.symm.trans held
      cases awaits
    simpa [call?] using none
  | @flush i holding =>
    by_cases same : i = j
    · simp [call?, same, Option.bind_eq_some_iff]
    · simpa [call?, same, holding] using before
  | @stop i holding =>
    by_cases same : i = j
    · simp [call?, same, Option.bind_eq_some_iff]
    · simpa [call?, same, holding] using before
  | @receive i program answered =>
    by_cases same : i = j
    · subst same
      rw [call?_of_producer answered] at before
      simpa [call?, answered] using before
    · simpa [call?, same] using before
  | @refuse i request program stopped offered =>
    by_cases same : i = j
    · simp [call?, same, stopped, Option.bind_eq_some_iff]
    · simpa [call?, same] using before

theorem inHand : s.writer.inHand.toList ++ (s.handedBy event).toList =
    (s.finishedBy event).toList ++ s'.writer.inHand.toList := by
  cases step with
  | issue ready => simp [handedBy, finishedBy]
  | take idle offered =>
    simp [handedBy, finishedBy, offer?_of_producer offered, Call.request?, idle, Writer.inHand]
  | store holding => simp [handedBy, finishedBy, holding, Writer.inHand]
  | flush holding => simp [handedBy, finishedBy, holding, Writer.inHand]
  | stop holding => simp [handedBy, finishedBy, holding, Writer.inHand]
  | receive answered => simp [handedBy, finishedBy]
  | refuse stopped offered => simp [handedBy, finishedBy]

theorem ledger : s'.ledger = s.ledger.submitAll (patches (s.finishedBy event).toList) := by
  cases step with
  | issue ready => rfl
  | take idle offered => rfl
  | store holding =>
    rw [finishedBy, holding]
    rfl
  | flush holding =>
    rw [finishedBy, holding]
    rfl
  | stop holding =>
    rw [finishedBy, holding]
    rfl
  | receive answered => rfl
  | refuse stopped offered => rfl

theorem pending (sound : s.Sound) (j : Nat) : s.pending j =
    callsOf j (s.handedBy event).toList ++ callsOf j (s.refusedBy event).toList ++ s'.pending j := by
  -- a call that the writer has in hand, or has answered, is no longer offered
  have settled {i : Nat} {call : Option Call} (none : s.offer? i = none)
      (nothing : call.bind Call.request? = .none) : s.pending j = (s.setCall i call).pending j := by
    rw [s.pending_setCall i nothing j, none]
    rfl
  cases step with
  | @issue i request program ready =>
    rw [Handoff.pending, Handoff.pending, getElem?_set_of_some ready]
    split
    · next same =>
      rw [← same, ready]
      rfl
    · rfl
  | @take i request program idle offered =>
    have nothing : (awaited request).bind Call.request? = none := by cases request <;> rfl
    rw [s.pending_setCall i nothing j, handedBy, refusedBy, Option.toList_none, callsOf_nil,
      List.append_nil]
    rfl
  | store holding => rfl
  | flush holding =>
    obtain ⟨program, waits⟩ := sound.exists_waiting holding rfl
    exact settled (offer?_of_producer waits) rfl
  | stop holding =>
    obtain ⟨program, waits⟩ := sound.exists_waiting holding rfl
    exact settled (offer?_of_producer waits) rfl
  | receive answered => exact settled (offer?_of_producer answered) rfl
  | @refuse i request program stopped offered => exact s.pending_setCall i rfl j

theorem remaining (sound : s.Sound) : s'.remaining < s.remaining := by
  cases step with
  | @issue i request program ready =>
    have sum := Producer.allRemaining_modify ready fun _ => ⟨some (.offered request), program⟩
    rw [Handoff.remaining, Handoff.remaining, set_eq_modify]
    simp only [Producer.remaining, Call.remaining, Option.elim, List.length_cons] at sum ⊢
    omega
  | @take i request program idle offered =>
    have sum := allRemaining_setCall offered (awaited request)
    cases request <;>
      simp only [Handoff.remaining, Call.remaining, awaited, idle, Writer.inHand, Option.elim,
        Option.toList, List.length_cons, List.length_nil] at sum ⊢ <;>
      omega
  | store holding => simp [Handoff.remaining, holding, Writer.inHand]
  | @flush i holding =>
    obtain ⟨program, waits⟩ := sound.exists_waiting holding rfl
    have sum := allRemaining_setCall waits (some .answered)
    simp only [Handoff.remaining, Call.remaining, holding, Writer.inHand, Option.elim, Option.toList,
      List.length_cons, List.length_nil] at sum ⊢
    omega
  | @stop i holding =>
    obtain ⟨program, waits⟩ := sound.exists_waiting holding rfl
    have sum := allRemaining_setCall waits (some .answered)
    simp only [Handoff.remaining, Call.remaining, holding, Writer.inHand, Option.elim, Option.toList,
      List.length_cons, List.length_nil] at sum ⊢
    omega
  | @receive i program answered =>
    have sum := allRemaining_setCall answered none
    simp only [Handoff.remaining, Call.remaining, Option.elim, writer_setCall] at sum ⊢
    omega
  | @refuse i request program stopped offered =>
    have sum := allRemaining_setCall offered none
    simp only [Handoff.remaining, Call.remaining, Option.elim, writer_setCall] at sum ⊢
    omega

theorem stopped (stopped : s.writer = .stopped) :
    s'.writer = .stopped ∧ s.handedBy event = none := by
  cases step <;> simp_all [handedBy]

theorem stopped_of_refused {call : Nat × Request} (refused : s.refusedBy event = some call) :
    s'.writer = .stopped := by
  cases step <;> simp_all [refusedBy]

theorem stopped_of_finished {i : Nat} (finished : s.finishedBy event = some (i, .stop)) :
    s'.writer = .stopped := by
  cases step <;> simp_all [finishedBy, Writer.inHand]

end Step

theorem outcomeBy_eq (s : Handoff) (event : Event) : (s.outcomeBy event).toList =
    s.ledger.outcomes (patches (s.finishedBy event).toList) := by
  rw [outcomeBy]
  rcases s.finishedBy event with _ | ⟨i, _ | _ | _⟩ <;> rfl

inductive Run : Handoff → List Event → Handoff → Prop where
  | nil (s : Handoff) : Run s [] s
  | cons {s next s' : Handoff} {event : Event} {events : List Event} (step : Step s event next)
      (rest : Run next events s') : Run s (event :: events) s'

theorem run?_eq_some_iff {s s' : Handoff} {events : List Event} :
    s.run? events = some s' ↔ Run s events s' := by
  induction events generalizing s with
  | nil =>
    constructor
    · intro h
      cases h
      exact Run.nil _
    · rintro ⟨⟩
      rfl
  | cons event events ih =>
    rw [run?, Option.bind_eq_some_iff]
    constructor
    · intro ⟨next, step, rest⟩
      exact Run.cons (step?_eq_some_iff.1 step) (ih.1 rest)
    · intro run
      cases run with
      | cons step rest => exact ⟨_, step?_eq_some_iff.2 step, ih.2 rest⟩

section Cons

variable {s next : Handoff} {event : Event} (step : Step s event next) (events : List Event)

include step

theorem trace_cons {α : Type} (seen : Handoff → Event → Option α) :
    s.trace seen (event :: events) = (seen s event).toList ++ next.trace seen events := by
  rw [trace, step?_eq_some_iff.2 step]

theorem handed_cons :
    s.handed (event :: events) = (s.handedBy event).toList ++ next.handed events :=
  trace_cons step events handedBy

theorem finished_cons :
    s.finished (event :: events) = (s.finishedBy event).toList ++ next.finished events :=
  trace_cons step events finishedBy

theorem refused_cons :
    s.refused (event :: events) = (s.refusedBy event).toList ++ next.refused events :=
  trace_cons step events refusedBy

theorem outcomes_cons :
    s.outcomes (event :: events) = (s.outcomeBy event).toList ++ next.outcomes events :=
  trace_cons step events outcomeBy

end Cons

theorem exists_run_of_append {s s' : Handoff} {before after : List Event}
    (run : Run s (before ++ after) s') : ∃ middle, Run s before middle ∧ Run middle after s' := by
  induction before generalizing s with
  | nil => exact ⟨s, Run.nil s, run⟩
  | cons event before ih =>
    cases run with
    | cons step rest =>
      obtain ⟨middle, here, there⟩ := ih rest
      exact ⟨middle, Run.cons step here, there⟩

namespace Run

variable {s s' : Handoff} {events : List Event} (run : Run s events s')

include run

theorem trace_append {α : Type} (seen : Handoff → Event → Option α) (after : List Event) :
    s.trace seen (events ++ after) = s.trace seen events ++ s'.trace seen after := by
  induction run with
  | nil => rfl
  | cons step rest ih =>
    rw [List.cons_append, trace_cons step, trace_cons step, ih, List.append_assoc]

theorem sound (sound : s.Sound) : s'.Sound := by
  induction run with
  | nil => exact sound
  | cons step rest ih => exact ih (step.sound sound)

theorem length_le (sound : s.Sound) : events.length + s'.remaining ≤ s.remaining := by
  induction run with
  | nil => simp
  | cons step rest ih =>
    have less := step.remaining sound
    have rest := ih (step.sound sound)
    rw [List.length_cons]
    omega

theorem inHand : s.writer.inHand.toList ++ s.handed events =
    s.finished events ++ s'.writer.inHand.toList := by
  induction run with
  | nil => exact List.append_nil _
  | cons step rest ih =>
    rw [handed_cons step, finished_cons step, ← List.append_assoc, step.inHand, List.append_assoc,
      ih, ← List.append_assoc]

theorem ledger : s'.ledger = s.ledger.submitAll (patches (s.finished events)) := by
  induction run with
  | nil => rfl
  | cons step rest ih =>
    rw [finished_cons step, patches_append, Ledger.submitAll_append, ← step.ledger, ih]

theorem outcomes : s.outcomes events = s.ledger.outcomes (patches (s.finished events)) := by
  induction run with
  | nil => rfl
  | cons step rest ih =>
    rw [outcomes_cons step, finished_cons step, patches_append, Ledger.outcomes_append,
      ← step.ledger, outcomeBy_eq, ih]

theorem stopped (stopped : s.writer = .stopped) : s'.writer = .stopped ∧ s.handed events = [] := by
  induction run with
  | nil => exact ⟨stopped, rfl⟩
  | cons step rest ih =>
    obtain ⟨next, none⟩ := step.stopped stopped
    obtain ⟨last, nothing⟩ := ih next
    rw [handed_cons step, none, nothing]
    exact ⟨last, rfl⟩

theorem stopped_of_mem_trace {α : Type} {seen : Handoff → Event → Option α} {a : α}
    (last : ∀ {s next : Handoff} {event : Event}, Step s event next → seen s event = some a →
      next.writer = .stopped)
    (member : a ∈ s.trace seen events) : s'.writer = .stopped := by
  induction run with
  | nil => cases member
  | cons step rest ih =>
    rw [trace_cons step] at member
    rcases List.mem_append.1 member with here | later
    · exact (rest.stopped (last step (Option.mem_toList.1 here))).1
    · exact ih later

theorem stopped_of_mem_refused {call : Nat × Request} (member : call ∈ s.refused events) :
    s'.writer = .stopped :=
  run.stopped_of_mem_trace (fun step => step.stopped_of_refused) member

theorem stopped_of_mem_finished {i : Nat} (member : (i, .stop) ∈ s.finished events) :
    s'.writer = .stopped :=
  run.stopped_of_mem_trace (fun step => step.stopped_of_finished) member

theorem pending (sound : s.Sound) (i : Nat) : s.pending i =
    callsOf i (s.handed events) ++ callsOf i (s.refused events) ++ s'.pending i := by
  induction run with
  | nil => rfl
  | @cons s _ _ event _ step rest ih =>
    rw [step.pending sound, ih (step.sound sound), handed_cons step, refused_cons step,
      callsOf_append, callsOf_append]
    cases refuses : s.refusedBy event with
    | none => simp
    | some call =>
      -- the writer has stopped, so nothing more is handed over
      rw [(rest.stopped (step.stopped_of_refused refuses)).2]
      simp

theorem behind (sound : s.Sound) {i : Nat} {request : Request} {rest : List Request}
    (made : s.producers[i]? = some ⟨none, request :: rest⟩)
    (ended : s'.producers[i]? = some ⟨none, rest⟩) :
    s.writer.inHand.toList <+: s.finished events ∧ (request = .stop → s'.writer = .stopped) := by
  have order := run.inHand
  by_cases stopped : s'.writer = .stopped
  · rw [stopped, Writer.inHand, Option.toList_none, List.append_nil] at order
    exact ⟨⟨s.handed events, order⟩, fun _ => stopped⟩
  · have nothing : s.refused events = [] :=
      List.eq_nil_iff_forall_not_mem.2 fun call member =>
        stopped (run.stopped_of_mem_refused member)
    have calls := run.pending sound i
    rw [pending_of_producer made, pending_of_producer ended, nothing, callsOf_nil, List.append_nil]
      at calls
    have handed : [request] = callsOf i (s.handed events) := List.append_cancel_right calls
    have member : (i, request) ∈ s.handed events := by
      rw [← mem_callsOf, ← handed]
      exact List.mem_singleton_self request
    constructor
    · -- the writer has taken one call more, so it has finished at least what it had in hand
      have one : s'.writer.inHand.toList.length ≤ 1 := by cases s'.writer.inHand <;> simp
      have some_handed := List.length_pos_of_mem member
      have lengths := congrArg List.length order
      rw [List.length_append, List.length_append] at lengths
      exact List.prefix_of_prefix_length_le (order ▸ List.prefix_append _ _)
        (List.prefix_append _ s'.writer.inHand.toList) (by omega)
    · rintro rfl
      have dealt := List.mem_append_right s.writer.inHand.toList member
      rw [order] at dealt
      rcases List.mem_append.1 dealt with finished | held
      · exact run.stopped_of_mem_finished finished
      · have holding : s'.writer = .holding i .stop := by
          cases form : s'.writer <;> simp_all [Writer.inHand]
        have waits := (run.sound sound i).2 ⟨.stop, holding, rfl⟩
        rw [call?_of_producer ended] at waits
        cases waits

end Run

theorem pending_start (l : Ledger) (programs : List (List Request)) (i : Nat) :
    (start l programs).pending i = programs[i]?.getD [] := by
  cases form : programs[i]? <;> simp [start, pending, Producer.pending, form]

theorem remaining_start (l : Ledger) (programs : List (List Request)) :
    (start l programs).remaining = 4 * programs.flatten.length := by
  have all : Producer.allRemaining (programs.map fun program => ⟨none, program⟩) =
      4 * programs.flatten.length := by
    induction programs with
    | nil => rfl
    | cons program programs ih =>
      rw [List.map_cons, Producer.allRemaining, ih, List.flatten_cons, List.length_append,
        Nat.mul_add]
      rfl
  exact all

theorem Sound.dealt_of_stuck {s : Handoff} (sound : s.Sound)
    (stuck : ∀ event, s.step? event = none) :
    s.writer.inHand = none ∧ ∀ i, s.pending i = [] := by
  have never {event : Event} {s' : Handoff} (step : Step s event s') : False := by
    have possible := step?_eq_some_iff.2 step
    rw [stuck event] at possible
    cases possible
  have free : s.writer.inHand = none := by
    cases writer : s.writer with
    | idle => rfl
    | stopped => rfl
    | holding i request =>
      cases request with
      | store patch => exact (never (Step.store writer)).elim
      | flush => exact (never (Step.flush writer)).elim
      | stop => exact (never (Step.stop writer)).elim
  refine ⟨free, fun i => ?_⟩
  cases found : s.producers[i]? with
  | none => rw [pending, found, Option.elim_none]
  | some producer =>
    rw [pending_of_producer found]
    obtain ⟨call, program⟩ := producer
    rcases call with _ | request | _ | _
    · cases program with
      | nil => rfl
      | cons request program => exact (never (Step.issue found)).elim
    · cases writer : s.writer with
      | idle => exact (never (Step.take writer found)).elim
      | stopped => exact (never (Step.refuse writer found)).elim
      | holding j request => simp [writer, Writer.inHand] at free
    · obtain ⟨request, holding, -⟩ := (sound i).1 (call?_of_producer found)
      simp [holding, Writer.inHand] at free
    · exact (never (Step.receive found)).elim

/-- Whatever the producers do, the calls are finished in the order in which they are handed over,
as if the patches were submitted one after another, and each producer's in the order of its
program. A run is bounded, and one that cannot go on has dealt with all calls. When a call is over,
so are those that were handed over before it was made; when a stop is over, all are. -/
theorem finished_in_order {l : Ledger} {programs : List (List Request)} {events : List Event}
    {s : Handoff} (ran : (start l programs).run? events = some s) :
    let first := start l programs
    (first.handed events = first.finished events ++ s.writer.inHand.toList ∧
      s.ledger = l.submitAll (patches (first.finished events)) ∧
      first.outcomes events = l.outcomes (patches (first.finished events))) ∧
    (∀ i, programs[i]?.getD [] =
      callsOf i (first.handed events) ++ callsOf i (first.refused events) ++ s.pending i) ∧
    (s.writer ≠ .stopped → first.refused events = []) ∧
    (events.length ≤ 4 * programs.flatten.length ∧
      ((∀ event, s.step? event = none) → ∀ i, programs[i]?.getD [] =
        callsOf i (first.finished events) ++ callsOf i (first.refused events))) ∧
    ∀ (before after : List Event) (middle : Handoff) (i : Nat) (request : Request)
        (rest : List Request),
      events = before ++ after → first.run? before = some middle →
      middle.producers[i]? = some ⟨none, request :: rest⟩ →
      s.producers[i]? = some ⟨none, rest⟩ →
        first.handed before <+: first.finished events ∧
          (request = .stop → s.writer = .stopped ∧ first.handed events = first.finished events) := by
  intro first
  have run : Run first events s := run?_eq_some_iff.1 ran
  have sound : first.Sound := sound_start l programs
  have order : first.handed events = first.finished events ++ s.writer.inHand.toList := run.inHand
  have programs_eq (i : Nat) : programs[i]?.getD [] =
      callsOf i (first.handed events) ++ callsOf i (first.refused events) ++ s.pending i := by
    rw [← pending_start l, run.pending sound i]
  refine ⟨⟨order, run.ledger, run.outcomes⟩, programs_eq, ?_, ⟨?_, ?_⟩, ?_⟩
  · intro working
    exact List.eq_nil_iff_forall_not_mem.2 fun call member =>
      working (run.stopped_of_mem_refused member)
  · rw [← remaining_start l programs]
    exact Nat.le_of_add_right_le (run.length_le sound)
  · intro stuck i
    obtain ⟨free, dealt⟩ := (run.sound sound).dealt_of_stuck stuck
    rw [programs_eq i, order, free, dealt i, Option.toList_none, List.append_nil, List.append_nil]
  · intro before after middle i request rest form reached made ended
    have here : Run first before middle := run?_eq_some_iff.1 reached
    obtain ⟨middle', here', there⟩ := exists_run_of_append (form ▸ run)
    have same : middle' = middle :=
      Option.some.inj ((run?_eq_some_iff.2 here').symm.trans reached)
    rw [same] at there
    obtain ⟨behind, stop⟩ := there.behind (here.sound sound) made ended
    constructor
    · have parts : first.finished events = first.finished before ++ middle.finished after := by
        rw [form]
        exact here.trace_append finishedBy after
      have taken : first.handed before = first.finished before ++ middle.writer.inHand.toList :=
        here.inHand
      rw [parts, taken]
      exact (List.prefix_append_right_inj _).2 behind
    · intro same
      have stopped := stop same
      rw [order, stopped, Writer.inHand, Option.toList_none, List.append_nil]
      exact ⟨rfl, rfl⟩

theorem finished_in_order_two_producers :
    let clock : Nat → Instant := fun _ => .epoch
    let l := Ledger.start { source := .ofUri "a", target := .ofUri "b" } clock .empty
    let p : Patch := ⟨"u", .ofUri "a", .ofUri "b", .epoch, [], some "interrupted"⟩
    let q : Patch := ⟨"v", .ofUri "a", .ofUri "b", .epoch, [], none⟩
    let first := start l [[.store p, .flush], [.store q, .stop]]
    let before : List Event := [.issue 0, .issue 1, .take 1, .work, .take 0]
    let after : List Event := [.issue 0, .work, .take 0, .work, .receive 0]
    ∃ s, first.run? (before ++ after) = some s ∧ s.ledger = l.submitAll [q, p] ∧
      first.handed before = [(1, .store q), (0, .store p)] ∧
      first.handed before <+: first.finished (before ++ after) := by
  intro clock l p q first before after
  obtain ⟨middle, reached, made⟩ : ∃ middle, first.run? before = some middle ∧
      middle.producers[0]? = some ⟨none, [.flush]⟩ := ⟨_, rfl, rfl⟩
  obtain ⟨s, ran, ended⟩ : ∃ s, first.run? (before ++ after) = some s ∧
      s.producers[0]? = some ⟨none, []⟩ := ⟨_, rfl, rfl⟩
  obtain ⟨⟨-, ledger, -⟩, -, -, -, barrier⟩ := finished_in_order ran
  obtain ⟨behind, -⟩ := barrier before after middle 0 .flush [] rfl reached made ended
  exact ⟨s, ran, ledger, rfl, behind⟩

end Handoff

end PatchLedger
