import PatchLedger.Proofs.Ledger.Suppression

/-!
The failures of a ledger, taken from time to time. Between two takings the queue
holds the first rejections, as many as it has room for, each as its patch tells it
(`Ledger.drain_session`); what came when it was full is lost. Nothing else that
the ledger does depends on the queue (`Ledger.move_withFailures`).
-/

namespace PatchLedger

def Patch.failure (p : Patch) : Failure :=
  ⟨p.uuid, ⟨.invalidArgument, "patch uuid 不能为空或包含 NUL: " ++ Text.quoted p.uuid⟩⟩

namespace Ledger

inductive Turn where
  | move (m : Move)
  | drain

def Turn.move? : Turn → Option Move
  | move m => some m
  | drain => none

def turn (l : Ledger) : Turn → Ledger
  | .move m => l.move m
  | .drain => l.drain.2

def session (l : Ledger) (turns : List Turn) : Ledger := turns.foldl turn l

def rejectedBy (l : Ledger) : Move → Option Patch
  | .submit p =>
      match (l.submit p).1 with
      | .rejected _ => some p
      | .suppressed | .written => none
  | .load _ _ _ | .prune _ => none

def rejected : Ledger → List Move → List Patch
  | _, [] => []
  | l, m :: moves => (l.rejectedBy m).toList ++ (l.move m).rejected moves

def withFailures (l : Ledger) (failures : List Failure) : Ledger := { l with failures }

def queued (failures : List Failure) (rejected : List Patch) : List Failure :=
  (failures ++ rejected.map Patch.failure).take failureCapacity

theorem queued_append (failures : List Failure) (first second : List Patch) :
    queued (queued failures first) second = queued failures (first ++ second) := by
  let all := failures ++ first.map Patch.failure
  have room : failureCapacity - min failureCapacity all.length = failureCapacity - all.length := by
    omega
  calc queued (queued failures first) second
      = all.take failureCapacity ++
          (second.map Patch.failure).take (failureCapacity - all.length) := by
        rw [queued, queued, List.take_append, List.take_take, Nat.min_self, List.length_take, room]
    _ = queued failures (first ++ second) := by
        rw [queued, List.map_append, ← List.append_assoc, ← List.take_append]

theorem length_queued_le (failures : List Failure) (rejected : List Patch) :
    (queued failures rejected).length ≤ failureCapacity :=
  List.length_take_le _ _

theorem queued_nil {failures : List Failure} (room : failures.length ≤ failureCapacity) :
    queued failures [] = failures := by
  rw [queued, List.map_nil, List.append_nil, List.take_of_length_le room]

section Room

variable (l : Ledger) {failures : List Failure} (room : failures.length ≤ failureCapacity)

include room

theorem report_withFailures (p : Patch) :
    (l.withFailures failures).report p.failure = l.withFailures (queued failures [p]) := by
  unfold report queued
  split
  · next free =>
    have whole : (failures ++ [p].map Patch.failure).length ≤ failureCapacity := by
      rw [List.length_append]
      exact free
    rw [List.take_of_length_le whole]
    rfl
  · next full =>
    have same : failures.length = failureCapacity := Nat.le_antisymm room (Nat.le_of_not_lt full)
    rw [← same, List.take_left]

theorem submit_withFailures (p : Patch) :
    ((l.withFailures failures).submit p).1 = (l.submit p).1 ∧
      ((l.withFailures failures).submit p).2 =
        (l.submit p).2.withFailures (queued failures (l.rejectedBy (.submit p)).toList) := by
  have relevance : (l.withFailures failures).isRelevant p = l.isRelevant p := rfl
  by_cases relevant : l.isRelevant p
  · by_cases valid : Key.validUuid p.uuid
    · obtain ⟨t, replaced, here⟩ := submit_of_written (submit_eq_written_iff.2 ⟨relevant, valid⟩)
      have there : (l.withFailures failures).submit p = _ :=
        submit_of_ok (relevance ▸ relevant) replaced
      rw [rejectedBy, here, there]
      exact ⟨rfl, congrArg _ (queued_nil room).symm⟩
    · have here := submit_of_not_valid relevant valid
      have there : (l.withFailures failures).submit p = _ :=
        submit_of_not_valid (relevance ▸ relevant) valid
      rw [rejectedBy, here, there]
      refine ⟨rfl, (l.report_withFailures room p).trans ?_⟩
      unfold report
      split <;> rfl
  · have here := submit_of_not_relevant relevant
    have there : (l.withFailures failures).submit p = _ :=
      submit_of_not_relevant (relevance ▸ relevant)
    rw [rejectedBy, here, there]
    exact ⟨rfl, congrArg _ (queued_nil room).symm⟩

theorem move_withFailures (m : Move) : (l.withFailures failures).rejectedBy m = l.rejectedBy m ∧
    (l.withFailures failures).move m =
      (l.move m).withFailures (queued failures (l.rejectedBy m).toList) := by
  cases m with
  | submit p =>
    obtain ⟨outcome, left⟩ := l.submit_withFailures room p
    exact ⟨by rw [rejectedBy, outcome, rejectedBy], left⟩
  | load clock offset limit =>
    have same : (l.withFailures failures).move (.load clock offset limit) =
        (l.move (.load clock offset limit)).withFailures failures := by
      have due : stale (l.withFailures failures).setup ((l.withFailures failures).history clock) =
          stale l.setup (l.history clock) := rfl
      rw [move, move, load, load]
      dsimp only
      rw [due]
      cases (stale l.setup (l.history clock)).isEmpty <;> rfl
    rw [rejectedBy, rejectedBy, Option.toList_none, queued_nil room]
    exact ⟨rfl, same⟩
  | prune i =>
    have same : (l.withFailures failures).move (.prune i) =
        (l.move (.prune i)).withFailures failures := by
      have pruners : (l.withFailures failures).pruners = l.pruners := rfl
      rw [move, move, pruneStep, pruneStep, pruners]
      rcases l.pruners[i]? with _ | _ | ⟨entry, rest⟩ <;> rfl
    rw [rejectedBy, rejectedBy, Option.toList_none, queued_nil room]
    exact ⟨rfl, same⟩

theorem run_withFailures (moves : List Move) :
    (l.withFailures failures).rejected moves = l.rejected moves ∧
      (l.withFailures failures).run moves =
        (l.run moves).withFailures (queued failures (l.rejected moves)) := by
  induction moves generalizing l failures with
  | nil => exact ⟨rfl, congrArg _ (queued_nil room).symm⟩
  | cons m moves ih =>
    obtain ⟨first, moved⟩ := l.move_withFailures room m
    obtain ⟨others, left⟩ := ih (l.move m) (length_queued_le failures (l.rejectedBy m).toList)
    have step (l : Ledger) : l.run (m :: moves) = (l.move m).run moves := rfl
    rw [rejected, first, moved, others, step, moved, left, queued_append, step]
    exact ⟨rfl, rfl⟩

theorem session_withFailures (turns : List Turn) : ∃ failures' : List Failure,
    failures'.length ≤ failureCapacity ∧ (l.withFailures failures).session turns =
      (l.run (turns.filterMap Turn.move?)).withFailures failures' := by
  induction turns generalizing l failures with
  | nil => exact ⟨failures, room, rfl⟩
  | cons t turns ih =>
    cases t with
    | move m =>
      have moved := (l.move_withFailures room m).2
      obtain ⟨failures', room', left⟩ :=
        ih (l.move m) (length_queued_le failures (l.rejectedBy m).toList)
      rw [← moved] at left
      exact ⟨failures', room', left⟩
    | drain => exact ih l (Nat.zero_le _)

end Room

theorem session_append (l : Ledger) (first second : List Turn) :
    l.session (first ++ second) = (l.session first).session second :=
  List.foldl_append

theorem session_map_move (l : Ledger) (moves : List Move) :
    l.session (moves.map .move) = l.run moves := by
  rw [session, List.foldl_map]
  rfl

theorem session_drained {l : Ledger} (empty : l.failures = []) {before : List Turn}
    (taken : ∀ t ∈ before.getLast?, t = .drain) :
    l.session before = (l.run (before.filterMap Turn.move?)).withFailures [] := by
  have whole : l = l.withFailures [] := by rw [withFailures, ← empty]
  rcases List.eq_nil_or_concat before with rfl | ⟨turns, last, rfl⟩
  · exact whole
  · rw [List.concat_eq_append] at taken ⊢
    have last : last = .drain := taken last List.getLast?_concat
    have none : ([] : List Failure).length ≤ failureCapacity := Nat.zero_le _
    obtain ⟨failures, -, left⟩ := l.session_withFailures none turns
    rw [← whole] at left
    have moves : (turns ++ [Turn.drain]).filterMap Turn.move? = turns.filterMap Turn.move? := by
      rw [List.filterMap_append]
      exact List.append_nil _
    rw [last, session_append, left, moves]
    rfl

/-- Whoever takes the failures gets those of the first 64 patches that were rejected since they were
taken last. The queue never holds more; and however full it was, and whenever it was emptied, all
else is as it would be had nobody taken them. -/
theorem drain_session {l : Ledger} (empty : l.failures = []) {before : List Turn}
    (taken : ∀ t ∈ before.getLast?, t = .drain) (moves : List Move) :
    let here := l.session (before ++ moves.map .move)
    let earlier := before.filterMap Turn.move?
    here.drain.1 = (((l.run earlier).rejected moves).take 64).map Patch.failure ∧
      here.failures.length ≤ 64 ∧
      ∀ queue : List Failure, queue.length ≤ 64 →
        let alone := (l.withFailures queue).run (earlier ++ moves)
        here.withFailures [] = alone.withFailures [] ∧
          ∀ p : Patch, (here.submit p).1 = (alone.submit p).1 := by
  intro here earlier
  have form : here =
      (l.run (earlier ++ moves)).withFailures (queued [] ((l.run earlier).rejected moves)) := by
    rw [run_append, ← ((l.run earlier).run_withFailures (Nat.zero_le _) moves).2,
      ← session_drained empty taken, ← session_map_move, ← session_append]
  have room : here.failures.length ≤ failureCapacity := by
    rw [form]
    exact length_queued_le [] _
  refine ⟨?_, room, fun queue short => ?_⟩
  · rw [form, List.map_take]
    rfl
  · obtain ⟨-, alone⟩ := l.run_withFailures short (earlier ++ moves)
    dsimp only
    rw [alone, form]
    refine ⟨rfl, fun p => ?_⟩
    rw [(submit_withFailures _ (length_queued_le _ _) p).1,
      (submit_withFailures _ (length_queued_le _ _) p).1]

/-- After a drain a patch is written, 65 are rejected, of which the last is lost, and a quiet one with
the same bad uuid is suppressed. -/
theorem drain_session_overfull :
    let setup : Setup := ⟨.ofUri "a", .ofUri "b", {}⟩
    let node : Node := { path := "f" }
    let good : Patch := ⟨"u", .ofUri "a", .ofUri "b", .epoch, [.change .create node none .epoch], none⟩
    let bad : Patch := { good with uuid := "bad\x00uuid" }
    let quiet : Patch := { bad with operations := [] }
    let moves : List Move := (good :: List.replicate 65 bad ++ [quiet]).map .submit
    let turns : List Turn := [.move (.submit bad), .drain] ++ moves.map .move
    (session ⟨setup, .empty, false, [], []⟩ turns).drain.1 = List.replicate 64 bad.failure := by
  intro setup node good bad quiet moves turns
  let l : Ledger := ⟨setup, .empty, false, [], []⟩
  let before : List Turn := [.move (.submit bad), .drain]
  have empty : l.failures = [] := rfl
  have taken : ∀ t ∈ before.getLast?, t = .drain := by simp [before]
  exact (drain_session empty taken moves).1.trans rfl

end Ledger

end PatchLedger
