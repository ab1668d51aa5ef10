import PatchLedger.Proofs.Ledger.History
import PatchLedger.Proofs.Ledger.Run

/-!
A pruner and the writer side by side. A pruner knows a patch again by its stamp:
one that was written again with another stamp stays as it is, and one that was
written again with the stamp that the scan saw is removed like the old one
(`Ledger.holds_rewritten_iff`).
-/

namespace PatchLedger.Ledger

def pruner (l : Ledger) (i : Nat) : Pruner := l.pruners[i]?.getD []

def Move.OfWriterOr (i : Nat) : Move → Prop
  | .submit _ => True
  | .load _ _ _ => False
  | .prune j => j = i

inductive PairEffect (t : Tree) (pruner : Pruner) : Option Patch → Tree → Pruner → Prop where
  | write {p : Patch} {t' : Tree} (replaced : t.replace p.toRecord = .ok t') :
      PairEffect t pruner (some p) t' pruner
  | prune {entry : String × Option Bytes} {rest : Pruner} (next : pruner = entry :: rest) :
      PairEffect t pruner none (pruneOne t entry) rest
  | idle : PairEffect t pruner none t pruner

theorem pruneStep_of_cons {l : Ledger} {i : Nat} {entry : String × Option Bytes} {rest : Pruner}
    (next : l.pruner i = entry :: rest) :
    (l.pruneStep i).tree = pruneOne l.tree entry ∧ (l.pruneStep i).pruner i = rest := by
  have found : l.pruners[i]? = some (entry :: rest) := by
    rw [pruner] at next
    cases at_i : l.pruners[i]? with
    | none =>
      rw [at_i] at next
      cases next
    | some listed =>
      rw [at_i] at next
      exact congrArg some next
  have bound := (List.getElem?_eq_some_iff.1 found).1
  rw [pruneStep, found]
  exact ⟨rfl, by rw [pruner, List.getElem?_set_self bound]; rfl⟩

theorem pruneStep_of_nil {l : Ledger} {i : Nat} (done : l.pruner i = []) : l.pruneStep i = l := by
  rw [pruneStep]
  split
  · next entry rest next =>
    rw [pruner, next] at done
    cases done
  · rfl

theorem pairEffect_move (l : Ledger) {i : Nat} {m : Move} (h : m.OfWriterOr i) :
    PairEffect l.tree (l.pruner i) (l.writtenBy m) (l.move m).tree ((l.move m).pruner i) := by
  cases m with
  | submit p =>
    rw [writtenBy, move, pruner, pruner]
    rcases l.submit_cases p with ⟨t, relevant, replaced⟩ | ⟨other, -, tree, pruners⟩
    · rw [submit_of_ok relevant replaced]
      exact PairEffect.write replaced
    · rw [if_neg other, tree, pruners]
      exact PairEffect.idle
  | load => cases h
  | prune j =>
    cases h
    rw [writtenBy, move]
    cases next : l.pruner i with
    | nil =>
      rw [pruneStep_of_nil next, next]
      exact PairEffect.idle
    | cons entry rest =>
      rw [(pruneStep_of_cons next).1, (pruneStep_of_cons next).2]
      exact PairEffect.prune rfl

theorem pruner_load (l : Ledger) (clock : Nat → Instant) (offset size : Nat) :
    (l.load clock offset size).2.pruner l.pruners.length = stale l.setup (l.history clock) := by
  rcases l.load_eq clock offset size with ⟨same, none⟩ | added
  · rw [same, none, pruner, List.getElem?_eq_none (Nat.le_refl _)]
    rfl
  · rw [added, pruner, List.getElem?_concat_length]
    rfl

theorem pruner_load_two {setup : Setup} (one : setup.config.retention = 1) {p q : Patch}
    (relevant : ∀ r ∈ [q, p], !r.isEmpty || r.hasErrors)
    (valid : ∀ r ∈ [q, p], Key.validUuid r.uuid) (differ : q.uuid ≠ p.uuid) (order : q.Precedes p)
    (clock : Nat → Instant) (offset size : Nat) :
    ((submitAll ⟨setup, .empty, false, [], []⟩ [q, p]).load clock offset size).2.pruner 0 =
      [(p.uuid, some p.stamp.stored)] := by
  let start : Ledger := ⟨setup, .empty, false, [], []⟩
  have keeps : (start.submitAll [q, p]).tree.Keeps [p, q] := by
    have kept : (start.submitAll [q, p]).tree.Keeps _ := keeps_submits rfl relevant valid
    simpa [Patch.latest, differ] using kept
  have setup_eq : (start.submitAll [q, p]).setup = setup := by rw [submitAll_eq_run, setup_run]
  have given := pruner_load (start.submitAll [q, p]) clock offset size
  rw [pruners_submitAll, history, setup_eq, keeps.stale_pair order one] at given
  exact given

structure Tidy (pruner : Pruner) : Prop where
  distinct : (pruner.map Prod.fst).Nodup
  separable : ∀ entry ∈ pruner, Key.Separable entry.1

theorem Tidy.tail {entry : String × Option Bytes} {rest : Pruner} (h : Tidy (entry :: rest)) :
    Tidy rest where
  distinct := (List.nodup_cons.1 h.distinct).2
  separable other member := h.separable other (List.mem_cons_of_mem _ member)

theorem tidy_stale (t : Tree) (setup : Setup) (clock : Nat → Instant) :
    Tidy (stale setup (t.history setup clock)) where
  distinct := by
    rw [stale, List.map_map]
    exact (t.nodup_uuids_history setup clock).sublist ((List.drop_sublist _ _).map _)
  separable entry member := by
    obtain ⟨loaded, dropped, rfl⟩ := List.mem_map.1 member
    obtain ⟨key, value, -, named⟩ := (Tree.loaded_of_mem_history (List.mem_of_mem_drop dropped)).1
    exact (Key.uuid?_eq_some_iff.1 named).1

/-- What the tree has of a patch that was written when the pruner had its entry still before it:
the record, or nothing once the pruner has removed it. -/
def Standing (p : Patch) (seen : Option Bytes) (t : Tree) (pruner : Pruner) : Prop :=
  if (p.uuid, seen) ∈ pruner ∨ seen ≠ some p.stamp.stored then t.Holds p.toRecord
  else t.Lacks p.uuid

theorem Standing.of_agreeBut {p : Patch} {seen : Option Bytes} {t t' : Tree}
    {pruner pruner' : Pruner} (h : Standing p seen t pruner) {uuid : String}
    (agree : Tree.AgreeBut uuid t' t) (one : Key.Separable uuid) (own : Key.Separable p.uuid)
    (differ : p.uuid ≠ uuid) (same : (p.uuid, seen) ∈ pruner' ↔ (p.uuid, seen) ∈ pruner) :
    Standing p seen t' pruner' := by
  unfold Standing at h ⊢
  by_cases stays : (p.uuid, seen) ∈ pruner ∨ seen ≠ some p.stamp.stored
  · rw [if_pos stays] at h
    rw [if_pos (stays.imp_left same.2)]
    exact h.of_agreeBut agree one own differ
  · rw [if_neg stays] at h
    rw [if_neg fun stays' => stays (stays'.imp_left same.1)]
    exact h.of_agreeBut agree one own differ

theorem Standing.reach {p : Patch} {seen : Option Bytes} {t : Tree} {rest : Pruner}
    (h : Standing p seen t ((p.uuid, seen) :: rest)) (last : (p.uuid, seen) ∉ rest) :
    Standing p seen (pruneOne t (p.uuid, seen)) rest := by
  unfold Standing at h ⊢
  rw [if_pos (Or.inl List.mem_cons_self)] at h
  have stamp : t.get? (Key.ofEntry p.uuid .stamp) = some p.stamp.stored := h.stamp
  by_cases same : seen = some p.stamp.stored
  · rw [if_neg (not_or.2 ⟨last, not_not.2 same⟩), pruneOne_of_eq (stamp.trans same.symm)]
    exact t.lacks_eraseUnder p.uuid
  · rw [if_pos (Or.inr same), pruneOne_of_ne (stamp.symm ▸ Ne.symm same)]
    exact h

/-- The pruner has the patch before it under no other stamp than the one it was given. -/
structure Rewritten (p : Patch) (seen : Option Bytes) (t : Tree) (pruner : Pruner) : Prop where
  tidy : Tidy pruner
  own : ∀ entry ∈ pruner, entry.1 = p.uuid → entry = (p.uuid, seen)
  standing : Standing p seen t pruner

theorem Rewritten.step {p : Patch} (own : Key.Separable p.uuid) {seen : Option Bytes}
    {t t' : Tree} {pruner pruner' : Pruner} (h : Rewritten p seen t pruner) {wrote : Option Patch}
    (effect : PairEffect t pruner wrote t' pruner') (other : ∀ q ∈ wrote, q.uuid ≠ p.uuid) :
    Rewritten p seen t' pruner' := by
  cases effect with
  | @write q _ replaced =>
    obtain ⟨valid, -, agree⟩ := Tree.replace_eq_ok_iff.1 replaced
    have differ : p.uuid ≠ q.uuid := (other q rfl).symm
    exact ⟨h.tidy, h.own, h.standing.of_agreeBut agree (Key.separable_of_validUuid valid) own differ
      Iff.rfl⟩
  | @prune entry _ next =>
    subst next
    refine ⟨h.tidy.tail, fun e member => h.own e (List.mem_cons_of_mem entry member), ?_⟩
    by_cases reached : entry.1 = p.uuid
    · have form := h.own entry List.mem_cons_self reached
      subst form
      have standing := h.standing
      refine standing.reach fun again => ?_
      exact (List.nodup_cons.1 h.tidy.distinct).1 (List.mem_map.2 ⟨_, again, rfl⟩)
    · have differ : (p.uuid, seen) ≠ entry := fun same => reached (congrArg Prod.fst same).symm
      exact h.standing.of_agreeBut (agreeBut_pruneOne t entry)
        (h.tidy.separable entry List.mem_cons_self) own (Ne.symm reached) (by simp [differ])
  | idle => exact h

theorem Rewritten.run {p : Patch} (own : Key.Separable p.uuid) {seen : Option Bytes} {l : Ledger}
    {i : Nat} (h : Rewritten p seen l.tree (l.pruner i)) (moves : List Move)
    (pair : ∀ m ∈ moves, m.OfWriterOr i) (other : ∀ q ∈ l.written moves, q.uuid ≠ p.uuid) :
    Rewritten p seen (l.run moves).tree ((l.run moves).pruner i) := by
  induction moves generalizing l with
  | nil => exact h
  | cons m moves ih =>
    obtain ⟨here, later⟩ := List.forall_mem_cons.1 pair
    rw [written] at other
    have next := h.step own (l.pairEffect_move here)
      (fun q wrote => other q (List.mem_append_left _ (Option.mem_toList.2 wrote)))
    exact ih next later fun q wrote => other q (List.mem_append_right _ wrote)

theorem Tidy.step {t t' : Tree} {pruner pruner' : Pruner} (h : Tidy pruner) {wrote : Option Patch}
    (effect : PairEffect t pruner wrote t' pruner') : Tidy pruner' := by
  cases effect with
  | write => exact h
  | prune next => exact (next ▸ h).tail
  | idle => exact h

theorem Tidy.run {l : Ledger} {i : Nat} (h : Tidy (l.pruner i)) (moves : List Move)
    (pair : ∀ m ∈ moves, m.OfWriterOr i) : Tidy ((l.run moves).pruner i) := by
  induction moves generalizing l with
  | nil => exact h
  | cons m moves ih =>
    obtain ⟨here, later⟩ := List.forall_mem_cons.1 pair
    exact ih (h.step (l.pairEffect_move here)) later

/-- A patch that is written while the pruner of a load has its entry still before it stays, whole,
as long as the pruner has not come to it, and after that exactly if its stamp is not the one that the
load saw; otherwise all of it is removed. -/
theorem holds_rewritten_iff (l : Ledger) (clock : Nat → Instant) (offset size : Nat)
    (before after : List Move) (pair : ∀ m ∈ before ++ after, m.OfWriterOr l.pruners.length)
    (p : Patch) (seen : Option Bytes) :
    let reached := (l.load clock offset size).2.run before
    let last := (reached.submit p).2.run after
    (p.uuid, seen) ∈ reached.pruner l.pruners.length → (reached.submit p).1 = .written →
      (∀ q ∈ (reached.submit p).2.written after, q.uuid ≠ p.uuid) →
      (last.tree.Holds p.toRecord ↔
        (p.uuid, seen) ∈ last.pruner l.pruners.length ∨ seen ≠ some p.stamp.stored) ∧
      (¬ last.tree.Holds p.toRecord → last.tree.Lacks p.uuid) := by
  intro reached last listed wrote other
  have tidy : Tidy (reached.pruner l.pruners.length) := by
    refine Tidy.run ?_ before fun m member => pair m (List.mem_append_left _ member)
    rw [pruner_load]
    exact tidy_stale l.tree l.setup clock
  obtain ⟨t, replaced, form⟩ := submit_of_written wrote
  obtain ⟨valid, holds, -⟩ := Tree.replace_eq_ok_iff.1 replaced
  have again : Rewritten p seen (reached.submit p).2.tree
      ((reached.submit p).2.pruner l.pruners.length) := by
    rw [form]
    refine ⟨tidy, fun entry member same => ?_, ?_⟩
    · exact List.inj_on_of_nodup_map tidy.distinct member listed same
    · exact (if_pos (Or.inl listed)).mpr holds
  have standing := (again.run (Key.separable_of_validUuid valid) after
    (fun m member => pair m (List.mem_append_right _ member)) other).standing
  unfold Standing at standing
  by_cases stays : (p.uuid, seen) ∈ last.pruner l.pruners.length ∨ seen ≠ some p.stamp.stored
  · rw [if_pos stays] at standing
    exact ⟨⟨fun _ => stays, fun _ => standing⟩, fun lost => absurd standing lost⟩
  · rw [if_neg stays] at standing
    have removed (holds : last.tree.Holds p.toRecord) : False := holds.not_lacks standing
    exact ⟨⟨fun holds => (removed holds).elim, fun stays' => absurd stays' stays⟩, fun _ => standing⟩

/-- A patch that is written again with the stamp it had is removed by the pruner of the old one. -/
theorem removed_though_rewritten :
    let setup : Setup := ⟨.ofUri "a", .ofUri "b", { retention := 1 }⟩
    let older : Patch := ⟨"u", .ofUri "a", .ofUri "b", .epoch, [], some "interrupted"⟩
    let later : Patch := { older with
      uuid := "v", stamp := ⟨1, 0, by decide, by decide, by decide, by decide⟩ }
    let again : Patch := { older with error := some "interrupted again" }
    let scanned := ((submitAll ⟨setup, .empty, false, [], []⟩ [later, older]).load
      (fun _ => .epoch) 0 1).2
    let rewritten := scanned.submit again
    scanned.pruner 0 = [(again.uuid, some older.stamp.stored)] ∧ rewritten.1 = .written ∧
      rewritten.2.tree.Holds again.toRecord ∧
      ¬ (rewritten.2.pruneStep 0).tree.Holds again.toRecord := by
  intro setup older later again scanned rewritten
  have given : scanned.pruner 0 = [(again.uuid, some older.stamp.stored)] :=
    pruner_load_two rfl (by decide) (by decide) (by decide) (Or.inl (by decide)) (fun _ => .epoch) 0 1
  have wrote : rewritten.1 = .written := submit_eq_written_iff.2 ⟨rfl, by decide⟩
  have holds : rewritten.2.tree.Holds again.toRecord := (holds_of_written wrote).1
  have pending : rewritten.2.pruner 0 = [(again.uuid, some older.stamp.stored)] := by
    obtain ⟨t, -, form⟩ := submit_of_written wrote
    rw [show rewritten = _ from form]
    exact given
  have stamp : rewritten.2.tree.get? (Key.ofEntry again.uuid .stamp) = some older.stamp.stored :=
    holds.stamp
  refine ⟨given, wrote, holds, fun stays => ?_⟩
  rw [(pruneStep_of_cons pending).1, pruneOne_of_eq stamp] at stays
  exact stays.not_lacks (Tree.lacks_eraseUnder _ _)

theorem holds_rewritten_iff_later_stamp :
    let setup : Setup := ⟨.ofUri "a", .ofUri "b", { retention := 1 }⟩
    let older : Patch := ⟨"u", .ofUri "a", .ofUri "b", .epoch, [], some "interrupted"⟩
    let later : Patch := { older with
      uuid := "v", stamp := ⟨1, 0, by decide, by decide, by decide, by decide⟩ }
    let again : Patch := { older with stamp := later.stamp }
    let scanned := ((submitAll ⟨setup, .empty, false, [], []⟩ [later, older]).load
      (fun _ => .epoch) 0 1).2
    ((scanned.submit again).2.pruneStep 0).tree.Holds again.toRecord := by
  intro setup older later again scanned
  have given : scanned.pruner 0 = [(again.uuid, some older.stamp.stored)] :=
    pruner_load_two rfl (by decide) (by decide) (by decide) (Or.inl (by decide)) (fun _ => .epoch) 0 1
  have wrote : (scanned.submit again).1 = .written := submit_eq_written_iff.2 ⟨rfl, by decide⟩
  have differ : some older.stamp.stored ≠ some again.stamp.stored := fun same =>
    absurd (Instant.stored_injective (Option.some.inj same)) (by decide)
  have first_pruners : (submitAll ⟨setup, .empty, false, [], []⟩ [later, older]).pruners = [] :=
    pruners_submitAll _ _
  have settled := holds_rewritten_iff (submitAll ⟨setup, .empty, false, [], []⟩ [later, older])
    (fun _ => .epoch) 0 1 [] [.prune 0] (by simp [first_pruners, Move.OfWriterOr]) again
    (some older.stamp.stored)
  have listed : (again.uuid, some older.stamp.stored) ∈ scanned.pruner 0 := by
    rw [given]
    exact List.mem_singleton_self _
  rw [first_pruners] at settled
  exact (settled listed wrote (fun q later => absurd later List.not_mem_nil)).1.2 (Or.inr differ)

end PatchLedger.Ledger
