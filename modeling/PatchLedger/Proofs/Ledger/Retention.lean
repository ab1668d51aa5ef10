import PatchLedger.Proofs.Ledger.History
import PatchLedger.Proofs.Ledger.Run

/-!
Retention under any interleaving of writes, loads and pruners. Whatever a pruner
still has to remove, and whatever is already missing, has as many patches before
it as the retention allows (`Ledger.Retains`). Each move keeps this, so the recent
patches are never lost; and once the pruners of a load have come to their end, no
others are left.
-/

namespace PatchLedger.Ledger

/-- What is missing of the written patches, or about to be removed, is of high rank. -/
structure Retains (retention : Nat) (t : Tree) (pruners : List Pruner)
    (written present : List Patch) : Prop where
  valid : ∀ p ∈ written, Key.validUuid p.uuid
  distinct : (written.map Patch.uuid).Nodup
  keeps : t.Keeps present
  among : present ⊆ written
  missing : ∀ p ∈ written, p ∉ present → retention ≤ p.rank written
  pending : ∀ pruner ∈ pruners, ∀ entry ∈ pruner, ∃ p ∈ written,
    entry = (p.uuid, some p.stamp.stored) ∧ retention ≤ p.rank written

/-- Whatever is there of high rank is about to be removed. -/
def Doomed (retention : Nat) (pruners : List Pruner) (written present : List Patch) : Prop :=
  ∀ p ∈ present, retention ≤ p.rank written →
    ∃ pruner ∈ pruners, (p.uuid, some p.stamp.stored) ∈ pruner

namespace Retains

variable {retention : Nat} {t t' : Tree} {pruners pruners' : List Pruner}
  {written present : List Patch}

theorem empty (retention : Nat) : Retains retention .empty [] [] [] where
  valid := by simp
  distinct := by simp
  keeps := Tree.keeps_empty
  among := by simp
  missing := by simp
  pending := by simp

theorem eq_of_uuid (h : Retains retention t pruners written present) {p q : Patch} (hp : p ∈ written)
    (hq : q ∈ written) (same : p.uuid = q.uuid) : p = q :=
  List.inj_on_of_nodup_map h.distinct hp hq same

theorem write (h : Retains retention t pruners written present) {p : Patch}
    (replaced : t.replace p.toRecord = .ok t') (fresh : p.uuid ∉ written.map Patch.uuid) :
    Retains retention t' pruners (written ++ [p]) (p :: present) := by
  have grow (q : Patch) : q.rank written ≤ q.rank (written ++ [p]) := by
    rw [Patch.rank, Patch.rank, List.countP_append]
    exact Nat.le_add_right _ _
  have differ (q : Patch) (member : q ∈ written) : q.uuid ≠ p.uuid := fun same =>
    fresh (List.mem_map.2 ⟨q, member, same⟩)
  have others : (present.filter fun q => q.uuid ≠ p.uuid) = present :=
    List.filter_eq_self.2 fun q member => decide_eq_true (differ q (h.among member))
  have valid : Key.validUuid p.uuid := (Tree.replace_eq_ok_iff.1 replaced).1
  have keeps := h.keeps.replace replaced
  rw [others] at keeps
  refine ⟨?_, ?_, keeps, ?_, ?_, ?_⟩
  · intro q member
    rcases List.mem_append.1 member with old | new
    · exact h.valid q old
    · exact List.mem_singleton.1 new ▸ valid
  · rw [List.map_append, List.map_singleton]
    refine List.nodup_append.2 ⟨h.distinct, List.nodup_singleton _, fun u old v new same => fresh ?_⟩
    rw [← List.mem_singleton.1 new, ← same]
    exact old
  · intro q member
    rcases List.mem_cons.1 member with rfl | member
    · exact List.mem_append_right _ (List.mem_singleton_self _)
    · exact List.mem_append_left _ (h.among member)
  · intro q member absent
    rcases List.mem_append.1 member with old | new
    · exact Nat.le_trans (h.missing q old (List.not_mem_of_not_mem_cons absent)) (grow q)
    · exact absurd (List.mem_singleton.1 new) (List.ne_of_not_mem_cons absent)
  · intro pruner found entry member
    obtain ⟨q, old, form, high⟩ := h.pending pruner found entry member
    exact ⟨q, List.mem_append_left _ old, form, Nat.le_trans high (grow q)⟩

theorem scan (h : Retains retention t pruners written present) {setup : Setup}
    (limit : setup.config.retention.toNat = retention) (clock : Nat → Instant) :
    Retains retention t (pruners ++ [stale setup (t.history setup clock)]) written present := by
  refine ⟨h.valid, h.distinct, h.keeps, h.among, h.missing, fun pruner found entry member => ?_⟩
  rcases List.mem_append.1 found with old | new
  · exact h.pending pruner old entry member
  · rw [List.mem_singleton.1 new, h.keeps.mem_stale, limit] at member
    obtain ⟨p, held, form, high⟩ := member
    have nodup := Patch.nodup_of_uuids h.keeps.distinct
    exact ⟨p, h.among held, form, Nat.le_trans high (Patch.rank_le_of_subset nodup h.among p)⟩

theorem prune (h : Retains retention t pruners written present) {i : Nat} {rest : Pruner} {p : Patch}
    (next : pruners[i]? = some ((p.uuid, some p.stamp.stored) :: rest)) (member : p ∈ written)
    (high : retention ≤ p.rank written) :
    Retains retention (pruneOne t (p.uuid, some p.stamp.stored)) (pruners.set i rest) written
      (present.filter fun q => ¬ (q.uuid = p.uuid ∧ some q.stamp.stored = some p.stamp.stored)) := by
  have separable := Key.separable_of_validUuid (h.valid p member)
  refine ⟨h.valid, h.distinct, h.keeps.pruneOne separable _, ?_, ?_, ?_⟩
  · exact fun q held => h.among (List.mem_of_mem_filter held)
  · intro q found absent
    by_cases held : q ∈ present
    · have removed : q.uuid = p.uuid ∧ some q.stamp.stored = some p.stamp.stored := by
        by_contra stays
        exact absent (List.mem_filter.2 ⟨held, decide_eq_true stays⟩)
      rw [h.eq_of_uuid found member removed.1]
      exact high
    · exact h.missing q found held
  · intro pruner found entry entered
    rcases List.mem_or_eq_of_mem_set found with old | new
    · exact h.pending pruner old entry entered
    · exact h.pending _ (List.mem_of_getElem? next) entry
        (List.mem_cons_of_mem _ (new ▸ entered))

end Retains

theorem Doomed.prune {retention : Nat} {pruners : List Pruner} {written present : List Patch}
    (h : Doomed retention pruners written present) {i : Nat} {rest : Pruner} {p : Patch}
    (next : pruners[i]? = some ((p.uuid, some p.stamp.stored) :: rest)) :
    Doomed retention (pruners.set i rest) written
      (present.filter fun q => ¬ (q.uuid = p.uuid ∧ some q.stamp.stored = some p.stamp.stored)) := by
  intro q member high
  obtain ⟨held, stays⟩ := List.mem_filter.1 member
  have stays := of_decide_eq_true stays
  obtain ⟨pruner, found, entered⟩ := h q held high
  obtain ⟨j, at_j⟩ := List.mem_iff_getElem?.1 found
  by_cases same : i = j
  · subst same
    rw [next] at at_j
    cases at_j
    have later : (q.uuid, some q.stamp.stored) ∈ rest := by
      rcases List.mem_cons.1 entered with now | later
      · exact absurd (Prod.mk.inj now) stays
      · exact later
    have bound := (List.getElem?_eq_some_iff.1 next).1
    exact ⟨rest, List.mem_iff_getElem?.2 ⟨i, List.getElem?_set_self bound⟩, later⟩
  · exact ⟨pruner, List.mem_iff_getElem?.2 ⟨j, by rw [List.getElem?_set_ne same, at_j]⟩, entered⟩

theorem Retains.step {retention : Nat} {t t' : Tree} {pruners pruners' : List Pruner}
    {written present : List Patch} (h : Retains retention t pruners written present) {setup : Setup}
    (limit : setup.config.retention.toNat = retention) {wrote : Option Patch}
    (effect : Effect setup t pruners wrote t' pruners')
    (distinct : ((written ++ wrote.toList).map Patch.uuid).Nodup) :
    ∃ present', Retains retention t' pruners' (written ++ wrote.toList) present' ∧
      (wrote = none → Doomed retention pruners written present →
        Doomed retention pruners' written present') := by
  cases effect with
  | @write p _ replaced =>
    have fresh : p.uuid ∉ written.map Patch.uuid := by
      rw [List.map_append] at distinct
      exact fun old => (List.nodup_append.1 distinct).2.2 _ old _ (List.mem_singleton_self _) rfl
    exact ⟨p :: present, h.write replaced fresh, fun same => by cases same⟩
  | scan clock =>
    rw [Option.toList_none, List.append_nil]
    refine ⟨present, h.scan limit clock, fun _ doomed p held high => ?_⟩
    obtain ⟨pruner, found, entered⟩ := doomed p held high
    exact ⟨pruner, List.mem_append_left _ found, entered⟩
  | prune next =>
    rw [Option.toList_none, List.append_nil]
    obtain ⟨p, member, rfl, high⟩ := h.pending _ (List.mem_of_getElem? next) _ List.mem_cons_self
    exact ⟨_, h.prune next member high, fun _ doomed => doomed.prune next⟩
  | idle =>
    rw [Option.toList_none, List.append_nil]
    exact ⟨present, h, fun _ doomed => doomed⟩

theorem Retains.run {retention : Nat} {l : Ledger} {written present : List Patch}
    (h : Retains retention l.tree l.pruners written present)
    (limit : l.setup.config.retention.toNat = retention) (moves : List Move)
    (distinct : ((written ++ l.written moves).map Patch.uuid).Nodup) :
    ∃ present', Retains retention (l.run moves).tree (l.run moves).pruners
        (written ++ l.written moves) present' ∧
      (l.written moves = [] → Doomed retention l.pruners written present →
        Doomed retention (l.run moves).pruners written present') := by
  induction moves generalizing l written present with
  | nil =>
    rw [Ledger.written, List.append_nil]
    exact ⟨present, h, fun _ doomed => doomed⟩
  | cons m moves ih =>
    rw [Ledger.written, ← List.append_assoc] at distinct ⊢
    have here : ((written ++ (l.writtenBy m).toList).map Patch.uuid).Nodup := by
      rw [List.map_append] at distinct
      exact (List.nodup_append.1 distinct).1
    obtain ⟨next, retains, due⟩ := h.step limit (l.effect_move m) here
    obtain ⟨last, retains', due'⟩ := ih retains (by rw [setup_move, limit]) distinct
    refine ⟨last, retains', fun none doomed => ?_⟩
    obtain ⟨noneHere, noneLater⟩ := List.append_eq_nil_iff.1 none
    have noneHere := Option.toList_eq_nil_iff.1 noneHere
    rw [noneHere, Option.toList_none, List.append_nil] at due'
    exact due' noneLater (due noneHere doomed)

theorem Retains.load {retention : Nat} {l : Ledger} {written present : List Patch}
    (h : Retains retention l.tree l.pruners written present)
    (limit : l.setup.config.retention.toNat = retention) (clock : Nat → Instant)
    (offset size : Nat) :
    Retains retention (l.load clock offset size).2.tree (l.load clock offset size).2.pruners
        written present ∧
      Doomed retention (l.load clock offset size).2.pruners written present := by
  have top : ∀ q ∈ written, q.rank written < retention → q ∈ present := by
    intro q member low
    by_contra absent
    exact absurd (h.missing q member absent) (Nat.not_le.2 low)
  have stale (p : Patch) (held : p ∈ present) (high : retention ≤ p.rank written) :
      (p.uuid, some p.stamp.stored) ∈ stale l.setup (l.history clock) :=
    (h.keeps.mem_stale l.setup clock).2
      ⟨p, held, rfl, limit ▸ Patch.le_rank_of_top h.distinct top (h.among held) high⟩
  rcases l.load_eq clock offset size with ⟨same, none⟩ | added
  · rw [same]
    refine ⟨h, fun p held high => ?_⟩
    have entered := stale p held high
    rw [none] at entered
    cases entered
  · rw [added]
    exact ⟨h.scan limit clock, fun p held high =>
      ⟨_, List.mem_append_right _ (List.mem_singleton_self _), stale p held high⟩⟩

theorem Retains.keeps_low {retention : Nat} {t : Tree} {pruners : List Pruner}
    {written present : List Patch} (h : Retains retention t pruners written present)
    (doomed : Doomed retention pruners written present) (done : ∀ pruner ∈ pruners, pruner = []) :
    t.Keeps (written.filter fun p => p.rank written < retention) := by
  refine h.keeps.congr (h.distinct.sublist (List.filter_sublist.map _)) fun p => ?_
  constructor
  · intro member
    obtain ⟨member, low⟩ := List.mem_filter.1 member
    by_contra absent
    exact absurd (h.missing p member absent) (Nat.not_le.2 (of_decide_eq_true low))
  · intro held
    refine List.mem_filter.2 ⟨h.among held, decide_eq_true (Nat.not_le.1 fun high => ?_)⟩
    obtain ⟨pruner, found, entered⟩ := doomed p held high
    rw [done pruner found] at entered
    cases entered

/-- No interleaving loses a recent patch: what was written and has fewer patches before it than the
retention is there, whole. When the pruners of a load are done and nothing was written since, just
these patches are left. -/
theorem retains_recent (l : Ledger) (empty : l.tree = .empty) (idle : l.pruners = [])
    (moves : List Move) (distinct : ((l.written moves).map Patch.uuid).Nodup) :
    let retention := l.setup.config.retention.toNat
    let written := l.written moves
    (∀ p ∈ written, p.rank written < retention → (l.run moves).tree.Holds p.toRecord) ∧
      ∀ before clock offset size after, moves = before ++ .load clock offset size :: after →
        (l.run (before ++ [.load clock offset size])).written after = [] →
        (∀ pruner ∈ (l.run moves).pruners, pruner = []) →
        (l.run moves).tree.Keeps (written.filter fun p => p.rank written < retention) ∧
          (l.run moves).count = min retention written.length := by
  intro retention written
  have start : Retains retention l.tree l.pruners [] [] := by
    rw [empty, idle]
    exact Retains.empty retention
  constructor
  · intro p member low
    obtain ⟨present, retains, -⟩ := start.run rfl moves distinct
    by_contra lost
    have absent : p ∉ present := fun held => lost (retains.keeps.holds p held)
    exact absurd (retains.missing p member absent) (Nat.not_le.2 low)
  · intro before clock offset size after form quiet done
    have moves_eq : moves = (before ++ [.load clock offset size]) ++ after := by simp [form]
    have loaded : l.run (before ++ [.load clock offset size]) =
        ((l.run before).load clock offset size).2 := run_append l before _
    have written_eq : written = l.written before := by
      have all : written = l.written (before ++ [.load clock offset size]) := by
        rw [show written = l.written moves from rfl, moves_eq, written_append, quiet, List.append_nil]
      rw [all, written_append]
      exact List.append_nil _
    obtain ⟨present, retains, -⟩ := start.run rfl before (by
      rw [List.nil_append, ← written_eq]
      exact distinct)
    obtain ⟨retains, doomed⟩ := retains.load (by rw [setup_run]) clock offset size
    rw [← loaded] at retains doomed
    obtain ⟨last, retains, due⟩ := retains.run (by rw [setup_run]) after (by
      rw [quiet, List.append_nil, List.nil_append, ← written_eq]
      exact distinct)
    have doomed := due quiet doomed
    rw [← run_append, ← moves_eq, quiet, List.append_nil, List.nil_append, ← written_eq] at retains
    rw [← run_append, ← moves_eq, List.nil_append, ← written_eq] at doomed
    have keeps := retains.keeps_low doomed done
    exact ⟨keeps, by rw [count, keeps.patchCount, Patch.length_filter_rank_lt distinct]⟩

theorem retains_recent_two :
    let setup : Setup := ⟨.ofUri "a", .ofUri "b", { retention := 1 }⟩
    let older : Patch := ⟨"u", .ofUri "a", .ofUri "b", .epoch, [], some "interrupted"⟩
    let later : Patch := { older with
      uuid := "v", stamp := ⟨1, 0, by decide, by decide, by decide, by decide⟩ }
    let moves : List Move := [.submit later, .submit older, .load (fun _ => .epoch) 0 1, .prune 0]
    let l := run ⟨setup, .empty, false, [], []⟩ moves
    l.tree.Keeps [later] ∧ l.count = 1 := by
  intro setup older later moves l
  let start : Ledger := ⟨setup, .empty, false, [], []⟩
  let first := start.submitAll [later, older]
  have submitted : start.written ([later, older].map .submit) = [later, older] :=
    written_submits (by decide) (by decide)
  have keeps : first.tree.Keeps [older, later] := by
    have kept := keeps_submitAll (show start.tree.Keeps [] from Tree.keeps_empty) [later, older]
    rw [submitted] at kept
    exact kept
  have setup_eq : first.setup = setup := by
    rw [show first = start.run _ from submitAll_eq_run start _, setup_run]
  have done : ∀ pruner ∈ l.pruners, pruner = [] := by
    obtain ⟨entry, stale_eq⟩ := List.length_eq_one_iff.1 (keeps.length_stale setup fun _ => .epoch)
    have pruned : l = (first.load (fun _ => .epoch) 0 1).2.pruneStep 0 := rfl
    rcases first.load_eq (fun _ => .epoch) 0 1 with ⟨-, none⟩ | added
    · rw [history, setup_eq, stale_eq] at none
      cases none
    · rw [pruned, added, history, setup_eq, stale_eq, pruners_submitAll]
      simp [pruneStep, start]
  have written : start.written moves = [later, older] := by
    have quiet : first.written [.load (fun _ => .epoch) 0 1, .prune 0] = [] := rfl
    have split := written_append start ([later, older].map .submit)
      [.load (fun _ => .epoch) 0 1, .prune 0]
    rw [submitted, ← submitAll_eq_run, quiet, List.append_nil] at split
    exact split
  obtain ⟨-, settled⟩ := retains_recent start rfl rfl moves (by
    rw [written]
    decide)
  obtain ⟨keeps, count⟩ := settled [.submit later, .submit older] (fun _ => .epoch) 0 1 [.prune 0]
    rfl rfl done
  rw [written] at keeps count
  exact ⟨keeps, count⟩

end PatchLedger.Ledger
