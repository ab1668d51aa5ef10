import PatchLedger.Proofs.Ledger.Latest
import PatchLedger.Proofs.Ledger.Suppression

/-!
Closing a ledger and opening it again. While it is open, its flag is that of the
patch written last (`Ledger.lastHasErrors_run`); when it is opened, that of the
patch that stands first in its history (`Tree.Keeps.lastHasErrors_start`). The two
are the same patch where the stamps rise as patches are written
(`Ledger.Crowned`), and may differ where they do not.
-/

namespace PatchLedger

namespace Tree.Keeps

variable {t : Tree} {patches : List Patch}

theorem error_sheet (h : t.Keeps patches) {p : Patch} (member : p ∈ patches) :
    (t.sheet p.uuid).error = p.error.map Bytes.ofText :=
  h.value?_sheet member .error nofun

theorem hasErrors_of_mem_history (h : t.Keeps patches) {setup : Setup} {clock : Nat → Instant}
    {loaded : Loaded} (found : loaded ∈ t.history setup clock) {p : Patch} (held : p ∈ patches)
    (same : loaded.patch.uuid = p.uuid) : loaded.patch.hasErrors = p.hasErrors := by
  obtain ⟨-, now, form⟩ := loaded_of_mem_history found
  rw [same] at form
  simp [form, Sheet.loaded, Sheet.patch, Patch.hasErrors, h.error_sheet held]

theorem lastHasErrors_start (h : t.Keeps patches) (setup : Setup) (clock : Nat → Instant) :
    (Ledger.start setup clock t).lastHasErrors ↔
      ∃ p ∈ patches, p.rank patches = 0 ∧ p.hasErrors := by
  have first (loaded : Loaded) (found : loaded ∈ t.history setup clock) (p : Patch)
      (same : loaded.patch.place = p.place) :
      loaded.patch ∈ ((t.history setup clock).map Loaded.patch).take 1 ↔ p.rank patches = 0 := by
    rw [Patch.mem_take_iff (t.pairwise_history setup clock) (List.mem_map.2 ⟨loaded, found, rfl⟩),
      Patch.rank_eq_of_perm same (h.places_history setup clock), Nat.lt_one_iff]
  rw [Ledger.start_eq, List.any_eq_true]
  constructor
  · rintro ⟨loaded, taken, error⟩
    have found := List.mem_of_mem_take taken
    obtain ⟨p, held, uuid, stamp, -⟩ := h.of_mem_history found
    refine ⟨p, held, ?_, h.hasErrors_of_mem_history found held uuid ▸ error⟩
    rw [← first loaded found p (by rw [Patch.place, Patch.place, uuid, stamp]), ← List.map_take]
    exact List.mem_map.2 ⟨loaded, taken, rfl⟩
  · rintro ⟨p, held, zero, error⟩
    obtain ⟨loaded, found, uuid, stamp, -⟩ := h.exists_mem_history setup clock held
    rw [← first loaded found p (by rw [Patch.place, Patch.place, uuid, stamp]), ← List.map_take] at zero
    obtain ⟨other, taken, same⟩ := List.mem_map.1 zero
    refine ⟨other, taken, ?_⟩
    rw [same, h.hasErrors_of_mem_history found held uuid, error]

end Tree.Keeps

namespace Ledger

theorem lastHasErrors_move (l : Ledger) (m : Move) :
    (l.move m).lastHasErrors = (l.writtenBy m).elim l.lastHasErrors Patch.hasErrors := by
  cases m with
  | submit p =>
    rw [move, writtenBy]
    by_cases wrote : (l.submit p).1 = .written
    · obtain ⟨relevant, valid⟩ := submit_eq_written_iff.1 wrote
      rw [if_pos wrote, lastHasErrors_submit, if_pos valid, Option.elim_some]
    · rw [if_neg wrote, Option.elim_none]
      exact (alike_submit wrote).lastHasErrors
  | load clock offset limit =>
    rw [move, writtenBy, Option.elim_none]
    exact l.lastHasErrors_load clock offset limit
  | prune i =>
    rw [move, writtenBy, pruneStep]
    split <;> rfl

theorem lastHasErrors_run (l : Ledger) (moves : List Move) : (l.run moves).lastHasErrors =
    (l.written moves).getLast?.elim l.lastHasErrors Patch.hasErrors := by
  induction moves generalizing l with
  | nil => rfl
  | cons m moves ih =>
    rw [written, show l.run (m :: moves) = (l.move m).run moves from rfl, ih, lastHasErrors_move,
      List.getLast?_append]
    cases ((l.move m).written moves).getLast? <;> cases l.writtenBy m <;> rfl

/-- Each patch goes before those that were written before it. -/
def Rising (written : List Patch) : Prop := written.Pairwise fun p q => q.Precedes p

instance (written : List Patch) : Decidable (Rising written) :=
  inferInstanceAs (Decidable (written.Pairwise fun p q => q.Precedes p))

theorem Rising.eq_or_precedes {written : List Patch} (h : Rising written) {p q : Patch}
    (last : written.getLast? = some p) (member : q ∈ written) : q = p ∨ p.Precedes q := by
  obtain ⟨before, rfl⟩ := List.getLast?_eq_some_iff.1 last
  rcases List.mem_append.1 member with old | new
  · exact Or.inr ((List.pairwise_append.1 h).2.2 q old p (List.mem_singleton_self p))
  · exact Or.inl (List.mem_singleton.1 new)

/-- The patch written last is kept, and no pruner has it before it. -/
structure Crowned (t : Tree) (pruners : List Pruner) (written kept : List Patch) : Prop
    extends KeepsLatest t pruners written kept where
  crown : ∀ p, written.getLast? = some p →
    p ∈ kept ∧ ∀ pruner ∈ pruners, (p.uuid, some p.stamp.stored) ∉ pruner

namespace Crowned

variable {t t' : Tree} {pruners pruners' : List Pruner} {written kept : List Patch}

theorem write (h : Crowned t pruners written kept) {p : Patch}
    (replaced : t.replace p.toRecord = .ok t') (rising : Rising (written ++ [p])) :
    Crowned t' pruners (written ++ [p]) (p :: kept.filter fun q => q.uuid ≠ p.uuid) where
  toKeepsLatest := h.toKeepsLatest.write replaced
  crown q last := by
    rw [List.getLast?_concat] at last
    cases last
    refine ⟨List.mem_cons_self, fun pruner found listed => ?_⟩
    obtain ⟨q, old, form⟩ := h.pending pruner found _ listed
    obtain ⟨uuid, stored⟩ := Prod.mk.inj form
    have same : p.place = q.place := by
      rw [Patch.place, Patch.place, uuid, Instant.stored_injective (Option.some.inj stored)]
    have after : p.Precedes q :=
      (List.pairwise_append.1 rising).2.2 q old p (List.mem_singleton_self p)
    rw [Patch.Precedes, same] at after
    exact Patch.Precedes.irrefl q after

theorem rank_eq_zero (h : Crowned t pruners written kept) (rising : Rising written) {p : Patch}
    (last : written.getLast? = some p) : p.rank kept = 0 := by
  refine List.countP_eq_zero.2 fun q held => ?_
  rcases rising.eq_or_precedes last (h.latest q held).mem with rfl | after
  · simpa using Patch.Precedes.irrefl q
  · simpa using after.asymm

theorem scan (h : Crowned t pruners written kept) (rising : Rising written) {setup : Setup}
    (room : 1 ≤ setup.config.retention.toNat) (clock : Nat → Instant) :
    Crowned t (pruners ++ [stale setup (t.history setup clock)]) written kept where
  toKeepsLatest := h.toKeepsLatest.scan setup clock
  crown p last := by
    obtain ⟨held, unlisted⟩ := h.crown p last
    refine ⟨held, fun pruner found listed => ?_⟩
    rcases List.mem_append.1 found with old | new
    · exact unlisted pruner old listed
    · rw [List.mem_singleton.1 new, h.keeps.mem_stale] at listed
      obtain ⟨q, held', form, high⟩ := listed
      rw [← h.keeps.eq_of_uuid held held' (congrArg Prod.fst form), h.rank_eq_zero rising last] at high
      omega

theorem prune (h : Crowned t pruners written kept) {i : Nat} {entry : String × Option Bytes}
    {rest : Pruner} (next : pruners[i]? = some (entry :: rest)) :
    Crowned (pruneOne t entry) (pruners.set i rest) written
      (kept.filter fun q => ¬ (q.uuid = entry.1 ∧ some q.stamp.stored = entry.2)) where
  toKeepsLatest := h.toKeepsLatest.prune next
  crown p last := by
    obtain ⟨held, unlisted⟩ := h.crown p last
    have here := unlisted _ (List.mem_of_getElem? next)
    refine ⟨List.mem_filter.2 ⟨held, decide_eq_true fun same => here ?_⟩, fun pruner found listed => ?_⟩
    · exact List.mem_cons.2 (Or.inl (Prod.ext same.1 same.2))
    · rcases List.mem_or_eq_of_mem_set found with old | new
      · exact unlisted pruner old listed
      · exact here (List.mem_cons_of_mem entry (new ▸ listed))

theorem step (h : Crowned t pruners written kept) {setup : Setup}
    (room : 1 ≤ setup.config.retention.toNat) {wrote : Option Patch}
    (effect : Effect setup t pruners wrote t' pruners') (rising : Rising (written ++ wrote.toList)) :
    ∃ kept', Crowned t' pruners' (written ++ wrote.toList) kept' := by
  cases effect with
  | write replaced => exact ⟨_, h.write replaced rising⟩
  | scan clock =>
    rw [Option.toList_none, List.append_nil] at rising ⊢
    exact ⟨kept, h.scan rising room clock⟩
  | prune next => exact ⟨_, by simpa using h.prune next⟩
  | idle => exact ⟨kept, by simpa using h⟩

theorem run {l : Ledger} (h : Crowned l.tree l.pruners written kept)
    (room : 1 ≤ l.setup.config.retention.toNat) (moves : List Move)
    (rising : Rising (written ++ l.written moves)) : ∃ kept',
      Crowned (l.run moves).tree (l.run moves).pruners (written ++ l.written moves) kept' := by
  induction moves generalizing l written kept with
  | nil =>
    rw [Ledger.written, List.append_nil]
    exact ⟨kept, h⟩
  | cons m moves ih =>
    rw [Ledger.written, ← List.append_assoc] at rising ⊢
    obtain ⟨next, h⟩ := h.step room (l.effect_move m) (List.pairwise_append.1 rising).1
    exact ih h (by rwa [setup_move]) rising

theorem settle {l : Ledger} (h : Crowned l.tree l.pruners written kept) :
    Crowned l.settle.tree l.settle.pruners written
      (kept.filter fun p => (p.uuid, some p.stamp.stored) ∉ l.pruners.flatten) where
  toKeepsLatest := h.toKeepsLatest.settle
  crown p last := by
    obtain ⟨held, unlisted⟩ := h.crown p last
    refine ⟨List.mem_filter.2 ⟨held, decide_eq_true fun listed => ?_⟩, by simp [Ledger.settle]⟩
    obtain ⟨pruner, found, member⟩ := List.mem_flatten.1 listed
    exact unlisted pruner found member

theorem exists_first_iff (h : Crowned t pruners written kept) (rising : Rising written) :
    (∃ p ∈ kept, p.rank kept = 0 ∧ p.hasErrors) ↔
      ∃ p, written.getLast? = some p ∧ p.hasErrors := by
  constructor
  · intro ⟨p, held, zero, error⟩
    obtain ⟨last, found⟩ := Option.isSome_iff_exists.1
      (List.getLast?_isSome.2 (List.ne_nil_of_mem (h.latest p held).mem))
    rcases rising.eq_or_precedes found (h.latest p held).mem with rfl | before
    · exact ⟨p, found, error⟩
    · have none := List.countP_eq_zero.1 zero last (h.crown last found).1
      exact absurd (decide_eq_true before) none
  · intro ⟨p, found, error⟩
    exact ⟨p, (h.crown p found).1, h.rank_eq_zero rising found, error⟩

end Crowned

theorem elim_false_iff {patch? : Option Patch} :
    patch?.elim false Patch.hasErrors ↔ ∃ p, patch? = some p ∧ p.hasErrors := by
  cases patch? <;> simp

/-- The flag of an open ledger is that of the patch written last; closed and opened again, the ledger
has the flag of the patch that stands first in what is kept. The flag survives where the stamps rose. -/
theorem lastHasErrors_reopened {setup : Setup} (room : 1 ≤ setup.config.retention.toNat)
    (clock clock' : Nat → Instant) (moves : List Move) :
    let first := start setup clock .empty
    let written := first.written moves
    let last := first.run moves
    let reopened := start setup clock' last.settle.tree
    (last.lastHasErrors ↔ ∃ p, written.getLast? = some p ∧ p.hasErrors) ∧
      (∃ kept, last.settle.tree.Keeps kept ∧ (∀ p ∈ kept, p.LastOf written) ∧
        (reopened.lastHasErrors ↔ ∃ p ∈ kept, p.rank kept = 0 ∧ p.hasErrors)) ∧
      (Rising written → reopened.lastHasErrors = last.lastHasErrors) := by
  intro first written last reopened
  have first_eq : first = ⟨setup, .empty, false, [], []⟩ := start_empty setup clock
  have flag : last.lastHasErrors ↔ ∃ p, written.getLast? = some p ∧ p.hasErrors := by
    have unset : first.lastHasErrors = false := by rw [first_eq]
    rw [show last = first.run moves from rfl, lastHasErrors_run, unset]
    exact elim_false_iff
  have begins : KeepsLatest first.tree first.pruners [] [] := by
    rw [first_eq]
    exact KeepsLatest.empty
  refine ⟨flag, ?_, fun rising => ?_⟩
  · obtain ⟨kept, ended⟩ := begins.run moves
    have closed := ended.settle
    exact ⟨_, closed.keeps, closed.latest, closed.keeps.lastHasErrors_start setup clock'⟩
  · have crowned : Crowned first.tree first.pruners [] [] := ⟨begins, by simp⟩
    obtain ⟨kept, ended⟩ := crowned.run (by rw [first_eq]; exact room) moves rising
    have closed := ended.settle
    refine Bool.eq_iff_iff.2 ?_
    rw [closed.keeps.lastHasErrors_start setup clock', flag]
    exact closed.exists_first_iff rising

theorem lastHasErrors_reopened_pruned :
    let setup : Setup := ⟨.ofUri "a", .ofUri "b", { retention := 1 }⟩
    let fine : Patch := ⟨"u", .ofUri "a", .ofUri "b", .epoch,
      [.change .create { path := "f" } none .epoch], none⟩
    let failed : Patch := ⟨"v", .ofUri "a", .ofUri "b",
      ⟨1, 0, by decide, by decide, by decide, by decide⟩, [], some "interrupted"⟩
    let first := start setup (fun _ => .epoch) .empty
    let last := first.run [.submit fine, .submit failed, .load (fun _ => .epoch) 0 1, .prune 0]
    (start setup (fun _ => .epoch) last.settle.tree).lastHasErrors = true := by
  intro setup fine failed first last
  have room : 1 ≤ setup.config.retention.toNat := by decide
  obtain ⟨flag, -, survives⟩ := lastHasErrors_reopened room (fun _ => .epoch) (fun _ => .epoch)
    [.submit fine, .submit failed, .load (fun _ => .epoch) 0 1, .prune 0]
  have written : first.written
      [.submit fine, .submit failed, .load (fun _ => .epoch) 0 1, .prune 0] = [fine, failed] :=
    (written_append first ([fine, failed].map .submit) [.load (fun _ => .epoch) 0 1, .prune 0]).trans
      (by rw [written_submits (by decide) (by decide)]; rfl)
  rw [written] at flag survives
  exact (survives (by decide)).trans (flag.2 ⟨failed, rfl, rfl⟩)

/-- The error of an older patch comes back when the patch written after it has an earlier stamp. -/
theorem flag_returns_when_reopened :
    let setup : Setup := ⟨.ofUri "a", .ofUri "b", {}⟩
    let failed : Patch := ⟨"u", .ofUri "a", .ofUri "b",
      ⟨1714557600, 0, by decide, by decide, by decide, by decide⟩, [], some "interrupted"⟩
    let earlier : Instant := ⟨1714554000, 0, by decide, by decide, by decide, by decide⟩
    let fine : Patch := ⟨"v", .ofUri "a", .ofUri "b", earlier,
      [.change .create { path := "f" } none earlier], none⟩
    let last := (start setup (fun _ => .epoch) .empty).submitAll [failed, fine]
    last.lastHasErrors = false ∧
      (start setup (fun _ => .epoch) last.settle.tree).lastHasErrors = true := by
  intro setup failed earlier fine last
  have first_eq := start_empty setup fun _ => .epoch
  have pruners : last.pruners = [] := by
    rw [show last = submitAll _ _ from rfl, pruners_submitAll, first_eq]
  have keeps : last.tree.Keeps [fine, failed] := by
    have empty : (start setup (fun _ => .epoch) .empty).tree.Keeps [] := by
      rw [first_eq]
      exact Tree.keeps_empty
    have kept := keeps_submitAll empty [failed, fine]
    rw [written_submits (by decide) (by decide)] at kept
    exact kept
  constructor
  · rw [show last = submitAll _ _ from rfl, lastHasErrors_submitAll]
    decide
  · rw [settle, pruners]
    exact (keeps.lastHasErrors_start setup _).2 ⟨failed, by simp, by decide, rfl⟩

end Ledger

end PatchLedger
