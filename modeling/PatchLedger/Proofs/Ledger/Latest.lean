import PatchLedger.Proofs.Ledger.RoundTrip

/-!
What a tree keeps, however writes, loads and pruners follow one another and
however often a uuid is written again: some of the written patches, each the last
one of its uuid (`Ledger.KeepsLatest`). Closing a ledger takes from these what its
pruners have still to remove, so that the same is true over any sessions.
-/

namespace PatchLedger

theorem Tree.Keeps.foldl_pruneOne {t : Tree} {patches : List Patch} (h : t.Keeps patches)
    {entries : List (String × Option Bytes)} (separable : ∀ entry ∈ entries, Key.Separable entry.1) :
    (entries.foldl Ledger.pruneOne t).Keeps
      (patches.filter fun p => (p.uuid, some p.stamp.stored) ∉ entries) := by
  induction entries generalizing t patches with
  | nil => simpa using h
  | cons entry rest ih =>
    obtain ⟨here, separable⟩ := List.forall_mem_cons.1 separable
    have next := ih (h.pruneOne here entry.2) separable
    rw [List.filter_filter] at next
    refine (List.filter_congr fun p _ => ?_) ▸ next
    simp [Prod.ext_iff, not_or, and_comm]

namespace Ledger

theorem start_eq (setup : Setup) (clock : Nat → Instant) (t : Tree) :
    start setup clock t =
      { (load ⟨setup, t, false, [], []⟩ clock 0 1).2 with
        lastHasErrors := ((t.history setup clock).take 1).any fun loaded => loaded.patch.hasErrors } :=
  rfl

theorem setup_start (setup : Setup) (clock : Nat → Instant) (t : Tree) :
    (start setup clock t).setup = setup :=
  setup_load ⟨setup, t, false, [], []⟩ clock 0 1

theorem tree_start (setup : Setup) (clock : Nat → Instant) (t : Tree) :
    (start setup clock t).tree = t := by
  rw [start_eq]
  exact tree_load ⟨setup, t, false, [], []⟩ clock 0 1

/-- The tree has some of the written patches, each the last of its uuid, and a pruner names only
what was written. -/
structure KeepsLatest (t : Tree) (pruners : List Pruner) (written kept : List Patch) : Prop where
  valid : ∀ p ∈ written, Key.validUuid p.uuid
  keeps : t.Keeps kept
  latest : ∀ p ∈ kept, p.LastOf written
  pending : ∀ pruner ∈ pruners, ∀ entry ∈ pruner, ∃ p ∈ written, entry = (p.uuid, some p.stamp.stored)

namespace KeepsLatest

variable {t t' : Tree} {pruners pruners' : List Pruner} {written kept : List Patch}

theorem empty : KeepsLatest .empty [] [] [] where
  valid := by simp
  keeps := Tree.keeps_empty
  latest := by simp
  pending := by simp

theorem write (h : KeepsLatest t pruners written kept) {p : Patch}
    (replaced : t.replace p.toRecord = .ok t') :
    KeepsLatest t' pruners (written ++ [p]) (p :: kept.filter fun q => q.uuid ≠ p.uuid) where
  valid q member := by
    rcases List.mem_append.1 member with old | new
    · exact h.valid q old
    · exact List.mem_singleton.1 new ▸ (Tree.replace_eq_ok_iff.1 replaced).1
  keeps := h.keeps.replace replaced
  latest q member := by
    rcases List.mem_cons.1 member with rfl | old
    · exact Patch.lastOf_concat_iff.2 (Or.inl rfl)
    · obtain ⟨held, differ⟩ := List.mem_filter.1 old
      exact Patch.lastOf_concat_iff.2
        (Or.inr ⟨h.latest q held, Ne.symm (of_decide_eq_true differ)⟩)
  pending pruner found entry member := by
    obtain ⟨q, old, form⟩ := h.pending pruner found entry member
    exact ⟨q, List.mem_append_left _ old, form⟩

theorem scan (h : KeepsLatest t pruners written kept) (setup : Setup) (clock : Nat → Instant) :
    KeepsLatest t (pruners ++ [stale setup (t.history setup clock)]) written kept where
  valid := h.valid
  keeps := h.keeps
  latest := h.latest
  pending pruner found entry member := by
    rcases List.mem_append.1 found with old | new
    · exact h.pending pruner old entry member
    · rw [List.mem_singleton.1 new, h.keeps.mem_stale] at member
      obtain ⟨p, held, form, -⟩ := member
      exact ⟨p, (h.latest p held).mem, form⟩

theorem separable (h : KeepsLatest t pruners written kept) {pruner : Pruner}
    (found : pruner ∈ pruners) {entry : String × Option Bytes} (member : entry ∈ pruner) :
    Key.Separable entry.1 := by
  obtain ⟨p, old, rfl⟩ := h.pending pruner found entry member
  exact Key.separable_of_validUuid (h.valid p old)

theorem prune (h : KeepsLatest t pruners written kept) {i : Nat} {entry : String × Option Bytes}
    {rest : Pruner} (next : pruners[i]? = some (entry :: rest)) :
    KeepsLatest (pruneOne t entry) (pruners.set i rest) written
      (kept.filter fun q => ¬ (q.uuid = entry.1 ∧ some q.stamp.stored = entry.2)) where
  valid := h.valid
  keeps := h.keeps.pruneOne (h.separable (List.mem_of_getElem? next) List.mem_cons_self) entry.2
  latest q member := h.latest q (List.mem_of_mem_filter member)
  pending pruner found other member := by
    rcases List.mem_or_eq_of_mem_set found with old | new
    · exact h.pending pruner old other member
    · exact h.pending _ (List.mem_of_getElem? next) other (List.mem_cons_of_mem _ (new ▸ member))

theorem step (h : KeepsLatest t pruners written kept) {setup : Setup} {wrote : Option Patch}
    (effect : Effect setup t pruners wrote t' pruners') :
    ∃ kept', KeepsLatest t' pruners' (written ++ wrote.toList) kept' := by
  cases effect with
  | write replaced => exact ⟨_, h.write replaced⟩
  | scan clock => exact ⟨kept, by simpa using h.scan setup clock⟩
  | prune next => exact ⟨_, by simpa using h.prune next⟩
  | idle => exact ⟨kept, by simpa using h⟩

theorem run {l : Ledger} (h : KeepsLatest l.tree l.pruners written kept) (moves : List Move) :
    ∃ kept', KeepsLatest (l.run moves).tree (l.run moves).pruners (written ++ l.written moves)
      kept' := by
  induction moves generalizing l written kept with
  | nil =>
    rw [Ledger.written, List.append_nil]
    exact ⟨kept, h⟩
  | cons m moves ih =>
    obtain ⟨next, h⟩ := h.step (l.effect_move m)
    rw [Ledger.written, ← List.append_assoc]
    exact ih h

theorem start (h : KeepsLatest t [] written kept) (setup : Setup) (clock : Nat → Instant) :
    KeepsLatest (Ledger.start setup clock t).tree (Ledger.start setup clock t).pruners written
      kept := by
  rw [start_eq]
  rcases load_eq ⟨setup, t, false, [], []⟩ clock 0 1 with ⟨same, -⟩ | added
  · rw [same]
    exact h
  · rw [added]
    exact h.scan setup clock

theorem settle {l : Ledger} (h : KeepsLatest l.tree l.pruners written kept) :
    KeepsLatest l.settle.tree l.settle.pruners written
      (kept.filter fun p => (p.uuid, some p.stamp.stored) ∉ l.pruners.flatten) where
  valid := h.valid
  keeps := by
    refine h.keeps.foldl_pruneOne fun entry member => ?_
    obtain ⟨pruner, found, member⟩ := List.mem_flatten.1 member
    exact h.separable found member
  latest p member := h.latest p (List.mem_of_mem_filter member)
  pending := by simp [Ledger.settle]

end KeepsLatest

structure Session where
  setup : Setup
  clock : Nat → Instant
  moves : List Move

namespace Session

def opened (session : Session) (t : Tree) : Ledger := Ledger.start session.setup session.clock t

def ledger (session : Session) (t : Tree) : Ledger := (session.opened t).run session.moves

/-- The tree that sessions leave, each of them on the tree of the one before. -/
def treeAfter (t : Tree) (sessions : List Session) : Tree :=
  sessions.foldl (fun t session => (session.ledger t).settle.tree) t

def writtenOver : Tree → List Session → List Patch
  | _, [] => []
  | t, session :: sessions =>
      (session.opened t).written session.moves ++
        writtenOver (session.ledger t).settle.tree sessions

theorem writtenOver_concat (t : Tree) (sessions : List Session) (last : Session) :
    writtenOver t (sessions ++ [last]) = writtenOver t sessions ++
      (last.opened (treeAfter t sessions)).written last.moves := by
  induction sessions generalizing t with
  | nil => simp [writtenOver, treeAfter]
  | cons session sessions ih =>
    rw [List.cons_append, writtenOver, writtenOver, ih, List.append_assoc]
    rfl

theorem setup_ledger (session : Session) (t : Tree) : (session.ledger t).setup = session.setup := by
  rw [ledger, setup_run, opened, setup_start]

end Session

namespace KeepsLatest

variable {t : Tree} {written kept : List Patch}

theorem ledger (h : KeepsLatest t [] written kept) (session : Session) : ∃ kept',
    KeepsLatest (session.ledger t).tree (session.ledger t).pruners
      (written ++ (session.opened t).written session.moves) kept' :=
  (h.start session.setup session.clock).run session.moves

theorem sessions (h : KeepsLatest t [] written kept) (sessions : List Session) : ∃ kept',
    KeepsLatest (Session.treeAfter t sessions) [] (written ++ Session.writtenOver t sessions)
      kept' := by
  induction sessions generalizing t written kept with
  | nil =>
    rw [Session.writtenOver, List.append_nil]
    exact ⟨kept, h⟩
  | cons session sessions ih =>
    obtain ⟨_, ended⟩ := h.ledger session
    rw [Session.writtenOver, ← List.append_assoc]
    exact ih ended.settle

end KeepsLatest

end Ledger

end PatchLedger
