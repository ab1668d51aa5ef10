import PatchLedger.Proofs.Ledger.Trimming

/-!
Pages of a history. Where all stamps can be read a tree has one history, whatever
the clock says, and each load returns a slice of it (`Ledger.load_slices`). Pruning
takes patches out of the history and leaves the rest as it is
(`Tree.Dated.history_pruned`); what a pruner is given lies beyond the retention, so
no page before that shows how far it has come.
-/

namespace PatchLedger

theorem take_filter_of_kept {α : Type} {keep : α → Bool} {l : List α} {n : Nat}
    (kept : ∀ a ∈ l.take n, keep a) : (l.filter keep).take n = l.take n := by
  induction l generalizing n with
  | nil => rfl
  | cons a l ih =>
    cases n with
    | zero => rfl
    | succ n =>
      obtain ⟨first, kept⟩ := List.forall_mem_cons.1 kept
      rw [List.filter_cons_of_pos first, List.take_succ_cons, List.take_succ_cons, ih kept]

theorem slice_congr {α : Type} {l m : List α} {n offset limit : Nat} (same : l.take n = m.take n)
    (within : offset + limit ≤ n) : (l.drop offset).take limit = (m.drop offset).take limit := by
  have front (list : List α) : list.take (offset + limit) = (list.take n).take (offset + limit) := by
    rw [List.take_take, Nat.min_eq_left within]
  rw [List.take_drop, List.take_drop, front l, front m, same]

namespace Ledger

variable {t : Tree} {entries : Pruner} (separable : ∀ entry ∈ entries, Key.Separable entry.1)

include separable

theorem agreeAt_foldl_pruneOne {uuid : String} (own : Key.Separable uuid)
    (kept : uuid ∉ entries.map Prod.fst) : Tree.AgreeAt uuid (entries.foldl pruneOne t) t := by
  refine fun key first => get?_foldl_pruneOne t fun entry member second => kept ?_
  exact List.mem_map.2 ⟨entry, member, Key.eq_of_start_prefix (separable entry member) own second first⟩

theorem names_foldl_pruneOne (current : ∀ entry ∈ entries,
      t.get? (Key.ofEntry entry.1 .stamp) = entry.2) {uuid : String} :
    (entries.foldl pruneOne t).Names uuid ↔ t.Names uuid ∧ uuid ∉ entries.map Prod.fst := by
  constructor
  · intro named
    have kept : uuid ∉ entries.map Prod.fst := by
      intro listed
      obtain ⟨entry, member, rfl⟩ := List.mem_map.1 listed
      obtain ⟨key, value, held, owner⟩ := named
      rw [lacks_foldl_pruneOne separable member (current entry member) key
        (Key.uuid?_eq_some_iff.1 owner).2] at held
      cases held
    exact ⟨(agreeAt_foldl_pruneOne separable named.separable kept).names named, kept⟩
  · intro ⟨named, kept⟩
    exact (agreeAt_foldl_pruneOne separable named.separable kept).symm.names named

end Ledger

namespace Tree.Dated

variable {t : Tree} (h : t.Dated)

include h

theorem loaded_eq {sheet : Sheet} (found : sheet ∈ t.sheets) (setup : Setup) (now now' : Instant) :
    sheet.loaded setup now = sheet.loaded setup now' := by
  obtain ⟨stamp, read⟩ := h.exists_stamp? found
  simp [Sheet.loaded, Sheet.patch, read]

theorem history_perm (setup : Setup) (clock : Nat → Instant) (now : Instant) :
    (t.history setup clock).Perm (t.sheets.map fun sheet => sheet.loaded setup now) := by
  have rows : t.rows setup clock = t.sheets.map fun sheet => sheet.loaded setup now := by
    apply List.ext_getElem
    · simp [Tree.rows]
    · intro i bound bound'
      have place : i < t.sheets.length := by simpa using bound'
      rw [List.getElem_map]
      exact (List.getElem_mapIdx ..).trans (h.loaded_eq (List.getElem_mem place) setup _ now)
  exact rows ▸ t.history_perm setup clock

theorem mem_history {setup : Setup} {clock : Nat → Instant} {loaded : Loaded} (now : Instant) :
    loaded ∈ t.history setup clock ↔ t.Names loaded.patch.uuid ∧
      loaded = (t.sheet loaded.patch.uuid).loaded setup now := by
  rw [(h.history_perm setup clock now).mem_iff, List.mem_map]
  constructor
  · rintro ⟨sheet, found, rfl⟩
    obtain ⟨named, form⟩ := mem_sheets.1 found
    exact ⟨named, congrArg (fun sheet => sheet.loaded setup now) form⟩
  · intro ⟨named, form⟩
    exact ⟨t.sheet loaded.patch.uuid, mem_sheets.2 (by simp [named]), form.symm⟩

section Pruned

variable {entries : Pruner} (separable : ∀ entry ∈ entries, Key.Separable entry.1)
  (current : ∀ entry ∈ entries, t.get? (Key.ofEntry entry.1 .stamp) = entry.2)

include separable current

theorem pruned : (entries.foldl Ledger.pruneOne t).Dated := by
  intro uuid named
  obtain ⟨named, kept⟩ := (Ledger.names_foldl_pruneOne separable current).1 named
  have agree := Ledger.agreeAt_foldl_pruneOne (t := t) separable named.separable kept
  rw [agree _ (Key.start_prefix_ofEntry uuid .stamp)]
  exact h uuid named

theorem history_pruned (setup : Setup) (clock clock' : Nat → Instant) :
    (entries.foldl Ledger.pruneOne t).history setup clock' = (t.history setup clock).filter
      fun loaded => loaded.patch.uuid ∉ entries.map Prod.fst := by
  have before := List.pairwise_map.1 (t.pairwise_history setup clock)
  have after := List.pairwise_map.1 ((entries.foldl Ledger.pruneOne t).pairwise_history setup clock')
  have distinct {history : List Loaded}
      (ordered : history.Pairwise fun a b => a.patch.Precedes b.patch) : history.Nodup := by
    refine ordered.imp ?_
    intro a b first same
    exact Patch.Precedes.irrefl b.patch (same ▸ first)
  have kept := before.filter fun loaded => loaded.patch.uuid ∉ entries.map Prod.fst
  refine List.Perm.eq_of_pairwise (fun a b _ _ first second => absurd second first.asymm) after kept
    ((List.perm_ext_iff_of_nodup (distinct after) (distinct kept)).2 fun loaded => ?_)
  rw [List.mem_filter, (h.pruned separable current).mem_history .epoch, h.mem_history .epoch,
    Ledger.names_foldl_pruneOne separable current, decide_eq_true_iff, and_right_comm]
  refine and_congr_left fun kept => and_congr_right fun named => ?_
  rw [(Ledger.agreeAt_foldl_pruneOne separable named.separable kept).sheet_eq named.separable]

end Pruned

end Tree.Dated

namespace Ledger

theorem rank_lt_of_mem_take {l : Ledger} {clock : Nat → Instant} {loaded : Loaded} {n : Nat}
    (front : loaded ∈ (l.history clock).take n) : l.tree.rank clock loaded.patch.uuid < n := by
  refine (Tree.mem_take_history_iff (List.mem_of_mem_take front)).1 ?_
  rw [← List.map_take]
  exact List.mem_map.2 ⟨loaded, front, rfl⟩

theorem take_history_pruned {l : Ledger} (dated : l.tree.Dated) {clock : Nat → Instant}
    {done : Pruner} (listed : done ⊆ stale l.setup (l.history clock)) (clock' : Nat → Instant) :
    ((done.foldl pruneOne l.tree).history l.setup clock').take l.setup.config.retention.toNat =
      (l.history clock).take l.setup.config.retention.toNat := by
  have current (entry : String × Option Bytes) (member : entry ∈ done) :
      l.tree.get? (Key.ofEntry entry.1 .stamp) = entry.2 := current_stale (listed member)
  have surplus (entry : String × Option Bytes) (member : entry ∈ done) : l.Surplus clock entry.1 :=
    mem_map_stale.1 (List.mem_map.2 ⟨entry, listed member, rfl⟩)
  have separable := fun entry member => (surplus entry member).1.separable
  rw [dated.history_pruned separable current l.setup clock clock']
  refine take_filter_of_kept fun loaded front => decide_eq_true fun named => ?_
  obtain ⟨entry, member, same⟩ := List.mem_map.1 named
  exact absurd (same ▸ (surplus entry member).2) (Nat.not_le.2 (rank_lt_of_mem_take front))

/-- Where all stamps can be read, loads return slices of one list, which has each patch of the tree
once and in order. Pages side by side make up the page of both. Whatever part of a load's stale
patches has been pruned, a page within the retention is as it was. -/
theorem load_slices {l : Ledger} (dated : l.tree.Dated) :
    ∃ history : List Loaded,
      (∀ now, history.Perm (l.tree.sheets.map fun sheet => sheet.loaded l.setup now)) ∧
      (history.map fun loaded => loaded.patch.uuid).Nodup ∧
      (history.map Loaded.patch).Pairwise Patch.Precedes ∧
      (∀ clock offset limit,
        (l.load clock offset limit).1 = (history.take (offset + limit)).drop offset) ∧
      (∀ clock clock' clock'' offset m n,
        (l.load clock offset m).1 ++ ((l.load clock offset m).2.load clock' (offset + m) n).1 =
          (l.load clock'' offset (m + n)).1) ∧
      ∀ clock, ∀ done ⊆ stale l.setup (l.history clock), ∀ after : Ledger,
        after.setup = l.setup → after.tree = done.foldl pruneOne l.tree →
          ∀ clock' clock'' offset limit, offset + limit ≤ l.setup.config.retention.toNat →
            (after.load clock' offset limit).1 = (l.load clock'' offset limit).1 := by
  let history := l.history fun _ => .epoch
  have one (clock : Nat → Instant) : l.history clock = history := dated.history_eq l.setup clock _
  have page (clock : Nat → Instant) (offset limit : Nat) :
      (l.load clock offset limit).1 = (history.drop offset).take limit := by
    rw [load, one clock]
  refine ⟨history, dated.history_perm l.setup _, l.tree.nodup_uuids_history l.setup _,
    l.tree.pairwise_history l.setup _, fun clock offset limit => ?_,
    fun clock clock' clock'' offset m n => ?_,
    fun clock done listed after setup tree clock' clock'' offset limit within => ?_⟩
  · rw [page, List.take_drop]
  · have next : ((l.load clock offset m).2.load clock' (offset + m) n).1 =
        (l.load clock' (offset + m) n).1 :=
      congrArg (fun history => (history.drop (offset + m)).take n)
        (l.history_load clock offset m clock')
    rw [next, page, page, page, ← List.drop_drop, List.take_add]
  · have front : (after.history clock').take l.setup.config.retention.toNat =
        history.take l.setup.config.retention.toNat := by
      rw [Ledger.history, setup, tree, take_history_pruned dated listed, one]
    rw [page, load]
    exact slice_congr front within

theorem load_slices_half_pruned :
    let later : Instant := ⟨1, 0, by decide, by decide, by decide, by decide⟩
    let named (uuid : String) (stamp : Instant) : Patch :=
      ⟨uuid, .ofUri "a", .ofUri "b", stamp, [], some "e"⟩
    let empty : Ledger := ⟨⟨.ofUri "a", .ofUri "b", { retention := 1 }⟩, .empty, false, [], []⟩
    let l := empty.submitAll [named "u" .epoch, named "v" later, named "w" .epoch]
    let clock : Nat → Instant := fun _ => .epoch
    let last : String × Option Bytes := ("w", some Instant.epoch.stored)
    (l.load clock 0 1).1 ++ ((l.load clock 0 1).2.load clock 1 2).1 = (l.load clock 0 3).1 ∧
      last ∈ stale l.setup (l.history clock) ∧
      (load { l with tree := pruneOne l.tree last } clock 0 1).1 = (l.load clock 0 1).1 := by
  intro later named empty l clock last
  let patches := [named "u" .epoch, named "v" later, named "w" .epoch]
  have keeps : l.tree.Keeps (Patch.latest [] patches) :=
    keeps_submits (l := empty) rfl (by decide) (by decide)
  have setup : l.setup = empty.setup := by
    rw [show l = empty.run (patches.map .submit) from submitAll_eq_run empty patches, setup_run]
  have one : l.setup.config.retention.toNat = 1 := by rw [setup]; rfl
  clear_value l
  obtain ⟨history, -, -, -, -, joined, pruned⟩ := load_slices keeps.dated
  have beyond : last ∈ stale l.setup (l.history clock) :=
    (keeps.mem_stale l.setup clock).2 ⟨named "w" .epoch, by decide, rfl, by rw [one]; decide⟩
  have listed : [last] ⊆ stale l.setup (l.history clock) :=
    List.cons_subset.2 ⟨beyond, List.nil_subset _⟩
  exact ⟨joined clock clock clock 0 1 2, beyond,
    pruned clock [last] listed { l with tree := pruneOne l.tree last } rfl rfl clock clock 0 1
      (Nat.le_of_eq one.symm)⟩

end Ledger

end PatchLedger
