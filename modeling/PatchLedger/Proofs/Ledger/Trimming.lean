import PatchLedger.Proofs.Ledger.Latest

/-!
What a load takes from a tree, whatever the tree holds. The patches have ranks by
the stamps that are stored, or by the clock where none can be read. Once its
pruner has finished, the load has removed all that is under the uuids ranked
beyond the retention, and nothing else (`Ledger.retention_exact`); and there is
nothing left for another load to remove.
-/

namespace PatchLedger

namespace Tree

/-- The stamp of a patch: the stored one or, if that cannot be read, the one that the clock gives when
it is asked for the patch. -/
def stampOf (t : Tree) (clock : Nat → Instant) (uuid : String) : Instant :=
  ((t.get? (Key.ofEntry uuid .stamp)).bind Instant.ofStored?).getD (clock (t.uuids.idxOf uuid))

def placeOf (t : Tree) (clock : Nat → Instant) (uuid : String) : Instant × Bytes :=
  (t.stampOf clock uuid, Bytes.ofText uuid)

/-- How many patches of the tree come before one: those of a later stamp, and of equal stamps those
of the smaller uuids. -/
def rank (t : Tree) (clock : Nat → Instant) (uuid : String) : Nat :=
  t.uuids.countP fun other => decide (Patch.Before (t.placeOf clock other) (t.placeOf clock uuid))

theorem places_rows (t : Tree) (setup : Setup) (clock : Nat → Instant) :
    (t.rows setup clock).map (fun loaded => loaded.patch.place) = t.uuids.map (t.placeOf clock) := by
  rw [rows_eq_mapIdx]
  apply List.ext_getElem
  · simp
  · intro i bound bound'
    have listed : i < t.uuids.length := by simpa using bound
    have named : t.Names t.uuids[i] := mem_uuids.1 (List.getElem_mem listed)
    have read := t.value?_sheet named.separable .stamp
    have asked : t.uuids.idxOf t.uuids[i] = i := t.nodup_uuids.idxOf_getElem i listed
    rw [List.getElem_map, List.getElem_mapIdx, List.getElem_map, placeOf, stampOf, asked, ← read]
    simp [Patch.place, Sheet.loaded, Sheet.patch, Sheet.stamp?, Sheet.value?]

theorem rank_history {t : Tree} {setup : Setup} {clock : Nat → Instant} {loaded : Loaded}
    (member : loaded ∈ t.history setup clock) :
    loaded.patch.rank ((t.history setup clock).map Loaded.patch) =
      t.rank clock loaded.patch.uuid := by
  have places : (((t.history setup clock).map Loaded.patch).map Patch.place).Perm
      (t.uuids.map (t.placeOf clock)) := by
    rw [List.map_map, ← t.places_rows setup clock]
    exact (t.history_perm setup clock).map _
  have own : loaded.patch.place = t.placeOf clock loaded.patch.uuid := by
    have listed : loaded.patch.place ∈ t.uuids.map (t.placeOf clock) :=
      places.mem_iff.1 (List.mem_map.2 ⟨loaded.patch, List.mem_map.2 ⟨loaded, member, rfl⟩, rfl⟩)
    obtain ⟨uuid, -, same⟩ := List.mem_map.1 listed
    have alike : uuid = loaded.patch.uuid := Bytes.ofText_injective (congrArg Prod.snd same)
    rw [← same, alike]
  rw [Patch.rank_eq_countP, places.countP_eq, own, List.countP_map]
  rfl

section Ranked

variable {t : Tree} {setup : Setup} {clock : Nat → Instant} {loaded : Loaded}
  (member : loaded ∈ t.history setup clock) {n : Nat}

include member

theorem mem_take_history_iff : loaded.patch ∈ ((t.history setup clock).map Loaded.patch).take n ↔
    t.rank clock loaded.patch.uuid < n := by
  rw [← rank_history member]
  exact Patch.mem_take_iff (t.pairwise_history setup clock) (List.mem_map.2 ⟨loaded, member, rfl⟩)

theorem mem_drop_history_iff : loaded.patch ∈ ((t.history setup clock).map Loaded.patch).drop n ↔
    n ≤ t.rank clock loaded.patch.uuid := by
  rw [← rank_history member]
  exact Patch.mem_drop_iff (t.pairwise_history setup clock) (List.mem_map.2 ⟨loaded, member, rfl⟩)

end Ranked

theorem rank_congr {t : Tree} {clock clock' : Nat → Instant}
    (same : ∀ uuid, t.Names uuid → t.stampOf clock uuid = t.stampOf clock' uuid) {uuid : String}
    (named : t.Names uuid) : t.rank clock uuid = t.rank clock' uuid := by
  refine List.countP_congr fun other listed => ?_
  rw [placeOf, placeOf, placeOf, placeOf, same uuid named, same other (mem_uuids.1 listed)]

theorem Lacks.foldl_pruneOne {t : Tree} {uuid : String} (h : t.Lacks uuid) (entries : Pruner) :
    (entries.foldl Ledger.pruneOne t).Lacks uuid := by
  induction entries generalizing t with
  | nil => exact h
  | cons entry rest ih =>
    refine ih fun key first => ?_
    by_cases current : t.get? (Key.ofEntry entry.1 .stamp) = entry.2
    · rw [show Ledger.pruneOne t entry = _ from Ledger.pruneOne_of_eq current, get?_eraseUnder,
        h key first, ite_self]
    · rw [show Ledger.pruneOne t entry = t from Ledger.pruneOne_of_ne current, h key first]

end Tree

namespace Ledger

theorem get?_foldl_pruneOne (t : Tree) {entries : Pruner} {key : Bytes}
    (other : ∀ entry ∈ entries, ¬ Key.start entry.1 <+: key) :
    (entries.foldl pruneOne t).get? key = t.get? key := by
  induction entries generalizing t with
  | nil => rfl
  | cons entry rest ih =>
    obtain ⟨here, later⟩ := List.forall_mem_cons.1 other
    exact (ih (pruneOne t entry) later).trans (agreeBut_pruneOne t entry key here)

/-- Pruning takes a patch as a whole, or leaves it. -/
theorem lacks_or_agreeAt (t : Tree) {entries : Pruner}
    (separable : ∀ entry ∈ entries, Key.Separable entry.1) {uuid : String}
    (own : Key.Separable uuid) : (entries.foldl pruneOne t).Lacks uuid ∨
      Tree.AgreeAt uuid (entries.foldl pruneOne t) t := by
  induction entries generalizing t with
  | nil => exact Or.inr fun key _ => rfl
  | cons entry rest ih =>
    obtain ⟨here, later⟩ := List.forall_mem_cons.1 separable
    have step : (pruneOne t entry).Lacks uuid ∨ Tree.AgreeAt uuid (pruneOne t entry) t := by
      by_cases same : entry.1 = uuid
      · by_cases current : t.get? (Key.ofEntry entry.1 .stamp) = entry.2
        · rw [show pruneOne t entry = _ from pruneOne_of_eq current, same]
          exact Or.inl (t.lacks_eraseUnder uuid)
        · rw [show pruneOne t entry = t from pruneOne_of_ne current]
          exact Or.inr fun key _ => rfl
      · refine Or.inr fun key first => agreeBut_pruneOne t entry key fun second => same ?_
        exact Key.eq_of_start_prefix here own second first
    rcases step with gone | whole
    · exact Or.inl (gone.foldl_pruneOne rest)
    · exact (ih (pruneOne t entry) later).imp_right fun agree key first =>
        (agree key first).trans (whole key first)

theorem lacks_foldl_pruneOne {t : Tree} {entries : Pruner}
    (separable : ∀ entry ∈ entries, Key.Separable entry.1) {entry : String × Option Bytes}
    (member : entry ∈ entries) (current : t.get? (Key.ofEntry entry.1 .stamp) = entry.2) :
    (entries.foldl pruneOne t).Lacks entry.1 := by
  obtain ⟨before, after, rfl⟩ := List.append_of_mem member
  rw [List.foldl_append, List.foldl_cons]
  refine Tree.Lacks.foldl_pruneOne ?_ after
  rcases lacks_or_agreeAt t (fun other first => separable other (List.mem_append_left _ first))
    (separable entry member) with gone | whole
  · exact gone.foldl_pruneOne [entry]
  · have still := (whole _ (Key.start_prefix_ofEntry entry.1 .stamp)).trans current
    rw [show pruneOne _ entry = _ from pruneOne_of_eq still]
    exact Tree.lacks_eraseUnder _ entry.1

def Surplus (l : Ledger) (clock : Nat → Instant) (uuid : String) : Prop :=
  l.tree.Names uuid ∧ l.setup.config.retention.toNat ≤ l.tree.rank clock uuid

/-- The pruners at work name nothing but patches beyond the retention. -/
def Expects (l : Ledger) (clock : Nat → Instant) : Prop :=
  ∀ entry ∈ l.pruners.flatten, l.Surplus clock entry.1

variable {l : Ledger} {clock : Nat → Instant} {uuid : String}

theorem mem_map_stale : uuid ∈ (stale l.setup (l.history clock)).map Prod.fst ↔
    l.Surplus clock uuid := by
  have names : (stale l.setup (l.history clock)).map Prod.fst =
      (((l.history clock).map Loaded.patch).drop l.setup.config.retention.toNat).map Patch.uuid := by
    rw [stale, ← List.map_drop, List.map_map, List.map_map]
    rfl
  rw [names, List.mem_map]
  constructor
  · rintro ⟨p, member, rfl⟩
    obtain ⟨loaded, found, rfl⟩ := List.mem_map.1 (List.mem_of_mem_drop member)
    exact ⟨(Tree.loaded_of_mem_history found).1, (Tree.mem_drop_history_iff found).1 member⟩
  · rintro ⟨named, high⟩
    obtain ⟨loaded, found, rfl⟩ : ∃ loaded ∈ l.history clock, loaded.patch.uuid = uuid :=
      Tree.exists_mem_history_iff.2 named
    exact ⟨loaded.patch, (Tree.mem_drop_history_iff found).2 high, rfl⟩

theorem current_stale {entry : String × Option Bytes}
    (member : entry ∈ stale l.setup (l.history clock)) :
    l.tree.get? (Key.ofEntry entry.1 .stamp) = entry.2 := by
  obtain ⟨loaded, dropped, rfl⟩ := List.mem_map.1 member
  obtain ⟨named, now, form⟩ := Tree.loaded_of_mem_history (List.mem_of_mem_drop dropped)
  rw [← l.tree.value?_sheet named.separable]
  exact (congrArg Loaded.seen form).symm

theorem settle_of_idle (idle : l.pruners = []) : l.settle = l := by
  obtain ⟨setup, tree, flag, pruners, failures⟩ := l
  cases idle
  rfl

theorem settle_load (l : Ledger) (clock : Nat → Instant) (offset limit : Nat) :
    (l.load clock offset limit).2.settle =
      { l with
        tree := (l.pruners.flatten ++ stale l.setup (l.history clock)).foldl pruneOne l.tree
        pruners := [] } := by
  rcases l.load_eq clock offset limit with ⟨same, none⟩ | added
  · rw [same, none, List.append_nil, settle]
  · rw [added, settle, List.flatten_concat]

namespace Expects

variable (h : l.Expects clock)

include h

theorem due {entry : String × Option Bytes}
    (member : entry ∈ l.pruners.flatten ++ stale l.setup (l.history clock)) :
    l.Surplus clock entry.1 := by
  rcases List.mem_append.1 member with earlier | new
  · exact h entry earlier
  · exact mem_map_stale.1 (List.mem_map.2 ⟨entry, new, rfl⟩)

theorem lacks (offset limit : Nat) (high : l.Surplus clock uuid) :
    (l.load clock offset limit).2.settle.tree.Lacks uuid := by
  obtain ⟨entry, member, rfl⟩ := List.mem_map.1 (mem_map_stale.2 high)
  rw [settle_load]
  exact lacks_foldl_pruneOne (fun other listed => (h.due listed).1.separable)
    (List.mem_append_right _ member) (current_stale member)

theorem get? (offset limit : Nat) {key : Bytes}
    (other : ∀ uuid, l.Surplus clock uuid → ¬ Key.start uuid <+: key) :
    (l.load clock offset limit).2.settle.tree.get? key = l.tree.get? key := by
  rw [settle_load]
  exact get?_foldl_pruneOne l.tree fun entry member => other entry.1 (h.due member)

theorem rank_lt_of_names (offset limit : Nat)
    (named : (l.load clock offset limit).2.settle.tree.Names uuid) :
    l.tree.Names uuid ∧ l.tree.rank clock uuid < l.setup.config.retention.toNat := by
  obtain ⟨key, value, held, owner⟩ := named
  have other (v : String) (high : l.Surplus clock v) : ¬ Key.start v <+: key := by
    intro first
    rw [h.lacks offset limit high key first] at held
    cases held
  rw [h.get? offset limit other] at held
  have named : l.tree.Names uuid := ⟨key, value, held, owner⟩
  refine ⟨named, Nat.lt_of_not_le fun high => ?_⟩
  exact other uuid ⟨named, high⟩ (Key.uuid?_eq_some_iff.1 owner).2

theorem length_history (offset limit : Nat) (clock' : Nat → Instant) :
    ((l.load clock offset limit).2.settle.history clock').length ≤
      l.setup.config.retention.toNat := by
  let after := (l.load clock offset limit).2.settle
  let first := ((l.history clock).map Loaded.patch).take l.setup.config.retention.toNat
  have kept : ((after.history clock').map fun loaded => loaded.patch.uuid) ⊆ first.map Patch.uuid := by
    intro uuid member
    have named := Tree.mem_uuids.1 ((after.tree.uuids_history after.setup clock').mem_iff.1 member)
    obtain ⟨named, low⟩ := h.rank_lt_of_names offset limit named
    obtain ⟨loaded, found, rfl⟩ : ∃ loaded ∈ l.history clock, loaded.patch.uuid = uuid :=
      Tree.exists_mem_history_iff.2 named
    exact List.mem_map.2 ⟨loaded.patch, (Tree.mem_take_history_iff found).2 low, rfl⟩
  have few := List.subperm_of_subset (after.tree.nodup_uuids_history after.setup clock') kept
  calc (after.history clock').length
      = ((after.history clock').map fun loaded => loaded.patch.uuid).length := by rw [List.length_map]
    _ ≤ (first.map Patch.uuid).length := few.length_le
    _ = first.length := by rw [List.length_map]
    _ ≤ l.setup.config.retention.toNat := List.length_take_le _ _

theorem tree_eq {l' : Ledger} (h' : l'.Expects clock) (tree : l'.tree = l.tree)
    (setup : l'.setup = l.setup) (offset limit : Nat) :
    (l'.load clock offset limit).2.settle.tree = (l.load clock offset limit).2.settle.tree := by
  have same (uuid : String) : l'.Surplus clock uuid ↔ l.Surplus clock uuid := by
    rw [Surplus, tree, setup, Surplus]
  refine Tree.ext_get? fun key => ?_
  by_cases under : ∃ uuid, l.Surplus clock uuid ∧ Key.start uuid <+: key
  · obtain ⟨uuid, high, first⟩ := under
    rw [h.lacks offset limit high key first, h'.lacks offset limit ((same uuid).2 high) key first]
  · have other (uuid : String) (high : l.Surplus clock uuid) : ¬ Key.start uuid <+: key :=
      fun first => under ⟨uuid, high, first⟩
    rw [h.get? offset limit other, h'.get? offset limit fun uuid high => other uuid ((same uuid).1 high),
      tree]

end Expects

theorem expects_of_idle (idle : l.pruners = []) : l.Expects clock := by
  simp [Expects, idle]

theorem expects_start {setup : Setup} {opening : Nat → Instant} {t : Tree}
    (same : ∀ uuid, t.Names uuid → t.stampOf opening uuid = t.stampOf clock uuid) :
    (start setup opening t).Expects clock := by
  let blank : Ledger := ⟨setup, t, false, [], []⟩
  have tree : (start setup opening t).tree = t := tree_start setup opening t
  have config : (start setup opening t).setup = setup := setup_start setup opening t
  have found : (blank.load opening 0 1).2.pruners.flatten ⊆ stale setup (t.history setup opening) := by
    rcases blank.load_eq opening 0 1 with ⟨idle, -⟩ | added
    · rw [idle]
      exact List.nil_subset _
    · rw [added, List.flatten_concat]
      exact List.Subset.refl _
  refine fun entry member => ?_
  obtain ⟨named, high⟩ : blank.Surplus opening entry.1 :=
    mem_map_stale.1 (List.mem_map.2 ⟨entry, found member, rfl⟩)
  rw [Tree.rank_congr same named] at high
  rw [Surplus, tree, config]
  exact ⟨named, high⟩

/-- Once a load and its pruner have finished, all keys of the patches ranked beyond the retention are
removed, and every other key has its value, those that belong to no patch included. The same is true
if the ledger was just opened and the pruner of that is still at work. A second load has nothing to
remove. -/
theorem retention_exact (h : l.Expects clock) (offset limit : Nat) :
    let after := (l.load clock offset limit).2.settle
    (∀ uuid, l.Surplus clock uuid → after.tree.Lacks uuid) ∧
      (∀ key, (∀ uuid, l.Surplus clock uuid → ¬ Key.start uuid <+: key) →
        after.tree.get? key = l.tree.get? key) ∧
      (∀ opening, (∀ uuid, l.tree.Names uuid →
          l.tree.stampOf opening uuid = l.tree.stampOf clock uuid) →
        ((start l.setup opening l.tree).load clock offset limit).2.settle.tree = after.tree) ∧
      ∀ clock' offset' limit', (after.load clock' offset' limit').2 = after ∧
        (after.load clock' offset' limit').2.settle = after := by
  intro after
  refine ⟨fun uuid high => h.lacks offset limit high, fun key other => h.get? offset limit other,
    fun opening same => ?_, fun clock' offset' limit' => ?_⟩
  · exact h.tree_eq (expects_start same) (tree_start l.setup opening l.tree)
      (setup_start l.setup opening l.tree) offset limit
  · have form : after = _ := settle_load l clock offset limit
    have setup : after.setup = l.setup := by rw [form]
    have room : (after.history clock').length ≤ after.setup.config.retention.toNat :=
      setup ▸ h.length_history offset limit clock'
    have same : (after.load clock' offset' limit').2 = after := by
      rw [load, stale_of_fits room]
      rfl
    rw [same]
    exact ⟨rfl, settle_of_idle (by rw [form])⟩

theorem retention_exact_unstamped :
    let later : Instant := ⟨1, 0, by decide, by decide, by decide, by decide⟩
    let clock : Nat → Instant := fun _ => later
    let t : Tree := ((Tree.empty.insert (Key.ofOperation "" 1) [1]).insert
      (Key.ofEntry "u" .stamp) Instant.epoch.stored).insert (Bytes.ofText "x") [2]
    let l : Ledger := ⟨⟨.ofUri "a", .ofUri "b", { retention := 1 }⟩, t, false, [], []⟩
    let after := (l.load clock 0 1).2.settle
    after.tree.Lacks "u" ∧ after.tree.get? (Key.ofOperation "" 1) = some [1] ∧
      after.tree.get? (Bytes.ofText "x") = some [2] ∧
      ((start l.setup clock t).load clock 0 1).2.settle.tree = after.tree ∧
      (after.load clock 0 1).2 = after := by
  intro later clock t l after
  have ranks : t.uuids.map (fun uuid => (uuid, t.rank clock uuid)) = [("", 0), ("u", 1)] := by
    decide +kernel
  have ranked (uuid : String) (rank : Nat) : t.Names uuid ∧ t.rank clock uuid = rank ↔
      (uuid, rank) ∈ [("", 0), ("u", 1)] := by
    rw [← ranks, List.mem_map, ← Tree.mem_uuids]
    simp
  have high : l.Surplus clock "u" := by
    obtain ⟨named, second⟩ := (ranked "u" 1).2 (by simp)
    exact ⟨named, Nat.le_of_eq second.symm⟩
  have only (uuid : String) (high : l.Surplus clock uuid) : uuid = "u" := by
    have listed := (ranked uuid _).1 ⟨high.1, rfl⟩
    rcases List.mem_pair.1 listed with first | second
    · have zero : t.rank clock uuid = 0 := congrArg Prod.snd first
      exact absurd (zero ▸ high.2) (by decide)
    · exact congrArg Prod.fst second
  obtain ⟨removed, left, opened, again⟩ := retention_exact (expects_of_idle rfl : l.Expects clock) 0 1
  refine ⟨removed "u" high, ?_, ?_, opened clock fun uuid named => rfl, (again clock 0 1).1⟩
  · refine (left _ fun uuid high first => ?_).trans (by decide)
    rw [only uuid high] at first
    exact absurd first (by decide)
  · refine (left _ fun uuid high first => ?_).trans (by decide)
    rw [only uuid high] at first
    exact absurd first (by decide)

end Ledger

end PatchLedger
