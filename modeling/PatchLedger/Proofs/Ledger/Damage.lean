import PatchLedger.Proofs.Ledger.RoundTrip

/-!
Damage to a tree stays where it is. A load reads whatever the tree holds, one
patch for each uuid; a patch depends on nothing but the keys under its own uuid
(`Tree.AgreeAt.agrees`); and operations that are overwritten with what cannot be
read are missing from their patch and change nothing else
(`Tree.Spoilt.history_eq`).
-/

namespace PatchLedger

def Operation.readable (entries : List (UInt64 × Bytes)) : List Operation :=
  entries.filterMap fun entry => (decode entry.2).toOption

namespace Loaded

/-- Two readings of one patch. Where the stamp cannot be read, each has its own from the clock. -/
structure Agrees (a b : Loaded) : Prop where
  uuid : a.patch.uuid = b.patch.uuid
  error : a.patch.error = b.patch.error
  source : a.patch.source = b.patch.source
  target : a.patch.target = b.patch.target
  operations : a.patch.operations = b.patch.operations
  seen : a.seen = b.seen
  stamp : ¬ a.isClocked → a.patch.stamp = b.patch.stamp

def withOperations (loaded : Loaded) (operations : List Operation) : Loaded :=
  { loaded with patch := { loaded.patch with operations } }

end Loaded

namespace Sheet

theorem agrees_loaded (sheet : Sheet) (setup : Setup) (now now' : Instant) :
    (sheet.loaded setup now).Agrees (sheet.loaded setup now') where
  uuid := rfl
  error := rfl
  source := rfl
  target := rfl
  operations := rfl
  seen := rfl
  stamp read := by
    have read : sheet.stamp? ≠ none := by
      simpa [loaded, Loaded.isClocked, stamp?, Option.isNone_iff_eq_none] using read
    obtain ⟨stamp, found⟩ := Option.ne_none_iff_exists'.1 read
    simp [loaded, patch, found]

end Sheet

namespace Tree

theorem AgreeAt.agrees {uuid : String} {t u : Tree} (h : AgreeAt uuid t u) {setup : Setup}
    {clock clock' : Nat → Instant} {a b : Loaded} (here : a ∈ t.history setup clock)
    (there : b ∈ u.history setup clock') (one : a.patch.uuid = uuid) (other : b.patch.uuid = uuid) :
    a.Agrees b := by
  obtain ⟨named, now, form⟩ := loaded_of_mem_history here
  obtain ⟨-, now', form'⟩ := loaded_of_mem_history there
  rw [one] at named form
  rw [other, ← h.sheet_eq named.separable] at form'
  rw [form, form']
  exact Sheet.agrees_loaded _ setup now now'

/-- The second tree is the first, with the operations of the given numbers overwritten by what cannot
be read. -/
structure Spoilt (t u : Tree) (uuid : String) (seqs : List UInt64) : Prop where
  before : ∀ seq ∈ seqs, ∃ value, t.get? (Key.ofOperation uuid seq) = some value
  after : ∀ seq ∈ seqs, ∃ junk, u.get? (Key.ofOperation uuid seq) = some junk ∧
    ∀ op, Operation.decode junk ≠ .ok op
  elsewhere : ∀ key, (∀ seq ∈ seqs, key ≠ Key.ofOperation uuid seq) → u.get? key = t.get? key

namespace Spoilt

variable {t u : Tree} {uuid : String} {seqs : List UInt64} (h : Spoilt t u uuid seqs)

include h

theorem isSome_get? (key : Bytes) : (u.get? key).isSome = (t.get? key).isSome := by
  by_cases spoilt : ∃ seq ∈ seqs, key = Key.ofOperation uuid seq
  · obtain ⟨seq, member, rfl⟩ := spoilt
    obtain ⟨value, held⟩ := h.before seq member
    obtain ⟨junk, found, -⟩ := h.after seq member
    rw [held, found]
    rfl
  · rw [h.elsewhere key fun seq member same => spoilt ⟨seq, member, same⟩]

theorem names_iff (v : String) : u.Names v ↔ t.Names v := by
  have held (key : Bytes) : (∃ value, u.get? key = some value) ↔ ∃ value, t.get? key = some value := by
    rw [← Option.isSome_iff_exists, ← Option.isSome_iff_exists, h.isSome_get?]
  constructor
  · intro ⟨key, value, found, named⟩
    obtain ⟨value, found⟩ := (held key).1 ⟨value, found⟩
    exact ⟨key, value, found, named⟩
  · intro ⟨key, value, found, named⟩
    obtain ⟨value, found⟩ := (held key).2 ⟨value, found⟩
    exact ⟨key, value, found, named⟩

variable (separable : Key.Separable uuid)

include separable

theorem agreeAt {v : String} (other : Key.Separable v) (differ : v ≠ uuid) : AgreeAt v u t := by
  intro key first
  refine h.elsewhere key fun seq _ same => differ ?_
  exact Key.eq_of_start_prefix other separable first (same ▸ Key.start_prefix_ofEntry uuid _)

theorem value?_sheet {e : Entry} (kept : ∀ seq, e ≠ .operation seq) :
    (u.sheet uuid).value? e = (t.sheet uuid).value? e := by
  rw [Tree.value?_sheet u separable, Tree.value?_sheet t separable]
  exact h.elsewhere _ fun seq _ same => kept seq (Record.ofEntry_inj.1 same)

theorem filter_operations :
    ((u.sheet uuid).operations.filter fun entry => entry.1 ∉ seqs) =
      (t.sheet uuid).operations.filter fun entry => entry.1 ∉ seqs := by
  refine Ascending.ext_mem ((u.ascends_operations uuid).filter _)
    ((t.ascends_operations uuid).filter _) fun entry => ?_
  rw [List.mem_filter, List.mem_filter, mem_operations separable, mem_operations separable]
  refine and_congr_left fun kept => ?_
  rw [h.elsewhere _ fun seq member same => of_decide_eq_true kept ?_]
  have same : Entry.operation entry.1 = .operation seq := Record.ofEntry_inj.1 same
  exact Entry.operation.inj same ▸ member

theorem readable_operations : Operation.readable (u.sheet uuid).operations =
    Operation.readable ((t.sheet uuid).operations.filter fun entry => entry.1 ∉ seqs) := by
  rw [← h.filter_operations separable, Operation.readable, Operation.readable, List.filterMap_filter]
  refine List.filterMap_congr fun entry member => ?_
  split
  · rfl
  · next spoilt =>
    have spoilt : entry.1 ∈ seqs := by simpa using spoilt
    obtain ⟨junk, found, refused⟩ := h.after entry.1 spoilt
    rw [(mem_operations separable).1 member] at found
    rw [Option.some.inj found]
    cases read : Operation.decode junk with
    | ok op => exact absurd read (refused op)
    | error e => rfl

theorem sheet_loaded (setup : Setup) (now : Instant) :
    (u.sheet uuid).loaded setup now = ((t.sheet uuid).loaded setup now).withOperations
      (Operation.readable ((t.sheet uuid).operations.filter fun entry => entry.1 ∉ seqs)) := by
  have stamp : (u.sheet uuid).stamp = (t.sheet uuid).stamp :=
    h.value?_sheet separable (e := .stamp) (by simp)
  have error : (u.sheet uuid).error = (t.sheet uuid).error :=
    h.value?_sheet separable (e := .error) (by simp)
  have source : (u.sheet uuid).source = (t.sheet uuid).source :=
    h.value?_sheet separable (e := .source) (by simp)
  have operations := h.readable_operations separable
  rw [Operation.readable] at operations
  simp [Sheet.loaded, Sheet.patch, Sheet.stamp?, Loaded.withOperations, stamp, error, source, operations]

omit separable

theorem rows_eq (named : t.Names uuid) (setup : Setup) (clock : Nat → Instant) :
    u.rows setup clock = (t.rows setup clock).map fun loaded =>
      if loaded.patch.uuid = uuid then loaded.withOperations
        (Operation.readable ((t.sheet uuid).operations.filter fun entry => entry.1 ∉ seqs))
      else loaded := by
  have same : u.uuids = t.uuids := uuids_congr h.names_iff
  rw [rows_eq_mapIdx, rows_eq_mapIdx, same]
  apply List.ext_getElem
  · simp
  · intro i bound bound'
    have place : i < t.uuids.length := by simpa using bound
    have here : t.Names t.uuids[i] := mem_uuids.1 (List.getElem_mem place)
    have one : ((t.sheet t.uuids[i]).loaded setup (clock i)).patch.uuid = t.uuids[i] :=
      t.uuid_sheet _
    rw [List.getElem_map, List.getElem_mapIdx, List.getElem_mapIdx, one]
    split
    · next own => rw [own, h.sheet_loaded named.separable]
    · next other => rw [(h.agreeAt named.separable here.separable other).sheet_eq here.separable]

theorem history_eq (named : t.Names uuid) (setup : Setup) (clock : Nat → Instant) :
    u.history setup clock = (t.history setup clock).map fun loaded =>
      if loaded.patch.uuid = uuid then loaded.withOperations
        (Operation.readable ((t.sheet uuid).operations.filter fun entry => entry.1 ∉ seqs))
      else loaded := by
  rw [history, ← rows, h.rows_eq named setup clock, history, ← rows]
  refine (List.map_mergeSort fun a _ b _ => ?_).symm
  by_cases here : a.patch.uuid = uuid <;> by_cases there : b.patch.uuid = uuid <;>
    simp [here, there, Loaded.withOperations]

end Spoilt

end Tree

namespace Ledger

/-- Whatever the tree holds, a load has one patch for each uuid. A patch is settled by the keys under
its uuid. And where operations of a patch are overwritten with what cannot be read, it has the other
ones that can be read, in their order, and all else is loaded as before. -/
theorem damage_confined (l : Ledger) :
    (∀ clock, ((l.history clock).map fun loaded => loaded.patch.uuid).Perm l.tree.uuids ∧
      ∀ offset limit, (l.load clock offset limit).1 = ((l.history clock).drop offset).take limit) ∧
    (∀ uuid, Key.Separable uuid → ∀ t, Tree.AgreeAt uuid l.tree t → ∀ clock clock',
      let here := l.history clock
      let there := history { l with tree := t } clock'
      ((∃ a ∈ here, a.patch.uuid = uuid) ↔ ∃ b ∈ there, b.patch.uuid = uuid) ∧
        ∀ a ∈ here, ∀ b ∈ there, a.patch.uuid = uuid → b.patch.uuid = uuid → a.Agrees b) ∧
    ∀ uuid ∈ l.tree.uuids, ∃ entries : List (UInt64 × Bytes),
      Ascending.Ascends entries ∧
      (∀ seq value, (seq, value) ∈ entries ↔
        l.tree.get? (Key.ofOperation uuid seq) = some value) ∧
      (∀ clock, ∀ loaded ∈ l.history clock, loaded.patch.uuid = uuid →
        loaded.patch.operations = Operation.readable entries) ∧
      ∀ seqs t, Tree.Spoilt l.tree t uuid seqs → ∀ clock clock', clock = clock' ∨ l.tree.Dated →
        ∀ offset limit, (load { l with tree := t } clock' offset limit).1 =
          (l.load clock offset limit).1.map fun loaded =>
            if loaded.patch.uuid = uuid then loaded.withOperations
              (Operation.readable (entries.filter fun entry => entry.1 ∉ seqs))
            else loaded := by
  refine ⟨fun clock => ⟨l.tree.uuids_history l.setup clock, fun offset limit => rfl⟩,
    fun uuid separable t agree clock clock' => ⟨?_, fun a here b there => ?_⟩,
    fun uuid listed => ?_⟩
  · exact Tree.exists_mem_history_iff.trans
      (agree.names_iff.trans Tree.exists_mem_history_iff.symm)
  · exact agree.agrees here there
  · have named : l.tree.Names uuid := Tree.mem_uuids.1 listed
    refine ⟨(l.tree.sheet uuid).operations, l.tree.ascends_operations uuid,
      fun seq value => Tree.mem_operations named.separable, ?_, ?_⟩
    · rintro clock loaded member rfl
      obtain ⟨-, now, form⟩ := Tree.loaded_of_mem_history member
      exact congrArg (fun loaded => loaded.patch.operations) form
    · intro seqs t spoilt clock clock' either offset limit
      have still : l.tree.history l.setup clock' = l.tree.history l.setup clock := by
        rcases either with rfl | dated
        · rfl
        · exact dated.history_eq l.setup clock' clock
      have same := spoilt.history_eq named l.setup clock'
      rw [load, load, history, history, same, still, List.map_take, List.map_drop]

theorem damage_confined_one_operation :
    let kept : Operation := .change .create { path := "f" } none .epoch
    let spoilt : Operation := .change .create { path := "g" } none .epoch
    let p : Patch := ⟨"u", .ofUri "a", .ofUri "b", .epoch, [kept, spoilt], none⟩
    let l := submitAll ⟨⟨.ofUri "a", .ofUri "b", {}⟩, .empty, false, [], []⟩ [p]
    let foreign : Ledger := { l with tree := l.tree.insert (Bytes.ofText "x") [] }
    let damaged : Ledger := { l with tree := l.tree.insert (Key.ofOperation "u" 2) [] }
    let clock : Nat → Instant := fun _ => .epoch
    ∃ loaded ∈ (l.load clock 0 1).1, loaded.patch.uuid = "u" ∧
      loaded.patch.operations = [kept, spoilt] ∧
      (∀ other ∈ foreign.history clock, other.patch.uuid = "u" → loaded.Agrees other) ∧
      loaded.withOperations [kept] ∈ (damaged.load clock 0 1).1 := by
  intro kept spoilt p l foreign damaged clock
  have shallow : ∀ op ∈ [kept, spoilt], op.depth ≤ 125 := by simp [kept, spoilt, Operation.depth]
  have keeps : l.tree.Keeps [p] := @keeps_submits ⟨⟨.ofUri "a", .ofUri "b", {}⟩, .empty, false, [], []⟩
    rfl [p] (by decide) (by decide)
  have held : p ∈ [p] := List.mem_singleton_self p
  have separable : Key.Separable "u" := keeps.separable held
  have sheet : l.tree.sheet "u" = p.toRecord.sheet :=
    (keeps.holds p held).sheet_eq separable (by decide)
  obtain ⟨-, own, damage⟩ := damage_confined l
  obtain ⟨entries, ascends, found, shown, confined⟩ :=
    damage "u" (Tree.mem_uuids.2 (keeps.names_iff.2 (List.mem_singleton_self "u")))
  have form : entries = p.toRecord.sheet.operations := by
    rw [← sheet]
    exact Ascending.ext_mem ascends (l.tree.ascends_operations "u") fun entry =>
      (found entry.1 entry.2).trans (Tree.mem_operations separable).symm
  have spoils : Tree.Spoilt l.tree damaged.tree "u" [2] := by
    constructor
    · refine List.forall_mem_singleton.2 ⟨spoilt.encode, (found 2 _).1 ?_⟩
      exact form ▸ List.mem_cons_of_mem _ (List.mem_singleton_self _)
    · refine List.forall_mem_singleton.2 ⟨[], ?_, fun op read => ?_⟩
      · rw [Tree.get?_insert, if_pos rfl]
      · cases read
    · intro key other
      rw [Tree.get?_insert, if_neg (other 2 (List.mem_singleton_self 2))]
  have agree : Tree.AgreeAt "u" l.tree foreign.tree := by
    intro key first
    rw [Tree.get?_insert, if_neg]
    rintro rfl
    exact absurd first (by decide)
  obtain ⟨loaded, listed, uuid, -⟩ := keeps.exists_mem_history l.setup clock held
  have page : (l.load clock 0 1).1 = l.history clock := by
    refine List.take_of_length_le ?_
    exact Nat.le_of_eq (keeps.length_history l.setup clock)
  have after := confined [2] damaged.tree spoils clock clock (Or.inr keeps.dated) 0 1
  refine ⟨loaded, page ▸ listed, uuid, ?_, fun other there same => ?_, ?_⟩
  · rw [shown clock loaded listed uuid, form]
    exact Patch.operations_sheet shallow 1
  · exact (own "u" separable foreign.tree agree clock clock).2 loaded listed other there uuid same
  · refine after ▸ List.mem_map.2 ⟨loaded, page ▸ listed, ?_⟩
    have left : (p.toRecord.sheet.operations.filter fun entry => entry.1 ∉ [2]) =
        Record.sequence 1 [kept.encode] := rfl
    have shallow : ∀ op ∈ [kept], op.depth ≤ 125 :=
      List.forall_mem_singleton.2 (shallow kept List.mem_cons_self)
    rw [if_pos uuid, form, left]
    exact congrArg loaded.withOperations (Patch.operations_sheet shallow 1)

end Ledger

end PatchLedger
