import PatchLedger.Proofs.Ledger.Latest

/-!
The direction of a patch does not depend on the order in which a ledger is given
its endpoints. The record has the source only, and either order takes the other
endpoint for the target (`Setup.Invertible.directs_patch`). So both orders read the
same history from a tree and leave the same patches to a pruner, and over any
sessions a patch keeps the direction in which it was written.
-/

namespace PatchLedger

namespace Patch

/-- The patch with nothing known of its endpoints but their identities. -/
def bare (p : Patch) : Patch :=
  { p with source := .ofUri p.source.uri, target := .ofUri p.target.uri }

theorem Matches.of_bare {p q : Patch} (h : p.bare = q.bare) : p.Matches q where
  uuid := (congrArg Patch.uuid h :)
  stamp := (congrArg Patch.stamp h :)
  error := (congrArg Patch.error h :)
  source := congrArg (fun r => r.source.uri) h
  target := congrArg (fun r => r.target.uri) h
  operations := (congrArg Patch.operations h :)

end Patch

namespace Loaded

def bare (loaded : Loaded) : Loaded := { loaded with patch := loaded.patch.bare }

theorem forall₂_matches {page page' : List Loaded} (h : page.map bare = page'.map bare) :
    List.Forall₂ (fun a b => a.patch.Matches b.patch) page page' := by
  have same : List.Forall₂ (fun a b => bare a = bare b) page page' := by
    rwa [← List.forall₂_map_right_iff (f := bare), ← List.forall₂_map_left_iff (f := bare),
      List.forall₂_eq_eq_eq]
  exact same.imp fun a b same => Patch.Matches.of_bare (congrArg Loaded.patch same)

end Loaded

namespace Setup

def swapped (s : Setup) : Setup := { s with source := s.target, target := s.source }

theorem Directs.swapped {s : Setup} {p : Patch} (h : s.Directs p) : s.swapped.Directs p := Or.symm h

namespace Invertible

variable {s : Setup} (h : s.Invertible)

include h

theorem swapped : s.swapped.Invertible where
  source := h.target
  target := h.source

theorem directs_patch {sheet : Sheet} (known : s.Recognises sheet.source) (now : Instant) :
    sheet.source = some (Bytes.ofText (sheet.patch s now).source.uri) ∧
      s.Directs (sheet.patch s now) :=
  h.direction_of_recognised known

theorem bare_loaded {sheet : Sheet} (known : s.Recognises sheet.source) {stamp : Instant}
    (read : sheet.stamp? = some stamp) (now now' : Instant) :
    (sheet.loaded s.swapped now').bare = (sheet.loaded s now).bare := by
  obtain ⟨recorded, directs⟩ := h.directs_patch known now
  obtain ⟨source, target⟩ := h.swapped.direction directs.swapped
  rw [← recorded] at source target
  have source : (sheet.patch s.swapped now').source.uri = (sheet.patch s now).source.uri := source
  have target : (sheet.patch s.swapped now').target.uri = (sheet.patch s now).target.uri := target
  rw [Loaded.bare, Loaded.bare, Sheet.loaded, Sheet.loaded, Patch.bare, Patch.bare, source, target]
  simp [Sheet.patch, read]

end Invertible

end Setup

namespace Tree

/-- Every patch of the tree has one of the endpoints for its source, and a readable stamp. -/
structure Legible (t : Tree) (s : Setup) : Prop where
  source : ∀ uuid, t.Names uuid → s.Recognises (t.get? (Key.ofEntry uuid .source))
  stamp : ∀ uuid, t.Names uuid →
    ((t.get? (Key.ofEntry uuid .stamp)).bind Instant.ofStored?).isSome

namespace Legible

variable {t : Tree} {s : Setup} (h : t.Legible s) (invertible : s.Invertible)

include h invertible

theorem bare_rows (clock clock' : Nat → Instant) :
    (t.rows s.swapped clock').map Loaded.bare = (t.rows s clock).map Loaded.bare := by
  apply List.ext_getElem
  · simp [rows]
  · intro i bound bound'
    have place : i < t.sheets.length := by simpa [rows] using bound
    obtain ⟨named, form⟩ := mem_sheets.1 (List.getElem_mem place)
    have known := h.source _ named
    rw [← t.value?_sheet named.separable, ← form] at known
    have dated : t.Dated := h.stamp
    obtain ⟨stamp, read⟩ := dated.exists_stamp? (List.getElem_mem place)
    simpa [rows] using invertible.bare_loaded known read (clock i) (clock' i)

theorem bare_history (clock clock' : Nat → Instant) :
    (t.history s.swapped clock').map Loaded.bare = (t.history s clock).map Loaded.bare := by
  have sorted (setup : Setup) (clock : Nat → Instant) : (t.history setup clock).map Loaded.bare =
      ((t.rows setup clock).map Loaded.bare).mergeSort
        fun a b => decide (b.patch.stamp ≤ a.patch.stamp) :=
    List.map_mergeSort fun _ _ _ _ => rfl
  rw [sorted, sorted, h.bare_rows invertible clock clock']

theorem directs_of_mem_history {clock : Nat → Instant} {loaded : Loaded}
    (member : loaded ∈ t.history s clock) :
    t.get? (Key.ofEntry loaded.patch.uuid .source) =
        some (Bytes.ofText loaded.patch.source.uri) ∧ s.Directs loaded.patch := by
  obtain ⟨named, now, form⟩ := loaded_of_mem_history member
  have known := h.source _ named
  rw [← t.value?_sheet named.separable] at known ⊢
  have directs := invertible.directs_patch known now
  rwa [show (t.sheet loaded.patch.uuid).patch s now = loaded.patch from
    (congrArg Loaded.patch form).symm] at directs

end Legible

namespace Keeps

variable {t : Tree} {patches : List Patch} (h : t.Keeps patches) {s : Setup}
  (directed : ∀ p ∈ patches, s.Directs p)

include h directed

theorem legible : t.Legible s where
  source uuid named := by
    obtain ⟨p, held, rfl⟩ := List.mem_map.1 (h.names_iff.1 named)
    rw [← t.value?_sheet named.separable, show (t.sheet p.uuid).value? .source = _ from
      h.source_sheet held]
    exact (directed p held).recognises
  stamp := h.dated

theorem direction_of_mem_history (invertible : s.Invertible) {clock : Nat → Instant}
    {loaded : Loaded} (member : loaded ∈ t.history s clock) :
    ∃ p ∈ patches, loaded.patch.uuid = p.uuid ∧ loaded.patch.stamp = p.stamp ∧
      loaded.patch.source.uri = p.source.uri ∧ loaded.patch.target.uri = p.target.uri := by
  obtain ⟨p, held, uuid, stamp, -⟩ := h.of_mem_history member
  obtain ⟨-, now, form⟩ := loaded_of_mem_history member
  have way := invertible.direction (directed p held)
  rw [← h.source_sheet held, ← uuid] at way
  refine ⟨p, held, uuid, stamp, ?_⟩
  rw [form]
  exact way

end Keeps

end Tree

namespace Ledger

def swapped (l : Ledger) : Ledger := { l with setup := l.setup.swapped }

theorem stale_eq_of_bare {setup setup' : Setup} {history history' : List Loaded}
    (config : setup'.config = setup.config)
    (same : history'.map Loaded.bare = history.map Loaded.bare) :
    stale setup' history' = stale setup history := by
  have form (setup : Setup) (history : List Loaded) : stale setup history =
      ((history.map Loaded.bare).drop setup.config.retention.toNat).map fun loaded =>
        (loaded.patch.uuid, loaded.seen) := by
    rw [stale, ← List.map_drop, List.map_map]
    rfl
  rw [form, form, same, config]

theorem load_swapped {l : Ledger} (legible : l.tree.Legible l.setup)
    (invertible : l.setup.Invertible) (clock clock' : Nat → Instant) (offset limit : Nat) :
    (l.swapped.load clock' offset limit).1.map Loaded.bare =
        (l.load clock offset limit).1.map Loaded.bare ∧
      (l.swapped.load clock' offset limit).2 = (l.load clock offset limit).2.swapped := by
  have same : (l.swapped.history clock').map Loaded.bare = (l.history clock).map Loaded.bare :=
    legible.bare_history invertible clock clock'
  have stale : stale l.swapped.setup (l.swapped.history clock') = stale l.setup (l.history clock) :=
    stale_eq_of_bare rfl same
  rw [load, load, stale]
  constructor
  · simp only [List.map_take, List.map_drop, same]
  · dsimp only
    split <;> rfl

theorem start_swapped {t : Tree} {s : Setup} (legible : t.Legible s) (invertible : s.Invertible)
    (clock clock' : Nat → Instant) : start s.swapped clock' t = (start s clock t).swapped := by
  have form (setup : Setup) (clock : Nat → Instant) : start setup clock t =
      { (load ⟨setup, t, false, [], []⟩ clock 0 1).2 with
        lastHasErrors := ((load ⟨setup, t, false, [], []⟩ clock 0 1).1.map Loaded.bare).any
          fun loaded => loaded.patch.hasErrors } := by
    rw [List.any_map]
    rfl
  obtain ⟨page, after⟩ := @load_swapped ⟨s, t, false, [], []⟩ legible invertible clock clock' 0 1
  rw [swapped] at page after
  rw [form, form, page, after]
  rfl

theorem checkRoles_of_invertible {s : Setup} (h : s.Invertible) : checkRoles s = .ok () := by
  simp [checkRoles, Endpoint.asSource?, Endpoint.asTarget?, h.source.1, h.target.2]

/-- Opened with its endpoints in either order, a tree gives the same history, each patch from the
recorded source to the other endpoint, and the same work to pruners. Over any sessions a patch is
loaded in the direction in which it was written last. -/
theorem directions_in_either_order {s : Setup} (invertible : s.Invertible) :
    (checkRoles s = .ok () ∧ checkRoles s.swapped = .ok ()) ∧
    (∀ t : Tree, t.Legible s → ∀ (opening opening' clock clock' : Nat → Instant)
        (offset limit : Nat),
      let l := start s opening t
      let l' := start s.swapped opening' t
      List.Forall₂ (fun loaded loaded' => loaded.patch.Matches loaded'.patch)
          (l.load clock offset limit).1 (l'.load clock' offset limit).1 ∧
        (∀ loaded ∈ (l.load clock offset limit).1,
          t.get? (Key.ofEntry loaded.patch.uuid .source) =
              some (Bytes.ofText loaded.patch.source.uri) ∧ s.Directs loaded.patch) ∧
        l'.pruners = l.pruners ∧
        (l'.load clock' offset limit).2.pruners = (l.load clock offset limit).2.pruners) ∧
    ∀ (sessions : List Session) (last : Session), last.setup = s ∨ last.setup = s.swapped →
      (∀ p ∈ Session.writtenOver .empty (sessions ++ [last]), s.Directs p) →
      ∀ (clock : Nat → Instant) (offset limit : Nat),
        ∀ loaded ∈ ((last.ledger (Session.treeAfter .empty sessions)).load clock offset limit).1,
          ∃ p : Patch, p.LastOf (Session.writtenOver .empty (sessions ++ [last])) ∧
            loaded.patch.uuid = p.uuid ∧ loaded.patch.stamp = p.stamp ∧
              loaded.patch.source.uri = p.source.uri ∧ loaded.patch.target.uri = p.target.uri := by
  refine ⟨⟨checkRoles_of_invertible invertible, checkRoles_of_invertible invertible.swapped⟩,
    ?_, ?_⟩
  · intro t legible opening opening' clock clock' offset limit l l'
    have setup : l.setup = s := setup_start s opening t
    have tree : l.tree = t := tree_start s opening t
    have opened : l' = l.swapped := start_swapped legible invertible opening opening'
    rw [← setup, ← tree] at legible
    rw [← setup] at invertible
    obtain ⟨page, after⟩ := load_swapped legible invertible clock clock' offset limit
    rw [opened, after, ← setup, ← tree]
    refine ⟨Loaded.forall₂_matches page.symm, fun loaded member => ?_, rfl, rfl⟩
    exact legible.directs_of_mem_history invertible (mem_history_of_mem_load member)
  · intro sessions last order directed clock offset limit loaded member
    obtain ⟨_, before⟩ := KeepsLatest.empty.sessions sessions
    obtain ⟨kept, ended⟩ := before.ledger last
    rw [List.nil_append, ← Session.writtenOver_concat] at ended
    have either : last.setup.Invertible ∧ ∀ p ∈ kept, last.setup.Directs p := by
      have held (p : Patch) (member : p ∈ kept) : s.Directs p :=
        directed p (ended.latest p member).mem
      rcases order with same | same
      · exact same ▸ ⟨invertible, held⟩
      · exact same ▸ ⟨invertible.swapped, fun p member => (held p member).swapped⟩
    rw [← last.setup_ledger (Session.treeAfter .empty sessions)] at either
    obtain ⟨p, held, same⟩ := ended.keeps.direction_of_mem_history either.2 either.1
      (mem_history_of_mem_load member)
    exact ⟨p, ended.latest p held, same⟩

theorem directions_in_either_order_two_sessions :
    let s : Setup := { source := .ofUri "a", target := .ofUri "b" }
    let forth : Patch := ⟨"u", .ofUri "a", .ofUri "b", .epoch,
      [.change .create { path := "f" } none .epoch], none⟩
    let back : Patch := ⟨"v", .ofUri "b", .ofUri "a", .epoch, [], some "interrupted"⟩
    let clock : Nat → Instant := fun _ => .epoch
    let first : Session := ⟨s, clock, [.submit forth]⟩
    let second : Session := ⟨s.swapped, clock, [.submit back]⟩
    let t := Session.treeAfter .empty [first]
    (∃ loaded ∈ ((second.ledger t).load clock 0 2).1,
      loaded.patch.uuid = "u" ∧ loaded.patch.source.uri = "a" ∧ loaded.patch.target.uri = "b") ∧
      List.Forall₂ (fun loaded loaded' => loaded.patch.Matches loaded'.patch)
        ((start s clock t).load clock 0 1).1 ((start s.swapped clock t).load clock 0 1).1 := by
  intro s forth back clock first second t
  have invertible : s.Invertible := ⟨⟨rfl, rfl⟩, ⟨rfl, rfl⟩⟩
  have forward : s.Directs forth := Or.inl ⟨rfl, rfl⟩
  have backward : s.Directs back := Or.inr ⟨rfl, rfl⟩
  have writes (l : Ledger) : l.written [.submit forth] = [forth] ∧ l.written [.submit back] = [back] :=
    ⟨@written_submits l [forth] (by decide) (by decide),
      @written_submits l [back] (by decide) (by decide)⟩
  have keeps : t.Keeps [forth] := by
    have opened : first.opened .empty = ⟨s, .empty, false, [], []⟩ := start_empty s clock
    have pruners : (first.ledger .empty).pruners = [] := by
      rw [Session.ledger, opened]
      exact pruners_submitAll _ [forth]
    have kept := @keeps_submitAll (first.opened .empty) [] (opened ▸ Tree.keeps_empty) [forth]
    rw [show [forth].map Move.submit = [.submit forth] from rfl, (writes _).1] at kept
    rw [show t = (first.ledger .empty).settle.tree from rfl, settle, pruners]
    exact kept
  have keeps' : (second.ledger t).tree.Keeps [back, forth] := by
    have opened : (second.opened t).tree = t := tree_start s.swapped clock t
    have kept := @keeps_submitAll (second.opened t) [forth] (opened.symm ▸ keeps) [back]
    rw [show [back].map Move.submit = [.submit back] from rfl, (writes _).2] at kept
    exact kept
  obtain ⟨-, orders, sessions⟩ := directions_in_either_order invertible
  refine ⟨?_, (orders t (keeps.legible (by simp [forward])) clock clock clock clock 0 1).1⟩
  have written : Session.writtenOver .empty ([first] ++ [second]) = [forth, back] := by
    rw [Session.writtenOver_concat, Session.writtenOver, Session.writtenOver, (writes _).1,
      (writes _).2]
    rfl
  have directed : ∀ p ∈ Session.writtenOver .empty ([first] ++ [second]), s.Directs p := by
    rw [written]
    simp [forward, backward]
  obtain ⟨loaded, found, uuid, -, -⟩ := keeps'.exists_mem_history (second.ledger t).setup clock
    (List.mem_cons_of_mem back (List.mem_singleton_self forth))
  have page : loaded ∈ ((second.ledger t).load clock 0 2).1 := by
    have length := keeps'.length_history (second.ledger t).setup clock
    have all : ((second.ledger t).load clock 0 2).1 = (second.ledger t).history clock :=
      List.take_of_length_le (Nat.le_of_eq length)
    exact all ▸ found
  obtain ⟨p, last, same, -, source, target⟩ :=
    sessions [first] second (Or.inr rfl) directed clock 0 2 loaded page
  rw [written] at last
  have latest : p = forth := by
    rcases List.mem_pair.1 last.mem with here | there
    · exact here
    · exact absurd (uuid.symm.trans (same.trans (congrArg Patch.uuid there))) (by decide)
  rw [latest] at source target
  exact ⟨loaded, page, uuid, source, target⟩

end Ledger

end PatchLedger
