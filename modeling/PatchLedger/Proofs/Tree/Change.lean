import PatchLedger.Error
import PatchLedger.Proofs.Tree.Lookup

/-!
The two changes that a tree knows, writing a record and pruning a patch, with what
each answers. A change reads and touches nothing but the keys under its uuid
(`Tree.AgreeAt.change`, `Tree.agreeBut_change`), so changes of different patches
can be made in either order.
-/

namespace PatchLedger

namespace Tree

inductive Change where
  | replace (record : Record)
  | prune (uuid : String) (seen : Option Bytes)

def Change.uuid : Change → String
  | replace record => record.uuid
  | prune uuid _ => uuid

inductive Answer where
  | written
  | refused (e : LedgerError)
  | pruned
  | kept

def change (t : Tree) : Change → Answer × Tree
  | .replace record =>
      match t.replace record with
      | .ok u => (.written, u)
      | .error e => (.refused e.error, t)
  | .prune uuid seen =>
      match t.prune? uuid seen with
      | some u => (.pruned, u)
      | none => (.kept, t)

theorem change_replace {t : Tree} {record : Record} (valid : Key.validUuid record.uuid) :
    ∃ u, t.change (.replace record) = (.written, u) ∧ u.Holds record ∧ AgreeBut record.uuid u t := by
  have replaced : t.replace record = .ok _ := if_pos valid
  obtain ⟨-, holds, agree⟩ := replace_eq_ok_iff.1 replaced
  exact ⟨_, by rw [change, replaced], holds, agree⟩

theorem change_replace_of_not_valid {t : Tree} {record : Record}
    (invalid : ¬ Key.validUuid record.uuid) :
    t.change (.replace record) = (.refused (BadUuid.error ⟨record.uuid⟩), t) := by
  rw [change, replace, if_neg invalid]

theorem change_prune_of_eq {t : Tree} {uuid : String} {seen : Option Bytes}
    (same : t.get? (Key.ofEntry uuid .stamp) = seen) :
    t.change (.prune uuid seen) = (.pruned, t.eraseUnder (Key.start uuid)) := by
  rw [change, prune?, if_pos same]

theorem change_prune_of_ne {t : Tree} {uuid : String} {seen : Option Bytes}
    (differ : t.get? (Key.ofEntry uuid .stamp) ≠ seen) :
    t.change (.prune uuid seen) = (.kept, t) := by
  rw [change, prune?, if_neg differ]

theorem agreeBut_change (t : Tree) (c : Change) : AgreeBut c.uuid (t.change c).2 t := by
  cases c with
  | replace record =>
    by_cases valid : Key.validUuid record.uuid
    · obtain ⟨u, form, -, agree⟩ := t.change_replace valid
      rw [form]
      exact agree
    · rw [change_replace_of_not_valid valid]
      exact agreeBut_refl _ t
  | prune uuid seen =>
    by_cases same : t.get? (Key.ofEntry uuid .stamp) = seen
    · rw [change_prune_of_eq same]
      exact t.agreeBut_eraseUnder uuid
    · rw [change_prune_of_ne same]
      exact agreeBut_refl _ t

theorem AgreeBut.agreeAt {t u : Tree} {uuid other : String} (h : AgreeBut uuid t u)
    (one : Key.Separable uuid) (separable : Key.Separable other) (differ : other ≠ uuid) :
    AgreeAt other t u :=
  fun key first => h key fun second => differ (Key.eq_of_start_prefix separable one first second)

theorem AgreeAt.change {t u : Tree} {c : Change} (h : AgreeAt c.uuid t u) :
    (t.change c).1 = (u.change c).1 ∧ AgreeAt c.uuid (t.change c).2 (u.change c).2 := by
  cases c with
  | replace record =>
    by_cases valid : Key.validUuid record.uuid
    · obtain ⟨t', form, holds, -⟩ := t.change_replace valid
      obtain ⟨u', form', holds', -⟩ := u.change_replace valid
      rw [form, form']
      exact ⟨rfl, fun key first => (holds key first).trans (holds' key first).symm⟩
    · rw [change_replace_of_not_valid valid, change_replace_of_not_valid valid]
      exact ⟨rfl, h⟩
  | prune uuid seen =>
    have stamp : t.get? (Key.ofEntry uuid .stamp) = u.get? (Key.ofEntry uuid .stamp) :=
      h _ (Key.start_prefix_ofEntry uuid .stamp)
    by_cases same : t.get? (Key.ofEntry uuid .stamp) = seen
    · rw [change_prune_of_eq same, change_prune_of_eq (stamp ▸ same)]
      refine ⟨rfl, fun key first => ?_⟩
      rw [t.lacks_eraseUnder uuid key first, u.lacks_eraseUnder uuid key first]
    · rw [change_prune_of_ne same, change_prune_of_ne (stamp ▸ same)]
      exact ⟨rfl, h⟩

section Commute

variable {a b : Change} (ha : Key.Separable a.uuid) (hb : Key.Separable b.uuid)
  (differ : a.uuid ≠ b.uuid) (t : Tree)

include ha hb differ

theorem change_change : ((t.change b).2.change a).1 = (t.change a).1 ∧
    AgreeAt a.uuid ((t.change b).2.change a).2 ((t.change a).2.change b).2 := by
  obtain ⟨answer, agree⟩ := ((t.agreeBut_change b).agreeAt hb ha differ).change
  have later := ((t.change a).2.agreeBut_change b).agreeAt hb ha differ
  exact ⟨answer, fun key first => (agree key first).trans (later key first).symm⟩

theorem change_comm : ((t.change a).2.change b).2 = ((t.change b).2.change a).2 := by
  refine ext_get? fun key => ?_
  by_cases first : Key.start a.uuid <+: key
  · exact ((change_change ha hb differ t).2 key first).symm
  · by_cases second : Key.start b.uuid <+: key
    · exact (change_change hb ha differ.symm t).2 key second
    · rw [(t.change a).2.agreeBut_change b key second, t.agreeBut_change a key first,
        (t.change b).2.agreeBut_change a key first, t.agreeBut_change b key second]

end Commute

/-- A record of a valid uuid has its keys and values under that uuid and nothing else is left there,
whatever the tree had. A patch is pruned as a whole while its stamp is the one that was seen, and
otherwise not at all. No change touches the keys of other uuids, so changes of different patches
commute. -/
theorem change_exact (t : Tree) :
    (∀ record : Record, record.operations.length < UInt64.size → Key.validUuid record.uuid →
      ∃ u, t.change (.replace record) = (.written, u) ∧
        (∀ name, u.get? (Key.named record.uuid name) =
          (Entry.ofName? name).bind record.content) ∧
        (∀ key, ¬ Key.start record.uuid <+: key → u.get? key = t.get? key) ∧
        ∀ other name, Key.validUuid other → other ≠ record.uuid →
          u.get? (Key.named other name) = t.get? (Key.named other name)) ∧
      (∀ record : Record, ¬ Key.validUuid record.uuid → ∃ text,
        t.change (.replace record) = (.refused ⟨.invalidArgument, text⟩, t)) ∧
      (∀ uuid seen,
        if t.get? (Key.ofEntry uuid .stamp) = seen then
          ∃ u, t.change (.prune uuid seen) = (.pruned, u) ∧
            ∀ key, u.get? key = if Key.start uuid <+: key then none else t.get? key
        else t.change (.prune uuid seen) = (.kept, t)) ∧
      ∀ a b : Change, Key.validUuid a.uuid → Key.validUuid b.uuid → a.uuid ≠ b.uuid →
        ((t.change a).2.change b).2 = ((t.change b).2.change a).2 ∧
          ((t.change b).2.change a).1 = (t.change a).1 ∧
          ((t.change a).2.change b).1 = (t.change b).1 := by
  refine ⟨fun record bounded valid => ?_, fun record invalid => ?_, fun uuid seen => ?_,
    fun a b validA validB differ => ?_⟩
  · obtain ⟨u, form, holds, agree⟩ := t.change_replace valid
    refine ⟨u, form, fun name => ?_, agree, fun other name validOther differ => ?_⟩
    · rw [holds _ (Key.start_prefix_named record.uuid name), record.value?_named bounded]
    · exact agree.agreeAt (Key.separable_of_validUuid valid) (Key.separable_of_validUuid validOther)
        differ _ (Key.start_prefix_named other name)
  · exact ⟨_, change_replace_of_not_valid invalid⟩
  · split
    · next same =>
      refine ⟨_, change_prune_of_eq same, fun key => ?_⟩
      rw [get?_eraseUnder]
      simp only [List.isPrefixOf_iff_prefix]
    · next differ => exact change_prune_of_ne differ
  · have one := Key.separable_of_validUuid validA
    have other := Key.separable_of_validUuid validB
    exact ⟨change_comm one other differ t, (change_change one other differ t).1,
      (change_change other one differ.symm t).1⟩

theorem change_exact_shorter :
    let record : Record := ⟨"u", [1], none, "a", [[2]]⟩
    let t := (((Tree.empty.insert (Key.ofOperation "u" 2) [3]).insert
      (Key.named "u" (Bytes.ofText "other")) [4]).insert (Key.ofEntry "uv" .stamp) [5]).insert
      (Bytes.ofText "x") [6]
    let a : Change := .replace record
    let b : Change := .prune "uv" (some [5])
    (∃ u, t.change a = (.written, u) ∧ u.get? (Key.ofOperation "u" 1) = some [2] ∧
      u.get? (Key.ofOperation "u" 2) = none ∧
      u.get? (Key.named "u" (Bytes.ofText "other")) = none ∧
      u.get? (Key.ofEntry "uv" .stamp) = some [5] ∧ u.get? (Bytes.ofText "x") = some [6]) ∧
      (∃ u, t.change b = (.pruned, u) ∧ u.get? (Key.ofEntry "uv" .stamp) = none) ∧
      t.change (.prune "uv" none) = (.kept, t) ∧
      ((t.change a).2.change b).2 = ((t.change b).2.change a).2 := by
  intro record t a b
  have first : Key.validUuid "u" := by decide
  have second : Key.validUuid "uv" := by decide
  obtain ⟨replace, -, prune, commute⟩ := t.change_exact
  obtain ⟨u, form, own, outside, others⟩ := replace record (by decide) first
  have seen : t.get? (Key.ofEntry "uv" .stamp) = some [5] := by decide
  have reached := prune "uv" (some [5])
  have missed := prune "uv" none
  rw [if_pos seen] at reached
  rw [if_neg (by simp [seen])] at missed
  obtain ⟨u', form', left⟩ := reached
  refine ⟨⟨u, form, (own _).trans (by decide), (own _).trans (by decide), (own _).trans (by decide),
    (others "uv" _ second (by decide)).trans seen, (outside _ (by decide)).trans (by decide)⟩,
    ⟨u', form', ?_⟩, missed, (commute a b first second (by decide)).1⟩
  rw [left, if_pos (Key.start_prefix_ofEntry "uv" .stamp)]

end Tree

end PatchLedger
