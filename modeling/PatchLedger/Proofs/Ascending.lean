import Mathlib.Data.List.Nodup
import PatchLedger.Ascending

/-!
More on lists in ascending order: what a key holds, read as membership, and
`ofList`, which keeps the last value of each key and leaves a list in order as
it is.
-/

namespace PatchLedger.Ascending
variable {κ α : Type} [DecidableEq κ]

theorem value?_eq_some_iff {entries : List (κ × α)} (distinct : (entries.map Prod.fst).Nodup)
    {key : κ} {value : α} : value? key entries = some value ↔ (key, value) ∈ entries := by
  induction entries with
  | nil => simp [value?]
  | cons entry rest ih =>
    obtain ⟨fresh, distinct⟩ := List.nodup_cons.1 distinct
    rw [value?, List.mem_cons]
    split
    · next same =>
      subst same
      have other : (entry.1, value) ∉ rest := fun member =>
        fresh (List.mem_map.2 ⟨_, member, rfl⟩)
      simp [other, Prod.ext_iff, eq_comm]
    · next differ =>
      have notFirst : (key, value) ≠ entry := fun same => differ (congrArg Prod.fst same)
      simp [ih distinct, notFirst]

theorem mem_of_value? {key : κ} {value : α} {entries : List (κ × α)}
    (h : value? key entries = some value) : (key, value) ∈ entries := by
  induction entries with
  | nil => cases h
  | cons entry rest ih =>
    rw [value?] at h
    split at h
    · next same =>
      cases h
      exact List.mem_cons.2 (Or.inl (by rw [same]))
    · exact List.mem_cons_of_mem _ (ih h)

theorem value?_eq_none_of_forall_ne {key : κ} {entries : List (κ × α)}
    (h : ∀ entry ∈ entries, entry.1 ≠ key) : value? key entries = none := by
  cases found : value? key entries with
  | none => rfl
  | some value => exact absurd rfl (h _ (mem_of_value? found))

theorem value?_append (key : κ) (xs ys : List (κ × α)) :
    value? key (xs ++ ys) = (value? key xs).or (value? key ys) := by
  induction xs with
  | nil => rfl
  | cons entry rest ih =>
    rw [List.cons_append, value?, value?, ih]
    split <;> rfl

theorem value?_reverse {entries : List (κ × α)} (distinct : (entries.map Prod.fst).Nodup)
    {key : κ} : value? key entries.reverse = value? key entries := by
  have reversed : (entries.reverse.map Prod.fst).Nodup := by
    rw [List.map_reverse]
    exact List.nodup_reverse.2 distinct
  refine Option.ext fun value => ?_
  rw [value?_eq_some_iff reversed, value?_eq_some_iff distinct, List.mem_reverse]

theorem map_snd_filter {entries : List (κ × α)} (distinct : (entries.map Prod.fst).Nodup) {key : κ} :
    (entries.filter fun entry => entry.1 = key).map Prod.snd = (value? key entries).toList := by
  induction entries with
  | nil => rfl
  | cons entry rest ih =>
    obtain ⟨fresh, distinct⟩ := List.nodup_cons.1 distinct
    rw [value?, List.filter_cons]
    by_cases same : entry.1 = key
    · have others : (rest.filter fun other => other.1 = key) = [] := by
        refine List.filter_eq_nil_iff.2 fun other member alike => fresh ?_
        exact List.mem_map.2 ⟨other, member, (of_decide_eq_true alike).trans same.symm⟩
      simp [same, others]
    · simp [same, Ne.symm same, ih distinct]

theorem value?_filter {p : κ × α → Bool} {key : κ} (kept : ∀ value, p (key, value) = true)
    (entries : List (κ × α)) : value? key (entries.filter p) = value? key entries := by
  induction entries with
  | nil => rfl
  | cons entry rest ih =>
    obtain ⟨name, value⟩ := entry
    rw [List.filter_cons, value?]
    split
    · rw [value?, ih]
    · next dropped =>
      have differ : key ≠ name := fun same => dropped (same ▸ kept value)
      rw [ih, if_neg differ]

theorem value?_map {β : Type} (f : κ → α → β) (key : κ) (entries : List (κ × α)) :
    value? key (entries.map fun entry => (entry.1, f entry.1 entry.2)) =
      (value? key entries).map (f key) := by
  induction entries with
  | nil => rfl
  | cons entry rest ih =>
    rw [List.map_cons, value?, value?, ih]
    split
    · next same => rw [same]; rfl
    · rfl

variable [LT κ] [DecidableLT κ] [LE κ] [Std.IsLinearOrder κ] [Std.LawfulOrderLT κ]

omit [DecidableEq κ] [DecidableLT κ] [Std.IsLinearOrder κ] in
theorem Ascends.nodup {entries : List (κ × α)} (h : Ascends entries) :
    (entries.map Prod.fst).Nodup := by
  refine (List.pairwise_map.2 h).imp ?_
  intro a b less same
  exact Std.lt_irrefl (same ▸ less)

omit [DecidableLT κ] in
theorem ext_mem {xs ys : List (κ × α)} (hx : Ascends xs) (hy : Ascends ys)
    (h : ∀ entry, entry ∈ xs ↔ entry ∈ ys) : xs = ys := by
  refine ext hx hy fun key => Option.ext fun value => ?_
  rw [value?_eq_some_iff hx.nodup, value?_eq_some_iff hy.nodup]
  exact h (key, value)

theorem value?_ofList (key : κ) (entries : List (κ × α)) :
    value? key (ofList entries) = value? key entries.reverse := by
  suffices ∀ start : List (κ × α),
      value? key (entries.foldl (fun sorted entry => put entry.1 entry.2 sorted) start) =
        (value? key entries.reverse).or (value? key start) by
    simpa [ofList, value?] using this []
  induction entries with
  | nil => intro start; rfl
  | cons entry rest ih =>
    intro start
    rw [List.foldl_cons, ih, value?_put, List.reverse_cons, value?_append, Option.or_assoc]
    congr 1
    rw [value?, value?]
    split <;> rfl

theorem mem_ofList {entries : List (κ × α)} (distinct : (entries.map Prod.fst).Nodup)
    {entry : κ × α} : entry ∈ ofList entries ↔ entry ∈ entries := by
  rw [← value?_eq_some_iff (ascends_ofList entries).nodup, value?_ofList, value?_reverse distinct,
    value?_eq_some_iff distinct]

theorem ofList_eq {entries sorted : List (κ × α)} (distinct : (entries.map Prod.fst).Nodup)
    (ascends : Ascends sorted) (same : ∀ entry, entry ∈ entries ↔ entry ∈ sorted) :
    ofList entries = sorted :=
  ext_mem (ascends_ofList entries) ascends fun entry => (mem_ofList distinct).trans (same entry)

theorem ofList_perm {xs ys : List (κ × α)} (distinct : (xs.map Prod.fst).Nodup) (same : xs.Perm ys) :
    ofList xs = ofList ys := by
  refine ofList_eq distinct (ascends_ofList ys) fun entry => ?_
  rw [mem_ofList ((same.map Prod.fst).nodup_iff.1 distinct), same.mem_iff]

theorem ofList_filter (p : κ → Bool) (entries : List (κ × α)) :
    ofList (entries.filter fun entry => p entry.1) = (ofList entries).filter fun entry => p entry.1 := by
  refine ext (ascends_ofList _) ((ascends_ofList entries).sublist List.filter_sublist) fun key => ?_
  rw [value?_ofList, ← List.filter_reverse]
  cases kept : p key with
  | true => rw [value?_filter fun _ => kept, value?_filter fun _ => kept, value?_ofList]
  | false =>
    rw [value?_eq_none_of_forall_ne, value?_eq_none_of_forall_ne]
    all_goals
      intro entry member same
      rw [List.mem_filter, same, kept] at member
      cases member.2

theorem ofList_map {β : Type} (f : κ → α → β) (entries : List (κ × α)) :
    ofList (entries.map fun entry => (entry.1, f entry.1 entry.2)) =
      (ofList entries).map fun entry => (entry.1, f entry.1 entry.2) := by
  refine ext (ascends_ofList _) (List.pairwise_map.2 (ascends_ofList entries)) fun key => ?_
  rw [value?_ofList, ← List.map_reverse, value?_map, value?_map, value?_ofList]

theorem ofList_of_ascends {entries : List (κ × α)} (h : Ascends entries) : ofList entries = entries := by
  refine ext (ascends_ofList entries) h fun key => ?_
  rw [value?_ofList, value?_reverse h.nodup]

end PatchLedger.Ascending
