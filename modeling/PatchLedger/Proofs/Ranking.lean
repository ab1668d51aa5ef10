import Mathlib.Data.List.Perm.Subperm
import PatchLedger.Patch

/-!
The order of a history, as one on patches: the later stamp first, equal stamps in
the order of the uuids. The rank of a patch is the number of those before it; in
a list in order it is the place where the patch stands.
-/

namespace PatchLedger

namespace Patch

def place (p : Patch) : Instant × Bytes := (p.stamp, Bytes.ofText p.uuid)

def Before (a b : Instant × Bytes) : Prop := b.1 < a.1 ∨ a.1 = b.1 ∧ a.2 < b.2

instance (a b : Instant × Bytes) : Decidable (Before a b) :=
  inferInstanceAs (Decidable (b.1 < a.1 ∨ a.1 = b.1 ∧ a.2 < b.2))

def Precedes (p q : Patch) : Prop := Before p.place q.place

instance (p q : Patch) : Decidable (p.Precedes q) :=
  inferInstanceAs (Decidable (Before p.place q.place))

def rank (p : Patch) (patches : List Patch) : Nat := patches.countP fun q => decide (q.Precedes p)

theorem Precedes.irrefl (p : Patch) : ¬ p.Precedes p := by
  intro h
  rcases h with less | ⟨-, less⟩
  · exact Std.lt_irrefl less
  · exact List.lt_irrefl _ less

theorem Precedes.trans {p q r : Patch} (h : p.Precedes q) (k : q.Precedes r) : p.Precedes r := by
  rcases h with h | ⟨same, h⟩
  · rcases k with k | ⟨same', k⟩
    · exact Or.inl (Std.lt_trans k h)
    · exact Or.inl (same' ▸ h)
  · rcases k with k | ⟨same', k⟩
    · exact Or.inl (same ▸ k)
    · exact Or.inr ⟨same.trans same', List.lt_trans h k⟩

theorem Precedes.asymm {p q : Patch} (h : p.Precedes q) : ¬ q.Precedes p :=
  fun k => irrefl p (h.trans k)

theorem precedes_or_precedes {p q : Patch} (h : p.uuid ≠ q.uuid) : p.Precedes q ∨ q.Precedes p := by
  rcases Std.lt_trichotomy p.stamp q.stamp with less | same | less
  · exact Or.inr (Or.inl less)
  · rcases Std.lt_trichotomy (Bytes.ofText p.uuid) (Bytes.ofText q.uuid) with less | alike | less
    · exact Or.inl (Or.inr ⟨same, less⟩)
    · exact absurd (Bytes.ofText_injective alike) h
    · exact Or.inr (Or.inr ⟨same.symm, less⟩)
  · exact Or.inl (Or.inl less)

theorem rank_eq_countP (p : Patch) (patches : List Patch) :
    rank p patches = (patches.map place).countP fun a => decide (Before a p.place) := by
  rw [List.countP_map]
  rfl

theorem rank_eq_of_perm {p q : Patch} {ps qs : List Patch} (same : p.place = q.place)
    (perm : (ps.map place).Perm (qs.map place)) : rank p ps = rank q qs := by
  rw [rank_eq_countP, rank_eq_countP, same]
  exact perm.countP_eq _

theorem rank_le_of_subset {ps qs : List Patch} (distinct : ps.Nodup) (h : ps ⊆ qs) (p : Patch) :
    rank p ps ≤ rank p qs :=
  (List.subperm_of_subset distinct h).countP_le _

theorem rank_append_cons {p : Patch} {before after : List Patch}
    (ordered : (before ++ p :: after).Pairwise Precedes) :
    rank p (before ++ p :: after) = before.length := by
  obtain ⟨-, tail, across⟩ := List.pairwise_append.1 ordered
  have all : before.countP (fun q => decide (q.Precedes p)) = before.length :=
    List.countP_eq_length.2 fun q member => decide_eq_true (across q member p List.mem_cons_self)
  have none : (p :: after).countP (fun q => decide (q.Precedes p)) = 0 := by
    refine List.countP_eq_zero.2 fun q member => ?_
    rcases List.mem_cons.1 member with rfl | member
    · simpa using Precedes.irrefl q
    · simpa using (List.rel_of_pairwise_cons tail member).asymm
  rw [rank, List.countP_append, all, none, Nat.add_zero]

theorem rank_getElem {patches : List Patch} (ordered : patches.Pairwise Precedes) {i : Nat}
    (h : i < patches.length) : rank patches[i] patches = i := by
  have form : patches = patches.take i ++ patches[i] :: patches.drop (i + 1) := by
    rw [List.getElem_cons_drop, List.take_append_drop]
  have rank_eq := rank_append_cons (form ▸ ordered)
  rw [← form, List.length_take, Nat.min_eq_left (Nat.le_of_lt h)] at rank_eq
  exact rank_eq

theorem mem_drop_iff {patches : List Patch} (ordered : patches.Pairwise Precedes) {p : Patch}
    (member : p ∈ patches) {n : Nat} : p ∈ patches.drop n ↔ n ≤ rank p patches := by
  constructor
  · intro dropped
    obtain ⟨i, bound, rfl⟩ := List.mem_iff_getElem.1 dropped
    rw [List.getElem_drop, rank_getElem ordered]
    exact Nat.le_add_right n i
  · intro high
    obtain ⟨i, bound, rfl⟩ := List.mem_iff_getElem.1 member
    rw [rank_getElem ordered] at high
    exact List.mem_drop_iff_getElem.2 ⟨i - n, by omega, by simp [Nat.add_sub_cancel' high]⟩

theorem mem_take_iff {patches : List Patch} (ordered : patches.Pairwise Precedes) {p : Patch}
    (member : p ∈ patches) {n : Nat} : p ∈ patches.take n ↔ rank p patches < n := by
  constructor
  · intro taken
    obtain ⟨i, bound, rfl⟩ := List.mem_iff_getElem.1 taken
    rw [List.getElem_take, rank_getElem ordered]
    exact Nat.lt_of_lt_of_le bound (List.length_take_le n patches)
  · intro low
    obtain ⟨i, bound, rfl⟩ := List.mem_iff_getElem.1 member
    rw [rank_getElem ordered] at low
    exact List.mem_take_iff_getElem.2 ⟨i, by omega, rfl⟩

theorem nodup_of_uuids {patches : List Patch} (distinct : (patches.map uuid).Nodup) :
    patches.Nodup :=
  (List.pairwise_map.1 distinct).imp fun differ same => differ (congrArg uuid same)

theorem nodup_places {patches : List Patch} (distinct : (patches.map uuid).Nodup) :
    (patches.map place).Nodup := by
  refine List.pairwise_map.2 ((List.pairwise_map.1 distinct).imp ?_)
  intro p q differ same
  exact differ (Bytes.ofText_injective (congrArg Prod.snd same))

theorem exists_ordered {patches : List Patch} (distinct : (patches.map uuid).Nodup) :
    ∃ ordered : List Patch, ordered.Perm patches ∧ ordered.Pairwise Precedes := by
  induction patches with
  | nil => exact ⟨[], List.Perm.nil, List.Pairwise.nil⟩
  | cons p rest ih =>
    obtain ⟨fresh, distinct⟩ := List.nodup_cons.1 distinct
    obtain ⟨ordered, perm, pairwise⟩ := ih distinct
    have after : ∀ q ∈ ordered.filter (fun q => !decide (q.Precedes p)), p.Precedes q := by
      intro q member
      obtain ⟨member, notBefore⟩ := List.mem_filter.1 member
      have differ : p.uuid ≠ q.uuid := fun same =>
        fresh (List.mem_map.2 ⟨q, perm.mem_iff.1 member, same.symm⟩)
      have notBefore : ¬ q.Precedes p := by simpa using notBefore
      exact (precedes_or_precedes differ).resolve_right notBefore
    refine ⟨ordered.filter (fun q => decide (q.Precedes p)) ++
      p :: ordered.filter fun q => !decide (q.Precedes p), ?_, ?_⟩
    · exact List.perm_middle.trans (((List.filter_append_perm _ ordered).trans perm).cons p)
    · refine List.pairwise_append.2 ⟨pairwise.filter _,
        List.pairwise_cons.2 ⟨after, pairwise.filter _⟩, ?_⟩
      intro q member r member'
      have first : q.Precedes p := by simpa using (List.mem_filter.1 member).2
      rcases List.mem_cons.1 member' with rfl | member'
      · exact first
      · exact first.trans (after r member')

theorem rank_of_perm {ps qs : List Patch} (perm : ps.Perm qs) (p : Patch) : rank p ps = rank p qs :=
  rank_eq_of_perm rfl (perm.map place)

theorem length_filter_rank_lt {patches : List Patch} (distinct : (patches.map uuid).Nodup) (n : Nat) :
    (patches.filter fun p => rank p patches < n).length = min n patches.length := by
  obtain ⟨ordered, perm, pairwise⟩ := exists_ordered distinct
  have nodup : ordered.Nodup := perm.nodup_iff.2 (nodup_of_uuids distinct)
  have same : (ordered.filter fun p => rank p patches < n).Perm (ordered.take n) := by
    refine (List.perm_ext_iff_of_nodup (nodup.filter _) (nodup.sublist (List.take_sublist n ordered))).2
      fun p => ?_
    rw [List.mem_filter, ← rank_of_perm perm, decide_eq_true_iff]
    constructor
    · intro ⟨member, low⟩
      exact (mem_take_iff pairwise member).2 low
    · intro taken
      have member := List.mem_of_mem_take taken
      exact ⟨member, (mem_take_iff pairwise member).1 taken⟩
  calc (patches.filter fun p => rank p patches < n).length
      = (ordered.filter fun p => rank p patches < n).length := (perm.filter _).length_eq.symm
    _ = (ordered.take n).length := same.length_eq
    _ = min n patches.length := by rw [List.length_take, perm.length_eq]

theorem le_rank_of_top {ps qs : List Patch} (distinct : (qs.map uuid).Nodup) {n : Nat}
    (top : ∀ q ∈ qs, rank q qs < n → q ∈ ps) {p : Patch} (member : p ∈ qs) (high : n ≤ rank p qs) :
    n ≤ rank p ps := by
  obtain ⟨ordered, perm, pairwise⟩ := exists_ordered distinct
  have nodup : ordered.Nodup := perm.nodup_iff.2 (nodup_of_uuids distinct)
  have dropped : p ∈ ordered.drop n :=
    (mem_drop_iff pairwise (perm.mem_iff.2 member)).2 (by rwa [rank_of_perm perm])
  have across : ∀ q ∈ ordered.take n, q.Precedes p := by
    rw [← List.take_append_drop n ordered] at pairwise
    exact fun q taken => (List.pairwise_append.1 pairwise).2.2 q taken p dropped
  have present : ordered.take n ⊆ ps := by
    intro q taken
    have member := List.mem_of_mem_take taken
    have low := (mem_take_iff pairwise member).1 taken
    rw [rank_of_perm perm] at low
    exact top q (perm.mem_iff.1 member) low
  have enough : n ≤ ordered.length := by
    have bound := List.length_pos_of_mem dropped
    rw [List.length_drop] at bound
    omega
  calc n = (ordered.take n).length := by rw [List.length_take, Nat.min_eq_left enough]
    _ = rank p (ordered.take n) :=
      (List.countP_eq_length.2 fun q taken => decide_eq_true (across q taken)).symm
    _ ≤ rank p ps := rank_le_of_subset (nodup.sublist (List.take_sublist n ordered)) present p

end Patch

end PatchLedger
