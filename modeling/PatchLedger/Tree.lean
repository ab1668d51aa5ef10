import PatchLedger.Ascending
import PatchLedger.Bytes

/-!
The tree of a ledger: an ordered map from byte strings to byte strings, in
unsigned byte order. Trees that hold the same values at all keys are equal
(`Tree.ext_get?`).
-/

namespace PatchLedger

structure Tree where
  entries : List (Bytes × Bytes)
  ascends : Ascending.Ascends entries
deriving DecidableEq

namespace Tree

def empty : Tree := ⟨[], List.Pairwise.nil⟩

instance : Inhabited Tree := ⟨empty⟩

def toList (t : Tree) : List (Bytes × Bytes) := t.entries

def size (t : Tree) : Nat := t.entries.length

def get? (t : Tree) (key : Bytes) : Option Bytes := Ascending.value? key t.entries

def insert (t : Tree) (key value : Bytes) : Tree :=
  ⟨Ascending.put key value t.entries, Ascending.ascends_put t.ascends⟩

def filter (t : Tree) (keep : Bytes → Bool) : Tree :=
  ⟨t.entries.filter (fun entry => keep entry.1), t.ascends.filter _⟩

def erase (t : Tree) (key : Bytes) : Tree := t.filter (· ≠ key)

def eraseUnder (t : Tree) (start : Bytes) : Tree := t.filter (!start.isPrefixOf ·)

def insertAll (t : Tree) (entries : List (Bytes × Bytes)) : Tree :=
  entries.foldl (fun t entry => t.insert entry.1 entry.2) t

def eraseAll (t : Tree) (keys : List Bytes) : Tree := keys.foldl erase t

theorem ext_get? {t u : Tree} (h : ∀ key, t.get? key = u.get? key) : t = u := by
  have same := Ascending.ext t.ascends u.ascends h
  cases t
  cases u
  cases same
  rfl

@[simp] theorem get?_empty (key : Bytes) : empty.get? key = none := rfl

@[simp] theorem get?_insert (t : Tree) (key value other : Bytes) :
    (t.insert key value).get? other = if other = key then some value else t.get? other :=
  Ascending.value?_put key other value t.entries

@[simp] theorem get?_filter (t : Tree) (keep : Bytes → Bool) (key : Bytes) :
    (t.filter keep).get? key = if keep key then t.get? key else none := by
  unfold filter get?
  simp only
  induction t.entries with
  | nil => simp [Ascending.value?]
  | cons entry rest ih =>
    by_cases same : key = entry.1
    · subst same
      by_cases kept : keep entry.1 <;> simp_all [Ascending.value?]
    · by_cases kept : keep entry.1 <;> simp_all [Ascending.value?]

@[simp] theorem get?_erase (t : Tree) (key other : Bytes) :
    (t.erase key).get? other = if other = key then none else t.get? other := by
  by_cases h : other = key <;> simp [erase, h]

@[simp] theorem get?_eraseUnder (t : Tree) (start key : Bytes) :
    (t.eraseUnder start).get? key = if start.isPrefixOf key then none else t.get? key := by
  cases h : start.isPrefixOf key <;> simp [eraseUnder, h]

theorem get?_eq_some_iff {t : Tree} {key value : Bytes} :
    t.get? key = some value ↔ (key, value) ∈ t.toList := by
  have ascends := t.ascends
  unfold get? toList
  generalize t.entries = entries at ascends ⊢
  induction entries with
  | nil => simp [Ascending.value?]
  | cons entry rest ih =>
    obtain ⟨below, ordered⟩ := List.pairwise_cons.1 ascends
    have ih : Ascending.value? key rest = some value ↔ (key, value) ∈ rest := ih ordered
    have above : (key, value) ∈ rest → entry.1 < key := below (key, value)
    have irrefl : ¬ key < key := Std.lt_irrefl
    obtain ⟨first, held⟩ := entry
    simp only [Ascending.value?, List.mem_cons, Prod.mk.injEq]
    grind

end Tree

end PatchLedger
