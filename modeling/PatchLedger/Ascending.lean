/-!
Lists of keyed entries in strictly ascending order of their keys. Putting an
entry keeps the order and replaces what the key had; such a list is determined
by what each key holds.
-/

namespace PatchLedger.Ascending

variable {κ α : Type} [DecidableEq κ] [LT κ] [DecidableLT κ]

def value? (key : κ) : List (κ × α) → Option α
  | [] => none
  | entry :: rest => if key = entry.1 then some entry.2 else value? key rest

def Ascends (entries : List (κ × α)) : Prop := entries.Pairwise (fun a b => a.1 < b.1)

/-- The entry takes the place of the key's old one, or goes before the first larger key. -/
def put (key : κ) (value : α) : List (κ × α) → List (κ × α)
  | [] => [(key, value)]
  | entry :: rest =>
      if entry.1 < key then entry :: put key value rest
      else if entry.1 = key then (key, value) :: rest
      else (key, value) :: entry :: rest

/-- Each key once, with its last value, in ascending order. -/
def ofList (entries : List (κ × α)) : List (κ × α) :=
  entries.foldl (fun sorted entry => put entry.1 entry.2 sorted) []

variable [LE κ] [Std.IsLinearOrder κ] [Std.LawfulOrderLT κ]

omit [LE κ] [Std.IsLinearOrder κ] [Std.LawfulOrderLT κ] in
theorem mem_put {key : κ} {value : α} {entries : List (κ × α)} {entry : κ × α}
    (h : entry ∈ put key value entries) : entry = (key, value) ∨ entry ∈ entries := by
  induction entries with
  | nil => simpa [put] using h
  | cons head rest ih =>
    simp only [put] at h
    split at h
    · rcases List.mem_cons.1 h with rfl | h
      · simp
      · rcases ih h with h | h <;> simp [h]
    · split at h <;> simp only [List.mem_cons] at h ⊢ <;> grind

theorem ascends_put {key : κ} {value : α} {entries : List (κ × α)} (h : Ascends entries) :
    Ascends (put key value entries) := by
  induction entries with
  | nil => simp [put, Ascends]
  | cons head rest ih =>
    obtain ⟨below, ordered⟩ := List.pairwise_cons.1 h
    simp only [put]
    split
    · next less =>
      refine List.pairwise_cons.2 ⟨fun entry member => ?_, ih ordered⟩
      rcases mem_put member with rfl | member
      · exact less
      · exact below entry member
    · split
      · next same => exact List.pairwise_cons.2 ⟨fun entry member => same ▸ below entry member, ordered⟩
      · next notLess differ =>
        have less : key < head.1 :=
          Std.lt_of_le_of_ne (Std.not_lt.1 notLess) (fun same => differ same.symm)
        refine List.pairwise_cons.2 ⟨fun entry member => ?_, h⟩
        rcases List.mem_cons.1 member with rfl | member
        · exact less
        · exact Std.lt_trans less (below entry member)

theorem ascends_ofList (entries : List (κ × α)) : Ascends (ofList entries) := by
  suffices ∀ start : List (κ × α), Ascends start →
      Ascends (entries.foldl (fun sorted entry => put entry.1 entry.2 sorted) start) from
    this [] List.Pairwise.nil
  induction entries with
  | nil => exact fun _ h => h
  | cons entry rest ih => exact fun start h => ih _ (ascends_put h)

theorem value?_put (key other : κ) (value : α) (entries : List (κ × α)) :
    value? other (put key value entries) =
      if other = key then some value else value? other entries := by
  induction entries with
  | nil => simp [put, value?]
  | cons head rest ih =>
    have irrefl : ¬ key < key := Std.lt_irrefl
    simp only [put]
    split <;> grind [value?]

omit [DecidableLT κ] [Std.IsLinearOrder κ] in
theorem value?_eq_none {key : κ} {entries : List (κ × α)} (h : ∀ entry ∈ entries, key < entry.1) :
    value? key entries = none := by
  induction entries with
  | nil => rfl
  | cons head rest ih =>
    have differ : key ≠ head.1 := fun same => Std.lt_irrefl (same ▸ h head List.mem_cons_self)
    have rest := ih (fun entry member => h entry (List.mem_cons_of_mem _ member))
    simp [value?, differ, rest]

omit [DecidableLT κ] in
theorem ext {xs ys : List (κ × α)} (hx : Ascends xs) (hy : Ascends ys)
    (h : ∀ key, value? key xs = value? key ys) : xs = ys := by
  induction xs generalizing ys with
  | nil =>
    cases ys with
    | nil => rfl
    | cons y ys => simpa [value?] using h y.1
  | cons x xs ih =>
    cases ys with
    | nil => simpa [value?] using h x.1
    | cons y ys =>
      obtain ⟨belowX, orderedX⟩ := List.pairwise_cons.1 hx
      obtain ⟨belowY, orderedY⟩ := List.pairwise_cons.1 hy
      have notBelow {a b : κ × α} {as bs : List (κ × α)} (below : ∀ entry ∈ bs, b.1 < entry.1)
          (agree : value? a.1 (a :: as) = value? a.1 (b :: bs)) : ¬ a.1 < b.1 := by
        intro less
        have none : value? a.1 (b :: bs) = none := value?_eq_none (by
          intro entry member
          rcases List.mem_cons.1 member with rfl | member
          · exact less
          · exact Std.lt_trans less (below entry member))
        rw [none] at agree
        simp [value?] at agree
      have same : x.1 = y.1 := by
        rcases Std.lt_trichotomy x.1 y.1 with less | same | less
        · exact absurd less (notBelow belowY (h x.1))
        · exact same
        · exact absurd less (notBelow belowX (h y.1).symm)
      have head : x = y := Prod.ext same (by simpa [value?, same] using h x.1)
      subst head
      refine congrArg _ (ih orderedX orderedY fun key => ?_)
      by_cases first : key = x.1
      · rw [first, value?_eq_none belowX, value?_eq_none belowY]
      · simpa [value?, first] using h key

end PatchLedger.Ascending
