import Mathlib.Data.List.Induction
import PatchLedger.Key

/-!
Keys name one record of one patch: a key that is parsed is the one built from
what it names (`parse?_ofEntry`, `eq_named_of_parse?`). The keys of a smaller
uuid come first, and those of a patch's operations stand in the order of their
numbers.
-/

namespace PatchLedger

namespace Bytes

theorem append_lt_append {a b : Bytes} (length : a.length = b.length) (h : a < b) (x y : Bytes) :
    a ++ x < b ++ y := by
  induction a generalizing b with
  | nil => cases b with
    | nil => exact absurd h (List.lt_irrefl [])
    | cons c b => simp at length
  | cons c a ih =>
    cases b with
    | nil => simp at length
    | cons d b =>
      rcases List.cons_lt_cons_iff.1 h with less | ⟨same, less⟩
      · exact List.cons_lt_cons_iff.2 (Or.inl less)
      · exact List.cons_lt_cons_iff.2 (Or.inr ⟨same, ih (by simpa using length) less⟩)

theorem append_lt_append_left {x y : Bytes} (a : Bytes) : a ++ x < a ++ y ↔ x < y := by
  induction a with
  | nil => rfl
  | cons c a ih => simp [ih]

theorem bigEndian_lt_bigEndian {width n m : Nat} (h : n < m) (bound : m < Nat.pow 256 width) :
    bigEndian width n < bigEndian width m := by
  induction width generalizing n m with
  | zero =>
    have zero : m = 0 := Nat.lt_one_iff.1 bound
    omega
  | succ width ih =>
    have high : m / 256 < Nat.pow 256 width :=
      Nat.div_lt_of_lt_mul (by rw [Nat.mul_comm]; exact bound)
    rw [bigEndian, bigEndian]
    by_cases same : n / 256 = m / 256
    · have low : n % 256 < m % 256 := by omega
      have digit : UInt8.ofNat n < UInt8.ofNat m := by
        rw [UInt8.lt_iff_toNat_lt, UInt8.toNat_ofNat', UInt8.toNat_ofNat']
        exact low
      rw [same, append_lt_append_left]
      exact List.cons_lt_cons_iff.2 (Or.inl digit)
    · exact append_lt_append (by simp) (ih (by omega) high) _ _

theorem ofWord_lt_ofWord {s t : UInt64} : ofWord s < ofWord t ↔ s < t := by
  have forward {s t : UInt64} (h : s < t) : ofWord s < ofWord t :=
    bigEndian_lt_bigEndian (UInt64.lt_iff_toNat_lt.1 h) t.toNat_lt
  constructor
  · intro less
    rcases Std.lt_trichotomy s t with h | h | h
    · exact h
    · subst h
      exact absurd less (List.lt_irrefl _)
    · exact absurd (List.lt_trans less (forward h)) (List.lt_irrefl _)
  · exact forward

theorem bigEndian_number (b : Bytes) : bigEndian b.length b.number = b := by
  induction b using List.reverseRecOn with
  | nil => rfl
  | append_singleton b digit ih =>
    have high : (256 * number b + digit.toNat) / 256 = number b := by
      have bound := digit.toNat_lt
      omega
    have low : UInt8.ofNat (256 * number b + digit.toNat) = digit := by
      apply UInt8.toNat_inj.1
      rw [UInt8.toNat_ofNat']
      have bound := digit.toNat_lt
      omega
    rw [List.length_append, List.length_singleton, number_append, bigEndian, high, low, ih]

theorem number_lt (b : Bytes) : b.number < Nat.pow 256 b.length := by
  induction b using List.reverseRecOn with
  | nil => exact Nat.one_pos
  | append_singleton b digit ih =>
    have bound := digit.toNat_lt
    have step : Nat.pow 256 (b.length + 1) = Nat.pow 256 b.length * 256 := rfl
    rw [List.length_append, List.length_singleton, number_append, step]
    omega

theorem eq_ofWord_of_word? {b : Bytes} {w : UInt64} (h : word? b = some w) : b = ofWord w := by
  unfold word? at h
  split at h
  · next eight =>
    cases h
    have bound := number_lt b
    rw [eight] at bound
    rw [ofWord, UInt64.toNat_ofNat_of_lt' bound, ← eight, bigEndian_number]
  · cases h

end Bytes

namespace Entry

theorem ofName?_name (entry : Entry) : ofName? entry.name = some entry := by
  cases entry with
  | stamp => decide
  | error => decide
  | source => decide
  | operation seq =>
    have operations : Key.operations.length = 10 := by decide
    have length : (operation seq).name.length = 19 := by simp [name, operations, Bytes.ofWord]
    have notStamp : (operation seq).name ≠ stamp.name := fun same => by
      rw [same] at length
      exact absurd length (by decide)
    have notError : (operation seq).name ≠ error.name := fun same => by
      rw [same] at length
      exact absurd length (by decide)
    have notSource : (operation seq).name ≠ source.name := fun same => by
      rw [same] at length
      exact absurd length (by decide)
    have form : (operation seq).name = (Key.operations ++ [Key.separator]) ++ Bytes.ofWord seq := by
      simp [name]
    have begins : (Key.operations ++ [Key.separator]).isPrefixOf (operation seq).name := by
      rw [List.isPrefixOf_iff_prefix, form]
      exact List.prefix_append _ _
    have rest : (operation seq).name.drop (Key.operations.length + 1) = Bytes.ofWord seq := by
      rw [form]
      exact List.drop_left' (by simp)
    rw [ofName?, if_neg notStamp, if_neg notError, if_neg notSource, if_pos begins, rest,
      Bytes.word?_ofWord, Option.map_some]

theorem name_injective {a b : Entry} (h : a.name = b.name) : a = b := by
  have same := ofName?_name a
  rw [h, ofName?_name] at same
  exact (Option.some.inj same).symm

theorem eq_name_of_ofName? {name : Bytes} {entry : Entry} (h : ofName? name = some entry) :
    name = entry.name := by
  unfold ofName? at h
  split at h
  · next same =>
    cases h
    exact same
  · split at h
    · next same =>
      cases h
      exact same
    · split at h
      · next same =>
        cases h
        exact same
      · split at h
        · next begins =>
          obtain ⟨seq, read, same⟩ := Option.map_eq_some_iff.1 h
          obtain ⟨rest, form⟩ := List.isPrefixOf_iff_prefix.1 begins
          have after : name.drop (Key.operations.length + 1) = rest := by
            rw [← form]
            exact List.drop_left' (by simp)
          rw [after] at read
          rw [← same, Entry.name, ← form, Bytes.eq_ofWord_of_word? read, List.append_assoc]
          rfl
        · cases h

end Entry

namespace Key

/-- The uuid of a key ends at its first separator. -/
def Separable (uuid : String) : Prop := separator ∉ Bytes.ofText uuid

theorem separable_of_validUuid {uuid : String} (h : validUuid uuid) : Separable uuid := by
  simpa [validUuid, Separable] using (Bool.and_eq_true_iff.1 h).2

theorem takeWhile_named {uuid : String} (h : Separable uuid) (name : Bytes) :
    (named uuid name).takeWhile (· ≠ separator) = Bytes.ofText uuid ∧
      (named uuid name).dropWhile (· ≠ separator) = separator :: name := by
  have before : ∀ b ∈ Bytes.ofText uuid, decide (b ≠ separator) = true := by
    intro b member
    exact decide_eq_true fun same => h (same ▸ member)
  have form : named uuid name = Bytes.ofText uuid ++ separator :: name := by simp [named, start]
  rw [form, List.takeWhile_append_of_pos before, List.dropWhile_append_of_pos before]
  simp

theorem parse?_named {uuid : String} (h : Separable uuid) (name : Bytes) :
    parse? (named uuid name) = some (uuid, Entry.ofName? name) := by
  obtain ⟨before, after⟩ := takeWhile_named h name
  rw [parse?, before, after]
  simp

theorem eq_named_of_parse? {key : Bytes} {uuid : String} {entry : Option Entry}
    (h : parse? key = some (uuid, entry)) :
    Separable uuid ∧ ∃ name, key = named uuid name ∧ Entry.ofName? name = entry := by
  unfold parse? at h
  split at h
  · cases h
  · next first name after =>
    obtain ⟨text, spelled, same⟩ := Option.map_eq_some_iff.1 h
    obtain ⟨rfl, rfl⟩ := Prod.mk.inj same
    have before := Bytes.text?_eq_some_iff.1 spelled
    have mark : first = separator := by
      have fails := List.head?_dropWhile_not (· ≠ separator) key
      rw [after] at fails
      simpa using fails
    subst mark
    refine ⟨?_, name, ?_, rfl⟩
    · intro member
      have all := List.all_eq_true.1 (List.all_takeWhile (p := (· ≠ separator)) (l := key))
      have differ := all separator (before ▸ member)
      simp at differ
    · calc key = key.takeWhile (· ≠ separator) ++ key.dropWhile (· ≠ separator) :=
            List.takeWhile_append_dropWhile.symm
        _ = named text name := by rw [before, after]; simp [named, start]

theorem parse?_ofEntry {uuid : String} (h : Separable uuid) (entry : Entry) :
    parse? (ofEntry uuid entry) = some (uuid, some entry) := by
  rw [ofEntry, parse?_named h, Entry.ofName?_name]

theorem parse?_eq_some_iff {key : Bytes} {uuid : String} {entry : Entry} :
    parse? key = some (uuid, some entry) ↔ Separable uuid ∧ key = ofEntry uuid entry := by
  constructor
  · intro h
    obtain ⟨separable, name, form, read⟩ := eq_named_of_parse? h
    exact ⟨separable, by rw [form, Entry.eq_name_of_ofName? read, ofEntry]⟩
  · rintro ⟨separable, rfl⟩
    exact parse?_ofEntry separable entry

theorem start_prefix_named (uuid : String) (name : Bytes) : start uuid <+: named uuid name :=
  List.prefix_append _ _

theorem start_prefix_ofEntry (uuid : String) (entry : Entry) : start uuid <+: ofEntry uuid entry :=
  start_prefix_named uuid entry.name

theorem eq_of_start_prefix {u v : String} {key : Bytes} (hu : Separable u) (hv : Separable v)
    (first : start u <+: key) (second : start v <+: key) : u = v := by
  obtain ⟨a, rfl⟩ := first
  obtain ⟨b, same⟩ := second
  have here := parse?_named hu a
  have there := parse?_named hv b
  rw [named, same, ← named, here] at there
  exact (Prod.mk.inj (Option.some.inj there)).1

theorem start_prefix_of_parse? {key : Bytes} {uuid : String} {entry : Option Entry}
    (h : parse? key = some (uuid, entry)) : start uuid <+: key := by
  obtain ⟨-, name, rfl, -⟩ := eq_named_of_parse? h
  exact start_prefix_named uuid name

theorem parse?_of_start_prefix {key : Bytes} {uuid : String} (h : Separable uuid)
    (first : start uuid <+: key) : ∃ entry, parse? key = some (uuid, entry) := by
  obtain ⟨name, rfl⟩ := first
  exact ⟨_, parse?_named h name⟩

theorem named_lt_named {u v : String} (hv : Separable v) (less : Bytes.ofText u < Bytes.ofText v)
    (a b : Bytes) : named u a < named v b := by
  unfold Separable at hv
  rw [named, named, start, start, List.append_assoc, List.append_assoc]
  generalize Bytes.ofText u = x at less
  generalize Bytes.ofText v = y at less hv
  induction x generalizing y with
  | nil =>
    cases y with
    | nil => exact absurd less (List.lt_irrefl [])
    | cons d y =>
      have low : separator < d := by
        have zero : separator ≠ d := fun same => hv (same ▸ List.mem_cons_self)
        exact UInt8.lt_of_le_of_ne (UInt8.le_iff_toNat_le.2 (Nat.zero_le _)) zero
      exact List.cons_lt_cons_iff.2 (Or.inl low)
  | cons c x ih =>
    cases y with
    | nil => exact absurd less (List.not_lt_nil _)
    | cons d y =>
      rcases List.cons_lt_cons_iff.1 less with first | ⟨same, rest⟩
      · exact List.cons_lt_cons_iff.2 (Or.inl first)
      · have others : separator ∉ y := fun member => hv (List.mem_cons_of_mem d member)
        exact List.cons_lt_cons_iff.2 (Or.inr ⟨same, ih y rest others⟩)

theorem ofOperation_lt_ofOperation (uuid : String) {s t : UInt64} :
    ofOperation uuid s < ofOperation uuid t ↔ s < t := by
  have form (seq : UInt64) : ofOperation uuid seq =
      (start uuid ++ (operations ++ [separator])) ++ Bytes.ofWord seq := by
    simp [ofOperation, ofEntry, named, Entry.name]
  rw [form, form, Bytes.append_lt_append_left, Bytes.ofWord_lt_ofWord]

end Key

end PatchLedger
