import PatchLedger.Proofs.Key

/-!
The keys of a patch as a range of the byte order: what lies between two of them is
one of them (`uuid?_of_between`), and the ranges of two patches lie as their uuids
do. With the way back from a key to what it names, all that is gathered from a tree
in one pass rests on this (`layout_exact`).
-/

namespace PatchLedger

namespace Bytes

theorem isPrefix_of_between {start a b c : Bytes} (low : a ≤ b) (high : b ≤ c)
    (first : start <+: a) (last : start <+: c) : start <+: b := by
  induction start generalizing a b c with
  | nil => exact List.nil_prefix
  | cons d start ih =>
    obtain ⟨x, rfl⟩ := first
    obtain ⟨z, rfl⟩ := last
    cases b with
    | nil => exact absurd low (List.not_le.2 (List.nil_lt_cons _ _))
    | cons e b =>
      -- the byte between two equal ones is the same
      rcases List.cons_le_cons_iff.1 low with above | ⟨rfl, lowRest⟩
      · rcases List.cons_le_cons_iff.1 high with below | ⟨rfl, -⟩
        · exact absurd below (UInt8.lt_asymm above)
        · exact absurd above (UInt8.lt_irrefl e)
      · rcases List.cons_le_cons_iff.1 high with below | ⟨-, highRest⟩
        · exact absurd below (UInt8.lt_irrefl d)
        · exact List.cons_prefix_cons.2
            ⟨rfl, ih lowRest highRest (List.prefix_append start x) (List.prefix_append start z)⟩

end Bytes

namespace Key

def uuid? (key : Bytes) : Option String := (parse? key).map Prod.fst

theorem uuid?_eq_some_iff {key : Bytes} {uuid : String} :
    uuid? key = some uuid ↔ Separable uuid ∧ start uuid <+: key := by
  constructor
  · intro h
    obtain ⟨⟨u, entry⟩, parsed, same⟩ := Option.map_eq_some_iff.1 h
    cases same
    exact ⟨(eq_named_of_parse? parsed).1, start_prefix_of_parse? parsed⟩
  · intro ⟨separable, first⟩
    obtain ⟨entry, parsed⟩ := parse?_of_start_prefix separable first
    rw [uuid?, parsed, Option.map_some]

theorem uuid?_le_uuid? {key other : Bytes} {u v : String} (less : key < other)
    (hu : uuid? key = some u) (hv : uuid? other = some v) : ¬ Bytes.ofText v < Bytes.ofText u := by
  intro swapped
  obtain ⟨separable, a, rfl⟩ := uuid?_eq_some_iff.1 hu
  obtain ⟨-, b, rfl⟩ := uuid?_eq_some_iff.1 hv
  exact List.lt_asymm less (named_lt_named separable swapped b a)

theorem validUuid_iff {uuid : String} : validUuid uuid ↔ uuid ≠ "" ∧ Separable uuid := by
  simp [validUuid, Separable]

theorem uuid?_of_between {k l m : Bytes} {uuid : String} (low : k ≤ l) (high : l ≤ m)
    (first : uuid? k = some uuid) (last : uuid? m = some uuid) : uuid? l = some uuid := by
  obtain ⟨separable, first⟩ := uuid?_eq_some_iff.1 first
  obtain ⟨-, last⟩ := uuid?_eq_some_iff.1 last
  exact uuid?_eq_some_iff.2 ⟨separable, Bytes.isPrefix_of_between low high first last⟩

section Pair

variable {u v : String} (hu : Separable u) (hv : Separable v)

include hu hv

theorem eq_of_ofEntry_eq {d e : Entry} (same : ofEntry u d = ofEntry v e) : u = v ∧ d = e := by
  have read := parse?_ofEntry hu d
  rw [same, parse?_ofEntry hv e] at read
  obtain ⟨uuid, entry⟩ := Prod.mk.inj (Option.some.inj read)
  exact ⟨uuid.symm, (Option.some.inj entry).symm⟩

theorem forall_lt_iff : (∀ k l, uuid? k = some u → uuid? l = some v → k < l) ↔
    Bytes.ofText u < Bytes.ofText v := by
  constructor
  · intro all
    have less : start u < start v :=
      all _ _ (uuid?_eq_some_iff.2 ⟨hu, List.prefix_rfl⟩) (uuid?_eq_some_iff.2 ⟨hv, List.prefix_rfl⟩)
    rcases Std.lt_trichotomy (Bytes.ofText u) (Bytes.ofText v) with below | same | above
    · exact below
    · rw [Bytes.ofText_injective same] at less
      exact absurd less (List.lt_irrefl _)
    · have other : named v [] < named u [] := named_lt_named hu above [] []
      simp only [named, List.append_nil] at other
      exact absurd less (List.lt_asymm other)
  · intro less k l first second
    obtain ⟨-, a, rfl⟩ := uuid?_eq_some_iff.1 first
    obtain ⟨-, b, rfl⟩ := uuid?_eq_some_iff.1 second
    exact named_lt_named hv less a b

end Pair

/-- A key codes a uuid and a record. A valid uuid is read back with the record, and nothing else is
read as a record but what is written for it. The keys of a patch lie together, those of a smaller
uuid before them, and its operations stand in the order of their numbers. Of the uuids without a
separator all but the empty one are valid. -/
theorem layout_exact :
    (∀ uuid, validUuid uuid ↔ uuid ≠ "" ∧ Separable uuid) ∧
      (∀ uuid, validUuid uuid →
        (∀ seq, parse? (ofOperation uuid seq) = some (uuid, some (.operation seq))) ∧
          parse? (named uuid (Bytes.ofText "stamp")) = some (uuid, some .stamp) ∧
          parse? (named uuid (Bytes.ofText "patchError")) = some (uuid, some .error) ∧
          parse? (named uuid (Bytes.ofText "source")) = some (uuid, some .source)) ∧
      (∀ key uuid entry, parse? key = some (uuid, some entry) ↔
        Separable uuid ∧ key = ofEntry uuid entry) ∧
      (∀ u v d e, Separable u → Separable v → ofEntry u d = ofEntry v e → u = v ∧ d = e) ∧
      (∀ k l m uuid, k ≤ l → l ≤ m → uuid? k = some uuid → uuid? m = some uuid →
        uuid? l = some uuid) ∧
      (∀ u v, validUuid u → validUuid v →
        ((∀ k l, uuid? k = some u → uuid? l = some v → k < l) ↔ Bytes.ofText u < Bytes.ofText v)) ∧
      ∀ uuid s t, ofOperation uuid s < ofOperation uuid t ↔ s < t := by
  refine ⟨fun uuid => validUuid_iff, fun uuid valid => ?_, fun key uuid entry => parse?_eq_some_iff,
    fun u v d e hu hv => eq_of_ofEntry_eq hu hv, fun k l m uuid => uuid?_of_between,
    fun u v hu hv => forall_lt_iff (separable_of_validUuid hu) (separable_of_validUuid hv),
    fun uuid s t => ofOperation_lt_ofOperation uuid⟩
  have read := parse?_ofEntry (separable_of_validUuid valid)
  exact ⟨fun seq => read (.operation seq), read .stamp, read .error, read .source⟩

theorem layout_exact_neighbours :
    let seq : UInt64 := 0x007374616D700000
    (parse? (ofOperation "a" seq) = some ("a", some (.operation seq)) ∧
        parse? (named "a" (Bytes.ofText "stamp")) = some ("a", some .stamp)) ∧
      ofEntry "ab" .stamp ≠ ofEntry "a" (.operation seq) ∧
      uuid? (named "a" (Bytes.ofText "query")) = some "a" ∧
      (∀ k l, uuid? k = some "a" → uuid? l = some "ab" → k < l) ∧
      ofOperation "ab" 255 < ofOperation "ab" 256 := by
  intro seq
  obtain ⟨-, read, -, apart, range, order, numbers⟩ := layout_exact
  have first : validUuid "a" := by decide
  have second : validUuid "ab" := by decide
  obtain ⟨operation, stamp, error, source⟩ := read "a" first
  have low : named "a" (Bytes.ofText "patchError") ≤ named "a" (Bytes.ofText "query") := by decide
  have high : named "a" (Bytes.ofText "query") ≤ named "a" (Bytes.ofText "source") := by decide
  refine ⟨⟨operation seq, stamp⟩, fun same => ?_,
    range _ _ _ "a" low high (by rw [uuid?, error]; rfl) (by rw [uuid?, source]; rfl),
    (order "a" "ab" first second).2 (by decide), (numbers "ab" 255 256).2 (by decide)⟩
  have uuid := (apart _ _ _ _ (separable_of_validUuid second) (separable_of_validUuid first) same).1
  exact absurd uuid (by decide)

end Key

end PatchLedger
