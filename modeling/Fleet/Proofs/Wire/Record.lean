import Fleet.Json.Record
import Fleet.Proofs.Json.RoundTrip

/-!
# Written structures are read back

What is written is read back through JSON without loss, so reading back a structure is reading back
its fields.  Main statements: `read?_write` takes the bytes away, and `fields?_record` finds the
fields of a written structure again, whichever of them are absent.
-/

namespace Fleet
namespace Wire

/-- **Reading back what was written,** possibly as another type, is a matter of values only. -/
theorem read?_write {α β : Type} [Wire α] [Wire β] (a : α) :
    (read? (write a) : Option β) = ofJson? (toJson a) := by
  rw [read?, write, Json.read?_bytes, Option.bind_some]

/-! ## Fields -/

/-- The fields of a structure that are written. -/
def present (fields : List (String × Option Json)) : List (Option String × Json) :=
  fields.filterMap fun f => f.2.map (some f.1, ·)

theorem filter_present (fields : List (String × Option Json)) (name : String) :
    ((present fields).filter fun f => f.1 = some name) =
      present (fields.filter fun f => f.1 = name) := by
  induction fields with
  | nil => rfl
  | cons f fields ih =>
    obtain ⟨key, value⟩ := f
    cases value with
    | none =>
      rw [show present ((key, none) :: fields) = present fields from rfl, ih]
      by_cases h : key = name
      · simp [h, present]
      · simp [h]
    | some j =>
      rw [show present ((key, some j) :: fields) = (some key, j) :: present fields from rfl]
      by_cases h : key = name
      · simp only [h, List.filter_cons, decide_true, if_true, ih]
        rfl
      · simp [h, ih]

theorem filter_name {fields : List (String × Option Json)}
    (distinct : (fields.map Prod.fst).Nodup) {f : String × Option Json} (hf : f ∈ fields) :
    (fields.filter fun g => g.1 = f.1) = [f] := by
  induction fields with
  | nil => cases hf
  | cons g fields ih =>
    rw [List.map_cons, List.nodup_cons] at distinct
    rcases List.mem_cons.mp hf with rfl | hmem
    · have hrest : (fields.filter fun g => g.1 = f.1) = [] :=
        List.filter_eq_nil_iff.mpr fun g hg h =>
          distinct.1 (List.mem_map.mpr ⟨g, hg, of_decide_eq_true h⟩)
      simp [hrest]
    · have hne : g.1 ≠ f.1 := fun h => distinct.1 (List.mem_map.mpr ⟨f, hmem, h.symm⟩)
      rw [List.filter_cons_of_neg (by simp [hne]), ih distinct.2 hmem]

/-- A field is found under its name, also if it is absent. -/
theorem field?_present {fields : List (String × Option Json)}
    (distinct : (fields.map Prod.fst).Nodup) {f : String × Option Json} (hf : f ∈ fields) :
    field? (present fields) f.1 = some f.2 := by
  obtain ⟨name, value⟩ := f
  rw [field?, filter_present, filter_name distinct hf]
  cases value <;> rfl

theorem mapM_field? (present : List (Option String × Json)) (fields : List (String × Option Json))
    (h : ∀ f ∈ fields, field? present f.1 = some f.2) :
    (fields.map Prod.fst).mapM (field? present) = some (fields.map Prod.snd) := by
  induction fields with
  | nil => rfl
  | cons f fields ih =>
    rw [List.map_cons, List.mapM_cons, h f List.mem_cons_self,
      ih fun g hg => h g (List.mem_cons_of_mem f hg)]
    rfl

/-- **The fields of a written structure are found again,** the absent ones as absent. -/
theorem fields?_record (fields : List (String × Option Json))
    (distinct : (fields.map Prod.fst).Nodup) :
    fields? (fields.map Prod.fst) (.record fields) = some (fields.map Prod.snd) := by
  have hkeys : (present fields).all (fun f => f.1.isSome) = true := by
    rw [List.all_eq_true]
    intro f hf
    obtain ⟨g, -, hg⟩ := List.mem_filterMap.mp hf
    obtain ⟨j, -, rfl⟩ := Option.map_eq_some_iff.mp hg
    rfl
  show (if (present fields).all (fun f => f.1.isSome) then
    (fields.map Prod.fst).mapM (field? (present fields)) else none) = _
  rw [if_pos hkeys]
  exact mapM_field? (present fields) fields fun f hf => field?_present distinct hf

/-! ## Integers -/

theorem int?_ofInt (i : Int) : (Numeral.ofInt i).int? = some i := by
  by_cases h : i < 0
  · have hne : i.natAbs ≠ 0 := by omega
    simp only [Numeral.ofInt, Numeral.int?, h, hne, decide_true, List.isEmpty_nil,
      Option.isNone_none, Bool.and_self, if_true, if_false]
    congr 1
    omega
  · simp only [Numeral.ofInt, Numeral.int?, h, decide_false, List.isEmpty_nil,
      Option.isNone_none, Bool.and_self, if_true, Bool.false_eq_true, if_false]
    congr 1
    omega

/-- An integer within the range of its type is read back. -/
theorem intIn?_int {low high i : Int} (hlow : low ≤ i) (hhigh : i ≤ high) :
    intIn? low high (.int i) = some i := by
  show ((Numeral.ofInt i).int?.filter fun i => decide (low ≤ i) && decide (i ≤ high)) = some i
  rw [int?_ofInt, Option.filter_some, if_pos (by simp [hlow, hhigh])]

@[simp]
theorem ofJson?_toJson_int64 (i : Int64) : (ofJson? (toJson i) : Option Int64) = some i := by
  show (intIn? Int64.minValue.toInt Int64.maxValue.toInt (.int i.toInt)).map Int64.ofInt = some i
  rw [intIn?_int (Int64.minValue_le_toInt i) (Int64.toInt_le i), Option.map_some,
    Int64.ofInt_toInt]

@[simp]
theorem ofJson?_toJson_uint64 (n : UInt64) : (ofJson? (toJson n) : Option UInt64) = some n := by
  show (intIn? 0 (2 ^ 64 - 1) (.int n.toNat)).map (fun i => UInt64.ofNat i.toNat) = some n
  have hn : n.toNat < 2 ^ 64 := n.toNat_lt
  rw [intIn?_int (by omega) (by omega), Option.map_some, Int.toNat_natCast, UInt64.ofNat_toNat]

/-- A count is read back if it fits 64 bits. -/
theorem ofJson?_toJson_nat {n : Nat} (hn : n < 2 ^ 64) :
    (ofJson? (toJson n) : Option Nat) = some n := by
  show (intIn? 0 (2 ^ 64 - 1) (.int n)).map Int.toNat = some n
  rw [intIn?_int (by omega) (by omega), Option.map_some, Int.toNat_natCast]

@[simp]
theorem ofJson?_toJson_string (s : String) : (ofJson? (toJson s) : Option String) = some s := rfl

end Wire
end Fleet
