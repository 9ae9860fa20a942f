import Fleet.Json.Reader
import Fleet.Proofs.Json.Token

/-!
# Written values are read back

The reader takes the tokens of a written value one by one and ends with that value on top of what
was open before (`run_onto`).  The induction follows the value: the items of an array and the
fields of an object are read into the innermost open container.  Main statement: `read?_bytes`.
-/

namespace Fleet
namespace Json

/-- **A token that is due takes the reader on.** -/
theorem run_reads {maxDepth : Option Nat} {r next : Reader} {bs rest : Bytes} {t : Token}
    (hreads : Reads bs t rest) (hstep : r.step maxDepth t = some next) :
    r.run maxDepth bs = next.run maxDepth rest := by
  obtain ⟨b, tail, rfl, hblank, hnext⟩ := hreads
  have hdrop : (b :: tail).dropWhile isBlank = b :: tail :=
    List.dropWhile_cons_of_neg (by simp [hblank])
  rw [Reader.run.eq_def]
  split
  · rename_i hnil
    rw [hdrop] at hnil
    cases hnil
  · rename_i c cs hcons
    rw [hdrop] at hcons
    obtain ⟨rfl, rfl⟩ := List.cons.inj hcons
    split
    · rename_i hnone
      rw [hnext] at hnone
      cases hnone
    · rename_i u after hsome
      rw [hnext] at hsome
      obtain ⟨rfl, rfl⟩ := Prod.mk.inj (Option.some.inj hsome)
      rw [hstep]

/-- The reader takes the start of a value into the given containers. -/
def Awaits (r : Reader) (frames : List Frame) : Prop :=
  ∀ t, t ≠ .closeArray → r.step none t = Reader.startValue none frames t

theorem awaits_value (frames : List Frame) : Awaits (.value frames) frames := fun _ _ => rfl

theorem awaits_firstItem (frames : List Frame) :
    Awaits (.firstItem frames) (.array [] :: frames) := by
  intro t ht
  cases t with
  | closeArray => exact absurd rfl ht
  | _ => rfl

/-- The reader takes a key into the given object. -/
def AwaitsKey (r : Reader) (fields : List (Option String × Json)) (frames : List Frame) : Prop :=
  ∀ k, r.step none (.text k) = some (.colon fields k frames)

theorem awaitsKey_firstKey (frames : List Frame) : AwaitsKey (.firstKey frames) [] frames :=
  fun _ => rfl

theorem awaitsKey_key (fields : List (Option String × Json)) (frames : List Frame) :
    AwaitsKey (.key fields frames) fields frames := fun _ => rfl

mutual

/-- **A written value is read onto the open containers.** -/
theorem run_onto (j : Json) {r : Reader} {frames : List Frame} {rest : Bytes}
    (hr : Awaits r frames) (hrest : EndsNumber rest) :
    r.run none (j.onto rest) = (Reader.put j frames).run none rest := by
  match j with
  | .null => exact run_reads (reads_null rest) (hr _ (by simp))
  | .bool true => exact run_reads (reads_true rest) (hr _ (by simp))
  | .bool false => exact run_reads (reads_false rest) (hr _ (by simp))
  | .number n => exact run_reads (reads_numeral n hrest) (hr _ (by simp))
  | .text s => exact run_reads (reads_text s rest) (hr _ (by simp))
  | .array items =>
    show r.run none (ascii '[' :: itemsOnto items (ascii ']' :: rest)) = _
    rw [run_reads (reads_punctuation rfl _) (hr .openArray (by simp))]
    -- an empty array is closed where its first item could start
    by_cases hitems : items = []
    · rw [hitems]
      exact run_reads (reads_punctuation rfl rest) rfl
    · exact run_itemsOnto items hitems (awaits_firstItem frames) rest
  | .object fields =>
    show r.run none (ascii '\x7b' :: fieldsOnto fields (ascii '\x7d' :: rest)) = _
    rw [run_reads (reads_punctuation rfl _) (hr .openObject (by simp))]
    by_cases hfields : fields = []
    · rw [hfields]
      exact run_reads (reads_punctuation rfl rest) rfl
    · exact run_fieldsOnto fields hfields (awaitsKey_firstKey frames) rest

/-- Written items are read into the open array, which is then complete. -/
theorem run_itemsOnto (items : List Json) (hitems : items ≠ []) {r : Reader} {done : List Json}
    {frames : List Frame} (hr : Awaits r (.array done :: frames)) (rest : Bytes) :
    r.run none (itemsOnto items (ascii ']' :: rest)) =
      (Reader.put (.array (done.reverse ++ items)) frames).run none rest := by
  match items with
  | [] => exact absurd rfl hitems
  | [item] =>
    show r.run none (item.onto (ascii ']' :: rest)) = _
    rw [run_onto item hr (endsNumber_punctuation rfl rest), ← List.reverse_cons]
    exact run_reads (reads_punctuation rfl rest) rfl
  | item :: next :: items =>
    show r.run none (item.onto (ascii ',' :: itemsOnto (next :: items) (ascii ']' :: rest))) = _
    rw [run_onto item hr (endsNumber_punctuation rfl _)]
    show (Reader.afterItem (item :: done) frames).run none _ = _
    rw [run_reads (reads_punctuation rfl _) rfl,
      run_itemsOnto (next :: items) (by simp) (awaits_value (.array (item :: done) :: frames)) rest,
      List.reverse_cons, List.append_assoc]
    rfl

/-- Written fields are read into the open object, which is then complete. -/
theorem run_fieldsOnto (fields : List (Option String × Json)) (hfields : fields ≠ [])
    {r : Reader} {done : List (Option String × Json)} {frames : List Frame}
    (hr : AwaitsKey r done frames) (rest : Bytes) :
    r.run none (fieldsOnto fields (ascii '\x7d' :: rest)) =
      (Reader.put (.object (done.reverse ++ fields)) frames).run none rest := by
  match fields with
  | [] => exact absurd rfl hfields
  | [(key, value)] =>
    show r.run none (textOnto key (ascii ':' :: value.onto (ascii '\x7d' :: rest))) = _
    rw [run_reads (reads_text key _) (hr key), run_reads (reads_punctuation rfl _) rfl,
      run_onto value (awaits_value _) (endsNumber_punctuation rfl rest), ← List.reverse_cons]
    exact run_reads (reads_punctuation rfl rest) rfl
  | (key, value) :: next :: fields =>
    show r.run none (textOnto key (ascii ':' :: value.onto
      (ascii ',' :: fieldsOnto (next :: fields) (ascii '\x7d' :: rest)))) = _
    rw [run_reads (reads_text key _) (hr key), run_reads (reads_punctuation rfl _) rfl,
      run_onto value (awaits_value _) (endsNumber_punctuation rfl _)]
    show (Reader.afterField ((key, value) :: done) frames).run none _ = _
    rw [run_reads (reads_punctuation rfl _) rfl,
      run_fieldsOnto (next :: fields) (by simp) (awaitsKey_key ((key, value) :: done) frames) rest,
      List.reverse_cons, List.append_assoc]
    rfl

end

/-- **What is written is read back,** every numeral digit by digit and every text character by
character. -/
theorem read?_bytes (j : Json) : read? j.bytes = some j := by
  rw [read?, bytes, run_onto j (awaits_value []) endsNumber_nil]
  show (Reader.done j).run none [] = some j
  rw [Reader.run.eq_def]
  rfl

end Json
end Fleet
