import Mathlib.Data.List.Nodup
import Mathlib.Tactic.Ring
import Fleet.Backend.Ordered

/-!
# Lists inside one ordered map

An ordered map that holds the entries of many lists keeps them apart by their keys alone. Numbers of
eight bytes stand in byte order as they do in size, so a new entry comes last among those of its
list; and of two keys neither of which extends the other by a zero byte, no entry can be of both.
Main statements: `list_push` and `list_trim` say what a push and a trim do to the list they are
about, `list_push_of_apart` and `list_trim_of_apart` that they leave every other list alone.
-/

namespace Fleet

namespace Bytes

/-! ## The order of byte strings -/

/-- The order of byte strings is the order of lists. -/
theorem before_iff_lt {a b : Bytes} : before a b = true ↔ a < b := by
  fun_induction before a b with
  | case1 a => simp
  | case2 b bs => simp
  | case3 as b bs ih => simp [ih]
  | case4 a as b bs h => simp [List.cons_lt_cons_iff, h]

theorem toNat_foldl (bytes : Bytes) (n : Nat) :
    bytes.foldl (fun n b => 256 * n + b.toNat) n = n * 256 ^ bytes.length + toNat bytes := by
  induction bytes generalizing n with
  | nil => simp [toNat]
  | cons b bs ih =>
    simp only [toNat, List.foldl_cons, List.length_cons, ih (256 * n + b.toNat),
      ih (256 * 0 + b.toNat), Nat.pow_succ]
    ring

/-- The first byte is the most significant one. -/
theorem toNat_cons (b : UInt8) (bs : Bytes) :
    toNat (b :: bs) = b.toNat * 256 ^ bs.length + toNat bs := by
  simpa [toNat] using toNat_foldl bs b.toNat

theorem toNat_lt (bytes : Bytes) : toNat bytes < 256 ^ bytes.length := by
  induction bytes with
  | nil => simp [toNat]
  | cons b bs ih =>
    have hb : b.toNat + 1 ≤ 256 := b.toNat_lt
    calc toNat (b :: bs) = b.toNat * 256 ^ bs.length + toNat bs := toNat_cons b bs
      _ < (b.toNat + 1) * 256 ^ bs.length := by rw [Nat.add_mul, Nat.one_mul]; omega
      _ ≤ 256 * 256 ^ bs.length := Nat.mul_le_mul_right _ hb
      _ = 256 ^ (b :: bs).length := by rw [List.length_cons, Nat.pow_succ, Nat.mul_comm]

/-- **Byte strings of one length are ordered as the numbers they denote.** -/
theorem lt_iff_toNat_lt {a b : Bytes} (h : a.length = b.length) : a < b ↔ toNat a < toNat b := by
  induction a generalizing b with
  | nil =>
    obtain rfl : b = [] := List.length_eq_zero_iff.mp h.symm
    simp
  | cons x as ih =>
    obtain _ | ⟨y, bs⟩ := b
    · simp at h
    have hlen : as.length = bs.length := by simpa using h
    have ha := toNat_lt as
    have hb := toNat_lt bs
    rw [List.cons_lt_cons_iff, ih hlen, toNat_cons, toNat_cons, hlen, UInt8.lt_iff_toNat_lt]
    rw [hlen] at ha
    -- Unless the first bytes agree, they decide: the rest is less than one of their units.
    rcases Nat.lt_trichotomy x.toNat y.toNat with hxy | hxy | hxy
    · have : (x.toNat + 1) * 256 ^ bs.length ≤ y.toNat * 256 ^ bs.length :=
        Nat.mul_le_mul_right _ hxy
      rw [Nat.add_mul, Nat.one_mul] at this
      simp only [hxy, true_or, true_iff]
      omega
    · have : x = y := UInt8.toNat_inj.mp hxy
      simp [this]
    · have : (y.toNat + 1) * 256 ^ bs.length ≤ x.toNat * 256 ^ bs.length :=
        Nat.mul_le_mul_right _ hxy
      rw [Nat.add_mul, Nat.one_mul] at this
      have hne : x ≠ y := by rintro rfl; omega
      simp only [Nat.not_lt.mpr hxy.le, hne, false_and, or_self, false_iff]
      omega

@[simp]
theorem length_ofNat64 (n : Nat) : (ofNat64 n).length = 8 := by simp [ofNat64]

/-- Eight bytes keep a 64-bit number. -/
theorem toNat_ofNat64 {n : Nat} (h : n < 2 ^ 64) : toNat (ofNat64 n) = n := by
  simp only [ofNat64, toNat, List.map_cons, List.map_nil, List.foldl_cons, List.foldl_nil,
    UInt8.toNat_ofNat', Nat.shiftRight_eq_div_pow]
  omega

/-- **The order of numbers is kept by their eight bytes.** -/
theorem ofNat64_lt {m n : Nat} (h : m < n) (hn : n < 2 ^ 64) : ofNat64 m < ofNat64 n := by
  rw [lt_iff_toNat_lt (by simp), toNat_ofNat64 hn, toNat_ofNat64 (h.trans hn)]
  exact h

/-- Different texts have different bytes. -/
theorem ofText_injective {s t : String} (h : ofText s = ofText t) : s = t := by
  have := congrArg text? h
  simpa using this

@[simp]
theorem ofText_inj {s t : String} : ofText s = ofText t ↔ s = t :=
  ⟨ofText_injective, fun h => h ▸ rfl⟩

end Bytes

namespace OrderedMap

/-! ## Maps in order -/

/-- The keys rise from entry to entry. -/
def Sorted (es : List (Bytes × Bytes)) : Prop := es.Pairwise fun a b => a.1 < b.1

theorem mem_put {key value : Bytes} {es : List (Bytes × Bytes)} {e : Bytes × Bytes}
    (h : e ∈ put key value es) : e = (key, value) ∨ e ∈ es := by
  fun_induction put key value es with
  | case1 => simpa using h
  | case2 x rest heq => simp only [List.mem_cons] at h ⊢; tauto
  | case3 x rest hne hlt => simpa using h
  | case4 x rest hne hnlt ih => simp only [List.mem_cons] at h ⊢; tauto

/-- **Setting a key keeps the order.** -/
theorem Sorted.put {es : List (Bytes × Bytes)} (h : Sorted es) (key value : Bytes) :
    Sorted (OrderedMap.put key value es) := by
  fun_induction OrderedMap.put key value es with
  | case1 => exact List.pairwise_singleton _ _
  | case2 x rest heq =>
    obtain ⟨hx, hrest⟩ := List.pairwise_cons.mp h
    exact List.pairwise_cons.mpr ⟨fun e he => heq ▸ hx e he, hrest⟩
  | case3 x rest hne hlt =>
    have hlt := Bytes.before_iff_lt.mp hlt
    refine List.pairwise_cons.mpr ⟨fun e he => ?_, h⟩
    rcases List.mem_cons.mp he with rfl | he
    · exact hlt
    · exact List.lt_trans hlt ((List.pairwise_cons.mp h).1 e he)
  | case4 x rest hne hnlt ih =>
    obtain ⟨hx, hrest⟩ := List.pairwise_cons.mp h
    refine List.pairwise_cons.mpr ⟨fun e he => ?_, ih hrest⟩
    rcases mem_put he with rfl | he
    · have hnlt : ¬ key < x.1 := fun hlt => hnlt (Bytes.before_iff_lt.mpr hlt)
      exact Std.lt_of_le_of_ne (List.not_lt.mp hnlt) hne
    · exact hx e he

theorem Sorted.filter {es : List (Bytes × Bytes)} (h : Sorted es) (p : Bytes × Bytes → Bool) :
    Sorted (es.filter p) := List.Pairwise.filter p h

/-- Setting a key changes the look-up of that key and of no other. -/
theorem find?_put (key other value : Bytes) (es : List (Bytes × Bytes)) :
    ((put key value es).find? fun e => e.1 = other).map Prod.snd =
      if key = other then some value
      else (es.find? fun e => e.1 = other).map Prod.snd := by
  fun_induction put key value es with
  | case1 => by_cases h : key = other <;> simp [h]
  | case2 x rest heq =>
    subst heq
    by_cases h : x.1 = other <;> simp [h]
  | case3 x rest hne hlt => by_cases h : key = other <;> simp [h]
  | case4 x rest hne hnlt ih =>
    by_cases hx : x.1 = other
    · subst hx
      simp [Ne.symm hne]
    · simpa [hx] using ih

@[simp]
theorem get?_insert (m : OrderedMap) (key other value : Bytes) :
    (m.insert key value).get? other = if key = other then some value else m.get? other :=
  find?_put key other value m.entries

/-- Removing a key changes the look-up of that key and of no other. -/
@[simp]
theorem get?_erase (m : OrderedMap) (key other : Bytes) :
    (m.erase key).get? other = if key = other then none else m.get? other := by
  simp only [get?, erase, List.find?_filter]
  by_cases h : key = other
  · subst h
    simp
  · rw [if_neg h]
    congr 2
    funext e
    by_cases he : e.1 = other <;> simp [he, Ne.symm h]

/-- A filter that drops the key does not see it set. -/
theorem filter_put_of_neg {key : Bytes} {p : Bytes → Bool} (h : p key = false) (value : Bytes)
    (es : List (Bytes × Bytes)) :
    (put key value es).filter (fun e => p e.1) = es.filter fun e => p e.1 := by
  fun_induction put key value es with
  | case1 => simp [h]
  | case2 x rest heq => simp [heq, h]
  | case3 x rest hne hlt => simp [h]
  | case4 x rest hne hnlt ih => simp [List.filter_cons, ih]

/-- A key above all those that a filter keeps is seen last. -/
theorem filter_put_of_pos {key : Bytes} {p : Bytes → Bool} (h : p key = true) (value : Bytes)
    {es : List (Bytes × Bytes)} (hs : Sorted es) (habove : ∀ e ∈ es, p e.1 = true → e.1 < key) :
    (put key value es).filter (fun e => p e.1) =
      es.filter (fun e => p e.1) ++ [(key, value)] := by
  fun_induction put key value es with
  | case1 => simp [h]
  | case2 x rest heq =>
    exact absurd (habove x (by simp) (heq ▸ h)) (heq ▸ List.lt_irrefl _)
  | case3 x rest hne hlt =>
    have hlt := Bytes.before_iff_lt.mp hlt
    -- Everything from `x` on is above the new key, so the filter drops it.
    have hdrop : (x :: rest).filter (fun e => p e.1) = [] := by
      refine List.filter_eq_nil_iff.mpr fun e he hp => ?_
      have hle : x.1 ≤ e.1 := by
        rcases List.mem_cons.mp he with rfl | hmem
        · exact List.le_refl _
        · exact List.le_of_lt ((List.pairwise_cons.mp hs).1 e hmem)
      exact List.lt_irrefl _ (Std.lt_of_lt_of_le (List.lt_trans (habove e he hp) hlt) hle)
    rw [List.filter_cons_of_pos (by simpa using h), hdrop]
    rfl
  | case4 x rest hne hnlt ih =>
    have ih := ih (List.pairwise_cons.mp hs).2 fun e he => habove e (List.mem_cons_of_mem _ he)
    by_cases hx : p x.1 = true <;> simp [hx, ih]

/-- Removing keys one after another keeps the entries with other keys. -/
theorem foldl_erase (gone : List Bytes) (m : OrderedMap) :
    gone.foldl OrderedMap.erase m = ⟨m.entries.filter fun e => e.1 ∉ gone⟩ := by
  induction gone generalizing m with
  | nil =>
    have hall : m.entries.filter (fun e => e.1 ∉ ([] : List Bytes)) = m.entries :=
      List.filter_eq_self.mpr fun e _ => by simp
    rw [List.foldl_nil, hall]
  | cons key gone ih =>
    rw [List.foldl_cons, ih]
    simp only [erase, List.filter_filter, List.mem_cons, not_or, Bool.decide_and]
    congr 1
    exact List.filter_congr fun e _ => Bool.and_comm _ _

end OrderedMap

namespace Ordered

/-! ## One list among others -/

/-- The values of a list, newest first. -/
def list (o : Ordered) (key : String) : List Bytes := (o.newestFirst key).map Prod.snd

/-- **Two lists that cannot share an entry:** neither key is the other one followed by a zero byte
and more. -/
def Apart (key other : String) : Prop :=
  key ≠ other ∧ ¬ listStart key <+: Bytes.ofText other ∧ ¬ listStart other <+: Bytes.ofText key

instance (key other : String) : Decidable (Apart key other) := by
  unfold Apart
  infer_instance

theorem Apart.symm {key other : String} (h : Apart key other) : Apart other key :=
  ⟨h.1.symm, h.2.2, h.2.1⟩

/-- What ends in a zero byte and starts something that ends in a zero byte is all of it or stands
before that last byte. -/
theorem eq_or_prefix_of_listStart {key other : String} (h : listStart key <+: listStart other) :
    key = other ∨ listStart key <+: Bytes.ofText other := by
  rcases List.prefix_concat_iff.mp h with heq | hlt
  · left
    exact Bytes.ofText_injective (List.append_cancel_right heq)
  · exact .inr hlt

/-- No key of an entry starts as the entries of both lists do. -/
theorem Apart.not_both {key other : String} (h : Apart key other) {k : Bytes}
    (hkey : listStart key <+: k) (hother : listStart other <+: k) : False := by
  rcases List.prefix_or_prefix_of_prefix hkey hother with hp | hp
  · exact (eq_or_prefix_of_listStart hp).elim h.1 h.2.1
  · exact (eq_or_prefix_of_listStart hp).elim h.1.symm h.2.2

/-- Keys without a zero byte are apart as soon as they differ. -/
theorem apart_of_no_zero {key other : String} (hne : key ≠ other) (hkey : 0 ∉ Bytes.ofText key)
    (hother : 0 ∉ Bytes.ofText other) : Apart key other := by
  have hzero : ∀ k : String, 0 ∈ listStart k := by simp [listStart]
  exact ⟨hne, fun h => hother (h.subset (hzero key)), fun h => hkey (h.subset (hzero other))⟩

/-- **The entries of a list are filed under numbers below `bound`,** in a map that is in order. -/
structure Filed (key : String) (bound : Nat) (o : Ordered) : Prop where
  sorted : OrderedMap.Sorted o.lists.entries
  numbered : ∀ e ∈ o.lists.entries, listStart key <+: e.1 →
    ∃ id < bound, e.1 = listStart key ++ Bytes.ofNat64 id

variable {key other : String} {bound : Nat} {o : Ordered}

theorem Filed.mono (h : Filed key bound o) {bound' : Nat} (hle : bound ≤ bound') :
    Filed key bound' o where
  sorted := h.sorted
  numbered e he hp := by
    obtain ⟨id, hid, hkey⟩ := h.numbered e he hp
    exact ⟨id, hid.trans_le hle, hkey⟩

theorem length_list (o : Ordered) (key : String) :
    (o.list key).length = (o.lists.scan (listStart key)).length := by
  simp [list, newestFirst]

/-- The state after a push. -/
def pushed (o : Ordered) (key : String) (value : Bytes) : Ordered :=
  { o with lists := o.lists.insert (listStart key ++ Bytes.ofNat64 o.nextId) value,
           nextId := o.nextId + 1 }

/-- The state after a trim. -/
def trimmed (o : Ordered) (key : String) (keep : Nat) : Ordered :=
  { o with lists := (((o.newestFirst key).drop keep).map Prod.fst).foldl OrderedMap.erase o.lists }

theorem entries_pushed (o : Ordered) (key : String) (value : Bytes) :
    (o.pushed key value).lists.entries =
      OrderedMap.put (listStart key ++ Bytes.ofNat64 o.nextId) value o.lists.entries := rfl

/-- **A push puts the value in front of its list.** -/
theorem list_push (value : Bytes) (h : Filed key bound o) (hbound : bound ≤ o.nextId)
    (hfit : o.nextId < 2 ^ 64) :
    (o.pushed key value).list key = value :: o.list key := by
  have habove : ∀ e ∈ o.lists.entries, (listStart key).isPrefixOf e.1 = true →
      e.1 < listStart key ++ Bytes.ofNat64 o.nextId := by
    intro e he hp
    obtain ⟨id, hid, hkey⟩ := h.numbered e he (List.isPrefixOf_iff_prefix.mp hp)
    rw [hkey]
    exact List.append_left_lt (Bytes.ofNat64_lt (hid.trans_le hbound) hfit)
  have hlast := OrderedMap.filter_put_of_pos
    (p := fun k => (listStart key).isPrefixOf k) (by simp) value h.sorted habove
  simp [list, newestFirst, OrderedMap.scan, entries_pushed, hlast]

/-- **A push leaves the other lists alone.** -/
theorem list_push_of_apart (value : Bytes) (h : Apart key other) :
    (o.pushed other value).list key = o.list key := by
  have hnot : (listStart key).isPrefixOf (listStart other ++ Bytes.ofNat64 o.nextId) = false := by
    refine Bool.eq_false_iff.mpr fun hp => ?_
    exact h.not_both (List.isPrefixOf_iff_prefix.mp hp) (List.prefix_append _ _)
  have hsame := OrderedMap.filter_put_of_neg
    (p := fun k => (listStart key).isPrefixOf k) hnot value o.lists.entries
  simp [list, newestFirst, OrderedMap.scan, entries_pushed, hsame]

/-- **A push keeps lists filed,** its own under one more number. -/
theorem Filed.push (value : Bytes) (h : Filed key bound o) (hbound : bound ≤ o.nextId)
    (hkey : other = key ∨ Apart key other) : Filed key (o.nextId + 1) (o.pushed other value) := by
  refine ⟨h.sorted.put _ _, fun e he hp => ?_⟩
  rcases OrderedMap.mem_put he with rfl | he
  · rcases hkey with rfl | hkey
    · exact ⟨o.nextId, by omega, rfl⟩
    · exact (hkey.not_both hp (List.prefix_append _ _)).elim
  · obtain ⟨id, hid, heq⟩ := h.numbered e he hp
    exact ⟨id, by omega, heq⟩

/-- The keys that a trim removes start as the entries of its list do. -/
theorem prefix_of_gone {keep : Nat} {k : Bytes}
    (h : k ∈ ((o.newestFirst key).drop keep).map Prod.fst) : listStart key <+: k := by
  obtain ⟨e, he, rfl⟩ := List.mem_map.mp h
  have hscan : e ∈ o.lists.scan (listStart key) := List.mem_reverse.mp (List.mem_of_mem_drop he)
  exact List.isPrefixOf_iff_prefix.mp (List.mem_filter.mp hscan).2

/-- What a trim leaves: the entries with keys it does not remove. -/
theorem entries_trimmed (o : Ordered) (key : String) (keep : Nat) :
    (o.trimmed key keep).lists.entries = o.lists.entries.filter fun e =>
      e.1 ∉ ((o.newestFirst key).drop keep).map Prod.fst := by
  simp only [trimmed, OrderedMap.foldl_erase]

/-- Where keys do not repeat, dropping those of the last entries drops the last entries. -/
theorem filter_not_mem_drop {es : List (Bytes × Bytes)} (h : (es.map Prod.fst).Nodup) (n : Nat) :
    es.filter (fun e => e.1 ∉ (es.drop n).map Prod.fst) = es.take n := by
  have hsplit := List.take_append_drop n es
  have hdisjoint : ((es.take n).map Prod.fst).Disjoint ((es.drop n).map Prod.fst) :=
    (List.nodup_append'.mp (by rwa [← List.map_append, hsplit])).2.2
  conv_lhs => arg 2; rw [← hsplit]
  rw [List.filter_append, List.filter_eq_self.mpr, List.filter_eq_nil_iff.mpr, List.append_nil]
  · intro e he
    simpa using List.mem_map_of_mem he
  · intro e he
    simpa using hdisjoint (List.mem_map_of_mem he)

/-- **A trim keeps the newest values of its list.** -/
theorem list_trim (keep : Nat) (h : Filed key bound o) :
    (o.trimmed key keep).list key = (o.list key).take keep := by
  have hnodup : ((o.newestFirst key).map Prod.fst).Nodup := by
    have hsorted : OrderedMap.Sorted (o.lists.scan (listStart key)) := h.sorted.filter _
    rw [newestFirst, List.map_reverse, List.nodup_reverse]
    refine List.pairwise_map.mpr (List.Pairwise.imp (fun hlt heq => ?_) hsorted)
    exact List.lt_irrefl _ (heq ▸ hlt)
  have hkept := filter_not_mem_drop hnodup keep
  have hnewest : (o.trimmed key keep).newestFirst key = (o.newestFirst key).take keep := by
    rw [← hkept]
    conv_lhs => rw [newestFirst, OrderedMap.scan, entries_trimmed, List.filter_filter]
    conv_rhs => arg 2; rw [newestFirst, OrderedMap.scan]
    rw [List.filter_reverse, List.filter_filter]
    simp only [Bool.and_comm]
  rw [list, hnewest, list, List.map_take]

/-- **A trim leaves the other lists alone.** -/
theorem list_trim_of_apart (keep : Nat) (h : Apart key other) :
    (o.trimmed other keep).list key = o.list key := by
  unfold list newestFirst OrderedMap.scan
  rw [entries_trimmed, List.filter_filter]
  congr 2
  refine List.filter_congr fun e _ => ?_
  by_cases hp : (listStart key).isPrefixOf e.1 = true
  · have hstays : e.1 ∉ ((o.newestFirst other).drop keep).map Prod.fst := fun hgone =>
      h.not_both (List.isPrefixOf_iff_prefix.mp hp) (prefix_of_gone hgone)
    simp only [hstays, not_false_eq_true, decide_true, Bool.and_true]
  · simp [hp]

/-- **A trim keeps lists filed.** -/
theorem Filed.trim (keep : Nat) (h : Filed key bound o) :
    Filed key bound (o.trimmed other keep) := by
  refine ⟨?_, fun e he hp => ?_⟩
  · rw [entries_trimmed]
    exact h.sorted.filter _
  · rw [entries_trimmed] at he
    exact h.numbered e (List.mem_filter.mp he).1 hp

/-! ## The requests -/

/-- What a look-up finds, and whether it drops it, depends on what is stored at the key. -/
theorem read_congr {o' : Ordered} (now : Nat)
    (h : o.values.get? (Bytes.ofText key) = o'.values.get? (Bytes.ofText key)) :
    (o.read now key).1 = (o'.read now key).1 ∧
      (o.read now key).2.values.get? (Bytes.ofText key) =
        (o'.read now key).2.values.get? (Bytes.ofText key) := by
  unfold read
  rw [← h]
  split
  · exact ⟨rfl, h⟩
  · split
    · exact ⟨rfl, h⟩
    · dsimp only
      split
      · exact ⟨rfl, by rw [OrderedMap.get?_erase, OrderedMap.get?_erase, if_pos rfl, if_pos rfl]⟩
      · exact ⟨rfl, h⟩

/-- A look-up changes nothing but the value at its key. -/
theorem read_eq (o : Ordered) (now : Nat) (key : String) :
    ∃ values, (o.read now key).2 = { o with values } ∧
      ∀ k, Bytes.ofText key ≠ k → values.get? k = o.values.get? k := by
  unfold read
  split
  · exact ⟨_, rfl, fun _ _ => rfl⟩
  · split
    · exact ⟨_, rfl, fun _ _ => rfl⟩
    · dsimp only
      split
      · exact ⟨_, rfl, fun k hk => by rw [OrderedMap.get?_erase, if_neg hk]⟩
      · exact ⟨_, rfl, fun _ _ => rfl⟩

theorem serve_pushFront (o : Ordered) (now : Nat) (key : String) (value : Bytes) :
    o.serve now (.pushFront key value) =
      (.ok ((o.pushed key value).list key).length, o.pushed key value) := by
  rw [length_list]
  rfl

theorem serve_range (o : Ordered) (now : Nat) (key : String) (count : Nat) :
    o.serve now (.range key count) = (.ok ((o.list key).take count), o) := by
  rw [list, ← List.map_take]
  rfl

theorem serve_trim (o : Ordered) (now : Nat) (key : String) (keep : Nat) :
    o.serve now (.trim key keep) = (.ok ((o.list key).length - keep), o.trimmed key keep) := by
  have hgone : (((o.newestFirst key).drop keep).map Prod.fst).length =
      (o.list key).length - keep := by simp [list]
  rw [← hgone]
  rfl

end Ordered

end Fleet
