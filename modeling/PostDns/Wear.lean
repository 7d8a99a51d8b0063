/-
What removals leave in the counts (hash_table.c).

A removal takes an entry and leaves the count as it is, and only an insertion compares the
count with the threshold.  So the count of a table remembers every entry that was removed,
and the array grows as if they were all still there.
-/

import PostDns.Growth

namespace PostDns

open Foundation

variable {α : Type}

/-! ### Removals -/

structure SameSizes (t t' : HashTable α) : Prop where
  count : t'.count = t.count
  capacity : t'.capacity = t.capacity
  threshold : t'.threshold = t.threshold

theorem SameSizes.refl (t : HashTable α) : SameSizes t t :=
  { count := rfl
    capacity := rfl
    threshold := rfl }

theorem SameSizes.trans {first second third : HashTable α} (left : SameSizes first second)
    (right : SameSizes second third) : SameSizes first third :=
  { count := right.count.trans left.count
    capacity := right.capacity.trans left.capacity
    threshold := right.threshold.trans left.threshold }

theorem sameSizes_write (t : HashTable α) (ref : NodeRef) (node : HashNode α) :
    SameSizes t (t.write ref node) :=
  { count := write_count t ref node
    capacity := write_capacity t ref node
    threshold := write_threshold t ref node }

theorem sameSizes_free {t t' : HashTable α} {place : Option Nat}
    (done : t.free place = .ok t') : SameSizes t t' := by
  cases place with
  | none =>
      cases done
      exact SameSizes.refl t
  | some address =>
      rw [HashTable.free] at done
      cases hCell : t.cells.read address with
      | none =>
          simp only [hCell] at done
          cases done
      | some node =>
          simp only [hCell] at done
          cases done
          exact ⟨rfl, rfl, rfl⟩

theorem sameSizes_unlinkNode {t t' : HashTable α} {last : Option NodeRef} {ref : NodeRef}
    {node : HashNode α} (done : unlinkNode t last ref node = .ok t') : SameSizes t t' := by
  cases last with
  | none =>
      rw [unlinkNode] at done
      cases hNext : node.next with
      | none =>
          simp only [hNext] at done
          cases done
          exact sameSizes_write t ref _
      | some second =>
          simp only [hNext] at done
          obtain ⟨next, _, freeing⟩ := except_bind_eq_ok.mp done
          exact (sameSizes_write t ref _).trans (sameSizes_free freeing)
  | some last =>
      obtain ⟨before, _, unlinking⟩ := except_bind_eq_ok.mp done
      cases ref with
      | head index => cases unlinking
      | chain address =>
          exact (sameSizes_write t last _).trans (sameSizes_free unlinking)

theorem sameSizes_removeLoop {t t' : HashTable α} {name : StringT} {fuel : Nat}
    {last start : Option NodeRef} (done : removeLoop t name fuel last start = .ok t') :
    SameSizes t t' := by
  induction fuel generalizing last start with
  | zero => cases done
  | succ fuel ih =>
      cases start with
      | none => cases done
      | some ref =>
          obtain ⟨node, _, looking⟩ := except_bind_eq_ok.mp done
          cases hName : node.name with
          | none =>
              simp only [hName] at looking
              cases looking
              exact SameSizes.refl t
          | some other =>
              simp only [hName] at looking
              by_cases isName : stringEqual other name = true
              · rw [if_pos isName] at looking
                exact sameSizes_unlinkNode looking
              · rw [if_neg isName] at looking
                exact ih looking

theorem hashTableRemove_sizes {t t' : HashTable α} {name : StringT}
    (done : hashTableRemove t name = .ok t') : SameSizes t t' :=
  sameSizes_removeLoop done

/-! ### The threshold -/

theorem loadThreshold_mono {capacity larger : Nat} (below : capacity ≤ larger) :
    loadThreshold capacity ≤ loadThreshold larger := by
  apply Nat.div_le_div_right
  apply Rounding.nearest_mono (Nat.succ_pos 23)
  exact Nat.mul_le_mul_left 3 (Rounding.nearest_mono (Nat.succ_pos 23) below)

theorem le_loadThreshold {capacity : Nat} (large : 8 ≤ capacity) :
    6 ≤ loadThreshold capacity := by
  have smallest : loadThreshold 8 = 6 := by decide
  rw [← smallest]
  exact loadThreshold_mono large

/-- A threshold grows with its table. -/
theorem loadThreshold_grown (capacity : Nat) :
    2 * loadThreshold capacity ≤ loadThreshold (capacity * 2 + 1) := by
  have doubled : loadThreshold (2 * capacity) =
      2 * Rounding.nearest 24 (3 * Rounding.nearest 24 capacity) / 4 := by
    rw [loadThreshold, Rounding.nearest_double, Nat.mul_left_comm, Rounding.nearest_double]
  have more : loadThreshold (2 * capacity) ≤ loadThreshold (capacity * 2 + 1) :=
    loadThreshold_mono (by omega)
  rw [doubled] at more
  unfold loadThreshold at more ⊢
  omega

/-! ### The invariant -/

/-- The count covers every removal and every stored name, and the array is as large as the
count needs; right after a resize the count may be past the new threshold. -/
structure Worn (removals : Nat) (t : HashTable α) : Prop where
  counted : removals + (storedNames t).length ≤ t.count
  threshold : t.threshold = loadThreshold t.capacity
  capacity : 8 ≤ t.capacity
  grown : t.count ≤ t.threshold ∨
    t.count ≤ t.threshold + 2 ∧ 2 * (storedNames t).length ≤ t.count

theorem worn_new (choices : List Nat) : Worn 0 (hashTableNew choices : HashTable α) := by
  have none : storedNames (hashTableNew choices : HashTable α) = [] := rfl
  constructor
  · rw [none]
    exact Nat.le_refl 0
  · rfl
  · exact Nat.le_refl 8
  · exact Or.inl (Nat.zero_le _)

theorem Worn.removals_le {removals : Nat} {t : HashTable α} (worn : Worn removals t) :
    removals + (storedNames t).length ≤ loadThreshold t.capacity + 2 := by
  obtain ⟨counted, threshold, _, grown⟩ := worn
  rw [← threshold]
  omega

theorem Worn.congr {removals : Nat} {t t' : HashTable α} (worn : Worn removals t)
    (sizes : SameSizes t t') (length : (storedNames t').length = (storedNames t).length) :
    Worn removals t' := by
  obtain ⟨counted, threshold, capacity, grown⟩ := worn
  obtain ⟨sameCount, sameCapacity, sameThreshold⟩ := sizes
  constructor
  · omega
  · rw [sameThreshold, sameCapacity, threshold]
  · omega
  · omega

theorem resize_threshold {t t' : HashTable α} {map : StringT → Option α} (isMap : IsMap t map)
    (done : resize t = .ok t') : t'.threshold = loadThreshold t'.capacity := by
  obtain ⟨contents, laid, _⟩ := isMap
  obtain ⟨resized, _, run, _, _, threshold, _⟩ := resize_laid laid
  rw [run] at done
  cases done
  exact threshold

/-- A new name is counted, and a rehash doubles the array before the count can. -/
theorem Worn.put {removals : Nat} {t : HashTable α} {map : StringT → Option α}
    (worn : Worn removals t) (isMap : IsMap t map) (name : StringT) (data : α) :
    ∃ t', hashTablePut t (some name) (some data) = .ok t' ∧ Worn removals t' := by
  cases hStored : map name with
  | some old =>
      obtain ⟨t', put, isMap', count, capacity, threshold⟩ :=
        hashTablePut_stored isMap hStored data
      refine ⟨t', put, worn.congr ⟨count, capacity, threshold⟩ ?_⟩
      apply storedNames_length_congr isMap isMap'
      intro other
      by_cases same : other = name
      · rw [same, Function.update_self, hStored]
        rfl
      · rw [Function.update_of_ne same]
  | none =>
      obtain ⟨t₁, isMap₁, count, capacity, threshold, put⟩ :=
        hashTablePut_new isMap hStored data
      have length := storedNames_length_insert isMap isMap₁ hStored
        (by rw [Function.update_self]; rfl)
        (fun other different => Function.update_of_ne different _ _)
      obtain ⟨counted, isThreshold, large, grown⟩ := worn
      rw [put]
      by_cases full : t₁.threshold < t₁.count
      · obtain ⟨t', run, isMap', capacity', count'⟩ := resize_isMap isMap₁
        have threshold' := resize_threshold isMap₁ run
        have length' := storedNames_length_congr isMap₁ isMap' fun _ => rfl
        rw [if_pos full]
        refine ⟨t', run, ?_⟩
        rw [Nat.shiftLeft_eq, Nat.pow_one] at capacity'
        have atLeast := le_loadThreshold large
        have atMost := loadThreshold_grown t.capacity
        rw [← isThreshold] at atLeast atMost
        rw [← capacity, ← capacity', ← threshold'] at atMost
        constructor
        · omega
        · exact threshold'
        · omega
        · omega
      · rw [if_neg full]
        refine ⟨t₁, rfl, ?_⟩
        constructor
        · omega
        · rw [threshold, capacity, isThreshold]
        · omega
        · omega

/-- A removal is one more that the count remembers. -/
theorem Worn.remove {removals : Nat} {t t' : HashTable α} {map : StringT → Option α}
    (worn : Worn removals t) (isMap : IsMap t map) {name : StringT} {data : α}
    (get : hashTableGet t name = .ok (some data)) (safe : ¬ HeadOfLongChain t name)
    (done : hashTableRemove t name = .ok t') : Worn (removals + 1) t' := by
  have stored : map name = some data :=
    Except.ok.inj ((hashTableGet_isMap isMap name).symm.trans get)
  have length := storedNames_length_insert (hashTableRemove_of_ok isMap safe done) isMap
    (Function.update_self _ _ _) (by rw [stored]; rfl)
    fun other different => (Function.update_of_ne different _ _).symm
  obtain ⟨counted, threshold, capacity, grown⟩ := worn
  obtain ⟨sameCount, sameCapacity, sameThreshold⟩ := hashTableRemove_sizes done
  constructor
  · omega
  · rw [sameThreshold, sameCapacity, threshold]
  · omega
  · omega

end PostDns
