/-
What the caches hold.

Each operation on a cache is the operation on a finite map that its name says.  The
two address caches differ in one point: only the first one leaves entries alone that
are marked as kept by hand.
-/

import PostDns.Caches
import PostDns.HashTableSemantics

namespace PostDns

variable {α : Type} {t : HashTable α} {map : StringT → Option α}

theorem writeThrough_eq_put {name : StringT} {ref : NodeRef} (data : α)
    (found : findNode t name t.chainBound (some (.head (bucketIndex name t.capacity))) =
      .ok (some ref)) :
    writeThrough t name data = hashTablePut t (some name) (some data) := by
  rw [hashTablePut_some, writeThrough, found]
  rfl

/-- An assignment that returns is an insertion. -/
theorem put_of_writeThrough {t' : HashTable α} {name : StringT} {data : α}
    (done : writeThrough t name data = .ok t') :
    hashTablePut t (some name) (some data) = .ok t' := by
  obtain ⟨found, searched, writing⟩ := Foundation.except_bind_eq_ok.mp done
  cases found with
  | none => cases writing
  | some ref =>
      rw [← writeThrough_eq_put data searched]
      exact done

theorem writeThrough_of_get {name : StringT} {old : α}
    (found : hashTableGet t name = .ok (some old)) (data : α) :
    ∃ t', writeThrough t name data = .ok t' := by
  obtain ⟨place, searched, looked⟩ := Foundation.except_bind_eq_ok.mp found
  cases place with
  | none => cases looked
  | some ref =>
      obtain ⟨node, readable, _⟩ := Foundation.except_bind_eq_ok.mp looked
      refine ⟨t.write ref { node with data := some data }, ?_⟩
      rw [writeThrough, searched]
      change (t.read ref >>= _) = _
      rw [readable]
      rfl

theorem writeThrough_isMap (isMap : IsMap t map) {name : StringT} {old : α}
    (stored : map name = some old) (data : α) :
    ∃ t', writeThrough t name data = .ok t' ∧
      IsMap t' (Function.update map name (some data)) := by
  obtain ⟨t', put, isMap'⟩ := hashTablePut_isMap isMap name data
  obtain ⟨contents, laid, means⟩ := isMap
  have search := findNode_laid laid name
  cases hFind : (contents (bucketIndex name t.capacity)).find?
      (fun entry => entry.name = name) with
  | none =>
      rw [means, meaning, lookupIn, hFind] at stored
      cases stored
  | some entry =>
      rw [hFind] at search
      exact ⟨t', (writeThrough_eq_put data search).trans put, isMap'⟩

/-! ### Address caches -/

def ipv4MapPut (now : Int) (map : StringT → Option Ipv4Cache) (name : StringT)
    (cache : Ipv4Cache) : StringT → Option Ipv4Cache :=
  if (map name).any (fun old => old.manual) then map
  else Function.update map name (some (cache.stored now))

theorem ipv4CachePut_isMap {t : HashTable Ipv4Cache} {map : StringT → Option Ipv4Cache}
    (isMap : IsMap t map) (now : Int) (name : StringT) (cache : Ipv4Cache) :
    ∃ t', ipv4CachePut now t name cache = .ok t' ∧
      IsMap t' (ipv4MapPut now map name cache) := by
  have found : ipv4CacheGet t name = .ok (map name) := hashTableGet_isMap isMap name
  unfold ipv4CachePut ipv4MapPut
  rw [found]
  cases hOld : map name with
  | none => exact hashTablePut_isMap isMap name (cache.stored now)
  | some old =>
      cases hManual : old.manual with
      | true =>
          refine ⟨t, ?_, ?_⟩
          · simp only [bind, Except.bind, hManual, if_true]
            rfl
          · simpa only [Option.any_some, hManual, if_true] using isMap
      | false =>
          obtain ⟨t', written, isMap'⟩ := writeThrough_isMap isMap hOld (cache.stored now)
          refine ⟨t', ?_, ?_⟩
          · simpa only [bind, Except.bind, hManual, Bool.false_eq_true, if_false] using written
          · simpa only [Option.any_some, hManual, Bool.false_eq_true, if_false] using isMap'

theorem ipv6CachePut_isMap {t : HashTable Ipv6Cache} {map : StringT → Option Ipv6Cache}
    (isMap : IsMap t map) (now : Int) (name : StringT) (cache : Ipv6Cache) :
    ∃ t', ipv6CachePut now t name cache = .ok t' ∧
      IsMap t' (Function.update map name (some (cache.stored now))) := by
  have found : ipv6CacheGet t name = .ok (map name) := hashTableGet_isMap isMap name
  unfold ipv6CachePut
  rw [found]
  cases hOld : map name with
  | none => exact hashTablePut_isMap isMap name (cache.stored now)
  | some old => exact writeThrough_isMap isMap hOld (cache.stored now)

/-! ### Aliases -/

theorem cnameCachePut_isMap {t : HashTable CnameCache} {map : StringT → Option CnameCache}
    (isMap : IsMap t map) (now : Int) (name : StringT) (cache : CnameCache) :
    ∃ t', cnameCachePut now t name cache = .ok t' ∧
      IsMap t' (Function.update map name (some { cache with timestamp := now, manual := false })) :=
  hashTablePut_isMap isMap name _

end PostDns
