/-
What a sweep of a cache does (ipv4_cache.c and ipv6_cache.c, the `clear` functions).

A sweep first collects the names of the expired entries and then removes them one after
the other.  It is right as far as the removals are: as long as none of them meets its
name at the head of a long chain, exactly the expired entries go.
-/

import PostDns.CacheSemantics
import PostDns.Growth
import PostDns.Lookups

namespace PostDns

open Foundation

variable {α : Type}

/-! ### Collecting -/

theorem collectChain_read {t : HashTable α} {ref : NodeRef} {node : HashNode α}
    (readable : t.read ref = .ok node) (size : Nat) (expired : α → Bool) (fuel : Nat)
    (result : List StringT) :
    collectChain size expired t (fuel + 1) (some ref) result =
      match node.name with
      | none => pure result
      | some name =>
          noteExpired size expired name node.data result >>= fun result =>
            collectChain size expired t fuel (node.next.map .chain) result := by
  rw [collectChain, readable]
  rfl

theorem collectChain_chain {t : HashTable α} {entries : List (Entry α)}
    {start : Option NodeRef} (chain : ChainFrom t.read start entries) {fuel : Nat}
    (enough : entries.length < fuel) (size : Nat) (expired : α → Bool)
    (result : List StringT) :
    (collectChain size expired t fuel start result).out =
      .ok (result ++ (entries.filter fun entry => expired entry.data).map Entry.name) := by
  induction entries generalizing start fuel result with
  | nil =>
      have ended : start = none := chain
      subst ended
      cases fuel with
      | zero => cases enough
      | succ fuel =>
          rw [List.filter_nil, List.map_nil, List.append_nil]
          rfl
  | cons entry rest ih =>
      obtain ⟨here, next, node, later⟩ := chain
      subst here
      cases fuel with
      | zero => cases enough
      | succ fuel =>
          have onwards (result : List StringT) :=
            ih later (Nat.lt_of_succ_lt_succ enough) result
          rw [collectChain_read node]
          simp only [Entry.node]
          cases hExpired : expired entry.data with
          | true =>
              have noted : (noteExpired size expired entry.name (some entry.data) result).out =
                  .ok (result ++ [entry.name]) := by
                simp only [noteExpired, hExpired, if_true]
                rfl
              rw [Logged.bind_out_of_ok noted, onwards, List.filter_cons, if_pos hExpired,
                List.map_cons, List.append_assoc]
              rfl
          | false =>
              have kept : (noteExpired size expired entry.name (some entry.data) result).out =
                  .ok result := by
                simp only [noteExpired, hExpired, Bool.false_eq_true, if_false]
                rfl
              have skipped : ¬ expired entry.data = true := by
                rw [hExpired]
                exact Bool.false_ne_true
              rw [Logged.bind_out_of_ok kept, onwards, List.filter_cons, if_neg skipped]

theorem collectChain_bucket {t : HashTable α} {index : Nat} {entries : List (Entry α)}
    (bucket : BucketAt t.read index entries) {fuel : Nat} (enough : entries.length < fuel)
    (size : Nat) (expired : α → Bool) (result : List StringT) :
    (collectChain size expired t fuel (some (.head index)) result).out =
      .ok (result ++ (entries.filter fun entry => expired entry.data).map Entry.name) := by
  cases entries with
  | nil =>
      have empty : t.read (.head index) = .ok HashNode.empty := bucket
      cases fuel with
      | zero => cases enough
      | succ fuel =>
          rw [collectChain, empty, List.filter_nil, List.map_nil, List.append_nil]
          rfl
  | cons first rest => exact collectChain_chain bucket enough size expired result

theorem collectExpired_laid {t : HashTable α} {contents : Nat → List (Entry α)}
    (laid : Laid t.read t.capacity contents) (size : Nat) (expired : α → Bool)
    {count index : Nat} (inside : index + count ≤ t.capacity) (result : List StringT) :
    (collectExpired size expired t count index result).out =
      .ok (result ++ (List.range' index count).flatMap fun index =>
        ((contents index).filter fun entry => expired entry.data).map Entry.name) := by
  induction count generalizing index result with
  | zero =>
      rw [List.range'_zero, List.flatMap_nil, List.append_nil]
      rfl
  | succ count ih =>
      have below : index < t.capacity := by omega
      have bucket := laid.bucket index below
      have here := collectChain_bucket bucket (bucket.length_lt (laid.refs index below))
        size expired result
      have later : index + 1 + count ≤ t.capacity := by omega
      rw [collectExpired, Logged.bind_out_of_ok here, ih later, List.range'_succ,
        List.flatMap_cons, List.append_assoc]

/-- The names of the expired entries, each of them once or more. -/
theorem collectExpired_isMap {t : HashTable α} {map : StringT → Option α}
    (isMap : IsMap t map) (size : Nat) (expired : α → Bool) :
    ∃ names, (collectExpired size expired t t.capacity 0 []).out = .ok names ∧
      ∀ name, name ∈ names ↔ ∃ data, map name = some data ∧ expired data = true := by
  obtain ⟨contents, laid, means⟩ := isMap
  refine ⟨_, collectExpired_laid laid size expired (Nat.zero_add _).le [], ?_⟩
  intro name
  simp only [List.nil_append, List.mem_flatMap, List.mem_range'_1, List.mem_map,
    List.mem_filter, means, meaning_eq_some_iff laid]
  constructor
  · rintro ⟨index, ⟨_, inside⟩, entry, ⟨member, isExpired⟩, isName⟩
    exact ⟨entry.data, ⟨index, by omega, entry, member, isName, rfl⟩, isExpired⟩
  · rintro ⟨data, ⟨index, inside, entry, member, isName, isData⟩, isExpired⟩
    rw [← isData] at isExpired
    exact ⟨index, ⟨Nat.zero_le _, by omega⟩, entry, ⟨member, isExpired⟩, isName⟩

/-! ### Removing -/

/-- None of the removals in turn meets its name at the head of a long chain. -/
def RemovalsSafe : List StringT → HashTable α → Prop
  | [], _ => True
  | name :: names, t =>
      ¬ HeadOfLongChain t name ∧
        ∀ t', hashTableRemove t name = .ok t' → RemovalsSafe names t'

def SweepSafe (expired : α → Bool) (t : HashTable α) : Prop :=
  ∀ names, (collectExpired t.count expired t t.capacity 0 []).out = .ok names →
    RemovalsSafe names t

theorem removeExpired_isMap {names : List StringT} {t t' : HashTable α}
    {map : StringT → Option α} (isMap : IsMap t map) (safe : RemovalsSafe names t)
    (done : (removeExpired names t).out = .ok t') :
    IsMap t' (fun name => if name ∈ names then none else map name) := by
  induction names generalizing t map with
  | nil =>
      cases done
      simpa using isMap
  | cons name names ih =>
      obtain ⟨middle, removed, rest⟩ := ofExcept_bind_out_eq_ok.mp done
      have onward := ih (hashTableRemove_of_ok isMap safe.1 removed) (safe.2 middle removed) rest
      have same : (fun other => if other ∈ name :: names then none else map other) =
          fun other => if other ∈ names then none else Function.update map name none other := by
        funext other
        by_cases inNames : other ∈ names
        · rw [if_pos inNames, if_pos (List.mem_cons_of_mem name inNames)]
        · rw [if_neg inNames]
          by_cases isName : other = name
          · rw [if_pos (List.mem_cons.mpr (Or.inl isName)), isName, Function.update_self]
          · rw [if_neg (by simp [isName, inNames]), Function.update_of_ne isName]
      rw [same]
      exact onward

/-- A sweep whose removals are safe drops the expired entries and no others. -/
theorem cacheClear_isMap {expired : α → Bool} {t t' : HashTable α}
    {map : StringT → Option α} (isMap : IsMap t map) (safe : SweepSafe expired t)
    (done : (cacheClear expired t).out = .ok t') :
    IsMap t' (fun name => (map name).filter fun data => !expired data) := by
  obtain ⟨names, collected, removed⟩ := Logged.bind_out_eq_ok.mp done
  obtain ⟨names', collected', member⟩ := collectExpired_isMap isMap t.count expired
  have sameNames : names' = names := Except.ok.inj (collected'.symm.trans collected)
  subst sameNames
  have swept := removeExpired_isMap isMap (safe names' collected) removed
  have same : (fun name => (map name).filter fun data => !expired data) =
      fun name => if name ∈ names' then none else map name := by
    funext name
    cases hMap : map name with
    | none => simp
    | some data =>
        cases hExpired : expired data with
        | true =>
            rw [if_pos ((member name).mpr ⟨data, hMap, hExpired⟩)]
            simp [hExpired]
        | false =>
            have notNoted : name ∉ names' := by
              intro noted
              obtain ⟨data', stored, isExpired⟩ := (member name).mp noted
              rw [hMap] at stored
              cases stored
              rw [hExpired] at isExpired
              cases isExpired
            rw [if_neg notNoted]
            simp [hExpired]
  rw [same]
  exact swept

end PostDns
