/-
Under which domain an upstream reply enters its addresses (socket.c,
`query_socket_read`).

The loop over the answers keeps one list and one domain for each kind of address, on the
assumption that the records of a kind have one owner.  Then the owner is cached with its
addresses.  Where they have several, the last one is cached with the addresses of all.
-/

import PostDns.Agreement

namespace PostDns

open Foundation

variable {Address : Type}

/-- What the answers of one type leave in the cache of their addresses. -/
structure OwnersCached (type : UInt16) (addressOf : ResourceRecord → Option Address)
    (now : Int) (answers : List ResourceRecord)
    (before after : StringT → Except Fault (Option (AddressCache Address))) : Prop where
  single : ∀ domain, (∃ answer ∈ answers, answer.type = type) →
    (∀ answer ∈ answers, answer.type = type → answer.name = domain) →
    (∀ cache, before domain = .ok (some cache) → cache.manual = false) →
      after domain = .ok (some (collectedCache now
        ((answers.filter fun answer => answer.name = domain).filterMap addressOf)))
  several : ∀ domain, lastOwner type answers = some domain →
    (∀ cache, before domain = .ok (some cache) → cache.manual = false) →
      after domain = .ok (some (collectedCache now (answers.filterMap addressOf)))
  others : ∀ domain, lastOwner type answers ≠ some domain → after domain = before domain
  unchanged : ∀ domain,
    (∀ answer ∈ answers, answer.type = type → answer.name ≠ domain) →
      after domain = before domain

/-! ### Owners -/

theorem lastOwner_append (type : UInt16) (answers : List ResourceRecord)
    (answer : ResourceRecord) :
    lastOwner type (answers ++ [answer]) =
      if answer.type = type then some answer.name else lastOwner type answers := by
  rw [lastOwner, List.foldl_append]
  rfl

/-- The last owner owns a record. -/
theorem owned_of_lastOwner {type : UInt16} {answers : List ResourceRecord}
    {domain : StringT} (last : lastOwner type answers = some domain) :
    ∃ answer ∈ answers, answer.type = type ∧ answer.name = domain := by
  induction answers using List.reverseRecOn with
  | nil => cases last
  | append_singleton answers answer ih =>
      rw [lastOwner_append] at last
      by_cases isType : answer.type = type
      · rw [if_pos isType] at last
        exact ⟨answer, by simp, isType, Option.some.inj last⟩
      · rw [if_neg isType] at last
        obtain ⟨found, member, owns⟩ := ih last
        exact ⟨found, List.mem_append_left _ member, owns⟩

theorem lastOwner_isSome {type : UInt16} {answers : List ResourceRecord}
    (owned : ∃ answer ∈ answers, answer.type = type) :
    ∃ domain, lastOwner type answers = some domain := by
  induction answers using List.reverseRecOn with
  | nil =>
      obtain ⟨answer, member, _⟩ := owned
      cases member
  | append_singleton answers answer ih =>
      rw [lastOwner_append]
      by_cases isType : answer.type = type
      · rw [if_pos isType]
        exact ⟨answer.name, rfl⟩
      · rw [if_neg isType]
        apply ih
        obtain ⟨found, member, typed⟩ := owned
        rcases List.mem_append.mp member with earlier | isLast
        · exact ⟨found, earlier, typed⟩
        · rw [List.mem_singleton.mp isLast] at typed
          exact absurd typed isType

def TakenFrom (type : UInt16) (addressOf : ResourceRecord → Option Address) : Prop :=
  ∀ answer address, addressOf answer = some address → answer.type = type

theorem takenFrom_answerAddress4 : TakenFrom 1 answerAddress4 := by
  intro answer address taken
  unfold answerAddress4 at taken
  split at taken
  · by_contra notType
    rw [if_neg notType] at taken
    cases taken
  · cases taken

theorem takenFrom_answerAddress6 : TakenFrom 28 answerAddress6 := by
  intro answer address taken
  unfold answerAddress6 at taken
  split at taken
  · by_contra notType
    rw [if_neg notType] at taken
    cases taken
  · cases taken

theorem filterMap_owner {type : UInt16} {addressOf : ResourceRecord → Option Address}
    (taken : TakenFrom type addressOf) {answers : List ResourceRecord} {domain : StringT}
    (owned : ∀ answer ∈ answers, answer.type = type → answer.name = domain) :
    (answers.filter fun answer => answer.name = domain).filterMap addressOf =
      answers.filterMap addressOf := by
  rw [List.filterMap_filter]
  apply List.filterMap_congr
  intro answer member
  by_cases isOwner : answer.name = domain
  · rw [if_pos (by simpa using isOwner)]
  · rw [if_neg (by simpa using isOwner)]
    cases hAddress : addressOf answer with
    | none => rfl
    | some address =>
        exact absurd (owned answer member (taken answer address hAddress)) isOwner

/-! ### Replies -/

/-- A cache that gives the whole list to the last owner. -/
theorem ownersCached_of_last {type : UInt16} {addressOf : ResourceRecord → Option Address}
    (taken : TakenFrom type addressOf) {now : Int} {answers : List ResourceRecord}
    {before after : StringT → Except Fault (Option (AddressCache Address))}
    (stored : ∀ domain, lastOwner type answers = some domain →
      (∀ cache, before domain = .ok (some cache) → cache.manual = false) →
        after domain = .ok (some (collectedCache now (answers.filterMap addressOf))))
    (others : ∀ domain, lastOwner type answers ≠ some domain →
      after domain = before domain) :
    OwnersCached type addressOf now answers before after := by
  constructor
  · intro domain typed owned unmarked
    obtain ⟨last, isLast⟩ := lastOwner_isSome typed
    obtain ⟨answer, member, isType, isName⟩ := owned_of_lastOwner isLast
    have same : last = domain := by
      rw [← isName]
      exact owned answer member isType
    rw [same] at isLast
    rw [filterMap_owner taken owned]
    exact stored domain isLast unmarked
  · exact stored
  · exact others
  · intro domain notOwned
    apply others
    intro isLast
    obtain ⟨answer, member, isType, isName⟩ := owned_of_lastOwner isLast
    exact notOwned answer member isType isName

section Tables

variable {before after : World} {maps : CacheMaps} {now : Int}
  {answers : List ResourceRecord} (shows : Shows before maps)
  (shows' : Shows after (maps.reply now answers))

include shows shows'

theorem ownersCached_ipv4 : OwnersCached 1 answerAddress4 now answers
    (ipv4CacheGet before.ipv4Table) (ipv4CacheGet after.ipv4Table) := by
  apply ownersCached_of_last takenFrom_answerAddress4
  · intro domain isLast unmarked
    have free : ((maps.ipv4 domain).any fun old => old.manual) = false := by
      cases hOld : maps.ipv4 domain with
      | none => rfl
      | some old => exact unmarked old (by rw [shows.ipv4Get, hOld])
    rw [shows'.ipv4Get, CacheMaps.reply]
    simp only [isLast]
    rw [ipv4MapPut, free]
    simp only [Bool.false_eq_true, if_false, Function.update_self]
    rfl
  · intro domain notLast
    rw [shows'.ipv4Get, shows.ipv4Get, CacheMaps.reply]
    cases hLast : lastOwner 1 answers with
    | none => rfl
    | some last =>
        have different : domain ≠ last := by
          intro same
          rw [same] at notLast
          exact notLast hLast
        simp only [ipv4MapPut]
        split
        · rfl
        · rw [Function.update_of_ne different]

theorem ownersCached_ipv6 : OwnersCached 28 answerAddress6 now answers
    (ipv6CacheGet before.ipv6Table) (ipv6CacheGet after.ipv6Table) := by
  apply ownersCached_of_last takenFrom_answerAddress6
  · intro domain isLast _
    rw [shows'.ipv6Get, CacheMaps.reply]
    simp only [isLast, Function.update_self]
  · intro domain notLast
    rw [shows'.ipv6Get, shows.ipv6Get, CacheMaps.reply]
    cases hLast : lastOwner 28 answers with
    | none => rfl
    | some last =>
        have different : domain ≠ last := by
          intro same
          rw [same] at notLast
          exact notLast hLast
        simp only [Function.update_of_ne different]

end Tables

/-- An upstream reply enters the addresses of each kind under one domain. -/
theorem reply_ownersCached {env : Env} {began : Int} {file : Option (List UInt8)}
    {start : World} {malloc : Malloc} (started : (startUp env malloc began file).out = .ok start)
    {events : List ((Int × Occasion) × List Sent)} {before : World}
    (run : Run SafeServe start events before) {now : Int} {message : Message}
    {sent : List Sent} {after : World}
    (told : Serve before ((now, .reply message), sent) after) :
    OwnersCached 1 answerAddress4 now (countedAnswers message)
        (ipv4CacheGet before.ipv4Table) (ipv4CacheGet after.ipv4Table) ∧
      OwnersCached 28 answerAddress6 now (countedAnswers message)
        (ipv6CacheGet before.ipv6Table) (ipv6CacheGet after.ipv6Table) := by
  obtain ⟨maps, shows, _⟩ := safeRun_manualZero started run
  have shows' := told.reply_shows shows
  exact ⟨ownersCached_ipv4 shows shows', ownersCached_ipv6 shows shows'⟩

private def watchful : Env := { fuel := 4, junk := fun _ _ => 0 }

private def ofTwoOwners : Datagram :=
  { buf :=
      { base := [0, 7, 0x81, 0x80, 0, 1, 0, 2, 0, 0, 0, 0, 1, 97, 0, 0, 1, 0, 1,
          1, 97, 0, 0, 1, 0, 1, 0, 0, 0, 60, 0, 4, 1, 2, 3, 4,
          1, 98, 0, 0, 1, 0, 1, 0, 0, 0, 60, 0, 4, 5, 6, 7, 8]
        len := 53 }
    nonempty := Nat.succ_pos (nat_lit 52)
    fits := Nat.le_refl (nat_lit 53) }

private def addressOfOwner (owner : StringT) (address : UInt32) : ResourceRecord :=
  { name := owner
    type := 1
    cls := 1
    ttl := 60
    responseDataLength := 4
    responseData := .inet4 address }

private def twoOwnersMessage : Message :=
  { id := 7
    flags :=
      { qr := 1, opcode := 0, aa := 0, tc := 0, rd := 1, ra := 1, z := 0, rcode := 0 }
    queryCount := 1
    answerCount := 2
    authorityCount := 0
    additionalCount := 0
    queries := [{ name := [97], type := 1, cls := 1 }]
    answers := [addressOfOwner [97] 0x01020304, addressOfOwner [98] 0x05060708] }

private def initially : World := World.init .ascending

private def afterTwoOwners : World × List Sent :=
  returned (querySocketRead watchful 0 ofTwoOwners initially)

private theorem twoOwners_told :
    Serve initially ((0, .reply twoOwnersMessage), afterTwoOwners.2) afterTwoOwners.1 :=
  .reply (by rfl) (out_eq_returned (by decide +kernel))

theorem reply_ownersCached_twoOwners :
    OwnersCached 1 answerAddress4 0 (countedAnswers twoOwnersMessage)
        (ipv4CacheGet initially.ipv4Table) (ipv4CacheGet afterTwoOwners.1.ipv4Table) ∧
      OwnersCached 28 answerAddress6 0 (countedAnswers twoOwnersMessage)
        (ipv6CacheGet initially.ipv6Table) (ipv6CacheGet afterTwoOwners.1.ipv6Table) :=
  @reply_ownersCached watchful 0 none initially .ascending rfl [] initially Run.nil 0
    twoOwnersMessage afterTwoOwners.2 afterTwoOwners.1 twoOwners_told

/-- `b` has both addresses, and `a` is not cached with the one that it owns. -/
theorem not_ownAddresses_twoOwners :
    Serve initially ((0, .reply twoOwnersMessage), afterTwoOwners.2) afterTwoOwners.1 ∧
      ipv4CacheGet afterTwoOwners.1.ipv4Table [98] =
        .ok (some (collectedCache 0 [0x01020304, 0x05060708])) ∧
      ¬ ∀ domain, (∃ answer ∈ countedAnswers twoOwnersMessage,
          answer.type = 1 ∧ answer.name = domain) →
        (∀ cache, ipv4CacheGet initially.ipv4Table domain = .ok (some cache) →
          cache.manual = false) →
        ∃ cache, ipv4CacheGet afterTwoOwners.1.ipv4Table domain = .ok (some cache) ∧
          cache.node = ((countedAnswers twoOwnersMessage).filter fun answer =>
            answer.name = domain).filterMap answerAddress4 := by
  have missing : ipv4CacheGet afterTwoOwners.1.ipv4Table [97] = .ok none := by
    decide +kernel
  have fresh : ipv4CacheGet initially.ipv4Table [97] = .ok none := by
    decide +kernel
  refine ⟨twoOwners_told, by decide +kernel, ?_⟩
  intro each
  obtain ⟨cache, found, _⟩ := each [97]
    ⟨addressOfOwner [97] 0x01020304, List.mem_cons_self, rfl, rfl⟩ (by
      intro cache stored
      rw [fresh] at stored
      cases stored)
  rw [missing] at found
  cases found

end PostDns
