/-
Which requests their feature strings tell apart (message.c, `message2feature_string`;
socket.c, `send_response`).

The string is the names of the questions, each followed by the four octets of its class
and its type, and the id.  No length is in it.  Two questions can be read as one with a
longer name, and a long name as two questions.
-/

import PostDns.Lookups

namespace PostDns

open Foundation

/-! ### One question -/

theorem littleEndian16_injective {left right : UInt16}
    (same : littleEndian16 left = littleEndian16 right) : left = right := by
  have parts : left.toUInt8 = right.toUInt8 ∧
      (left >>> 8).toUInt8 = (right >>> 8).toUInt8 := by
    simpa [littleEndian16] using same
  apply split16_injective
  rw [split16_eq_shift, split16_eq_shift, parts.1, parts.2]

/-- Every two octets are those of a `short`. -/
theorem littleEndian16_surjective (low high : UInt8) :
    ∃ value, littleEndian16 value = [low, high] := by
  refine ⟨swap16 (join16 low high), ?_⟩
  have lowBound := low.toNat_lt
  have highBound := high.toNat_lt
  have joined : (join16 low high).toNat = 256 * low.toNat + high.toNat := by
    rw [join16, UInt16.toNat_ofNat']
    omega
  have first : UInt8.ofNat ((join16 low high).toNat / 256) = low := by
    apply UInt8.toNat.inj
    rw [UInt8.toNat_ofNat', joined]
    omega
  have second : UInt8.ofNat (join16 low high).toNat = high := by
    apply UInt8.toNat.inj
    rw [UInt8.toNat_ofNat', joined]
    omega
  rw [littleEndian16_swap16, split16, first, second]

@[simp] theorem littleEndian16_length (value : UInt16) :
    (littleEndian16 value).length = 2 := rfl

@[simp] theorem queryFeature_length (query : Query) :
    (queryFeature query).length = query.name.length + 4 := by
  simp [queryFeature]

/-- Names of one length are cut off in the same place. -/
theorem queryFeature_append_inj {query other : Query} {rest rest' : List UInt8}
    (sameLength : query.name.length = other.name.length)
    (same : queryFeature query ++ rest = queryFeature other ++ rest') :
    query = other ∧ rest = rest' := by
  have size : (queryFeature query).length = (queryFeature other).length := by
    rw [queryFeature_length, queryFeature_length, sameLength]
  obtain ⟨sameFeature, sameRest⟩ := List.append_inj same size
  obtain ⟨sameName, sameFields⟩ := List.append_inj sameFeature sameLength
  obtain ⟨sameClass, sameType⟩ := List.append_inj sameFields rfl
  refine ⟨?_, sameRest⟩
  cases query
  cases other
  rw [Query.mk.injEq]
  exact ⟨sameName, littleEndian16_injective sameType, littleEndian16_injective sameClass⟩

/-- Two questions as one whose name goes on through the fields of the first. -/
def Query.merge (first second : Query) : Query :=
  { name := queryFeature first ++ second.name
    type := second.type
    cls := second.cls }

theorem queryFeature_merge (first second : Query) :
    queryFeature (first.merge second) = queryFeature first ++ queryFeature second :=
  List.append_assoc _ _ _

/-- A name with four octets to spare can be read as two questions. -/
theorem exists_merge {least : Nat} {query : Query}
    (long : 2 * least + 4 ≤ query.name.length) :
    ∃ first second : Query, first.merge second = query ∧
      least ≤ first.name.length ∧ least ≤ second.name.length := by
  have whole := List.take_append_drop least query.name
  have front : (query.name.take least).length = least := by
    rw [List.length_take]
    omega
  have size : (query.name.drop least).length = query.name.length - least :=
    List.length_drop
  match hBack : query.name.drop least with
  | [] | [_] | [_, _] | [_, _, _] =>
      rw [hBack] at size
      simp only [List.length_cons, List.length_nil] at size
      omega
  | a :: b :: c :: d :: back =>
      rw [hBack] at size whole
      simp only [List.length_cons] at size
      obtain ⟨cls, isClass⟩ := littleEndian16_surjective a b
      obtain ⟨type, isType⟩ := littleEndian16_surjective c d
      refine ⟨{ name := query.name.take least, type := type, cls := cls },
        { name := back, type := query.type, cls := query.cls }, ?_, front.ge, ?_⟩
      · cases query
        rw [Query.merge, queryFeature, isClass, isType, Query.mk.injEq]
        refine ⟨?_, rfl, rfl⟩
        simpa using whole
      · change least ≤ back.length
        omega

/-! ### Lists of questions -/

theorem flatMap_queryFeature_length (queries : List Query) :
    4 * queries.length ≤ (queries.flatMap queryFeature).length := by
  induction queries with
  | nil => exact Nat.zero_le _
  | cons query queries ih =>
      rw [List.length_cons, List.flatMap_cons, List.length_append, queryFeature_length]
      omega

/-- The string tells lists apart whose names have the same lengths. -/
theorem queries_eq_of_lengths {queries others : List Query}
    (lengths : queries.map (fun query => query.name.length) =
      others.map (fun query => query.name.length))
    (same : queries.flatMap queryFeature = others.flatMap queryFeature) :
    queries = others := by
  induction queries generalizing others with
  | nil =>
      rw [List.map_nil] at lengths
      exact (List.map_eq_nil_iff.mp lengths.symm).symm
  | cons query queries ih =>
      cases others with
      | nil => cases lengths
      | cons other others =>
          rw [List.map_cons, List.map_cons, List.cons.injEq] at lengths
          rw [List.flatMap_cons, List.flatMap_cons] at same
          obtain ⟨isFirst, sameRest⟩ := queryFeature_append_inj lengths.1 same
          rw [isFirst, ih lengths.2 sameRest]

def ReadsOnce (least : Nat) (queries : List Query) : Prop :=
  queries = [] ∨ ∃ query, queries = [query] ∧ query.name.length < 2 * least + 4

/-- A string that is too short for two questions is read in one way. -/
theorem queries_eq_of_readsOnce {least : Nat} {queries others : List Query}
    (once : ReadsOnce least queries) (long : ∀ query ∈ others, least ≤ query.name.length)
    (same : others.flatMap queryFeature = queries.flatMap queryFeature) :
    others = queries := by
  have size := congrArg List.length same
  cases once with
  | inl none =>
      subst none
      have least := flatMap_queryFeature_length others
      rw [size, List.flatMap_nil, List.length_nil] at least
      exact List.length_eq_zero_iff.mp (by omega)
  | inr one =>
      obtain ⟨query, isQueries, short⟩ := one
      subst isQueries
      rw [List.flatMap_singleton, queryFeature_length] at size
      match others with
      | [] =>
          rw [List.flatMap_nil, List.length_nil] at size
          omega
      | [other] =>
          rw [List.flatMap_singleton, queryFeature_length] at size
          apply queries_eq_of_lengths _ same
          rw [List.map_singleton, List.map_singleton]
          congr 1
          omega
      | first :: second :: rest =>
          have firstLong := long first (by simp)
          have secondLong := long second (by simp)
          simp only [List.flatMap_cons, List.length_append, queryFeature_length] at size
          omega

/-- Any other list has a second reading, one question shorter or one longer. -/
theorem exists_other_reading {least : Nat} {queries : List Query}
    (long : ∀ query ∈ queries, least ≤ query.name.length)
    (twice : ¬ ReadsOnce least queries) :
    ∃ others : List Query, others.flatMap queryFeature = queries.flatMap queryFeature ∧
      others ≠ queries ∧ others.length ≤ max 2 queries.length ∧
      ∀ query ∈ others, least ≤ query.name.length := by
  match queries with
  | [] => exact absurd (Or.inl rfl) twice
  | [query] =>
      have spare : 2 * least + 4 ≤ query.name.length := by
        by_contra short
        exact twice (Or.inr ⟨query, rfl, by omega⟩)
      obtain ⟨first, second, merged, firstLong, secondLong⟩ := exists_merge spare
      refine ⟨[first, second], ?_, by simp, by simp, ?_⟩
      · rw [List.flatMap_cons, List.flatMap_singleton, List.flatMap_singleton, ← merged,
          queryFeature_merge]
      · intro other member
        cases List.mem_cons.mp member with
        | inl isFirst =>
            rw [isFirst]
            exact firstLong
        | inr isSecond =>
            rw [List.mem_singleton.mp isSecond]
            exact secondLong
  | first :: second :: rest =>
      refine ⟨first.merge second :: rest, ?_, ?_, by simp, ?_⟩
      · rw [List.flatMap_cons, List.flatMap_cons, List.flatMap_cons, queryFeature_merge,
          List.append_assoc]
      · intro same
        have sizes := congrArg List.length same
        rw [List.length_cons, List.length_cons, List.length_cons] at sizes
        omega
      · intro other member
        cases List.mem_cons.mp member with
        | inl isMerged =>
            have secondLong := long second (by simp)
            rw [isMerged, Query.merge, List.length_append]
            omega
        | inr inRest => exact long other (by simp [inRest])

/-! ### Messages -/

def asking (message : Message) (queries : List Query) : Message :=
  { message with
    queryCount := UInt16.ofNat queries.length
    queries := queries }

theorem asking_count {queries : List Query} (countable : queries.length < 65536)
    (message : Message) : (asking message queries).queryCount.toNat = queries.length := by
  change (UInt16.ofNat queries.length).toNat = _
  rw [UInt16.toNat_ofNat']
  exact Nat.mod_eq_of_lt countable

theorem questionsOf_asking {queries : List Query} (countable : queries.length < 65536)
    (message : Message) : questionsOf (asking message queries) = queries := by
  rw [questionsOf, asking_count countable]
  exact List.take_length

theorem message2featureString_asking {queries : List Query}
    (countable : queries.length < 65536) (message : Message) :
    (message2featureString (asking message queries)).out =
      .ok (queries.flatMap queryFeature ++ littleEndian16 message.id) := by
  have complete : (asking message queries).queryCount.toNat ≤
      (asking message queries).queries.length := (asking_count countable message).le
  rw [message2featureString_asked complete, featureOf, questionsOf_asking countable]
  rfl

theorem questionsOf_countable (message : Message) :
    (questionsOf message).length < 65536 := by
  have bound := message.queryCount.toNat_lt
  rw [questionsOf, List.length_take]
  omega

/-- The feature string stands for the id and the questions of the message: no other
message has it, and a reply that is passed on for it answers them. -/
structure Identified (message : Message) (feature : StringT) : Prop where
  unique : ∀ other, (message2featureString other).out = .ok feature →
    SameQuestion other message
  matched : ∀ env address reply sent clients,
    (sendResponse env (Function.update (fun _ => none) feature (some address)) reply).out =
      .ok (some sent, clients) → SameQuestion reply message

theorem sameQuestion_of_readsOnce {message other : Message} {least : Nat}
    (once : ReadsOnce least (questionsOf message))
    (long : ∀ query ∈ questionsOf other, least ≤ query.name.length)
    (same : featureOf other = featureOf message) : SameQuestion other message := by
  obtain ⟨questions, id⟩ := List.append_inj' same rfl
  exact ⟨littleEndian16_injective id, queries_eq_of_readsOnce once long questions⟩

/-- A reply finds the only request that waits when it has its feature string. -/
theorem feature_of_sendResponse {env : Env} {feature : StringT} {address : SockAddr}
    {reply : Message} {sent : SockAddr × UvBuf} {clients : Clients}
    (passed : (sendResponse env (Function.update (fun _ => none) feature (some address))
      reply).out = .ok (some sent, clients)) :
    (message2featureString reply).out = .ok feature := by
  obtain ⟨found, featured, looked⟩ := Logged.bind_out_eq_ok.mp passed
  by_cases same : found = feature
  · rw [← same]
    exact featured
  · rw [Function.update_of_ne same] at looked
    cases looked

/-- A message that can be read twice shares its feature string. -/
theorem exists_other_message {message : Message} {feature : StringT} {least : Nat}
    (built : (message2featureString message).out = .ok feature)
    (long : ∀ query ∈ questionsOf message, least ≤ query.name.length)
    (twice : ¬ ReadsOnce least (questionsOf message)) :
    ∃ other, (message2featureString other).out = .ok feature ∧
      ¬ SameQuestion other message ∧
      ∀ query ∈ questionsOf other, least ≤ query.name.length := by
  obtain ⟨queries, same, different, short, longOther⟩ := exists_other_reading long twice
  have bound := questionsOf_countable message
  have countable : queries.length < 65536 := by omega
  refine ⟨asking message queries, ?_, ?_, ?_⟩
  · rw [message2featureString_asking countable, same, message2featureString_eq_ok built]
    rfl
  · intro sameQuestion
    apply different
    rw [← sameQuestion.2, questionsOf_asking countable]
  · rw [questionsOf_asking countable]
    exact longOther

/-- A message is identified by its feature string exactly when it asks nothing, or one
question whose name has at most three octets. -/
theorem identified_iff {message : Message} {feature : StringT}
    (built : (message2featureString message).out = .ok feature) :
    Identified message feature ↔
      questionsOf message = [] ∨
        ∃ query, questionsOf message = [query] ∧ query.name.length < 4 := by
  constructor
  · intro identified
    by_contra twice
    obtain ⟨other, shared, different, _⟩ :=
      exists_other_message built (fun query _ => Nat.zero_le query.name.length) twice
    exact different (identified.unique other shared)
  · intro once
    have unique : ∀ other, (message2featureString other).out = .ok feature →
        SameQuestion other message := by
      intro other shared
      apply @sameQuestion_of_readsOnce message other 0 once
        fun query _ => Nat.zero_le query.name.length
      rw [← message2featureString_eq_ok shared, message2featureString_eq_ok built]
    constructor
    · exact unique
    · intro env address reply sent clients passed
      exact unique reply (feature_of_sendResponse passed)

/-- Among the messages that the decoder makes, whose names are not empty, a name may have
two octets more. -/
theorem identified_among_named_iff {message : Message} {feature : StringT}
    (built : (message2featureString message).out = .ok feature)
    (named : ∀ query ∈ questionsOf message, query.name ≠ []) :
    (∀ other, (∀ query ∈ questionsOf other, query.name ≠ []) →
        (message2featureString other).out = .ok feature → SameQuestion other message) ↔
      questionsOf message = [] ∨
        ∃ query, questionsOf message = [query] ∧ query.name.length < 6 := by
  have filled {queries : List Query} :
      (∀ query ∈ queries, query.name ≠ []) ↔ ∀ query ∈ queries, 1 ≤ query.name.length :=
    forall₂_congr fun query _ => List.length_pos_iff.symm
  constructor
  · intro unique
    by_contra twice
    obtain ⟨other, shared, different, long⟩ :=
      exists_other_message built (filled.mp named) twice
    exact different (unique other (filled.mpr long) shared)
  · intro once other long shared
    apply @sameQuestion_of_readsOnce message other 1 once (filled.mp long)
    rw [← message2featureString_eq_ok shared, message2featureString_eq_ok built]

def requestOf (queries : List Query) : Message :=
  asking
    { id := 1
      flags :=
        { qr := 0, opcode := 0, aa := 0, tc := 0, rd := 1, ra := 0, z := 0, rcode := 0 }
      queryCount := 0
      answerCount := 0
      authorityCount := 0
      additionalCount := 0
      queries := []
      answers := [] } queries

theorem identified_threeLetters :
    Identified (requestOf [{ name := [97, 46, 98], type := 1, cls := 1 }])
      [97, 46, 98, 1, 0, 1, 0, 1, 0] :=
  (identified_iff (by decide +kernel)).mpr
    (Or.inr ⟨{ name := [97, 46, 98], type := 1, cls := 1 }, by decide +kernel, by decide⟩)

/-- The letters `a` and `b` in two questions, and as the ends of one name. -/
theorem not_identified_sixOctets :
    (message2featureString
        (requestOf [{ name := [97, 1, 0, 1, 0, 98], type := 1, cls := 1 }])).out =
      .ok [97, 1, 0, 1, 0, 98, 1, 0, 1, 0, 1, 0] ∧
    (message2featureString
        (requestOf [{ name := [97], type := 1, cls := 1 },
          { name := [98], type := 1, cls := 1 }])).out =
      .ok [97, 1, 0, 1, 0, 98, 1, 0, 1, 0, 1, 0] ∧
    ¬ Identified (requestOf [{ name := [97, 1, 0, 1, 0, 98], type := 1, cls := 1 }])
      [97, 1, 0, 1, 0, 98, 1, 0, 1, 0, 1, 0] := by
  have shared : (message2featureString
      (requestOf [{ name := [97], type := 1, cls := 1 },
        { name := [98], type := 1, cls := 1 }])).out =
      .ok [97, 1, 0, 1, 0, 98, 1, 0, 1, 0, 1, 0] := by
    decide +kernel
  refine ⟨by decide +kernel, shared, ?_⟩
  intro identified
  have same := identified.unique _ shared
  revert same
  decide +kernel

end PostDns
