/-
The two readers of a name side by side (message.c, `buf2messageQuestion` and
`buf2messageRR`).

The name of a question is copied out of its array with its length.  The name of a
record first goes through `strcpy` into an array on the stack, and is copied out of that
one with its length: what follows a zero octet in it is what the stack held.
-/

import PostDns.Forward

namespace PostDns

open Foundation
open Rfc1035 (DomainName nameLength encodeLabels)

/-! ### The readers up to the stored name -/

def storedQuestionName (env : Env) (buf : List UInt8) (bufPos : Nat) :
    Exec (StringT × Nat) := do
  let named ← questionName buf env.fuel bufPos []
  let name ← closeString .qvalue named.2
  pure (name, named.1 + 1)

def storedRecordName (env : Env) (buf : List UInt8) (bufPos : Nat) :
    Exec (StringT × Nat) := do
  let named ← createName buf .name env.fuel bufPos []
  let name ← closeString .name named.2
  pure (strcpyResult (env.junk (.result bufPos)) name, named.1 + 1)

theorem buf2messageQuery_eq_stored (env : Env) (buf : List UInt8) (bufPos : Nat) :
    buf2messageQuery env buf bufPos =
      (do
        let named ← storedQuestionName env buf bufPos
        let type ← readShort buf named.2
        let cls ← readShort buf (named.2 + 2)
        pure ({ name := named.1, type := type, cls := cls }, named.2 + 4)) := by
  unfold buf2messageQuery storedQuestionName
  simp only [Logged.bind_assoc, Logged.pure_bind]

theorem buf2messageRecord_eq_stored (env : Env) (buf : List UInt8) (bufPos : Nat) :
    buf2messageRecord env buf bufPos =
      (do
        let named ← storedRecordName env buf bufPos
        let type ← readShort buf named.2
        let cls ← readShort buf (named.2 + 2)
        let ttlHigh ← readShort buf (named.2 + 4)
        let ttlLow ← readShort buf (named.2 + 6)
        let length ← readShort buf (named.2 + 8)
        let data ← createRData env buf (named.2 + 10) type length.toNat
        let responseData ← responseDataOf (env.junk (.value bufPos)) type data.2
        pure
          ({ name := named.1
             type := type
             cls := cls
             ttl := shorts2Int ttlHigh ttlLow
             responseDataLength := length
             responseData := responseData }, data.1 + 1)) := by
  unfold buf2messageRecord storedRecordName
  simp only [Logged.bind_assoc, Logged.pure_bind]

/-! ### Uncompressed names -/

def NamesAgree (buf : List UInt8) (bufPos finish : Nat) (env : Env) : Prop :=
  ∃ name, (storedQuestionName env buf bufPos).out = .ok (name, finish) ∧
    (storedRecordName env buf bufPos).out = .ok (name, finish)

section Uncompressed

variable {buf : List UInt8} {bufPos : Nat} {source : DomainName}
  (nonempty : source.labels ≠ [])
  (spelled : HoldsAt buf bufPos (encodeLabels source.labels))

include nonempty spelled

theorem storedQuestionName_out {env : Env} (enough : source.labels.length < env.fuel) :
    (storedQuestionName env buf bufPos).out =
      .ok (dotJoin source.labels, bufPos + nameLength source.labels) := by
  have read := questionName_out source.labelSizes spelled env.fuel enough []
  rw [List.nil_append] at read
  rw [storedQuestionName, Logged.bind_out_of_ok read,
    Logged.bind_out_of_ok (closeString_out .qvalue (dotted_ne_nil nonempty)),
    dotted_dropLast nonempty]
  rfl

theorem storedRecordName_out :
    ∃ enough, ∀ env : Env, enough ≤ env.fuel →
      (storedRecordName env buf bufPos).out =
        .ok (strcpyResult (env.junk (.result bufPos)) (dotJoin source.labels),
          bufPos + nameLength source.labels) := by
  have named := Rfc1035.nameAt_of_holdsAt_encodeLabels source.labelSizes spelled
  obtain ⟨enough, read⟩ := createName_yields .name named []
  refine ⟨enough, ?_⟩
  intro env more
  have here := read env more
  rw [List.nil_append] at here
  rw [storedRecordName, Logged.bind_out_of_ok here,
    Logged.bind_out_of_ok (closeString_out .name (dotted_ne_nil nonempty)),
    dotted_dropLast nonempty]
  rfl

/-- What agrees on every machine does not depend on the stack. -/
theorem noZeros_of_namesAgree {more : Nat}
    (agree : ∀ env : Env, more ≤ env.fuel →
      NamesAgree buf bufPos (bufPos + nameLength source.labels) env) :
    (0 : UInt8) ∉ (dotJoin source.labels).dropLast := by
  obtain ⟨enough, record⟩ := storedRecordName_out nonempty spelled
  intro inside
  have copied (fill : UInt8) :
      strcpyResult (fun _ => fill) (dotJoin source.labels) = dotJoin source.labels := by
    let env : Env :=
      { fuel := max (max enough more) (source.labels.length + 1)
        junk := fun _ _ => fill }
    have room : env.fuel = max (max enough more) (source.labels.length + 1) := rfl
    obtain ⟨name, question, stored⟩ := agree env (by omega)
    rw [@storedQuestionName_out buf bufPos source nonempty spelled env (by omega)]
      at question
    rw [record env (by omega)] at stored
    cases question
    exact congrArg Prod.fst (Except.ok.inj stored)
  exact strcpyResult_depends inside ((copied 0).trans (copied 1).symm)

end Uncompressed

/-- The readers agree on every machine exactly when no octet of the name before the
last one is zero. -/
theorem namesAgree_iff {buf : List UInt8} {bufPos : Nat} (source : DomainName)
    (nonempty : source.labels ≠ [])
    (spelled : HoldsAt buf bufPos (encodeLabels source.labels)) :
    (∃ enough, ∀ env : Env, enough ≤ env.fuel →
        NamesAgree buf bufPos (bufPos + nameLength source.labels) env) ↔
      (0 : UInt8) ∉ (dotJoin source.labels).dropLast := by
  constructor
  · rintro ⟨more, agree⟩
    exact noZeros_of_namesAgree nonempty spelled agree
  · intro noZeros
    obtain ⟨enough, record⟩ := storedRecordName_out nonempty spelled
    refine ⟨max enough (source.labels.length + 1), ?_⟩
    intro env fuel
    refine ⟨dotJoin source.labels,
      storedQuestionName_out nonempty spelled (by omega), ?_⟩
    rw [record env (by omega), strcpyResult_of_nonzero _ noZeros]

section OneLabel

variable (label : Rfc1035.Label) (size : 1 ≤ label.length ∧ label.length ≤ 63)

include size

theorem oneLabel_sizes : ∀ other ∈ [label], 1 ≤ other.length ∧ other.length ≤ 63 := by
  intro other member
  rw [List.mem_singleton.mp member]
  exact size

theorem oneLabel_fits : nameLength [label] ≤ 255 := by
  simp only [nameLength, List.map_cons, List.map_nil, List.sum_cons, List.sum_nil]
  omega

end OneLabel

def oneLabel (label : Rfc1035.Label) (size : 1 ≤ label.length ∧ label.length ≤ 63) :
    DomainName :=
  { labels := [label]
    labelSizes := oneLabel_sizes label size
    fits := oneLabel_fits label size }

private def hostOfThree : DomainName :=
  { labels := [[97, 98], [99], [100, 101]]
    labelSizes := by decide
    fits := by decide }

theorem namesAgree_threeLabels :
    ∃ enough, ∀ env : Env, enough ≤ env.fuel →
      NamesAgree [2, 97, 98, 1, 99, 2, 100, 101, 0] 0 9 env :=
  (@namesAgree_iff [2, 97, 98, 1, 99, 2, 100, 101, 0] 0 hostOfThree (by decide)
    (by decide)).mpr (by decide)

/-- A zero octet, then a letter: the letter is left to the stack. -/
theorem not_namesAgree_zero :
    (storedQuestionName { fuel := 4, junk := fun _ _ => 98 } [2, 0, 97, 0] 0).out =
        .ok ([0, 97], 4) ∧
      (storedRecordName { fuel := 4, junk := fun _ _ => 98 } [2, 0, 97, 0] 0).out =
        .ok ([0, 98], 4) ∧
      ¬ ∃ enough, ∀ env : Env, enough ≤ env.fuel → NamesAgree [2, 0, 97, 0] 0 4 env := by
  refine ⟨by decide +kernel, by decide +kernel, ?_⟩
  rintro ⟨more, agree⟩
  exact @noZeros_of_namesAgree [2, 0, 97, 0] 0 (oneLabel [0, 97] (by decide))
    (by decide) (by decide) more agree (by decide)

end PostDns
