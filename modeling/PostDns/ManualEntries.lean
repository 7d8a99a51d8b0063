/-
The entries of the configuration file in a run (ipv4_cache.c, main.c).

The file is meant to put entries by hand that nothing changes later.  The loader hands
them over with the manual flag, `ipv4_cache_put` drops the flag, and so they last only
until an upstream reply or a sweep comes to them.
-/

import PostDns.Configured
import PostDns.LocalReplies

namespace PostDns

open Foundation

/-! ### The file -/

def MappedOnce (lines : List (List UInt8)) (domain : StringT) (address : UInt32) : Prop :=
  (configEntries lines).filter (fun entry => entry.1 = domain) = [(domain, address)]

theorem lastPut_eq_head? {α : Type} (entries : List (StringT × α)) (name : StringT) :
    lastPut entries name =
      ((entries.filter fun entry => entry.1 = name).reverse.head?).map Prod.snd := by
  unfold lastPut
  simp only [stringEqual_eq_decide]
  rw [← List.filter_reverse, List.head?_filter]

theorem MappedOnce.lastPut {lines : List (List UInt8)} {domain : StringT} {address : UInt32}
    (once : MappedOnce lines domain address) :
    lastPut (configEntries lines) domain = some address := by
  rw [lastPut_eq_head?, once]
  rfl

/-! ### Steps -/

def countedAnswers (message : Message) : List ResourceRecord :=
  message.answers.take message.answerCount.toNat

/-- The callback does not come to the entry of the domain: a reply has no address list
and no alias for it, and a sweep does not find it expired and makes safe removals. -/
def LeavesDomain (domain : StringT) (before : World) : Int × Occasion → Prop
  | (_, .request _ _) => True
  | (_, .reply message) => lastOwner 1 (countedAnswers message) ≠ some domain ∧
      ∀ answer ∈ countedAnswers message, answer.type = 5 → answer.name ≠ domain
  | (now, .sweep) => SweepsSafe now before ∧
      ∀ cache, ipv4CacheGet before.ipv4Table domain = .ok (some cache) →
        ipv4Expired now cache = false

structure ManualEntry (began : Int) (domain : StringT) (address : UInt32)
    (maps : CacheMaps) : Prop where
  entry : maps.ipv4 domain = some (configuredCache began address)
  unaliased : maps.cname domain = none

theorem enterCname_of_ne {now : Int} {answer : ResourceRecord} {domain : StringT}
    (other : answer.type = 5 → answer.name ≠ domain) (map : StringT → Option CnameCache) :
    enterCname now map answer domain = map domain := by
  unfold enterCname
  cases answer.responseData with
  | domain name =>
      dsimp only
      by_cases isCname : answer.type = 5
      · rw [if_pos isCname]
        exact Function.update_of_ne (other isCname).symm _ _
      · rw [if_neg isCname]
  | _ => rfl

theorem enterCname_others {now : Int} {answers : List ResourceRecord} {domain : StringT}
    (others : ∀ answer ∈ answers, answer.type = 5 → answer.name ≠ domain)
    (map : StringT → Option CnameCache) :
    answers.foldl (enterCname now) map domain = map domain := by
  induction answers generalizing map with
  | nil => rfl
  | cons answer answers ih =>
      rw [List.foldl_cons, ih fun other member => others other (List.mem_cons_of_mem _ member)]
      exact enterCname_of_ne (others answer List.mem_cons_self) map

theorem ipv4MapPut_of_ne {map : StringT → Option Ipv4Cache} {domain owner : StringT}
    (different : domain ≠ owner) (now : Int) (cache : Ipv4Cache) :
    ipv4MapPut now map owner cache domain = map domain := by
  unfold ipv4MapPut
  split
  · rfl
  · exact Function.update_of_ne different _ _

theorem reply_ipv4_of_ne {now : Int} {answers : List ResourceRecord} {domain : StringT}
    (other : lastOwner 1 answers ≠ some domain) (maps : CacheMaps) :
    (maps.reply now answers).ipv4 domain = maps.ipv4 domain := by
  unfold CacheMaps.reply
  cases hOwner : lastOwner 1 answers with
  | none => rfl
  | some owner =>
      rw [hOwner] at other
      exact ipv4MapPut_of_ne (fun same => other (congrArg some same.symm)) _ _

theorem ManualEntry.step {began : Int} {domain : StringT} {address : UInt32}
    (notZero : address ≠ 0) {before after : CacheMaps} {world : World}
    (shows : Shows world before) (manual : ManualEntry began domain address before)
    {event : Int × Occasion} (leaves : LeavesDomain domain world event)
    (step : MapStep before event after) : ManualEntry began domain address after := by
  obtain ⟨entry, unaliased⟩ := manual
  cases step with
  | request flags =>
      refine ⟨?_, unaliased⟩
      have unmarked : (configuredCache began address).flagged =
          configuredCache began address := by
        rw [flagged_eq_iff]
        simp [configuredCache, notZero]
      rcases flags domain with same | revised
      · exact same.trans entry
      · rw [entry] at revised
        exact revised.trans (congrArg some unmarked)
  | @reply now message =>
      obtain ⟨otherOwner, otherAliases⟩ := leaves
      exact ⟨(reply_ipv4_of_ne otherOwner before).trans entry,
        (enterCname_others otherAliases before.cname).trans unaliased⟩
  | sweep =>
      refine ⟨?_, unaliased⟩
      have unexpired := leaves.2 _ (by rw [shows.ipv4Get, entry])
      change (before.ipv4 domain).filter _ = _
      rw [entry, Option.filter_some, unexpired]
      rfl

/-! ### Runs -/

theorem ManualEntry.answered {began : Int} {domain : StringT} {address : UInt32}
    (notZero : address ≠ 0) {world : World} {maps : CacheMaps} (shows : Shows world maps)
    (filled : ListsFilled world) (manual : ManualEntry began domain address maps)
    {message : Message} {cls : UInt16} (ready : LogReady message)
    (queryCount : message.queryCount = 1)
    (single : message.queries = [{ name := domain, type := 1, cls := cls }])
    (short : 2 * domain.length + 34 ≤ 1500) (client : SockAddr) :
    AnsweredLocally world message client [generateIpv4Response domain address] := by
  have found : ipv4CacheGet world.ipv4Table domain =
      .ok (some (configuredCache began address)) := by
    rw [shows.ipv4Get, manual.entry]
  have chased : Chased world.cnameTable domain [] domain := by
    apply Chased.last
    rw [shows.cnameGet, manual.unaliased]
  have resolved : Resolved world 1 { name := domain, type := 1, cls := cls } :=
    { found := found_inet4 rfl chased found
      ends := fun _ => ⟨_, _, chased, Nat.zero_lt_one⟩ }
  have unblocked : ¬ Blocked world { name := domain, type := 1, cls := cls } := by
    rintro ⟨_, links, last, cache, chased', stored, isZero⟩
    rw [(chased.unique chased').2, found] at stored
    cases stored
    exact notZero (Option.some.inj isZero)
  have made (env : Env) (enough : 1 ≤ env.fuel) :
      QueryRecords env world { name := domain, type := 1, cls := cls }
        [generateIpv4Response domain address] := by
    have short : ([] : List (StringT × CnameCache)).length < env.fuel := enough
    exact .found4 rfl chased short found
  have few : [generateIpv4Response domain address].length < 65536 :=
    Nat.succ_lt_succ (Nat.zero_lt_succ _)
  have fits : FitsPacket (cachedReply message 1 [generateIpv4Response domain address]) := by
    refine (fitsPacket_cachedReply_iff queryCount single few ?_).mpr ?_
    · intro record member
      rw [List.mem_singleton.mp member]
      exact contiguous_generateIpv4Response domain address
    · change 12 + (domain.length + 6) + [domain.length + 12 + 4].sum ≤ 1500
      rw [List.sum_singleton]
      omega
  exact answeredLocally_single shows.ipv4 filled.ipv4 ready queryCount single resolved
    unblocked made few fits client

private def lineOfA : List UInt8 := [97, 32, 49, 46, 50, 46, 51, 46, 52]

private def textOfA : List UInt8 := lineOfA ++ [10]

private def zeroOctets : Env := { fuel := 2, junk := fun _ _ => 0 }

private def loaded : World := reached (startUp zeroOctets .ascending 0 (some textOfA))

end PostDns
