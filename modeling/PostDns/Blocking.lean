/-
Which requests are refused (socket.c, the banned branch of `bind_socket_read`).

A domain is meant to be blocked when the configuration file maps it to 0.0.0.0.  The
code tests whether the first address it has cached for a domain is zero, and upstream
replies, sweeps and the requests themselves all write what it tests.
-/

import PostDns.ConfigLines
import PostDns.ManualEntries

namespace PostDns

open Foundation

/-! ### Blocked domains -/

def ConfiguredBlocked (lines : List (List UInt8)) (domain : StringT) : Prop :=
  FileMaps lines domain 0

/-- The callback makes no other domain blocked and unblocks none: the address list of a
reply, unless it is kept out by a manual entry, starts with zero exactly when the domain is
blocked, and a sweep finds no entry of a blocked domain expired and makes safe removals. -/
def KeepsBlocked (lines : List (List UInt8)) (before : World) : Int × Occasion → Prop
  | (_, .request _ _) => True
  | (_, .reply message) => ∀ domain, lastOwner 1 (countedAnswers message) = some domain →
      (∃ cache, ipv4CacheGet before.ipv4Table domain = .ok (some cache) ∧
        cache.manual = true) ∨
      (((countedAnswers message).filterMap answerAddress4).head? = some 0 ↔
        ConfiguredBlocked lines domain)
  | (now, .sweep) => SweepsSafe now before ∧
      ∀ domain cache, ConfiguredBlocked lines domain →
        ipv4CacheGet before.ipv4Table domain = .ok (some cache) →
        ipv4Expired now cache = false

def BlockedExactly (lines : List (List UInt8)) (map : StringT → Option Ipv4Cache) : Prop :=
  ∀ domain, (∃ cache, map domain = some cache ∧ cache.node.head? = some 0) ↔
    ConfiguredBlocked lines domain

theorem BlockedExactly.flags {lines : List (List UInt8)} {map map' : StringT → Option Ipv4Cache}
    (exact : BlockedExactly lines map) (flags : FlagsRevised map map') :
    BlockedExactly lines map' := by
  intro domain
  rw [← exact domain]
  rcases flags domain with same | revised
  · rw [same]
  · rw [revised]
    cases map domain with
    | none => simp
    | some cache => simp [AddressCache.flagged]

theorem BlockedExactly.mapPut {lines : List (List UInt8)} {map : StringT → Option Ipv4Cache}
    (exact : BlockedExactly lines map) {now : Int} {owner : StringT} {cache : Ipv4Cache}
    (kept : (∃ old, map owner = some old ∧ old.manual = true) ∨
      (cache.node.head? = some 0 ↔ ConfiguredBlocked lines owner)) :
    BlockedExactly lines (ipv4MapPut now map owner cache) := by
  unfold ipv4MapPut
  split
  · exact exact
  · rename_i unmarked
    rcases kept with ⟨old, stored, manual⟩ | agrees
    · rw [stored] at unmarked
      exact absurd manual unmarked
    · intro domain
      by_cases same : domain = owner
      · subst same
        rw [Function.update_self, ← agrees]
        simp [AddressCache.stored]
      · rw [Function.update_of_ne same]
        exact exact domain

theorem BlockedExactly.step {lines : List (List UInt8)} {before after : CacheMaps}
    {world : World} (shows : Shows world before) (exact : BlockedExactly lines before.ipv4)
    {event : Int × Occasion} (keeps : KeepsBlocked lines world event)
    (step : MapStep before event after) : BlockedExactly lines after.ipv4 := by
  cases step with
  | request flags => exact exact.flags flags
  | @reply now message =>
      have kept := keeps
      apply CacheMaps.reply_ipv4 exact
      intro owner isOwner
      apply exact.mapPut
      rcases kept owner isOwner with ⟨old, stored, manual⟩ | agrees
      · rw [shows.ipv4Get] at stored
        exact Or.inl ⟨old, Except.ok.inj stored, manual⟩
      · exact Or.inr agrees
  | @sweep now =>
      intro domain
      constructor
      · rintro ⟨cache, stored, isZero⟩
        exact (exact domain).mp ⟨cache, (Option.filter_eq_some_iff.mp stored).1, isZero⟩
      · intro blocked
        obtain ⟨cache, stored, isZero⟩ := (exact domain).mpr blocked
        have unexpired := keeps.2 domain cache blocked (by rw [shows.ipv4Get, stored])
        refine ⟨cache, Option.filter_eq_some_iff.mpr ⟨stored, ?_⟩, isZero⟩
        rw [unexpired]
        rfl

/-! ### Runs -/

private def blockOfA : List UInt8 := [97, 32, 48, 46, 48, 46, 48, 46, 48]

private def readsZero : Env := { fuel := 20, junk := fun _ _ => 0 }

private def blocking : World := reached (startUp readsZero .ascending 0 (some (blockOfA ++ [10])))

private def unblocked : World := reached (clearCallback 120 blocking)

end PostDns
