/-
What the lines of a configuration file say (README.md, ipv4_cache.c).

A line maps a domain to an address when it is the domain, a space and the address in
dotted decimal, and the last such line about a domain counts.  The loader stores the
address 0.0.0.0 for every other second word.
-/

import PostDns.Configured
import PostDns.DottedQuad

namespace PostDns

open Foundation

/-! ### Texts of addresses -/

/-- The text is the address in dotted decimal, or no address text at all and the address
is 0.0.0.0. -/
def TextLeaves (text : List UInt8) (address : UInt32) : Prop :=
  text = quadText (split32 address) ∨ address = 0 ∧ ¬ ValidQuad text

theorem uvIp4Addr_eq_iff {text : List UInt8} {address : UInt32} :
    swap32 (uvIp4Addr text) = address ↔ TextLeaves text address := by
  have octets : swap32 (uvIp4Addr text) = address ↔
      littleEndianInt (uvIp4Addr text) = split32 address := by
    rw [← split32_swap32]
    exact ⟨fun same => congrArg split32 same, fun same => split32_injective same⟩
  have zeros : split32 address = [0, 0, 0, 0] ↔ address = 0 :=
    ⟨fun same => @split32_injective address 0 same, fun isZero => by rw [isZero]; rfl⟩
  rw [octets, uvIp4Addr_octets_iff (split32_length address), zeros, and_comm]
  exact Iff.rfl

def LineMaps (line : List UInt8) (domain : StringT) (address : UInt32) : Prop :=
  splitLine line = some (domain, quadText (split32 address))

theorem configLine_eq_some {line : List UInt8} {domain : StringT} {address : UInt32} :
    configLine line = some (domain, address) ↔
      ∃ token, splitLine line = some (domain, token) ∧ TextLeaves token address := by
  unfold configLine
  rw [Option.map_eq_some_iff]
  constructor
  · rintro ⟨⟨name, token⟩, split, entry⟩
    cases entry
    exact ⟨token, split, uvIp4Addr_eq_iff.mp rfl⟩
  · rintro ⟨token, split, leaves⟩
    exact ⟨(domain, token), split, by rw [uvIp4Addr_eq_iff.mpr leaves]⟩

/-! ### The last line about a domain -/

def LastOf {α : Type} (about : α → Prop) (entries : List α) (entry : α) : Prop :=
  ∃ before after, entries = before ++ entry :: after ∧ about entry ∧
    ∀ later ∈ after, ¬ about later

theorem LastOf.mem {α : Type} {about : α → Prop} {entries : List α} {entry : α}
    (last : LastOf about entries entry) : entry ∈ entries ∧ about entry := by
  obtain ⟨before, after, split, here, _⟩ := last
  rw [split]
  exact ⟨List.mem_append_right _ List.mem_cons_self, here⟩

def FileMaps (lines : List (List UInt8)) (domain : StringT) (address : UInt32) : Prop :=
  ∃ line, LastOf (fun line => ∃ address, LineMaps line domain address) lines line ∧
    LineMaps line domain address

section Snoc

variable {lines : List (List UInt8)} {line : List UInt8} {domain : StringT}
  {token : List UInt8}

end Snoc

/-- Every entry that the loader makes of a file of short lines is in the file, but for the
address 0.0.0.0 of a mistyped line. -/
theorem configEntries_said {lines : List (List UInt8)} {domain : StringT} {address : UInt32}
    (member : (domain, address) ∈ configEntries lines) :
    (∃ line ∈ lines, LineMaps line domain address) ∨
      address = 0 ∧ ∃ line ∈ lines, ∃ token,
        splitLine line = some (domain, token) ∧ ¬ ValidQuad token := by
  obtain ⟨line, inFile, entry⟩ := List.mem_filterMap.mp member
  obtain ⟨token, split, leaves⟩ := configLine_eq_some.mp entry
  cases leaves with
  | inl spelled => exact Or.inl ⟨line, inFile, by rw [LineMaps, split, spelled]⟩
  | inr zero => exact Or.inr ⟨zero.1, line, inFile, token, split, zero.2⟩

end PostDns
