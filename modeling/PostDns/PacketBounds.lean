/-
Which senders stay inside the packet (socket.c, `send_query` and `send_response`).

No write of the encoder is guarded, so a sender stays inside exactly when the message
does that it hands on.
-/

import PostDns.RoundTrip
import PostDns.Send

namespace PostDns

open Foundation
open Foundation.Logged (Always)

def Awaited (clients : Clients) (message : Message) : Prop :=
  ∃ feature address, (message2featureString message).out = .ok feature ∧
    clients feature = some address

theorem fitsPacket_clearReserved (message : Message) :
    FitsPacket (clearReserved message) ↔ FitsPacket message := by
  constructor
  · intro fits
    exact { questions := fits.questions, answers := fits.answers }
  · intro fits
    exact { questions := fits.questions, answers := fits.answers }

/-- The senders stay inside the packet exactly when the expanded message fits. -/
theorem senders_inPacket_iff (env : Env) (clients : Clients) (message : Message) :
    (Always Access.InPacket (sendQuery env message) ↔ FitsPacket message) ∧
      (Always Access.InPacket (sendResponse env clients message) ↔
        (Awaited clients message → FitsPacket message)) := by
  have encodes := (message2buf_inPacket_iff env (clearReserved message)).trans
    (fitsPacket_clearReserved message)
  refine ⟨encodes, ?_⟩
  have featureInside : Always Access.InPacket (message2featureString message) :=
    Logged.always_bind.mpr ⟨initialised_inPacket _ _, fun _ _ => Logged.always_pure _ _⟩
  unfold sendResponse
  rw [Logged.always_bind, and_iff_right featureInside]
  constructor
  · rintro inside ⟨feature, address, named, waiting⟩
    have sends := inside feature named
    rw [waiting] at sends
    exact encodes.mp (Logged.always_bind.mp sends).1
  · intro fits feature named
    cases waiting : clients feature with
    | none => exact Logged.always_pure _ _
    | some address =>
        exact Logged.always_bind.mpr
          ⟨encodes.mpr (fits ⟨feature, address, named, waiting⟩),
            fun _ _ => Logged.always_pure _ _⟩

/-! ### A reply with many addresses -/

def oneLetter : Rfc1035.DomainName :=
  { labels := [[97]], labelSizes := by decide, fits := by decide }

def manyAddressesMessage : Rfc1035.Message :=
  { id := 1
    flags :=
      { qr := true, opcode := 0, aa := false, tc := false, rd := true, ra := true
        z := 0, rcode := 0 }
    questions := [{ name := oneLetter, qtype := 1, qclass := 1 }]
    answers := List.replicate 100
      { owner := oneLetter, rclass := 1, ttl := 300, data := .a 0xc0000201 }
    authorityCount := 0
    additionalCount := 0 }

private theorem manyAddressesMessage_nonempty :
    0 < (Rfc1035.encode manyAddressesMessage).length := by
  rw [Rfc1035.encode, List.length_append, Rfc1035.header_length]
  omega

def manyAddresses : Datagram :=
  { buf :=
      { base := Rfc1035.encode manyAddressesMessage
        len := (Rfc1035.encode manyAddressesMessage).length }
    nonempty := manyAddressesMessage_nonempty
    fits := Nat.le_refl _ }

private theorem manyAddresses_data {record : Rfc1035.Record}
    (member : record ∈ manyAddressesMessage.answers) :
    record = { owner := oneLetter, rclass := 1, ttl := 300, data := .a 0xc0000201 } :=
  List.eq_of_mem_replicate member

private theorem manyAddresses_wellFormed :
    Rfc1035.WellFormed manyAddresses.octets manyAddressesMessage (List.replicate 100 4) := by
  have whole := Rfc1035.wellFormed_encode manyAddressesMessage (by decide)
    (by rw [manyAddressesMessage, List.length_replicate]; decide)
    (fun record member => by
      rw [manyAddresses_data member]
      exact (by decide : 4 < 65536)) []
  have same : manyAddresses.octets = Rfc1035.encode manyAddressesMessage ++ [] := by
    rw [List.append_nil]
    exact List.take_length
  have lengths : manyAddressesMessage.answers.map (fun record => Rfc1035.dataLength record.data) =
      List.replicate 100 4 := by
    rw [manyAddressesMessage, List.map_replicate]
    rfl
  rw [same, ← lengths]
  exact whole

private theorem manyAddresses_text : TextNames manyAddressesMessage := by
  have text : TextName oneLetter := ⟨by decide, by decide⟩
  refine { questions := ?_, owners := ?_, targets := ?_ }
  · intro question member
    rw [List.mem_singleton.mp member]
    exact text
  · intro record member
    rw [manyAddresses_data member]
    exact text
  · intro record member target isCname
    rw [manyAddresses_data member] at isCname
    cases isCname

private theorem manyAddresses_contiguous {record : ResourceRecord}
    (member : record ∈
      (decodedMessage manyAddressesMessage (List.replicate 100 4)).answers) :
    Contiguous record := by
  have replicated : (decodedMessage manyAddressesMessage (List.replicate 100 4)).answers =
      List.replicate 100
        { name := [97], type := 1, cls := 1, ttl := 300, responseDataLength := 4
          responseData := .inet4 0xc0000201 } := by
    decide +kernel
  rw [replicated] at member
  rw [List.eq_of_mem_replicate member]
  exact { carries := ⟨by decide, by decide⟩, extent := rfl, advance := rfl }

/-- The encoder writes behind the packet for a well-formed reply of 1719 octets. -/
theorem not_inPacket_manyAddresses :
    manyAddresses.buf.len ≤ 65507 ∧
      Rfc1035.WellFormed manyAddresses.octets manyAddressesMessage (List.replicate 100 4) ∧
      Yields (fun env => buf2message env manyAddresses.buf)
        (decodedMessage manyAddressesMessage (List.replicate 100 4)) ∧
      ¬ ∀ env, Always Access.InPacket
        (message2buf env (decodedMessage manyAddressesMessage (List.replicate 100 4))) := by
  refine ⟨by decide +kernel, manyAddresses_wellFormed,
    buf2message_reads_grammar manyAddresses _ _ manyAddresses_wellFormed
      manyAddresses_text, ?_⟩
  intro inside
  have fits := (message2buf_inPacket_iff ⟨0, fun _ _ => 0⟩ _).mp (inside ⟨0, fun _ _ => 0⟩)
  have short := (fitsPacket_iff_encodedLength rfl rfl (by decide +kernel)
    (fun _ => manyAddresses_contiguous)).mp fits
  exact absurd short (by decide +kernel)

end PostDns
