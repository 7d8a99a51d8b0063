/-
The decoder reads the wire grammar.

Each reader is given one specification lemma: on octets that spell a value it
returns that value and the position behind it.  Readers that follow pointers
need enough fuel, which exists because a spelling is finite.
-/

import PostDns.Decode
import PostDns.Fuel
import PostDns.Rfc1035.Grammar

namespace PostDns

open Foundation
open Rfc1035 (Label DomainName RData nameLength encodeLabels encodeQuestion NameAt
  DataAt RecordAt AnswersAt WellFormed fixedFields)

/-! ### What the decoder makes of a message -/

def dotJoin (labels : List Label) : StringT := [dot].intercalate labels

theorem dotJoin_cons_cons (label next : Label) (rest : List Label) :
    dotJoin (label :: next :: rest) = label ++ ([dot] ++ dotJoin (next :: rest)) := by
  simp [dotJoin, List.intercalate_cons_cons]

def decodedFlags (flags : Rfc1035.Flags) : Flags :=
  { qr := UInt8.ofNat flags.qr.toNat
    opcode := UInt8.ofNat flags.opcode.val
    aa := UInt8.ofNat flags.aa.toNat
    tc := UInt8.ofNat flags.tc.toNat
    rd := UInt8.ofNat flags.rd.toNat
    ra := UInt8.ofNat flags.ra.toNat
    z := UInt8.ofNat flags.z.val
    rcode := UInt8.ofNat flags.rcode.val }

def decodedQuery (question : Rfc1035.Question) : Query :=
  { name := dotJoin question.name.labels
    type := question.qtype
    cls := question.qclass }

def decodedData : RData → ResponseData
  | .a address => .inet4 address
  | .cname target => .domain (dotJoin target.labels)
  | .aaaa address => .inet6 address.val
  | .other _ _ _ => .unset

def decodedRecord (record : Rfc1035.Record) (rdlength : UInt16) : ResourceRecord :=
  { name := dotJoin record.owner.labels
    type := record.data.rtype
    cls := record.rclass
    ttl := record.ttl
    responseDataLength := rdlength
    responseData := decodedData record.data }

def decodedMessage (message : Rfc1035.Message) (rdlengths : List UInt16) : Message :=
  { id := message.id
    flags := decodedFlags message.flags
    queryCount := UInt16.ofNat message.questions.length
    answerCount := UInt16.ofNat message.answers.length
    authorityCount := message.authorityCount
    additionalCount := message.additionalCount
    queries := message.questions.map decodedQuery
    answers := List.zipWith decodedRecord message.answers rdlengths }

/-- The names that survive the passage through the name arrays: none is empty,
and no owner name holds a zero octet before its last octet. -/
structure Decodable (message : Rfc1035.Message) : Prop where
  questions : ∀ question ∈ message.questions, question.name.labels ≠ []
  owners : ∀ record ∈ message.answers, record.owner.labels ≠ []
  ownerOctets :
    ∀ record ∈ message.answers, (0 : UInt8) ∉ (dotJoin record.owner.labels).dropLast
  targets :
    ∀ record ∈ message.answers, ∀ target, record.data = .cname target →
      target.labels ≠ []

/-! ### Readers -/

theorem readShort_out {buf : List UInt8} {index : Nat} {value : UInt16}
    (held : HoldsAt buf index (split16 value)) :
    (readShort buf index).out = .ok value := by
  rw [split16, HoldsAt.cons_iff, HoldsAt.cons_iff] at held
  unfold readShort
  rw [Logged.bind_out_of_ok (readBase_out_of_some held.1),
    Logged.bind_out_of_ok (readBase_out_of_some held.2.1), Logged.pure_out,
    char2Short_eq_join16, join16_split16]

theorem copyLetters_out {buf : List UInt8} (region : Region) {bufPos : Nat}
    {letters : List UInt8} (cells : List UInt8)
    (held : HoldsAt buf bufPos letters) :
    (copyLetters buf region letters.length bufPos cells).out =
      .ok (cells ++ letters) := by
  induction letters generalizing bufPos cells with
  | nil => simp [copyLetters]
  | cons letter rest ih =>
      rw [HoldsAt.cons_iff] at held
      rw [List.length_cons, copyLetters,
        Logged.bind_out_of_ok (readBase_out_of_some held.1),
        Logged.bind_out_of_ok (writeAt_out _ _), ih _ held.2]
      simp

theorem closeString_out (region : Region) {cells : List UInt8}
    (nonempty : cells ≠ []) :
    (closeString region cells).out = .ok cells.dropLast := by
  unfold closeString
  rw [Logged.bind_out_of_ok (writeAt_out _ _)]
  cases cells with
  | nil => contradiction
  | cons first rest => rfl

@[simp] theorem closeTarget_out (cells : List UInt8) :
    (closeTarget cells).out =
      .ok (if cells = [] then .rootDomain else .domain cells.dropLast) := rfl

def dotted (labels : List Label) : List UInt8 :=
  labels.flatMap (fun label => label ++ [dot])

theorem dotted_cons (label : Label) (rest : List Label) :
    dotted (label :: rest) = label ++ ([dot] ++ dotted rest) := by
  simp [dotted]

theorem dotted_ne_nil {labels : List Label} (nonempty : labels ≠ []) :
    dotted labels ≠ [] := by
  cases labels with
  | nil => contradiction
  | cons label rest => simp [dotted]

theorem dotted_dropLast {labels : List Label} (nonempty : labels ≠ []) :
    (dotted labels).dropLast = dotJoin labels := by
  induction labels with
  | nil => contradiction
  | cons label rest ih =>
      cases rest with
      | nil => simp [dotted, dotJoin]
      | cons next others =>
          have tail := ih (by simp)
          have tailNonempty : dotted (next :: others) ≠ [] := dotted_ne_nil (by simp)
          rw [dotted_cons, List.dropLast_append_of_ne_nil (by simp),
            List.dropLast_append_of_ne_nil tailNonempty, tail, dotJoin_cons_cons]

theorem letterLength_ne_zero {label : Label} (nonempty : 1 ≤ label.length)
    (short : label.length ≤ 63) : UInt8.ofNat label.length ≠ 0 := by
  intro isZero
  have size := Rfc1035.labelOctet_toNat short
  rw [isZero] at size
  change 0 = label.length at size
  omega

private theorem pointerMark_byte :
    ∀ value < 256,
      (UInt8.ofNat value &&& 0xc0 = 0xc0 ↔ 192 ≤ value) := by
  decide +kernel

theorem pointerMark_iff (octet : UInt8) :
    octet &&& 0xc0 = 0xc0 ↔ 192 ≤ octet.toNat := by
  have mark := pointerMark_byte octet.toNat octet.toNat_lt
  rwa [UInt8.ofNat_toNat] at mark

private theorem pointerHigh_byte :
    ∀ value < 256, (UInt8.ofNat value &&& 0x3f).toNat = value % 64 := by
  decide +kernel

/-- The offset a pointer leads to. -/
theorem pointerOffset_toNat (high low : UInt8) :
    (char2Short (high &&& 0x3f) low).toNat =
      256 * (high.toNat % 64) + low.toNat := by
  have masked := pointerHigh_byte high.toNat high.toNat_lt
  rw [UInt8.ofNat_toNat] at masked
  have lowBound := low.toNat_lt
  rw [char2Short_eq_join16]
  simp only [join16, UInt16.toNat_ofNat', masked]
  omega

theorem questionName_out {buf : List UInt8} {labels : List Label} {bufPos : Nat}
    (sizes : ∀ label ∈ labels, 1 ≤ label.length ∧ label.length ≤ 63)
    (held : HoldsAt buf bufPos (encodeLabels labels))
    (fuel : Nat) (enough : labels.length < fuel) (cells : List UInt8) :
    (questionName buf fuel bufPos cells).out =
      .ok (bufPos + nameLength labels - 1, cells ++ dotted labels) := by
  induction labels generalizing bufPos fuel cells with
  | nil =>
      cases fuel with
      | zero => omega
      | succ fuel =>
          have zero : buf[bufPos]? = some 0 := (HoldsAt.cons_iff.mp held).1
          rw [questionName, Logged.bind_out_of_ok (readBase_out_of_some zero)]
          simp [dotted, nameLength]
  | cons label rest ih =>
      cases fuel with
      | zero => omega
      | succ fuel =>
          have size := sizes label (by simp)
          have split :
              encodeLabels (label :: rest) =
                UInt8.ofNat label.length :: (label ++ encodeLabels rest) := by
            simp [encodeLabels]
          rw [split, HoldsAt.cons_iff, HoldsAt.append_iff] at held
          have later := ih (fun other member => sizes other (by simp [member]))
            held.2.2 fuel (by simpa using enough) ((cells ++ label) ++ [dot])
          have finish :
              bufPos + 1 + label.length + nameLength rest - 1 =
                bufPos + nameLength (label :: rest) - 1 := by
            simp only [nameLength, List.map_cons, List.sum_cons]
            omega
          rw [questionName, Logged.bind_out_of_ok (readBase_out_of_some held.1),
            if_neg (letterLength_ne_zero size.1 size.2), Rfc1035.labelOctet_toNat size.2,
            Logged.bind_out_of_ok (copyLetters_out .qvalue cells held.2.1),
            Logged.bind_out_of_ok (writeAt_out _ _), later, finish, dotted_cons]
          simp

theorem createName_yields {buf : List UInt8} (region : Region) {bufPos finish : Nat}
    {labels : List Label} (spelled : NameAt buf bufPos labels finish)
    (cells : List UInt8) :
    Yields (fun env => createName buf region env.fuel bufPos cells)
      (finish - 1, cells ++ dotted labels) := by
  suffices h : ∃ enough, ∀ fuel, enough ≤ fuel →
      (createName buf region fuel bufPos cells).out =
        .ok (finish - 1, cells ++ dotted labels) by
    rcases h with ⟨enough, done⟩
    exact ⟨enough, fun env more => done env.fuel more⟩
  induction spelled generalizing cells with
  | @root offset zero =>
      refine ⟨1, ?_⟩
      intro fuel enough
      cases fuel with
      | zero => omega
      | succ fuel =>
          have here : buf[offset]? = some 0 := (HoldsAt.cons_iff.mp zero).1
          rw [createName, Logged.bind_out_of_ok (readBase_out_of_some here)]
          simp [dotted]
  | @label offset finish label rest nonempty short here later ih =>
      rcases ih ((cells ++ label) ++ [dot]) with ⟨enough, done⟩
      refine ⟨enough + 1, ?_⟩
      intro fuel more
      cases fuel with
      | zero => omega
      | succ fuel =>
          rw [HoldsAt.cons_iff] at here
          have unmarked : ¬ UInt8.ofNat label.length &&& 0xc0 = 0xc0 := by
            rw [pointerMark_iff, Rfc1035.labelOctet_toNat short]
            omega
          rw [createName, Logged.bind_out_of_ok (readBase_out_of_some here.1),
            if_neg (letterLength_ne_zero nonempty short), if_neg unmarked,
            Rfc1035.labelOctet_toNat short,
            Logged.bind_out_of_ok (copyLetters_out region cells here.2),
            Logged.bind_out_of_ok (writeAt_out _ _), done fuel (by omega), dotted_cons]
          simp
  | @pointer offset elsewhere high low labels marked here target ih =>
      rcases ih cells with ⟨enough, done⟩
      refine ⟨enough + 1, ?_⟩
      intro fuel more
      cases fuel with
      | zero => omega
      | succ fuel =>
          rw [HoldsAt.cons_iff, HoldsAt.cons_iff] at here
          have isMarked : high &&& 0xc0 = 0xc0 := (pointerMark_iff high).mpr marked
          have nonzero : high ≠ 0 := by
            intro isZero
            rw [isZero] at marked
            contradiction
          rw [createName, Logged.bind_out_of_ok (readBase_out_of_some here.1),
            if_neg nonzero, if_pos isMarked,
            Logged.bind_out_of_ok (readBase_out_of_some here.2.1),
            pointerOffset_toNat, Logged.bind_out_of_ok (done fuel (by omega))]
          rfl

/-! ### Header -/

private theorem char2bit_firstFlags :
    ∀ (qr : Bool) (opcode : Fin 16) (aa tc rd : Bool),
      char2bit (UInt8.ofNat (128 * qr.toNat + 8 * opcode.val + 4 * aa.toNat +
          2 * tc.toNat + rd.toNat)) =
        [UInt8.ofNat qr.toNat, UInt8.ofNat (opcode.val / 8 % 2),
          UInt8.ofNat (opcode.val / 4 % 2), UInt8.ofNat (opcode.val / 2 % 2),
          UInt8.ofNat (opcode.val % 2), UInt8.ofNat aa.toNat, UInt8.ofNat tc.toNat,
          UInt8.ofNat rd.toNat] := by
  decide +kernel

private theorem char2bit_secondFlags :
    ∀ (ra : Bool) (z : Fin 8) (rcode : Fin 16),
      char2bit (UInt8.ofNat (128 * ra.toNat + 16 * z.val + rcode.val)) =
        [UInt8.ofNat ra.toNat, UInt8.ofNat (z.val / 4 % 2),
          UInt8.ofNat (z.val / 2 % 2), UInt8.ofNat (z.val % 2),
          UInt8.ofNat (rcode.val / 8 % 2), UInt8.ofNat (rcode.val / 4 % 2),
          UInt8.ofNat (rcode.val / 2 % 2), UInt8.ofNat (rcode.val % 2)] := by
  decide +kernel

private theorem fourBits_sum :
    ∀ value : Fin 16,
      (UInt8.ofNat (value.val / 8 % 2) <<< 3) + (UInt8.ofNat (value.val / 4 % 2) <<< 2) +
          (UInt8.ofNat (value.val / 2 % 2) <<< 1) + UInt8.ofNat (value.val % 2) =
        UInt8.ofNat value.val := by
  decide +kernel

private theorem threeBits_sum :
    ∀ value : Fin 8,
      (UInt8.ofNat (value.val / 4 % 2) <<< 2) + (UInt8.ofNat (value.val / 2 % 2) <<< 1) +
          UInt8.ofNat (value.val % 2) =
        UInt8.ofNat value.val := by
  decide +kernel

theorem bits2flags_octets {flags : Rfc1035.Flags} {first second : UInt8}
    (spelled : flags.octets = [first, second]) :
    bits2flags (char2bit first ++ char2bit second) = decodedFlags flags := by
  rcases flags with ⟨qr, opcode, aa, tc, rd, ra, z, rcode⟩
  simp only [Rfc1035.Flags.octets, List.cons.injEq, and_true] at spelled
  rcases spelled with ⟨rfl, rfl⟩
  rw [char2bit_firstFlags, char2bit_secondFlags]
  simp only [bits2flags, List.cons_append, List.nil_append, List.getD_cons_zero,
    List.getD_cons_succ, fourBits_sum, threeBits_sum, decodedFlags]

def headerMessage (message : Rfc1035.Message) : Message :=
  { decodedMessage message [] with queries := [], answers := [] }

theorem buf2messageHeader_out {buf : List UInt8} {message : Rfc1035.Message}
    (held : HoldsAt buf 0 (Rfc1035.header message)) :
    (buf2messageHeader buf).out = .ok (headerMessage message) := by
  obtain ⟨first, second, spelled⟩ :
      ∃ first second, message.flags.octets = [first, second] := ⟨_, _, rfl⟩
  simp only [Rfc1035.header, HoldsAt.append_iff, spelled, split16_length,
    List.length_cons, List.length_nil, HoldsAt.cons_iff] at held
  rcases held with ⟨hId, ⟨hFirst, hSecond, _⟩, hQueries, hAnswers, hAuthority, hAdditional⟩
  unfold buf2messageHeader
  rw [Logged.bind_out_of_ok (readShort_out hId),
    Logged.bind_out_of_ok (readBase_out_of_some hFirst),
    Logged.bind_out_of_ok (readBase_out_of_some hSecond),
    Logged.bind_out_of_ok (readShort_out hQueries),
    Logged.bind_out_of_ok (readShort_out hAnswers),
    Logged.bind_out_of_ok (readShort_out hAuthority),
    Logged.bind_out_of_ok (readShort_out hAdditional),
    Logged.pure_out, bits2flags_octets spelled]
  rfl

/-! ### Questions -/

theorem buf2messageQuery_yields_labels {buf : List UInt8} {bufPos : Nat}
    {labels : List Label} (nonempty : labels ≠ [])
    (sizes : ∀ label ∈ labels, 1 ≤ label.length ∧ label.length ≤ 63) (type cls : UInt16)
    (held : HoldsAt buf bufPos (encodeLabels labels ++ (split16 type ++ split16 cls))) :
    Yields (fun env => buf2messageQuery env buf bufPos)
      ({ name := dotJoin labels, type := type, cls := cls },
        bufPos + (encodeLabels labels ++ (split16 type ++ split16 cls)).length) := by
  rw [HoldsAt.append_iff, HoldsAt.append_iff, Rfc1035.encodeLabels_length,
    split16_length] at held
  refine ⟨labels.length + 1, ?_⟩
  intro env enough
  have positive : 1 ≤ nameLength labels := by
    unfold nameLength
    omega
  have typeAt : bufPos + nameLength labels - 1 + 1 = bufPos + nameLength labels := by
    omega
  have clsAt : bufPos + nameLength labels - 1 + 3 = bufPos + nameLength labels + 2 := by
    omega
  have finish :
      bufPos + nameLength labels - 1 + 5 =
        bufPos + (encodeLabels labels ++ (split16 type ++ split16 cls)).length := by
    simp only [List.length_append, Rfc1035.encodeLabels_length, split16_length]
    omega
  have cellsNonempty : [] ++ dotted labels ≠ [] := by
    simpa using dotted_ne_nil nonempty
  unfold buf2messageQuery
  rw [Logged.bind_out_of_ok (questionName_out sizes held.1 env.fuel (by omega) []),
    Logged.bind_out_of_ok (closeString_out .qvalue cellsNonempty)]
  simp only [typeAt, clsAt, finish]
  rw [Logged.bind_out_of_ok (readShort_out held.2.1),
    Logged.bind_out_of_ok (readShort_out held.2.2), List.nil_append,
    dotted_dropLast nonempty]
  rfl

theorem buf2messageQuery_yields {buf : List UInt8} {bufPos : Nat}
    {question : Rfc1035.Question} (nonempty : question.name.labels ≠ [])
    (held : HoldsAt buf bufPos (encodeQuestion question)) :
    Yields (fun env => buf2messageQuery env buf bufPos)
      (decodedQuery question, bufPos + (encodeQuestion question).length) :=
  buf2messageQuery_yields_labels nonempty question.name.labelSizes question.qtype
    question.qclass held

theorem buf2messageQuestion_yields {buf : List UInt8}
    {questions : List Rfc1035.Question} {bufPos : Nat}
    (nonempty : ∀ question ∈ questions, question.name.labels ≠ [])
    (held : HoldsAt buf bufPos (questions.flatMap encodeQuestion)) :
    Yields (fun env => buf2messageQuestion env buf questions.length bufPos)
      (questions.map decodedQuery,
        bufPos + (questions.flatMap encodeQuestion).length) := by
  induction questions generalizing bufPos with
  | nil => exact Yields.of_eq (fun env => rfl)
  | cons question rest ih =>
      rw [List.flatMap_cons, HoldsAt.append_iff] at held
      have head := buf2messageQuery_yields (nonempty question (by simp)) held.1
      have tail := ih (fun other member => nonempty other (by simp [member])) held.2
      have finish :
          bufPos + ((question :: rest).flatMap encodeQuestion).length =
            bufPos + (encodeQuestion question).length +
              (rest.flatMap encodeQuestion).length := by
        rw [List.flatMap_cons, List.length_append]
        omega
      rw [finish]
      refine head.bind
        (fun env entry => do
          let rest ← buf2messageQuestion env buf rest.length entry.2
          pure (entry.1 :: rest.1, rest.2)) ?_
      exact tail.bind
        (fun _ entries => pure (decodedQuery question :: entries.1, entries.2))
        (Yields.of_eq (fun env => rfl))

/-! ### Records -/

theorem strcpyResult_of_nonzero (junk : Nat → UInt8) {name : List UInt8}
    (nonzero : (0 : UInt8) ∉ name.dropLast) : strcpyResult junk name = name := by
  by_cases hZero : (0 : UInt8) ∈ name
  · have nonempty : name ≠ [] := List.ne_nil_of_mem hZero
    have lastZero : name.getLast nonempty = 0 := by
      rw [← List.dropLast_append_getLast nonempty, List.mem_append,
        List.mem_singleton] at hZero
      exact (hZero.resolve_left nonzero).symm
    have split : name = name.dropLast ++ [0] := by
      rw [← lastZero]
      exact (List.dropLast_append_getLast nonempty).symm
    have copied :
        name.takeWhile (fun letter => letter ≠ 0) = name.dropLast := by
      conv_lhs => rw [split]
      rw [List.takeWhile_append_of_pos (fun letter member =>
        decide_eq_true (ne_of_mem_of_not_mem member nonzero))]
      simp
    have size : name.dropLast.length + 1 = name.length := by
      conv_rhs => rw [split]
      simp
    unfold strcpyResult
    rw [copied, if_neg (by omega)]
    have noneLeft : name.length - name.dropLast.length - 1 = 0 := by omega
    rw [noneLeft, List.range_zero, List.map_nil]
    exact split.symm
  · unfold strcpyResult
    have copied := stringPrint_of_nonzero hZero
    unfold stringPrint at copied
    rw [copied, if_pos rfl]

theorem readValue_out (junk : Nat → UInt8) {value : StringT} {index : Nat}
    {octet : UInt8} (present : value[index]? = some octet) :
    (readValue junk value index).out = .ok octet := by
  simp [readValue, List.getD_eq_getElem?_getD, present]

theorem string2inet4address_out (junk : Nat → UInt8) (address : UInt32) :
    (string2inet4address junk (split32 address)).out = .ok address := by
  unfold string2inet4address
  rw [Logged.bind_out_of_ok (readValue_out junk rfl),
    Logged.bind_out_of_ok (readValue_out junk rfl),
    Logged.bind_out_of_ok (readValue_out junk rfl),
    Logged.bind_out_of_ok (readValue_out junk rfl), Logged.pure_out,
    char2Short_eq_join16, char2Short_eq_join16, join16_split16, join16_split16,
    shorts2Int_eq_join32, join32_halves]

theorem string2inet6Loop_out (junk : Nat → UInt8) (front rest : List UInt8) :
    (string2inet6Loop junk (front ++ rest) rest.length front.length).out =
      .ok rest := by
  induction rest generalizing front with
  | nil => rfl
  | cons octet rest ih =>
      have here : (front ++ octet :: rest)[front.length]? = some octet := by
        simp
      have later := ih (front ++ [octet])
      simp only [List.append_assoc, List.cons_append, List.nil_append,
        List.length_append, List.length_cons, List.length_nil] at later
      rw [List.length_cons, string2inet6Loop,
        Logged.bind_out_of_ok (readValue_out junk here),
        Logged.bind_out_of_ok later]
      rfl

theorem string2inet6address_out (junk : Nat → UInt8) (address : Rfc1035.Address16) :
    (string2inet6address junk address.val).out = .ok address.val := by
  have whole := string2inet6Loop_out junk [] address.val
  rw [address.property] at whole
  exact whole

/-- The data of a record, read from its first octet to the position of its last
and turned into `response_data`. -/
theorem createRData_yields {buf : List UInt8} {bufPos : Nat} {rdlength : UInt16}
    {data : RData} (located : DataAt buf bufPos rdlength data)
    (named : ∀ target, data = .cname target → target.labels ≠ []) :
    ∃ cells,
      Yields (fun env => createRData env buf bufPos data.rtype rdlength.toNat)
          (bufPos + rdlength.toNat - 1, cells) ∧
        ∀ junk,
          (responseDataOf junk data.rtype cells).out = .ok (decodedData data) := by
  cases data with
  | a address =>
      rcases located with ⟨rfl, held⟩
      refine ⟨split32 address ++ [0], ?_, ?_⟩
      · refine Yields.of_eq (fun env => ?_)
        have copied := copyLetters_out .rdata [] held
        change (createRDataAddress buf bufPos 4).out = _
        rw [createRDataAddress, if_pos (by omega)]
        rw [split32_length] at copied
        rw [Logged.bind_out_of_ok copied]
        rfl
      · intro junk
        change (responseDataOf junk 1 (split32 address ++ [0])).out = _
        rw [responseDataOf, if_pos rfl,
          Logged.bind_out_of_ok (closeString_out .rdata (by simp)),
          List.dropLast_concat, Logged.bind_out_of_ok (string2inet4address_out junk address)]
        rfl
  | cname target =>
      have nonempty := named target rfl
      refine ⟨[] ++ dotted target.labels, createName_yields .rdata located [], ?_⟩
      intro junk
      have cellsNonempty : [] ++ dotted target.labels ≠ [] := by
        simpa using dotted_ne_nil nonempty
      change (responseDataOf junk 5 ([] ++ dotted target.labels)).out = _
      rw [responseDataOf, if_neg (by decide), if_pos rfl, closeTarget_out,
        if_neg cellsNonempty, List.nil_append, dotted_dropLast nonempty]
      rfl
  | aaaa address =>
      rcases located with ⟨rfl, held⟩
      refine ⟨address.val ++ [0], ?_, ?_⟩
      · refine Yields.of_eq (fun env => ?_)
        have copied := copyLetters_out .rdata [] held
        rw [address.property] at copied
        change (createRDataAddress buf bufPos 16).out = _
        rw [createRDataAddress, if_pos (by omega), Logged.bind_out_of_ok copied]
        rfl
      · intro junk
        change (responseDataOf junk 28 (address.val ++ [0])).out = _
        rw [responseDataOf, if_neg (by decide), if_neg (by decide), if_pos rfl,
          Logged.bind_out_of_ok (closeString_out .rdata (by simp)),
          List.dropLast_concat, Logged.bind_out_of_ok (string2inet6address_out junk address)]
        rfl
  | other rtype unstructured octets =>
      refine ⟨[], ?_, ?_⟩
      · refine Yields.of_eq (fun env => ?_)
        change (createRData env buf bufPos rtype rdlength.toNat).out = _
        rw [createRData, if_neg unstructured.1, if_neg unstructured.2.1,
          if_neg unstructured.2.2]
        rfl
      · intro junk
        change (responseDataOf junk rtype []).out = _
        rw [responseDataOf, if_neg unstructured.1, if_neg unstructured.2.1,
          if_neg unstructured.2.2]
        rfl

theorem nameAt_lt {bytes : List UInt8} {offset finish : Nat} {labels : List Label}
    (spelled : NameAt bytes offset labels finish) : offset < finish := by
  induction spelled with
  | root zero => omega
  | label nonempty short here later ih => omega
  | pointer marked here target ih => omega

theorem buf2messageRecord_yields {buf : List UInt8} {bufPos finish : Nat}
    {record : Rfc1035.Record} {rdlength : UInt16}
    (located : RecordAt buf bufPos record rdlength finish)
    (ownerNonempty : record.owner.labels ≠ [])
    (ownerOctets : (0 : UInt8) ∉ (dotJoin record.owner.labels).dropLast)
    (named : ∀ target, record.data = .cname target → target.labels ≠ []) :
    Yields (fun env => buf2messageRecord env buf bufPos)
      (decodedRecord record rdlength, finish) := by
  rcases located with ⟨fields, spelled, fixed, dataAt, _, rfl⟩
  have progress := nameAt_lt spelled
  simp only [fixedFields, split32, HoldsAt.append_iff, List.length_append,
    split16_length, Nat.add_assoc] at fixed
  rcases fixed with ⟨hType, hClass, ⟨hHigh, hLow⟩, hLength⟩
  rcases createRData_yields dataAt named with ⟨cells, dataYields, dataMeans⟩
  rcases createName_yields .name spelled [] with ⟨nameEnough, nameDone⟩
  rcases dataYields with ⟨dataEnough, dataDone⟩
  refine ⟨max nameEnough dataEnough, ?_⟩
  intro env enough
  have cellsNonempty : [] ++ dotted record.owner.labels ≠ [] := by
    simpa using dotted_ne_nil ownerNonempty
  have typeAt : fields - 1 + 1 = fields := by omega
  have classAt : fields - 1 + 3 = fields + 2 := by omega
  have highAt : fields - 1 + 5 = fields + (2 + 2) := by omega
  have lowAt : fields - 1 + 7 = fields + (2 + (2 + 2)) := by omega
  have lengthAt : fields - 1 + 9 = fields + (2 + (2 + (2 + 2))) := by omega
  have dataStart : fields - 1 + 11 = fields + 10 := by omega
  have finishAt :
      fields + 10 + rdlength.toNat - 1 + 1 = fields + 10 + rdlength.toNat := by
    omega
  unfold buf2messageRecord
  rw [Logged.bind_out_of_ok (nameDone env (by omega)),
    Logged.bind_out_of_ok (closeString_out .name cellsNonempty)]
  simp only [typeAt, classAt, highAt, lowAt, lengthAt, dataStart]
  rw [Logged.bind_out_of_ok (readShort_out hType),
    Logged.bind_out_of_ok (readShort_out hClass),
    Logged.bind_out_of_ok (readShort_out hHigh),
    Logged.bind_out_of_ok (readShort_out hLow),
    Logged.bind_out_of_ok (readShort_out hLength),
    Logged.bind_out_of_ok (dataDone env (by omega)),
    Logged.bind_out_of_ok (dataMeans _), Logged.pure_out, List.nil_append,
    dotted_dropLast ownerNonempty, strcpyResult_of_nonzero _ ownerOctets,
    shorts2Int_eq_join32, join32_halves]
  simp only [finishAt]
  rfl

theorem buf2messageRR_yields {buf : List UInt8} {records : List Rfc1035.Record}
    {rdlengths : List UInt16} {bufPos : Nat}
    (located : AnswersAt buf bufPos records rdlengths)
    (owners : ∀ record ∈ records, record.owner.labels ≠ [])
    (ownerOctets :
      ∀ record ∈ records, (0 : UInt8) ∉ (dotJoin record.owner.labels).dropLast)
    (targets :
      ∀ record ∈ records, ∀ target, record.data = .cname target →
        target.labels ≠ []) :
    Yields (fun env => buf2messageRR env buf records.length bufPos)
      (List.zipWith decodedRecord records rdlengths) := by
  induction records generalizing rdlengths bufPos with
  | nil =>
      cases rdlengths with
      | nil => exact Yields.of_eq (fun env => rfl)
      | cons rdlength rdlengths => exact absurd located not_false
  | cons record records ih =>
      cases rdlengths with
      | nil => exact absurd located not_false
      | cons rdlength rdlengths =>
          rcases located with ⟨next, here, later⟩
          have head := buf2messageRecord_yields here (owners record (by simp))
            (ownerOctets record (by simp)) (targets record (by simp))
          have tail := ih later (fun other member => owners other (by simp [member]))
            (fun other member => ownerOctets other (by simp [member]))
            (fun other member => targets other (by simp [member]))
          refine head.bind
            (fun env entry => do
              let rest ← buf2messageRR env buf records.length entry.2
              pure (entry.1 :: rest)) ?_
          exact tail.bind
            (fun _ entries => pure (decodedRecord record rdlength :: entries))
            (Yields.of_eq (fun env => rfl))

/-! ### Messages -/

theorem count_toNat {count : Nat} (bound : count < 65536) :
    (UInt16.ofNat count).toNat = count := by
  rw [UInt16.toNat_ofNat']
  exact Nat.mod_eq_of_lt bound

theorem questionSection_yields (datagram : Datagram)
    {questions : List Rfc1035.Question} (count : questions.length < 65536)
    (nonempty : ∀ question ∈ questions, question.name.labels ≠ [])
    (held : HoldsAt datagram.octets 12 (questions.flatMap encodeQuestion)) :
    Yields
      (fun env => questionSection env datagram.buf (UInt16.ofNat questions.length))
      (questions.map decodedQuery,
        12 + (questions.flatMap encodeQuestion).length) := by
  unfold questionSection
  by_cases room : 12 < datagram.buf.len
  · simp only [if_pos room, count_toNat count]
    exact buf2messageQuestion_yields nonempty
      (held.mono (List.take_prefix datagram.buf.len datagram.buf.base))
  · have noQuestions : questions = [] := by
      cases questions with
      | nil => rfl
      | cons question rest =>
          have fits := held.fits (by simp [encodeQuestion, split16])
          simp only [Datagram.octets, UvBuf.octets, List.length_take, List.flatMap_cons,
            List.length_append, encodeQuestion, split16_length] at fits
          omega
    simp only [if_neg room, noQuestions]
    exact Yields.of_eq (fun env => rfl)

theorem answerSection_yields (buf : UvBuf) {records : List Rfc1035.Record}
    {rdlengths : List UInt16} {endPos : Nat} (count : records.length < 65536)
    (located : AnswersAt buf.base endPos records rdlengths)
    (owners : ∀ record ∈ records, record.owner.labels ≠ [])
    (ownerOctets :
      ∀ record ∈ records, (0 : UInt8) ∉ (dotJoin record.owner.labels).dropLast)
    (targets :
      ∀ record ∈ records, ∀ target, record.data = .cname target →
        target.labels ≠ []) :
    Yields (fun env => answerSection env buf (UInt16.ofNat records.length) endPos)
      (List.zipWith decodedRecord records rdlengths) := by
  unfold answerSection
  by_cases answered : 0 < UInt16.ofNat records.length
  · simp only [if_pos answered, count_toNat count]
    exact buf2messageRR_yields located owners ownerOctets targets
  · have noAnswers : records = [] := by
      rw [UInt16.lt_iff_toNat_lt, count_toNat count] at answered
      exact List.length_eq_zero_iff.mp (Nat.eq_zero_of_not_pos answered)
    subst noAnswers
    exact Yields.of_eq (fun env => rfl)

/-- The decoder returns the meaning of a well-formed datagram, whatever stands
after its answers and whatever follows it in the receive buffer. -/
theorem buf2message_yields (datagram : Datagram) {message : Rfc1035.Message}
    {rdlengths : List UInt16}
    (wellFormed : WellFormed datagram.octets message rdlengths)
    (decodable : Decodable message) :
    Yields (fun env => buf2message env datagram.buf)
      (decodedMessage message rdlengths) := by
  have whole := wellFormed.mono (List.take_prefix datagram.buf.len datagram.buf.base)
  have start : Yields (fun _ => buf2messageHeader datagram.buf.base)
      (headerMessage message) :=
    Yields.of_eq (fun _ => buf2messageHeader_out whole.header)
  have questions := questionSection_yields datagram wellFormed.questionCount
    decodable.questions wellFormed.questions
  have answers := answerSection_yields datagram.buf wellFormed.answerCount
    whole.answers decodable.owners decodable.ownerOctets decodable.targets
  unfold buf2message
  apply Yields.bind start
  apply Yields.bind questions
  apply Yields.bind answers
  exact Yields.of_eq (fun _ => rfl)

end PostDns
