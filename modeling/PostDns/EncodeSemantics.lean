/-
The encoder writes the wire grammar.

Every writer continues at the end of what is written, so its specification says
which octets it appends.  The octets that `name2message` produces are described
for arbitrary strings first; names that survive the round trip through a joined
string are the special case.
-/

import PostDns.Encode
import PostDns.DecodeSemantics
import PostDns.Rfc1035.Encode

namespace PostDns

open Foundation
open Rfc1035 (Label RData nameLength encodeLabels encodeQuestion encodeRecord
  fixedFields dataLength dataOctets)

/-! ### Names -/

theorem strcpyResult_length (junk : Nat → UInt8) (name : List UInt8) :
    (strcpyResult junk name).length = name.length := by
  have short : (name.takeWhile (fun letter => letter ≠ 0)).length ≤ name.length :=
    (List.takeWhile_prefix _).length_le
  unfold strcpyResult
  by_cases whole : (name.takeWhile (fun letter => letter ≠ 0)).length = name.length
  · rw [if_pos whole]
  · rw [if_neg whole]
    simp only [List.length_append, List.length_cons, List.length_map,
      List.length_range]
    omega

def tokenOctets (junk : Nat → UInt8) (position : Nat) (token : StringT) : List UInt8 :=
  UInt8.ofNat token.length :: strcpyResult (fun i => junk (position + 1 + i)) token

def spelledTokens (junk : Nat → UInt8) : Nat → List StringT → List UInt8
  | _, [] => []
  | position, token :: tokens =>
      tokenOctets junk position token ++
        spelledTokens junk (position + token.length + 1) tokens

@[simp] theorem tokenOctets_length (junk : Nat → UInt8) (position : Nat)
    (token : StringT) : (tokenOctets junk position token).length = token.length + 1 := by
  rw [tokenOctets, List.length_cons, strcpyResult_length]

/-- The output buffer between two rounds of the loop: what is written so far, and
behind the octet that the last `sprintf` ended with the old contents. -/
structure TokensWritten (junk : Nat → UInt8) (written : List UInt8)
    (output : Nat → UInt8) : Prop where
  starts : Starts output written
  untouched : ∀ index > written.length, output index = junk index

theorem TokensWritten.sprintf {junk output : Nat → UInt8} {written : List UInt8}
    (before : TokensWritten junk written output) (token : StringT) :
    TokensWritten junk (written ++ tokenOctets junk written.length token)
      (overlay output written.length
        (UInt8.ofNat token.length :: (stringPrint token ++ [0]))) := by
  have printed : (stringPrint token).length ≤ token.length :=
    (List.takeWhile_prefix _).length_le
  have next := before.starts.overlay_end
    (UInt8.ofNat token.length :: (stringPrint token ++ [0]))
  constructor
  · unfold tokenOctets strcpyResult
    change Starts _ (written ++ (UInt8.ofNat token.length ::
      if (stringPrint token).length = token.length then token
      else stringPrint token ++ 0 :: _))
    by_cases whole : (stringPrint token).length = token.length
    · rw [if_pos whole]
      have same : stringPrint token = token :=
        (List.takeWhile_prefix _).eq_of_length whole
      rw [same] at next ⊢
      exact next.of_prefix ⟨[0], by simp⟩
    · rw [if_neg whole]
      have regroup (rest : List UInt8) :
          written ++ UInt8.ofNat token.length :: (stringPrint token ++ 0 :: rest) =
            (written ++ UInt8.ofNat token.length :: (stringPrint token ++ [0])) ++
              rest := by
        simp
      rw [regroup]
      refine next.append ?_
      intro index inRange
      rw [List.length_map, List.length_range] at inRange
      have size :
          (written ++ UInt8.ofNat token.length :: (stringPrint token ++ [0])).length =
            written.length + ((stringPrint token).length + 2) := by
        simp
      rw [size, overlay_outside (Or.inr (by simp)),
        before.untouched _ (by omega)]
      simp only [List.getElem?_map, List.getElem?_range inRange, Option.map_some]
      congr 2
      change written.length + 1 + ((stringPrint token).length + 1 + index) = _
      omega
  · intro index later
    rw [List.length_append, tokenOctets_length] at later
    rw [overlay_outside (Or.inr (by simp; omega)), before.untouched _ (by omega)]

theorem name2messageLoop_out (junk : Nat → UInt8) (length : Nat)
    (done tokens : List StringT) {written : List UInt8} {output : Nat → UInt8}
    (before : TokensWritten junk written output) :
    ∃ finished,
      (name2messageLoop length (done ++ tokens) tokens.length done.length
          written.length output).out =
        .ok ((written ++ spelledTokens junk written.length tokens).length, finished) ∧
        TokensWritten junk (written ++ spelledTokens junk written.length tokens)
          finished := by
  induction tokens generalizing done written output with
  | nil =>
      refine ⟨output, ?_, ?_⟩
      · simp [name2messageLoop, spelledTokens]
      · simpa [spelledTokens] using before
  | cons token tokens ih =>
      have here : (done ++ token :: tokens)[done.length]? = some token := by
        simp
      rcases ih (done ++ [token]) (before.sprintf token) with ⟨finished, run, after⟩
      have position :
          (written ++ tokenOctets junk written.length token).length =
            written.length + token.length + 1 := by
        rw [List.length_append, tokenOctets_length]
        omega
      have step : (done ++ [token]).length = done.length + 1 := by simp
      rw [position, step, List.append_assoc, List.append_assoc] at run
      rw [position, List.append_assoc] at after
      refine ⟨finished, ?_, after⟩
      rw [List.length_cons, name2messageLoop, here]
      exact (Logged.bind_out_of_ok (memcpyTo_out _ _ _ _) _).trans run

/-- The octets of the tokens between separators take one octet more than the
string. -/
theorem spelledTokens_length (junk : Nat → UInt8) (position : Nat)
    (tokens : List StringT) (nonempty : tokens ≠ []) :
    (spelledTokens junk position tokens).length =
      ([dot].intercalate tokens).length + 1 := by
  induction tokens generalizing position with
  | nil => contradiction
  | cons token tokens ih =>
      cases tokens with
      | nil => simp [spelledTokens]
      | cons next others =>
          rw [spelledTokens, List.length_append, ih _ (by simp), tokenOctets_length,
            List.intercalate_cons_cons]
          simp only [List.length_append, List.length_cons, List.length_nil]
          omega

def nameOctets (junk : Nat → UInt8) (domainName : StringT) : List UInt8 :=
  spelledTokens junk 0 (domainName.splitOn dot) ++ [0]

@[simp] theorem nameOctets_length (junk : Nat → UInt8) (domainName : StringT) :
    (nameOctets junk domainName).length = domainName.length + 2 := by
  have size := spelledTokens_length junk 0 (domainName.splitOn dot)
    (List.splitOn_ne_nil dot domainName)
  rw [List.intercalate_splitOn] at size
  rw [nameOctets, List.length_append, size]
  rfl

theorem transferName_out (junk : Nat → UInt8) (domainName : StringT) :
    (transferName junk domainName).out = .ok (nameOctets junk domainName) := by
  have initial : TokensWritten junk [] junk :=
    { starts := Starts.nil junk, untouched := fun _ _ => rfl }
  rcases name2messageLoop_out junk domainName.length [] (domainName.splitOn dot)
    initial with ⟨finished, run, after⟩
  simp only [List.nil_append, List.length_nil] at run after
  have closed := after.starts.overlay_end [0]
  have ended :
      Starts (overlay (overlay finished
          (spelledTokens junk 0 (domainName.splitOn dot)).length [0])
          ((spelledTokens junk 0 (domainName.splitOn dot)).length + 1) [0])
        (nameOctets junk domainName) := by
    have twice := closed.overlay_end [0]
    rw [List.length_append] at twice
    exact twice.of_prefix (List.prefix_append _ _)
  have closing :
      (name2message junk domainName).out =
        .ok (overlay (overlay finished
          (spelledTokens junk 0 (domainName.splitOn dot)).length [0])
          ((spelledTokens junk 0 (domainName.splitOn dot)).length + 1) [0]) := by
    unfold name2message
    rw [stringSplit_length, stringSplit_array, Logged.bind_out_of_ok run]
    rfl
  unfold transferName
  rw [Logged.bind_out_of_ok closing, Logged.pure_out,
    ← nameOctets_length junk domainName, ended.firstCells_eq]

/-- The names whose labels survive being joined by dots, split again and printed:
no label holds a dot, or a zero octet before its last octet. -/
structure Rejoinable (labels : List Label) : Prop where
  nonempty : labels ≠ []
  noDots : ∀ label ∈ labels, dot ∉ label
  noZeros : ∀ label ∈ labels, (0 : UInt8) ∉ label.dropLast

theorem spelledTokens_of_noZeros (junk : Nat → UInt8) (position : Nat)
    {labels : List Label} (noZeros : ∀ label ∈ labels, (0 : UInt8) ∉ label.dropLast) :
    spelledTokens junk position labels ++ [0] = encodeLabels labels := by
  induction labels generalizing position with
  | nil => rfl
  | cons label rest ih =>
      have tail := ih (position + label.length + 1)
        (fun other member => noZeros other (by simp [member]))
      rw [spelledTokens, List.append_assoc, tail, tokenOctets,
        strcpyResult_of_nonzero _ (noZeros label (by simp))]
      simp [encodeLabels]

theorem nameOctets_dotJoin (junk : Nat → UInt8) {labels : List Label}
    (rejoinable : Rejoinable labels) :
    nameOctets junk (dotJoin labels) = encodeLabels labels := by
  rw [nameOctets, dotJoin,
    List.splitOn_intercalate dot rejoinable.noDots rejoinable.nonempty,
    spelledTokens_of_noZeros junk 0 rejoinable.noZeros]

theorem transferName_dotJoin (junk : Nat → UInt8) {labels : List Label}
    (rejoinable : Rejoinable labels) :
    (transferName junk (dotJoin labels)).out = .ok (encodeLabels labels) := by
  rw [transferName_out, nameOctets_dotJoin junk rejoinable]

theorem dotJoin_length {labels : List Label} (nonempty : labels ≠ []) :
    (dotJoin labels).length + 2 = nameLength labels := by
  induction labels with
  | nil => contradiction
  | cons label rest ih =>
      cases rest with
      | nil => simp [dotJoin, nameLength]
      | cons next others =>
          have tail := ih (by simp)
          rw [dotJoin_cons_cons]
          simp only [List.length_append, List.length_cons, List.length_nil,
            nameLength, List.map_cons, List.sum_cons] at tail ⊢
          omega

/-! ### Writers -/

def Wrote (run : Exec (Nat → UInt8)) (written : List UInt8) : Prop :=
  ∃ cells, run.out = .ok cells ∧ Starts cells written

def WroteTo (run : Exec (Nat × (Nat → UInt8))) (cursor : Nat)
    (written : List UInt8) : Prop :=
  ∃ cells, run.out = .ok (cursor, cells) ∧ Starts cells written

theorem Wrote.bind {run : Exec (Nat → UInt8)} {written : List UInt8}
    (first : Wrote run written) {next : (Nat → UInt8) → Exec (Nat → UInt8)}
    {more : List UInt8} (rest : ∀ cells, Starts cells written → Wrote (next cells) more) :
    Wrote (run >>= next) more := by
  rcases first with ⟨cells, done, starts⟩
  rcases rest cells starts with ⟨finished, nextDone, nextStarts⟩
  exact ⟨finished, (Logged.bind_out_of_ok done next).trans nextDone, nextStarts⟩

theorem Wrote.bindTo {run : Exec (Nat → UInt8)} {written : List UInt8}
    (first : Wrote run written)
    {next : (Nat → UInt8) → Exec (Nat × (Nat → UInt8))} {cursor : Nat}
    {more : List UInt8}
    (rest : ∀ cells, Starts cells written → WroteTo (next cells) cursor more) :
    WroteTo (run >>= next) cursor more := by
  rcases first with ⟨cells, done, starts⟩
  rcases rest cells starts with ⟨finished, nextDone, nextStarts⟩
  exact ⟨finished, (Logged.bind_out_of_ok done next).trans nextDone, nextStarts⟩

theorem WroteTo.bind {run : Exec (Nat × (Nat → UInt8))} {reached : Nat}
    {written : List UInt8} (first : WroteTo run reached written)
    {next : Nat × (Nat → UInt8) → Exec (Nat × (Nat → UInt8))} {cursor : Nat}
    {more : List UInt8}
    (rest : ∀ cells, Starts cells written → WroteTo (next (reached, cells)) cursor more) :
    WroteTo (run >>= next) cursor more := by
  rcases first with ⟨cells, done, starts⟩
  rcases rest cells starts with ⟨finished, nextDone, nextStarts⟩
  exact ⟨finished, (Logged.bind_out_of_ok done next).trans nextDone, nextStarts⟩

theorem wrote_memcpyTo (region : Region) {cells : Nat → UInt8} {written : List UInt8}
    (starts : Starts cells written) {position : Nat} (atEnd : position = written.length)
    (octets : List UInt8) :
    Wrote (memcpyTo region cells position octets) (written ++ octets) := by
  subst atEnd
  exact ⟨_, memcpyTo_out _ _ _ _, starts.overlay_end octets⟩

theorem wrote_putShort {cells : Nat → UInt8} {written : List UInt8}
    (starts : Starts cells written) {position : Nat} (atEnd : position = written.length)
    (value : UInt16) : Wrote (putShort cells position value) (written ++ split16 value) := by
  rw [putShort, littleEndian16_swap16]
  exact wrote_memcpyTo .packet starts atEnd _

theorem wrote_putInt {cells : Nat → UInt8} {written : List UInt8}
    (starts : Starts cells written) {position : Nat} (atEnd : position = written.length)
    (value : UInt32) : Wrote (putInt cells position value) (written ++ split32 value) := by
  rw [putInt, littleEndianInt_swap32]
  exact wrote_memcpyTo .packet starts atEnd _

/-! ### Header -/

private theorem packBits_first :
    ∀ (qr : Bool) (opcode : Fin 16) (aa tc rd : Bool),
      packBits ([UInt8.ofNat qr.toNat] ++ dec2bin (UInt8.ofNat opcode.val).toNat 4 ++
          [UInt8.ofNat aa.toNat, UInt8.ofNat tc.toNat, UInt8.ofNat rd.toNat]) =
        UInt8.ofNat (128 * qr.toNat + 8 * opcode.val + 4 * aa.toNat +
          2 * tc.toNat + rd.toNat) := by
  decide +kernel

private theorem packBits_second :
    ∀ (ra : Bool) (rcode : Fin 16),
      packBits ([UInt8.ofNat ra.toNat, 0, 0, 0] ++
          dec2bin (UInt8.ofNat rcode.val).toNat 4) =
        UInt8.ofNat (128 * ra.toNat + rcode.val) := by
  decide +kernel

theorem flags2bytes_decodedFlags {flags : Rfc1035.Flags} (cleared : flags.z = 0) :
    flags2bytes (decodedFlags flags) = flags.octets := by
  unfold flags2bytes decodedFlags Rfc1035.Flags.octets
  rw [cleared]
  exact congrArg₂ (fun first second => [first, second])
    (packBits_first _ _ _ _ _) (packBits_second _ _)

def headerOctets (message : Message) : List UInt8 :=
  split16 message.id ++ flags2bytes message.flags ++ split16 message.queryCount ++
    split16 message.answerCount ++ split16 message.authorityCount ++
    split16 message.additionalCount

@[simp] theorem headerOctets_length (message : Message) :
    (headerOctets message).length = 12 := rfl

theorem headerOctets_decodedMessage {message : Rfc1035.Message}
    (cleared : message.flags.z = 0) (rdlengths : List UInt16) :
    headerOctets (decodedMessage message rdlengths) = Rfc1035.header message := by
  unfold headerOctets Rfc1035.header
  rw [decodedMessage, flags2bytes_decodedFlags cleared]
  simp

theorem wrote_message2bufHeader (message : Message) (cells : Nat → UInt8) :
    Wrote (message2bufHeader message cells) (headerOctets message) := by
  unfold message2bufHeader
  refine (wrote_putShort (Starts.nil cells) rfl message.id).bind ?_
  intro cells starts
  refine (wrote_memcpyTo .packet starts rfl (flags2bytes message.flags)).bind ?_
  intro cells starts
  refine (wrote_putShort starts rfl message.queryCount).bind ?_
  intro cells starts
  refine (wrote_putShort starts rfl message.answerCount).bind ?_
  intro cells starts
  refine (wrote_putShort starts rfl message.authorityCount).bind ?_
  intro cells starts
  exact wrote_putShort starts rfl message.additionalCount

/-! ### Questions and answers -/

/-- Running a writer after a pure choice of its octets. -/
theorem wroteTo_of_out {chosen : Exec (List UInt8)} {octets : List UInt8}
    (done : chosen.out = .ok octets)
    {next : List UInt8 → Exec (Nat × (Nat → UInt8))} {cursor : Nat}
    {written : List UInt8} (rest : WroteTo (next octets) cursor written) :
    WroteTo (chosen >>= next) cursor written := by
  rcases rest with ⟨cells, nextDone, starts⟩
  exact ⟨cells, (Logged.bind_out_of_ok done next).trans nextDone, starts⟩

def queryOctets (junk : Nat → UInt8) (query : Query) : List UInt8 :=
  nameOctets junk query.name ++ (split16 query.type ++ split16 query.cls)

@[simp] theorem queryOctets_length (junk : Nat → UInt8) (query : Query) :
    (queryOctets junk query).length = query.name.length + 6 := by
  simp [queryOctets]

theorem queryOctets_decodedQuery (junk : Nat → UInt8) {question : Rfc1035.Question}
    (rejoinable : Rejoinable question.name.labels) :
    queryOctets junk (decodedQuery question) = encodeQuestion question := by
  rw [queryOctets, decodedQuery, nameOctets_dotJoin junk rejoinable]
  rfl

theorem wroteTo_message2bufQuery (env : Env) (start bufPos : Nat) (query : Query)
    {cells : Nat → UInt8} {written : List UInt8} (starts : Starts cells written)
    (atEnd : start + bufPos = written.length) :
    WroteTo (message2bufQuery env start query bufPos cells)
      (bufPos + (query.name.length + 2) + 2)
      (written ++ queryOctets (env.junk (.output (start + bufPos))) query) := by
  have octets (junk : Nat → UInt8) :
      written ++ queryOctets junk query =
        written ++ nameOctets junk query.name ++ split16 query.type ++
          split16 query.cls := by
    simp [queryOctets]
  rw [octets]
  unfold message2bufQuery
  refine wroteTo_of_out (transferName_out _ query.name) ?_
  refine (wrote_memcpyTo .packet starts atEnd _).bindTo ?_
  intro cells starts
  refine (wrote_putShort starts ?_ _).bindTo ?_
  · rw [List.length_append, nameOctets_length, ← atEnd]
  intro cells starts
  refine (wrote_putShort starts ?_ _).bindTo ?_
  · rw [List.length_append, List.length_append, nameOctets_length, ← atEnd]
    rfl
  intro cells starts
  exact ⟨cells, rfl, starts⟩

theorem wroteTo_message2bufQuestion_single (env : Env) (start endPos : Nat)
    (query : Query) {cells : Nat → UInt8} {written : List UInt8}
    (starts : Starts cells written) (atEnd : start = written.length) :
    WroteTo (message2bufQuestion env start [query] 0 endPos cells)
      (endPos + (query.name.length + 6))
      (written ++ queryOctets (env.junk (.output start)) query) := by
  have cursor :
      endPos + (0 + (query.name.length + 2) + 2 + 2) =
        endPos + (query.name.length + 6) := by
    omega
  unfold message2bufQuestion
  refine (wroteTo_message2bufQuery env start 0 query starts (by omega)).bind ?_
  intro cells starts
  rw [← cursor]
  exact ⟨cells, rfl, starts⟩

structure Relayable (record : Rfc1035.Record) : Prop where
  supported : ∀ rtype unstructured octets,
    record.data ≠ .other rtype unstructured octets
  owner : Rejoinable record.owner.labels
  target : ∀ target, record.data = .cname target → Rejoinable target.labels

def AnnouncesLength (rdlength : UInt16) : RData → Prop
  | .cname _ => True
  | data => rdlength = dataLength data

theorem wroteTo_message2bufData (env : Env) {start bufPos : Nat}
    {record : Rfc1035.Record} (relayable : Relayable record) {rdlength : UInt16}
    (announced : AnnouncesLength rdlength record.data)
    {cells : Nat → UInt8} {written : List UInt8} (starts : Starts cells written)
    (atEnd : start + bufPos + 4 = written.length) :
    WroteTo (message2bufData env start (decodedRecord record rdlength) bufPos cells)
      (bufPos + 6 + (dataOctets record.data).length)
      (written ++ split16 (dataLength record.data) ++ dataOctets record.data) := by
  rcases record with ⟨owner, rclass, ttl, data⟩
  cases data with
  | a address =>
      change rdlength = dataLength (.a address) at announced
      subst announced
      have isA (length : UInt16) :
          (decodedRecord ⟨owner, rclass, ttl, .a address⟩ length).type = 1 := rfl
      unfold message2bufData
      rw [isA, if_pos rfl]
      refine (wrote_putShort starts atEnd _).bindTo ?_
      intro cells starts
      refine (wrote_putInt starts ?_ address).bindTo ?_
      · rw [List.length_append, ← atEnd]
        rfl
      intro cells starts
      exact ⟨cells, rfl, starts⟩
  | cname target =>
      have rejoinable := relayable.target target rfl
      have size := dotJoin_length rejoinable.nonempty
      have nameSize : (encodeLabels target.labels).length =
          (dotJoin target.labels).length + 2 := by
        rw [Rfc1035.encodeLabels_length, size]
      have announcedLength :
          dataLength (.cname target) =
            UInt16.ofNat ((dotJoin target.labels).length + 2) := by
        rw [dataLength, dataOctets, nameSize]
      have cursor :
          bufPos + 6 + (dataOctets (.cname target)).length =
            bufPos + 4 + 2 + ((dotJoin target.labels).length + 2) := by
        rw [dataOctets, nameSize]
      rw [cursor, announcedLength]
      have isCname :
          (decodedRecord ⟨owner, rclass, ttl, .cname target⟩ rdlength).type = 5 := rfl
      unfold message2bufData
      rw [isCname, if_neg (by decide), if_pos rfl]
      refine (wrote_putShort starts atEnd _).bindTo ?_
      intro cells starts
      refine wroteTo_of_out (transferName_dotJoin _ rejoinable) ?_
      refine (wrote_memcpyTo .packet starts ?_ _).bindTo ?_
      · rw [List.length_append, ← atEnd]
        rfl
      intro cells starts
      exact ⟨cells, rfl, starts⟩
  | aaaa address =>
      change rdlength = dataLength (.aaaa address) at announced
      subst announced
      have size : (dataLength (.aaaa address)).toNat = address.val.length := by
        rw [Rfc1035.dataLength_toNat]
        · rfl
        · change address.val.length < 65536
          rw [address.property]
          omega
      have cursor :
          bufPos + 6 + (dataOctets (.aaaa address)).length =
            bufPos + 4 + 2 + (dataLength (.aaaa address)).toNat := by
        rw [size]
        rfl
      rw [cursor]
      have isAaaa (length : UInt16) :
          (decodedRecord ⟨owner, rclass, ttl, .aaaa address⟩ length).type = 28 := rfl
      unfold message2bufData
      rw [isAaaa, if_neg (by decide), if_neg (by decide), if_pos rfl]
      refine (wrote_putShort starts atEnd _).bindTo ?_
      intro cells starts
      refine (wrote_memcpyTo .packet starts ?_ address.val).bindTo ?_
      · rw [List.length_append, ← atEnd]
        rfl
      intro cells starts
      exact ⟨cells, rfl, starts⟩
  | other rtype unstructured octets =>
      exact absurd rfl (relayable.supported rtype unstructured octets)

def recordFields (record : Rfc1035.Record) : List UInt8 :=
  encodeLabels record.owner.labels ++ split16 record.data.rtype ++
    split16 record.rclass ++ split32 record.ttl

/-- A record is written by writing its data behind the fields that every record
has, with the cursor still at the TTL. -/
theorem wroteTo_message2bufRecord_of_data (env : Env) {start bufPos : Nat}
    {record : Rfc1035.Record} (owner : Rejoinable record.owner.labels)
    (rdlength : UInt16) {cells : Nat → UInt8} {written : List UInt8}
    (starts : Starts cells written) (atEnd : start + bufPos = written.length)
    {cursor : Nat} {octets : List UInt8}
    (data : ∀ cells, Starts cells (written ++ recordFields record) →
      WroteTo
        (message2bufData env start (decodedRecord record rdlength)
          (bufPos + ((dotJoin record.owner.labels).length + 2) + 2 + 2) cells)
        cursor octets) :
    WroteTo (message2bufRecord env start (decodedRecord record rdlength) bufPos cells)
      cursor octets := by
  have nameSize : (encodeLabels record.owner.labels).length =
      (dotJoin record.owner.labels).length + 2 := by
    rw [Rfc1035.encodeLabels_length, dotJoin_length owner.nonempty]
  have regroup :
      written ++ recordFields record =
        written ++ encodeLabels record.owner.labels ++ split16 record.data.rtype ++
          split16 record.rclass ++ split32 record.ttl := by
    simp [recordFields]
  unfold message2bufRecord
  refine wroteTo_of_out (transferName_dotJoin _ owner) ?_
  refine (wrote_memcpyTo .packet starts atEnd _).bindTo ?_
  intro cells starts
  refine (wrote_putShort starts ?_ _).bindTo ?_
  · rw [List.length_append, nameSize, ← atEnd]
    change start + (bufPos + ((dotJoin record.owner.labels).length + 2)) = _
    omega
  intro cells starts
  refine (wrote_putShort starts ?_ _).bindTo ?_
  · rw [List.length_append, List.length_append, nameSize, ← atEnd, split16_length]
    change start + (bufPos + ((dotJoin record.owner.labels).length + 2) + 2) = _
    omega
  intro cells starts
  refine (wrote_putInt starts ?_ _).bindTo ?_
  · rw [List.length_append, List.length_append, List.length_append, nameSize, ← atEnd,
      split16_length, split16_length]
    change start + (bufPos + ((dotJoin record.owner.labels).length + 2) + 2 + 2) = _
    omega
  intro cells starts
  refine data cells ?_
  rw [regroup]
  exact starts

theorem wroteTo_message2bufRecord (env : Env) {start bufPos : Nat}
    {record : Rfc1035.Record} (relayable : Relayable record) {rdlength : UInt16}
    (announced : AnnouncesLength rdlength record.data)
    {cells : Nat → UInt8} {written : List UInt8} (starts : Starts cells written)
    (atEnd : start + bufPos = written.length) :
    WroteTo (message2bufRecord env start (decodedRecord record rdlength) bufPos cells)
      (bufPos + (encodeRecord record).length) (written ++ encodeRecord record) := by
  have nameSize : (encodeLabels record.owner.labels).length =
      (dotJoin record.owner.labels).length + 2 := by
    rw [Rfc1035.encodeLabels_length, dotJoin_length relayable.owner.nonempty]
  have octets :
      written ++ encodeRecord record =
        written ++ recordFields record ++ split16 (dataLength record.data) ++
          dataOctets record.data := by
    simp [encodeRecord, fixedFields, recordFields]
  have cursor :
      bufPos + (encodeRecord record).length =
        bufPos + ((dotJoin record.owner.labels).length + 2) + 2 + 2 + 6 +
          (dataOctets record.data).length := by
    simp only [encodeRecord, List.length_append, nameSize,
      Rfc1035.fixedFields_length]
    omega
  rw [octets, cursor]
  refine wroteTo_message2bufRecord_of_data env relayable.owner rdlength starts atEnd ?_
  intro cells starts
  refine wroteTo_message2bufData env relayable announced starts ?_
  simp only [recordFields, List.length_append, nameSize, ← atEnd, split16_length,
    split32_length]
  omega

theorem wroteTo_message2bufAnswer (env : Env) (start bufPos : Nat)
    {records : List Rfc1035.Record} {rdlengths : List UInt16}
    (sameLength : records.length = rdlengths.length)
    (relayable : ∀ record ∈ records, Relayable record)
    (announced : ∀ pair ∈ records.zip rdlengths, AnnouncesLength pair.2 pair.1.data)
    {cells : Nat → UInt8} {written : List UInt8} (starts : Starts cells written)
    (atEnd : start + bufPos = written.length) :
    WroteTo
      (message2bufAnswer env start (List.zipWith decodedRecord records rdlengths)
        bufPos cells)
      (start + bufPos + (records.flatMap encodeRecord).length)
      (written ++ records.flatMap encodeRecord) := by
  induction records generalizing rdlengths bufPos cells written with
  | nil => exact ⟨cells, rfl, by simpa using starts⟩
  | cons record records ih =>
      cases rdlengths with
      | nil => simp at sameLength
      | cons rdlength rdlengths =>
          have cursor :
              start + bufPos + ((record :: records).flatMap encodeRecord).length =
                start + (bufPos + (encodeRecord record).length) +
                  (records.flatMap encodeRecord).length := by
            rw [List.flatMap_cons, List.length_append]
            omega
          have octets :
              written ++ (record :: records).flatMap encodeRecord =
                written ++ encodeRecord record ++ records.flatMap encodeRecord := by
            rw [List.flatMap_cons, List.append_assoc]
          rw [cursor, octets, List.zipWith_cons_cons]
          unfold message2bufAnswer
          refine (wroteTo_message2bufRecord env (relayable record (by simp))
            (announced (record, rdlength) (by simp)) starts atEnd).bind ?_
          intro cells starts
          refine ih _ (by simpa using sameLength)
            (fun other member => relayable other (by simp [member]))
            (fun pair member => announced pair (by simp [member])) starts ?_
          rw [List.length_append, ← atEnd]
          omega

/-! ### Messages -/

theorem initialised_out {α : Type} {count : UInt16} {entries : List α}
    (all : count.toNat = entries.length) :
    (initialised count entries).out = .ok entries := by
  unfold initialised
  rw [if_pos (by omega), all, List.take_length]
  rfl

/-- A message with one question is written by writing its answers behind it. -/
theorem writeMessage_out_of_answers (env : Env) {message : Message} {query : Query}
    (queries : message.queries = [query]) (queryCount : message.queryCount = 1)
    {octets : List UInt8}
    (answers : ∀ cells,
      Starts cells (headerOctets message ++ queryOctets (env.junk (.output 12)) query) →
        WroteTo (answersToBuf env message (12 + (query.name.length + 6)) cells)
          octets.length octets) :
    ∃ buf, (writeMessage env message).out = .ok buf ∧ buf.octets = octets ∧
      buf.len = octets.length ∧ buf.len ≤ buf.base.length := by
  rcases wrote_message2bufHeader message (env.junk .packet)
    with ⟨headed, headDone, headStarts⟩
  rcases wroteTo_message2bufQuestion_single env 12 12 query headStarts rfl
    with ⟨asked, askDone, askStarts⟩
  rcases answers asked askStarts with ⟨finished, finishDone, finishStarts⟩
  have ready : (initialised message.queryCount message.queries).out = .ok [query] := by
    rw [queries, queryCount]
    rfl
  refine ⟨{ base := firstCells finished (max 1500 octets.length)
            len := octets.length }, ?_, ?_, rfl, ?_⟩
  · unfold writeMessage
    rw [Logged.bind_out_of_ok headDone, Logged.bind_out_of_ok ready,
      Logged.bind_out_of_ok askDone, Logged.bind_out_of_ok finishDone]
    rfl
  · exact (List.prefix_iff_eq_take.mp
      (finishStarts.prefix_firstCells (Nat.le_max_right _ _))).symm
  · rw [firstCells_length]
    exact Nat.le_max_right _ _

/-- The answer section is written by the loop over the answers, also when there
are none. -/
theorem wroteTo_answersToBuf (env : Env) {message : Message}
    (answerCount : message.answerCount.toNat = message.answers.length)
    {endPos cursor : Nat} {cells : Nat → UInt8} {octets : List UInt8}
    (writes : WroteTo (message2bufAnswer env endPos message.answers 0 cells) cursor
      octets) :
    WroteTo (answersToBuf env message endPos cells) cursor octets := by
  unfold answersToBuf
  by_cases answered : 0 < message.answerCount
  · rcases writes with ⟨finished, done, starts⟩
    rw [if_pos answered]
    exact ⟨finished,
      (Logged.bind_out_of_ok (initialised_out answerCount) _).trans done, starts⟩
  · rw [UInt16.lt_iff_toNat_lt, answerCount] at answered
    rw [List.length_eq_zero_iff.mp (Nat.eq_zero_of_not_pos answered)] at writes
    rw [if_neg (by rwa [UInt16.lt_iff_toNat_lt, answerCount])]
    exact writes

/-- A message that the encoder writes faithfully: its Z bits are clear, it has one
question, and every record is one the encoder supports. -/
structure Writable (message : Rfc1035.Message) : Prop where
  cleared : message.flags.z = 0
  single : ∃ question, message.questions = [question]
  question : ∀ question ∈ message.questions, Rejoinable question.name.labels
  answers : ∀ record ∈ message.answers, Relayable record
  answerCount : message.answers.length < 65536

/-- A decoded message is written by writing its records behind the header and the
question. -/
theorem writeMessage_out_of_records (env : Env) {message : Rfc1035.Message}
    {question : Rfc1035.Question} {rdlengths : List UInt16}
    (cleared : message.flags.z = 0) (single : message.questions = [question])
    (rejoinable : Rejoinable question.name.labels)
    (bound : message.answers.length < 65536)
    (sameLength : message.answers.length = rdlengths.length) {records : List UInt8}
    (writes : ∀ cells,
      Starts cells (Rfc1035.header message ++ encodeQuestion question) →
        WroteTo
          (message2bufAnswer env (12 + (encodeQuestion question).length)
            (List.zipWith decodedRecord message.answers rdlengths) 0 cells)
          (Rfc1035.header message ++ encodeQuestion question ++ records).length
          (Rfc1035.header message ++ encodeQuestion question ++ records)) :
    ∃ buf, (writeMessage env (decodedMessage message rdlengths)).out = .ok buf ∧
      buf.octets = Rfc1035.header message ++ encodeQuestion question ++ records ∧
      buf.len = buf.octets.length ∧ buf.len ≤ buf.base.length := by
  have queries :
      (decodedMessage message rdlengths).queries = [decodedQuery question] := by
    simp [decodedMessage, single]
  have queryCount : (decodedMessage message rdlengths).queryCount = 1 := by
    simp [decodedMessage, single]
  have answerCount :
      (decodedMessage message rdlengths).answerCount.toNat =
        (decodedMessage message rdlengths).answers.length := by
    change (UInt16.ofNat message.answers.length).toNat =
      (List.zipWith decodedRecord message.answers rdlengths).length
    rw [count_toNat bound, List.length_zipWith, ← sameLength, Nat.min_self]
  have questionSize :
      (decodedQuery question).name.length + 6 = (encodeQuestion question).length := by
    rw [← queryOctets_decodedQuery (env.junk (.output 12)) rejoinable,
      queryOctets_length]
  rcases writeMessage_out_of_answers env queries queryCount (fun cells starts => by
      rw [headerOctets_decodedMessage cleared, queryOctets_decodedQuery _ rejoinable]
        at starts
      rw [questionSize]
      exact wroteTo_answersToBuf env answerCount (writes cells starts))
    with ⟨buf, done, octetsAre, lenIs, whole⟩
  exact ⟨buf, done, octetsAre, octetsAre ▸ lenIs, whole⟩

/-- The encoder writes the uncompressed form of a decoded message. -/
theorem writeMessage_out (env : Env) {message : Rfc1035.Message}
    (writable : Writable message) {rdlengths : List UInt16}
    (sameLength : message.answers.length = rdlengths.length)
    (announced :
      ∀ pair ∈ message.answers.zip rdlengths, AnnouncesLength pair.2 pair.1.data) :
    ∃ buf, (writeMessage env (decodedMessage message rdlengths)).out = .ok buf ∧
      buf.octets = Rfc1035.encode message ∧
      buf.len = buf.octets.length ∧ buf.len ≤ buf.base.length := by
  rcases writable.single with ⟨question, single⟩
  have rejoinable := writable.question question (by simp [single])
  have whole :
      Rfc1035.encode message =
        Rfc1035.header message ++ encodeQuestion question ++
          message.answers.flatMap encodeRecord := by
    simp [Rfc1035.encode, single]
  rw [whole]
  refine writeMessage_out_of_records env writable.cleared single rejoinable
    writable.answerCount sameLength ?_
  intro cells starts
  have written := wroteTo_message2bufAnswer env (12 + (encodeQuestion question).length)
    0 sameLength writable.answers announced starts (by simp)
  rw [List.length_append, List.length_append, Rfc1035.header_length]
  exact written

end PostDns
