/-
Questions and records are read exactly where the octets lay them out.

A reader returns when its entry is complete, at the position where the entry
ends.  A property that is compositional therefore holds of the decoder when it
holds of the header and of every entry that the header announces.
-/

import PostDns.LayoutSemantics

namespace PostDns

open Foundation

/-! ### Fields -/

theorem readShort_complete {buf : List UInt8} {index : Nat}
    (room : index + 2 ≤ buf.length) :
    (readShort buf index).out = .ok (shortAt buf index) := by
  have first := List.getElem?_eq_getElem (show index < buf.length by omega)
  have second := List.getElem?_eq_getElem (show index + 1 < buf.length by omega)
  unfold readShort shortAt
  rw [Logged.bind_out_of_ok (readBase_out_of_some first),
    Logged.bind_out_of_ok (readBase_out_of_some second), List.getD_eq_getElem?_getD,
    List.getD_eq_getElem?_getD, first, second]
  rfl

theorem readShort_of_ok {buf : List UInt8} {index : Nat} {value : UInt16}
    (done : (readShort buf index).out = .ok value) :
    index + 2 ≤ buf.length ∧ value = shortAt buf index := by
  have room : index + 2 ≤ buf.length := by
    unfold readShort at done
    rcases Logged.bind_out_eq_ok.mp done with ⟨high, _, rest⟩
    rcases Logged.bind_out_eq_ok.mp rest with ⟨low, last, _⟩
    have inside := (List.getElem?_eq_some_iff.mp (readBase_out_eq_ok.mp last)).1
    omega
  rw [readShort_complete room] at done
  exact ⟨room, (Except.ok.inj done).symm⟩

theorem closeString_complete (region : Region) {cells : List UInt8}
    (filled : 0 < cells.length) :
    ∃ name, (closeString region cells).out = .ok name := by
  cases cells with
  | nil => simp at filled
  | cons first rest => exact ⟨_, rfl⟩

/-- Without a cell the terminating write is before the array. -/
theorem closeString_empty {α : Type} (region : Region) {cells : List UInt8}
    (empty : ¬ 0 < cells.length) (next : StringT → Exec α) :
    closeString region cells >>= next =
      { log := [.write region (-1)], out := .error .emptyName } := by
  cases cells with
  | nil => rfl
  | cons first rest => simp at empty

theorem closeString_of_ok {region : Region} {cells : List UInt8} {name : StringT}
    (done : (closeString region cells).out = .ok name) : 0 < cells.length := by
  cases cells with
  | nil => cases done
  | cons first rest => simp

/-! ### Questions -/

theorem questionName_mono (buf : List UInt8) (bufPos : Nat) (cells : List UInt8) :
    FuelMono (fun env => questionName buf env.fuel bufPos cells) := by
  intro junk fuel more longer
  simp only [questionName_eq_readName]
  exact readName_extends .qvalue fuel more bufPos cells longer

theorem buf2messageQuery_mono (buf : List UInt8) (bufPos : Nat) :
    FuelMono (fun env => buf2messageQuery env buf bufPos) :=
  FuelMono.bind (questionName_mono buf bufPos []) fun _ => FuelMono.const fun _ => _

def questionTail (buf : List UInt8) (named : Nat × List UInt8) : Exec (Query × Nat) := do
  let name ← closeString .qvalue named.2
  let type ← readShort buf (named.1 + 1)
  let cls ← readShort buf (named.1 + 3)
  pure ({ name := name, type := type, cls := cls }, named.1 + 5)

theorem questionTail_of_ok {buf : List UInt8} {named : Nat × List UInt8}
    {entry : Query × Nat} (done : (questionTail buf named).out = .ok entry) :
    0 < named.2.length ∧ named.1 + 5 ≤ buf.length ∧ entry.2 = named.1 + 5 := by
  unfold questionTail at done
  rcases Logged.bind_out_eq_ok.mp done with ⟨name, hName, done⟩
  rcases Logged.bind_out_eq_ok.mp done with ⟨type, hType, done⟩
  rcases Logged.bind_out_eq_ok.mp done with ⟨cls, hCls, done⟩
  cases done
  exact ⟨closeString_of_ok hName, (readShort_of_ok hCls).1, rfl⟩

theorem questionTail_complete {buf : List UInt8} {named : Nat × List UInt8}
    (positive : 0 < named.2.length) (room : named.1 + 5 ≤ buf.length) :
    ∃ query, (questionTail buf named).out = .ok (query, named.1 + 5) := by
  rcases closeString_complete .qvalue positive with ⟨name, closed⟩
  unfold questionTail
  rw [Logged.bind_out_of_ok closed,
    Logged.bind_out_of_ok (readShort_complete (by omega)),
    Logged.bind_out_of_ok (readShort_complete (by omega))]
  exact ⟨_, rfl⟩

theorem forall_questionName_iff (result : Nat → Nat → Prop) (buf : List UInt8)
    (bufPos : Nat) :
    (∀ (env : Env) named, (questionName buf env.fuel bufPos []).out = .ok named →
        result named.1 named.2.length) ↔
      ∀ last total, NameEnds false buf bufPos 0 last total → result last total := by
  simp only [questionName_eq_readName]
  exact Iff.trans ⟨fun returned fuel => returned ⟨fuel, fun _ _ => 0⟩,
    fun returned env => returned env.fuel⟩ (forall_readName_iff .qvalue [])

theorem questionEnds_of_query {env : Env} {buf : List UInt8} {bufPos : Nat}
    {entry : Query × Nat} (done : (buf2messageQuery env buf bufPos).out = .ok entry) :
    QuestionEnds buf bufPos entry.2 := by
  rcases Logged.bind_out_eq_ok.mp done with ⟨named, hNamed, tail⟩
  rw [questionName_eq_readName] at hNamed
  rcases questionTail_of_ok tail with ⟨positive, room, next⟩
  exact ⟨named.1, named.2.length, nameEnds_of_readName .qvalue hNamed, positive, room,
    next⟩

theorem query_of_questionEnds {buf : List UInt8} {bufPos next : Nat}
    (ends : QuestionEnds buf bufPos next) :
    ∃ enough, ∀ env : Env, enough ≤ env.fuel →
      ∃ query, (buf2messageQuery env buf bufPos).out = .ok (query, next) := by
  rcases ends with ⟨last, filled, named, positive, room, rfl⟩
  rcases readName_of_nameEnds .qvalue named with ⟨enough, read⟩
  refine ⟨enough, ?_⟩
  intro env more
  rcases read env.fuel more [] rfl with ⟨cells, done, size⟩
  rw [← questionName_eq_readName] at done
  obtain ⟨query, tail⟩ : ∃ query, (questionTail buf (last, cells)).out =
      .ok (query, last + 5) :=
    questionTail_complete (size ▸ positive) room
  exact ⟨query, (Logged.bind_out_of_ok done _).trans tail⟩

/-! ### Records -/

theorem createName_mono (buf : List UInt8) (region : Region) (bufPos : Nat)
    (cells : List UInt8) :
    FuelMono (fun env => createName buf region env.fuel bufPos cells) := by
  intro junk fuel more longer
  simp only [createName_eq_readName]
  exact readName_extends region fuel more bufPos cells longer

theorem forall_createName_iff (result : Nat → Nat → Prop) (buf : List UInt8)
    (region : Region) (bufPos : Nat) :
    (∀ (env : Env) named, (createName buf region env.fuel bufPos []).out = .ok named →
        result named.1 named.2.length) ↔
      ∀ last total, NameEnds true buf bufPos 0 last total → result last total := by
  simp only [createName_eq_readName]
  exact Iff.trans ⟨fun returned fuel => returned ⟨fuel, fun _ _ => 0⟩,
    fun returned env => returned env.fuel⟩ (forall_readName_iff region [])

theorem createRData_mono (buf : List UInt8) (bufPos : Nat) (type : UInt16)
    (length : Nat) : FuelMono (fun env => createRData env buf bufPos type length) := by
  unfold createRData
  by_cases isCname : type = 5
  · subst isCname
    exact createName_mono buf .rdata bufPos []
  · simp only [if_neg isCname]
    exact FuelMono.const fun _ => _

theorem copyLetters_of_ok {buf : List UInt8} {region : Region} {count bufPos : Nat}
    {cells copied : List UInt8} (start : bufPos ≤ buf.length)
    (done : (copyLetters buf region count bufPos cells).out = .ok copied) :
    bufPos + count ≤ buf.length ∧ copied.length = cells.length + count := by
  by_cases room : bufPos + count ≤ buf.length
  · rcases copyLetters_complete region cells room with ⟨copied', done', size⟩
    rw [done'] at done
    cases done
    exact ⟨room, size⟩
  · rcases copyLetters_cut region cells start (Nat.lt_of_not_le room) with ⟨index, stopped⟩
    rw [stopped] at done
    cases done

theorem createRDataAddress_of_ok {buf : List UInt8} {bufPos length : Nat}
    {data : Nat × List UInt8} (start : bufPos ≤ buf.length)
    (done : (createRDataAddress buf bufPos length).out = .ok data)
    (filled : 0 < data.2.length) :
    0 < length ∧ bufPos + length ≤ buf.length ∧ data.1 + 1 = bufPos + length := by
  unfold createRDataAddress at done
  by_cases positive : 0 < length
  · rw [if_pos positive] at done
    rcases Logged.bind_out_eq_ok.mp done with ⟨copied, hCopied, done⟩
    cases done
    exact ⟨positive, (copyLetters_of_ok start hCopied).1, by simp only; omega⟩
  · rw [if_neg positive] at done
    cases done
    simp at filled

theorem createRDataAddress_complete {buf : List UInt8} {bufPos length : Nat}
    (positive : 0 < length) (room : bufPos + length ≤ buf.length) :
    ∃ cells, (createRDataAddress buf bufPos length).out =
        .ok (bufPos + length - 1, cells) ∧ cells.length = length + 1 := by
  rcases copyLetters_complete .rdata [] room with ⟨copied, done, size⟩
  refine ⟨copied ++ [0], ?_, ?_⟩
  · unfold createRDataAddress
    rw [if_pos positive, Logged.bind_out_of_ok done]
    rfl
  · rw [List.length_append, size]
    simp

theorem string2inet4address_complete (junk : Nat → UInt8) (address : StringT) :
    ∃ value, (string2inet4address junk address).out = .ok value := ⟨_, rfl⟩

theorem string2inet6Loop_complete (junk : Nat → UInt8) (address : StringT)
    (count index : Nat) :
    ∃ value, (string2inet6Loop junk address count index).out = .ok value := by
  induction count generalizing index with
  | zero => exact ⟨[], rfl⟩
  | succ count ih =>
      rcases ih (index + 1) with ⟨rest, done⟩
      refine ⟨address.getD index (junk index) :: rest, ?_⟩
      rw [string2inet6Loop, Logged.bind_out_of_ok rfl, Logged.bind_out_of_ok done]
      rfl

def HasData (type : UInt16) : Prop := type = 1 ∨ type = 5 ∨ type = 28

theorem responseDataOf_of_ok {junk : Nat → UInt8} {type : UInt16} {cells : List UInt8}
    {responseData : ResponseData} (isAddress : type = 1 ∨ type = 28)
    (done : (responseDataOf junk type cells).out = .ok responseData) :
    0 < cells.length := by
  unfold responseDataOf at done
  rcases isAddress with rfl | rfl
  · rw [if_pos rfl] at done
    rcases Logged.bind_out_eq_ok.mp done with ⟨value, closed, _⟩
    exact closeString_of_ok closed
  · rw [if_neg (by decide), if_neg (by decide), if_pos rfl] at done
    rcases Logged.bind_out_eq_ok.mp done with ⟨value, closed, _⟩
    exact closeString_of_ok closed

/-- Only the payload of an address needs a copied octet. -/
theorem responseDataOf_complete (junk : Nat → UInt8) (type : UInt16) {cells : List UInt8}
    (filled : type = 1 ∨ type = 28 → 0 < cells.length) :
    ∃ responseData, (responseDataOf junk type cells).out = .ok responseData := by
  unfold responseDataOf
  by_cases isA : type = 1
  · rcases closeString_complete .rdata (filled (Or.inl isA)) with ⟨value, closed⟩
    rcases string2inet4address_complete junk value with ⟨address, done⟩
    rw [if_pos isA, Logged.bind_out_of_ok closed, Logged.bind_out_of_ok done]
    exact ⟨_, rfl⟩
  · rw [if_neg isA]
    by_cases isCname : type = 5
    · rw [if_pos isCname]
      exact ⟨_, rfl⟩
    · rw [if_neg isCname]
      by_cases isAaaa : type = 28
      · rcases closeString_complete .rdata (filled (Or.inr isAaaa)) with ⟨value, closed⟩
        rcases string2inet6Loop_complete junk value 16 0 with ⟨address, done⟩
        rw [if_pos isAaaa, Logged.bind_out_of_ok closed, string2inet6address,
          Logged.bind_out_of_ok done]
        exact ⟨_, rfl⟩
      · rw [if_neg isAaaa]
        exact ⟨_, rfl⟩

theorem closeString_always_iff {good : Access → Prop} (region : Region)
    (cells : List UInt8) :
    Logged.Always good (closeString region cells) ↔
      good (.write region ((cells.length : Int) - 1)) := by
  unfold closeString
  rw [Logged.always_bind]
  constructor
  · rintro ⟨closing, _⟩
    exact closing _ (List.mem_singleton_self _)
  · intro closing
    constructor
    · intro access member
      rw [List.mem_singleton.mp member]
      exact closing
    · intro _ _
      cases cells with
      | nil => exact Logged.always_fail _ _
      | cons first rest => exact Logged.always_pure _ _

theorem closeTarget_always_iff {good : Access → Prop} (cells : List UInt8) :
    Logged.Always good (closeTarget cells) ↔
      good (.write .rdata ((cells.length : Int) - 1)) := by
  unfold closeTarget
  rw [Logged.always_bind]
  constructor
  · intro both
    exact both.1 _ (List.mem_singleton_self _)
  · intro closing
    refine ⟨?_, fun _ _ => Logged.always_pure _ _⟩
    intro access member
    rw [List.mem_singleton.mp member]
    exact closing

section ResponseData

variable {good : Access → Prop}
  (reads : ∀ size index, good (.read (.value size) index))

include reads

theorem readValue_always (junk : Nat → UInt8) (value : StringT) (index : Nat) :
    Logged.Always good (readValue junk value index) := by
  intro access member
  rw [List.mem_singleton.mp member]
  exact reads value.length index

theorem string2inet6Loop_always (junk : Nat → UInt8) (address : StringT)
    (count index : Nat) :
    Logged.Always good (string2inet6Loop junk address count index) := by
  induction count generalizing index with
  | zero => exact Logged.always_pure _ _
  | succ count ih =>
      exact Logged.always_bind.mpr ⟨readValue_always reads junk address index, fun _ _ =>
        Logged.always_bind.mpr ⟨ih (index + 1), fun _ _ => Logged.always_pure _ _⟩⟩

/-- Apart from reads of the copy, the payload only closes the copied data. -/
theorem responseDataOf_always_iff (junk : Nat → UInt8) (type : UInt16)
    (cells : List UInt8) :
    Logged.Always good (responseDataOf junk type cells) ↔
      (HasData type → good (.write .rdata ((cells.length : Int) - 1))) := by
  have closed (rest : StringT → Exec ResponseData)
      (restGood : ∀ value, Logged.Always good (rest value)) :
      Logged.Always good (closeString .rdata cells >>= rest) ↔
        good (.write .rdata ((cells.length : Int) - 1)) := by
    rw [Logged.always_bind, closeString_always_iff]
    exact and_iff_left fun value _ => restGood value
  have octet := readValue_always reads junk
  unfold responseDataOf HasData
  by_cases isA : type = 1
  · rw [if_pos isA, forall_prop_of_true (Or.inl isA)]
    apply closed
    intro value
    refine Logged.always_bind.mpr ⟨?_, fun _ _ => Logged.always_pure _ _⟩
    exact Logged.always_bind.mpr ⟨octet value 0, fun _ _ =>
      Logged.always_bind.mpr ⟨octet value 1, fun _ _ =>
        Logged.always_bind.mpr ⟨octet value 2, fun _ _ =>
          Logged.always_bind.mpr ⟨octet value 3, fun _ _ => Logged.always_pure _ _⟩⟩⟩⟩
  · rw [if_neg isA]
    by_cases isCname : type = 5
    · rw [if_pos isCname, forall_prop_of_true (Or.inr (Or.inl isCname))]
      exact closeTarget_always_iff cells
    · rw [if_neg isCname]
      by_cases isAaaa : type = 28
      · rw [if_pos isAaaa, forall_prop_of_true (Or.inr (Or.inr isAaaa))]
        apply closed
        intro value
        exact Logged.always_bind.mpr ⟨string2inet6Loop_always reads junk value 16 0,
          fun _ _ => Logged.always_pure _ _⟩
      · rw [if_neg isAaaa]
        refine iff_of_true (Logged.always_pure _ _) ?_
        simp [isA, isCname, isAaaa]

end ResponseData

theorem dataEnds_of_createRData {env : Env} {buf : List UInt8} {bufPos length : Nat}
    {type : UInt16} {data : Nat × List UInt8} {junk : Nat → UInt8}
    {responseData : ResponseData} (start : 0 < bufPos ∧ bufPos ≤ buf.length)
    (done : (createRData env buf bufPos type length).out = .ok data)
    (means : (responseDataOf junk type data.2).out = .ok responseData) :
    DataEnds buf type length bufPos (data.1 + 1) := by
  unfold createRData at done
  unfold DataEnds
  by_cases isA : type = 1
  · subst isA
    rw [if_pos rfl] at done
    rw [if_pos (Or.inl rfl)]
    exact createRDataAddress_of_ok start.2 done
      (responseDataOf_of_ok (Or.inl rfl) means)
  · rw [if_neg isA] at done
    by_cases isCname : type = 5
    · subst isCname
      rw [if_pos rfl, createName_eq_readName] at done
      rw [if_neg (by decide), if_pos rfl]
      exact ⟨data.1, data.2.length, nameEnds_of_readName .rdata done, rfl⟩
    · rw [if_neg isCname] at done
      by_cases isAaaa : type = 28
      · subst isAaaa
        rw [if_pos rfl] at done
        rw [if_pos (Or.inr rfl)]
        exact createRDataAddress_of_ok start.2 done
          (responseDataOf_of_ok (Or.inr rfl) means)
      · rw [if_neg isAaaa] at done
        rw [if_neg (by simp [isA, isAaaa]), if_neg isCname]
        cases done
        simp only
        omega

theorem createRData_of_dataEnds {buf : List UInt8} {bufPos length next : Nat}
    {type : UInt16} (start : 0 < bufPos)
    (ends : DataEnds buf type length bufPos next) :
    ∃ enough, ∀ env : Env, enough ≤ env.fuel →
      ∃ data, (createRData env buf bufPos type length).out = .ok data ∧
        data.1 + 1 = next ∧
        ∀ junk, ∃ responseData, (responseDataOf junk type data.2).out = .ok responseData := by
  unfold DataEnds at ends
  unfold createRData
  by_cases isAddress : type = 1 ∨ type = 28
  · rw [if_pos isAddress] at ends
    rcases ends with ⟨positive, room, rfl⟩
    rcases createRDataAddress_complete positive room with ⟨cells, done, size⟩
    refine ⟨0, ?_⟩
    intro env _
    refine ⟨(bufPos + length - 1, cells), ?_, by simp only; omega, fun junk =>
      responseDataOf_complete junk type fun _ => show 0 < cells.length by omega⟩
    rcases isAddress with rfl | rfl
    · rw [if_pos rfl]
      exact done
    · rw [if_neg (by decide), if_neg (by decide), if_pos rfl]
      exact done
  · rw [if_neg isAddress] at ends
    rw [not_or] at isAddress
    by_cases isCname : type = 5
    · subst isCname
      rw [if_pos rfl] at ends
      rcases ends with ⟨last, filled, named, rfl⟩
      rcases readName_of_nameEnds .rdata named with ⟨enough, read⟩
      refine ⟨enough, ?_⟩
      intro env more
      rcases read env.fuel more [] rfl with ⟨cells, done, size⟩
      refine ⟨(last, cells), ?_, rfl, fun junk =>
        responseDataOf_complete junk 5 fun isAddress => absurd isAddress (by decide)⟩
      rw [if_neg (by decide), if_pos rfl, createName_eq_readName]
      exact done
    · rw [if_neg isCname] at ends
      subst ends
      refine ⟨0, ?_⟩
      intro env _
      refine ⟨(bufPos + length - 1, []), ?_, by simp only; omega, ?_⟩
      · rw [if_neg isAddress.1, if_neg isCname, if_neg isAddress.2]
        rfl
      · intro junk
        refine ⟨.unset, ?_⟩
        unfold responseDataOf
        rw [if_neg isAddress.1, if_neg isCname, if_neg isAddress.2]
        rfl

structure RecordHead where
  name : StringT
  type : UInt16
  cls : UInt16
  ttl : UInt32
  length : UInt16

def recordHead (buf : List UInt8) (named : Nat × List UInt8) : Exec RecordHead := do
  let name ← closeString .name named.2
  let type ← readShort buf (named.1 + 1)
  let cls ← readShort buf (named.1 + 3)
  let ttlHigh ← readShort buf (named.1 + 5)
  let ttlLow ← readShort buf (named.1 + 7)
  let length ← readShort buf (named.1 + 9)
  pure
    { name := name
      type := type
      cls := cls
      ttl := shorts2Int ttlHigh ttlLow
      length := length }

def recordOf (junk : Site → Nat → UInt8) (bufPos : Nat) (head : RecordHead)
    (responseData : ResponseData) : ResourceRecord :=
  { name := strcpyResult (junk (.result bufPos)) head.name
    type := head.type
    cls := head.cls
    ttl := head.ttl
    responseDataLength := head.length
    responseData := responseData }

def recordTail (env : Env) (buf : List UInt8) (bufPos last : Nat) (head : RecordHead) :
    Exec (ResourceRecord × Nat) :=
  createRData env buf (last + 11) head.type head.length.toNat >>= fun data =>
    responseDataOf (env.junk (.value bufPos)) head.type data.2 >>= fun responseData =>
      pure (recordOf env.junk bufPos head responseData, data.1 + 1)

theorem buf2messageRecord_eq (env : Env) (buf : List UInt8) (bufPos : Nat) :
    buf2messageRecord env buf bufPos =
      createName buf .name env.fuel bufPos [] >>= fun named =>
        recordHead buf named >>= fun head => recordTail env buf bufPos named.1 head := by
  unfold buf2messageRecord recordHead recordTail recordOf
  simp only [Logged.bind_assoc, Logged.pure_bind]

theorem recordHead_of_ok {buf : List UInt8} {named : Nat × List UInt8}
    {head : RecordHead} (done : (recordHead buf named).out = .ok head) :
    0 < named.2.length ∧ named.1 + 11 ≤ buf.length ∧
      head.type = shortAt buf (named.1 + 1) ∧
      head.length = shortAt buf (named.1 + 9) := by
  unfold recordHead at done
  rcases Logged.bind_out_eq_ok.mp done with ⟨name, hName, done⟩
  rcases Logged.bind_out_eq_ok.mp done with ⟨type, hType, done⟩
  rcases Logged.bind_out_eq_ok.mp done with ⟨cls, hCls, done⟩
  rcases Logged.bind_out_eq_ok.mp done with ⟨ttlHigh, hHigh, done⟩
  rcases Logged.bind_out_eq_ok.mp done with ⟨ttlLow, hLow, done⟩
  rcases Logged.bind_out_eq_ok.mp done with ⟨length, hLength, done⟩
  cases done
  rcases readShort_of_ok hLength with ⟨room, lengthIs⟩
  exact ⟨closeString_of_ok hName, room, (readShort_of_ok hType).2, lengthIs⟩

theorem recordHead_complete {buf : List UInt8} {named : Nat × List UInt8}
    (positive : 0 < named.2.length) (room : named.1 + 11 ≤ buf.length) :
    ∃ head, (recordHead buf named).out = .ok head ∧
      head.type = shortAt buf (named.1 + 1) ∧
      head.length = shortAt buf (named.1 + 9) := by
  rcases closeString_complete .name positive with ⟨name, closed⟩
  unfold recordHead
  rw [Logged.bind_out_of_ok closed,
    Logged.bind_out_of_ok (readShort_complete (by omega)),
    Logged.bind_out_of_ok (readShort_complete (by omega)),
    Logged.bind_out_of_ok (readShort_complete (by omega)),
    Logged.bind_out_of_ok (readShort_complete (by omega)),
    Logged.bind_out_of_ok (readShort_complete (by omega))]
  exact ⟨_, rfl, rfl, rfl⟩

theorem forall_recordHead_iff {each : RecordHead → Prop}
    (result : UInt16 → UInt16 → Prop) (buf : List UInt8) (named : Nat × List UInt8)
    (same : named.1 + 11 ≤ buf.length →
      ∀ head, each head ↔ result head.type head.length) :
    (∀ head, (recordHead buf named).out = .ok head → each head) ↔
      (0 < named.2.length → named.1 + 11 ≤ buf.length →
        result (shortAt buf (named.1 + 1)) (shortAt buf (named.1 + 9))) := by
  constructor
  · intro returned positive room
    rcases recordHead_complete positive room with ⟨head, done, typeIs, lengthIs⟩
    rw [← typeIs, ← lengthIs, ← same room head]
    exact returned head done
  · intro complete head done
    rcases recordHead_of_ok done with ⟨positive, room, typeIs, lengthIs⟩
    rw [same room head, typeIs, lengthIs]
    exact complete positive room

theorem recordTail_mono (buf : List UInt8) (bufPos last : Nat) (head : RecordHead) :
    FuelMono (fun env => recordTail env buf bufPos last head) :=
  FuelMono.bind (createRData_mono buf _ head.type head.length.toNat) fun data =>
    FuelMono.const fun junk =>
      responseDataOf (junk (.value bufPos)) head.type data.2 >>= fun responseData =>
        pure (recordOf junk bufPos head responseData, data.1 + 1)

theorem buf2messageRecord_mono (buf : List UInt8) (bufPos : Nat) :
    FuelMono (fun env => buf2messageRecord env buf bufPos) := by
  simp only [buf2messageRecord_eq]
  exact FuelMono.bind (createName_mono buf .name bufPos []) fun named =>
    FuelMono.bind (FuelMono.const fun _ => recordHead buf named) fun head =>
      recordTail_mono buf bufPos named.1 head

theorem recordEnds_of_record {env : Env} {buf : List UInt8} {bufPos : Nat}
    {entry : ResourceRecord × Nat}
    (done : (buf2messageRecord env buf bufPos).out = .ok entry) :
    RecordEnds buf bufPos entry.2 := by
  rw [buf2messageRecord_eq] at done
  rcases Logged.bind_out_eq_ok.mp done with ⟨named, hNamed, done⟩
  rcases Logged.bind_out_eq_ok.mp done with ⟨head, hHead, done⟩
  rcases Logged.bind_out_eq_ok.mp done with ⟨data, hData, done⟩
  rcases Logged.bind_out_eq_ok.mp done with ⟨responseData, hMeans, done⟩
  cases done
  rw [createName_eq_readName] at hNamed
  rcases recordHead_of_ok hHead with ⟨positive, room, typeIs, lengthIs⟩
  have dataEnds := dataEnds_of_createRData ⟨by omega, room⟩ hData hMeans
  rw [typeIs, lengthIs] at dataEnds
  exact ⟨named.1, named.2.length, nameEnds_of_readName .name hNamed, positive, room,
    dataEnds⟩

theorem record_of_recordEnds {buf : List UInt8} {bufPos next : Nat}
    (ends : RecordEnds buf bufPos next) :
    ∃ enough, ∀ env : Env, enough ≤ env.fuel →
      ∃ record, (buf2messageRecord env buf bufPos).out = .ok (record, next) := by
  rcases ends with ⟨last, filled, named, positive, room, dataEnds⟩
  rcases readName_of_nameEnds .name named with ⟨nameEnough, read⟩
  rcases createRData_of_dataEnds (by omega) dataEnds with ⟨dataEnough, dataRead⟩
  refine ⟨max nameEnough dataEnough, ?_⟩
  intro env more
  rcases read env.fuel (by omega) [] rfl with ⟨cells, done, size⟩
  rw [← createName_eq_readName] at done
  obtain ⟨head, headDone, typeIs, lengthIs⟩ :
      ∃ head, (recordHead buf (last, cells)).out = .ok head ∧
        head.type = shortAt buf (last + 1) ∧ head.length = shortAt buf (last + 9) :=
    recordHead_complete (size ▸ positive) room
  rcases dataRead env (by omega) with ⟨data, dataDone, nextIs, means⟩
  rcases means (env.junk (.value bufPos)) with ⟨responseData, meansDone⟩
  rw [← typeIs, ← lengthIs] at dataDone
  rw [← typeIs] at meansDone
  refine ⟨recordOf env.junk bufPos head responseData, ?_⟩
  rw [buf2messageRecord_eq, Logged.bind_out_of_ok done, Logged.bind_out_of_ok headDone,
    recordTail, Logged.bind_out_of_ok dataDone, Logged.bind_out_of_ok meansDone, ← nextIs]
  rfl

/-! ### Sections -/

theorem sectionEnds_of_question {env : Env} {buf : List UInt8} {count bufPos : Nat}
    {entries : List Query × Nat}
    (done : (buf2messageQuestion env buf count bufPos).out = .ok entries) :
    SectionEnds (QuestionEnds buf) count bufPos entries.2 := by
  induction count generalizing bufPos entries with
  | zero =>
      cases done
      rfl
  | succ count ih =>
      unfold buf2messageQuestion at done
      rcases Logged.bind_out_eq_ok.mp done with ⟨entry, hEntry, done⟩
      rcases Logged.bind_out_eq_ok.mp done with ⟨rest, hRest, done⟩
      have later := ih hRest
      cases done
      exact ⟨entry.2, questionEnds_of_query hEntry, later⟩

theorem question_of_sectionEnds {buf : List UInt8} {count bufPos finish : Nat}
    (ends : SectionEnds (QuestionEnds buf) count bufPos finish) :
    ∃ enough, ∀ env : Env, enough ≤ env.fuel →
      ∃ queries, (buf2messageQuestion env buf count bufPos).out = .ok (queries, finish) := by
  induction count generalizing bufPos with
  | zero =>
      refine ⟨0, fun env _ => ⟨[], ?_⟩⟩
      change bufPos = finish at ends
      rw [← ends]
      rfl
  | succ count ih =>
      rcases ends with ⟨next, here, later⟩
      rcases query_of_questionEnds here with ⟨firstEnough, firstDone⟩
      rcases ih later with ⟨restEnough, restDone⟩
      refine ⟨max firstEnough restEnough, ?_⟩
      intro env more
      rcases firstDone env (by omega) with ⟨query, hQuery⟩
      rcases restDone env (by omega) with ⟨queries, hQueries⟩
      refine ⟨query :: queries, ?_⟩
      rw [buf2messageQuestion, Logged.bind_out_of_ok hQuery,
        Logged.bind_out_of_ok hQueries]
      rfl

section Entries

variable {holds : (α : Type) → (Env → Exec α) → Prop}
  (compositional : Compositional holds) (buf : List UInt8) (bufPos : Nat)

include compositional

theorem query_holds_iff :
    holds (Query × Nat) (fun env => buf2messageQuery env buf bufPos) ↔
      holds (Nat × List UInt8) (fun env => questionName buf env.fuel bufPos []) ∧
        ∀ (env : Env) named, (questionName buf env.fuel bufPos []).out = .ok named →
          holds (Query × Nat) (fun _ => questionTail buf named) :=
  compositional.sequence (Nat × List UInt8) (Query × Nat)
    (fun env => questionName buf env.fuel bufPos []) (fun _ => questionTail buf)
    (questionName_mono buf bufPos []) fun named =>
      FuelMono.const fun _ => questionTail buf named

theorem record_holds_iff :
    holds (ResourceRecord × Nat) (fun env => buf2messageRecord env buf bufPos) ↔
      holds (Nat × List UInt8) (fun env => createName buf .name env.fuel bufPos []) ∧
        ∀ (env : Env) named, (createName buf .name env.fuel bufPos []).out = .ok named →
          holds RecordHead (fun _ => recordHead buf named) ∧
            ∀ head, (recordHead buf named).out = .ok head →
              holds (ResourceRecord × Nat)
                (onMachine env.junk fun env =>
                  recordTail env buf bufPos named.1 head) := by
  simp only [buf2messageRecord_eq]
  rw [compositional.sequence (Nat × List UInt8) (ResourceRecord × Nat)
    (fun env => createName buf .name env.fuel bufPos [])
    (fun env named => recordHead buf named >>= fun head =>
      recordTail env buf bufPos named.1 head)
    (createName_mono buf .name bufPos []) fun named =>
      FuelMono.bind (FuelMono.const fun _ => recordHead buf named) fun head =>
        recordTail_mono buf bufPos named.1 head]
  exact and_congr_right fun _ => forall_congr' fun env => forall_congr' fun named =>
    imp_congr_right fun _ => compositional.const_sequence (recordHead buf named)
      (fun head => recordTail_mono buf bufPos named.1 head) env.junk

theorem recordTail_holds_iff (junk : Site → Nat → UInt8) (last : Nat)
    (head : RecordHead) :
    holds (ResourceRecord × Nat)
        (onMachine junk fun env => recordTail env buf bufPos last head) ↔
      holds (Nat × List UInt8)
          (fun env => createRData env buf (last + 11) head.type head.length.toNat) ∧
        ∀ (env : Env) data,
          (createRData env buf (last + 11) head.type head.length.toNat).out = .ok data →
            holds ResponseData
              (fun _ => responseDataOf (junk (.value bufPos)) head.type data.2) := by
  unfold recordTail
  rw [compositional.onMachine_sequence
    (createRData_mono buf (last + 11) head.type head.length.toNat) (fun data =>
      FuelMono.const fun junk =>
        responseDataOf (junk (.value bufPos)) head.type data.2 >>= fun responseData =>
          pure (recordOf junk bufPos head responseData, data.1 + 1)) junk]
  refine and_congr_right fun _ => ?_
  have meaning (data : Nat × List UInt8) := compositional.map
    (FuelMono.const fun _ => responseDataOf (junk (.value bufPos)) head.type data.2)
    (fun responseData => (recordOf junk bufPos head responseData, data.1 + 1))
  exact ⟨fun later env data done => (meaning data).mp (later env.fuel data done),
    fun later fuel data done => (meaning data).mpr (later ⟨fuel, junk⟩ data done)⟩

end Entries

/-- A loop that reads `count` entries, each from where the one before ended. -/
structure EntryLoop {γ δ : Type} (entry : Env → Nat → Exec (γ × Nat))
    (loop : Env → Nat → Nat → Exec δ) (ends : Nat → Nat → Prop)
    (start : Nat → δ) (combine : γ × Nat → δ → δ) : Prop where
  mono : ∀ position, FuelMono (fun env => entry env position)
  sound : ∀ env position value, (entry env position).out = .ok value →
    ends position value.2
  complete : ∀ position next, ends position next →
    ∃ enough, ∀ env : Env, enough ≤ env.fuel →
      ∃ value, (entry env position).out = .ok (value, next)
  zero : ∀ env position, loop env 0 position = pure (start position)
  succ : ∀ env count position, loop env (count + 1) position =
    entry env position >>= fun value =>
      loop env count value.2 >>= fun rest => pure (combine value rest)

namespace EntryLoop

variable {γ δ : Type} {entry : Env → Nat → Exec (γ × Nat)}
  {loop : Env → Nat → Nat → Exec δ} {ends : Nat → Nat → Prop} {start : Nat → δ}
  {combine : γ × Nat → δ → δ} (entries : EntryLoop entry loop ends start combine)

include entries

theorem loop_mono (count position : Nat) :
    FuelMono (fun env => loop env count position) := by
  induction count generalizing position with
  | zero =>
      simp only [entries.zero]
      exact FuelMono.const fun _ => pure (start position)
  | succ count ih =>
      simp only [entries.succ]
      exact FuelMono.bind (entries.mono position) fun value =>
        FuelMono.bind (ih value.2) fun rest =>
          FuelMono.const fun _ => pure (combine value rest)

theorem holds_iff {holds : (α : Type) → (Env → Exec α) → Prop}
    (compositional : Compositional holds) (count position : Nat) :
    holds δ (fun env => loop env count position) ↔
      EachEntry ends (fun place => holds (γ × Nat) (fun env => entry env place))
        count position := by
  induction count generalizing position with
  | zero =>
      simp only [entries.zero]
      exact iff_true_intro (compositional.done δ (start position))
  | succ count ih =>
      simp only [entries.succ]
      rw [compositional.sequence (γ × Nat) δ (fun env => entry env position)
        (fun env value => loop env count value.2 >>= fun rest =>
          pure (combine value rest))
        (entries.mono position) (fun value =>
          FuelMono.bind (entries.loop_mono count value.2) fun rest =>
            FuelMono.const fun _ => pure (combine value rest))]
      have rest (junk : Site → Nat → UInt8) (value : γ × Nat) :=
        compositional.map ((entries.loop_mono count value.2).onMachine junk)
          (combine value)
      refine and_congr_right fun _ => ?_
      constructor
      · intro later next here
        rw [← ih]
        refine (compositional.machines δ _).mpr fun junk => ?_
        rcases entries.complete position next here with ⟨enough, done⟩
        rcases done ⟨enough, junk⟩ (Nat.le_refl _) with ⟨value, read⟩
        exact (rest junk (value, next)).mp (later _ _ read)
      · intro later env value read
        have held := (ih value.2).mpr
          (later value.2 (entries.sound env position value read))
        exact (rest env.junk value).mpr ((compositional.machines δ _).mp held env.junk)

end EntryLoop

theorem questionLoop (buf : List UInt8) :
    EntryLoop (fun env position => buf2messageQuery env buf position)
      (fun env count position => buf2messageQuestion env buf count position)
      (QuestionEnds buf) (fun position => ([], position))
      (fun entry rest => (entry.1 :: rest.1, rest.2)) :=
  { mono := buf2messageQuery_mono buf
    sound := fun _ _ _ => questionEnds_of_query
    complete := fun _ _ => query_of_questionEnds
    zero := fun _ _ => rfl
    succ := fun _ _ _ => rfl }

theorem recordLoop (buf : List UInt8) :
    EntryLoop (fun env position => buf2messageRecord env buf position)
      (fun env count position => buf2messageRR env buf count position)
      (RecordEnds buf) (fun _ => []) (fun entry rest => entry.1 :: rest) :=
  { mono := buf2messageRecord_mono buf
    sound := fun _ _ _ => recordEnds_of_record
    complete := fun _ _ => record_of_recordEnds
    zero := fun _ _ => rfl
    succ := fun _ _ _ => rfl }

/-! ### Messages -/

theorem buf2messageHeader_complete {buf : List UInt8} (room : 12 ≤ buf.length) :
    ∃ message, (buf2messageHeader buf).out = .ok message ∧
      message.queryCount = shortAt buf 4 ∧ message.answerCount = shortAt buf 6 := by
  have first := List.getElem?_eq_getElem (show 2 < buf.length by omega)
  have second := List.getElem?_eq_getElem (show 3 < buf.length by omega)
  unfold buf2messageHeader
  rw [Logged.bind_out_of_ok (readShort_complete (by omega)),
    Logged.bind_out_of_ok (readBase_out_of_some first),
    Logged.bind_out_of_ok (readBase_out_of_some second),
    Logged.bind_out_of_ok (readShort_complete (by omega)),
    Logged.bind_out_of_ok (readShort_complete (by omega)),
    Logged.bind_out_of_ok (readShort_complete (by omega)),
    Logged.bind_out_of_ok (readShort_complete (by omega))]
  exact ⟨_, rfl, rfl, rfl⟩

theorem buf2messageHeader_of_ok {buf : List UInt8} {message : Message}
    (done : (buf2messageHeader buf).out = .ok message) :
    12 ≤ buf.length ∧ message.queryCount = shortAt buf 4 ∧
      message.answerCount = shortAt buf 6 := by
  have room : 12 ≤ buf.length := by
    unfold buf2messageHeader at done
    rcases Logged.bind_out_eq_ok.mp done with ⟨_, _, done⟩
    rcases Logged.bind_out_eq_ok.mp done with ⟨_, _, done⟩
    rcases Logged.bind_out_eq_ok.mp done with ⟨_, _, done⟩
    rcases Logged.bind_out_eq_ok.mp done with ⟨_, _, done⟩
    rcases Logged.bind_out_eq_ok.mp done with ⟨_, _, done⟩
    rcases Logged.bind_out_eq_ok.mp done with ⟨_, _, done⟩
    rcases Logged.bind_out_eq_ok.mp done with ⟨additional, hAdditional, _⟩
    exact (readShort_of_ok hAdditional).1
  rcases buf2messageHeader_complete room with ⟨message', done', counts⟩
  rw [done'] at done
  cases done
  exact ⟨room, counts⟩

theorem questionSection_mono (buf : UvBuf) (queryCount : UInt16) :
    FuelMono (fun env => questionSection env buf queryCount) := by
  unfold questionSection
  by_cases longer : 12 < buf.len
  · simp only [if_pos longer]
    exact (questionLoop buf.base).loop_mono queryCount.toNat 12
  · simp only [if_neg longer]
    exact FuelMono.const fun _ => pure ([], 12)

theorem answerSection_mono (buf : UvBuf) (answerCount : UInt16) (endPos : Nat) :
    FuelMono (fun env => answerSection env buf answerCount endPos) := by
  unfold answerSection
  by_cases answered : 0 < answerCount
  · simp only [if_pos answered]
    exact (recordLoop buf.base).loop_mono answerCount.toNat endPos
  · simp only [if_neg answered]
    exact FuelMono.const fun _ => pure []

theorem answersStart_of_questionSection {env : Env} {buf : UvBuf}
    {entries : List Query × Nat}
    (done : (questionSection env buf (shortAt buf.base 4)).out = .ok entries) :
    AnswersStart buf entries.2 := by
  unfold questionSection at done
  unfold AnswersStart
  by_cases longer : 12 < buf.len
  · rw [if_pos longer] at done ⊢
    exact sectionEnds_of_question done
  · rw [if_neg longer] at done ⊢
    cases done
    rfl

theorem questionSection_of_answersStart {buf : UvBuf} {start : Nat}
    (ends : AnswersStart buf start) :
    ∃ enough, ∀ env : Env, enough ≤ env.fuel → ∃ queries,
      (questionSection env buf (shortAt buf.base 4)).out = .ok (queries, start) := by
  unfold questionSection
  unfold AnswersStart at ends
  by_cases longer : 12 < buf.len
  · rw [if_pos longer] at ends
    simp only [if_pos longer]
    exact question_of_sectionEnds ends
  · rw [if_neg longer] at ends
    subst ends
    simp only [if_neg longer]
    exact ⟨0, fun _ _ => ⟨[], rfl⟩⟩

section Sections

variable {holds : (α : Type) → (Env → Exec α) → Prop}
  (compositional : Compositional holds) (buf : UvBuf)

include compositional

theorem questionSection_holds_iff :
    holds (List Query × Nat)
        (fun env => questionSection env buf (shortAt buf.base 4)) ↔
      EachQuestion buf (fun position =>
        holds (Query × Nat) (fun env => buf2messageQuery env buf.base position)) := by
  unfold questionSection EachQuestion
  by_cases longer : 12 < buf.len
  · simp only [longer, if_true, forall_const]
    exact (questionLoop buf.base).holds_iff compositional _ 12
  · simp only [longer, if_false, false_implies, iff_true]
    exact compositional.done _ _

theorem answerSection_holds_iff (start : Nat) :
    holds (List ResourceRecord)
        (fun env => answerSection env buf (shortAt buf.base 6) start) ↔
      EachEntry (RecordEnds buf.base)
        (fun position =>
          holds (ResourceRecord × Nat) (fun env => buf2messageRecord env buf.base position))
        (answerCountOf buf) start := by
  unfold answerSection answerCountOf
  by_cases answered : 0 < shortAt buf.base 6
  · simp only [answered, if_true]
    exact (recordLoop buf.base).holds_iff compositional _ start
  · have none : (shortAt buf.base 6).toNat = 0 := by
      rw [UInt16.lt_iff_toNat_lt] at answered
      exact Nat.eq_zero_of_not_pos answered
    simp only [answered, if_false, none, EachEntry, iff_true]
    exact compositional.done _ _

/-- The two sections after a header. -/
theorem sections_holds_iff {γ : Type}
    (assemble : List Query × Nat → List ResourceRecord → γ)
    {queryCount answerCount : UInt16} (queries : queryCount = shortAt buf.base 4)
    (answers : answerCount = shortAt buf.base 6) :
    holds γ (fun env =>
        questionSection env buf queryCount >>= fun questions =>
          answerSection env buf answerCount questions.2 >>= fun answers =>
            pure (assemble questions answers)) ↔
      EachQuestion buf (fun position =>
          holds (Query × Nat) (fun env => buf2messageQuery env buf.base position)) ∧
        EachAnswer buf (fun position =>
          holds (ResourceRecord × Nat)
            (fun env => buf2messageRecord env buf.base position)) := by
  subst queries answers
  rw [compositional.sequence (List Query × Nat) γ
    (fun env => questionSection env buf (shortAt buf.base 4))
    (fun env questions =>
      answerSection env buf (shortAt buf.base 6) questions.2 >>= fun answers =>
        pure (assemble questions answers))
    (questionSection_mono buf _) (fun questions =>
      FuelMono.bind (answerSection_mono buf _ questions.2) fun answers =>
        FuelMono.const fun _ => pure (assemble questions answers)),
    questionSection_holds_iff compositional]
  have rest (junk : Site → Nat → UInt8) (questions : List Query × Nat) :=
    compositional.map
      ((answerSection_mono buf (shortAt buf.base 6) questions.2).onMachine junk)
      (assemble questions)
  refine and_congr_right fun _ => ?_
  constructor
  · intro later start here
    rw [← answerSection_holds_iff compositional]
    refine (compositional.machines _ _).mpr fun junk => ?_
    rcases questionSection_of_answersStart here with ⟨enough, done⟩
    rcases done ⟨enough, junk⟩ (Nat.le_refl _) with ⟨queries, read⟩
    exact (rest junk (queries, start)).mp (later _ _ read)
  · intro later env questions read
    have held := (answerSection_holds_iff compositional buf questions.2).mpr
      (later questions.2 (answersStart_of_questionSection read))
    exact (rest env.junk questions).mpr
      ((compositional.machines _ _).mp held env.junk)

/-- The decoder is made of the header and of the entries that the header
announces. -/
theorem buf2message_holds_iff :
    holds Message (fun env => buf2message env buf) ↔
      holds Message (fun _ => buf2messageHeader buf.base) ∧
        (12 ≤ buf.base.length →
          EachQuestion buf (fun position =>
              holds (Query × Nat) (fun env => buf2messageQuery env buf.base position)) ∧
            EachAnswer buf (fun position =>
              holds (ResourceRecord × Nat)
                (fun env => buf2messageRecord env buf.base position))) := by
  unfold buf2message
  rw [compositional.sequence Message Message (fun _ => buf2messageHeader buf.base)
    (fun env message =>
      questionSection env buf message.queryCount >>= fun questions =>
        answerSection env buf message.answerCount questions.2 >>= fun answers =>
          pure { message with queries := questions.1, answers := answers })
    (FuelMono.const fun _ => buf2messageHeader buf.base) (fun message =>
      FuelMono.bind (questionSection_mono buf _) fun questions =>
        FuelMono.bind (answerSection_mono buf _ questions.2) fun answers =>
          FuelMono.const fun _ =>
            pure { message with queries := questions.1, answers := answers })]
  refine and_congr_right fun _ => ?_
  constructor
  · intro later room
    rcases buf2messageHeader_complete room with ⟨message, read, queryCount, answerCount⟩
    rw [← sections_holds_iff compositional buf (fun questions answers =>
      { message with queries := questions.1, answers := answers }) queryCount answerCount]
    exact (compositional.machines _ _).mpr fun junk => later ⟨0, junk⟩ message read
  · intro later env message read
    rcases buf2messageHeader_of_ok read with ⟨room, queryCount, answerCount⟩
    have held := (sections_holds_iff compositional buf (fun questions answers =>
      { message with queries := questions.1, answers := answers }) queryCount
        answerCount).mpr (later room)
    exact (compositional.machines _ _).mp held env.junk

end Sections

end PostDns
