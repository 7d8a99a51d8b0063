/-
When the decoder comes to an end (message.c, `createName` and `buf2message`).

Nothing bounds the jumps of `createName`: it comes to an end exactly when its
pointers do not lead back to a position it has already read.  Everything else in
the decoder moves forward, and so does the encoder.
-/

import PostDns.EncodeSemantics
import PostDns.EntrySemantics
import PostDns.MessageLog

namespace PostDns

open Foundation

/-! ### Names -/

theorem nameStep_lt_length {follow : Bool} {buf : List UInt8} {position target : Nat}
    (next : nameStep follow buf position = some target) : position < buf.length := by
  by_contra outside
  have absent : buf[position]? = none := List.getElem?_eq_none (by omega)
  simp [nameStep, pieceAt, absent] at next

theorem nameStep_finite (follow : Bool) (buf : List UInt8) :
    {position | (nameStep follow buf position).isSome}.Finite := by
  apply (Set.finite_lt_nat buf.length).subset
  intro position steps
  obtain ⟨target, next⟩ := Option.isSome_iff_exists.mp steps
  exact nameStep_lt_length next

/-- Without pointers every step goes forward. -/
theorem nameStep_forward {buf : List UInt8} {position target : Nat}
    (next : nameStep false buf position = some target) : position < target := by
  unfold nameStep at next
  cases hPiece : pieceAt false buf position with
  | none => simp [hPiece] at next
  | some piece =>
      cases piece with
      | finish => simp [hPiece] at next
      | jump offset =>
          unfold pieceAt at hPiece
          cases hRead : buf[position]? with
          | none => simp [hRead] at hPiece
          | some octet =>
              simp only [hRead, Bool.false_eq_true, false_and, if_false] at hPiece
              split at hPiece
              · cases hPiece
              · split at hPiece <;> cases hPiece
      | letters count =>
          simp only [hPiece, Option.some.injEq] at next
          omega

theorem readName_finishes_iff (follow : Bool) (buf : List UInt8) (region : Region)
    (position : Nat) (cells : List UInt8) :
    Finishes (fun env => readName follow buf region env.fuel position cells) ↔
      Walk.Halts (nameStep follow buf) position := by
  constructor
  · intro finishes
    obtain ⟨fuel, finished⟩ := finishes fun _ _ => 0
    refine ⟨fuel, ?_⟩
    by_contra running
    exact finished ((readName_outOfFuel_iff region fuel position cells).mpr running)
  · rintro ⟨fuel, ended⟩ junk
    refine ⟨fuel, ?_⟩
    intro stopped
    exact (readName_outOfFuel_iff region fuel position cells).mp stopped ended

theorem questionName_finishes (buf : List UInt8) (bufPos : Nat) (cells : List UInt8) :
    Finishes (fun env => questionName buf env.fuel bufPos cells) := by
  simp only [questionName_eq_readName]
  rw [readName_finishes_iff]
  apply Walk.halts_of_decreasing (fun position => buf.length - position)
  intro source target next
  have inside := nameStep_lt_length next
  have forward := nameStep_forward next
  change buf.length - target < buf.length - source
  omega

/-- The pointers of the name at a position lead back to a place already read. -/
def NameLoops (buf : List UInt8) (position : Nat) : Prop :=
  Walk.Returns (nameStep true buf) position

theorem createName_finishes_iff (buf : List UInt8) (region : Region) (position : Nat)
    (cells : List UInt8) :
    Finishes (fun env => createName buf region env.fuel position cells) ↔
      ¬ NameLoops buf position := by
  simp only [createName_eq_readName]
  rw [readName_finishes_iff, Walk.halts_iff_not_returns (nameStep_finite true buf)]
  rfl

/-! ### Readers without a bound -/

theorem finishes_of_avoids {α : Type} {run : Exec α}
    (avoids : Logged.Avoids Fault.outOfFuel run) : Finishes (fun _ => run) :=
  fun _ => ⟨0, avoids⟩

theorem readBase_avoids (buf : List UInt8) (index : Nat) :
    Logged.Avoids Fault.outOfFuel (readBase buf index) := by
  intro stopped
  cases hRead : buf[index]? with
  | none =>
      rw [readBase_out_of_none hRead] at stopped
      cases stopped
  | some octet =>
      rw [readBase_out_of_some hRead] at stopped
      cases stopped

theorem readShort_avoids (buf : List UInt8) (index : Nat) :
    Logged.Avoids Fault.outOfFuel (readShort buf index) :=
  (readBase_avoids buf index).bind fun _ =>
    (readBase_avoids buf (index + 1)).bind fun _ => Logged.avoids_pure _ _

theorem writeAt_avoids (region : Region) (index : Int) :
    Logged.Avoids Fault.outOfFuel (writeAt region index) := by
  intro stopped
  cases stopped

theorem closeString_avoids (region : Region) (cells : List UInt8) :
    Logged.Avoids Fault.outOfFuel (closeString region cells) := by
  apply (writeAt_avoids region _).bind
  intro _ stopped
  cases cells with
  | nil => cases stopped
  | cons first rest => cases stopped

theorem copyLetters_avoids (buf : List UInt8) (region : Region) (count bufPos : Nat)
    (cells : List UInt8) :
    Logged.Avoids Fault.outOfFuel (copyLetters buf region count bufPos cells) := by
  induction count generalizing bufPos cells with
  | zero => exact Logged.avoids_pure _ cells
  | succ count ih =>
      exact (readBase_avoids buf bufPos).bind fun octet =>
        (writeAt_avoids region cells.length).bind fun _ =>
          ih (bufPos + 1) (cells ++ [octet])

theorem createRDataAddress_avoids (buf : List UInt8) (bufPos length : Nat) :
    Logged.Avoids Fault.outOfFuel (createRDataAddress buf bufPos length) := by
  unfold createRDataAddress
  by_cases positive : 0 < length
  · rw [if_pos positive]
    exact (copyLetters_avoids buf .rdata length bufPos []).bind fun _ =>
      Logged.avoids_pure _ _
  · rw [if_neg positive]
    exact Logged.avoids_pure _ _

theorem questionTail_avoids (buf : List UInt8) (named : Nat × List UInt8) :
    Logged.Avoids Fault.outOfFuel (questionTail buf named) :=
  (closeString_avoids .qvalue named.2).bind fun _ =>
    (readShort_avoids buf _).bind fun _ =>
      (readShort_avoids buf _).bind fun _ => Logged.avoids_pure _ _

theorem recordHead_avoids (buf : List UInt8) (named : Nat × List UInt8) :
    Logged.Avoids Fault.outOfFuel (recordHead buf named) :=
  (closeString_avoids .name named.2).bind fun _ =>
    (readShort_avoids buf _).bind fun _ =>
      (readShort_avoids buf _).bind fun _ =>
        (readShort_avoids buf _).bind fun _ =>
          (readShort_avoids buf _).bind fun _ =>
            (readShort_avoids buf _).bind fun _ => Logged.avoids_pure _ _

theorem responseDataOf_avoids (junk : Nat → UInt8) (type : UInt16)
    (cells : List UInt8) :
    Logged.Avoids Fault.outOfFuel (responseDataOf junk type cells) := by
  unfold responseDataOf
  by_cases isA : type = 1
  · rw [if_pos isA]
    refine (closeString_avoids .rdata cells).bind fun value => ?_
    intro stopped
    cases stopped
  · rw [if_neg isA]
    by_cases isCname : type = 5
    · rw [if_pos isCname]
      intro stopped
      rw [closeTarget_out] at stopped
      cases stopped
    · rw [if_neg isCname]
      by_cases isAaaa : type = 28
      · rw [if_pos isAaaa]
        refine (closeString_avoids .rdata cells).bind fun value => ?_
        rcases string2inet6Loop_complete junk value 16 0 with ⟨address, done⟩
        intro stopped
        rw [string2inet6address, Logged.bind_out_of_ok done] at stopped
        cases stopped
      · rw [if_neg isAaaa]
        exact Logged.avoids_pure _ _

theorem buf2messageHeader_avoids (buf : List UInt8) :
    Logged.Avoids Fault.outOfFuel (buf2messageHeader buf) :=
  (readShort_avoids buf 0).bind fun _ =>
    (readBase_avoids buf 2).bind fun _ =>
      (readBase_avoids buf 3).bind fun _ =>
        (readShort_avoids buf 4).bind fun _ =>
          (readShort_avoids buf 6).bind fun _ =>
            (readShort_avoids buf 8).bind fun _ =>
              (readShort_avoids buf 10).bind fun _ => Logged.avoids_pure _ _

/-! ### Writers -/

theorem avoids_of_ok {α : Type} {run : Exec α} {value : α} (done : run.out = .ok value) :
    Logged.Avoids Fault.outOfFuel run := by
  intro stopped
  rw [done] at stopped
  cases stopped

theorem initialised_avoids {α : Type} (count : UInt16) (entries : List α) :
    Logged.Avoids Fault.outOfFuel (initialised count entries) := by
  intro stopped
  unfold initialised at stopped
  by_cases enough : count.toNat ≤ entries.length
  · rw [if_pos enough] at stopped
    cases stopped
  · rw [if_neg enough] at stopped
    cases stopped

theorem memcpyTo_avoids (region : Region) (cells : Nat → UInt8) (position : Nat)
    (octets : List UInt8) :
    Logged.Avoids Fault.outOfFuel (memcpyTo region cells position octets) :=
  avoids_of_ok (memcpyTo_out region cells position octets)

theorem transferName_avoids (junk : Nat → UInt8) (domainName : StringT) :
    Logged.Avoids Fault.outOfFuel (transferName junk domainName) :=
  avoids_of_ok (transferName_out junk domainName)

theorem message2bufHeader_avoids (message : Message) (cells : Nat → UInt8) :
    Logged.Avoids Fault.outOfFuel (message2bufHeader message cells) :=
  (memcpyTo_avoids .packet cells _ _).bind fun _ =>
    (memcpyTo_avoids .packet _ _ _).bind fun _ =>
      (memcpyTo_avoids .packet _ _ _).bind fun _ =>
        (memcpyTo_avoids .packet _ _ _).bind fun _ =>
          (memcpyTo_avoids .packet _ _ _).bind fun _ => memcpyTo_avoids .packet _ _ _

theorem message2bufQuestion_avoids (env : Env) (start : Nat) (queries : List Query)
    (bufPos endPos : Nat) (cells : Nat → UInt8) :
    Logged.Avoids Fault.outOfFuel
      (message2bufQuestion env start queries bufPos endPos cells) := by
  induction queries generalizing bufPos endPos cells with
  | nil => exact Logged.avoids_pure _ _
  | cons query queries ih =>
      have written : Logged.Avoids Fault.outOfFuel
          (message2bufQuery env start query bufPos cells) :=
        (transferName_avoids _ _).bind fun _ => (memcpyTo_avoids .packet _ _ _).bind fun _ =>
          (memcpyTo_avoids .packet _ _ _).bind fun _ =>
            (memcpyTo_avoids .packet _ _ _).bind fun _ => Logged.avoids_pure _ _
      exact written.bind fun written => ih written.1 _ written.2

theorem message2bufData_avoids (env : Env) (start : Nat) (record : ResourceRecord)
    (bufPos : Nat) (cells : Nat → UInt8) :
    Logged.Avoids Fault.outOfFuel (message2bufData env start record bufPos cells) := by
  unfold message2bufData
  by_cases isA : record.type = 1
  · rw [if_pos isA]
    cases record.responseData with
    | inet4 address =>
        exact (memcpyTo_avoids .packet _ _ _).bind fun _ =>
          (memcpyTo_avoids .packet _ _ _).bind fun _ => Logged.avoids_pure _ _
    | _ =>
        intro stopped
        cases stopped
  · rw [if_neg isA]
    by_cases isCname : record.type = 5
    · rw [if_pos isCname]
      cases record.responseData with
      | domain data =>
          exact (memcpyTo_avoids .packet _ _ _).bind fun _ =>
            (transferName_avoids _ _).bind fun _ =>
              (memcpyTo_avoids .packet _ _ _).bind fun _ => Logged.avoids_pure _ _
      | _ =>
          intro stopped
          cases stopped
    · rw [if_neg isCname]
      by_cases isAaaa : record.type = 28
      · rw [if_pos isAaaa]
        cases record.responseData with
        | inet6 address =>
            exact (memcpyTo_avoids .packet _ _ _).bind fun _ =>
              (memcpyTo_avoids .packet _ _ _).bind fun _ => Logged.avoids_pure _ _
        | _ =>
            intro stopped
            cases stopped
      · rw [if_neg isAaaa]
        exact Logged.avoids_pure _ _

theorem message2bufAnswer_avoids (env : Env) (start : Nat) (records : List ResourceRecord)
    (bufPos : Nat) (cells : Nat → UInt8) :
    Logged.Avoids Fault.outOfFuel
      (message2bufAnswer env start records bufPos cells) := by
  induction records generalizing bufPos cells with
  | nil => exact Logged.avoids_pure _ _
  | cons record records ih =>
      have written : Logged.Avoids Fault.outOfFuel
          (message2bufRecord env start record bufPos cells) :=
        (transferName_avoids _ _).bind fun _ => (memcpyTo_avoids .packet _ _ _).bind fun _ =>
          (memcpyTo_avoids .packet _ _ _).bind fun _ =>
            (memcpyTo_avoids .packet _ _ _).bind fun _ =>
              (memcpyTo_avoids .packet _ _ _).bind fun _ =>
                message2bufData_avoids env start record _ _
      exact written.bind fun written => ih written.1 written.2

theorem message2buf_avoids (env : Env) (message : Message) :
    Logged.Avoids Fault.outOfFuel (message2buf env message) := by
  apply Logged.Avoids.stopping _ (by decide)
  apply (message2bufHeader_avoids message _).bind
  intro cells
  apply (initialised_avoids message.queryCount message.queries).bind
  intro queries
  apply (message2bufQuestion_avoids env 12 queries 0 12 cells).bind
  intro questions
  have written : Logged.Avoids Fault.outOfFuel
      (answersToBuf env message questions.1 questions.2) := by
    unfold answersToBuf
    by_cases some : 0 < message.answerCount
    · rw [if_pos some]
      exact (initialised_avoids message.answerCount message.answers).bind fun answers =>
        message2bufAnswer_avoids env questions.1 answers 0 questions.2
    · rw [if_neg some]
      exact Logged.avoids_pure _ _
  exact written.bind fun _ => Logged.avoids_pure _ _

/-- The encoder looks at the contents of uninitialised storage only. -/
theorem message2buf_fuel (message : Message) (junk : Site → Nat → UInt8) (fuel : Nat) :
    message2buf ⟨fuel, junk⟩ message = message2buf ⟨0, junk⟩ message := by
  have sameQuestions (start : Nat) (queries : List Query) (bufPos endPos : Nat)
      (cells : Nat → UInt8) :
      message2bufQuestion ⟨fuel, junk⟩ start queries bufPos endPos cells =
        message2bufQuestion ⟨0, junk⟩ start queries bufPos endPos cells := by
    induction queries generalizing bufPos endPos cells with
    | nil => rfl
    | cons query queries ih =>
        simp only [message2bufQuestion, ih]
        rfl
  have sameAnswers (start : Nat) (records : List ResourceRecord) (bufPos : Nat)
      (cells : Nat → UInt8) :
      message2bufAnswer ⟨fuel, junk⟩ start records bufPos cells =
        message2bufAnswer ⟨0, junk⟩ start records bufPos cells := by
    induction records generalizing bufPos cells with
    | nil => rfl
    | cons record records ih =>
        simp only [message2bufAnswer, ih]
        rfl
  simp only [message2buf, writeMessage, answersToBuf, sameQuestions, sameAnswers]

theorem messageLog_avoids (message : Message) :
    Logged.Avoids Fault.outOfFuel (messageLog message) := by
  have line (answer : ResourceRecord) : Logged.Avoids Fault.outOfFuel (logAnswer answer) := by
    unfold logAnswer
    split
    · split <;> exact nofun
    · split
      · split <;> exact nofun
      · split
        · split <;> exact nofun
        · exact Logged.avoids_pure _ _
  have lines (answers : List ResourceRecord) :
      Logged.Avoids Fault.outOfFuel (logAnswers answers) := by
    induction answers with
    | nil => exact Logged.avoids_pure _ _
    | cons answer answers ih =>
        exact (line answer).bind fun _ => ih.bind fun _ => Logged.avoids_pure _ _
  exact (initialised_avoids message.queryCount message.queries).bind fun _ =>
    (initialised_avoids message.answerCount message.answers).bind fun answers =>
      (lines answers).bind fun _ => Logged.avoids_pure _ _

theorem message2featureString_avoids (message : Message) :
    Logged.Avoids Fault.outOfFuel (message2featureString message) :=
  (initialised_avoids message.queryCount message.queries).bind fun _ =>
    Logged.avoids_pure _ _

/-! ### Entries -/

theorem buf2messageQuery_finishes (buf : List UInt8) (bufPos : Nat) :
    Finishes (fun env => buf2messageQuery env buf bufPos) :=
  (query_holds_iff compositional_finishes buf bufPos).mpr
    ⟨questionName_finishes buf bufPos [], fun _ named _ =>
      finishes_of_avoids (questionTail_avoids buf named)⟩

/-- Neither the name of the record at a position nor its canonical name loops. -/
def RecordUnwinds (buf : List UInt8) (position : Nat) : Prop :=
  ¬ NameLoops buf position ∧
    ∀ last filled, NameEnds true buf position 0 last filled → 0 < filled →
      last + 11 ≤ buf.length → shortAt buf (last + 1) = 5 → ¬ NameLoops buf (last + 11)

theorem createRData_finishes_iff (buf : List UInt8) (bufPos : Nat) (type : UInt16)
    (length : Nat) :
    Finishes (fun env => createRData env buf bufPos type length) ↔
      (type = 5 → ¬ NameLoops buf bufPos) := by
  unfold createRData
  by_cases isCname : type = 5
  · subst isCname
    simp only [forall_const]
    exact createName_finishes_iff buf .rdata bufPos []
  · simp only [isCname, false_implies, iff_true, if_false]
    by_cases isA : type = 1
    · simp only [isA, if_true]
      exact finishes_of_avoids (createRDataAddress_avoids buf bufPos length)
    · by_cases isAaaa : type = 28
      · simp only [isAaaa, if_true]
        exact finishes_of_avoids (createRDataAddress_avoids buf bufPos length)
      · simp only [isA, isAaaa, if_false]
        exact finishes_of_avoids (Logged.avoids_pure _ _)

theorem recordTail_finishes_iff (junk : Site → Nat → UInt8) (buf : List UInt8)
    (bufPos last : Nat) (head : RecordHead) :
    Finishes (onMachine junk fun env => recordTail env buf bufPos last head) ↔
      (head.type = 5 → ¬ NameLoops buf (last + 11)) := by
  rw [recordTail_holds_iff compositional_finishes, createRData_finishes_iff]
  exact and_iff_left fun _ data _ =>
    finishes_of_avoids (responseDataOf_avoids (junk (.value bufPos)) head.type data.2)

theorem buf2messageRecord_finishes_iff (buf : List UInt8) (bufPos : Nat) :
    Finishes (fun env => buf2messageRecord env buf bufPos) ↔ RecordUnwinds buf bufPos := by
  rw [record_holds_iff compositional_finishes, createName_finishes_iff]
  have ended (env : Env) (named : Nat × List UInt8) :
      (Finishes (fun _ => recordHead buf named) ∧
          ∀ head, (recordHead buf named).out = .ok head →
            Finishes (onMachine env.junk fun env =>
              recordTail env buf bufPos named.1 head)) ↔
        (0 < named.2.length → named.1 + 11 ≤ buf.length →
          shortAt buf (named.1 + 1) = 5 → ¬ NameLoops buf (named.1 + 11)) := by
    rw [and_iff_right (finishes_of_avoids (recordHead_avoids buf named))]
    exact forall_recordHead_iff (fun type _ => type = 5 → ¬ NameLoops buf (named.1 + 11))
      buf named fun _ head => recordTail_finishes_iff env.junk buf bufPos named.1 head
  simp only [ended]
  exact and_congr_right fun _ => forall_createName_iff (fun last filled =>
    0 < filled → last + 11 ≤ buf.length → shortAt buf (last + 1) = 5 →
      ¬ NameLoops buf (last + 11)) buf .name bufPos

/-! ### Datagrams -/

theorem EachEntry.of_forall {ends : Nat → Nat → Prop} {good : Nat → Prop}
    (always : ∀ position, good position) (count position : Nat) :
    EachEntry ends good count position := by
  induction count generalizing position with
  | zero => trivial
  | succ count ih => exact ⟨always position, fun next _ => ih next⟩

theorem buf2message_finishes_iff (buf : UvBuf) :
    Finishes (fun env => buf2message env buf) ↔
      (12 ≤ buf.base.length → EachAnswer buf (RecordUnwinds buf.base)) := by
  rw [buf2message_holds_iff compositional_finishes,
    and_iff_right (finishes_of_avoids (buf2messageHeader_avoids buf.base))]
  simp only [buf2messageRecord_finishes_iff]
  exact imp_congr_right fun _ => and_iff_right fun _ =>
    EachEntry.of_forall (buf2messageQuery_finishes buf.base) _ 12

/-- `createName` comes to an end at exactly the offsets from which the pointers do
not lead back to a position already read, and `buf2message` on exactly the
datagrams whose answers name only such offsets. -/
theorem decoding_finishes_iff (datagram : Datagram) :
    (∀ region position cells,
        Finishes (fun env =>
            createName datagram.buf.base region env.fuel position cells) ↔
          ¬ NameLoops datagram.buf.base position) ∧
      (Finishes (fun env => buf2message env datagram.buf) ↔
        (12 ≤ datagram.buf.base.length →
          EachAnswer datagram.buf (RecordUnwinds datagram.buf.base))) :=
  ⟨createName_finishes_iff datagram.buf.base, buf2message_finishes_iff datagram.buf⟩

def selfPointing : Datagram :=
  { buf :=
      { base := [0, 0, 0x80, 0, 0, 0, 0, 1, 0, 0, 0, 0, 0xc0, 12]
        len := 14 }
    nonempty := by decide
    fits := by decide }

theorem selfPointing_loops : NameLoops selfPointing.buf.base 12 :=
  ⟨12, Relation.ReflTransGen.refl, Relation.TransGen.single (by
    simp only [Walk.Steps]
    decide)⟩

theorem not_finishes_selfPointing :
    ¬ Finishes (fun env => createName selfPointing.buf.base .name env.fuel 12 []) ∧
      ¬ Finishes (fun env => buf2message env selfPointing.buf) := by
  rw [createName_finishes_iff, buf2message_finishes_iff]
  refine ⟨not_not_intro selfPointing_loops, ?_⟩
  intro unwinds
  have start : AnswersStart selfPointing.buf 12 := by
    rw [AnswersStart, if_pos (by decide)]
    rfl
  exact (unwinds (by decide) 12 start).1.1 selfPointing_loops

end PostDns
