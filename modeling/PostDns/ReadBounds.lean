/-
Which octets of the receive allocation the decoder reads (message.c,
`buf2message` and what it calls).

The decoder never compares a position with the length of the datagram.  It stays
inside exactly when the datagram is framed: every name, every question, every
record and every data field that it announces is there in full.
-/

import PostDns.EntrySemantics

namespace PostDns

open Foundation

def Access.ReadBelow (limit : Nat) : Access → Prop
  | .read .base index => index < limit
  | _ => True

/-! ### Octets past the datagram -/

section Prefix

variable (buf : List UInt8) (limit : Nat)

abbrev PrefixAgree {α : Type} (short whole : Exec α) : Prop :=
  Logged.Agree (Access.ReadBelow limit) short whole

theorem readBase_agree (index : Nat) :
    PrefixAgree limit (readBase (buf.take limit) index) (readBase buf index) := by
  by_cases below : index < limit
  · left
    simp only [readBase, List.getElem?_take_of_lt below]
  · right
    have outside (other : List UInt8) :
        ¬ Logged.Always (Access.ReadBelow limit) (readBase other index) := by
      intro bounded
      exact below (bounded (.read .base index) (by simp))
    exact ⟨outside _, outside buf⟩

theorem readShort_agree (index : Nat) :
    PrefixAgree limit (readShort (buf.take limit) index) (readShort buf index) :=
  (readBase_agree buf limit index).bind fun _ =>
    (readBase_agree buf limit (index + 1)).bind fun _ => Logged.Agree.refl _ _

theorem copyLetters_agree (region : Region) (count bufPos : Nat) (cells : List UInt8) :
    PrefixAgree limit (copyLetters (buf.take limit) region count bufPos cells)
      (copyLetters buf region count bufPos cells) := by
  induction count generalizing bufPos cells with
  | zero => exact Logged.Agree.refl _ _
  | succ count ih =>
      exact (readBase_agree buf limit bufPos).bind fun octet =>
        (Logged.Agree.refl _ _).bind fun _ => ih (bufPos + 1) (cells ++ [octet])

theorem visit_agree (follow : Bool) (region : Region) (position : Nat)
    (cells : List UInt8) :
    PrefixAgree limit (visit follow (buf.take limit) region position cells)
      (visit follow buf region position cells) := by
  refine (readBase_agree buf limit position).bind fun octet => ?_
  by_cases isZero : octet = 0
  · rw [if_pos isZero, if_pos isZero]
    exact Logged.Agree.refl _ _
  · rw [if_neg isZero, if_neg isZero]
    by_cases marked : follow = true ∧ octet &&& 0xc0 = 0xc0
    · rw [if_pos marked, if_pos marked]
      exact (readBase_agree buf limit (position + 1)).bind fun _ => Logged.Agree.refl _ _
    · rw [if_neg marked, if_neg marked]
      exact (copyLetters_agree buf limit region octet.toNat (position + 1) cells).bind
        fun _ => Logged.Agree.refl _ _

theorem readName_agree (follow : Bool) (region : Region) (fuel position : Nat)
    (cells : List UInt8) :
    PrefixAgree limit (readName follow (buf.take limit) region fuel position cells)
      (readName follow buf region fuel position cells) := by
  induction fuel generalizing position cells with
  | zero => exact Logged.Agree.refl _ _
  | succ fuel ih =>
      refine (visit_agree buf limit follow region position cells).bind fun step => ?_
      cases step.1 with
      | finish => exact Logged.Agree.refl _ _
      | jump offset => exact (ih offset step.2).bind fun _ => Logged.Agree.refl _ _
      | letters count => exact ih (position + 1 + count) step.2

theorem buf2messageQuery_agree (env : Env) (bufPos : Nat) :
    PrefixAgree limit (buf2messageQuery env (buf.take limit) bufPos)
      (buf2messageQuery env buf bufPos) := by
  unfold buf2messageQuery
  simp only [questionName_eq_readName]
  exact (readName_agree buf limit false .qvalue env.fuel bufPos []).bind fun named =>
    (Logged.Agree.refl _ _).bind fun _ =>
      (readShort_agree buf limit (named.1 + 1)).bind fun _ =>
        (readShort_agree buf limit (named.1 + 3)).bind fun _ => Logged.Agree.refl _ _

theorem createRDataAddress_agree (bufPos length : Nat) :
    PrefixAgree limit (createRDataAddress (buf.take limit) bufPos length)
      (createRDataAddress buf bufPos length) := by
  unfold createRDataAddress
  by_cases positive : 0 < length
  · rw [if_pos positive, if_pos positive]
    exact (copyLetters_agree buf limit .rdata length bufPos []).bind fun _ =>
      Logged.Agree.refl _ _
  · rw [if_neg positive, if_neg positive]
    exact Logged.Agree.refl _ _

theorem createRData_agree (env : Env) (bufPos : Nat) (type : UInt16) (length : Nat) :
    PrefixAgree limit (createRData env (buf.take limit) bufPos type length)
      (createRData env buf bufPos type length) := by
  unfold createRData
  simp only [createName_eq_readName]
  by_cases isA : type = 1
  · rw [if_pos isA, if_pos isA]
    exact createRDataAddress_agree buf limit bufPos length
  · rw [if_neg isA, if_neg isA]
    by_cases isCname : type = 5
    · rw [if_pos isCname, if_pos isCname]
      exact readName_agree buf limit true .rdata env.fuel bufPos []
    · rw [if_neg isCname, if_neg isCname]
      by_cases isAaaa : type = 28
      · rw [if_pos isAaaa, if_pos isAaaa]
        exact createRDataAddress_agree buf limit bufPos length
      · rw [if_neg isAaaa, if_neg isAaaa]
        exact Logged.Agree.refl _ _

theorem buf2messageRecord_agree (env : Env) (bufPos : Nat) :
    PrefixAgree limit (buf2messageRecord env (buf.take limit) bufPos)
      (buf2messageRecord env buf bufPos) := by
  unfold buf2messageRecord
  simp only [createName_eq_readName]
  exact (readName_agree buf limit true .name env.fuel bufPos []).bind fun named =>
    (Logged.Agree.refl _ _).bind fun _ =>
      (readShort_agree buf limit (named.1 + 1)).bind fun type =>
        (readShort_agree buf limit (named.1 + 3)).bind fun _ =>
          (readShort_agree buf limit (named.1 + 5)).bind fun _ =>
            (readShort_agree buf limit (named.1 + 7)).bind fun _ =>
              (readShort_agree buf limit (named.1 + 9)).bind fun length =>
                (createRData_agree buf limit env (named.1 + 11) type length.toNat).bind
                  fun _ => Logged.Agree.refl _ _

theorem buf2messageQuestion_agree (env : Env) (count bufPos : Nat) :
    PrefixAgree limit (buf2messageQuestion env (buf.take limit) count bufPos)
      (buf2messageQuestion env buf count bufPos) := by
  induction count generalizing bufPos with
  | zero => exact Logged.Agree.refl _ _
  | succ count ih =>
      exact (buf2messageQuery_agree buf limit env bufPos).bind fun entry =>
        (ih entry.2).bind fun _ => Logged.Agree.refl _ _

theorem buf2messageRR_agree (env : Env) (count bufPos : Nat) :
    PrefixAgree limit (buf2messageRR env (buf.take limit) count bufPos)
      (buf2messageRR env buf count bufPos) := by
  induction count generalizing bufPos with
  | zero => exact Logged.Agree.refl _ _
  | succ count ih =>
      exact (buf2messageRecord_agree buf limit env bufPos).bind fun entry =>
        (ih entry.2).bind fun _ => Logged.Agree.refl _ _

theorem buf2messageHeader_agree :
    PrefixAgree limit (buf2messageHeader (buf.take limit)) (buf2messageHeader buf) :=
  (readShort_agree buf limit 0).bind fun _ =>
    (readBase_agree buf limit 2).bind fun _ =>
      (readBase_agree buf limit 3).bind fun _ =>
        (readShort_agree buf limit 4).bind fun _ =>
          (readShort_agree buf limit 6).bind fun _ =>
            (readShort_agree buf limit 8).bind fun _ =>
              (readShort_agree buf limit 10).bind fun _ => Logged.Agree.refl _ _

end Prefix

def UvBuf.trim (buf : UvBuf) : UvBuf :=
  { base := buf.octets
    len := buf.len }

theorem buf2message_agree (env : Env) (buf : UvBuf) :
    PrefixAgree buf.len (buf2message env buf.trim) (buf2message env buf) := by
  refine (buf2messageHeader_agree buf.base buf.len).bind fun message => ?_
  have questions : PrefixAgree buf.len (questionSection env buf.trim message.queryCount)
      (questionSection env buf message.queryCount) := by
    unfold questionSection
    by_cases longer : 12 < buf.len
    · rw [if_pos longer, if_pos (show 12 < buf.trim.len from longer)]
      exact buf2messageQuestion_agree buf.base buf.len env _ 12
    · rw [if_neg longer, if_neg (show ¬ 12 < buf.trim.len from longer)]
      exact Logged.Agree.refl _ _
  have answers (endPos : Nat) :
      PrefixAgree buf.len (answerSection env buf.trim message.answerCount endPos)
        (answerSection env buf message.answerCount endPos) := by
    unfold answerSection
    by_cases answered : 0 < message.answerCount
    · rw [if_pos answered, if_pos answered]
      exact buf2messageRR_agree buf.base buf.len env _ endPos
    · rw [if_neg answered, if_neg answered]
      exact Logged.Agree.refl _ _
  exact questions.bind fun entries =>
    (answers entries.2).bind fun _ => Logged.Agree.refl _ _

/-! ### Readers inside the allocation -/

/-- The run returns and stays inside, or it leaves the allocation and stops. -/
def ReadsThrough {α : Type} (limit : Nat) (run : Exec α) : Prop :=
  (∃ value, run.out = .ok value) ∧ Logged.Always (Access.ReadBelow limit) run ∨
    (∃ index, run.out = .error (.overread index)) ∧
      ¬ Logged.Always (Access.ReadBelow limit) run

theorem ReadsThrough.always_iff {α : Type} {limit : Nat} {run : Exec α}
    (through : ReadsThrough limit run) :
    Logged.Always (Access.ReadBelow limit) run ↔ ∃ value, run.out = .ok value := by
  rcases through with ⟨returned, inside⟩ | ⟨⟨index, stopped⟩, outside⟩
  · exact iff_of_true inside returned
  · refine iff_of_false outside ?_
    rintro ⟨value, returned⟩
    rw [stopped] at returned
    cases returned

theorem readsThrough_pure {α : Type} (limit : Nat) (value : α) :
    ReadsThrough limit (pure value) :=
  Or.inl ⟨⟨value, rfl⟩, Logged.always_pure _ value⟩

theorem ReadsThrough.bind {α β : Type} {limit : Nat} {first : Exec α}
    {next : α → Exec β} (through : ReadsThrough limit first)
    (nextThrough : ∀ value, first.out = .ok value → ReadsThrough limit (next value)) :
    ReadsThrough limit (first >>= next) := by
  rcases through with ⟨⟨value, returned⟩, inside⟩ | ⟨⟨index, stopped⟩, outside⟩
  · have split : Logged.Always (Access.ReadBelow limit) (first >>= next) ↔
        Logged.Always (Access.ReadBelow limit) (next value) := by
      rw [Logged.always_bind, and_iff_right inside]
      constructor
      · intro later
        exact later value returned
      · intro later other done
        rw [returned] at done
        cases done
        exact later
    unfold ReadsThrough
    rw [split, Logged.bind_out_of_ok returned]
    exact nextThrough value returned
  · refine Or.inr ⟨⟨index, ?_⟩, fun bounded => outside (Logged.always_bind.mp bounded).1⟩
    rw [Logged.bind_of_error stopped]

section Inside

variable (buf : List UInt8)

theorem readBase_through (index : Nat) :
    ReadsThrough buf.length (readBase buf index) := by
  cases hRead : buf[index]? with
  | none =>
      refine Or.inr ⟨⟨index, readBase_out_of_none hRead⟩, ?_⟩
      intro bounded
      have inside : index < buf.length := bounded (.read .base index) (by simp)
      rw [List.getElem?_eq_getElem inside] at hRead
      cases hRead
  | some octet =>
      refine Or.inl ⟨⟨octet, readBase_out_of_some hRead⟩, ?_⟩
      intro access member
      rw [readBase_log, List.mem_singleton] at member
      rw [member]
      exact (List.getElem?_eq_some_iff.mp hRead).1

theorem writeAt_through (limit : Nat) (region : Region) (index : Int) :
    ReadsThrough limit (writeAt region index) := by
  refine Or.inl ⟨⟨(), rfl⟩, ?_⟩
  intro access member
  rw [writeAt_log, List.mem_singleton] at member
  rw [member]
  trivial

theorem closeString_through (limit : Nat) (region : Region) {cells : List UInt8}
    (positive : 0 < cells.length) : ReadsThrough limit (closeString region cells) := by
  refine (writeAt_through limit region _).bind fun _ _ => ?_
  cases cells with
  | nil => simp at positive
  | cons first rest => exact readsThrough_pure limit _

theorem readShort_through (index : Nat) : ReadsThrough buf.length (readShort buf index) :=
  (readBase_through buf index).bind fun _ _ =>
    (readBase_through buf (index + 1)).bind fun _ _ => readsThrough_pure _ _

theorem copyLetters_through (region : Region) (count bufPos : Nat)
    (cells : List UInt8) :
    ReadsThrough buf.length (copyLetters buf region count bufPos cells) := by
  induction count generalizing bufPos cells with
  | zero => exact readsThrough_pure _ cells
  | succ count ih =>
      exact (readBase_through buf bufPos).bind fun octet _ =>
        (writeAt_through _ region cells.length).bind fun _ _ =>
          ih (bufPos + 1) (cells ++ [octet])

theorem visit_through (follow : Bool) (region : Region) (position : Nat)
    (cells : List UInt8) :
    ReadsThrough buf.length (visit follow buf region position cells) := by
  refine (readBase_through buf position).bind fun octet _ => ?_
  by_cases isZero : octet = 0
  · rw [if_pos isZero]
    exact readsThrough_pure _ _
  · rw [if_neg isZero]
    by_cases marked : follow = true ∧ octet &&& 0xc0 = 0xc0
    · rw [if_pos marked]
      exact (readBase_through buf (position + 1)).bind fun _ _ => readsThrough_pure _ _
    · rw [if_neg marked]
      exact (copyLetters_through buf region octet.toNat (position + 1) cells).bind
        fun copied _ => (writeAt_through _ region copied.length).bind fun _ _ =>
          readsThrough_pure _ _

theorem visit_reads_iff (follow : Bool) (region : Region) (place : Place) :
    Logged.Always (Access.ReadBelow buf.length) (visitAt follow buf region place) ↔
      pieceAt follow buf place.1 ≠ none := by
  unfold visitAt
  rw [(visit_through buf follow region place.1 _).always_iff]
  constructor
  · rintro ⟨step, done⟩ absent
    have present := (nameMove_of_visit done).1
    rw [absent] at present
    cases present
  · intro present
    obtain ⟨piece, here⟩ := Option.ne_none_iff_exists'.mp present
    obtain ⟨after, done, _⟩ := visit_out_of_some region here (List.replicate place.2 0)
    exact ⟨(piece, after), done⟩

end Inside

/-! ### Framed datagrams -/

def NameFramed (follow : Bool) (buf : List UInt8) (start : Nat) : Prop :=
  ∀ position, Walk.Reaches (nameStep follow buf) start position →
    pieceAt follow buf position ≠ none

def QuestionFramed (buf : List UInt8) (position : Nat) : Prop :=
  NameFramed false buf position ∧
    ∀ last filled, NameEnds false buf position 0 last filled → 0 < filled →
      last + 5 ≤ buf.length

def DataFramed (buf : List UInt8) (type : UInt16) (length position : Nat) : Prop :=
  if type = 1 ∨ type = 28 then position + length ≤ buf.length
  else if type = 5 then NameFramed true buf position
  else True

def RecordFramed (buf : List UInt8) (position : Nat) : Prop :=
  NameFramed true buf position ∧
    ∀ last filled, NameEnds true buf position 0 last filled → 0 < filled →
      last + 11 ≤ buf.length ∧
        DataFramed buf (shortAt buf (last + 1)) (shortAt buf (last + 9)).toNat (last + 11)

def Framed (buf : UvBuf) : Prop :=
  12 ≤ buf.base.length ∧
    EachQuestion buf (QuestionFramed buf.base) ∧ EachAnswer buf (RecordFramed buf.base)

section Entries

variable (buf : List UInt8)

theorem nameStep_eq_nameMove (follow : Bool) (place : Place) :
    nameStep follow buf place.1 = (nameMove follow buf place).map Prod.fst := by
  unfold nameStep nameMove
  cases hPiece : pieceAt follow buf place.1 with
  | none => rfl
  | some piece => cases piece <;> rfl

theorem readName_reads_iff (follow : Bool) (region : Region) (position : Nat) :
    AlwaysGood (Access.ReadBelow buf.length)
        (fun env => readName follow buf region env.fuel position []) ↔
      NameFramed follow buf position := by
  have places : AlwaysGood (Access.ReadBelow buf.length)
        (fun env => readName follow buf region env.fuel position []) ↔
      ∀ place, Walk.Reaches (nameMove follow buf) (position, 0) place →
        pieceAt follow buf place.1 ≠ none := by
    simp only [← visit_reads_iff buf follow region]
    exact alwaysGood_fuel_iff.trans always_readName_iff
  rw [places]
  have projected (goal : Nat) :
      Walk.Reaches (nameStep follow buf) position goal ↔
        ∃ place, Walk.Reaches (nameMove follow buf) (position, 0) place ∧
          place.1 = goal :=
    Walk.reaches_map_iff (nameStep_eq_nameMove buf follow) (position, 0)
  constructor
  · intro present goal reached
    obtain ⟨place, arrived, placeIs⟩ := (projected goal).mp reached
    exact placeIs ▸ present place arrived
  · intro framed place reached
    exact framed place.1 ((projected place.1).mpr ⟨place, reached, rfl⟩)

theorem write_reads (limit : Nat) (region : Region) (index : Int) {α : Type}
    (out : Except Fault α) :
    Logged.Always (Access.ReadBelow limit) { log := [.write region index], out := out } := by
  intro access member
  rw [List.mem_singleton.mp member]
  trivial

theorem questionTail_reads_iff (named : Nat × List UInt8) :
    Logged.Always (Access.ReadBelow buf.length) (questionTail buf named) ↔
      (0 < named.2.length → named.1 + 5 ≤ buf.length) := by
  by_cases positive : 0 < named.2.length
  · have through : ReadsThrough buf.length (questionTail buf named) :=
      (closeString_through _ .qvalue positive).bind fun _ _ =>
        (readShort_through buf _).bind fun _ _ =>
          (readShort_through buf _).bind fun _ _ => readsThrough_pure _ _
    rw [through.always_iff, forall_prop_of_true positive]
    constructor
    · rintro ⟨entry, done⟩
      exact (questionTail_of_ok done).2.1
    · intro room
      obtain ⟨query, done⟩ := questionTail_complete positive room
      exact ⟨_, done⟩
  · rw [questionTail, closeString_empty .qvalue positive]
    exact iff_of_true (write_reads _ _ _ _) fun filled => absurd filled positive

theorem recordHead_reads_iff (named : Nat × List UInt8) :
    Logged.Always (Access.ReadBelow buf.length) (recordHead buf named) ↔
      (0 < named.2.length → named.1 + 11 ≤ buf.length) := by
  by_cases positive : 0 < named.2.length
  · have through : ReadsThrough buf.length (recordHead buf named) :=
      (closeString_through _ .name positive).bind fun _ _ =>
        (readShort_through buf _).bind fun _ _ =>
          (readShort_through buf _).bind fun _ _ =>
            (readShort_through buf _).bind fun _ _ =>
              (readShort_through buf _).bind fun _ _ =>
                (readShort_through buf _).bind fun _ _ => readsThrough_pure _ _
    rw [through.always_iff, forall_prop_of_true positive]
    constructor
    · rintro ⟨head, done⟩
      exact (recordHead_of_ok done).2.1
    · intro room
      obtain ⟨head, done, _⟩ := recordHead_complete positive room
      exact ⟨head, done⟩
  · rw [recordHead, closeString_empty .name positive]
    exact iff_of_true (write_reads _ _ _ _) fun filled => absurd filled positive

theorem createRDataAddress_reads_iff {position length : Nat}
    (start : position ≤ buf.length) :
    Logged.Always (Access.ReadBelow buf.length) (createRDataAddress buf position length) ↔
      position + length ≤ buf.length := by
  unfold createRDataAddress
  by_cases positive : 0 < length
  · rw [if_pos positive, ((copyLetters_through buf .rdata length position []).bind
      fun _ _ => readsThrough_pure _ _).always_iff]
    constructor
    · rintro ⟨data, done⟩
      obtain ⟨copied, copies, _⟩ := Logged.bind_out_eq_ok.mp done
      exact (copyLetters_of_ok start copies).1
    · intro room
      obtain ⟨copied, copies, _⟩ := copyLetters_complete .rdata [] room
      exact ⟨_, Logged.bind_out_eq_ok.mpr ⟨copied, copies, rfl⟩⟩
  · rw [if_neg positive]
    exact iff_of_true (Logged.always_pure _ _) (by omega)

theorem createRData_reads_iff (type : UInt16) {position length : Nat}
    (start : position ≤ buf.length) :
    AlwaysGood (Access.ReadBelow buf.length)
        (fun env => createRData env buf position type length) ↔
      DataFramed buf type length position := by
  have address : AlwaysGood (Access.ReadBelow buf.length)
        (fun _ => createRDataAddress buf position length) ↔
      position + length ≤ buf.length :=
    alwaysGood_const_iff.trans (createRDataAddress_reads_iff buf start)
  unfold createRData DataFramed
  by_cases isA : type = 1
  · simp only [isA, if_true, true_or]
    exact address
  · by_cases isCname : type = 5
    · subst isCname
      simp only [createName_eq_readName]
      exact readName_reads_iff buf true .rdata position
    · by_cases isAaaa : type = 28
      · subst isAaaa
        exact address
      · simp only [isA, isCname, isAaaa, if_false, or_self, iff_true]
        exact fun _ => Logged.always_pure _ _

theorem buf2messageHeader_reads_iff :
    Logged.Always (Access.ReadBelow buf.length) (buf2messageHeader buf) ↔
      12 ≤ buf.length := by
  have through : ReadsThrough buf.length (buf2messageHeader buf) :=
    (readShort_through buf 0).bind fun _ _ =>
      (readBase_through buf 2).bind fun _ _ =>
        (readBase_through buf 3).bind fun _ _ =>
          (readShort_through buf 4).bind fun _ _ =>
            (readShort_through buf 6).bind fun _ _ =>
              (readShort_through buf 8).bind fun _ _ =>
                (readShort_through buf 10).bind fun _ _ => readsThrough_pure _ _
  rw [through.always_iff]
  constructor
  · rintro ⟨message, done⟩
    exact (buf2messageHeader_of_ok done).1
  · intro room
    obtain ⟨message, done, _⟩ := buf2messageHeader_complete room
    exact ⟨message, done⟩

theorem buf2messageQuery_reads_iff (position : Nat) :
    AlwaysGood (Access.ReadBelow buf.length)
        (fun env => buf2messageQuery env buf position) ↔ QuestionFramed buf position := by
  rw [query_holds_iff (compositional_alwaysGood _)]
  have name : AlwaysGood (Access.ReadBelow buf.length)
        (fun env => questionName buf env.fuel position []) ↔
      NameFramed false buf position := by
    simp only [questionName_eq_readName]
    exact readName_reads_iff buf false .qvalue position
  simp only [alwaysGood_const_iff, questionTail_reads_iff]
  exact and_congr name (forall_questionName_iff (fun last filled =>
    0 < filled → last + 5 ≤ buf.length) buf position)

theorem recordTail_reads_iff (junk : Site → Nat → UInt8) (bufPos last : Nat)
    (head : RecordHead) (start : last + 11 ≤ buf.length) :
    AlwaysGood (Access.ReadBelow buf.length)
        (onMachine junk fun env => recordTail env buf bufPos last head) ↔
      DataFramed buf head.type head.length.toNat (last + 11) := by
  rw [recordTail_holds_iff (compositional_alwaysGood _), createRData_reads_iff _ _ start]
  exact and_iff_left fun _ data _ =>
    alwaysGood_const_iff.mpr ((responseDataOf_always_iff (fun _ _ => trivial) _ head.type
      data.2).mpr fun _ => trivial)

theorem buf2messageRecord_reads_iff (position : Nat) :
    AlwaysGood (Access.ReadBelow buf.length)
        (fun env => buf2messageRecord env buf position) ↔ RecordFramed buf position := by
  rw [record_holds_iff (compositional_alwaysGood _)]
  have name : AlwaysGood (Access.ReadBelow buf.length)
        (fun env => createName buf .name env.fuel position []) ↔
      NameFramed true buf position := by
    simp only [createName_eq_readName]
    exact readName_reads_iff buf true .name position
  have rest (env : Env) (named : Nat × List UInt8) :
      (AlwaysGood (Access.ReadBelow buf.length) (fun _ => recordHead buf named) ∧
          ∀ head, (recordHead buf named).out = .ok head →
            AlwaysGood (Access.ReadBelow buf.length) (onMachine env.junk fun env =>
              recordTail env buf position named.1 head)) ↔
        (0 < named.2.length → named.1 + 11 ≤ buf.length ∧
          DataFramed buf (shortAt buf (named.1 + 1)) (shortAt buf (named.1 + 9)).toNat
            (named.1 + 11)) := by
    rw [alwaysGood_const_iff, recordHead_reads_iff,
      forall_recordHead_iff (fun type length =>
        DataFramed buf type length.toNat (named.1 + 11)) buf named fun room head =>
          recordTail_reads_iff buf env.junk position named.1 head room]
    exact ⟨fun parts positive => ⟨parts.1 positive, parts.2 positive (parts.1 positive)⟩,
      fun framed => ⟨fun positive => (framed positive).1,
        fun positive _ => (framed positive).2⟩⟩
  simp only [rest]
  exact and_congr name (forall_createName_iff (fun last filled =>
    0 < filled → last + 11 ≤ buf.length ∧
      DataFramed buf (shortAt buf (last + 1)) (shortAt buf (last + 9)).toNat (last + 11))
    buf .name position)

end Entries

/-! ### Datagrams -/

theorem buf2message_reads_iff (buf : UvBuf) :
    AlwaysGood (Access.ReadBelow buf.base.length) (fun env => buf2message env buf) ↔
      Framed buf := by
  rw [buf2message_holds_iff (compositional_alwaysGood _), alwaysGood_const_iff,
    buf2messageHeader_reads_iff]
  simp only [buf2messageQuery_reads_iff, buf2messageRecord_reads_iff]
  exact and_congr_right fun room => forall_prop_of_true room

/-- The decoder reads nothing past the datagram exactly when the datagram is
framed. -/
theorem buf2message_reads_within_iff (datagram : Datagram) :
    AlwaysGood (Access.ReadBelow datagram.buf.len)
        (fun env => buf2message env datagram.buf) ↔
      Framed datagram.buf.trim := by
  have trimmed : datagram.buf.trim.base.length = datagram.buf.len :=
    List.length_take_of_le datagram.fits
  rw [← buf2message_reads_iff, trimmed]
  exact forall_congr' fun env => (buf2message_agree env datagram.buf).always_iff.symm

def oneOctet : Datagram :=
  { buf :=
      { base := List.replicate 12 0
        len := 1 }
    nonempty := by decide
    fits := by decide }

theorem not_reads_within_oneOctet :
    ¬ AlwaysGood (Access.ReadBelow 1) (fun env => buf2message env oneOctet.buf) := by
  intro bounded
  have read : (1 : Nat) < 1 :=
    bounded ⟨0, fun _ _ => 0⟩ (.read .base 1) (by decide)
  omega

end PostDns
