/-
The question section in both directions (message.c, `message2bufQuestion` and
`buf2messageQuestion`).

One question is written whole, its end is counted exactly and it is read back as
it was, as long as its name and the dot behind it fit the 512 cells of `QValue`.
From the second question on the encoder is two octets short: its cursor stays at
the class field of the question before, while the end it announces counts every
earlier question again.
-/

import PostDns.PacketBounds
import PostDns.WriteBounds

namespace PostDns

open Foundation
open Rfc1035 (Label nameLength encodeLabels)

/-! ### Questions about host names -/

structure HostQuestion where
  labels : List Label
  host : HostLabels labels
  type : UInt16
  cls : UInt16

def HostQuestion.query (question : HostQuestion) : Query :=
  { name := dotJoin question.labels
    type := question.type
    cls := question.cls }

def HostQuestion.octets (question : HostQuestion) : List UInt8 :=
  encodeLabels question.labels ++ (split16 question.type ++ split16 question.cls)

def sectionLength (questions : List HostQuestion) : Nat :=
  (questions.map fun question => question.query.name.length + 2 + 4).sum

theorem HostQuestion.octets_length (question : HostQuestion) :
    question.octets.length = question.query.name.length + 2 + 4 := by
  have size := dotJoin_length question.host.nonempty
  rw [HostQuestion.octets, List.length_append, Rfc1035.encodeLabels_length,
    ← size]
  rfl

theorem sectionLength_eq (questions : List HostQuestion) :
    sectionLength questions = (questions.flatMap HostQuestion.octets).length := by
  rw [List.length_flatMap, sectionLength]
  simp only [HostQuestion.octets_length]

theorem HostQuestion.queryOctets (junk : Nat → UInt8) (question : HostQuestion) :
    PostDns.queryOctets junk question.query = question.octets := by
  rw [PostDns.queryOctets, HostQuestion.query,
    nameOctets_dotJoin junk question.host.rejoinable]
  rfl

/-! ### Writing -/

theorem message2bufQuery_writes (env : Env) (start : Nat) (query : Query) (bufPos : Nat)
    (cells : Nat → UInt8) :
    (message2bufQuery env start query bufPos cells).out =
      .ok (bufPos + (query.name.length + 4),
        overlay cells (start + bufPos)
          (queryOctets (env.junk (.output (start + bufPos))) query)) := by
  have typeAt : start + bufPos + (query.name.length + 2) = start + bufPos +
      (nameOctets (env.junk (.output (start + bufPos))) query.name).length := by
    rw [nameOctets_length]
  have clsAt : start + bufPos + (query.name.length + 2) + 2 = start + bufPos +
      (nameOctets (env.junk (.output (start + bufPos))) query.name ++
        split16 query.type).length := by
    rw [List.length_append, nameOctets_length, split16_length]
    omega
  unfold message2bufQuery putShort
  rw [Logged.bind_out_of_ok (transferName_out _ _),
    Logged.bind_out_of_ok (memcpyTo_out _ _ _ _),
    Logged.bind_out_of_ok (memcpyTo_out _ _ _ _),
    Logged.bind_out_of_ok (memcpyTo_out _ _ _ _), Logged.pure_out,
    littleEndian16_swap16, littleEndian16_swap16, clsAt, typeAt, overlay_overlay_end,
    overlay_overlay_end, queryOctets, List.append_assoc]
  rfl

/-- What the encoder announces is at least what it has passed and what the
questions take. -/
theorem questionsEnd_ge (question : HostQuestion) (questions : List HostQuestion)
    (bufPos endPos : Nat) :
    endPos + bufPos + sectionLength (question :: questions) ≤
      questionsEnd ((question :: questions).map HostQuestion.query) bufPos endPos := by
  induction questions generalizing question bufPos endPos with
  | nil =>
      simp only [sectionLength, questionsEnd, List.map_cons, List.map_nil, List.sum_cons,
        List.sum_nil]
      omega
  | cons next questions ih =>
      have later := ih next (bufPos + (question.query.name.length + 4))
        (endPos + (bufPos + (question.query.name.length + 6)))
      rw [List.map_cons, questionsEnd]
      simp only [sectionLength, List.map_cons, List.sum_cons] at later ⊢
      omega

/-- From the second question on the announced end is past the end of the section. -/
theorem questionsEnd_gt (first second : HostQuestion) (questions : List HostQuestion)
    (endPos : Nat) :
    endPos + sectionLength (first :: second :: questions) <
      questionsEnd ((first :: second :: questions).map HostQuestion.query) 0 endPos := by
  have later := questionsEnd_ge second questions (0 + (first.query.name.length + 4))
    (endPos + (0 + (first.query.name.length + 6)))
  rw [List.map_cons, questionsEnd]
  simp only [sectionLength, List.map_cons, List.sum_cons] at later ⊢
  omega

/-! ### The array of a name -/

theorem pieceAt_label {buf : List UInt8} {position : Nat} {label : Label}
    {rest : List Label} (size : 1 ≤ label.length ∧ label.length ≤ 63)
    (held : HoldsAt buf position (encodeLabels (label :: rest))) :
    pieceAt false buf position = some (.letters label.length) ∧
      HoldsAt buf (position + 1 + label.length) (encodeLabels rest) := by
  have split : encodeLabels (label :: rest) =
      UInt8.ofNat label.length :: (label ++ encodeLabels rest) := by
    simp [encodeLabels]
  rw [split, HoldsAt.cons_iff, HoldsAt.append_iff] at held
  have room := held.2.1.fits (List.ne_nil_of_length_pos size.1)
  constructor
  · unfold pieceAt
    rw [held.1]
    simp only [Bool.false_eq_true, false_and, if_false]
    rw [if_neg (letterLength_ne_zero size.1 size.2), Rfc1035.labelOctet_toNat size.2,
      if_pos room]
  · exact held.2.2

theorem nameEnds_of_holdsAt {buf : List UInt8} {labels : List Label} {position : Nat}
    (sizes : ∀ label ∈ labels, 1 ≤ label.length ∧ label.length ≤ 63)
    (held : HoldsAt buf position (encodeLabels labels)) (filled : Nat) :
    ∃ last, NameEnds false buf position filled last (filled + (dotted labels).length) := by
  induction labels generalizing position filled with
  | nil =>
      have zero : buf[position]? = some 0 := (HoldsAt.cons_iff.mp held).1
      refine ⟨position, NameEnds.finish ?_⟩
      simp [pieceAt, zero]
  | cons label rest ih =>
      obtain ⟨here, later⟩ := pieceAt_label (sizes label (by simp)) held
      obtain ⟨last, ends⟩ := ih (fun other member => sizes other (by simp [member])) later
        (filled + label.length + 1)
      have total : filled + label.length + 1 + (dotted rest).length =
          filled + (dotted (label :: rest)).length := by
        rw [dotted_cons]
        simp only [List.length_append, List.length_singleton]
        omega
      rw [total] at ends
      exact ⟨last, NameEnds.letters here ends⟩

theorem NameEnds.le {follow : Bool} {buf : List UInt8} {position filled last total : Nat}
    (ends : NameEnds follow buf position filled last total) : filled ≤ total := by
  induction ends with
  | finish here => exact Nat.le_refl _
  | jump here target ih => exact ih
  | letters here later ih => omega

theorem cellsAt_of_still {follow : Bool} {buf : List UInt8} {position : Nat}
    {piece : Piece} (here : pieceAt follow buf position = some piece)
    (still : ∀ count, piece ≠ .letters count) : cellsAt follow buf position = 0 := by
  unfold pieceAt at here
  unfold cellsAt
  cases hRead : buf[position]? with
  | none => rfl
  | some octet =>
      simp only [hRead] at here ⊢
      by_cases isZero : octet = 0
      · rw [if_pos isZero]
      · rw [if_neg isZero] at here ⊢
        by_cases marked : follow = true ∧ octet &&& 0xc0 = 0xc0
        · rw [if_pos marked]
        · rw [if_neg marked] at here ⊢
          by_cases room : position + 1 + octet.toNat ≤ buf.length
          · rw [if_pos room] at here
            cases here
            exact absurd rfl (still octet.toNat)
          · rw [if_neg room] at here
            cases here

/-- A name that ends within the array stays in it. -/
theorem NameEnds.fits {follow : Bool} {buf : List UInt8}
    {position filled last total : Nat} (ends : NameEnds follow buf position filled last total)
    (short : total ≤ 512) {place : Place}
    (reached : Walk.Reaches (nameMove follow buf) (position, filled) place) {cell : Nat}
    (below : cell < cellsAt follow buf place.1) : place.2 + cell ≤ 511 := by
  induction ends with
  | @finish position filled here =>
      have none := cellsAt_of_still here (by simp)
      rcases reached.cases_head with same | ⟨next, step, _⟩
      · rw [← same, none] at below
        omega
      · simp only [Walk.Steps, nameMove, here, reduceCtorEq] at step
  | @jump position filled offset elsewhere total here target ih =>
      have none := cellsAt_of_still here (by simp)
      rcases reached.cases_head with same | ⟨next, step, later⟩
      · rw [← same, none] at below
        omega
      · simp only [Walk.Steps, nameMove, here, Option.some.injEq] at step
        subst step
        exact ih short later
  | @letters position filled count last total here later ih =>
      have many := cellsAt_of_letters here
      have most := later.le
      rcases reached.cases_head with same | ⟨next, step, further⟩
      · rw [← same, many] at below
        rw [← same]
        change filled + cell ≤ 511
        omega
      · simp only [Walk.Steps, nameMove, here, Option.some.injEq] at step
        subst step
        exact ih short further

/-- A host name closes in the array exactly when it leaves a cell for the dot. -/
theorem HostQuestion.nameCloses_iff {buf : List UInt8} {position : Nat}
    (question : HostQuestion) (held : HoldsAt buf position question.octets) :
    NameCloses false buf position ↔ question.query.name.length ≤ 511 := by
  have spelled := (HoldsAt.append_iff.mp held).1
  have cells : (dotted question.labels).length = question.query.name.length + 1 := by
    have shorter := congrArg List.length (dotted_dropLast question.host.nonempty)
    have positive := List.length_pos_iff.mpr (dotted_ne_nil question.host.nonempty)
    rw [List.length_dropLast] at shorter
    change (dotted question.labels).length = (dotJoin question.labels).length + 1
    omega
  obtain ⟨last, ends⟩ := nameEnds_of_holdsAt question.host.sizes spelled 0
  rw [Nat.zero_add, cells] at ends
  constructor
  · intro closes
    have total := NameFits.total_le ends closes.1 (by omega)
    omega
  · intro short
    constructor
    · intro place reached cell below
      exact ends.fits (by omega) reached below
    · intro last filled other
      cases hLabels : question.labels with
      | nil => exact absurd hLabels question.host.nonempty
      | cons label rest =>
          rw [hLabels] at spelled
          have here := (pieceAt_label
            (question.host.sizes label (by rw [hLabels]; simp)) spelled).1
          cases other with
          | finish finished =>
              rw [here] at finished
              cases finished
          | letters letters later =>
              have grown := later.le
              omega
          | jump jumps target =>
              rw [here] at jumps
              cases jumps

/-! ### The section -/

def sectionPacket (start : Nat) (questions : List HostQuestion) (cells : Nat → UInt8) :
    Nat → UInt8 :=
  overlay cells start (questions.flatMap HostQuestion.octets)

/-- The questions are written one after another and nothing else is, their end is
counted exactly, and reading the written octets gives the questions back. -/
structure SectionCarried (env : Env) (start endPos : Nat) (questions : List HostQuestion)
    (cells : Nat → UInt8) : Prop where
  written :
    (message2bufQuestion env start (questions.map HostQuestion.query) 0 endPos cells).out =
      .ok (endPos + sectionLength questions, sectionPacket start questions cells)
  inPacket :
    Logged.Always Access.InPacket
      (message2bufQuestion env start (questions.map HostQuestion.query) 0 endPos cells)
  readBack : ∀ count, start + sectionLength questions ≤ count →
    Yields
      (fun reader => buf2messageQuestion reader
        (firstCells (sectionPacket start questions cells) count) questions.length start)
      (questions.map HostQuestion.query, start + sectionLength questions)
  inScratch : ∀ count, start + sectionLength questions ≤ count →
    AlwaysGood Access.InScratch
      (fun reader => buf2messageQuestion reader
        (firstCells (sectionPacket start questions cells) count) questions.length start)

theorem SectionCarried.length_le_one {env : Env} {start endPos : Nat}
    {questions : List HostQuestion} {cells : Nat → UInt8}
    (carried : SectionCarried env start endPos questions cells) : questions.length ≤ 1 := by
  match questions, carried with
  | [], _ => exact Nat.zero_le 1
  | [question], _ => exact Nat.le_refl 1
  | first :: second :: others, carried =>
      obtain ⟨packet, done⟩ := message2bufQuestion_out env start
        ((first :: second :: others).map HostQuestion.query) 0 endPos cells
      have ended := questionsEnd_gt first second others endPos
      rw [carried.written, Except.ok.injEq, Prod.mk.injEq] at done
      omega

theorem sectionCarried_nil (env : Env) (start endPos : Nat) (cells : Nat → UInt8) :
    SectionCarried env start endPos [] cells :=
  { written := congrArg (fun packet => Except.ok (endPos, packet))
      (overlay_nil cells start).symm
    inPacket := Logged.always_pure _ _
    readBack := fun _ _ => Yields.of_eq fun _ => rfl
    inScratch := fun _ _ _ => Logged.always_pure _ _ }

/-- One question read touches what its entry touches. -/
theorem buf2messageQuestion_one (env : Env) (buf : List UInt8) (position : Nat) :
    buf2messageQuestion env buf 1 position =
      buf2messageQuery env buf position >>= fun entry => pure ([entry.1], entry.2) := by
  rw [buf2messageQuestion]
  simp only [buf2messageQuestion, Logged.pure_bind]

theorem sectionCarried_one_iff (env : Env) (question : HostQuestion) {start endPos : Nat}
    {cells : Nat → UInt8} (fits : start + sectionLength [question] ≤ 1500) :
    SectionCarried env start endPos [question] cells ↔
      question.query.name.length ≤ 511 := by
  have octets : [question].flatMap HostQuestion.octets = question.octets := by
    simp
  have size : sectionLength [question] = question.octets.length := by
    rw [sectionLength_eq, octets]
  have held (count : Nat) (room : start + sectionLength [question] ≤ count) :
      HoldsAt (firstCells (sectionPacket start [question] cells) count) start
        question.octets := by
    rw [sectionPacket, octets]
    exact holdsAt_firstCells_overlay cells (by omega)
  have scratch (count : Nat) (room : start + sectionLength [question] ≤ count) :
      AlwaysGood Access.InScratch (fun reader => buf2messageQuestion reader
        (firstCells (sectionPacket start [question] cells) count) 1 start) ↔
      question.query.name.length ≤ 511 := by
    rw [← question.nameCloses_iff (held count room), ← buf2messageQuery_inScratch_iff]
    simp only [buf2messageQuestion_one]
    exact (compositional_alwaysGood Access.InScratch).map
      (buf2messageQuery_mono _ start) fun entry => ([entry.1], entry.2)
  constructor
  · intro carried
    exact (scratch _ (Nat.le_refl _)).mp (carried.inScratch _ (Nat.le_refl _))
  · intro short
    constructor
    · have ended : endPos + (0 + (question.query.name.length + 4) + 2) =
          endPos + sectionLength [question] := by
        rw [size, question.octets_length]
        omega
      rw [List.map_cons, List.map_nil, message2bufQuestion,
        Logged.bind_out_of_ok (message2bufQuery_writes _ _ _ _ _), message2bufQuestion,
        Logged.pure_out, ended, question.queryOctets, sectionPacket, octets, Nat.add_zero]
      rfl
    · rw [message2bufQuestion_inPacket_iff]
      rw [size, question.octets_length] at fits
      exact ⟨by omega, trivial⟩
    · intro count room
      have entry := buf2messageQuery_yields_labels question.host.nonempty
        question.host.sizes question.type question.cls (held count room)
      simp only [List.length_singleton, buf2messageQuestion_one]
      rw [size]
      exact entry.bind (fun _ entry => pure ([entry.1], entry.2))
        (Yields.of_eq fun _ => rfl)
    · intro count room
      exact (scratch count room).mpr short

/-- The two directions agree on a question section exactly when it holds at most
one question and the name of that one fits its array. -/
theorem sectionCarried_iff (env : Env) (questions : List HostQuestion)
    (start endPos : Nat) (cells : Nat → UInt8)
    (fits : start + sectionLength questions ≤ 1500) :
    SectionCarried env start endPos questions cells ↔
      questions.length ≤ 1 ∧
        ∀ question ∈ questions, question.query.name.length ≤ 511 := by
  match questions, fits with
  | [], _ => exact iff_of_true (sectionCarried_nil env start endPos cells) (by simp)
  | [question], fits =>
      rw [sectionCarried_one_iff env question fits]
      simp
  | first :: second :: others, _ =>
      apply iff_of_false
      · intro carried
        have few := carried.length_le_one
        simp at few
      · intro few
        have impossible := few.1
        simp at impossible

private def addressQuestion : HostQuestion :=
  { labels := [[97], [98]]
    host :=
      { nonempty := by decide
        sizes := by decide
        noDots := by decide
        noZeros := by decide }
    type := 1
    cls := 1 }

private def blankPacket : Nat → UInt8 := fun _ => 0

theorem sectionCarried_addressQuestion :
    SectionCarried ⟨16, fun _ _ => 0⟩ 12 12 [addressQuestion] blankPacket ↔
      [addressQuestion].length ≤ 1 ∧
        ∀ question ∈ [addressQuestion], question.query.name.length ≤ 511 :=
  sectionCarried_iff ⟨16, fun _ _ => 0⟩ [addressQuestion] 12 12 blankPacket (by decide)

/-- With two questions about `a.b` the announced end is seven octets too far. -/
theorem not_sectionCarried_twoQuestions :
    12 + sectionLength [addressQuestion, addressQuestion] ≤ 1500 ∧
      ¬ SectionCarried ⟨16, fun _ _ => 0⟩ 12 12 [addressQuestion, addressQuestion]
        blankPacket := by
  constructor
  · decide
  · intro carried
    have few := carried.length_le_one
    simp at few

end PostDns
