/-
The readers of the decoder visit the layout of a datagram and nothing else.

Both name readers are one loop over pieces, with and without pointers.  That loop
stops where the walk over positions stops, returns where the name ends, and
makes exactly the accesses of the pieces it passes.
-/

import PostDns.Decode
import PostDns.Fuel
import PostDns.Layout

namespace PostDns

open Foundation

/-! ### One loop for both name readers -/

def visit (follow : Bool) (buf : List UInt8) (region : Region) (position : Nat)
    (cells : List UInt8) : Exec (Piece × List UInt8) := do
  let octet ← readBase buf position
  if octet = 0 then pure (.finish, cells)
  else if follow = true ∧ octet &&& 0xc0 = 0xc0 then do
    let low ← readBase buf (position + 1)
    pure (.jump (char2Short (octet &&& 0x3f) low).toNat, cells)
  else do
    let copied ← copyLetters buf region octet.toNat (position + 1) cells
    writeAt region copied.length
    pure (.letters octet.toNat, copied ++ [dot])

def readName (follow : Bool) (buf : List UInt8) (region : Region) :
    Nat → Nat → List UInt8 → Exec (Nat × List UInt8)
  | 0, _, _ => Logged.fail .outOfFuel
  | fuel + 1, position, cells => do
      let step ← visit follow buf region position cells
      match step.1 with
      | .finish => pure (position, step.2)
      | .jump offset => do
          let jumped ← readName follow buf region fuel offset step.2
          pure (position + 1, jumped.2)
      | .letters count =>
          readName follow buf region fuel (position + 1 + count) step.2

theorem createName_eq_readName (buf : List UInt8) (region : Region)
    (fuel bufPos : Nat) (cells : List UInt8) :
    createName buf region fuel bufPos cells =
      readName true buf region fuel bufPos cells := by
  induction fuel generalizing bufPos cells with
  | zero => rfl
  | succ fuel ih =>
      unfold createName readName visit
      rw [Logged.bind_assoc]
      congr 1
      funext octet
      by_cases isZero : octet = 0
      · rw [if_pos isZero, if_pos isZero, Logged.pure_bind]
      · rw [if_neg isZero, if_neg isZero]
        by_cases marked : octet &&& 0xc0 = 0xc0
        · rw [if_pos marked, if_pos ⟨rfl, marked⟩, Logged.bind_assoc]
          simp only [Logged.pure_bind, ih]
        · rw [if_neg marked, if_neg (fun both => marked both.2), Logged.bind_assoc]
          simp only [Logged.bind_assoc, Logged.pure_bind, ih]

theorem questionName_eq_readName (buf : List UInt8) (fuel bufPos : Nat)
    (cells : List UInt8) :
    questionName buf fuel bufPos cells =
      readName false buf .qvalue fuel bufPos cells := by
  induction fuel generalizing bufPos cells with
  | zero => rfl
  | succ fuel ih =>
      unfold questionName readName visit
      rw [Logged.bind_assoc]
      congr 1
      funext octet
      by_cases isZero : octet = 0
      · rw [if_pos isZero, if_pos isZero, Logged.pure_bind]
      · rw [if_neg isZero, if_neg isZero, if_neg (fun both => by cases both.1),
          Logged.bind_assoc]
        simp only [Logged.bind_assoc, Logged.pure_bind, ih]

/-! ### One iteration -/

theorem copyLetters_complete {buf : List UInt8} (region : Region) {count bufPos : Nat}
    (cells : List UInt8) (room : bufPos + count ≤ buf.length) :
    ∃ copied, (copyLetters buf region count bufPos cells).out = .ok copied ∧
      copied.length = cells.length + count := by
  induction count generalizing bufPos cells with
  | zero => exact ⟨cells, rfl, rfl⟩
  | succ count ih =>
      have present := List.getElem?_eq_getElem (show bufPos < buf.length by omega)
      rcases ih (cells ++ [buf[bufPos]]) (show bufPos + 1 + count ≤ buf.length by omega)
        with ⟨copied, done, size⟩
      refine ⟨copied, ?_, ?_⟩
      · rw [copyLetters, Logged.bind_out_of_ok (readBase_out_of_some present),
          Logged.bind_out_of_ok (writeAt_out _ _)]
        exact done
      · rw [size, List.length_append, List.length_cons, List.length_nil]
        omega

theorem copyLetters_cut {buf : List UInt8} (region : Region) {count bufPos : Nat}
    (cells : List UInt8) (start : bufPos ≤ buf.length)
    (cut : buf.length < bufPos + count) :
    ∃ index, (copyLetters buf region count bufPos cells).out =
      .error (.overread index) := by
  induction count generalizing bufPos cells with
  | zero => omega
  | succ count ih =>
      cases hRead : buf[bufPos]? with
      | none =>
          refine ⟨bufPos, ?_⟩
          rw [copyLetters, Logged.bind_of_error (readBase_out_of_none hRead)]
      | some octet =>
          have inside : bufPos < buf.length := by
            by_contra outside
            rw [List.getElem?_eq_none (by omega)] at hRead
            cases hRead
          rcases ih (cells ++ [octet]) inside (by omega) with ⟨index, stopped⟩
          refine ⟨index, ?_⟩
          rw [copyLetters, Logged.bind_out_of_ok (readBase_out_of_some hRead),
            Logged.bind_out_of_ok (writeAt_out _ _)]
          exact stopped

def Piece.filled : Piece → Nat → Nat
  | .letters count, filled => filled + count + 1
  | _, filled => filled

theorem visit_out_of_some {follow : Bool} {buf : List UInt8} (region : Region)
    {position : Nat} {piece : Piece} (here : pieceAt follow buf position = some piece)
    (cells : List UInt8) :
    ∃ after, (visit follow buf region position cells).out = .ok (piece, after) ∧
      after.length = piece.filled cells.length := by
  unfold pieceAt at here
  cases hRead : buf[position]? with
  | none => simp [hRead] at here
  | some octet =>
      simp only [hRead] at here
      unfold visit
      rw [Logged.bind_out_of_ok (readBase_out_of_some hRead)]
      by_cases isZero : octet = 0
      · rw [if_pos isZero] at here ⊢
        cases here
        exact ⟨cells, rfl, rfl⟩
      · rw [if_neg isZero] at here ⊢
        by_cases marked : follow = true ∧ octet &&& 0xc0 = 0xc0
        · rw [if_pos marked] at here ⊢
          cases hLow : buf[position + 1]? with
          | none => simp [hLow] at here
          | some low =>
              simp only [hLow, Option.map_some] at here
              cases here
              refine ⟨cells, ?_, rfl⟩
              rw [Logged.bind_out_of_ok (readBase_out_of_some hLow)]
              rfl
        · rw [if_neg marked] at here ⊢
          by_cases room : position + 1 + octet.toNat ≤ buf.length
          · rw [if_pos room] at here
            cases here
            rcases copyLetters_complete region cells room with ⟨copied, done, size⟩
            refine ⟨copied ++ [dot], ?_, ?_⟩
            · rw [Logged.bind_out_of_ok done, Logged.bind_out_of_ok (writeAt_out _ _)]
              rfl
            · rw [List.length_append, size]
              rfl
          · rw [if_neg room] at here
            cases here

theorem visit_out_of_none {follow : Bool} {buf : List UInt8} (region : Region)
    {position : Nat} (here : pieceAt follow buf position = none)
    (cells : List UInt8) :
    ∃ index, (visit follow buf region position cells).out =
      .error (.overread index) := by
  unfold pieceAt at here
  cases hRead : buf[position]? with
  | none =>
      refine ⟨position, ?_⟩
      unfold visit
      rw [Logged.bind_of_error (readBase_out_of_none hRead)]
  | some octet =>
      have inside : position < buf.length := by
        by_contra outside
        rw [List.getElem?_eq_none (by omega)] at hRead
        cases hRead
      simp only [hRead] at here
      unfold visit
      rw [Logged.bind_out_of_ok (readBase_out_of_some hRead)]
      by_cases isZero : octet = 0
      · rw [if_pos isZero] at here
        cases here
      · rw [if_neg isZero] at here ⊢
        by_cases marked : follow = true ∧ octet &&& 0xc0 = 0xc0
        · rw [if_pos marked] at here ⊢
          have absent : buf[position + 1]? = none := by simpa using here
          refine ⟨position + 1, ?_⟩
          rw [Logged.bind_of_error (readBase_out_of_none absent)]
        · rw [if_neg marked] at here ⊢
          by_cases room : position + 1 + octet.toNat ≤ buf.length
          · rw [if_pos room] at here
            cases here
          · rcases copyLetters_cut region cells inside (Nat.lt_of_not_le room)
              with ⟨index, stopped⟩
            refine ⟨index, ?_⟩
            rw [Logged.bind_of_error stopped]

/-! ### The loop -/

section Loop

variable {follow : Bool} {buf : List UInt8} (region : Region) {position : Nat}

theorem readName_out_of_none (here : pieceAt follow buf position = none) (fuel : Nat)
    (cells : List UInt8) :
    ∃ index, (readName follow buf region (fuel + 1) position cells).out =
      .error (.overread index) := by
  rcases visit_out_of_none region here cells with ⟨index, stopped⟩
  refine ⟨index, ?_⟩
  rw [readName, Logged.bind_of_error stopped]

theorem readName_out_of_finish (here : pieceAt follow buf position = some .finish)
    (fuel : Nat) (cells : List UInt8) :
    ∃ after, (readName follow buf region (fuel + 1) position cells).out =
      .ok (position, after) ∧ after.length = cells.length := by
  rcases visit_out_of_some region here cells with ⟨after, done, size⟩
  refine ⟨after, ?_, size⟩
  rw [readName, Logged.bind_out_of_ok done]
  rfl

theorem readName_out_of_jump {offset : Nat}
    (here : pieceAt follow buf position = some (.jump offset)) (fuel : Nat)
    (cells : List UInt8) :
    ∃ after, after.length = cells.length ∧
      (readName follow buf region (fuel + 1) position cells).out =
        (readName follow buf region fuel offset after >>=
          fun jumped => pure (position + 1, jumped.2)).out := by
  rcases visit_out_of_some region here cells with ⟨after, done, size⟩
  refine ⟨after, size, ?_⟩
  rw [readName, Logged.bind_out_of_ok done]

theorem readName_out_of_letters {count : Nat}
    (here : pieceAt follow buf position = some (.letters count)) (fuel : Nat)
    (cells : List UInt8) :
    ∃ after, after.length = cells.length + count + 1 ∧
      (readName follow buf region (fuel + 1) position cells).out =
        (readName follow buf region fuel (position + 1 + count) after).out := by
  rcases visit_out_of_some region here cells with ⟨after, done, size⟩
  refine ⟨after, size, ?_⟩
  rw [readName, Logged.bind_out_of_ok done]

/-- The loop runs out of fuel as long as the walk over positions goes on. -/
theorem readName_outOfFuel_iff (fuel position : Nat) (cells : List UInt8) :
    (readName follow buf region fuel position cells).out = .error .outOfFuel ↔
      Walk.after (nameStep follow buf) fuel position ≠ none := by
  induction fuel generalizing position cells with
  | zero => simp [readName, Walk.after]
  | succ fuel ih =>
      cases hPiece : pieceAt follow buf position with
      | none =>
          rcases readName_out_of_none region hPiece fuel cells with ⟨index, stopped⟩
          rw [stopped]
          simp [Walk.after, nameStep, hPiece]
      | some piece =>
          cases piece with
          | finish =>
              rcases readName_out_of_finish region hPiece fuel cells with ⟨after, done, _⟩
              rw [done]
              simp [Walk.after, nameStep, hPiece]
          | jump offset =>
              rcases readName_out_of_jump region hPiece fuel cells with ⟨after, _, run⟩
              have next : nameStep follow buf position = some offset := by
                simp [nameStep, hPiece]
              rw [run, Walk.after_succ_of_step next, ← ih offset after,
                Logged.bind_out_eq_error]
              simp
          | letters count =>
              rcases readName_out_of_letters region hPiece fuel cells with ⟨after, _, run⟩
              have next : nameStep follow buf position = some (position + 1 + count) := by
                simp [nameStep, hPiece]
              rw [run, Walk.after_succ_of_step next, ← ih _ after]

/-- A loop that returns has read a name to its end. -/
theorem nameEnds_of_readName {fuel : Nat} {cells : List UInt8}
    {result : Nat × List UInt8}
    (done : (readName follow buf region fuel position cells).out = .ok result) :
    NameEnds follow buf position cells.length result.1 result.2.length := by
  induction fuel generalizing position cells result with
  | zero => cases done
  | succ fuel ih =>
      cases hPiece : pieceAt follow buf position with
      | none =>
          rcases readName_out_of_none region hPiece fuel cells with ⟨index, stopped⟩
          rw [stopped] at done
          cases done
      | some piece =>
          cases piece with
          | finish =>
              rcases readName_out_of_finish region hPiece fuel cells
                with ⟨after, run, size⟩
              rw [run] at done
              cases done
              simpa only [size] using NameEnds.finish hPiece
          | jump offset =>
              rcases readName_out_of_jump region hPiece fuel cells
                with ⟨after, size, run⟩
              rw [run, Logged.bind_out_eq_ok] at done
              rcases done with ⟨jumped, target, returned⟩
              cases returned
              have later := ih target
              rw [size] at later
              exact NameEnds.jump hPiece later
          | letters count =>
              rcases readName_out_of_letters region hPiece fuel cells
                with ⟨after, size, run⟩
              rw [run] at done
              have later := ih done
              rw [size] at later
              exact NameEnds.letters hPiece later

/-- With enough fuel the loop returns where the name ends. -/
theorem readName_of_nameEnds {filled last total : Nat}
    (ends : NameEnds follow buf position filled last total) :
    ∃ enough, ∀ fuel, enough ≤ fuel → ∀ cells : List UInt8, cells.length = filled →
      ∃ after, (readName follow buf region fuel position cells).out = .ok (last, after) ∧
        after.length = total := by
  induction ends with
  | @finish position filled here =>
      refine ⟨1, ?_⟩
      intro fuel more cells size
      cases fuel with
      | zero => omega
      | succ fuel =>
          rcases readName_out_of_finish region here fuel cells with ⟨after, run, same⟩
          exact ⟨after, run, same.trans size⟩
  | @jump position filled offset elsewhere total here target ih =>
      rcases ih with ⟨enough, done⟩
      refine ⟨enough + 1, ?_⟩
      intro fuel more cells size
      cases fuel with
      | zero => omega
      | succ fuel =>
          rcases readName_out_of_jump region here fuel cells with ⟨after, same, run⟩
          rcases done fuel (by omega) after (same.trans size) with ⟨final, arrived, count⟩
          refine ⟨final, ?_, count⟩
          rw [run, Logged.bind_out_of_ok arrived]
          rfl
  | @letters position filled count last total here later ih =>
      rcases ih with ⟨enough, done⟩
      refine ⟨enough + 1, ?_⟩
      intro fuel more cells size
      cases fuel with
      | zero => omega
      | succ fuel =>
          rcases readName_out_of_letters region here fuel cells with ⟨after, same, run⟩
          rcases done fuel (by omega) after (by omega) with ⟨final, arrived, total⟩
          exact ⟨final, run.trans arrived, total⟩

/-- What the loop returns, over all amounts of fuel. -/
theorem forall_readName_iff {result : Nat → Nat → Prop} (cells : List UInt8) :
    (∀ fuel named, (readName follow buf region fuel position cells).out = .ok named →
        result named.1 named.2.length) ↔
      ∀ last total, NameEnds follow buf position cells.length last total →
        result last total := by
  constructor
  · intro returned last total ends
    rcases readName_of_nameEnds region ends with ⟨enough, read⟩
    rcases read enough (Nat.le_refl _) cells rfl with ⟨after, done, size⟩
    have held := returned enough (last, after) done
    rw [size] at held
    exact held
  · intro ended fuel named done
    exact ended _ _ (nameEnds_of_readName region done)

theorem readName_extends (fuel more position : Nat) (cells : List UInt8)
    (longer : fuel ≤ more) :
    Logged.Extends Fault.outOfFuel (readName follow buf region fuel position cells)
      (readName follow buf region more position cells) := by
  induction fuel generalizing more position cells with
  | zero => exact Logged.Extends.of_fail _ _
  | succ fuel ih =>
      cases more with
      | zero => omega
      | succ more =>
          refine Logged.Extends.bind (Logged.Extends.refl _ _) ?_
          intro step
          cases step.1 with
          | finish => exact Logged.Extends.refl _ _
          | jump offset =>
              exact Logged.Extends.bind (ih more offset step.2 (by omega))
                (fun jumped => Logged.Extends.refl _ _)
          | letters count => exact ih more _ step.2 (by omega)

end Loop

/-! ### Accesses of the loop -/

def visitAt (follow : Bool) (buf : List UInt8) (region : Region) (place : Place) :
    Exec (Piece × List UInt8) :=
  visit follow buf region place.1 (List.replicate place.2 0)

theorem copyLetters_log (buf : List UInt8) (region : Region) (count bufPos : Nat)
    (cells cells' : List UInt8) (size : cells.length = cells'.length) :
    (copyLetters buf region count bufPos cells).log =
      (copyLetters buf region count bufPos cells').log := by
  induction count generalizing bufPos cells cells' with
  | zero => rfl
  | succ count ih =>
      cases hRead : buf[bufPos]? with
      | none =>
          rw [copyLetters, copyLetters,
            Logged.bind_of_error (readBase_out_of_none hRead),
            Logged.bind_of_error (readBase_out_of_none hRead)]
      | some octet =>
          have later := ih (bufPos + 1) (cells ++ [octet]) (cells' ++ [octet])
            (by simp [size])
          rw [copyLetters, copyLetters,
            Logged.bind_of_ok (readBase_out_of_some hRead),
            Logged.bind_of_ok (readBase_out_of_some hRead),
            Logged.bind_of_ok (writeAt_out _ _), Logged.bind_of_ok (writeAt_out _ _)]
          simp only [size, later, writeAt_log]

theorem visit_log (follow : Bool) (buf : List UInt8) (region : Region) (position : Nat)
    (cells : List UInt8) :
    (visit follow buf region position cells).log =
      (visitAt follow buf region (position, cells.length)).log := by
  unfold visitAt visit
  cases hRead : buf[position]? with
  | none =>
      rw [Logged.bind_of_error (readBase_out_of_none hRead),
        Logged.bind_of_error (readBase_out_of_none hRead)]
  | some octet =>
      rw [Logged.bind_of_ok (readBase_out_of_some hRead),
        Logged.bind_of_ok (readBase_out_of_some hRead)]
      by_cases isZero : octet = 0
      · simp only [if_pos isZero, Logged.pure_log]
      · by_cases marked : follow = true ∧ octet &&& 0xc0 = 0xc0
        · simp only [if_neg isZero, if_pos marked]
          cases hLow : buf[position + 1]? with
          | none =>
              rw [Logged.bind_of_error (readBase_out_of_none hLow),
                Logged.bind_of_error (readBase_out_of_none hLow)]
          | some low =>
              rw [Logged.bind_of_ok (readBase_out_of_some hLow),
                Logged.bind_of_ok (readBase_out_of_some hLow)]
              rfl
        · simp only [if_neg isZero, if_neg marked]
          have copies := copyLetters_log buf region octet.toNat (position + 1) cells
            (List.replicate cells.length 0) (by simp)
          by_cases room : position + 1 + octet.toNat ≤ buf.length
          · rcases copyLetters_complete region cells room with ⟨copied, done, size⟩
            rcases copyLetters_complete region (List.replicate cells.length 0) room
              with ⟨copied', done', size'⟩
            rw [List.length_replicate] at size'
            rw [Logged.bind_of_ok done, Logged.bind_of_ok done', copies,
              Logged.bind_of_ok (writeAt_out _ _), Logged.bind_of_ok (writeAt_out _ _),
              writeAt_log, writeAt_log, size, size']
            rfl
          · have inside : position < buf.length := by
              by_contra outside
              rw [List.getElem?_eq_none (by omega)] at hRead
              cases hRead
            rcases copyLetters_cut region cells inside (Nat.lt_of_not_le room)
              with ⟨index, stopped⟩
            rcases copyLetters_cut region (List.replicate cells.length 0) inside
              (Nat.lt_of_not_le room) with ⟨index', stopped'⟩
            rw [Logged.bind_of_error stopped, Logged.bind_of_error stopped', copies]

theorem nameMove_of_visit {follow : Bool} {buf : List UInt8} {region : Region}
    {position : Nat} {cells : List UInt8} {step : Piece × List UInt8}
    (done : (visit follow buf region position cells).out = .ok step) :
    pieceAt follow buf position = some step.1 ∧
      step.2.length = step.1.filled cells.length := by
  cases hPiece : pieceAt follow buf position with
  | none =>
      rcases visit_out_of_none region hPiece cells with ⟨index, stopped⟩
      rw [stopped] at done
      cases done
  | some piece =>
      rcases visit_out_of_some region hPiece cells with ⟨after, run, size⟩
      rw [run] at done
      cases done
      exact ⟨rfl, size⟩

section BaseReads

variable {good : Access → Prop} (baseReads : ∀ index : Nat, good (.read .base index))

include baseReads

theorem always_readBase (buf : List UInt8) (index : Nat) :
    Logged.Always good (readBase buf index) := by
  intro access member
  rw [List.mem_singleton.mp member]
  exact baseReads index

theorem always_readShort (buf : List UInt8) (index : Nat) :
    Logged.Always good (readShort buf index) :=
  Logged.always_bind.mpr ⟨always_readBase baseReads buf index, fun _ _ =>
    Logged.always_bind.mpr ⟨always_readBase baseReads buf (index + 1), fun _ _ =>
      Logged.always_pure _ _⟩⟩

/-- The header reader accesses the datagram alone. -/
theorem always_buf2messageHeader (buf : List UInt8) :
    Logged.Always good (buf2messageHeader buf) :=
  Logged.always_bind.mpr ⟨always_readShort baseReads buf 0, fun _ _ =>
    Logged.always_bind.mpr ⟨always_readBase baseReads buf 2, fun _ _ =>
      Logged.always_bind.mpr ⟨always_readBase baseReads buf 3, fun _ _ =>
        Logged.always_bind.mpr ⟨always_readShort baseReads buf 4, fun _ _ =>
          Logged.always_bind.mpr ⟨always_readShort baseReads buf 6, fun _ _ =>
            Logged.always_bind.mpr ⟨always_readShort baseReads buf 8, fun _ _ =>
              Logged.always_bind.mpr ⟨always_readShort baseReads buf 10, fun _ _ =>
                Logged.always_pure _ _⟩⟩⟩⟩⟩⟩⟩

end BaseReads

/-- The accesses of the loop, over all amounts of fuel, are those of the places
that the name passes. -/
theorem always_readName_iff {good : Access → Prop} {follow : Bool} {buf : List UInt8}
    {region : Region} {position : Nat} {cells : List UInt8} :
    (∀ fuel, Logged.Always good (readName follow buf region fuel position cells)) ↔
      ∀ place, Walk.Reaches (nameMove follow buf) (position, cells.length) place →
        Logged.Always good (visitAt follow buf region place) := by
  constructor
  · intro bounded place reached
    obtain ⟨start, startIs⟩ : ∃ start : Place, start = (position, cells.length) :=
      ⟨_, rfl⟩
    rw [← startIs] at reached
    induction reached using Relation.ReflTransGen.head_induction_on
      generalizing position cells with
    | refl =>
        subst startIs
        intro event member
        rw [← visit_log] at member
        exact (Logged.always_bind.mp (bounded 1)).1 event member
    | head next _ ih =>
        subst startIs
        cases hPiece : pieceAt follow buf position with
        | none => simp [Walk.Steps, nameMove, hPiece] at next
        | some piece =>
            rcases visit_out_of_some region hPiece cells with ⟨after, done, size⟩
            have later (fuel : Nat) :=
              (Logged.always_bind.mp (bounded (fuel + 1))).2 _ done
            cases piece with
            | finish => simp [Walk.Steps, nameMove, hPiece] at next
            | jump offset =>
                simp only [Walk.Steps, nameMove, hPiece, Option.some.injEq] at next
                exact ih (fun fuel => (Logged.always_bind.mp (later fuel)).1)
                  (next ▸ congrArg (Prod.mk offset) size.symm)
            | letters count =>
                simp only [Walk.Steps, nameMove, hPiece, Option.some.injEq] at next
                exact ih later (next ▸ congrArg (Prod.mk _) size.symm)
  · intro visits fuel
    induction fuel generalizing position cells with
    | zero => exact Logged.always_fail good _
    | succ fuel ih =>
        refine Logged.always_bind.mpr ⟨?_, ?_⟩
        · intro event member
          rw [visit_log] at member
          exact visits _ Relation.ReflTransGen.refl event member
        · intro step done
          rcases nameMove_of_visit done with ⟨here, size⟩
          have onwards (place : Place)
              (next : nameMove follow buf (position, cells.length) = some place) :=
            fun place' reached => visits place' (Relation.ReflTransGen.head next reached)
          cases hStep : step.1 with
          | finish => exact Logged.always_pure good _
          | jump offset =>
              rw [hStep] at here size
              refine Logged.always_bind.mpr
                ⟨ih ?_, fun _ _ => Logged.always_pure good _⟩
              rw [size]
              exact onwards _ (by simp [nameMove, here, Piece.filled])
          | letters count =>
              rw [hStep] at here size
              refine ih ?_
              rw [size]
              exact onwards _ (by simp [nameMove, here, Piece.filled])

end PostDns
