/-
More turns of the loops.

The bound on the turns is not part of the program.  A callback that returned under one
bound does the same under every larger one, so that what it does to a state is determined
by the datagram and by what the memory held before.
-/

import PostDns.Chase

namespace PostDns

open Foundation

/-! ### Encoding takes no turns -/

theorem message2bufQuestion_turns (junk : Site → Nat → UInt8) (fuel more start : Nat)
    (queries : List Query) (bufPos endPos : Nat) (cells : Nat → UInt8) :
    message2bufQuestion ⟨fuel, junk⟩ start queries bufPos endPos cells =
      message2bufQuestion ⟨more, junk⟩ start queries bufPos endPos cells := by
  induction queries generalizing bufPos endPos cells with
  | nil => rfl
  | cons query queries ih =>
      rw [message2bufQuestion, message2bufQuestion]
      simp only [ih]
      rfl

theorem message2bufAnswer_turns (junk : Site → Nat → UInt8) (fuel more start : Nat)
    (records : List ResourceRecord) (bufPos : Nat) (cells : Nat → UInt8) :
    message2bufAnswer ⟨fuel, junk⟩ start records bufPos cells =
      message2bufAnswer ⟨more, junk⟩ start records bufPos cells := by
  induction records generalizing bufPos cells with
  | nil => rfl
  | cons record records ih =>
      rw [message2bufAnswer, message2bufAnswer]
      simp only [ih]
      rfl

theorem message2buf_turns (junk : Site → Nat → UInt8) (fuel more : Nat) (message : Message) :
    message2buf ⟨fuel, junk⟩ message = message2buf ⟨more, junk⟩ message := by
  have answers (endPos : Nat) (cells : Nat → UInt8) :
      answersToBuf ⟨fuel, junk⟩ message endPos cells =
        answersToBuf ⟨more, junk⟩ message endPos cells := by
    unfold answersToBuf
    simp only [message2bufAnswer_turns junk fuel more]
  unfold message2buf writeMessage
  simp only [message2bufQuestion_turns junk fuel more, answers]

theorem message2buf_mono (message : Message) : FuelMono (fun env => message2buf env message) :=
  fun junk fuel more _ => Or.inl (message2buf_turns junk fuel more message)

theorem sendQueryFrom_mono (world : World) (message : Message) :
    FuelMono (fun env => sendQueryFrom env world message) :=
  FuelMono.bind (message2buf_mono _) fun _ => FuelMono.const fun _ => _

theorem sendResponseFrom_mono (world : World) (message : Message) :
    FuelMono (fun env => sendResponseFrom env world message) := by
  have responds : FuelMono (fun env => sendResponse env world.clients message) := by
    apply FuelMono.bind (FuelMono.const fun _ => _)
    intro feature
    cases world.clients feature with
    | none => exact FuelMono.const fun _ => _
    | some address =>
        exact FuelMono.bind (message2buf_mono _) fun _ => FuelMono.const fun _ => _
  exact FuelMono.bind responds fun _ => FuelMono.const fun _ => _

/-! ### Following aliases -/

theorem cnameLoop_extends {β : Type} (visit : StringT → CnameCache → β → Exec β)
    (t : HashTable CnameCache) {fuel more : Nat} (longer : fuel ≤ more) (domain : StringT)
    (made : β) :
    Logged.Extends Fault.outOfFuel (cnameLoop visit t fuel domain made)
      (cnameLoop visit t more domain made) := by
  induction fuel generalizing more domain made with
  | zero => exact Logged.Extends.of_fail _ _
  | succ fuel ih =>
      obtain ⟨more, rfl⟩ := Nat.exists_eq_add_of_lt longer
      apply Logged.Extends.bind (Logged.Extends.refl _ _)
      intro found
      cases found with
      | none => exact Logged.Extends.refl _ _
      | some cache =>
          apply Logged.Extends.bind (Logged.Extends.refl _ _)
          intro made
          exact ih (Nat.le_add_right fuel more) cache.name made

theorem cnameLoop_mono {β : Type} (visit : StringT → CnameCache → β → Exec β)
    (t : HashTable CnameCache) (domain : StringT) (made : β) :
    FuelMono (fun env => cnameLoop visit t env.fuel domain made) :=
  fun _ _ _ longer => cnameLoop_extends visit t longer domain made

theorem countQuery_mono (world : World) (query : Query) (pass : FirstPass) :
    FuelMono (fun env => countQuery env world query pass) := by
  unfold countQuery
  split_ifs with isA isCname isAaaa
  · exact FuelMono.bind (cnameLoop_mono _ _ _ _) fun _ => FuelMono.const fun _ => _
  · apply FuelMono.bind (FuelMono.const fun _ => _)
    intro found
    cases found with
    | none => exact FuelMono.const fun _ => _
    | some cache =>
        exact FuelMono.bind (cnameLoop_mono _ _ _ _) fun _ => FuelMono.const fun _ => _
  · exact FuelMono.bind (cnameLoop_mono _ _ _ _) fun _ => FuelMono.const fun _ => _
  · exact FuelMono.const fun _ => _

theorem countQueries_mono (world : World) (queries : List Query) (pass : FirstPass) :
    FuelMono (fun env => countQueries env world queries pass) := by
  induction queries generalizing pass with
  | nil => exact FuelMono.const fun _ => _
  | cons query queries ih =>
      unfold countQueries
      cases pass.cached with
      | true => exact FuelMono.bind (countQuery_mono world query pass) ih
      | false => exact FuelMono.const fun _ => _

theorem answerQuery_mono (world : World) (size : Nat) (query : Query)
    (answers : List ResourceRecord) :
    FuelMono (fun env => answerQuery env world size query answers) := by
  unfold answerQuery
  split_ifs with isA isCname isAaaa
  · exact FuelMono.bind (cnameLoop_mono _ _ _ _) fun _ => FuelMono.const fun _ => _
  · exact FuelMono.bind (cnameLoop_mono _ _ _ _) fun _ => FuelMono.const fun _ => _
  · exact FuelMono.bind (cnameLoop_mono _ _ _ _) fun _ => FuelMono.const fun _ => _
  · exact FuelMono.const fun _ => _

theorem answerQueries_mono (world : World) (size : Nat) (queries : List Query)
    (answers : List ResourceRecord) :
    FuelMono (fun env => answerQueries env world size queries answers) := by
  induction queries generalizing answers with
  | nil => exact FuelMono.const fun _ => _
  | cons query queries ih => exact FuelMono.bind (answerQuery_mono world size query answers) ih

/-! ### Callbacks -/

theorem handleRequest_mono (address : SockAddr) (message : Message) (world : World) :
    FuelMono (fun env => handleRequest env address message world) := by
  apply FuelMono.bind (FuelMono.const fun _ => _)
  intro _
  apply FuelMono.bind (FuelMono.const fun _ => _)
  intro feature
  apply FuelMono.bind (FuelMono.const fun _ => _)
  intro queries
  apply FuelMono.bind (countQueries_mono _ _ _)
  intro pass
  cases pass.cached with
  | false => exact sendQueryFrom_mono _ _
  | true =>
      simp only [answerLocally]
      cases pass.banned with
      | true => exact sendResponseFrom_mono _ _
      | false =>
          exact FuelMono.bind (answerQueries_mono _ _ _ _) fun _ => sendResponseFrom_mono _ _

theorem bindSocketRead_mono (datagram : Datagram) (address : SockAddr) (world : World) :
    FuelMono (fun env => bindSocketRead env datagram address world) :=
  FuelMono.bind (buf2message_mono datagram.buf) fun message =>
    handleRequest_mono address message world

theorem querySocketRead_mono (now : Int) (datagram : Datagram) (world : World) :
    FuelMono (fun env => querySocketRead env now datagram world) := by
  apply FuelMono.bind (buf2message_mono datagram.buf)
  intro message
  apply FuelMono.bind (FuelMono.const fun _ => _)
  intro _
  apply FuelMono.bind (FuelMono.const fun _ => _)
  intro answers
  apply FuelMono.bind (FuelMono.const fun _ => _)
  intro collected
  apply FuelMono.bind (FuelMono.const fun _ => _)
  intro stored
  exact sendResponseFrom_mono stored message

/-- Two bounds under which a run returns make no difference. -/
theorem FuelMono.unique {α : Type} {run : Env → Exec α} (mono : FuelMono run)
    {junk : Site → Nat → UInt8} {fuel fuel' : Nat} {value value' : α}
    (done : (run ⟨fuel, junk⟩).out = .ok value) (done' : (run ⟨fuel', junk⟩).out = .ok value') :
    value = value' := by
  have same := mono.eq_of_ne (by rw [done]; simp) (by rw [done']; simp)
  rw [same, done'] at done
  exact (Except.ok.inj done).symm

end PostDns
