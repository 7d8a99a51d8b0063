/-
What the callbacks log of a message (message.c, `message_log`).

Both callbacks log the decoded message before they do anything with it.  The log trusts
the counts and the type tags, and copies a target of length -1 as far as there is memory.
-/

import PostDns.Encode

namespace PostDns

open Foundation

/-- `%d`. -/
def decimal (num : Nat) : StringT :=
  (Nat.toDigits 10 num).map fun digit => UInt8.ofNat digit.toNat

/-- `%.2x`. -/
def hexPair (num : Nat) : StringT :=
  [num / 16 % 16, num % 16].map fun digit => UInt8.ofNat (Nat.digitChar digit).toNat

def inet4address2string (address : UInt32) : StringT :=
  [dot].intercalate
    ((littleEndianInt address).reverse.map fun octet => decimal octet.toNat)

/-- A colon stands behind every second octet but the last. -/
def inet6address2string (address : List UInt8) : StringT :=
  address.zipIdx.flatMap fun (octet, i) =>
    hexPair octet.toNat ++ if i < 15 ∧ i % 2 = 1 then [58] else []

/-- The arguments of one call of `log_debug`. -/
inductive LogLine where
  | query (queryDomain : StringT)
  | inet4 (domainName ipv4Address : StringT)
  | cname (domainName answerName : StringT)
  | inet6 (domainName ipv6Address : StringT)
deriving DecidableEq

def logAnswer (answer : ResourceRecord) : Exec (List LogLine) :=
  if answer.type = 1 then
    match answer.responseData with
    | .inet4 address =>
        pure [.inet4 (stringPrint answer.name) (stringPrint (inet4address2string address))]
    | _ => Logged.fail .uninitialised
  else if answer.type = 5 then
    match answer.responseData with
    | .domain name => pure [.cname (stringPrint answer.name) (stringPrint name)]
    | .rootDomain => Logged.fail .emptyName
    | _ => Logged.fail .uninitialised
  else if answer.type = 28 then
    match answer.responseData with
    | .inet6 address =>
        pure [.inet6 (stringPrint answer.name) (stringPrint (inet6address2string address))]
    | _ => Logged.fail .uninitialised
  else pure []

def logAnswers : List ResourceRecord → Exec (List LogLine)
  | [] => pure []
  | answer :: answers => do
      let line ← logAnswer answer
      let lines ← logAnswers answers
      pure (line ++ lines)

def messageLog (message : Message) : Exec (List LogLine) := do
  let queries ← initialised message.queryCount message.queries
  let answers ← initialised message.answerCount message.answers
  let lines ← logAnswers answers
  pure (queries.map (fun query => .query (stringPrint query.name)) ++ lines)

structure Loggable (answer : ResourceRecord) : Prop where
  inet4 : answer.type = 1 → ∃ address, answer.responseData = .inet4 address
  domain : answer.type = 5 → ∃ name, answer.responseData = .domain name
  inet6 : answer.type = 28 → ∃ address, answer.responseData = .inet6 address

theorem Loggable.logAnswer_eq {answer : ResourceRecord} (loggable : Loggable answer) :
    ∃ lines, logAnswer answer = pure lines := by
  unfold logAnswer
  by_cases isA : answer.type = 1
  · obtain ⟨address, data⟩ := loggable.inet4 isA
    rw [if_pos isA, data]
    exact ⟨_, rfl⟩
  by_cases isCname : answer.type = 5
  · obtain ⟨name, data⟩ := loggable.domain isCname
    rw [if_neg isA, if_pos isCname, data]
    exact ⟨_, rfl⟩
  by_cases isAaaa : answer.type = 28
  · obtain ⟨address, data⟩ := loggable.inet6 isAaaa
    rw [if_neg isA, if_neg isCname, if_pos isAaaa, data]
    exact ⟨_, rfl⟩
  · rw [if_neg isA, if_neg isCname, if_neg isAaaa]
    exact ⟨_, rfl⟩

theorem loggable_of_logAnswer {answer : ResourceRecord} {lines : List LogLine}
    (logged : (logAnswer answer).out = .ok lines) : Loggable answer := by
  unfold logAnswer at logged
  constructor
  · intro isA
    rw [if_pos isA] at logged
    cases data : answer.responseData with
    | inet4 address => exact ⟨address, rfl⟩
    | unset | domain name | rootDomain | inet6 address =>
        rw [data] at logged
        cases logged
  · intro isCname
    rw [if_neg (by simp [isCname]), if_pos isCname] at logged
    cases data : answer.responseData with
    | domain name => exact ⟨name, rfl⟩
    | unset | inet4 address | rootDomain | inet6 address =>
        rw [data] at logged
        cases logged
  · intro isAaaa
    rw [if_neg (by simp [isAaaa]), if_neg (by simp [isAaaa]), if_pos isAaaa] at logged
    cases data : answer.responseData with
    | inet6 address => exact ⟨address, rfl⟩
    | unset | inet4 address | domain name | rootDomain =>
        rw [data] at logged
        cases logged

theorem logAnswers_eq {answers : List ResourceRecord}
    (loggable : ∀ answer ∈ answers, Loggable answer) :
    ∃ lines, logAnswers answers = pure lines := by
  induction answers with
  | nil => exact ⟨[], rfl⟩
  | cons answer answers ih =>
      obtain ⟨line, first⟩ := (loggable answer List.mem_cons_self).logAnswer_eq
      obtain ⟨lines, rest⟩ :=
        ih fun other member => loggable other (List.mem_cons_of_mem _ member)
      rw [logAnswers, first, rest, Logged.pure_bind, Logged.pure_bind]
      exact ⟨_, rfl⟩

theorem loggable_of_logAnswers {answers : List ResourceRecord} {lines : List LogLine}
    (logged : (logAnswers answers).out = .ok lines) :
    ∀ answer ∈ answers, Loggable answer := by
  induction answers generalizing lines with
  | nil => exact nofun
  | cons answer answers ih =>
      obtain ⟨line, first, others⟩ := Logged.bind_out_eq_ok.mp logged
      obtain ⟨rest, later, _⟩ := Logged.bind_out_eq_ok.mp others
      intro other member
      cases List.mem_cons.mp member with
      | inl isFirst =>
          rw [isFirst]
          exact loggable_of_logAnswer first
      | inr inRest => exact ih later other inRest

theorem initialised_of_le {α : Type} {count : UInt16} {entries : List α}
    (enough : count.toNat ≤ entries.length) :
    initialised count entries = pure (entries.take count.toNat) :=
  if_pos enough

theorem initialised_out_eq_ok {α : Type} {count : UInt16} {entries ready : List α} :
    (initialised count entries).out = .ok ready ↔
      count.toNat ≤ entries.length ∧ ready = entries.take count.toNat := by
  by_cases enough : count.toNat ≤ entries.length
  · rw [initialised_of_le enough, Logged.pure_out, and_iff_right enough]
    exact ⟨fun same => (Except.ok.inj same).symm, fun same => congrArg _ same.symm⟩
  · rw [initialised, if_neg enough]
    exact iff_of_false (fun impossible => nomatch impossible) fun both => enough both.1

structure LogReady (message : Message) : Prop where
  queries : message.queryCount.toNat ≤ message.queries.length
  answers : message.answerCount.toNat ≤ message.answers.length
  loggable : ∀ answer ∈ message.answers.take message.answerCount.toNat, Loggable answer

/-- The log touches nothing and leaves nothing behind. -/
theorem LogReady.messageLog_eq {message : Message} (ready : LogReady message) :
    ∃ lines, messageLog message = pure lines := by
  obtain ⟨lines, logged⟩ := logAnswers_eq ready.loggable
  rw [messageLog, initialised_of_le ready.queries, Logged.pure_bind,
    initialised_of_le ready.answers, Logged.pure_bind, logged, Logged.pure_bind]
  exact ⟨_, rfl⟩

theorem LogReady.messageLog_bind {β : Type} {message : Message} (ready : LogReady message)
    (next : Exec β) : (messageLog message >>= fun _ => next) = next := by
  obtain ⟨lines, logged⟩ := ready.messageLog_eq
  rw [logged, Logged.pure_bind]

theorem messageLog_returns_iff (message : Message) :
    (∃ lines, (messageLog message).out = .ok lines) ↔ LogReady message := by
  constructor
  · rintro ⟨lines, logged⟩
    obtain ⟨queries, asked, answering⟩ := Logged.bind_out_eq_ok.mp logged
    obtain ⟨answers, answered, logging⟩ := Logged.bind_out_eq_ok.mp answering
    obtain ⟨answerLines, returned, _⟩ := Logged.bind_out_eq_ok.mp logging
    obtain ⟨enough, isAnswers⟩ := initialised_out_eq_ok.mp answered
    rw [isAnswers] at returned
    exact
      { queries := (initialised_out_eq_ok.mp asked).1
        answers := enough
        loggable := loggable_of_logAnswers returned }
  · intro ready
    obtain ⟨lines, logged⟩ := ready.messageLog_eq
    rw [logged]
    exact ⟨lines, rfl⟩

end PostDns
