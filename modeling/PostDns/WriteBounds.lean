/-
Which cells of the 512-octet arrays the decoder writes (message.c, `QValue`,
`Name` and `RData`).

The arrays are filled from the front and closed one cell before the current one.
No write is guarded: they all stay inside exactly when every name is at least one
label and at most 512 cells long, and every copied address is between 1 and 511
octets long.
-/

import PostDns.EntrySemantics

namespace PostDns

open Foundation

def Region.Scratch (region : Region) : Prop :=
  region = .qvalue ∨ region = .name ∨ region = .rdata

def Access.InScratch : Access → Prop
  | .write region index => region.Scratch → 0 ≤ index ∧ index ≤ 511
  | .read _ _ => True

theorem inScratch_write_iff {region : Region} (scratch : region.Scratch) (index : Int) :
    Access.InScratch (.write region index) ↔ 0 ≤ index ∧ index ≤ 511 :=
  forall_prop_of_true scratch

/-! ### Names -/

def cellsAt (follow : Bool) (buf : List UInt8) (position : Nat) : Nat :=
  match buf[position]? with
  | none => 0
  | some octet =>
      if octet = 0 then 0
      else if follow = true ∧ octet &&& 0xc0 = 0xc0 then 0
      else if position + 1 + octet.toNat ≤ buf.length then octet.toNat + 1
      else buf.length - (position + 1)

theorem readBase_inScratch (buf : List UInt8) (index : Nat) :
    Logged.Always Access.InScratch (readBase buf index) :=
  always_readBase (fun _ => trivial) buf index

theorem readShort_inScratch (buf : List UInt8) (index : Nat) :
    Logged.Always Access.InScratch (readShort buf index) :=
  always_readShort (fun _ => trivial) buf index

theorem writeAt_inScratch_iff {region : Region} (scratch : region.Scratch) (cell : Nat) :
    Logged.Always Access.InScratch (writeAt region cell) ↔ cell ≤ 511 := by
  constructor
  · intro bounded
    have inside := (inScratch_write_iff scratch cell).mp
      (bounded _ (List.mem_singleton_self _))
    omega
  · intro inside access member
    rw [List.mem_singleton.mp member, inScratch_write_iff scratch]
    omega

theorem copyLetters_inScratch_iff (buf : List UInt8) {region : Region}
    (scratch : region.Scratch) (count bufPos : Nat) (cells : List UInt8) :
    Logged.Always Access.InScratch (copyLetters buf region count bufPos cells) ↔
      ∀ cell < min count (buf.length - bufPos), cells.length + cell ≤ 511 := by
  induction count generalizing bufPos cells with
  | zero => exact iff_of_true (Logged.always_pure _ _) (by omega)
  | succ count ih =>
      rw [copyLetters, Logged.always_bind,
        and_iff_right (readBase_inScratch buf bufPos)]
      cases hRead : buf[bufPos]? with
      | none =>
          have outside := List.getElem?_eq_none_iff.mp hRead
          refine iff_of_true ?_ (by omega)
          intro octet done
          rw [readBase_out_of_none hRead] at done
          cases done
      | some octet =>
          have inside := (List.getElem?_eq_some_iff.mp hRead).1
          have split : (∀ value, (readBase buf bufPos).out = .ok value →
              Logged.Always Access.InScratch (writeAt region cells.length >>= fun _ =>
                copyLetters buf region count (bufPos + 1) (cells ++ [value]))) ↔
              cells.length ≤ 511 ∧
                ∀ cell < min count (buf.length - (bufPos + 1)),
                  cells.length + 1 + cell ≤ 511 := by
            rw [readBase_out_of_some hRead]
            simp only [Except.ok.injEq, forall_eq', Logged.always_bind,
              writeAt_inScratch_iff scratch, writeAt_out, ih, List.length_append,
              List.length_singleton, forall_const]
          rw [split]
          constructor
          · rintro ⟨here, later⟩ cell below
            cases cell with
            | zero => exact here
            | succ cell =>
                have next := later cell (by omega)
                omega
          · intro each
            refine ⟨each 0 (by omega), ?_⟩
            intro cell below
            have next := each (cell + 1) (by omega)
            omega

theorem visit_inScratch_iff (follow : Bool) (buf : List UInt8) {region : Region}
    (scratch : region.Scratch) (place : Place) :
    Logged.Always Access.InScratch (visitAt follow buf region place) ↔
      ∀ cell < cellsAt follow buf place.1, place.2 + cell ≤ 511 := by
  unfold visitAt visit cellsAt
  rw [Logged.always_bind, and_iff_right (readBase_inScratch buf place.1)]
  cases hRead : buf[place.1]? with
  | none =>
      refine iff_of_true ?_ (by simp)
      intro octet done
      rw [readBase_out_of_none hRead] at done
      cases done
  | some octet =>
      have inside := (List.getElem?_eq_some_iff.mp hRead).1
      rw [readBase_out_of_some hRead]
      simp only [Except.ok.injEq, forall_eq']
      by_cases isZero : octet = 0
      · rw [if_pos isZero, if_pos isZero]
        exact iff_of_true (Logged.always_pure _ _) (by simp)
      · rw [if_neg isZero, if_neg isZero]
        by_cases marked : follow = true ∧ octet &&& 0xc0 = 0xc0
        · rw [if_pos marked, if_pos marked]
          refine iff_of_true ?_ (by simp)
          exact Logged.always_bind.mpr
            ⟨readBase_inScratch buf _, fun _ _ => Logged.always_pure _ _⟩
        · rw [if_neg marked, if_neg marked, Logged.always_bind,
            copyLetters_inScratch_iff buf scratch, List.length_replicate]
          by_cases room : place.1 + 1 + octet.toNat ≤ buf.length
          · rw [if_pos room]
            have whole : min octet.toNat (buf.length - (place.1 + 1)) = octet.toNat := by
              omega
            obtain ⟨copied, done, size⟩ :=
              copyLetters_complete region (List.replicate place.2 0) room
            rw [List.length_replicate] at size
            have dotted : (∀ value, (copyLetters buf region octet.toNat (place.1 + 1)
                (List.replicate place.2 0)).out = .ok value →
                  Logged.Always Access.InScratch (writeAt region value.length >>= fun _ =>
                    pure (Piece.letters octet.toNat, value ++ [dot]))) ↔
                place.2 + octet.toNat ≤ 511 := by
              rw [done]
              simp only [Except.ok.injEq, forall_eq', Logged.always_bind,
                writeAt_inScratch_iff scratch, size, Logged.always_pure, implies_true,
                and_true]
            rw [dotted, whole]
            constructor
            · rintro ⟨letters, last⟩ cell below
              by_cases isLast : cell = octet.toNat
              · omega
              · exact letters cell (by omega)
            · intro each
              exact ⟨fun cell below => each cell (by omega), each octet.toNat (by omega)⟩
          · rw [if_neg room]
            have cut : min octet.toNat (buf.length - (place.1 + 1)) =
                buf.length - (place.1 + 1) := by
              omega
            obtain ⟨index, stopped⟩ := copyLetters_cut region (List.replicate place.2 0)
              inside (Nat.lt_of_not_le room)
            rw [cut]
            apply and_iff_left
            intro value done
            rw [stopped] at done
            cases done

/-! ### What fits -/

def NameFits (follow : Bool) (buf : List UInt8) (start : Nat) : Prop :=
  ∀ place, Walk.Reaches (nameMove follow buf) (start, 0) place →
    ∀ cell < cellsAt follow buf place.1, place.2 + cell ≤ 511

def NameCloses (follow : Bool) (buf : List UInt8) (start : Nat) : Prop :=
  NameFits follow buf start ∧
    ∀ last filled, NameEnds follow buf start 0 last filled → 0 < filled

theorem cellsAt_of_letters {follow : Bool} {buf : List UInt8} {position count : Nat}
    (here : pieceAt follow buf position = some (.letters count)) :
    cellsAt follow buf position = count + 1 := by
  unfold pieceAt at here
  unfold cellsAt
  cases hRead : buf[position]? with
  | none => simp [hRead] at here
  | some octet =>
      simp only [hRead] at here ⊢
      by_cases isZero : octet = 0
      · simp [isZero] at here
      · rw [if_neg isZero] at here ⊢
        by_cases marked : follow = true ∧ octet &&& 0xc0 = 0xc0
        · simp [marked] at here
        · rw [if_neg marked] at here ⊢
          by_cases room : position + 1 + octet.toNat ≤ buf.length
          · rw [if_pos room] at here ⊢
            cases here
            rfl
          · rw [if_neg room] at here
            cases here

theorem NameFits.total_le {follow : Bool} {buf : List UInt8} {position filled last
    total : Nat} (ends : NameEnds follow buf position filled last total)
    (fits : ∀ place, Walk.Reaches (nameMove follow buf) (position, filled) place →
      ∀ cell < cellsAt follow buf place.1, place.2 + cell ≤ 511)
    (below : filled ≤ 512) : total ≤ 512 := by
  induction ends with
  | finish here => exact below
  | @jump position filled offset elsewhere total here target ih =>
      apply ih _ below
      intro place reached
      exact fits place (Relation.ReflTransGen.head (by
        simp only [Walk.Steps, nameMove, here]) reached)
  | @letters position filled count last total here later ih =>
      have filledHere := cellsAt_of_letters here
      have next := fits (position, filled) Relation.ReflTransGen.refl count (by
        rw [filledHere]
        omega)
      apply ih _ (by omega)
      intro place reached
      exact fits place (Relation.ReflTransGen.head (by
        simp only [Walk.Steps, nameMove, here]) reached)

/-! ### Entries -/

section Entries

variable (buf : List UInt8)

theorem closeString_inScratch_iff {region : Region} (scratch : region.Scratch)
    (cells : List UInt8) :
    Logged.Always Access.InScratch (closeString region cells) ↔
      0 < cells.length ∧ cells.length ≤ 512 := by
  rw [closeString_always_iff, inScratch_write_iff scratch]
  omega

theorem readName_inScratch_iff (follow : Bool) {region : Region}
    (scratch : region.Scratch) (position : Nat) :
    AlwaysGood Access.InScratch
        (fun env => readName follow buf region env.fuel position []) ↔
      NameFits follow buf position := by
  unfold NameFits
  simp only [← visit_inScratch_iff follow buf scratch]
  exact alwaysGood_fuel_iff.trans always_readName_iff

/-- A name that fits leaves a cell to close it in if it has a cell at all. -/
theorem nameCloses_iff {follow : Bool} {position : Nat} :
    NameCloses follow buf position ↔
      NameFits follow buf position ∧
        ∀ last filled, NameEnds follow buf position 0 last filled →
          0 < filled ∧ filled ≤ 512 := by
  refine and_congr_right fun fits => ?_
  exact ⟨fun positive last filled ends =>
      ⟨positive last filled ends, NameFits.total_le ends fits (by omega)⟩,
    fun closes last filled ends => (closes last filled ends).1⟩

theorem questionTail_inScratch_iff (named : Nat × List UInt8) :
    Logged.Always Access.InScratch (questionTail buf named) ↔
      0 < named.2.length ∧ named.2.length ≤ 512 := by
  unfold questionTail
  rw [Logged.always_bind, closeString_inScratch_iff (Or.inl rfl)]
  apply and_iff_left
  intro _ _
  exact Logged.always_bind.mpr ⟨readShort_inScratch buf _, fun _ _ =>
    Logged.always_bind.mpr ⟨readShort_inScratch buf _, fun _ _ =>
      Logged.always_pure _ _⟩⟩

theorem buf2messageQuery_inScratch_iff (position : Nat) :
    AlwaysGood Access.InScratch (fun env => buf2messageQuery env buf position) ↔
      NameCloses false buf position := by
  rw [query_holds_iff (compositional_alwaysGood _), nameCloses_iff]
  have name : AlwaysGood Access.InScratch
        (fun env => questionName buf env.fuel position []) ↔
      NameFits false buf position := by
    simp only [questionName_eq_readName]
    exact readName_inScratch_iff buf false (Or.inl rfl) position
  simp only [alwaysGood_const_iff, questionTail_inScratch_iff]
  exact and_congr name (forall_questionName_iff (fun _ filled =>
    0 < filled ∧ filled ≤ 512) buf position)

end Entries

/-! ### Datagrams -/

def rootQuestion : Datagram :=
  { buf :=
      { base := [0, 1, 1, 0, 0, 1, 0, 0, 0, 0, 0, 0, 0, 0, 1, 0, 1]
        len := 17 }
    nonempty := by decide
    fits := by decide }

end PostDns
