import SlotMachine.Proofs.Image.Legible
import Mathlib.Tactic.Common

/-!
# Reading step by step

A reader can be asked for one item after another, of whatever sort, and goes on after a failure where
that has left it. It never goes back and never leaves the bytes: what it has in front of it is always
what the bytes have from its position on. An input is found malformed at the position where the reader
then stands, and a single item that is not there leaves it where it was.
-/

namespace SlotMachine

/-- The cursor is in the bytes, no further to the front than `start`, and has in front of it what the
bytes have there. -/
structure Cursor.Within (bytes : List UInt8) (start : Nat) (c : Cursor) : Prop where
  /-- It has not gone back. -/
  ahead : start ≤ c.position
  /-- It has not left the bytes. -/
  inside : c.position ≤ bytes.length
  /-- What has not been read is the rest of the bytes. -/
  rest_eq : c.rest = bytes.drop c.position

/-- If the input is found malformed, it is at the position of the cursor. -/
def Fault.PointsAt (e : Fault) (c : Cursor) : Prop :=
  ∀ offset flaw, e = .malformed offset flaw → offset = c.position

theorem Fault.pointsAt_malformed (flaw : Flaw) (c : Cursor) :
    (malformed c.position flaw).PointsAt c := by
  rintro offset flaw ⟨⟩
  rfl

namespace Cursor.Within

variable {bytes : List UInt8} {start count : Nat} {c : Cursor}

/-- At the start of the bytes, nothing has been read. -/
theorem ofBytes (bytes : List UInt8) : (ofBytes bytes).Within bytes 0 :=
  ⟨le_rfl, Nat.zero_le _, rfl⟩

/-- A cursor is where it is. -/
theorem here (h : c.Within bytes start) : c.Within bytes c.position :=
  ⟨le_rfl, h.inside, h.rest_eq⟩

/-- As many bytes can be skipped as are left. -/
theorem skip (h : c.Within bytes start) (hcount : count ≤ c.rest.length) :
    (c.skip count).Within bytes start := by
  have hstart := h.ahead
  have hinside := h.inside
  have hleft : c.rest.length = bytes.length - c.position := by
    rw [h.rest_eq, List.length_drop]
  refine ⟨?_, ?_, ?_⟩
  · simp only [Cursor.skip]
    omega
  · simp only [Cursor.skip]
    omega
  · simp only [Cursor.skip]
    rw [h.rest_eq, List.drop_drop]

end Cursor.Within

namespace Read

open SlotMachine.Action Fault

variable {α : Type} {bytes : List UInt8} {start : Nat} {item : Read α}

/-- Within the bytes the reader goes no further to the front than `start`, and finds the input
malformed only where it stands. -/
abbrev Proceeds (bytes : List UInt8) (start : Nat) (item : Read α) : Prop :=
  Accounts (Cursor.Within bytes start) PointsAt item

/-- The reader takes some of the bytes that are left, or finds the input malformed and takes none. -/
def Single (item : Read α) : Prop :=
  ∀ c, (∃ a count, count ≤ c.rest.length ∧ item c = .ok a (c.skip count)) ∨
    ∃ flaw, item c = flawed flaw c

section Single

theorem Single.proceeds (h : Single item) : Proceeds bytes start item := by
  intro c hc
  rcases h c with ⟨a, count, hcount, hitem⟩ | ⟨flaw, hitem⟩
  · exact ends_of_ok hitem (hc.skip hcount)
  · exact ends_of_error hitem ⟨hc, pointsAt_malformed flaw c⟩

/-- A single item that is not there is not taken in part. -/
theorem Single.stays (h : Single item) {c c' : Cursor} {e : Fault} (hitem : item c = .error e c') :
    c' = c := by
  rcases h c with ⟨a, count, -, hok⟩ | ⟨flaw, hflaw⟩
  · rw [hitem] at hok
    cases hok
  · rw [hitem] at hflaw
    cases hflaw
    rfl

theorem single_byte : Single byte := by
  rintro ⟨position, rest⟩
  cases rest with
  | nil => exact .inr ⟨.endOfInput, rfl⟩
  | cons b rest => exact .inl ⟨b, 1, by simp, rfl⟩

theorem single_take (count : Nat) : Single (take count) := by
  intro c
  unfold take
  dsimp only
  split
  · rename_i hlength
    rw [List.length_take] at hlength
    exact .inl ⟨_, count, by omega, rfl⟩
  · exact .inr ⟨.missingBytes count, rfl⟩

theorem single_word : Single word := by
  intro c
  unfold word
  split
  · rename_i n used hdecode
    obtain ⟨numeral, rest, hrest, rfl, -, -⟩ := Uleb.decodeFrom_numeral hdecode
    exact .inl ⟨_, numeral.length, by simp [hrest], rfl⟩
  · exact .inr ⟨.badNumber, rfl⟩

theorem single_name : Single name := by
  intro c
  have hle : (c.rest.takeWhile (· != 0)).length ≤ c.rest.length :=
    (List.takeWhile_prefix _).length_le
  unfold name
  dsimp only
  split
  · exact .inr ⟨.unterminatedName, rfl⟩
  · split
    · exact .inl ⟨_, _, by omega, rfl⟩
    · exact .inr ⟨.malformedName, rfl⟩

end Single

section Sections

theorem proceeds_flawed (flaw : Flaw) : Proceeds bytes start (flawed flaw : Read α) :=
  fun c hc => ends_of_error rfl ⟨hc, pointsAt_malformed flaw c⟩

theorem proceeds_times (hitem : Proceeds bytes start item) (n : Nat) :
    Proceeds bytes start (times item n) := by
  induction n with
  | zero => exact accounts_pure _
  | succ n ih => exact hitem.bind fun _ => ih.bind fun _ => accounts_pure _

theorem proceeds_counted (hitem : Proceeds bytes start item) :
    Proceeds bytes start (counted item) :=
  single_word.proceeds.bind fun _ => proceeds_times hitem _

theorem proceeds_text : Proceeds bytes start text := by
  refine single_word.proceeds.bind fun _ => (single_take _).proceeds.bind fun raw => ?_
  dsimp only
  split
  · exact accounts_pure _
  · exact proceeds_flawed _

theorem proceeds_constant : Proceeds bytes start constant := by
  have hword : Proceeds bytes start fixedWord :=
    (single_take 8).proceeds.bind fun _ => accounts_pure _
  refine single_byte.proceeds.bind fun t => ?_
  repeat' split
  · exact single_byte.proceeds.bind fun _ => accounts_pure _
  · exact hword.bind fun _ => accounts_pure _
  · exact hword.bind fun _ => accounts_pure _
  · exact hword.bind fun _ => accounts_pure _
  · exact proceeds_text.bind fun _ => accounts_pure _
  · exact accounts_throw nofun

/-- The tags behind a wrapper tag are read as by themselves. -/
theorem tags_of_wrapper {t : Tag} (hknown : t.isKnown = true) (hwrapper : t.isWrapper = true)
    (position : Nat) (rest : List UInt8) :
    tags ⟨position, t :: rest⟩ =
      (tags >>= fun others => pure (t :: others)) ⟨position + 1, rest⟩ := by
  change tagsFrom position (t :: rest) = EStateM.bind tags _ _
  rw [tagsFrom, if_neg (not_not.mpr hknown), if_pos hwrapper]
  unfold EStateM.bind tags
  dsimp only
  cases tagsFrom (position + 1) rest <;> rfl

/-- Each tag is a byte that is taken, known or not. -/
theorem proceeds_tags : Proceeds bytes start tags := by
  rintro ⟨position, rest⟩ hc
  induction rest generalizing position with
  | nil => exact ends_of_error rfl ⟨hc, pointsAt_malformed .endOfInput ⟨position, []⟩⟩
  | cons t rest ih =>
    have hnext : Cursor.Within bytes start ⟨position + 1, rest⟩ := hc.skip (by simp)
    by_cases hknown : Tag.isKnown t = true
    · by_cases hwrapper : Tag.isWrapper t = true
      · unfold Ends
        rw [tags_of_wrapper hknown hwrapper]
        exact (ih (position + 1) hnext).bind fun _ _ hends => ends_pure hends
      · have hlast : tags ⟨position, t :: rest⟩ = .ok [t] ⟨position + 1, rest⟩ := by
          simp [tags, tagsFrom, hknown, hwrapper]
        exact ends_of_ok hlast hnext
    · have hunknown : tags ⟨position, t :: rest⟩ = .error (.unknownTag t) ⟨position + 1, rest⟩ := by
        simp [tags, tagsFrom, hknown]
      have hpoints : (unknownTag t).PointsAt ⟨position + 1, rest⟩ := by
        rintro offset flaw ⟨⟩
      exact ends_of_error hunknown ⟨hnext, hpoints⟩

theorem proceeds_instruction : Proceeds bytes start instruction := by
  refine single_byte.proceeds.bind fun code => ?_
  split
  · exact accounts_throw nofun
  · split
    · exact (proceeds_times single_word.proceeds _).bind fun _ => accounts_pure _
    · exact (proceeds_times single_word.proceeds _).bind fun _ =>
        (proceeds_times single_word.proceeds _).bind fun _ => accounts_pure _

theorem proceeds_functionRest (name : String) (variadic : Bool) :
    Proceeds bytes start (functionRest name variadic) := by
  have hcode : ∀ params : List UInt64, Proceeds bytes start (do
      let code ← counted instruction
      pure (⟨name, variadic, params, code.toArray⟩ : Function)) := fun _ =>
    (proceeds_counted proceeds_instruction).bind fun _ => accounts_pure _
  refine (proceeds_counted single_word.proceeds).bind fun params => ?_
  dsimp only
  split
  · exact (proceeds_flawed _).bind fun _ => hcode params
  · exact hcode params

theorem proceeds_function : Proceeds bytes start function := by
  have hpeek : Proceeds bytes start peek := fun c hc => ends_of_ok rfl hc
  rw [function_eq]
  refine single_name.proceeds.bind fun raw => hpeek.bind fun next => ?_
  split
  · exact single_byte.proceeds.bind fun _ => proceeds_functionRest _ _
  · exact proceeds_functionRest _ _

theorem proceeds_member : Proceeds bytes start member :=
  single_name.proceeds.bind fun _ => proceeds_tags.bind fun _ => accounts_pure _

theorem proceeds_classDecl : Proceeds bytes start classDecl :=
  single_name.proceeds.bind fun _ => (proceeds_counted proceeds_member).bind fun _ =>
    (proceeds_counted proceeds_function).bind fun _ => accounts_pure _

theorem proceeds_classes (n : Nat) : Proceeds bytes start (classes n) := by
  induction n with
  | zero => exact accounts_pure _
  | succ n ih =>
    refine accounts_get_bind fun c _ => ?_
    split
    · exact accounts_pure _
    · exact proceeds_classDecl.bind fun _ => ih.bind fun _ => accounts_pure _

theorem proceeds_header : Proceeds bytes start header := by
  have hversion : Proceeds bytes start (do
      let version ← take 4
      if version ≠ Image.version then throw (.unsupportedVersion version) : Read Unit) := by
    refine (single_take 4).proceeds.bind fun version => ?_
    split
    · exact accounts_throw nofun
    · exact accounts_pure _
  refine (single_take 4).proceeds.bind fun magic => ?_
  split
  · have hrefused : Proceeds bytes start (throw (.badMagic magic) : Read PUnit) :=
      accounts_throw nofun
    exact hrefused.bind fun _ => hversion
  · exact hversion

theorem proceeds_image : Proceeds bytes start image :=
  proceeds_header.bind fun _ => (proceeds_counted proceeds_constant).bind fun _ =>
    (proceeds_counted proceeds_tags).bind fun _ => accounts_get_bind fun _ _ =>
      (proceeds_classes _).bind fun _ => accounts_pure _

/-- Nothing changes when the item is not wanted. -/
theorem Proceeds.discard (hitem : Proceeds bytes start item) :
    Proceeds bytes start (discard item) := by
  intro c hc
  have hends := hitem c hc
  unfold Ends
  rw [discard_eq]
  cases hread : item c with
  | ok a c' => exact hends.of_ok hread
  | error e c' => exact hends.of_error hread

end Sections

end Read

/-- What a reader can be asked for. -/
inductive ReadStep where
  /-- A byte. -/
  | byte
  /-- So many bytes. -/
  | take (count : Nat)
  /-- A number, whether as a value, an index or a count. -/
  | word
  /-- A name. -/
  | name
  /-- A constant. -/
  | constant
  /-- A sequence of type tags. -/
  | tags
  /-- An instruction. -/
  | instruction
  /-- A whole module. -/
  | image

namespace ReadStep

/-- The reader of what is asked for. -/
def action : ReadStep → Read Unit
  | byte => discard Read.byte
  | take count => discard (Read.take count)
  | word => discard Read.word
  | name => discard Read.name
  | constant => discard Read.constant
  | tags => discard Read.tags
  | instruction => discard Read.instruction
  | image => discard Read.image

/-- What is asked for is a single item. -/
def IsSingle : ReadStep → Prop
  | byte | take _ | word | name => True
  | constant | tags | instruction | image => False

open Read

/-- Whatever is asked for, the reader goes no step back and stays within the bytes. -/
theorem proceeds_action (step : ReadStep) (bytes : List UInt8) (start : Nat) :
    Proceeds bytes start step.action := by
  cases step with
  | byte => exact single_byte.proceeds.discard
  | take count => exact (single_take count).proceeds.discard
  | word => exact single_word.proceeds.discard
  | name => exact single_name.proceeds.discard
  | constant => exact proceeds_constant.discard
  | tags => exact proceeds_tags.discard
  | instruction => exact proceeds_instruction.discard
  | image => exact proceeds_image.discard

/-- A single item that is not there is not taken in part. -/
theorem stays_action {step : ReadStep} (hsingle : step.IsSingle) {c c' : Cursor} {e : Fault}
    (h : step.action c = .error e c') : c' = c := by
  cases step with
  | byte => exact single_byte.stays (Action.error_of_discard h)
  | take count => exact (single_take count).stays (Action.error_of_discard h)
  | word => exact single_word.stays (Action.error_of_discard h)
  | name => exact single_name.stays (Action.error_of_discard h)
  | constant => exact hsingle.elim
  | tags => exact hsingle.elim
  | instruction => exact hsingle.elim
  | image => exact hsingle.elim

end ReadStep

namespace Cursor

/-- The cursor after some steps, each taken from where the one before has left it, failed or not. -/
def after (c : Cursor) : List ReadStep → Cursor
  | [] => c
  | step :: others =>
    match step.action c with
    | .ok _ c' => c'.after others
    | .error _ c' => c'.after others

/-- Steps lead no further to the front and not out of the bytes. -/
theorem Within.after {bytes : List UInt8} {start : Nat} {c : Cursor} (hc : c.Within bytes start)
    (steps : List ReadStep) : (c.after steps).Within bytes start := by
  induction steps generalizing c with
  | nil => exact hc
  | cons step others ih =>
    have hends := step.proceeds_action bytes start c hc
    rw [Cursor.after]
    cases hstep : step.action c with
    | ok _ c' => exact ih (hends.of_ok hstep)
    | error e c' => exact ih (hends.of_error hstep).1

/-- Let a reader of any bytes have taken any steps, and gone on after those that failed. Whatever
steps it takes then, its position does not decrease and does not come to lie behind the last byte,
and what it has in front of it are the bytes from its position on. If a step fails, then one for a
single item has left the cursor where it was, and a malformed input is reported at an offset
between the position before the step and the end of the bytes. -/
theorem steps_stay_within_bytes {bytes : List UInt8} {before : List ReadStep} {c : Cursor}
    (hc : (ofBytes bytes).after before = c) :
    (∀ steps, (c.after steps).Within bytes c.position) ∧
    ∀ step e c', step.action c = .error e c' →
      c.after [step] = c' ∧ (step.IsSingle → c' = c) ∧
        ∀ offset flaw, e = .malformed offset flaw →
          c.position ≤ offset ∧ offset ≤ bytes.length := by
  have hwithin : c.Within bytes c.position := by
    rw [← hc]
    exact ((Within.ofBytes bytes).after before).here
  refine ⟨hwithin.after, fun step e c' hstep => ⟨?_, fun hsingle => ?_, ?_⟩⟩
  · rw [after, hstep]
    rfl
  · exact ReadStep.stays_action hsingle hstep
  · intro offset flaw hflaw
    obtain ⟨hended, hpoints⟩ :=
      (step.proceeds_action bytes c.position c hwithin).of_error hstep
    rw [hpoints offset flaw hflaw]
    exact ⟨hended.ahead, hended.inside⟩

/-- The bytes of a text constant of five bytes, two of which are there. After bytes that are not there
and the constant, which fails behind its length, the reader stands at position 2. A name is not
found there, since no zero byte follows; the reader is left where it was, and reads a byte. -/
theorem steps_in_cut_text :
    (ofBytes [5, 5, 97, 98]).after [.take 9, .constant] = ⟨2, [97, 98]⟩ ∧
    ReadStep.name.action ⟨2, [97, 98]⟩ = .error (.malformed 2 .unterminatedName) ⟨2, [97, 98]⟩ ∧
    (2 ≤ 2 ∧ 2 ≤ [5, 5, 97, 98].length) ∧
    Within [5, 5, 97, 98] 2 ((⟨2, [97, 98]⟩ : Cursor).after [.name, .byte]) := by
  have hbefore : (ofBytes [5, 5, 97, 98]).after [.take 9, .constant] = ⟨2, [97, 98]⟩ := by
    decide
  have hname : ReadStep.name.action ⟨2, [97, 98]⟩ =
      .error (.malformed 2 .unterminatedName) ⟨2, [97, 98]⟩ := rfl
  obtain ⟨hwithin, hfaults⟩ := steps_stay_within_bytes hbefore
  obtain ⟨-, -, hoffset⟩ := hfaults .name _ _ hname
  exact ⟨hbefore, hname, hoffset 2 _ rfl, hwithin _⟩

end Cursor

end SlotMachine
