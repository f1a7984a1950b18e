import SlotMachine.Proofs.Image.RoundTrip
import Mathlib.Data.List.Forall2
import Mathlib.Data.List.Infix

/-!
# Modules that are cut off

Every part of a module is delimited by itself: its reader takes the same bytes whatever follows them,
and finds the input malformed when some of them are missing. The classes alone go on to the end of
the input. A module that is cut off is therefore malformed, unless the cut falls where the heap
template or a class ends; then the classes behind the cut are missing and nothing else is.
-/

namespace SlotMachine

namespace Read

variable {α β : Type}

/-- From whatever position, the reader finds these bytes malformed when they are all there is. -/
def Starves (item : Read α) (bytes : List UInt8) : Prop :=
  ∀ position, ∃ offset flaw c, item ⟨position, bytes⟩ = .error (.malformed offset flaw) c

/-- The reader takes exactly these bytes for `a`, whatever follows them, and needs all of them. -/
structure Takes (item : Read α) (bytes : List UInt8) (a : α) : Prop where
  /-- They are read as `a`. -/
  reads : Reads item bytes a
  /-- With some of them missing the input is malformed. -/
  starves : ∀ part, part <+: bytes → part ≠ bytes → Starves item part

/-- Whatever the reader returns, it has taken bytes at the front of the input for it. -/
def Delimits (item : Read α) : Prop :=
  ∀ ⦃c a c'⦄, item c = .ok a c' → ∃ bytes, c.rest = bytes ++ c'.rest ∧ Takes item bytes a

/-- What is left of two pieces in a row lacks some of the first piece, or has all of it and some of the
second. -/
theorem prefix_append_cases {part first second : List UInt8} (h : part <+: first ++ second) :
    (part <+: first ∧ part ≠ first) ∨ ∃ more, part = first ++ more ∧ more <+: second := by
  by_cases hfirst : first <+: part
  · obtain ⟨more, rfl⟩ := hfirst
    exact .inr ⟨more, rfl, (List.prefix_append_right_inj first).mp h⟩
  · rcases List.prefix_or_prefix_of_prefix h (List.prefix_append first second) with hle | hle
    · exact .inl ⟨hle, fun heq => hfirst (heq ▸ List.prefix_refl part)⟩
    · exact absurd hle hfirst

/-- A reader that starves keeps whatever comes after it from being read. -/
theorem Starves.bind {item : Read α} {next : α → Read β} {bytes : List UInt8}
    (h : Starves item bytes) : Starves (item >>= next) bytes := by
  intro position
  obtain ⟨offset, flaw, c, hitem⟩ := h position
  exact ⟨offset, flaw, c, Action.bind_of_error hitem⟩

/-- Readers in a row take their bytes in a row. -/
theorem Takes.bind {item : Read α} {next : α → Read β} {first second : List UInt8} {a : α} {b : β}
    (hitem : Takes item first a) (hnext : Takes (next a) second b) :
    Takes (item >>= next) (first ++ second) b := by
  constructor
  · exact hitem.reads.bind hnext.reads
  · intro part hpart hne
    rcases prefix_append_cases hpart with ⟨hshort, hless⟩ | ⟨more, rfl, hmore⟩
    · exact (hitem.starves part hshort hless).bind
    · intro position
      have hless : more ≠ second := fun heq => hne (by rw [heq])
      obtain ⟨offset, flaw, c, hstarved⟩ :=
        hnext.starves more hmore hless (position + first.length)
      refine ⟨offset, flaw, c, ?_⟩
      rw [Action.bind_of_ok (hitem.reads position more)]
      exact hstarved

theorem takes_pure (a : α) : Takes (pure a) [] a := by
  constructor
  · exact reads_pure a
  · intro part hpart hne
    exact absurd (List.prefix_nil.mp hpart) hne

/-- Readers in a row delimit what they read if each of them does. -/
theorem Delimits.bind {item : Read α} {next : α → Read β} (hitem : Delimits item)
    (hnext : ∀ a, Delimits (next a)) : Delimits (item >>= next) := by
  intro c b c' h
  obtain ⟨a, c₁, ha, hb⟩ := Action.bind_eq_ok_iff.mp h
  obtain ⟨first, hfirst, htakes⟩ := hitem ha
  obtain ⟨second, hsecond, htakes'⟩ := hnext a hb
  refine ⟨first ++ second, ?_, htakes.bind htakes'⟩
  rw [hfirst, hsecond, List.append_assoc]

theorem delimits_pure (a : α) : Delimits (pure a) := by
  intro c b c' h
  obtain ⟨rfl, rfl⟩ := Action.pure_eq_ok_iff.mp h
  exact ⟨[], rfl, takes_pure a⟩

theorem delimits_throw (e : Fault) : Delimits (throw e : Read α) := by
  intro c a c' h
  cases h

theorem delimits_flawed (flaw : Flaw) : Delimits (flawed flaw : Read α) := by
  intro c a c' h
  cases h

section Basic

theorem takes_byte (b : UInt8) : Takes byte [b] b := by
  constructor
  · exact reads_byte b
  · intro part hpart hne position
    have hnil : part = [] := by
      rcases List.prefix_concat_iff.mp (List.nil_append [b] ▸ hpart) with heq | hnil
      · exact absurd heq hne
      · exact List.prefix_nil.mp hnil
    rw [hnil]
    exact ⟨position, .endOfInput, _, rfl⟩

theorem delimits_byte : Delimits byte := by
  rintro ⟨position, rest⟩ b c' h
  cases rest with
  | nil => cases h
  | cons first others =>
    cases h
    exact ⟨[b], rfl, takes_byte b⟩

theorem delimits_take (count : Nat) : Delimits (take count) := by
  intro c chunk c' h
  simp only [take] at h
  split at h
  · rename_i hlength
    cases h
    refine ⟨c.rest.take count, (List.take_append_drop count c.rest).symm, ?_, ?_⟩
    · have hreads := reads_take (c.rest.take count)
      rwa [hlength] at hreads
    · intro part hpart hne position
      have hshort : part.length < count := by
        have hle := hpart.length_le
        have hsame : part.length ≠ (c.rest.take count).length :=
          fun heq => hne (hpart.eq_of_length heq)
        omega
      refine ⟨position, .missingBytes count, ⟨position, part⟩, ?_⟩
      simp only [take]
      rw [if_neg (by rw [List.length_take]; omega)]
      rfl
  · cases h

/-- A part of a numeral that is not all of it asks for more bytes. -/
theorem unfinished_of_cut {part numeral : List UInt8} (h : Uleb.IsNumeral numeral)
    (hpart : part <+: numeral) (hne : part ≠ numeral) : ∀ b ∈ part, 128 ≤ b.toNat := by
  obtain ⟨digits, last, rfl, hdigits, -⟩ := h
  rcases List.prefix_concat_iff.mp hpart with heq | hshort
  · exact absurd heq hne
  · exact fun b hb => hdigits b (hshort.subset hb)

theorem delimits_word : Delimits word := by
  intro c n c' h
  unfold word at h
  split at h
  · rename_i value used hdecode
    cases h
    obtain ⟨numeral, rest, hrest, rfl, hnumeral, hwhatever⟩ := Uleb.decodeFrom_numeral hdecode
    refine ⟨numeral, by simp [Cursor.skip, hrest], ?_, ?_⟩
    · intro position rest'
      simp only [word, Uleb.decode, hwhatever rest', Cursor.skip, List.drop_left]
    · intro part hpart hne position
      have hnone := Uleb.decodeFrom_unfinished (unfinished_of_cut hnumeral hpart hne) 0
      refine ⟨position, .badNumber, ⟨position, part⟩, ?_⟩
      simp only [word, Uleb.decode, hnone]
      rfl
  · cases h

/-- A name that is read stands in front with the zero byte that closes it. -/
theorem rest_of_name {c c' : Cursor} {s : String} (h : name c = .ok s c') :
    c.rest = Image.encodeName s ++ c'.rest := by
  simp only [name] at h
  split at h
  · cases h
  rename_i hlength
  split at h
  · rename_i hutf
    cases h
    have hsplit := List.takeWhile_append_dropWhile (p := (· != 0)) (l := c.rest)
    generalize c.rest.takeWhile (· != 0) = bytes at *
    cases hclosing : c.rest.dropWhile (· != 0) with
    | nil =>
      rw [hclosing, List.append_nil] at hsplit
      exact absurd (congrArg List.length hsplit) hlength
    | cons z after =>
      have hzero : z = 0 := by
        simpa [hclosing] using List.head?_dropWhile_not (· != 0) c.rest
      rw [Image.encodeName, Text.utf8_of_ofUtf8? hutf, Cursor.skip, ← hsplit, hclosing, hzero]
      simp
  · cases h

/-- Without the zero byte that closes it, a name does not end. -/
theorem takes_name {s : String} (hs : '\x00' ∉ s.toList) : Takes name (Image.encodeName s) s := by
  constructor
  · exact reads_name hs
  · intro part hpart hne position
    have hshort : part <+: Text.utf8 s := by
      rcases List.prefix_concat_iff.mp hpart with heq | hshort
      · exact absurd heq hne
      · exact hshort
    have hopen : ∀ b ∈ part, (b != 0) = true := by
      intro b hb
      have hzero : b ≠ 0 := by
        rintro rfl
        exact hs ((Text.zero_mem_utf8_iff s).mp (hshort.subset hb))
      simpa using hzero
    have hall : part.takeWhile (· != 0) = part := List.takeWhile_eq_self_iff.mpr hopen
    refine ⟨position, .unterminatedName, ⟨position, part⟩, ?_⟩
    simp only [name, hall]
    rfl

theorem delimits_name : Delimits name := by
  intro c s c' h
  exact ⟨Image.encodeName s, rest_of_name h, takes_name (yields_name h)⟩

/-- Tags that are read stand in front. -/
theorem rest_of_tagsFrom {bytes : List UInt8} {position : Nat} {types : List Tag} {c : Cursor}
    (h : tagsFrom position bytes = .ok types c) : bytes = types ++ c.rest := by
  induction bytes generalizing position types with
  | nil => cases h
  | cons t rest ih =>
    simp only [tagsFrom] at h
    split at h
    · cases h
    split at h
    · split at h
      · rename_i others _ hothers
        cases h
        rw [List.cons_append, ← ih hothers]
      · cases h
    · cases h
      rfl

/-- Wrapper tags ask for another tag. -/
theorem tagsFrom_of_wrappers {wrappers : List Tag}
    (h : ∀ t ∈ wrappers, t ∈ [Tag.array, Tag.ref, Tag.const]) (position : Nat) :
    ∃ offset c, tagsFrom position wrappers = .error (.malformed offset .endOfInput) c := by
  induction wrappers generalizing position with
  | nil => exact ⟨position, _, rfl⟩
  | cons t others ih =>
    have hwrapper : Tag.isKnown t = true ∧ Tag.isWrapper t = true := by
      have ht := h t List.mem_cons_self
      simp only [List.mem_cons, List.not_mem_nil, or_false] at ht
      rcases ht with rfl | rfl | rfl <;> decide
    obtain ⟨offset, c, hothers⟩ := ih (fun u hu => h u (List.mem_cons_of_mem t hu)) (position + 1)
    refine ⟨offset, c, ?_⟩
    simp [tagsFrom, hwrapper.1, hwrapper.2, hothers]

theorem takes_tags {types : List Tag} (h : Tag.IsComplete types) : Takes tags types types := by
  constructor
  · exact reads_tags h
  · intro part hpart hne position
    obtain ⟨wrappers, last, rfl, hwrappers, -⟩ := h
    have hshort : part <+: wrappers := by
      rcases List.prefix_concat_iff.mp hpart with heq | hshort
      · exact absurd heq hne
      · exact hshort
    obtain ⟨offset, c, hstarved⟩ :=
      tagsFrom_of_wrappers (fun t ht => hwrappers t (hshort.subset ht)) position
    exact ⟨offset, _, c, hstarved⟩

theorem delimits_tags : Delimits tags := by
  intro c types c' h
  exact ⟨types, rest_of_tagsFrom h, takes_tags (isComplete_of_tagsFrom h)⟩

end Basic

section Repetition

variable {item : Read α}

/-- Items in a row take their bytes in a row. -/
theorem takes_times {chunks : List (List UInt8)} {items : List α}
    (h : List.Forall₂ (Takes item) chunks items) :
    Takes (times item items.length) chunks.flatten items := by
  induction h with
  | nil => exact takes_pure []
  | @cons chunk first chunks others hfirst _ ih =>
    have hrest : Takes (times item others.length >>= fun others => pure (first :: others))
        (chunks.flatten ++ []) (first :: others) := ih.bind (takes_pure (first :: others))
    rw [List.append_nil] at hrest
    exact hfirst.bind hrest

theorem delimits_times (hitem : Delimits item) (n : Nat) : Delimits (times item n) := by
  induction n with
  | zero => exact delimits_pure []
  | succ n ih => exact hitem.bind fun _ => ih.bind fun _ => delimits_pure _

theorem delimits_counted (hitem : Delimits item) : Delimits (counted item) :=
  delimits_word.bind fun count => delimits_times hitem count.toNat

end Repetition

section Sections

theorem delimits_text : Delimits text := by
  apply delimits_word.bind
  intro length
  apply (delimits_take length.toNat).bind
  intro raw
  dsimp only
  split
  · exact delimits_pure _
  · exact delimits_flawed _

theorem delimits_constant : Delimits constant := by
  have hword : Delimits fixedWord := (delimits_take 8).bind fun _ => delimits_pure _
  apply delimits_byte.bind
  intro t
  repeat' split
  · exact delimits_byte.bind fun _ => delimits_pure _
  · exact hword.bind fun _ => delimits_pure _
  · exact hword.bind fun _ => delimits_pure _
  · exact hword.bind fun _ => delimits_pure _
  · exact delimits_text.bind fun _ => delimits_pure _
  · exact delimits_throw _

theorem delimits_instruction : Delimits instruction := by
  apply delimits_byte.bind
  intro code
  split
  · exact delimits_throw _
  · split
    · exact (delimits_times delimits_word _).bind fun _ => delimits_pure _
    · exact (delimits_times delimits_word _).bind fun _ =>
        (delimits_times delimits_word _).bind fun _ => delimits_pure _

theorem delimits_functionRest (name : String) (variadic : Bool) :
    Delimits (functionRest name variadic) := by
  have hcode : ∀ params : List UInt64, Delimits (do
      let code ← counted instruction
      pure (⟨name, variadic, params, code.toArray⟩ : Function)) :=
    fun _ => (delimits_counted delimits_instruction).bind fun _ => delimits_pure _
  apply (delimits_counted delimits_word).bind
  intro params
  dsimp only
  split
  · exact (delimits_flawed _).bind fun _ => hcode params
  · exact hcode params

/-- Where there are no bytes, there is no rest of a method. -/
theorem functionRest_nil (name : String) (variadic : Bool) : Starves (functionRest name variadic) [] :=
  fun position => ⟨position, .badNumber, ⟨position, []⟩, rfl⟩

/-- What follows the name of a method: the byte after it tells whether the method is variadic. -/
def marked (name : String) : Read Function := do
  let next ← peek
  if next == some Image.variadicMarker then
    let _ ← byte
    functionRest name (next == some Image.variadicMarker)
  else functionRest name (next == some Image.variadicMarker)

/-- If the marker comes next, it is taken. -/
theorem marked_of_marker (name : String) (position : Nat) (rest : List UInt8) :
    marked name ⟨position, Image.variadicMarker :: rest⟩ =
      functionRest name true ⟨position + 1, rest⟩ := rfl

/-- If anything else comes next, or nothing, no byte is taken. -/
theorem marked_of_plain (name : String) {c : Cursor}
    (h : c.rest.head? ≠ some Image.variadicMarker) :
    marked name c = functionRest name false c := by
  have hpeek : peek c = .ok c.rest.head? c := rfl
  have hplain : (c.rest.head? == some Image.variadicMarker) = false := by simpa using h
  unfold marked
  rw [Action.bind_of_ok hpeek, hplain]
  rfl

/-- The rest of a variadic method, with the marker in front of it. -/
theorem takes_marked_of_marker {name : String} {used : List UInt8} {f : Function}
    (h : Takes (functionRest name true) used f) :
    Takes (marked name) (Image.variadicMarker :: used) f := by
  constructor
  · intro position rest
    rw [List.cons_append, marked_of_marker, h.reads, List.length_cons]
    congr 2
    omega
  · intro part hpart hne
    cases part with
    | nil =>
      intro position
      rw [marked_of_plain name (by simp)]
      exact functionRest_nil name false position
    | cons b others =>
      obtain ⟨rfl, hothers⟩ := List.cons_prefix_cons.mp hpart
      intro position
      rw [marked_of_marker]
      exact h.starves others hothers (fun heq => hne (by rw [heq])) (position + 1)

/-- The rest of a method that is not variadic is never empty. -/
theorem ne_nil_of_takes_functionRest {name : String} {used : List UInt8} {f : Function}
    (h : Takes (functionRest name false) used f) : used ≠ [] := by
  rintro rfl
  obtain ⟨offset, flaw, c, hstarved⟩ := functionRest_nil name false 0
  have hread := h.reads 0 []
  rw [List.append_nil, hstarved] at hread
  cases hread

/-- The rest of a method that is not variadic, which must not begin with the marker. -/
theorem takes_marked_of_plain {name : String} {used : List UInt8} {f : Function}
    (h : Takes (functionRest name false) used f)
    (hmarker : used.head? ≠ some Image.variadicMarker) : Takes (marked name) used f := by
  obtain ⟨b, others, rfl⟩ := List.exists_cons_of_ne_nil (ne_nil_of_takes_functionRest h)
  constructor
  · intro position rest
    rw [marked_of_plain name hmarker]
    exact h.reads position rest
  · intro part hpart hne position
    have hhead : part.head? ≠ some Image.variadicMarker := by
      intro hhead
      obtain ⟨front, rfl⟩ := List.head?_eq_some_iff.mp hhead
      obtain ⟨more, hmore⟩ := hpart
      exact hmarker (by rw [← hmore]; rfl)
    rw [marked_of_plain name hhead]
    exact h.starves part hpart hne position

/-- Looking ahead for the marker sees a byte that is taken in any case. -/
theorem delimits_marked (name : String) : Delimits (marked name) := by
  rintro ⟨position, bytes⟩ f c' h
  by_cases hmarker : bytes.head? = some Image.variadicMarker
  · obtain ⟨rest, rfl⟩ := List.head?_eq_some_iff.mp hmarker
    rw [marked_of_marker] at h
    obtain ⟨used, hused, htakes⟩ := delimits_functionRest name true h
    dsimp only at hused
    exact ⟨Image.variadicMarker :: used, by rw [hused, List.cons_append],
      takes_marked_of_marker htakes⟩
  · rw [marked_of_plain name hmarker] at h
    obtain ⟨used, hused, htakes⟩ := delimits_functionRest name false h
    dsimp only at hused
    refine ⟨used, hused, takes_marked_of_plain htakes ?_⟩
    intro hhead
    obtain ⟨others, rfl⟩ := List.head?_eq_some_iff.mp hhead
    exact hmarker (by rw [hused]; rfl)

theorem delimits_function : Delimits function :=
  delimits_name.bind fun raw => delimits_marked (methodName raw)

theorem delimits_member : Delimits member :=
  delimits_name.bind fun _ => delimits_tags.bind fun _ => delimits_pure _

theorem delimits_classDecl : Delimits classDecl :=
  delimits_name.bind fun _ => (delimits_counted delimits_member).bind fun _ =>
    (delimits_counted delimits_function).bind fun _ => delimits_pure _

theorem delimits_header : Delimits header := by
  have hversion : Delimits (do
      let version ← take 4
      if version ≠ Image.version then throw (.unsupportedVersion version) : Read Unit) := by
    apply (delimits_take 4).bind
    intro version
    split
    · exact delimits_throw _
    · exact delimits_pure _
  apply (delimits_take 4).bind
  intro magic
  dsimp only
  split
  · exact (delimits_throw _).bind fun _ => hversion
  · exact hversion

end Sections

section Whole

/-- All that stands before the classes of a module, as a module without classes. -/
def preamble : Read Image := do
  header
  let constants ← counted constant
  let heap ← counted tags
  pure ⟨constants.toArray, heap, []⟩

/-- A module up to the end of its first classes. -/
def upTo (count : Nat) : Read Image := do
  let m ← preamble
  let first ← times classDecl count
  pure { m with classes := first }

/-- A module is what stands before its classes, and the classes up to the end. -/
theorem image_eq : image = (do
    let m ← preamble
    let all ← classes (← get).rest.length
    pure { m with classes := all }) := by
  unfold image preamble
  simp only [bind_assoc, pure_bind]

theorem delimits_preamble : Delimits preamble :=
  delimits_header.bind fun _ => (delimits_counted delimits_constant).bind fun _ =>
    (delimits_counted delimits_tags).bind fun _ => delimits_pure _

/-- A class takes at least one byte. -/
theorem Takes.classDecl_ne_nil {bytes : List UInt8} {cls : ClassDecl}
    (h : Takes classDecl bytes cls) : bytes ≠ [] := by
  rintro rfl
  cases h.reads 0 []

/-- Classes are read up to the end of the input, one after the other. -/
theorem classes_chunks {n : Nat} {c c' : Cursor} {all : List ClassDecl}
    (h : classes n c = .ok all c') (hn : c.rest.length ≤ n) :
    ∃ chunks, c.rest = chunks.flatten ∧ c'.rest = [] ∧
      List.Forall₂ (Takes classDecl) chunks all := by
  induction n generalizing c all with
  | zero =>
    have hend : c.rest = [] := List.length_eq_zero_iff.mp (by omega)
    cases h
    exact ⟨[], hend, hend, .nil⟩
  | succ n ih =>
    obtain ⟨_, _, hget, h⟩ := Action.bind_eq_ok_iff.mp h
    cases hget
    split at h
    · rename_i hend
      cases h
      exact ⟨[], List.isEmpty_iff.mp hend, List.isEmpty_iff.mp hend, .nil⟩
    · obtain ⟨first, c₁, hfirst, h⟩ := Action.bind_eq_ok_iff.mp h
      obtain ⟨others, c₂, hothers, h⟩ := Action.bind_eq_ok_iff.mp h
      cases h
      obtain ⟨chunk, hchunk, htakes⟩ := delimits_classDecl hfirst
      have hlength : c₁.rest.length ≤ n := by
        have hpos := List.length_pos_iff.mpr htakes.classDecl_ne_nil
        have hsum := congrArg List.length hchunk
        rw [List.length_append] at hsum
        omega
      obtain ⟨chunks, hchunks, hend, hall⟩ := ih hothers hlength
      refine ⟨chunk :: chunks, ?_, hend, .cons htakes hall⟩
      rw [hchunk, hchunks, List.flatten_cons]

/-- What stands before the classes has none. -/
theorem yields_preamble : Yields preamble fun m => m.classes = [] := by
  refine (yields_true header).bind fun _ _ => ?_
  refine (yields_true (counted constant)).bind fun constants _ => ?_
  refine (yields_true (counted tags)).bind fun heap _ => ?_
  exact yields_pure rfl

/-- A module is read up to the end of the input. It stands there in pieces: what comes before its
classes, and each class. -/
theorem image_chunks {c c' : Cursor} {m : Image} (h : image c = .ok m c') :
    ∃ before chunks, c.rest = before ++ List.flatten chunks ∧ c'.rest = [] ∧
      Takes preamble before { m with classes := [] } ∧
      List.Forall₂ (Takes classDecl) chunks m.classes := by
  rw [image_eq] at h
  obtain ⟨m₀, c₁, hm₀, h⟩ := Action.bind_eq_ok_iff.mp h
  obtain ⟨_, _, hget, h⟩ := Action.bind_eq_ok_iff.mp h
  cases hget
  obtain ⟨all, c₂, hall, h⟩ := Action.bind_eq_ok_iff.mp h
  cases h
  obtain ⟨before, hbefore, htakes⟩ := delimits_preamble hm₀
  obtain ⟨chunks, hchunks, hend, hclasses⟩ := classes_chunks hall (le_refl _)
  have hnone : m₀ = { m₀ with classes := [] } := by rw [← yields_preamble hm₀]
  exact ⟨before, chunks, by rw [hbefore, hchunks], hend, hnone ▸ htakes, hclasses⟩

/-- As long as there are bytes, another class is read. -/
theorem classes_succ (n position : Nat) {bytes : List UInt8} (h : bytes ≠ []) :
    classes (n + 1) ⟨position, bytes⟩ = (do
      let first ← classDecl
      let others ← classes n
      pure (first :: others)) ⟨position, bytes⟩ := by
  have hget : (get : Read Cursor) ⟨position, bytes⟩ = .ok ⟨position, bytes⟩ ⟨position, bytes⟩ := rfl
  have hmore : (Cursor.mk position bytes).atEnd = false := by
    simpa [Cursor.atEnd] using h
  rw [classes, Action.bind_of_ok hget, hmore]
  rfl

/-- Where a class is cut off, the classes are malformed. -/
theorem classes_of_starves {bytes : List UInt8} (h : Starves classDecl bytes) (n position : Nat)
    (hne : bytes ≠ []) :
    ∃ offset flaw c, classes (n + 1) ⟨position, bytes⟩ = .error (.malformed offset flaw) c := by
  obtain ⟨offset, flaw, c, hfirst⟩ := h position
  exact ⟨offset, flaw, c, by rw [classes_succ n position hne, Action.bind_of_error hfirst]⟩

/-- Classes that are cut off between two of them are read up to there; cut off anywhere else, they
are malformed. -/
theorem classes_of_cut {chunks : List (List UInt8)} {all : List ClassDecl}
    (h : List.Forall₂ (Takes classDecl) chunks all) {part : List UInt8}
    (hpart : part <+: chunks.flatten) {n : Nat} (hn : part.length ≤ n) (position : Nat) :
    (∃ count ≤ all.length, part = (chunks.take count).flatten ∧
      ∃ c, classes n ⟨position, part⟩ = .ok (all.take count) c) ∨
    ((∀ count, part ≠ (chunks.take count).flatten) ∧
      ∃ offset flaw c, classes n ⟨position, part⟩ = .error (.malformed offset flaw) c) := by
  -- what is left after a class that was read is cut off from the classes behind it
  induction h generalizing part n position with
  | nil =>
    have hnil : part = [] := List.prefix_nil.mp hpart
    subst hnil
    exact .inl ⟨0, Nat.zero_le _, rfl, ⟨position, []⟩, by cases n <;> rfl⟩
  | @cons chunk first chunks others hfirst _ ih =>
    by_cases hnil : part = []
    · subst hnil
      exact .inl ⟨0, Nat.zero_le _, rfl, ⟨position, []⟩, by cases n <;> rfl⟩
    have hpos := List.length_pos_iff.mpr hnil
    obtain ⟨n, rfl⟩ : ∃ k, n = k + 1 := ⟨n - 1, by omega⟩
    rcases prefix_append_cases hpart with ⟨hshort, hless⟩ | ⟨more, rfl, hmore⟩
    · refine .inr ⟨?_, classes_of_starves (hfirst.starves part hshort hless) n position hnil⟩
      rintro (_ | count) heq
      · exact hnil heq
      · have hlength := hshort.length_le
        have hsum := congrArg List.length heq
        rw [List.take_succ_cons, List.flatten_cons, List.length_append] at hsum
        exact hless (hshort.eq_of_length (by omega))
    · have hlength : more.length ≤ n := by
        have hsome := List.length_pos_iff.mpr hfirst.classDecl_ne_nil
        rw [List.length_append] at hn
        omega
      rw [classes_succ n position hnil, Action.bind_of_ok (hfirst.reads position more)]
      rcases ih hmore hlength (position + chunk.length) with
        ⟨count, hcount, hcut, c, hothers⟩ | ⟨hcut, offset, flaw, c, hothers⟩
      · refine .inl ⟨count + 1, Nat.succ_le_succ hcount, ?_, c, ?_⟩
        · rw [List.take_succ_cons, List.flatten_cons, hcut]
        · rw [Action.bind_of_ok hothers]
          rfl
      · refine .inr ⟨?_, offset, flaw, c, Action.bind_of_error hothers⟩
        rintro (_ | count) heq
        · exact hnil heq
        · exact hcut count (List.append_cancel_left heq)

/-- A module up to the end of its first classes takes what stands before the classes, and these. -/
theorem takes_upTo {before : List UInt8} {chunks : List (List UInt8)} {m : Image}
    (hbefore : Takes preamble before { m with classes := [] })
    (hclasses : List.Forall₂ (Takes classDecl) chunks m.classes) {count : Nat}
    (hcount : count ≤ m.classes.length) :
    Takes (upTo count) (before ++ (chunks.take count).flatten)
      { m with classes := m.classes.take count } := by
  have hfirst : Takes (times classDecl count) (chunks.take count).flatten
      (m.classes.take count) := by
    have htimes := takes_times (List.forall₂_take count hclasses)
    rwa [List.length_take_of_le hcount] at htimes
  have hrest : Takes (times classDecl count >>= fun first => pure { m with classes := first })
      ((chunks.take count).flatten ++ []) { m with classes := m.classes.take count } :=
    hfirst.bind (takes_pure _)
  rw [List.append_nil] at hrest
  exact hbefore.bind hrest

end Whole

end Read

namespace Image

/-- Where the first classes of a module end, counted in bytes. The first none of them end where the
heap template ends. -/
def endOf (bytes : List UInt8) (count : Nat) : Option Nat :=
  match Read.upTo count (Cursor.ofBytes bytes) with
  | .ok _ c => some c.position
  | .error _ _ => none

section Pieces

variable {before : List UInt8} {chunks : List (List UInt8)} {m : Image}

/-- The first classes end where their bytes end. -/
theorem endOf_eq (hbefore : Read.Takes Read.preamble before { m with classes := [] })
    (hclasses : List.Forall₂ (Read.Takes Read.classDecl) chunks m.classes) {count : Nat}
    (hcount : count ≤ m.classes.length) :
    endOf (before ++ chunks.flatten) count =
      some (before ++ (chunks.take count).flatten).length := by
  have hread := (Read.takes_upTo hbefore hclasses hcount).reads 0 (chunks.drop count).flatten
  have hsplit : chunks.flatten = (chunks.take count).flatten ++ (chunks.drop count).flatten := by
    rw [← List.flatten_append, List.take_append_drop]
  rw [List.append_assoc, ← hsplit, Nat.zero_add] at hread
  simp only [endOf, Cursor.ofBytes, hread]

/-- More classes end further on, since no class is empty. -/
theorem length_flatten_take_lt {all : List ClassDecl}
    (hclasses : List.Forall₂ (Read.Takes Read.classDecl) chunks all) {i j : Nat} (hij : i < j)
    (hj : j ≤ all.length) :
    (chunks.take i).flatten.length < (chunks.take j).flatten.length := by
  induction hclasses generalizing i j with
  | nil =>
    rw [List.length_nil] at hj
    omega
  | @cons chunk first chunks others hfirst _ ih =>
    obtain ⟨j, rfl⟩ : ∃ k, j = k + 1 := ⟨j - 1, by omega⟩
    rw [List.take_succ_cons, List.flatten_cons, List.length_append]
    cases i with
    | zero =>
      have hpos := List.length_pos_iff.mpr hfirst.classDecl_ne_nil
      rw [List.take_zero, List.flatten_nil, List.length_nil]
      omega
    | succ i =>
      have hless := ih (Nat.lt_of_succ_lt_succ hij) (Nat.le_of_succ_le_succ hj)
      rw [List.take_succ_cons, List.flatten_cons, List.length_append]
      omega

/-- A part of the input that breaks off between two classes holds the classes up to there; one that
breaks off anywhere else is malformed. -/
theorem decode_of_cut (hbefore : Read.Takes Read.preamble before { m with classes := [] })
    (hclasses : List.Forall₂ (Read.Takes Read.classDecl) chunks m.classes) {part : List UInt8}
    (hpart : part <+: before ++ chunks.flatten) :
    (∃ count ≤ m.classes.length, part = before ++ (chunks.take count).flatten ∧
      decode part = .ok { m with classes := m.classes.take count }) ∨
    ((∀ count, part ≠ before ++ (chunks.take count).flatten) ∧
      ∃ offset flaw, decode part = .error (.malformed offset flaw)) := by
  rcases Read.prefix_append_cases hpart with ⟨hshort, hless⟩ | ⟨more, rfl, hmore⟩
  · obtain ⟨offset, flaw, c, hstarved⟩ := hbefore.starves part hshort hless 0
    refine .inr ⟨?_, offset, flaw, ?_⟩
    · intro count heq
      have hlength := hshort.length_le
      have hsum := congrArg List.length heq
      rw [List.length_append] at hsum
      exact hless (hshort.eq_of_length (by omega))
    · rw [decode, Read.image_eq, Cursor.ofBytes, Action.bind_of_error hstarved]
  · have hread : Read.image (Cursor.ofBytes (before ++ more)) =
        (do
          let all ← Read.classes more.length
          pure { m with classes := all }) ⟨0 + before.length, more⟩ := by
      rw [Read.image_eq, Cursor.ofBytes, Action.bind_of_ok (hbefore.reads 0 more)]
      rfl
    rcases Read.classes_of_cut hclasses hmore (le_refl _) (0 + before.length) with
      ⟨count, hcount, hcut, c, hothers⟩ | ⟨hcut, offset, flaw, c, hothers⟩
    · rw [Action.bind_of_ok hothers] at hread
      exact .inl ⟨count, hcount, by rw [hcut], by simp only [decode, hread]; rfl⟩
    · rw [Action.bind_of_error hothers] at hread
      refine .inr ⟨fun count heq => hcut count (List.append_cancel_left heq), offset, flaw, ?_⟩
      simp only [decode, hread]

end Pieces

/-- A module that is cut off is malformed, unless the cut falls where the heap template or one of the
classes ends. Then it is read, and has the classes that lie wholly before the cut. -/
theorem decode_truncated {bytes part : List UInt8} {m : Image} (h : decode bytes = .ok m)
    (hpart : part <+: bytes) (hne : part ≠ bytes) :
    (∃ count < m.classes.length, endOf bytes count = some part.length ∧
      (∀ i < m.classes.length, ∃ e, endOf bytes (i + 1) = some e ∧ (e ≤ part.length ↔ i < count)) ∧
      decode part = .ok { m with classes := m.classes.take count }) ∨
    ((∀ count ≤ m.classes.length, ∃ e, endOf bytes count = some e ∧ e ≠ part.length) ∧
      ∃ offset flaw, decode part = .error (.malformed offset flaw)) := by
  obtain ⟨c, himage⟩ := decode_eq_ok_iff.mp h
  obtain ⟨before, chunks, hbytes, -, hbefore, hclasses⟩ := Read.image_chunks himage
  obtain rfl : bytes = before ++ chunks.flatten := hbytes
  have hends {count : Nat} (hcount : count ≤ m.classes.length) :=
    endOf_eq hbefore hclasses hcount
  rcases decode_of_cut hbefore hclasses hpart with
    ⟨count, hcount, rfl, hdecode⟩ | ⟨hcut, hdecode⟩
  · have hless : count < m.classes.length := by
      by_contra hall
      have hfull : chunks.length ≤ count := by rw [hclasses.length_eq]; omega
      exact hne (by rw [List.take_of_length_le hfull])
    refine .inl ⟨count, hless, hends hcount, ?_, hdecode⟩
    intro i hi
    refine ⟨_, hends (Nat.succ_le_of_lt hi), ?_⟩
    rw [List.length_append, List.length_append]
    constructor
    · intro hle
      by_contra hbehind
      have hlt := length_flatten_take_lt hclasses (i := count) (j := i + 1) (by omega) hi
      omega
    · intro hinside
      have hreach : (chunks.take (i + 1)).flatten.length ≤ (chunks.take count).flatten.length :=
        (List.take_prefix_take_left hinside).flatten.length_le
      omega
  · refine .inr ⟨?_, hdecode⟩
    intro count hcount
    refine ⟨_, hends hcount, ?_⟩
    intro hlength
    have hsame : part = before ++ (chunks.take count).flatten := by
      have htake : before ++ (chunks.take count).flatten <+: before ++ chunks.flatten := by
        apply (List.prefix_append_right_inj before).mpr
        exact (List.take_prefix count chunks).flatten
      exact (List.prefix_of_prefix_length_le hpart htake hlength.ge).eq_of_length hlength.symm
    exact hcut count hsame

/-- A module of two classes without members and methods. -/
def twoClasses : List UInt8 :=
  magic ++ version ++ [0, 1, Tag.long] ++ [0x41, 0, 0, 0] ++ [0x42, 0, 0, 0]

/-- Cut off behind the first class, it has lost the second one; a byte later, it is malformed. -/
theorem decode_twoClasses_truncated :
    (∃ count < 2, endOf twoClasses count = some 15 ∧
      (∀ i < 2, ∃ e, endOf twoClasses (i + 1) = some e ∧ (e ≤ 15 ↔ i < count)) ∧
      decode (twoClasses.take 15) =
        .ok ⟨#[], [[Tag.long]], List.take count [⟨"A", [], []⟩, ⟨"B", [], []⟩]⟩) ∧
    ∃ offset flaw, decode (twoClasses.take 16) = .error (.malformed offset flaw) := by
  have hdecode : decode twoClasses =
      .ok ⟨#[], [[Tag.long]], [⟨"A", [], []⟩, ⟨"B", [], []⟩]⟩ := by decide +kernel
  have hnone : endOf twoClasses 0 = some 11 := by decide +kernel
  have hone : endOf twoClasses 1 = some 15 := by decide +kernel
  constructor
  · rcases decode_truncated hdecode (List.take_prefix 15 _) (by decide) with hcut | ⟨hends, -⟩
    · exact hcut
    · obtain ⟨e, he, hne⟩ := hends 1 (by decide)
      rw [hone] at he
      cases he
      exact absurd rfl hne
  · rcases decode_truncated hdecode (List.take_prefix 16 _) (by decide) with
      ⟨count, hcount, hend, -⟩ | ⟨-, hmalformed⟩
    · obtain rfl | rfl : count = 0 ∨ count = 1 := Nat.le_one_iff_eq_zero_or_eq_one.mp
        (Nat.le_of_lt_succ hcount)
      · rw [hnone] at hend
        cases hend
      · rw [hone] at hend
        cases hend
    · exact hmalformed

end Image

end SlotMachine
