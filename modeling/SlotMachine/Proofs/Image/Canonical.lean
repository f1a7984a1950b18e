import SlotMachine.Proofs.Image.Numeral
import SlotMachine.Proofs.Image.Spelling
import SlotMachine.Proofs.Image.Truncation

/-!
# Canonical modules

Encoding undoes decoding exactly on modules whose spelling is canonical. Where the spelling of a part
is not, what is written for that part clashes with what was read: the two differ at a place that both
of them have. No part that comes later can make up for it, so a single such part is enough for the
whole modules to differ.
-/

namespace SlotMachine

/-- The bytes differ at a place that both have. -/
def Clash (u v : List UInt8) : Prop :=
  ∃ common a b u' v', a ≠ b ∧ u = common ++ a :: u' ∧ v = common ++ b :: v'

namespace Clash

variable {u v : List UInt8}

theorem ne (h : Clash u v) : u ≠ v := by
  obtain ⟨common, a, b, u', v', hne, rfl, rfl⟩ := h
  intro heq
  exact hne (List.cons.inj (List.append_cancel_left heq)).1

/-- Whatever comes later, the bytes differ. -/
theorem append (h : Clash u v) (u' v' : List UInt8) : Clash (u ++ u') (v ++ v') := by
  obtain ⟨common, a, b, u₁, v₁, hne, rfl, rfl⟩ := h
  exact ⟨common, a, b, u₁ ++ u', v₁ ++ v', hne, by simp, by simp⟩

/-- If the same bytes come before, the bytes differ. -/
theorem prepend (h : Clash u v) (w : List UInt8) : Clash (w ++ u) (w ++ v) := by
  obtain ⟨common, a, b, u', v', hne, rfl, rfl⟩ := h
  exact ⟨w ++ common, a, b, u', v', hne, by simp, by simp⟩

end Clash

/-- Only the last byte ends the piece. -/
def Closed (ends : UInt8 → Prop) (bytes : List UInt8) : Prop :=
  ∃ body last, bytes = body ++ [last] ∧ (∀ b ∈ body, ¬ ends b) ∧ ends last

/-- Two closed pieces that are not the same clash: neither can go on where the other one ends. -/
theorem Closed.clash {ends : UInt8 → Prop} {u v : List UInt8} (hu : Closed ends u)
    (hv : Closed ends v) (hne : u ≠ v) : Clash u v := by
  obtain ⟨body, last, rfl, hbody, hlast⟩ := hu
  obtain ⟨body', last', rfl, hbody', hlast'⟩ := hv
  induction body generalizing body' with
  | nil =>
    cases body' with
    | nil => exact ⟨[], last, last', [], [], fun heq => hne (by rw [heq]), rfl, rfl⟩
    | cons b others =>
      have hdiffer : last ≠ b := fun heq => hbody' b List.mem_cons_self (heq ▸ hlast)
      exact ⟨[], last, b, [], others ++ [last'], hdiffer, rfl, rfl⟩
  | cons a others ih =>
    cases body' with
    | nil =>
      have hdiffer : a ≠ last' := fun heq => hbody a List.mem_cons_self (heq ▸ hlast')
      exact ⟨[], a, last', others ++ [last], [], hdiffer, rfl, rfl⟩
    | cons b others' =>
      by_cases hab : a = b
      · subst hab
        have hrest : Clash (others ++ [last]) (others' ++ [last']) :=
          ih (fun d hd => hbody d (List.mem_cons_of_mem a hd)) others'
            (fun heq => hne (by rw [List.cons_append, List.cons_append, heq]))
            (fun d hd => hbody' d (List.mem_cons_of_mem a hd))
        exact hrest.prepend [a]
      · exact ⟨[], a, b, others ++ [last], others' ++ [last'], hab, rfl, rfl⟩

namespace Uleb

/-- A numeral ends with the first byte that does not ask for another one. -/
theorem IsNumeral.closed {bytes : List UInt8} (h : IsNumeral bytes) :
    Closed (fun b => b.toNat < 128) bytes := by
  obtain ⟨digits, last, rfl, hdigits, hlast⟩ := h
  exact ⟨digits, last, rfl, fun b hb => Nat.not_lt.mpr (hdigits b hb), hlast⟩

end Uleb

namespace Spell

variable {α β : Type}

/-- What is written for a part is what was read if the spelling is canonical; otherwise the two
clash. -/
def Settles (notes : List Spelling) (written used : List UInt8) : Prop :=
  ((∀ s ∈ notes, s.IsCanonical) ∧ written = used) ∨
    ((∃ s ∈ notes, ¬ s.IsCanonical) ∧ Clash written used)

theorem settles_same (bytes : List UInt8) : Settles [] bytes bytes :=
  .inl ⟨by simp, rfl⟩

theorem settles_canonical {s : Spelling} (h : s.IsCanonical) (bytes : List UInt8) :
    Settles [s] bytes bytes :=
  .inl ⟨fun _ hs => List.mem_singleton.mp hs ▸ h, rfl⟩

/-- Of two parts in a row, the first one that is not canonical decides. -/
theorem Settles.append {notes notes' : List Spelling} {written written' used used' : List UInt8}
    (h : Settles notes written used) (h' : Settles notes' written' used') :
    Settles (notes ++ notes') (written ++ written') (used ++ used') := by
  rcases h with ⟨hall, rfl⟩ | ⟨⟨s, hs, hodd⟩, hclash⟩
  · rcases h' with ⟨hall', rfl⟩ | ⟨⟨s, hs, hodd⟩, hclash⟩
    · refine .inl ⟨?_, rfl⟩
      intro s hs
      rcases List.mem_append.mp hs with hs | hs
      · exact hall s hs
      · exact hall' s hs
    · exact .inr ⟨⟨s, List.mem_append_right notes hs, hodd⟩, hclash.prepend written⟩
  · exact .inr ⟨⟨s, List.mem_append_left notes' hs, hodd⟩, hclash.append written' used'⟩

/-- Whatever the spelled reader returns can be written in a way that the notes settle. -/
def Renders (x : Spell α) (Written : α → List UInt8 → Prop) : Prop :=
  ∀ ⦃d a d'⦄, x d = .ok a d' → ∃ used notes written,
    d.cursor.rest = used ++ d'.cursor.rest ∧ d'.notes = d.notes ++ notes ∧
      Written a written ∧ Settles notes written used

section Rules

variable {x : Spell α} {f : α → Spell β} {W W' : α → List UInt8 → Prop}
  {V : β → List UInt8 → Prop}

theorem Renders.mono (hx : Renders x W) (h : ∀ a written, W a written → W' a written) :
    Renders x W' := by
  intro d a d' ha
  obtain ⟨used, notes, written, hused, hnotes, hwritten, hsettles⟩ := hx ha
  exact ⟨used, notes, written, hused, hnotes, h a written hwritten, hsettles⟩

/-- What is written for parts in a row stands in a row. -/
theorem Renders.bind (hx : Renders x W)
    (hf : ∀ a first, W a first → Renders (f a) fun b second => V b (first ++ second)) :
    Renders (x >>= f) V := by
  intro d b d' h
  obtain ⟨a, d₁, ha, hb⟩ := Action.bind_eq_ok_iff.mp h
  obtain ⟨used, notes, written, hused, hnotes, hwritten, hsettles⟩ := hx ha
  obtain ⟨used', notes', written', hused', hnotes', hwritten', hsettles'⟩ := hf a written hwritten hb
  refine ⟨used ++ used', notes ++ notes', written ++ written', ?_, ?_, hwritten',
    hsettles.append hsettles'⟩
  · rw [hused, hused', List.append_assoc]
  · rw [hnotes', hnotes, List.append_assoc]

theorem renders_pure {a : α} (h : W a []) : Renders (pure a) W := by
  intro d b d' hpure
  obtain ⟨rfl, rfl⟩ := Action.pure_eq_ok_iff.mp hpure
  exact ⟨[], [], [], rfl, by simp, h, settles_same []⟩

theorem renders_throw (e : Fault) : Renders (throw e : Spell α) W := by
  intro d a d' h
  cases h

/-- Where no notes are taken, the bytes that were read are written. -/
theorem renders_read {item : Read α}
    (h : ∀ c a c', item c = .ok a c' → ∃ used, c.rest = used ++ c'.rest ∧ W a used) :
    Renders (read item) W := by
  intro d a d' hread
  unfold read at hread
  split at hread
  · rename_i a c hitem
    cases hread
    obtain ⟨used, hused, hwritten⟩ := h d.cursor a c hitem
    exact ⟨used, [], used, hused, by simp, hwritten, settles_same used⟩
  · cases hread

theorem renders_flawed (flaw : Flaw) : Renders (read (Read.flawed flaw) : Spell α) W := by
  intro d a d' h
  cases h

end Rules

section Basic

theorem renders_byte : Renders (read Read.byte) fun b written => written = [b] := by
  apply renders_read
  rintro ⟨position, rest⟩ b c' h
  cases rest with
  | nil => cases h
  | cons first others =>
    cases h
    exact ⟨[b], rfl, rfl⟩

/-- The bytes that are taken are those in front, as many as asked for. -/
theorem rest_of_take {count : Nat} {c c' : Cursor} {bytes : List UInt8}
    (h : Read.take count c = .ok bytes c') : c.rest = bytes ++ c'.rest ∧ bytes.length = count := by
  simp only [Read.take] at h
  split at h
  · rename_i hlength
    cases h
    exact ⟨(List.take_append_drop count c.rest).symm, hlength⟩
  · cases h

theorem renders_name : Renders (read Read.name) fun s written => written = Image.encodeName s :=
  renders_read fun _ s _ h => ⟨Image.encodeName s, Read.rest_of_name h, rfl⟩

theorem renders_tags : Renders (read Read.tags) fun types written => written = id types :=
  renders_read fun _ types _ h => ⟨types, Read.rest_of_tagsFrom h, rfl⟩

/-- A number that is read has a numeral in front, which is noted. -/
theorem numeral_of_word {d d' : Desk} {n : UInt64} (h : word d = .ok n d') :
    ∃ numeral, d.cursor.rest = numeral ++ d'.cursor.rest ∧
      d'.notes = d.notes ++ [.number numeral] ∧ Uleb.IsNumeral numeral ∧
      Uleb.decode numeral = some (n.toNat, numeral.length) := by
  cases hword : Read.word d.cursor with
  | error e c =>
    rw [word_of_error hword] at h
    cases h
  | ok m c =>
    rw [word_of_ok hword] at h
    cases h
    unfold Read.word at hword
    split at hword
    · rename_i value used hdecode
      cases hword
      obtain ⟨numeral, rest, hrest, rfl, hnumeral, hwhatever⟩ := Uleb.decodeFrom_numeral hdecode
      have hvalue : (UInt64.ofNat value).toNat = value := by
        have hlt := Uleb.decode_lt hdecode
        simpa using Nat.mod_eq_of_lt hlt
      have halone := hwhatever []
      rw [List.append_nil] at halone
      refine ⟨numeral, by simp [Cursor.skip, hrest], by simp [Cursor.skip, hrest], hnumeral, ?_⟩
      rw [hvalue]
      exact halone
    · cases hword

/-- A numeral and the encoding of its number are settled by how the numeral is spelled. -/
theorem settles_number {numeral : List UInt8} {n : Nat} (hnumeral : Uleb.IsNumeral numeral)
    (h : Uleb.decode numeral = some (n, numeral.length)) :
    Settles [.number numeral] (Uleb.encode n) numeral := by
  have hiff := Uleb.encode_eq_iff h
  by_cases hcanonical : (Spelling.number numeral).IsCanonical
  · rw [hiff.mpr hcanonical]
    exact settles_canonical hcanonical numeral
  · have hne : Uleb.encode n ≠ numeral := fun heq => hcanonical (hiff.mp heq)
    exact .inr ⟨⟨_, List.mem_singleton_self _, hcanonical⟩,
      (Uleb.isNumeral_encode n).closed.clash hnumeral.closed hne⟩

theorem renders_word : Renders word fun n written => written = Image.encodeWord n := by
  intro d n d' h
  obtain ⟨numeral, hused, hnotes, hnumeral, hdecode⟩ := numeral_of_word h
  exact ⟨numeral, _, _, hused, hnotes, rfl, settles_number hnumeral hdecode⟩

end Basic

section Repetition

variable {item : Spell α} {encodeItem : α → List UInt8}

theorem renders_times (hitem : Renders item fun a written => written = encodeItem a) (n : Nat) :
    Renders (times item n) fun items written =>
      items.length = n ∧ written = items.flatMap encodeItem := by
  induction n with
  | zero => exact renders_pure ⟨rfl, rfl⟩
  | succ n ih =>
    apply hitem.bind
    rintro first _ rfl
    apply ih.bind
    rintro others _ ⟨hlength, rfl⟩
    exact renders_pure ⟨by rw [List.length_cons, hlength], by simp⟩

theorem renders_counted (hitem : Renders item fun a written => written = encodeItem a) :
    Renders (counted item) fun items written => written = Image.encodeCounted encodeItem items := by
  apply renders_word.bind
  rintro count _ rfl
  apply (renders_times hitem count.toNat).mono
  rintro items _ ⟨hlength, rfl⟩
  simp only [Image.encodeCounted, Image.encodeWord, hlength]

end Repetition

section Sections

/-- Equally many bytes that accumulate to the same number in base 256 are the same. -/
theorem eq_of_foldl_eq {u v : List UInt8} (hlength : u.length = v.length) {n k : Nat}
    (h : u.foldl (fun n b => n * 256 + b.toNat) n = v.foldl (fun n b => n * 256 + b.toNat) k) :
    n = k ∧ u = v := by
  induction u generalizing v n k with
  | nil =>
    obtain rfl : v = [] := List.length_eq_zero_iff.mp hlength.symm
    exact ⟨h, rfl⟩
  | cons a u ih =>
    cases v with
    | nil => cases hlength
    | cons b v =>
      obtain ⟨hsum, rfl⟩ := ih (Nat.succ.inj hlength) h
      dsimp only at hsum
      have ha := a.toNat_lt
      have hb := b.toNat_lt
      have hdigit : a = b := UInt8.toNat_inj.mp (by omega)
      exact ⟨by omega, by rw [hdigit]⟩

/-- Eight bytes are the bytes of the number they denote. -/
theorem bigEndian_of_length {bytes : List UInt8} (h : bytes.length = 8) :
    Image.bigEndian (Read.bigEndian bytes) = bytes := by
  have hlength : (Image.bigEndian (Read.bigEndian bytes)).length = bytes.length := by rw [h]; rfl
  have hsame := congrArg UInt64.toNat (Read.bigEndian_bigEndian (Read.bigEndian bytes))
  rw [Read.toNat_bigEndian (by omega), Read.toNat_bigEndian (by omega)] at hsame
  exact (eq_of_foldl_eq hlength hsame).2

theorem renders_fixedWord :
    Renders (read Read.fixedWord) fun n written => written = Image.bigEndian n := by
  apply renders_read
  intro c n c' h
  obtain ⟨bytes, c₁, hbytes, h⟩ := Action.bind_eq_ok_iff.mp h
  obtain ⟨rfl, rfl⟩ := Action.pure_eq_ok_iff.mp h
  obtain ⟨hrest, hlength⟩ := rest_of_take hbytes
  exact ⟨bytes, hrest, (bigEndian_of_length hlength).symm⟩

/-- The length and the bytes of a text are settled by how the two are spelled. -/
theorem settles_text {numeral raw : List UInt8} {s : String} (hnumeral : Uleb.IsNumeral numeral)
    (hdecode : Uleb.decode numeral = some (raw.length, numeral.length))
    (hs : Text.ofUtf8? (if raw.getLast? = some 0 then raw.dropLast else raw) = some s) :
    Settles [.number numeral, .text raw]
      (Uleb.encode ((Text.utf8 s).length + 1) ++ Image.encodeName s) (numeral ++ raw) := by
  by_cases hclosed : raw.getLast? = some 0
  · rw [if_pos hclosed] at hs
    have hraw : Image.encodeName s = raw := by
      rw [Image.encodeName, Text.utf8_of_ofUtf8? hs]
      exact List.dropLast_append_getLast? 0 hclosed
    have hlength : (Text.utf8 s).length + 1 = raw.length := by
      rw [← hraw, Image.encodeName, List.length_append]
      rfl
    rw [hlength, hraw]
    have hcanonical : (Spelling.text raw).IsCanonical := hclosed
    exact (settles_number hnumeral hdecode).append (settles_canonical hcanonical raw)
  · -- the length that is written counts the closing byte, the length that was read does not
    rw [if_neg hclosed] at hs
    rw [Text.utf8_of_ofUtf8? hs]
    have hne : Uleb.encode (raw.length + 1) ≠ numeral := by
      intro heq
      rw [← heq] at hdecode
      have hsame := Uleb.eq_of_decode_encode hdecode
      omega
    have hclash := (Uleb.isNumeral_encode (raw.length + 1)).closed.clash hnumeral.closed hne
    exact .inr ⟨⟨.text raw, by simp, hclosed⟩, hclash.append _ _⟩

theorem renders_text : Renders text fun s written =>
    written = Uleb.encode ((Text.utf8 s).length + 1) ++ Image.encodeName s := by
  intro d s d' h
  obtain ⟨length, d₁, hlength, h⟩ := Action.bind_eq_ok_iff.mp h
  obtain ⟨raw, d₂, hraw, h⟩ := Action.bind_eq_ok_iff.mp h
  obtain ⟨_, d₃, hnote, h⟩ := Action.bind_eq_ok_iff.mp h
  cases hnote
  obtain ⟨numeral, hused, hnotes, hnumeral, hdecode⟩ := numeral_of_word hlength
  unfold read at hraw
  split at hraw
  · rename_i raw' c htake
    cases hraw
    obtain ⟨hrest, hcount⟩ := rest_of_take htake
    dsimp only at h
    cases hs : Text.ofUtf8? (if raw.getLast? = some 0 then raw.dropLast else raw) with
    | none =>
      rw [hs] at h
      cases h
    | some s' =>
      rw [hs] at h
      cases h
      rw [← hcount] at hdecode
      refine ⟨numeral ++ raw, [.number numeral, .text raw], _, ?_, ?_, rfl,
        settles_text hnumeral hdecode hs⟩
      · rw [hused, hrest, List.append_assoc]
      · rw [hnotes, List.append_assoc]
        rfl
  · cases hraw

theorem renders_constant :
    Renders constant fun v written => written = Image.encodeConstant v := by
  apply renders_byte.bind
  rintro t _ rfl
  repeat' split
  · rename_i ht
    apply renders_byte.bind
    rintro b _ rfl
    exact renders_pure (by simp [ht, Image.encodeConstant, Value.tag])
  · rename_i ht
    apply renders_fixedWord.bind
    rintro n _ rfl
    exact renders_pure (by simp [ht, Image.encodeConstant, Value.tag])
  · rename_i ht
    apply renders_fixedWord.bind
    rintro n _ rfl
    exact renders_pure (by simp [ht, Image.encodeConstant, Value.tag])
  · rename_i ht
    apply renders_fixedWord.bind
    rintro n _ rfl
    exact renders_pure (by simp [ht, Image.encodeConstant, Value.tag])
  · rename_i ht
    apply renders_text.bind
    rintro s _ rfl
    exact renders_pure (by simp [ht, Image.encodeConstant, Value.tag])
  · exact renders_throw _

theorem renders_instruction :
    Renders instruction fun i written => written = Image.encodeInstruction i := by
  apply renders_byte.bind
  rintro code _ rfl
  split
  · exact renders_throw _
  · rename_i opcode hopcode
    have hcode : opcode.code = code := by simpa using List.find?_some hopcode
    split
    · apply (renders_times renders_word _).bind
      rintro operands _ ⟨-, rfl⟩
      exact renders_pure (by simp [Image.encodeInstruction, hcode])
    · apply (renders_times renders_word _).bind
      rintro operands _ ⟨-, rfl⟩
      apply (renders_times renders_word _).bind
      rintro further _ ⟨-, rfl⟩
      exact renders_pure (by simp [Image.encodeInstruction, hcode])

theorem renders_functionRest (name : String) (variadic : Bool) :
    Renders (functionRest name variadic) fun f written =>
      f.name = name ∧ f.variadic = variadic ∧ written =
        Image.encodeCounted Image.encodeWord f.params ++
          Image.encodeCounted Image.encodeInstruction f.code.toList := by
  apply (renders_counted renders_word).bind
  rintro params _ rfl
  dsimp only
  split
  · exact Renders.bind (W := fun _ _ => False) (renders_flawed _) fun _ _ hfalse => hfalse.elim
  · apply (renders_counted renders_instruction).bind
    rintro code _ rfl
    exact renders_pure ⟨rfl, rfl, by simp⟩

/-- A name ends with its first zero byte. -/
theorem closed_encodeName {s : String} (hs : '\x00' ∉ s.toList) :
    Closed (fun b => b = 0) (Image.encodeName s) := by
  refine ⟨Text.utf8 s, 0, rfl, ?_, rfl⟩
  rintro b hb rfl
  exact hs ((Text.zero_mem_utf8_iff s).mp hb)

theorem encodeName_injective {s t : String} (h : Image.encodeName s = Image.encodeName t) :
    s = t := by
  have hbytes : Text.utf8 s = Text.utf8 t := List.append_cancel_right h
  have hread := congrArg Text.ofUtf8? hbytes
  rw [Text.ofUtf8?_utf8, Text.ofUtf8?_utf8] at hread
  exact Option.some.inj hread

/-- The name of a method is settled by whether a point stands in front of it. -/
theorem settles_method {raw : String} (hraw : '\x00' ∉ raw.toList) :
    Settles [.method raw] (Image.encodeName (Read.methodName raw)) (Image.encodeName raw) := by
  have hiff := Read.methodName_eq_self_iff raw
  by_cases hcanonical : (Spelling.method raw).IsCanonical
  · rw [hiff.mpr hcanonical]
    exact settles_canonical hcanonical (Image.encodeName raw)
  · have hne : Image.encodeName (Read.methodName raw) ≠ Image.encodeName raw :=
      fun heq => hcanonical (hiff.mp (encodeName_injective heq))
    exact .inr ⟨⟨_, List.mem_singleton_self _, hcanonical⟩,
      (closed_encodeName (Read.methodName_closed hraw)).clash (closed_encodeName hraw) hne⟩

theorem renders_methodName :
    Renders methodName fun s written => written = Image.encodeName s := by
  intro d s d' h
  obtain ⟨raw, d₁, hraw, h⟩ := Action.bind_eq_ok_iff.mp h
  obtain ⟨_, d₂, hnote, h⟩ := Action.bind_eq_ok_iff.mp h
  cases hnote
  cases h
  unfold read at hraw
  split at hraw
  · rename_i raw' c hname
    cases hraw
    exact ⟨Image.encodeName raw, [.method raw], _, Read.rest_of_name hname, rfl, rfl,
      settles_method (Read.yields_name hname)⟩
  · cases hraw

theorem renders_function : Renders function fun f written => written = Image.encodeFunction f := by
  apply renders_methodName.bind
  rintro name _ rfl d f d' h
  obtain ⟨next, d₁, hnext, h⟩ := Action.bind_eq_ok_iff.mp h
  cases hnext
  -- the byte that is taken as the marker is the one that was looked at
  by_cases hmarker : (d.cursor.rest.head? == some Image.variadicMarker) = true
  · rw [if_pos hmarker] at h
    obtain ⟨position, rest, hrest⟩ : ∃ position rest,
        d.cursor = ⟨position, Image.variadicMarker :: rest⟩ := by
      obtain ⟨rest, hrest⟩ := List.head?_eq_some_iff.mp (eq_of_beq hmarker)
      exact ⟨d.cursor.position, rest, by rw [← hrest]⟩
    have hbyte : read Read.byte d = .ok Image.variadicMarker ⟨⟨position + 1, rest⟩, d.notes⟩ := by
      rw [read, hrest]
      rfl
    rw [Action.bind_of_ok hbyte] at h
    obtain ⟨used, notes, written, hused, hnotes, ⟨rfl, hvariadic, rfl⟩, hsettles⟩ :=
      renders_functionRest name true h
    refine ⟨Image.variadicMarker :: used, notes, _, ?_, hnotes, ?_,
      (settles_same [Image.variadicMarker]).append hsettles⟩
    · rw [hrest, List.cons_append, ← hused]
    · simp [Image.encodeFunction, hvariadic]
  · rw [if_neg hmarker] at h
    obtain ⟨used, notes, written, hused, hnotes, ⟨rfl, hvariadic, rfl⟩, hsettles⟩ :=
      renders_functionRest name false h
    exact ⟨used, notes, _, hused, hnotes, by simp [Image.encodeFunction, hvariadic], hsettles⟩

theorem renders_member : Renders member fun m written => written = Image.encodeMember m := by
  apply renders_name.bind
  rintro name _ rfl
  apply renders_tags.bind
  rintro types _ rfl
  exact renders_pure (by simp [Image.encodeMember])

theorem renders_classDecl :
    Renders classDecl fun cls written => written = Image.encodeClass cls := by
  apply renders_name.bind
  rintro name _ rfl
  apply (renders_counted renders_member).bind
  rintro members _ rfl
  apply (renders_counted renders_function).bind
  rintro methods _ rfl
  exact renders_pure (by simp [Image.encodeClass])

theorem renders_header : Renders (read Read.header) fun _ written =>
    written = Image.magic ++ Image.version := by
  apply renders_read
  intro c _ c' h
  obtain ⟨magic, c₁, hmagic, h⟩ := Action.bind_eq_ok_iff.mp h
  dsimp only at h
  split at h
  · cases h
  rename_i hmagic'
  obtain ⟨version, c₂, hversion, h⟩ := Action.bind_eq_ok_iff.mp h
  split at h
  · cases h
  rename_i hversion'
  cases h
  obtain rfl : magic = Image.magic := not_not.mp hmagic'
  obtain rfl : version = Image.version := not_not.mp hversion'
  exact ⟨_, by rw [(rest_of_take hmagic).1, (rest_of_take hversion).1, List.append_assoc], rfl⟩

/-- Looking where the reader is takes no bytes. -/
theorem renders_get : Renders (get : Spell Desk) fun _ written => written = [] := by
  intro d a d' h
  cases h
  exact ⟨[], [], [], rfl, by simp, rfl, settles_same []⟩

theorem renders_classes (n : Nat) : Renders (classes n) fun all written =>
    written = all.flatMap Image.encodeClass := by
  induction n with
  | zero => exact renders_pure rfl
  | succ n ih =>
    apply renders_get.bind
    rintro d _ rfl
    split
    · exact renders_pure rfl
    · apply renders_classDecl.bind
      rintro first _ rfl
      apply ih.bind
      rintro others _ rfl
      exact renders_pure (by simp)

theorem renders_image : Renders image fun m written => written = m.encode := by
  apply renders_header.bind
  rintro _ _ rfl
  apply (renders_counted renders_constant).bind
  rintro constants _ rfl
  apply (renders_counted renders_tags).bind
  rintro heap _ rfl
  apply renders_get.bind
  rintro d _ rfl
  apply (renders_classes _).bind
  rintro classes _ rfl
  exact renders_pure (by simp [Image.encode])

end Sections

end Spell

namespace Image

/-- A module that is read is encoded as it was written exactly if its spelling is canonical: every
number that was read is as short as can be, the counted bytes of every text end in a zero byte, and
no method name was written with a point in front. -/
theorem encode_eq_iff_canonical {bytes : List UInt8} {m : Image} (h : decode bytes = .ok m) :
    ∃ notes, spelled bytes = .ok (m, notes) ∧
      (m.encode = bytes ↔ ∀ s ∈ notes, s.IsCanonical) := by
  obtain ⟨c, himage⟩ := decode_eq_ok_iff.mp h
  obtain ⟨notes, hspelled⟩ := Spell.follows_image.exists_of_ok (d := ⟨Cursor.ofBytes bytes, []⟩) himage
  refine ⟨notes, by simp only [spelled, hspelled], ?_⟩
  obtain ⟨used, notes', written, hused, hnotes, rfl, hsettles⟩ := Spell.renders_image hspelled
  have hbytes : bytes = used := by
    obtain ⟨_, _, -, hend, -⟩ := Read.image_chunks himage
    rw [hend, List.append_nil] at hused
    exact hused
  obtain rfl : notes = notes' := hnotes
  rw [hbytes]
  rcases hsettles with ⟨hall, hsame⟩ | ⟨⟨s, hs, hodd⟩, hclash⟩
  · exact ⟨fun _ => hall, fun _ => hsame⟩
  · exact ⟨fun hsame => absurd hsame hclash.ne, fun hall => absurd (hall s hs) hodd⟩

/-- A module of one text, whose count is padded and whose closing byte is missing. -/
def loose : List UInt8 :=
  magic ++ version ++ [0x81, 0x00, Tag.string, 1, 0x41] ++ [0]

/-- The same module, spelled as it is encoded. -/
def strict : List UInt8 :=
  magic ++ version ++ [1, Tag.string, 2, 0x41, 0] ++ [0]

/-- Both are read as the same module, and only the strict one is encoded as it was written. -/
theorem encode_loose_and_strict :
    decode loose = .ok ⟨#[.text "A"], [], []⟩ ∧ decode strict = .ok ⟨#[.text "A"], [], []⟩ ∧
      encode ⟨#[.text "A"], [], []⟩ ≠ loose ∧ encode ⟨#[.text "A"], [], []⟩ = strict := by
  have hloose : decode loose = .ok ⟨#[.text "A"], [], []⟩ := by decide +kernel
  have hstrict : decode strict = .ok ⟨#[.text "A"], [], []⟩ := by decide +kernel
  refine ⟨hloose, hstrict, ?_, ?_⟩
  · obtain ⟨notes, hnotes, hiff⟩ := encode_eq_iff_canonical hloose
    have hodd : Spelling.text [0x41] ∈ notes := by
      have hspelled : spelled loose = .ok (⟨#[.text "A"], [], []⟩,
          [.number [0x81, 0], .number [1], .text [0x41], .number [0]]) := by decide +kernel
      rw [hspelled] at hnotes
      cases hnotes
      decide
    intro heq
    exact absurd (hiff.mp heq _ hodd) (by decide)
  · obtain ⟨notes, hnotes, hiff⟩ := encode_eq_iff_canonical hstrict
    have hspelled : spelled strict = .ok (⟨#[.text "A"], [], []⟩,
        [.number [1], .number [2], .text [0x41, 0], .number [0]]) := by decide +kernel
    rw [hspelled] at hnotes
    cases hnotes
    exact hiff.mpr (by decide)

end Image

end SlotMachine
