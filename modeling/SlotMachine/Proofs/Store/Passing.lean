import SlotMachine.Transfer
import SlotMachine.Proofs.Store.Elements
import Mathlib.Tactic.Common

/-!
# Copies and arguments in a sound store

Copies and casts write what they have read. Binding arguments only touches the parameter slots of a
module's heap and the elements of the array that collects further arguments.
-/

namespace SlotMachine.StoreM

open Store Discipline

variable {s : Store} {known : String → Prop} {slot target source formal actual : Slot}

/-- Copying into an exposed slot. -/
theorem keeps_copy (hs : s.Sound known) (htarget : s.Exposed target) (source : Slot) :
    (discipline known).Keeps (copy target source) s fun _ _ => True := by
  unfold copy
  refine keeps_ask_bind hs fun v hv => ?_
  have hvouched := hs.vouches_value hv
  cases v with
  | nothing => exact keeps_pure hs trivial
  | ref _ => exact keeps_throw hs
  | handle _ => exact keeps_throw hs
  | _ => exact keeps_write hs htarget hvouched

/-- A cast makes a number, a text, or nothing new. -/
theorem vouches_castTo {declared : Tag} {v w : Value} (hv : s.Vouches v)
    (h : castTo declared v = .ok w) : s.Vouches w := by
  unfold castTo at h
  split at h
  · split at h
    · dsimp only at h
      split at h
      · rename_i n hread
        cases h
        exact vouches_of_isNumeric (Value.isNumeric_of_read? hread)
      · cases h
    · cases h
      trivial
  · split at h <;> cases h
    · trivial
    · exact hv

/-- Casting into an exposed slot. -/
theorem keeps_cast (hs : s.Sound known) (htarget : s.Exposed target) (source : Slot) :
    (discipline known).Keeps (cast target source) s fun _ _ => True := by
  unfold cast
  refine keeps_ask_bind hs fun v hv => ?_
  refine keeps_ask_bind hs fun landing _ => ?_
  refine keeps_ask_bind hs fun c _ => ?_
  split
  · refine keeps_ask_bind hs fun converted hconverted => ?_
    exact keeps_write hs htarget (vouches_castTo (hs.vouches_value hv) hconverted)
  · exact keeps_copy hs htarget source

/-- Forgetting what an undeclared cell held. -/
theorem keeps_clearUnlessFixed (hs : s.Sound known) (slot : Slot) :
    (discipline known).Keeps (clearUnlessFixed slot) s fun _ _ => True := by
  unfold clearUnlessFixed
  refine keeps_ask_bind hs fun c hc => ?_
  split
  · exact keeps_pure hs trivial
  · rename_i hfixed
    exact keeps_replace hs (accepts_undeclared hc (by simpa using hfixed) admits_free rfl)

/-- A parameter that becomes an alias was a reference before and is one afterwards. -/
theorem isReference_of_aliasTags? {c : Cell} {tags : List Tag} (h : aliasTags? c = some tags) :
    c.isReference = true ∧ (Cell.outer tags = Tag.ref ∨ Cell.outer tags = Tag.const) := by
  unfold aliasTags? at h
  split at h
  · rename_i t inner htags
    have htag : c.tag = t := by rw [Cell.tag, htags]; rfl
    split at h
    · rename_i href
      have hreference : c.isReference = true := by rw [Cell.isReference, htag, href.1]; rfl
      split at h
      · rename_i hconst
        cases h
        exact ⟨hreference, .inr hconst⟩
      · cases h
        exact ⟨hreference, .inl (htag.trans href.1)⟩
    · split at h
      · rename_i hconst
        cases h
        exact ⟨by rw [Cell.isReference, htag, hconst]; rfl, .inr (htag.trans hconst)⟩
      · cases h
  · cases h

/-- Binding a parameter of a module's heap to an exposed slot. -/
theorem keeps_passArgument (hs : s.Sound known) (hformal : s.IsModule formal.heap)
    (hactual : s.Exposed actual) :
    (discipline known).Keeps (passArgument formal actual) s fun _ _ => True := by
  unfold passArgument
  split
  · exact keeps_pure hs trivial
  · refine keeps_ask_bind hs fun c hc => ?_
    split
    · rename_i tags halias
      obtain ⟨href, hhome⟩ := isReference_of_aliasTags? halias
      refine keeps_replace hs ⟨⟨?_, fun _ => ?_, hactual⟩, fun hc' _ hplain => ?_, fun hscratch => ?_⟩
      · rcases hhome with htag | htag <;> simp [Cell.Fits, Cell.tag, Value.homes, htag]
      · rcases hhome with htag | htag <;> rw [Cell.tag, htag] <;> decide
      · cases hc.symm.trans hc'
        rw [href] at hplain
        cases hplain
      · rw [hformal] at hscratch
        cases hscratch
    · refine (keeps_clearUnlessFixed hs formal).bind fun _ s' hs' hev _ => ?_
      exact keeps_copy hs' ((hformal.exposed formal.index).mono hev.toGrows) actual

/-- Binding parameters of module heaps to exposed slots. -/
theorem keeps_passArguments {pairs : List (Slot × Slot)} (hs : s.Sound known)
    (hpairs : ∀ p ∈ pairs, s.IsModule p.1.heap ∧ s.Exposed p.2) :
    (discipline known).Keeps (passArguments pairs) s fun _ _ => True := by
  induction pairs generalizing s with
  | nil => exact keeps_pure hs trivial
  | cons p others ih =>
    obtain ⟨hformal, hactual⟩ := hpairs p List.mem_cons_self
    refine (keeps_passArgument hs hformal hactual).bind fun _ s' hs' hev _ => ?_
    refine ih hs' fun q hq => ?_
    obtain ⟨hformal', hactual'⟩ := hpairs q (List.mem_cons_of_mem p hq)
    exact ⟨hformal'.mono hev.toGrows, hactual'.mono hev.toGrows⟩

/-- Filling an array with copies. -/
theorem keeps_fillArray {a : ArrayHandle} {actuals : List Slot} {index : Nat} (hs : s.Sound known)
    (ha : s.IsArray a.storage) :
    (discipline known).Keeps (fillArray a index actuals) s fun _ _ => True := by
  induction actuals generalizing s index with
  | nil => exact keeps_pure hs trivial
  | cons actual others ih =>
    unfold fillArray
    refine (keeps_reachElement hs ha _).bind fun element s' hs' hev hexposed => ?_
    have ha' := ha.mono hev.toGrows
    cases element with
    | ready slot =>
      refine (keeps_copy hs' hexposed actual).bind fun _ s'' hs'' hev' _ => ?_
      exact ih hs'' (ha'.mono hev'.toGrows)
    | unbuilt slot cls => exact ih hs' ha'

/-- Collecting further arguments into an array for a parameter of a module's heap. -/
theorem keeps_collectRest (hs : s.Sound known) (hformal : s.IsModule formal.heap)
    (actuals : List Slot) :
    (discipline known).Keeps (collectRest formal actuals) s fun _ _ => True := by
  unfold collectRest
  have huntyped : ElementKind.untyped.Fits := trivial
  refine (keeps_allocArray hs huntyped actuals.length).bind fun a s₁ hs₁ hev₁ ha₁ => ?_
  refine (keeps_fillArray hs₁ ha₁).bind fun _ s₂ hs₂ hev₂ _ => ?_
  refine (keeps_clearUnlessFixed hs₂ formal).bind fun _ s₃ hs₃ hev₃ _ => ?_
  have hgrows := hev₂.toGrows.trans hev₃.toGrows
  have hmodule := hformal.mono (hev₁.toGrows.trans hgrows)
  exact keeps_write hs₃ (hmodule.exposed formal.index) (ha₁.mono hgrows)

/-- Parameters of a function whose module has the heap, paired with arguments that are exposed
slots. -/
theorem exposed_of_mem_zip {heap : HeapId} {args : List Slot} (hheap : s.IsModule heap)
    (hargs : ∀ actual ∈ args, s.Exposed actual) {params : List UInt64} {p : Slot × Slot}
    (hp : p ∈ (params.map fun index => (⟨heap, index.toNat⟩ : Slot)).zip args) :
    s.IsModule p.1.heap ∧ s.Exposed p.2 := by
  obtain ⟨hformal, hactual⟩ := List.of_mem_zip hp
  obtain ⟨index, -, hindex⟩ := List.mem_map.mp hformal
  exact ⟨by rw [← hindex]; exact hheap, hargs p.2 hactual⟩

/-- Binding the arguments of a call, which are exposed slots, to the parameters of a function whose
module has the heap. -/
theorem keeps_pass {heap : HeapId} {args : List Slot} (hs : s.Sound known)
    (hheap : s.IsModule heap) (hargs : ∀ actual ∈ args, s.Exposed actual) (f : Function) :
    (discipline known).Keeps (pass heap f args) s fun _ _ => True := by
  unfold pass
  dsimp only
  split
  · exact keeps_of_error rfl hs (Evolves.refl s)
  · refine (keeps_passArguments hs fun p hp => ?_).bind fun _ s' hs' hev _ => ?_
    · exact exposed_of_mem_zip hheap hargs (List.mem_of_mem_take hp)
    · split
      · split
        · rename_i formal hlast
          refine keeps_collectRest hs' ?_ _
          obtain ⟨index, -, rfl⟩ := List.mem_map.mp (List.mem_of_getLast? hlast)
          exact hheap.mono hev.toGrows
        · exact keeps_pure hs' trivial
      · exact keeps_pure hs' trivial

end SlotMachine.StoreM
