import SlotMachine.Image.Encode
import SlotMachine.Proofs.Session
import SlotMachine.Proofs.Store.Collecting
import Mathlib.Tactic.Common
import Mathlib.Data.List.Nodup

/-!
# The arguments of a call

The parameters of a function are bound one after the other, and the further arguments of a variadic
one are collected after that. All activations of a function share the slots of its module's heap, so
that an actual can be a parameter, or lead to one, that has just been bound. This file says what the
order does in general, and when it does not matter: then every parameter has what its actual had
before the call.
-/

namespace SlotMachine

namespace Function

variable {f : Function} {heap : HeapId} {args : List Slot}

/-- The parameter slots. -/
def formals (f : Function) (heap : HeapId) : List Slot :=
  f.params.map fun index => ⟨heap, index.toNat⟩

/-- The parameters that take one argument each, with their arguments. -/
def named (f : Function) (heap : HeapId) (args : List Slot) : List (Slot × Slot) :=
  ((f.formals heap).zip args).take f.namedCount

/-- The further arguments. -/
def further (f : Function) (args : List Slot) : List Slot :=
  args.drop f.namedCount

/-- The parameter that takes the further arguments. -/
def collector? (f : Function) (heap : HeapId) : Option Slot :=
  if f.variadic then (f.formals heap).getLast? else none

/-- A call gives the slot another cell: it is a parameter bound to some other slot, or it takes the
further arguments and is not declared. -/
def Overwrites (f : Function) (heap : HeapId) (args : List Slot) (s : Store) (slot : Slot) : Prop :=
  Store.Rebound (f.named heap args) slot ∨
    f.collector? heap = some slot ∧ ∃ c, s.cell slot = .ok c ∧ c.fixed = false

/-- Different parameters have different slots. -/
theorem nodup_formals (hnodup : f.params.Nodup) (heap : HeapId) : (f.formals heap).Nodup := by
  refine hnodup.map fun i j hij => ?_
  exact UInt64.toNat_inj.mp (Slot.mk.inj hij).2

/-- The named parameters and the one that takes further arguments are all there are. -/
theorem formals_eq (haccepts : f.accepts args.length = true) (heap : HeapId) :
    (f.named heap args).map Prod.fst ++ (f.collector? heap).toList = f.formals heap := by
  have henough : f.namedCount ≤ args.length := by
    unfold accepts at haccepts
    split at haccepts
    · exact of_decide_eq_true haccepts
    · exact (beq_iff_eq.mp haccepts).ge
  have hnamed : (f.named heap args).map Prod.fst = (f.formals heap).take f.namedCount := by
    rw [named, List.zip, List.take_zipWith]
    apply List.map_fst_zip
    rw [List.length_take, List.length_take]
    omega
  have hlength : (f.formals heap).length = f.params.length := List.length_map _
  rw [hnamed, collector?, namedCount]
  cases f.variadic with
  | true => simp only [if_true, ← hlength, List.take_append_getLast?]
  | false => simp [← hlength]

/-- Every parameter lies in the heap. -/
theorem heap_of_mem_formals {slot : Slot} (h : slot ∈ f.formals heap) : slot.heap = heap := by
  obtain ⟨index, -, rfl⟩ := List.mem_map.mp h
  rfl

/-- A named parameter is a parameter, and its actual an argument. -/
theorem mem_of_mem_named {p : Slot × Slot} (h : p ∈ f.named heap args) :
    p.1 ∈ f.formals heap ∧ p.2 ∈ args :=
  List.of_mem_zip (List.mem_of_mem_take h)

/-- What takes the further arguments is a parameter. -/
theorem mem_of_collector? {slot : Slot} (h : f.collector? heap = some slot) :
    slot ∈ f.formals heap := by
  unfold collector? at h
  split at h
  · exact List.mem_of_getLast? h
  · cases h

/-- With different parameters, the one that takes further arguments is no named one. -/
theorem collector?_ne (hnodup : f.params.Nodup) (haccepts : f.accepts args.length = true)
    {collector : Slot} (hcollector : f.collector? heap = some collector) {p : Slot × Slot}
    (hp : p ∈ f.named heap args) : p.1 ≠ collector := by
  have hformals := nodup_formals hnodup heap
  rw [← formals_eq haccepts, hcollector] at hformals
  exact (List.nodup_append.mp hformals).2.2 _ (List.mem_map_of_mem hp) _ (by simp)

/-- With different parameters, each is bound once. -/
theorem not_rebound_of_split (hnodup : f.params.Nodup) (haccepts : f.accepts args.length = true)
    {before after : List (Slot × Slot)} {formal actual : Slot}
    (hsplit : f.named heap args = before ++ (formal, actual) :: after) :
    ¬ Store.Rebound before formal ∧ ¬ Store.Rebound after formal := by
  have hformals := nodup_formals hnodup heap
  rw [← formals_eq haccepts, hsplit, List.map_append, List.map_cons] at hformals
  obtain ⟨-, hothers, hbefore⟩ := List.nodup_append.mp (List.nodup_append.mp hformals).1
  constructor
  · rintro ⟨other, hmem, -⟩
    exact hbefore formal (List.mem_map_of_mem hmem) formal List.mem_cons_self rfl
  · rintro ⟨other, hmem, -⟩
    exact (List.nodup_cons.mp hothers).1 (List.mem_map.mpr ⟨_, hmem, rfl⟩)

end Function

namespace Store

variable {s s' s₁ : Store} {formal actual slot x y : Slot} {pairs : List (Slot × Slot)}
  {known : String → Prop}

/-- What is no parameter is not rebound. -/
theorem not_rebound (h : slot ∉ pairs.map Prod.fst) : ¬ Rebound pairs slot := by
  rintro ⟨actual, hmem, -⟩
  exact h (List.mem_map.mpr ⟨_, hmem, rfl⟩)

/-- A heap is missing exactly if its number is not in use. -/
theorem kind?_eq_none_iff {id : HeapId} : s.kind? id = none ↔ s.heaps.size ≤ id := by
  simp [kind?]

/-- As many heaps are there as have a kind. -/
theorem size_eq_of_kind_eq (h : ∀ id, s'.kind? id = s.kind? id) : s'.heaps.size = s.heaps.size := by
  apply Nat.le_antisymm
  · exact kind?_eq_none_iff.mp ((h _).trans (kind?_eq_none_iff.mpr (Nat.le_refl _)))
  · exact kind?_eq_none_iff.mp ((h _).symm.trans (kind?_eq_none_iff.mpr (Nat.le_refl _)))

/-- A module's heap is there. -/
theorem IsModule.lt_size {id : HeapId} (h : s.IsModule id) : id < s.heaps.size := by
  by_contra hmissing
  rw [IsModule, kind?_eq_none_iff.mpr (Nat.le_of_not_lt hmissing)] at h
  cases h

/-- The references of a sound store lead to heaps that are there. -/
theorem Sound.closedBelow (hs : s.Sound known) : s.ClosedBelow s.heaps.size := by
  intro x y _ hnext
  obtain ⟨c, hc, -, hvalue⟩ := cell_of_next? hnext
  obtain ⟨kind, hkind, -⟩ : s.Exposed y := hs.vouches hc hvalue
  by_contra hmissing
  rw [kind?_eq_none_iff.mpr (Nat.le_of_not_lt hmissing)] at hkind
  cases hkind

/-- Binding parameters to slots of the first heaps lets no reference lead out of them. -/
theorem Handed.closedBelow {n : Nat} (h : Handed formal actual s s') (hs : s.ClosedBelow n)
    (hactual : actual.heap < n) : s'.ClosedBelow n := by
  intro x y hx hnext
  by_cases hformal : x = formal
  · subst hformal
    cases h with
    | same _ => exact hs x y hx hnext
    | aliased _ _ _ hcell _ =>
      obtain ⟨c, hc, -, hvalue⟩ := cell_of_next? hnext
      obtain rfl : _ = c := by simpa [hcell] using hc
      obtain rfl : actual = y := Value.ref.inj hvalue
      exact hactual
    | copied _ _ _ _ _ hcell hplain _ =>
      obtain ⟨c, hc, href, -⟩ := cell_of_next? hnext
      obtain rfl : _ = c := by simpa [hcell] using hc
      rw [hplain] at href
      cases href
  · have hcell : s'.cell x = s.cell x := h.cell_eq fun _ => Ne.symm hformal
    refine hs x y hx ?_
    rw [← hnext]
    simp only [next?, hcell]

theorem HandedInOrder.closedBelow {n : Nat} (h : HandedInOrder pairs s s') (hs : s.ClosedBelow n)
    (hactuals : ∀ p ∈ pairs, p.2.heap < n) : s'.ClosedBelow n := by
  induction h with
  | nil => exact hs
  | cons hfirst _ ih =>
    have hs₁ := hfirst.closedBelow hs (hactuals _ List.mem_cons_self)
    exact ih hs₁ fun p hp => hactuals p (List.mem_cons_of_mem _ hp)

/-- With different parameters, and as far as neither their order nor the limit on walks interferes,
every parameter has after a call what its actual had before. -/
structure HandedAtOnce (s s' : Store) (heap : HeapId) (f : Function) (args : List Slot) : Prop where
  /-- A parameter that is its own actual keeps its cell, unless the further arguments land there. -/
  kept : ∀ slot, (slot, slot) ∈ f.named heap args →
    (∀ collector, f.collector? heap = some collector → s'.origin collector ≠ .ok slot) →
    s'.cell slot = s.cell slot
  /-- A parameter by value receives the value that its actual had, unless the further arguments land
  there. The walk of the actual must come past no parameter that is bound before, nor past the
  parameter itself if that one is emptied. -/
  copied : ∀ before formal actual after c,
    f.named heap args = before ++ (formal, actual) :: after → formal ≠ actual →
    s.cell formal = .ok c → StoreM.aliasTags? c = none →
    (∀ x, s.Meets actual x → ¬ Rebound before x) → (c.fixed = false → ¬ s.Meets actual formal) →
    (∀ collector, f.collector? heap = some collector → s'.origin collector ≠ .ok formal) →
    ∃ v c', s.value actual = .ok v ∧ c.Receives v c' ∧ s'.cell formal = .ok c'
  /-- A parameter that is an alias is bound to its actual, and has the origin that its actual had.
  The walk of the actual must come past no reference that the call overwrites, and have a step to
  spare. -/
  aliased : ∀ formal actual c tags, (formal, actual) ∈ f.named heap args → formal ≠ actual →
    s.cell formal = .ok c → StoreM.aliasTags? c = some tags →
    s'.cell formal = .ok ⟨tags, true, .ref actual⟩ ∧
      ∀ o, s.origin actual = .ok o → s.walk (maxChain - 1) actual = none →
        (∀ x, s.Meets actual x → f.Overwrites heap args s x → s.Plain x) →
        s'.origin formal = .ok o
  /-- The further arguments are collected with the values that they had. Their walks must come past
  no named parameter that is bound to another slot. -/
  collected : ∀ collector, f.collector? heap = some collector →
    (∀ a ∈ args, a.heap < s.heaps.size) →
    (∀ a ∈ f.further args, ∀ x, s.Meets a x → ¬ Rebound (f.named heap args) x) →
    s.Collected s' collector (f.further args)

/-- How a call hands its arguments over, whatever they are: the named parameters are bound in order,
and then the further arguments are collected with the values that they have by then, which changes
nothing but the parameter that takes them and the place where the array lands. -/
structure HandedByTurns (s s₁ s' : Store) (heap : HeapId) (f : Function) (args : List Slot) :
    Prop where
  /-- The named parameters are bound in order. -/
  inOrder : HandedInOrder (f.named heap args) s s₁
  /-- That is all if no parameter takes further arguments. -/
  last : f.collector? heap = none → s' = s₁
  /-- Otherwise few cells change after that. -/
  frame : ∀ collector, f.collector? heap = some collector → ∀ x, x.heap < s.heaps.size →
    x ≠ collector → s'.origin collector ≠ .ok x → s'.cell x = s₁.cell x
  /-- The further arguments are collected. -/
  collected : ∀ collector, f.collector? heap = some collector →
    (∀ a ∈ args, a.heap < s.heaps.size) → s₁.Collected s' collector (f.further args)

end Store

namespace StoreM

open Store

variable {s s' : Store} {heap : HeapId} {f : Function} {args : List Slot}

/-- An accepted call binds the named parameters and then collects the further arguments. -/
theorem pass_eq_ok (h : pass heap f args s = .ok () s') :
    f.accepts args.length = true ∧ ∃ s₁, HandedInOrder (f.named heap args) s s₁ ∧
      (f.collector? heap = none → s' = s₁) ∧
      ∀ collector, f.collector? heap = some collector →
        collectRest collector (f.further args) s₁ = .ok () s' := by
  unfold pass at h
  dsimp only at h
  split at h
  · cases h
  · rename_i haccepts
    obtain ⟨_, s₁, hnamed, hrest⟩ := Action.bind_eq_ok_iff.mp h
    refine ⟨by simpa using haccepts, s₁, handedInOrder_of_passArguments hnamed, ?_⟩
    unfold Function.collector? Function.formals
    split at hrest
    · rename_i hvariadic
      rw [if_pos hvariadic]
      cases hlast : (f.params.map fun index => (⟨heap, index.toNat⟩ : Slot)).getLast? with
      | some formal =>
        simp only [hlast] at hrest
        refine ⟨fun hnone => (nomatch hnone), fun collector hcollector => ?_⟩
        obtain rfl : formal = collector := Option.some.inj hcollector
        exact hrest
      | none =>
        simp only [hlast] at hrest
        cases hrest
        exact ⟨fun _ => rfl, fun _ hsome => (nomatch hsome)⟩
    · rename_i hvariadic
      rw [if_neg hvariadic]
      cases hrest
      exact ⟨fun _ => rfl, fun _ hsome => (nomatch hsome)⟩

/-- An accepted call hands its arguments over by turns. -/
theorem handedByTurns {known : String → Prop} {s₁ : Store} (hs : s.Sound known)
    (hheap : s.IsModule heap) (hnamed : HandedInOrder (f.named heap args) s s₁)
    (hlast : f.collector? heap = none → s' = s₁)
    (hcollect : ∀ collector, f.collector? heap = some collector →
      collectRest collector (f.further args) s₁ = .ok () s') :
    HandedByTurns s s₁ s' heap f args := by
  have hsize : s₁.heaps.size = s.heaps.size := size_eq_of_kind_eq hnamed.kind_eq
  refine ⟨hnamed, hlast, fun collector hcollector x hx hne hlanding => ?_,
    fun collector hcollector hargs => ?_⟩
  · exact cell_of_collectRest (hcollect collector hcollector) (hsize.symm ▸ hx) hne hlanding
  · have hclosed : s₁.ClosedBelow s₁.heaps.size := by
      rw [hsize]
      exact hnamed.closedBelow hs.closedBelow fun p hp => hargs p.2 (Function.mem_of_mem_named hp).2
    refine collected_of_collectRest hclosed ?_ (fun a ha => ?_) (hcollect collector hcollector)
    · rw [hsize, Function.heap_of_mem_formals (Function.mem_of_collector? hcollector)]
      exact hheap.lt_size
    · rw [hsize]
      exact hargs a (List.mem_of_mem_drop ha)

/-- A walk that leads to an origin finds the same after a call, unless it comes past a reference that
the call overwrites. -/
theorem sameRoad_of_pass {actual o x : Slot} (h : pass heap f args s = .ok () s')
    (hnodup : f.params.Nodup) (horigin : s.origin actual = .ok o) (hx : s.Meets actual x)
    (hplain : f.Overwrites heap args s x → s.Plain x) : s.SameRoad s' x := by
  obtain ⟨haccepts, s₁, hnamed, hlast, hcollect⟩ := pass_eq_ok h
  have hroad : s.SameRoad s₁ x := hnamed.sameRoad fun hrebound => hplain (.inl hrebound)
  cases hcollector : f.collector? heap with
  | none =>
    rw [hlast hcollector]
    exact hroad
  | some collector =>
    obtain ⟨c, hc⟩ := exists_cell_of_meets horigin hx
    have hsize : s₁.heaps.size = s.heaps.size := size_eq_of_kind_eq hnamed.kind_eq
    have hbelow : x.heap < s₁.heaps.size := by
      obtain ⟨heap', hheap', -⟩ := cell_eq_ok_iff.mp hc
      rw [hsize]
      exact (Array.getElem?_eq_some_iff.mp hheap').1
    refine hroad.trans (sameRoad_of_collectRest (hcollect collector hcollector) hbelow ?_)
    rintro rfl c₁ hc₁ hfree
    refine hroad.plain (hplain (.inr ⟨hcollector, c, hc, ?_⟩))
    -- The parameter that takes the further arguments is not bound before, so its cell is the same.
    have hkept : s₁.cell x = s.cell x := hnamed.cell_eq fun ⟨actual', hmem, _⟩ =>
      Function.collector?_ne hnodup haccepts hcollector hmem rfl
    obtain rfl : c = c₁ := by simpa [hkept, hc] using hc₁
    exact hfree

/-- With different parameters, an accepted call hands over what its arguments had before. -/
theorem handedAtOnce_of_pass {known : String → Prop} (hs : s.Sound known) (hheap : s.IsModule heap)
    (hnodup : f.params.Nodup) (h : pass heap f args s = .ok () s') :
    HandedAtOnce s s' heap f args := by
  obtain ⟨haccepts, s₁, hnamed, hlast, hcollect⟩ := pass_eq_ok h
  have hturns := handedByTurns hs hheap hnamed hlast hcollect
  have hbelow : ∀ p ∈ f.named heap args, p.1.heap < s.heaps.size := by
    intro p hp
    rw [Function.heap_of_mem_formals (Function.mem_of_mem_named hp).1]
    exact hheap.lt_size
  -- What a named parameter has once it is bound, it has after the call, unless the array lands there.
  have hafter : ∀ p ∈ f.named heap args,
      (∀ collector, f.collector? heap = some collector → s'.origin collector ≠ .ok p.1) →
      s'.cell p.1 = s₁.cell p.1 := by
    intro p hp hlanding
    cases hcollector : f.collector? heap with
    | none => rw [hturns.last hcollector]
    | some collector =>
      have hne := Function.collector?_ne hnodup haccepts hcollector hp
      exact hturns.frame collector hcollector p.1 (hbelow p hp) hne (hlanding collector hcollector)
  constructor
  · intro slot hmem hlanding
    obtain ⟨before, after, hsplit⟩ := List.append_of_mem hmem
    obtain ⟨hbefore, hafter'⟩ := Function.not_rebound_of_split hnodup haccepts hsplit
    have hrebound : ¬ Rebound (f.named heap args) slot := by
      rintro ⟨actual, hactual, hne⟩
      rw [hsplit, List.mem_append, List.mem_cons] at hactual
      rcases hactual with hfirst | heq | hlater
      · exact hbefore ⟨actual, hfirst, hne⟩
      · exact hne (Prod.mk.inj heq).2.symm
      · exact hafter' ⟨actual, hlater, hne⟩
    rw [hafter (slot, slot) hmem hlanding, hnamed.cell_eq hrebound]
  · intro before formal actual after c hsplit hne hc halias hwalk hself hlanding
    obtain ⟨hbefore, hafter'⟩ := Function.not_rebound_of_split hnodup haccepts hsplit
    rw [hsplit] at hnamed
    obtain ⟨v, c', hv, hreceives, hcell⟩ :=
      hnamed.copied hbefore hafter' hne hc halias hwalk hself
    have hmem : (formal, actual) ∈ f.named heap args := by simp [hsplit]
    exact ⟨v, c', hv, hreceives, (hafter _ hmem hlanding).trans hcell⟩
  · intro formal actual c tags hmem hne hc halias
    obtain ⟨before, after, hsplit⟩ := List.append_of_mem hmem
    obtain ⟨hbefore, hafter'⟩ := Function.not_rebound_of_split hnodup haccepts hsplit
    have hbound : s₁.cell formal = .ok ⟨tags, true, .ref actual⟩ := by
      rw [hsplit] at hnamed
      exact hnamed.aliased hbefore hafter' hne hc halias
    have href := (isReference_of_aliasTags? halias).2
    have hcell : s'.cell formal = .ok ⟨tags, true, .ref actual⟩ := by
      cases hcollector : f.collector? heap with
      | none => rw [hlast hcollector, hbound]
      | some collector =>
        have hsize : s₁.heaps.size = s.heaps.size := size_eq_of_kind_eq hnamed.kind_eq
        exact reference_of_collectRest (hcollect collector hcollector)
          (hsize.symm ▸ hbelow _ hmem) (Function.collector?_ne hnodup haccepts hcollector hmem)
          hbound (Cell.isReference_iff.mpr href)
    refine ⟨hcell, fun o ho hshort hwalk => ?_⟩
    rw [← ho]
    refine origin_of_alias hcell href (fun x hx => ?_) hshort
    exact sameRoad_of_pass h hnodup ho hx (hwalk x hx)
  · intro collector hcollector hargs hwalk
    obtain ⟨a, hvalue, hkind, hcount, helements⟩ := hturns.collected collector hcollector hargs
    refine ⟨a, hvalue, (hnamed.kind_eq _).symm.trans hkind, hcount, fun k actual hk => ?_⟩
    obtain ⟨v, slot, hv, helement, hslot⟩ := helements k actual hk
    refine ⟨v, slot, ?_, helement, hslot⟩
    rw [← hv]
    refine (value_of_walk fun x hx => ?_).symm
    exact hnamed.cell_eq (hwalk actual (List.mem_of_getElem? hk) x hx)

end StoreM

namespace Session

open Store

/-- In every state of every session, a call that is accepted hands its arguments over by turns: each
parameter has what its actual had at its turn. And with different parameters it hands over what the
arguments had before the call, as far as no actual leads to a parameter that was overwritten before
the actual was read. -/
theorem pass_by_turns_and_at_once (settings : Settings) (source : Source) (sink : Sink)
    (events : List HostEvent) {heap : HeapId} {f : Function} {args : List Slot} {s' : Store}
    (hheap : ((create settings source sink).play events).machine.store.IsModule heap)
    (hpass : StoreM.pass heap f args ((create settings source sink).play events).machine.store =
      .ok () s') :
    (∃ s₁, HandedByTurns ((create settings source sink).play events).machine.store s₁ s' heap f args) ∧
      (f.params.Nodup →
        HandedAtOnce ((create settings source sink).play events).machine.store s' heap f args) := by
  have hcreate : (create settings source sink).machine.Sound :=
    Machine.sound_create settings source sink
  obtain ⟨hsound, -⟩ := sound_play hcreate events
  obtain ⟨-, s₁, hnamed, hlast, hcollect⟩ := StoreM.pass_eq_ok hpass
  constructor
  · exact ⟨s₁, StoreM.handedByTurns hsound.linkage.store hheap hnamed hlast hcollect⟩
  · intro hnodup
    exact StoreM.handedAtOnce_of_pass hsound.linkage.store hheap hnodup hpass

/-- A variadic function with a free, a double and a reference parameter before the collecting one. -/
def gather : Function := ⟨"gather", true, [7, 8, 9, 10], #[]⟩

/-- A program that calls `gather` with a long number and with a reference to it. -/
def gathering : Image where
  constants := #[.long 7, .text "gather"]
  heap := [[Tag.untyped], [Tag.untyped], [Tag.untyped], [Tag.untyped], [Tag.untyped], [Tag.untyped],
    [Tag.untyped], [Tag.untyped], [Tag.double], [Tag.ref, Tag.untyped], [Tag.untyped]]
  classes := [⟨Image.topClass, [], [⟨Image.entryMethod, false, [], #[⟨.loadConst, [3, 0]⟩,
    ⟨.refer, [4, 3]⟩, ⟨.loadConst, [5, 1]⟩, .invoke 5 [6, 3, 4, 3, 4]]⟩, gather]⟩]

/-- The store of that program just before the call. -/
def beforeGather : Store :=
  ⟨#[⟨.scratch, #[Cell.free]⟩,
    ⟨.module, #[Cell.free, Cell.free, ⟨[Tag.object], true, .object 2⟩, ⟨[Tag.long], false, .long 7⟩,
      ⟨[Tag.ref, Tag.untyped], false, .ref ⟨1, 3⟩⟩, ⟨[Tag.string], false, .text "gather"⟩, Cell.free,
      Cell.free, ⟨[Tag.double], true, .double Double.zero⟩, ⟨[Tag.ref, Tag.untyped], true, .nothing⟩,
      Cell.free]⟩,
    ⟨.object, #[⟨[Tag.string], true, .text ".!__start"⟩]⟩], #[], 16777216⟩

/-- The session with that program gets there. -/
theorem store_gathering : ((create Settings.standard Source.empty Sink.empty).play
    [.load gathering.encode, .start, .tick, .tick, .tick, .tick]).machine.store = beforeGather := by
  decide +kernel

/-- The double parameter receives the long number, the reference parameter becomes an alias of the
number through the reference, and the array has the number as its second element, read through the
reference too. -/
theorem pass_gathering :
    let before := ((create Settings.standard Source.empty Sink.empty).play
      [.load gathering.encode, .start, .tick, .tick, .tick, .tick]).machine.store
    before.IsModule 1 ∧ gather.params.Nodup ∧
      ∃ s', StoreM.pass 1 gather [⟨1, 6⟩, ⟨1, 3⟩, ⟨1, 4⟩, ⟨1, 3⟩, ⟨1, 4⟩] before = .ok () s' ∧
        (∃ c', (Cell.declared [Tag.double]).Receives (.long 7) c' ∧ s'.cell ⟨1, 8⟩ = .ok c') ∧
        s'.origin ⟨1, 9⟩ = .ok ⟨1, 3⟩ ∧
        ∃ a slot, s'.value ⟨1, 10⟩ = .ok (.array a) ∧ s'.elementCount a.storage = .ok 2 ∧
          s'.element? a 1 = .ok (some slot) ∧ s'.value slot = .ok (.long 7) := by
  intro before
  have hbefore : before = beforeGather := store_gathering
  have hheap : before.IsModule 1 := by rw [hbefore]; rfl
  have hnodup : gather.params.Nodup := by decide
  have hpass : ∃ s', StoreM.pass 1 gather [⟨1, 6⟩, ⟨1, 3⟩, ⟨1, 4⟩, ⟨1, 3⟩, ⟨1, 4⟩] before =
      .ok () s' ∧ s'.origin ⟨1, 10⟩ = .ok ⟨1, 10⟩ := by
    rw [hbefore]
    exact ⟨_, rfl, rfl⟩
  obtain ⟨s', hpass, hlanding⟩ := hpass
  obtain ⟨-, hatOnce⟩ := pass_by_turns_and_at_once Settings.standard Source.empty Sink.empty
    [.load gathering.encode, .start, .tick, .tick, .tick, .tick] hheap hpass
  have h := hatOnce hnodup
  change HandedAtOnce before s' 1 gather _ at h
  rw [hbefore] at h
  have hlong : ∀ x, beforeGather.Meets ⟨1, 3⟩ x → x = ⟨1, 3⟩ := fun x hx => eq_of_meets rfl hx
  have href : ∀ x, beforeGather.Meets ⟨1, 4⟩ x → x = ⟨1, 4⟩ ∨ x = ⟨1, 3⟩ := fun x hx =>
    (eq_or_meets rfl hx).imp_right (hlong x)
  have hcollector : gather.collector? 1 = some ⟨1, 10⟩ := rfl
  have hfurther : gather.further [⟨1, 6⟩, ⟨1, 3⟩, ⟨1, 4⟩, ⟨1, 3⟩, ⟨1, 4⟩] = [⟨1, 3⟩, ⟨1, 4⟩] := rfl
  refine ⟨hheap, hnodup, s', hpass, ?_, ?_, ?_⟩
  · have hwalk : ∀ x, beforeGather.Meets ⟨1, 3⟩ x → ¬ Rebound [(⟨1, 7⟩, ⟨1, 6⟩)] x := by
      intro x hx
      rw [hlong x hx]
      exact not_rebound (by decide)
    have hspared : ∀ collector, gather.collector? 1 = some collector →
        s'.origin collector ≠ .ok ⟨1, 8⟩ := by
      intro collector heq
      obtain rfl : (⟨1, 10⟩ : Slot) = collector := Option.some.inj (hcollector.symm.trans heq)
      rw [hlanding]
      decide
    obtain ⟨v, c', hv, hreceives, hcell⟩ := h.copied [(⟨1, 7⟩, ⟨1, 6⟩)] ⟨1, 8⟩ ⟨1, 3⟩
      [(⟨1, 9⟩, ⟨1, 4⟩)] (Cell.declared [Tag.double]) rfl (by decide) rfl rfl hwalk nofun hspared
    obtain rfl : Value.long 7 = v := Except.ok.inj hv
    exact ⟨c', hreceives, hcell⟩
  · refine (h.aliased ⟨1, 9⟩ ⟨1, 4⟩ _ _ (by decide) (by decide) rfl rfl).2 ⟨1, 3⟩ rfl rfl ?_
    intro x hx hoverwrites
    rcases href x hx with rfl | rfl
    · rcases hoverwrites with hrebound | ⟨heq, -⟩
      · exact absurd hrebound (not_rebound (by decide))
      · cases hcollector.symm.trans heq
    · exact ⟨_, rfl, rfl⟩
  · have hwalk : ∀ a ∈ [(⟨1, 3⟩ : Slot), ⟨1, 4⟩], ∀ x, beforeGather.Meets a x →
        x = ⟨1, 4⟩ ∨ x = ⟨1, 3⟩ := by
      simp only [List.forall_mem_cons, List.not_mem_nil]
      exact ⟨fun x hx => .inr (hlong x hx), href, nofun⟩
    obtain ⟨a, hvalue, -, hcount, helements⟩ := h.collected ⟨1, 10⟩ hcollector (by decide) (by
      rw [hfurther]
      intro a ha x hx
      rcases hwalk a ha x hx with rfl | rfl <;> exact not_rebound (by decide))
    obtain ⟨v, slot, hv, helement, hslot⟩ := helements 1 ⟨1, 4⟩ rfl
    obtain rfl : Value.long 7 = v := Except.ok.inj hv
    exact ⟨a, slot, hvalue, hcount, helement, hslot⟩

/-- A function whose parameters are two slots declared as long numbers. -/
def swap : Function := ⟨"f", false, [7, 3, 4], #[]⟩

/-- A program that calls `swap` with the slots of its parameters, the other way round. -/
def swapping : Image where
  constants := #[.long 1, .long 2, .text "f"]
  heap := [[Tag.untyped], [Tag.untyped], [Tag.untyped], [Tag.long], [Tag.long], [Tag.untyped],
    [Tag.untyped], [Tag.untyped]]
  classes := [⟨Image.topClass, [], [⟨Image.entryMethod, false, [], #[⟨.loadConst, [3, 0]⟩,
    ⟨.loadConst, [4, 1]⟩, ⟨.loadConst, [5, 2]⟩, .invoke 5 [6, 4, 3]]⟩, swap]⟩]

/-- The store of that program just before the call. -/
def beforeSwap : Store :=
  ⟨#[⟨.scratch, #[Cell.free]⟩,
    ⟨.module, #[Cell.free, Cell.free, ⟨[Tag.object], true, .object 2⟩, ⟨[Tag.long], true, .long 1⟩,
      ⟨[Tag.long], true, .long 2⟩, ⟨[Tag.string], false, .text "f"⟩, Cell.free, Cell.free]⟩,
    ⟨.object, #[⟨[Tag.string], true, .text ".!__start"⟩]⟩], #[], 16777216⟩

/-- The session with that program gets there. -/
theorem store_swapping : ((create Settings.standard Source.empty Sink.empty).play
    [.load swapping.encode, .start, .tick, .tick, .tick, .tick]).machine.store = beforeSwap := by
  decide +kernel

/-- The second parameter is bound by value to the slot that holds 1 before the call, but receives 2:
by its turn the first parameter, which is that slot, has been overwritten. -/
theorem pass_swapping :
    let before := ((create Settings.standard Source.empty Sink.empty).play
      [.load swapping.encode, .start, .tick, .tick, .tick, .tick]).machine.store
    before.IsModule 1 ∧ (⟨1, 4⟩, ⟨1, 3⟩) ∈ swap.named 1 [⟨1, 6⟩, ⟨1, 4⟩, ⟨1, 3⟩] ∧
      before.cell ⟨1, 4⟩ = .ok ⟨[Tag.long], true, .long 2⟩ ∧ before.value ⟨1, 3⟩ = .ok (.long 1) ∧
      ∃ s', StoreM.pass 1 swap [⟨1, 6⟩, ⟨1, 4⟩, ⟨1, 3⟩] before = .ok () s' ∧
        s'.value ⟨1, 4⟩ = .ok (.long 2) := by
  intro before
  have hbefore : before = beforeSwap := store_swapping
  rw [hbefore]
  exact ⟨rfl, by decide, rfl, rfl, _, rfl, rfl⟩

end Session

end SlotMachine
