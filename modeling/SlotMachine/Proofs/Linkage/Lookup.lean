import SlotMachine.Proofs.Linkage.Names
import Mathlib.Tactic.Common

/-!
# Declarations that are looked up

A module is searched in two ways. Outside a machine the first declaration of a name is the one that
is meant; inside, classes, methods and members are entered one after the other, and the last one
takes the name. Nothing keeps a module from declaring a name twice, so the two agree on what is
declared at all, and on which declaration is meant as long as its name is not repeated.
-/

namespace SlotMachine

section Lists

variable {α : Type} {p : α → Bool} {xs : List α} {a : α}

/-- Among the elements of a list that carry a name, this one comes last. -/
def LastNamed (nameOf : α → String) (name : String) (xs : List α) (a : α) : Prop :=
  nameOf a = name ∧ ∃ before after, xs = before ++ a :: after ∧ ∀ b ∈ after, nameOf b ≠ name

/-- Looking from the end finds the last element that carries the name. -/
theorem find?_reverse_eq_some_iff {nameOf : α → String} {name : String} :
    (xs.reverse.find? fun a => nameOf a == name) = some a ↔ LastNamed nameOf name xs a := by
  rw [List.find?_eq_some_iff_append, LastNamed, beq_iff_eq]
  refine and_congr_right fun _ => ⟨?_, ?_⟩
  · rintro ⟨before, after, hxs, hnone⟩
    refine ⟨after.reverse, before.reverse, ?_, fun b hb => ?_⟩
    · rw [← List.reverse_reverse xs, hxs]
      simp
    · simpa using hnone b (List.mem_reverse.mp hb)
  · rintro ⟨before, after, rfl, hnone⟩
    refine ⟨after.reverse, before.reverse, by simp, fun b hb => ?_⟩
    simpa using hnone b (List.mem_reverse.mp hb)

/-- It does not matter from where one looks for the only element of its kind. -/
theorem find?_reverse_eq (h : xs.countP p ≤ 1) : xs.reverse.find? p = xs.find? p := by
  induction xs with
  | nil => rfl
  | cons x rest ih =>
    rw [List.reverse_cons, List.find?_append, List.find?_cons]
    cases hx : p x with
    | false =>
      rw [ih (by simpa [hx] using h)]
      simp [hx]
    | true =>
      have hrest : rest.countP p = 0 := by
        rw [List.countP_cons_of_pos hx] at h
        omega
      have hnone : rest.reverse.find? p = none := by
        rw [List.find?_eq_none]
        intro b hb
        exact List.countP_eq_zero.mp hrest b (List.mem_reverse.mp hb)
      simp [hnone, hx]

end Lists

namespace Class

variable {c : Class} {decl : ClassDecl}

/-- A member is found at the last position that carries its name. -/
theorem memberOffset?_eq_some_iff {name : String} {i : Nat} :
    c.memberOffset? name = some i ↔ c.members[i]?.map Member.name = some name ∧
      ∀ j, i < j → c.members[j]?.map Member.name ≠ some name := by
  unfold memberOffset?
  generalize c.members = members
  induction members using List.reverseRecOn with
  | nil => simp
  | append_singleton members m ih =>
    have hlast : (members ++ [m])[members.length]? = some m := List.getElem?_concat_length
    rw [List.zipIdx_append, List.reverse_append, List.zipIdx_singleton, List.reverse_singleton,
      List.singleton_append, List.find?_cons]
    dsimp only
    by_cases hname : m.name = name
    · -- The last member has the name, so its position is the one that is found.
      rw [beq_iff_eq.mpr hname]
      constructor
      · intro h
        obtain rfl : members.length = i := by simpa using h
        refine ⟨by rw [hlast]; exact congrArg some hname, fun j hj => ?_⟩
        have hnone : (members ++ [m])[j]? = none := by simp; omega
        simp [hnone]
      · rintro ⟨hat, hlater⟩
        have hge : members.length ≤ i := by
          by_contra hlt
          exact hlater members.length (by omega) (by rw [hlast]; exact congrArg some hname)
        obtain ⟨m', hm', -⟩ := Option.map_eq_some_iff.mp hat
        have hlt := (List.getElem?_eq_some_iff.mp hm').1
        rw [List.length_append, List.length_singleton] at hlt
        exact congrArg some (by omega)
    · -- Otherwise the last member does not count.
      have hsame : ∀ j : Nat, (members ++ [m])[j]?.map Member.name = some name ↔
          members[j]?.map Member.name = some name := by
        intro j
        rw [List.getElem?_append]
        split
        · rfl
        · rename_i hge
          rw [List.getElem?_eq_none (Nat.not_lt.mp hge), List.getElem?_singleton]
          split <;> simp [hname]
      rw [beq_eq_false_iff_ne.mpr hname]
      simp only [ih, hsame, ne_eq]

/-- A member whose name is not repeated is found at the first position that carries it. -/
theorem memberOffset?_eq_findIdx? {name : String}
    (h : (c.members.countP fun m => m.name == name) ≤ 1) :
    c.memberOffset? name = c.members.findIdx? fun m => m.name == name := by
  have hcount : (c.members.zipIdx.countP fun p => p.1.name == name) ≤ 1 := by
    rw [← List.zipIdx_map_fst 0 c.members, List.countP_map] at h
    exact h
  rw [memberOffset?, find?_reverse_eq hcount, List.findIdx?_eq_fst_find?_zipIdx]

end Class

namespace Linkage

open LinkM

variable {l : Linkage} {name : String}

/-- With an empty source, a class is found exactly if it is known. -/
theorem findClass_iff_of_empty (hfiles : l.registry.files = [])
    (hsource : ∀ file bytes, l.registry.source.fetch file ≠ .ok bytes) (c : Class) (l' : Linkage) :
    findClass name l = .ok c l' ↔ l.registry.class? name = some c ∧ l' = l := by
  rcases findClass_cases name l with ⟨c', hclass, hok⟩ | ⟨e, e', hclass, -, herror⟩ |
    ⟨file, cls, hclass, -, heq⟩
  · rw [hok, hclass]
    simp [eq_comm]
  · rw [herror, hclass]
    simp
  · have hfile : l.registry.file? file = none := by rw [Registry.file?, hfiles]; rfl
    obtain ⟨e, hfetch⟩ : ∃ e, l.registry.source.fetch file = .error e := by
      cases hfetch : l.registry.source.fetch file with
      | ok bytes => exact absurd hfetch (hsource file bytes)
      | error e => exact ⟨e, rfl⟩
    have himage : l.registry.source.image file = .error e := by rw [Source.image, hfetch]; rfl
    have hrequire := requireFile_of_new hfile
    rw [himage] at hrequire
    rw [heq, Action.bind_of_error hrequire, hclass]
    simp

/-- After a program has been installed on its own, its last declaration of a name is the class. -/
theorem class?_program (source : Source) (store : Store) (image : Image) (name : String) :
    (serve ⟨Registry.empty source, store⟩ (.program image)).registry.class? name =
      (image.classes.reverse.find? fun decl => decl.name == name).map
        (Registry.declaredClass none 0) := by
  have hentered : (serve ⟨Registry.empty source, store⟩ (.program image)).registry.class? name =
      (Entry.class? ⟨none, image⟩ 0 name).or none :=
    class?_enter ⟨Registry.empty source, store⟩ ⟨none, image⟩ name
  rw [hentered, Option.or_none]
  rfl

/-- Let a program be installed in an empty linker whose source has no files. Then a class is found
exactly if the program declares one under the name, and it is made from the last declaration of the
name: it has the members of that declaration, each of its methods is the last one of its name, and
each member is found at the last position that carries its name. So the class that is found, its
methods and its member positions are the ones that are declared first as long as the name in
question is not repeated. -/
theorem last_declarations_are_found (source : Source) (store : Store) (image : Image)
    (name : String) (hsource : ∀ file bytes, source.fetch file ≠ .ok bytes) :
    let l := serve ⟨Registry.empty source, store⟩ (.program image)
    ((∃ c l', findClass name l = .ok c l') ↔ (image.class? name).isSome) ∧
    ∀ c l', findClass name l = .ok c l' → ∃ decl,
      LastNamed ClassDecl.name name image.classes decl ∧
      c.members = decl.members ∧
      (∀ method f, c.method? method = some f ↔ LastNamed Function.name method decl.methods f) ∧
      (∀ member i, c.memberOffset? member = some i ↔
        decl.members[i]?.map Member.name = some member ∧
          ∀ j, i < j → decl.members[j]?.map Member.name ≠ some member) ∧
      ((image.classes.countP fun decl => decl.name == name) ≤ 1 →
        image.class? name = some decl) ∧
      (∀ method, (decl.methods.countP fun f => f.name == method) ≤ 1 →
        c.method? method = decl.method? method) ∧
      ∀ member, (decl.members.countP fun m => m.name == member) ≤ 1 →
        c.memberOffset? member = decl.members.findIdx? fun m => m.name == member := by
  intro l
  have hfiles : l.registry.files = [] := by
    obtain ⟨classes, hregistry⟩ :=
      Registry.exists_foldl_insertClass none 0 image.classes (Registry.empty source)
    exact congrArg Registry.files hregistry
  have hfetch : l.registry.source = source :=
    Registry.source_enter (Registry.empty source) store.heaps.size none image
  have hfind : ∀ c l', findClass name l = .ok c l' ↔ l.registry.class? name = some c ∧ l' = l := by
    apply findClass_iff_of_empty hfiles
    rw [hfetch]
    exact hsource
  have hclass : l.registry.class? name = _ := class?_program source store image name
  constructor
  · constructor
    · rintro ⟨c, l', hok⟩
      obtain ⟨hknown, -⟩ := (hfind c l').mp hok
      obtain ⟨decl, hdecl, -⟩ := Option.map_eq_some_iff.mp (hclass.symm.trans hknown)
      have hmem := List.mem_reverse.mp (List.mem_of_find?_eq_some hdecl)
      have hname := List.find?_some hdecl
      exact List.find?_isSome.mpr ⟨decl, hmem, hname⟩
    · intro hdeclared
      obtain ⟨decl, hmem, hname⟩ := List.find?_isSome.mp hdeclared
      have hagain : (image.classes.reverse.find? fun decl => decl.name == name).isSome :=
        List.find?_isSome.mpr ⟨decl, List.mem_reverse.mpr hmem, hname⟩
      obtain ⟨last, hlast⟩ := Option.isSome_iff_exists.mp hagain
      rw [hlast] at hclass
      exact ⟨_, l, (hfind _ l).mpr ⟨hclass, rfl⟩⟩
  · intro c l' hok
    obtain ⟨hknown, -⟩ := (hfind c l').mp hok
    obtain ⟨decl, hdecl, rfl⟩ := Option.map_eq_some_iff.mp (hclass.symm.trans hknown)
    refine ⟨decl, find?_reverse_eq_some_iff.mp hdecl, rfl, fun method f => ?_, fun member i => ?_,
      fun honce => ?_, fun method honce => ?_, fun member honce => ?_⟩
    · exact find?_reverse_eq_some_iff
    · exact Class.memberOffset?_eq_some_iff
    · rw [Image.class?, ← find?_reverse_eq honce, hdecl]
    · exact find?_reverse_eq honce
    · exact Class.memberOffset?_eq_findIdx? honce

/-- A program that repeats the name of a class, and inside another class the names of a method and
of a member. -/
def echoing : Image where
  constants := #[]
  heap := []
  classes := [⟨"Twice", [⟨"a", [Tag.long]⟩], []⟩, ⟨"Twice", [⟨"b", [Tag.byte]⟩], []⟩,
    ⟨"Echo", [⟨"x", [Tag.long]⟩, ⟨"y", [Tag.long]⟩, ⟨"x", [Tag.byte]⟩],
      [⟨"get", false, [], #[]⟩, ⟨"get", true, [3, 4], #[]⟩]⟩]

/-- The linker in which that program has been installed. -/
def echoed : Linkage :=
  serve ⟨Registry.empty Source.empty, Store.empty 16⟩ (.program echoing)

/-- The program can be read from bytes. -/
example : (Image.decode echoing.encode).toOption = some echoing := by decide +kernel

/-- The class that is found under the repeated name has other members than the first declaration;
and in the other class the method that is found is not the first one, and the member that is found
is not at the first position. -/
theorem echoes_differ_from_first :
    (∃ c decl, findClass "Twice" echoed = .ok c echoed ∧ echoing.class? "Twice" = some decl ∧
      c.members ≠ decl.members) ∧
    ∃ c decl f g, findClass "Echo" echoed = .ok c echoed ∧ echoing.class? "Echo" = some decl ∧
      c.method? "get" = some f ∧ decl.method? "get" = some g ∧ f ≠ g ∧
      c.memberOffset? "x" = some 2 ∧ decl.members.findIdx? (·.name == "x") = some 0 := by
  constructor
  · obtain ⟨c, hc, hmembers⟩ : ∃ c, echoed.registry.class? "Twice" = some c ∧
        c.members = [⟨"b", [Tag.byte]⟩] := by
      refine Option.map_eq_some_iff.mp ?_
      decide +kernel
    refine ⟨c, ⟨"Twice", [⟨"a", [Tag.long]⟩], []⟩, findClass_of_known hc, rfl, ?_⟩
    rw [hmembers]
    decide
  · obtain ⟨c, hc, hparts⟩ : ∃ c, echoed.registry.class? "Echo" = some c ∧
        (c.method? "get", c.memberOffset? "x") = (some ⟨"get", true, [3, 4], #[]⟩, some 2) := by
      refine Option.map_eq_some_iff.mp ?_
      decide +kernel
    obtain ⟨hmethod, hoffset⟩ := Prod.mk.inj hparts
    refine ⟨c, _, _, ⟨"get", false, [], #[]⟩, findClass_of_known hc, rfl, hmethod, rfl, ?_, hoffset,
      ?_⟩
    · decide
    · decide +kernel

/-- The last declaration of the repeated name is found, with its member at the position at which it
is declared; and the other class is found for its only declaration. -/
theorem last_found_among_echoes : (∀ file bytes, Source.empty.fetch file ≠ .ok bytes) ∧
    (∃ c l decl, findClass "Twice" echoed = .ok c l ∧
      LastNamed ClassDecl.name "Twice" echoing.classes decl ∧ c.members = decl.members ∧
      decl.members = [⟨"b", [Tag.byte]⟩] ∧ c.memberOffset? "b" = some 0) ∧
    ∃ c l decl, findClass "Echo" echoed = .ok c l ∧ echoing.class? "Echo" = some decl ∧
      c.members = decl.members ∧ c.memberOffset? "y" = some 1 := by
  have hsource : ∀ file bytes, Source.empty.fetch file ≠ .ok bytes := fun _ _ => nofun
  refine ⟨hsource, ?_, ?_⟩
  · obtain ⟨hfound, hparts⟩ :=
      last_declarations_are_found Source.empty (Store.empty 16) echoing "Twice" hsource
    obtain ⟨c, l, hc⟩ := hfound.mpr rfl
    obtain ⟨decl, hlast, hmembers, -, hoffset, -, -, -⟩ := hparts c l hc
    have hdecl : decl = ⟨"Twice", [⟨"b", [Tag.byte]⟩], []⟩ := by
      have hfind := find?_reverse_eq_some_iff.mpr hlast
      exact (Option.some.inj hfind).symm
    subst hdecl
    refine ⟨c, l, _, hc, hlast, hmembers, rfl, (hoffset "b" 0).mpr ⟨rfl, fun j hj => ?_⟩⟩
    rw [List.getElem?_eq_none (Nat.succ_le_of_lt hj)]
    exact nofun
  · obtain ⟨hfound, hparts⟩ :=
      last_declarations_are_found Source.empty (Store.empty 16) echoing "Echo" hsource
    obtain ⟨c, l, hc⟩ := hfound.mpr rfl
    obtain ⟨decl, -, hmembers, -, -, hfirst, -, hposition⟩ := hparts c l hc
    have hdecl : echoing.class? "Echo" = some decl := hfirst (by decide +kernel)
    have hyes : decl.members.findIdx? (·.name == "y") = some 1 ∧
        (decl.members.countP fun m => m.name == "y") ≤ 1 := by
      obtain rfl := Option.some.inj (hdecl.symm.trans rfl)
      decide +kernel
    exact ⟨c, l, decl, hc, hdecl, hmembers, (hposition "y" hyes.2).trans hyes.1⟩

end Linkage

end SlotMachine
