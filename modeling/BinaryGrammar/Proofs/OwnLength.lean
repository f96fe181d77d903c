import Mathlib
import BinaryGrammar.Proofs.FixedLength
import BinaryGrammar.Proofs.Scope

/-!
# Lengths that name fields of the structure itself

The length of a structure may name fields of the structure, but the formula is tried before any of
them is read, and then a name leads to a field of that name around the structure if there is one. So
it depends on the surroundings which fields decide. What matters is the last of the named fields in
the order of decoding: if the surroundings do not know it, the length waits for it, and by then all
names lead to fields of the structure; if they do, the length is settled without it.
-/

set_option autoImplicit false

namespace BinaryGrammar

/-! ## Names in surroundings -/

theorem Context.find?_enter {doc : Document} {name : String} (hname : name ≠ "") (ctx : Context)
    (vs : List Value) (extent : Extent) :
    (ctx.enter (.ofValues doc vs) extent).find? name =
      (vs.reverse.find? (Value.isNamed doc name)).or (ctx.find? name) := by
  unfold Context.find? Context.enter
  rw [List.findSome?_cons, Frame.get?_ofValues hname]
  cases vs.reverse.find? (Value.isNamed doc name) with
  | none => rfl
  | some v => rfl

/-- Where a path leads depends on where its first name leads. -/
theorem Context.scope_congr {doc : Document} {ctx ctx' : Context} {name : String}
    (h : ctx.find? name = ctx'.find? name) (rest : List String) :
    ctx.scope doc (name :: rest) = ctx'.scope doc (name :: rest) := by
  simp only [scope, follow?, h]

/-- A name that no field has leads nowhere among them. -/
theorem find?_named_eq_none {doc : Document} {name : String} {vs : List Value}
    (h : ∀ v ∈ vs, (doc.element v.element).name ≠ name) :
    vs.reverse.find? (Value.isNamed doc name) = none := by
  rw [List.find?_eq_none]
  intro v hv hb
  exact h v (List.mem_reverse.mp hv) (beq_iff_eq.mp hb)

/-- Fields that do not have a name do not change where it leads. -/
theorem find?_named_append {doc : Document} {name : String} {vs more : List Value}
    (h : ∀ v ∈ more, (doc.element v.element).name ≠ name) :
    (vs ++ more).reverse.find? (Value.isNamed doc name) =
      vs.reverse.find? (Value.isNamed doc name) := by
  rw [List.reverse_append, List.find?_append, find?_named_eq_none h, Option.none_or]

theorem exists_last {α : Type} {p : α → Prop} : ∀ {xs : List α}, (∃ x ∈ xs, p x) →
    ∃ before x after, xs = before ++ x :: after ∧ p x ∧ ∀ y ∈ after, ¬ p y
  | [], ⟨x, hx, _⟩ => by cases hx
  | x :: xs, hany => by
      by_cases hrest : ∃ y ∈ xs, p y
      · obtain ⟨before, y, after, hxs, hy, hlast⟩ := exists_last hrest
        exact ⟨x :: before, y, after, by rw [hxs]; rfl, hy, hlast⟩
      · obtain ⟨y, hy, hp⟩ := hany
        rcases List.mem_cons.mp hy with hyx | hyxs
        · rw [hyx] at hp
          exact ⟨[], x, xs, rfl, hp, fun z hz hpz => hrest ⟨z, hz, hpz⟩⟩
        · exact absurd ⟨y, hyxs, hp⟩ hrest

namespace Decoder

variable {σ : Type}

/-! ## The last field that a length names -/

/-- The surroundings in which nothing but the fields of a value is known. -/
def ownFields (d : Decoder σ) (w : Value) : Context :=
  ({} : Context).enter (.ofValues d.document w.children) .pending

/-- Every path in the length of a structure begins with a name that one field of the value has, and
only one. -/
def NamesOwnFields (d : Decoder σ) (i : Nat) (w : Value) : Prop :=
  ∀ path ∈ d.lengthPaths i, ∃ name rest, path = name :: rest ∧ name ≠ "" ∧
    (w.childrenNamed d.document name).length = 1

/-- The length of a structure names a field. -/
def Named (d : Decoder σ) (i : Nat) (u : Value) : Prop :=
  ∃ path ∈ d.lengthPaths i, path.head? = some (d.document.element u.element).name

/-- A field with others before and after it is the last one that the length names. -/
structure LastNamed (d : Decoder σ) (i : Nat) (w : Value) (before : List Value) (u : Value)
    (after : List Value) : Prop where
  split : w.children = before ++ u :: after
  named : Named d i u
  last : ∀ x ∈ after, ¬ Named d i x

/-- A path by which the length names a field leads to no integer in the surroundings. -/
def Hidden (d : Decoder σ) (ctx : Context) (i : Nat) (u : Value) : Prop :=
  ∃ path ∈ d.lengthPaths i, path.head? = some (d.document.element u.element).name ∧
    ctx.scope d.document path = none

variable {d : Decoder σ} {ctx : Context} {i : Nat} {w u : Value} {before after : List Value}

/-- A name that one field has is not the name of a field before and of one after. -/
theorem name_ne_of_once {name : String} {x y : Value}
    (honce : (w.childrenNamed d.document name).length = 1) (hsplit : w.children = before ++ after)
    (hx : x ∈ before) (hxname : (d.document.element x.element).name = name) (hy : y ∈ after) :
    (d.document.element y.element).name ≠ name := by
  intro hyname
  unfold Value.childrenNamed at honce
  rw [hsplit, List.filter_append, List.length_append] at honce
  have hxs : 0 < (before.filter (Value.isNamed d.document name)).length :=
    List.length_pos_of_mem (List.mem_filter.mpr ⟨hx, beq_iff_eq.mpr hxname⟩)
  have hys : 0 < (after.filter (Value.isNamed d.document name)).length :=
    List.length_pos_of_mem (List.mem_filter.mpr ⟨hy, beq_iff_eq.mpr hyname⟩)
  omega

theorem exists_of_once {name : String} (honce : (w.childrenNamed d.document name).length = 1) :
    ∃ x ∈ w.children, (d.document.element x.element).name = name := by
  obtain ⟨x, hx⟩ := List.exists_mem_of_length_pos (Nat.lt_of_lt_of_eq Nat.one_pos honce.symm)
  obtain ⟨hmem, hname⟩ := List.mem_filter.mp hx
  exact ⟨x, hmem, beq_iff_eq.mp hname⟩

/-- A name that is not found among the fields of a structure leads to its surroundings. -/
theorem scope_enter_none {name : String} (hname : name ≠ "") (rest : List String)
    (h : ∀ v ∈ before, (d.document.element v.element).name ≠ name) (extent : Extent) :
    (ctx.enter (.ofValues d.document before) extent).scope d.document (name :: rest) =
      ctx.scope d.document (name :: rest) := by
  apply Context.scope_congr
  rw [Context.find?_enter hname, find?_named_eq_none h, Option.none_or]

variable (heval : d.evaluator = Formula.evaluate) (hown : NamesOwnFields d i w)
include heval hown

/-- A length that is found has waited for a field that the surroundings do not know. -/
theorem last_found {u : Value} {pre post : List Value} {length : Nat} {extent : Extent}
    (hsplit : w.children = before ++ after)
    (hbits : d.extentBits? (ctx.enter (.ofValues d.document before) extent) i = .ok (some length))
    (hlast : LastNamed d i w pre u post) (hhidden : Hidden d ctx i u) :
    ∀ x ∈ after, ¬ Named d i x := by
  obtain ⟨path, hp, hhead, hnone⟩ := hhidden
  obtain ⟨name, rest, hpath, hname, honce⟩ := hown path hp
  subst hpath
  injection hhead with hu
  -- the path leads somewhere, so one of the fields has its first name
  have hread : ∃ x ∈ before, (d.document.element x.element).name = name := by
    apply Classical.byContradiction
    intro hno
    have hfound := extentBits?_found heval hbits _ hp
    rw [scope_enter_none hname rest (fun v hv hv' => hno ⟨v, hv, hv'⟩), hnone] at hfound
    cases hfound
  obtain ⟨x, hx, hxname⟩ := hread
  have hnotafter : u ∉ after := fun hmem => name_ne_of_once honce hsplit hx hxname hmem hu.symm
  rcases List.append_eq_append_iff.mp (hsplit.symm.trans hlast.split) with
    ⟨as, _, hafter⟩ | ⟨bs, _, hpost⟩
  · exact absurd (hafter ▸ List.mem_append_right _ List.mem_cons_self) hnotafter
  · cases bs with
    | nil =>
        rw [List.nil_append] at hpost
        exact absurd (hpost ▸ List.mem_cons_self) hnotafter
    | cons b bs =>
        rw [List.cons_append] at hpost
        injection hpost with _ hpost
        exact fun y hy => hlast.last y (hpost ▸ List.mem_append_right _ hy)

/-- **A length that waits for its last field is found from the fields of the structure alone.** -/
theorem LengthFound.own (hfound : LengthFound d ctx i w)
    (hhidden : ∀ before u after, LastNamed d i w before u after → Hidden d ctx i u) :
    d.extentBits? (d.ownFields w) i = .ok (some (8 * w.length)) := by
  obtain ⟨fields, rest, hsplit, _, hbits, _⟩ := hfound
  rw [← hbits]
  refine extentBits?_congr heval fun path hp => ?_
  obtain ⟨name, tail, hpath, hname, honce⟩ := hown path hp
  subst hpath
  obtain ⟨x, hx, hxname⟩ := exists_of_once honce
  obtain ⟨pre, u, post, hsplit', hnamed, hlast⟩ :=
    exists_last (p := Named d i) ⟨x, hx, _, hp, by rw [hxname]; rfl⟩
  have hu : LastNamed d i w pre u post := ⟨hsplit', hnamed, hlast⟩
  have hrest := last_found heval hown hsplit hbits hu (hhidden pre u post hu)
  have hnone : ∀ v ∈ rest, (d.document.element v.element).name ≠ name :=
    fun v hv hv' => hrest v hv ⟨_, hp, by rw [hv']; rfl⟩
  -- so the name leads to the same field, and to one that has been read
  apply Context.scope_congr
  unfold ownFields
  rw [Context.find?_enter hname, Context.find?_enter hname, hsplit, find?_named_append hnone]
  cases hfind : fields.reverse.find? (Value.isNamed d.document name) with
  | some y => rfl
  | none =>
      rw [hsplit] at hx
      rcases List.mem_append.mp hx with hx | hx
      · rw [List.find?_eq_none] at hfind
        exact absurd (beq_iff_eq.mpr hxname) (hfind x (List.mem_reverse.mpr hx))
      · exact absurd hxname (hnone x hx)

/-- **A length whose last field is known outside is found without it.** -/
theorem LengthFound.outside (hfound : LengthFound d ctx i w)
    (hlast : LastNamed d i w before u after) (hknown : ¬ Hidden d ctx i u) :
    ∃ earlier later, before = earlier ++ later ∧
      d.extentBits? (ctx.enter (.ofValues d.document earlier) .pending) i =
        .ok (some (8 * w.length)) := by
  obtain ⟨fields, rest, hsplit, _, hbits, hshorter⟩ := hfound
  rcases List.append_eq_append_iff.mp (hsplit.symm.trans hlast.split) with
    ⟨as, hbefore, _⟩ | ⟨bs, hfields, hpost⟩
  · exact ⟨fields, as, hbefore, hbits⟩
  · cases bs with
    | nil =>
        rw [List.append_nil] at hfields
        exact ⟨fields, [], by rw [hfields, List.append_nil], hbits⟩
    | cons b bs =>
        exfalso
        rw [List.cons_append] at hpost
        injection hpost with hub _
        subst hub
        obtain ⟨cause, hcause, hunknown⟩ := hshorter before (u :: bs) hfields (by simp)
        obtain ⟨path, hp, hnone⟩ := extentBits?_unknown heval hcause hunknown
        obtain ⟨name, tail, hpath, hname, honce⟩ := hown path hp
        subst hpath
        by_cases hu : (d.document.element u.element).name = name
        · -- the path names the last field, which is not there yet, and leads outside
          have hbefore : ∀ v ∈ before, (d.document.element v.element).name ≠ name :=
            fun v hv hv' => name_ne_of_once honce hlast.split hv hv' List.mem_cons_self hu
          rw [scope_enter_none hname tail hbefore] at hnone
          exact hknown ⟨_, hp, by rw [hu]; rfl, hnone⟩
        · -- the path names an earlier field, and leads to it before and after
          obtain ⟨x, hx, hxname⟩ := exists_of_once honce
          rw [hlast.split] at hx
          have hxbefore : x ∈ before := by
            rcases List.mem_append.mp hx with hx | hx
            · exact hx
            · rcases List.mem_cons.mp hx with hx | hx
              · rw [hx] at hxname
                exact absurd hxname hu
              · exact absurd ⟨_, hp, by rw [hxname]; rfl⟩ (hlast.last x hx)
          have hmore : ∀ v ∈ u :: bs, (d.document.element v.element).name ≠ name := by
            intro v hv
            have hsplit' : w.children = before ++ (u :: bs ++ rest) := by
              rw [hsplit, hfields, List.append_assoc]
            exact name_ne_of_once honce hsplit' hxbefore hxname (List.mem_append_left _ hv)
          have hfound := extentBits?_found heval hbits _ hp
          have hsame : (ctx.enter (.ofValues d.document fields) .pending).find? name =
              (ctx.enter (.ofValues d.document before) .pending).find? name := by
            rw [Context.find?_enter hname, Context.find?_enter hname, hfields,
              find?_named_append hmore]
          rw [Context.scope_congr hsame, hnone] at hfound
          cases hfound

omit hown

/-- **A structure whose length names its own fields waits for the last of them, unless that is known
outside.** In a tree that a step gives, take a structure whose length names fields of its own, each
of them once. If the last of these is hidden from the surroundings, the structure is as long as its
formula says of its own fields. If it is not, the length has been settled before that field was
read. -/
theorem step_own_length {s : Step} {v : Value} {c c' : Cursor σ} (hdoc : d.document.Made)
    (hc : c.pos < Word.modulus) (h : d.step s c = .ok (some v) c') :
    ∀ ctx w i body, Occurs d {} v ctx w → d.document.structureOf? w.element = some (i, body) →
      d.document.length i ≠ none → NamesOwnFields d i w →
      ((∀ before u after, LastNamed d i w before u after → Hidden d ctx i u) →
        d.extentBits? (d.ownFields w) i = .ok (some (8 * w.length))) ∧
      ∀ before u after, LastNamed d i w before u after → ¬ Hidden d ctx i u →
        ∃ earlier later, before = earlier ++ later ∧
          d.extentBits? (ctx.enter (.ofValues d.document earlier) .pending) i =
            .ok (some (8 * w.length)) := by
  intro ctx w i body hw hs hlength hown
  obtain ⟨j, hread⟩ := step_some h
  obtain ⟨levels, c₁, c₂, p₀, p₁, p₂, ts, padding, hc₁, hholds, hstructure⟩ :=
    occurs_structureRead (maintains_word d) hdoc.reserved hc hread hw hs
  have hfound := hstructure.lengthFound (maintains_word d) hc₁ hholds hlength
  exact ⟨fun hhidden => hfound.own heval hown hhidden,
    fun before u after hlast hknown => hfound.outside heval hown hlast hknown⟩

end Decoder

/-! ## A box in a box of the same name

A file has a length and then a box, and the box has a length of its own, by the same name. -/

/-- The grammar of the file. -/
def Document.nested : Document :=
  .ofParts "" { start := some { reference := .id 1, target := some 3 } }
    #[{ ident := { name := "len" }, body := .number { length := some (.constant 1) } },
      { ident := { name := "len" }, body := .number { length := some (.constant 1) } },
      { ident := { name := "box" },
        body := .struct { length := some (.formula "len"), elements := [1] } },
      { ident := { name := "file" }, body := .struct { elements := [0, 2] } }] #[]

namespace Decoder

/-- A decoder of the file in memory. -/
def nested : Decoder Bytes := { document := .nested, source := .plain }

theorem nested_lengthPaths : nested.lengthPaths 2 = [["len"]] := by cbv

theorem nested_namesOwnFields {w : Value}
    (h : (w.childrenNamed nested.document "len").length = 1) : NamesOwnFields nested 2 w := by
  intro path hp
  rw [nested_lengthPaths] at hp
  exact ⟨"len", [], List.mem_singleton.mp hp, by decide, h⟩

/-- A box that is read alone is as long as it says. -/
theorem step_own_length_box : ∃ v c,
    nested.step (.read 2) { pos := 8, source := #[3, 2, 0xAA, 0xBB] } = .ok (some v) c ∧
    nested.extentBits? (nested.ownFields v) 2 = .ok (some (8 * v.length)) ∧ v.length = 2 := by
  have h : nested.step (.read 2) { pos := 8, source := #[3, 2, 0xAA, 0xBB] } =
      .ok (some
        { element := 2, offset := 1, length := 2,
          children :=
            [{ element := 1, offset := 1, length := 1, payload := .int 2 },
              { element := 4, offset := 2, length := 1 }] })
        { pos := 24, source := #[3, 2, 0xAA, 0xBB] } := by cbv
  have hlength := (step_own_length rfl (.ofParts ..) (by decide) h {} _ 2 _ .root rfl (by decide)
    (nested_namesOwnFields (by decide))).1
  refine ⟨_, _, h, hlength ?_, rfl⟩
  intro before u after hlast
  obtain ⟨path, hp, hhead⟩ := hlast.named
  refine ⟨path, hp, hhead, ?_⟩
  rw [nested_lengthPaths] at hp
  rw [List.mem_singleton.mp hp]
  rfl

/-- A box in a file is as long as the file says, not as it says itself. -/
theorem decode_nested : ∃ v c ctx w,
    nested.step .decode { source := #[3, 2, 0xAA, 0xBB] } = .ok (some v) c ∧
    Occurs nested {} v ctx w ∧ w.element = 2 ∧ NamesOwnFields nested 2 w ∧
    nested.extentBits? (nested.ownFields w) 2 = .ok (some 16) ∧ w.length = 3 := by
  have h : nested.step .decode { source := #[3, 2, 0xAA, 0xBB] } =
      .ok (some
        { element := 3, offset := 0, length := 4,
          children :=
            [{ element := 0, offset := 0, length := 1, payload := .int 3 },
              { element := 2, offset := 1, length := 3,
                children :=
                  [{ element := 1, offset := 1, length := 1, payload := .int 2 },
                    { element := 4, offset := 2, length := 2 }] }] })
        { pos := 32, source := #[3, 2, 0xAA, 0xBB] } := by cbv
  refine ⟨_, _, _, _, h, @Occurs.field _ _ _ _ _ _ _ [_] _ rfl .root, rfl, ?_, by cbv, rfl⟩
  exact nested_namesOwnFields (by decide)

end Decoder

end BinaryGrammar
