import BinaryGrammar.Proofs.Inheritance

/-!
# The phases of loading

A document is loaded in phases. Each of them reports problems of its own kinds only, so that a
problem tells which phase has met it: a circle of bases is only reported by the search for an order,
and an id that is used twice only while elements are registered.

Once elements are registered no phase changes the label of an element, its children, its parent or
the reference to its base.
-/

set_option autoImplicit false

namespace BinaryGrammar

/-- The phases of loading, in order. -/
inductive Phase where
  | reading
  | registering
  | linking
  | ordering
  | filling
  | resolving
  | validating
  | searching
  deriving DecidableEq, Repr

/-- Whether a phase reports problems of such a kind. -/
def Phase.reports : Phase → Diagnostic → Bool
  | reading, .invalidValue .. => true
  | registering, .duplicateId .. => true
  | registering, .duplicateScript .. => true
  | linking, .danglingReference .. => true
  | ordering, .derivesCycle .. => true
  | filling, .mismatch .. => true
  | resolving, .missingAttribute .. => true
  | resolving, .danglingReference .. => true
  | resolving, .wrongTarget .. => true
  | validating, .missingAttribute .. => true
  | validating, .invalidRepeats .. => true
  | validating, .invalidLength .. => true
  | searching, .emptyRecursion .. => true
  | _, _ => false

namespace Phase

/-- All of some problems are such as a phase reports. -/
def Admits (p : Phase) (ds : List Diagnostic) : Prop := ∀ d ∈ ds, p.reports d = true

namespace Admits

variable {p : Phase} {d : Diagnostic} {ds ds' : List Diagnostic}

@[simp] theorem nil : p.Admits [] := fun _ hd => by cases hd

theorem one (hd : p.reports d = true) : p.Admits [d] := by
  intro d' hd'
  rw [List.mem_singleton.mp hd']
  exact hd

theorem ite {c : Prop} [Decidable c] (h : p.Admits ds) (h' : p.Admits ds') :
    p.Admits (if c then ds else ds') := by
  split
  · exact h
  · exact h'

@[simp] theorem append_iff : p.Admits (ds ++ ds') ↔ p.Admits ds ∧ p.Admits ds' :=
  List.forall_mem_append

theorem filter_self (h : p.Admits ds) : ds.filter p.reports = ds := List.filter_eq_self.mpr h

end Admits

/-- No other phase reports problems of the kinds that this one reports. -/
def Sole (p : Phase) : Prop := ∀ q ≠ p, ∀ d, q.reports d = true → p.reports d = false

theorem sole_registering : Sole registering := by
  intro q hq d hd
  cases q <;> cases d <;> simp_all [reports]

theorem sole_ordering : Sole ordering := by
  intro q hq d hd
  cases q <;> cases d <;> simp_all [reports]

theorem sole_searching : Sole searching := by
  intro q hq d hd
  cases q <;> cases d <;> simp_all [reports]

theorem Sole.filter_eq_nil {p q : Phase} (hp : p.Sole) {ds : List Diagnostic} (h : q.Admits ds)
    (hq : q ≠ p) : ds.filter p.reports = [] := by
  rw [List.filter_eq_nil_iff]
  intro d hd
  rw [hp q hq d (h d hd)]
  exact Bool.false_ne_true

end Phase

/-! ## Reading -/

namespace Attribute

variable {α β : Type} (label : Label)

theorem invalid_admits (attr value : String) :
    Phase.reading.Admits (invalid label attr value : Noted (Option α)).notes := .one rfl

@[simp] theorem interpret_admits (read? : String → Option α) (attr s : String) :
    Phase.reading.Admits (interpret read? label attr s).notes := by
  unfold interpret
  dsimp only
  split
  · exact .nil
  · split
    · exact .nil
    · exact invalid_admits label _ _

@[simp] theorem pick_admits (table : List (String × α)) (attr s : String) :
    Phase.reading.Admits (pick table label attr s).notes := interpret_admits label _ attr s

@[simp] theorem yesNo_admits (attr s : String) : Phase.reading.Admits (yesNo label attr s).notes :=
  pick_admits label yesNoWords attr s

@[simp] theorem delimiter_admits (s : String) : Phase.reading.Admits (delimiter label s).notes :=
  interpret_admits label _ "delimiter" s

@[simp] theorem colours_admits (c : Record.Common) :
    Phase.reading.Admits (colours label c).notes := by
  simp [colours, colour]

theorem numberLiteral_admits (s : String) : Phase.reading.Admits (numberLiteral label s).notes := by
  unfold numberLiteral
  dsimp only
  split
  · exact .nil
  · exact invalid_admits label _ _

theorem collect_admits {f : α → Noted (Option β)} (hf : ∀ a, Phase.reading.Admits (f a).notes) :
    ∀ as : List α, Phase.reading.Admits (collect f as).notes
  | [] => .nil
  | a :: as => by
      unfold collect
      simp only [Noted.notes_bind, Noted.notes_pure, Phase.Admits.append_iff, Phase.Admits.nil,
        and_true]
      exact ⟨hf a, collect_admits hf as⟩

theorem fixedNumber_admits (v : Record.FixedValue) :
    Phase.reading.Admits (fixedNumber label v).notes := by
  simp [fixedNumber, numberLiteral_admits]

theorem mask_admits (m : Record.Mask) : Phase.reading.Admits (mask label m).notes := by
  unfold mask
  rw [Noted.notes_bind, Phase.Admits.append_iff]
  refine ⟨numberLiteral_admits label _, ?_⟩
  split
  · simp [collect_admits (fixedNumber_admits label)]
  · exact invalid_admits label _ _
  · exact .nil

theorem fixedBytes_admits (v : Record.FixedValue) :
    Phase.reading.Admits (fixedBytes label v).notes := by
  unfold fixedBytes
  split
  · exact .nil
  · exact invalid_admits label _ _

end Attribute

namespace Build

/-- All problems of an assembly have been met while attributes were read. -/
def Assembly.Readable (a : Assembly) : Prop := ∀ d ∈ a.notes, Phase.reading.reports d = true

theorem Assembly.Readable.push {a : Assembly} (h : a.Readable) {e : Noted Element}
    (he : Phase.reading.Admits e.notes) : (a.push e).1.Readable := by
  intro d hd
  change d ∈ a.notes ++ e.notes at hd
  rw [← Array.mem_toList_iff, Array.toList_appendList] at hd
  rcases List.mem_append.mp hd with hd | hd
  · exact h d (Array.mem_toList_iff.mp hd)
  · exact he d hd

mutual

theorem addElement_readable : ∀ (e : Record.Element) {a : Assembly}, a.Readable →
    (addElement a e).1.Readable
  | .struct c s elements, _, h =>
      (addElements_readable elements h).push (e := struct c s _) (by simp [struct])
  | .number c n, _, h => h.push (e := number c n) (by
      simp [number, Attribute.collect_admits (Attribute.mask_admits _),
        Attribute.collect_admits (Attribute.fixedNumber_admits _)])
  | .string c s, _, h => h.push (e := string c s) (by simp [string])
  | .binary c b, _, h => h.push (e := binary c b) (by
      simp [binary, Attribute.collect_admits (Attribute.fixedBytes_admits _)])
  | .offset c o, _, h => h.push (e := offset c o) (by simp [offset])
  | .structRef c r, _, h => h.push (e := structRef c r) (by simp [structRef])
  | .grammarRef c g, _, h => h.push (e := grammarRef c g) (by simp [grammarRef])
  | .custom c u, _, h => h.push (e := custom c u) (by simp [custom])
  | .script c s, a, h => by
      have hscript : (a.pushScript (script s c.name)).1.Readable := h
      exact hscript.push (e := { value := scriptElement c a.scripts.size }) .nil

theorem addElements_readable : ∀ (es : List Record.Element) {a : Assembly}, a.Readable →
    (addElements a es).1.Readable
  | [], _, h => h
  | e :: es, _, h => addElements_readable es (addElement_readable e h)

end

theorem addScripts_readable : ∀ (ss : List Record.Script) {a : Assembly}, a.Readable →
    (a.addScripts ss).1.Readable
  | [], _, h => h
  | s :: ss, a, h => addScripts_readable ss (a := (a.pushScript (script s "")).1) h

end Build

namespace Document

variable {doc doc' doc'' : Document}

theorem ofRecord_admits (r : Record.Document) : Phase.reading.Admits (ofRecord r).notes := by
  have hstart : Build.Assembly.Readable
      { notes := (Attribute.yesNo ⟨.grammar, r.grammar.id, r.grammar.name⟩ "complete"
        r.grammar.complete).notes.toArray } := by
    intro d hd
    exact Attribute.yesNo_admits _ _ _ d (by simpa using hd)
  have hall := Build.addElements_readable r.grammar.elements
    (Build.addScripts_readable r.grammar.scripts hstart)
  intro d hd
  exact hall d (Array.mem_toList_iff.mp hd)

/-! ## Registering -/

theorem registerScript_admits (doc : Document) (i : Nat) :
    Phase.registering.Admits (doc.registerScript i).notes := by
  unfold registerScript
  dsimp only
  split
  · exact .nil
  · split
    · intro d hd
      split at hd
      · cases hd
      · rw [List.mem_singleton.mp hd]
        rfl
    · exact .nil

theorem registerId_admits (doc : Document) (i : Nat) :
    Phase.registering.Admits (doc.registerId i).notes := by
  unfold registerId
  dsimp only
  split
  · exact .nil
  · split
    · exact .one rfl
    · exact .nil

theorem registerInlineScript_admits (doc : Document) (i : Nat) :
    Phase.registering.Admits (doc.registerInlineScript i).notes := by
  unfold registerInlineScript
  split
  · exact registerScript_admits doc _
  · exact .nil

theorem registerElement_admits (doc : Document) (entry : Nat × Option Nat) :
    Phase.registering.Admits (doc.registerElement entry).notes := by
  unfold registerElement
  rw [Noted.notes_bind, Phase.Admits.append_iff]
  exact ⟨registerId_admits _ _, registerInlineScript_admits _ _⟩

theorem registerAll_admits {α : Type} {f : Document → α → Noted Document}
    (hf : ∀ doc a, Phase.registering.Admits (f doc a).notes) : ∀ (as : List α) (doc : Document),
    Phase.registering.Admits (registerAll f doc as).notes
  | [], _ => .nil
  | a :: as, doc => by
      unfold registerAll
      rw [Noted.notes_bind, Phase.Admits.append_iff]
      exact ⟨hf doc a, registerAll_admits hf as _⟩

theorem register_admits (doc : Document) : Phase.registering.Admits doc.register.notes := by
  unfold register
  rw [Noted.notes_bind, Phase.Admits.append_iff]
  exact ⟨registerAll_admits registerScript_admits _ _,
    registerAll_admits registerElement_admits _ _⟩

/-! ## Deriving -/

theorem linkBase_admits (doc : Document) (i : Nat) :
    Phase.linking.Admits (doc.linkBase i).notes := by
  unfold linkBase
  split
  · exact .nil
  · split
    · exact .nil
    · exact .one rfl

theorem linkBases_admits : ∀ (is : List Nat) (doc : Document),
    Phase.linking.Admits (linkBases doc is).notes
  | [], _ => .nil
  | i :: is, doc => by
      unfold linkBases
      rw [Noted.notes_bind, Phase.Admits.append_iff]
      exact ⟨linkBase_admits doc i, linkBases_admits is _⟩

theorem fillFromBase_admits (doc : Document) (i : Nat) :
    Phase.filling.Admits (doc.fillFromBase i).notes := by
  unfold fillFromBase
  split
  · exact .nil
  · split
    · exact .nil
    · exact .one rfl

theorem fillAll_admits : ∀ (is : List Nat) (doc : Document),
    Phase.filling.Admits (fillAll doc is).notes
  | [], _ => .nil
  | i :: is, doc => by
      unfold fillAll
      rw [Noted.notes_bind, Phase.Admits.append_iff]
      exact ⟨fillFromBase_admits doc i, fillAll_admits is _⟩

/-! ## Resolving -/

theorem resolveKind_admits (doc : Document) (owner : Label) (attr : String) (reference : Reference)
    (expected : Option Kind) :
    Phase.resolving.Admits (doc.resolveKind owner attr reference expected).notes := by
  unfold resolveKind
  split
  · exact .one rfl
  · split
    · exact .nil
    · split
      · exact .nil
      · exact .one rfl

@[simp] theorem resolveLink_admits (doc : Document) (owner : Label) (attr : String)
    (link : Option (Link Nat)) (expected : Option Kind) :
    Phase.resolving.Admits (doc.resolveLink owner attr link expected).notes := by
  unfold resolveLink
  split
  · exact .nil
  · rw [Noted.notes_bind, Phase.Admits.append_iff]
    exact ⟨resolveKind_admits doc _ _ _ _, Phase.Admits.nil⟩

theorem resolveStructRef_admits (doc : Document) (owner : Label) (r : StructRefBody) :
    Phase.resolving.Admits (doc.resolveStructRef owner r).notes := by
  unfold resolveStructRef
  split
  · exact .one rfl
  · simp

theorem resolveGrammarRef_admits (doc : Document) (owner : Label) (g : GrammarRefBody) :
    Phase.resolving.Admits (doc.resolveGrammarRef owner g).notes := by
  unfold resolveGrammarRef
  split
  · exact .one rfl
  · exact .nil
  · exact .one rfl

theorem resolveCustom_admits (doc : Document) (owner : Label) (c : CustomBody) :
    Phase.resolving.Admits (doc.resolveCustom owner c).notes := by
  unfold resolveCustom
  split
  · exact .one rfl
  · intro d hd
    dsimp only at hd
    split at hd
    all_goals
      split at hd
      · rw [List.mem_singleton.mp hd]
        rfl
      · cases hd

theorem resolveBody_admits (doc : Document) (owner : Label) (body : Body) :
    Phase.resolving.Admits (doc.resolveBody owner body).notes := by
  cases body with
  | structRef r => simp [resolveBody, resolveStructRef_admits]
  | grammarRef g => simp [resolveBody, resolveGrammarRef_admits]
  | custom c => simp [resolveBody, resolveCustom_admits]
  | offset o => simp [resolveBody, resolveOffset]
  | _ => exact .nil

theorem resolveAll_admits : ∀ (is : List Nat) (doc : Document),
    Phase.resolving.Admits (resolveAll doc is).notes
  | [], _ => .nil
  | i :: is, doc => by
      unfold resolveAll
      rw [Noted.notes_bind, Phase.Admits.append_iff]
      exact ⟨resolveBody_admits doc _ _, resolveAll_admits is _⟩

theorem resolveStart_admits (doc : Document) : Phase.resolving.Admits doc.resolveStart.notes := by
  unfold resolveStart
  split
  · exact .one rfl
  · rw [Noted.notes_bind, Phase.Admits.append_iff]
    exact ⟨resolveKind_admits doc _ _ _ _, Phase.Admits.nil⟩

/-! ## Validating -/

theorem validateRepeats_admits (doc : Document) (i : Nat) :
    Phase.validating.Admits (doc.validateRepeats i) := by
  unfold validateRepeats
  dsimp only
  split
  · split
    · exact .ite (.one rfl) .nil
    · exact .ite (.one rfl) .nil
    · exact .nil
  · exact .nil

theorem validateNumber_admits (doc : Document) (i : Nat) (bits : Option Int) :
    Phase.validating.Admits (doc.validateNumber i bits) := by
  unfold validateNumber
  split
  · exact .ite .nil (.one rfl)
  · exact .ite .nil (.one rfl)
  · exact .nil

theorem validateString_admits (doc : Document) (i : Nat) (length : Option Expression)
    (bits : Option Int) : Phase.validating.Admits (doc.validateString i length bits) := by
  unfold validateString
  dsimp only
  split
  · exact .ite (.one rfl) .nil
  · split
    · exact .ite .nil (.one rfl)
    · exact .ite (.one rfl) .nil
  · exact .nil

theorem validateLength_admits (doc : Document) (i : Nat) :
    Phase.validating.Admits (doc.validateLength i) := by
  unfold validateLength
  dsimp only
  split
  · refine .ite (.one rfl) ?_
    split
    · exact validateNumber_admits doc i _
    · exact validateString_admits doc i _ _
    · exact .ite .nil (.one rfl)
    · exact .nil
  · split
    · exact .ite (.one rfl) .nil
    · exact validateString_admits doc i _ _
    · exact .ite (.one rfl) .nil
    · exact .ite (.one rfl) .nil
    · exact .nil

theorem validate_admits (doc : Document) (is : List Nat) :
    Phase.validating.Admits (is.flatMap doc.validate) := by
  intro d hd
  obtain ⟨i, _, hd⟩ := List.mem_flatMap.mp hd
  rcases List.mem_append.mp hd with hd | hd
  · exact validateRepeats_admits doc i d hd
  · exact validateLength_admits doc i d hd

/-! ## Searching -/

theorem searchVisit_admits (doc : Document) (edges : Nat → List Nat) : ∀ (depth : Nat) (s : Search)
    (i : Nat), Phase.searching.Admits s.notes.toList →
    Phase.searching.Admits (Search.visit doc edges depth s i).notes.toList
  | 0, _, _, h => h
  | depth + 1, s, i, h => by
      unfold Search.visit
      split
      · exact h
      · -- each edge adds at most one problem to those met so far
        refine List.foldlRecOn (edges i) _ (motive := fun s : Search =>
          Phase.searching.Admits s.notes.toList) h ?_
        intro s hs t _
        split
        · rw [Array.toList_push, Phase.Admits.append_iff]
          exact ⟨hs, .one rfl⟩
        · exact hs
        · exact searchVisit_admits doc edges depth s t hs

theorem checkRecursion_admits (doc : Document) (order : List Nat) :
    Phase.searching.Admits (doc.checkRecursion order) :=
  List.foldlRecOn _ _ (motive := fun s : Search => Phase.searching.Admits s.notes.toList) .nil
    fun s hs i _ => searchVisit_admits doc _ _ s i hs

/-- The search for an order reports circles of bases only. -/
theorem baseVisit_admits : ∀ (depth : Nat) (o : BaseOrder) (i : Nat),
    Phase.ordering.Admits o.notes.toList →
    Phase.ordering.Admits (BaseOrder.visit depth o i).notes.toList
  | 0, _, _, h => h
  | depth + 1, o, i, h => by
      have hfold (is : List Nat) : Phase.ordering.Admits
          (is.foldl (BaseOrder.visit depth) o).notes.toList :=
        List.foldlRecOn is _ (motive := fun o : BaseOrder =>
          Phase.ordering.Admits o.notes.toList) h fun o ho i _ => baseVisit_admits depth o i ho
      unfold BaseOrder.visit
      dsimp only
      split
      · exact h
      · split
        · exact hfold _
        · split
          · exact hfold _
          · split
            · change Phase.ordering.Admits (Array.push _ _).toList
              rw [Array.toList_push, Phase.Admits.append_iff]
              exact ⟨hfold _, .one rfl⟩
            · exact baseVisit_admits depth (BaseOrder.mark _ i .active) _ (hfold _)

theorem baseOrder_admits (doc : Document) :
    Phase.ordering.Admits doc.baseOrder.notes.toList :=
  List.foldlRecOn _ _ (motive := fun o : BaseOrder => Phase.ordering.Admits o.notes.toList) .nil
    fun o ho i _ => baseVisit_admits _ o i ho

/-! ## All phases -/

theorem derive_notes (doc : Document) :
    (doc.register.value.derive (doc.register.value.preorder.map (·.1))).notes =
      (linkBases doc.register.value (doc.register.value.preorder.map (·.1))).notes ++
        (doc.baseOrder.notes.toList ++
          (fillAll doc.baseOrder.doc doc.baseOrder.merges.toList).notes) := by
  have hpreorder : doc.withBases.preorder = doc.register.value.preorder :=
    preorder_congr (linkBases_edited _ _).sameShape
  unfold derive baseOrder
  rw [hpreorder]
  rfl

/-- What each phase reports about a record. -/
def reported (r : Record.Document) (p : Phase) : List Diagnostic :=
  let doc := (ofRecord r).value
  let order := doc.register.value.preorder.map (·.1)
  let resolved := resolveAll (doc.register.value.derive order).value order
  match p with
  | .reading => (ofRecord r).notes
  | .registering => doc.register.notes
  | .linking => (linkBases doc.register.value order).notes
  | .ordering => doc.baseOrder.notes.toList
  | .filling => (fillAll doc.baseOrder.doc doc.baseOrder.merges.toList).notes
  | .resolving => resolved.notes ++ resolved.value.resolveStart.notes
  | .validating => order.flatMap resolved.value.validate
  | .searching => (load r).value.checkRecursion order

/-- **What is reported of kinds that only one phase reports has been met in that phase.** -/
theorem filter_load {p : Phase} (hp : p.Sole) (r : Record.Document) :
    (load r).notes.filter p.reports = reported r p := by
  have hpart {q : Phase} {ds : List Diagnostic} (h : q.Admits ds) :
      ds.filter p.reports = if q = p then ds else [] := by
    by_cases hq : q = p
    · rw [if_pos hq, ← hq, h.filter_self]
    · rw [if_neg hq, hp.filter_eq_nil h hq]
  unfold reported load update
  simp only [Noted.notes_bind, Noted.value_bind, derive_notes, List.filter_append,
    hpart (ofRecord_admits r), hpart (register_admits _), hpart (linkBases_admits _ _),
    hpart (baseOrder_admits _), hpart (fillAll_admits _ _), hpart (resolveAll_admits _ _),
    hpart (validate_admits _ _), hpart (resolveStart_admits _), hpart (checkRecursion_admits _ _)]
  cases p <;> simp

/-- What is reported about ids and scripts has been met while registering. -/
theorem load_registering (r : Record.Document) :
    (load r).notes.filter Phase.registering.reports = (ofRecord r).value.register.notes :=
  filter_load Phase.sole_registering r

/-- Circles of bases are those that the search for an order has met. -/
theorem load_ordering (r : Record.Document) :
    (load r).notes.filter Phase.ordering.reports =
      (ofRecord r).value.baseOrder.notes.toList :=
  filter_load Phase.sole_ordering r

/-! ## Changes to elements -/

/-- One change to an element while elements are derived from their bases: its base is found, or the
link is cut, or it is filled from another. -/
inductive DeriveStep (doc : Document) : Document → Prop where
  | link {i target : Nat} {link : Link Nat} (hlink : (doc.element i).derives = some link)
      (h : doc.resolve link.reference = some target) :
      DeriveStep doc (doc.setBase i (some target))
  | cut (i : Nat) : DeriveStep doc (doc.setBase i none)
  | fill (p : Nat × Nat) : DeriveStep doc (doc.fillPair p)

/-- Changes one after another. -/
def DeriveSteps : Document → Document → Prop := Relation.ReflTransGen DeriveStep

namespace DeriveSteps

theorem refl (doc : Document) : DeriveSteps doc doc := Relation.ReflTransGen.refl

theorem single (h : DeriveStep doc doc') : DeriveSteps doc doc' := Relation.ReflTransGen.single h

theorem trans (h : DeriveSteps doc doc') (h' : DeriveSteps doc' doc'') : DeriveSteps doc doc'' :=
  Relation.ReflTransGen.trans h h'

end DeriveSteps

theorem linkBase_steps (doc : Document) (i : Nat) : DeriveSteps doc (doc.linkBase i).value := by
  unfold linkBase
  split
  · exact .refl _
  · rename_i link hlink
    split
    · rename_i target htarget
      exact .single (.link hlink htarget)
    · exact .single (.cut i)

theorem linkBases_steps : ∀ (is : List Nat) (doc : Document),
    DeriveSteps doc (linkBases doc is).value
  | [], _ => .refl _
  | i :: is, doc => (linkBase_steps doc i).trans (linkBases_steps is _)

theorem visit_steps : ∀ (depth : Nat) (o : BaseOrder) (i : Nat),
    DeriveSteps o.doc (BaseOrder.visit depth o i).doc
  | 0, _, _ => .refl _
  | depth + 1, o, i => by
      have hchildren : DeriveSteps o.doc
          ((o.doc.element i).children.foldl (BaseOrder.visit depth) o).doc :=
        List.foldlRecOn _ _ (motive := fun o' : BaseOrder => DeriveSteps o.doc o'.doc)
          (.refl _)
          fun o' ho' c _ => ho'.trans (visit_steps depth o' c)
      unfold BaseOrder.visit
      dsimp only
      split
      · exact .refl _
      · split
        · exact hchildren
        · split
          · exact hchildren
          · split
            · exact hchildren.trans (.single (.cut i))
            · exact hchildren.trans (visit_steps depth (BaseOrder.mark _ i .active) _)

theorem fillPairs_steps : ∀ (ps : List (Nat × Nat)) (doc : Document),
    DeriveSteps doc (ps.foldl fillPair doc)
  | [], _ => .refl _
  | p :: ps, _ => (DeriveSteps.single (.fill p)).trans (fillPairs_steps ps _)

theorem fillFromBase_steps (doc : Document) (i : Nat) :
    DeriveSteps doc (doc.fillFromBase i).value := by
  unfold fillFromBase
  split
  · exact .refl _
  · rename_i base _
    cases hextend : doc.extend i base with
    | error m => exact .single (.cut i)
    | ok doc' =>
        rw [extend_of_matched (matched_of_extend hextend)] at hextend
        cases hextend
        exact fillPairs_steps _ doc

theorem fillAll_steps : ∀ (is : List Nat) (doc : Document), DeriveSteps doc (fillAll doc is).value
  | [], _ => .refl _
  | i :: is, doc => (fillFromBase_steps doc i).trans (fillAll_steps is _)

/-- **Deriving elements from their bases is a sequence of such changes.** -/
theorem derive_steps (doc : Document) (order : List Nat) :
    DeriveSteps doc (doc.derive order).value := by
  have horder (doc : Document) : DeriveSteps doc (doc.orderBases order).doc :=
    List.foldlRecOn order _ (motive := fun o : BaseOrder => DeriveSteps doc o.doc)
      (.refl doc)
      fun o ho i _ => ho.trans (visit_steps _ o i)
  unfold derive
  simp only [Noted.value_bind]
  exact (linkBases_steps order doc).trans ((horder _).trans (fillAll_steps _ _))

end Document

/-- What stays as it is once elements are registered: the label of an element, its children, its
parent, and the reference to its base. -/
def Element.core (e : Element) : Label × List Nat × Option Nat × Option Reference :=
  (e.label, e.children, e.parent, e.derives.map (·.reference))

theorem Element.core_eq {e e' : Element} (houtline : e'.outline = e.outline)
    (hparent : e'.parent = e.parent) (hderives : e'.derives = e.derives) : e'.core = e.core := by
  have hlabel : e'.label = e.label := congrArg (·.1) houtline
  have hchildren : e'.children = e.children := congrArg (·.2.2) houtline
  unfold core
  rw [hlabel, hchildren, hparent, hderives]

namespace Document

variable {doc doc' doc'' : Document}

/-- No element has another core in the other document. -/
def SameCore (doc doc' : Document) : Prop := ∀ i, (doc'.element i).core = (doc.element i).core

namespace SameCore

theorem refl (doc : Document) : SameCore doc doc := fun _ => rfl

theorem trans (h : SameCore doc doc') (h' : SameCore doc' doc'') : SameCore doc doc'' :=
  fun i => (h' i).trans (h i)

/-- A change to one element that keeps its core. -/
theorem modify {i : Nat} {f : Element → Element}
    (hf : (f (doc.element i)).core = (doc.element i).core) : SameCore doc (doc.modify i f) := by
  intro j
  rw [element_modify]
  split
  · rename_i hij
    rw [← hij.1]
    exact hf
  · rfl

variable (h : SameCore doc doc') (i : Nat)
include h

theorem label : (doc'.element i).label = (doc.element i).label := congrArg (·.1) (h i)

theorem children : (doc'.element i).children = (doc.element i).children := congrArg (·.2.1) (h i)

theorem parent : (doc'.element i).parent = (doc.element i).parent := congrArg (·.2.2.1) (h i)

theorem reference : (doc'.element i).derives.map (·.reference) =
    (doc.element i).derives.map (·.reference) := congrArg (·.2.2.2) (h i)

end SameCore

theorem setBase_core (doc : Document) (i : Nat) (target : Option Nat) :
    SameCore doc (doc.setBase i target) := by
  refine .modify ?_
  unfold Element.core
  simp only [Option.map_map]
  rfl

theorem fillPair_core (doc : Document) (p : Nat × Nat) : SameCore doc (doc.fillPair p) := by
  refine .modify ?_
  have hrest : ((doc.element p.1).fillFrom (doc.element p.2)).parent = (doc.element p.1).parent ∧
      ((doc.element p.1).fillFrom (doc.element p.2)).derives = (doc.element p.1).derives := by
    unfold Element.fillFrom
    split <;> exact ⟨rfl, rfl⟩
  exact Element.core_eq (Element.fillFrom_outline _ _) hrest.1 hrest.2

theorem DeriveStep.core (h : DeriveStep doc doc') : SameCore doc doc' := by
  cases h with
  | link _ _ => exact setBase_core doc _ _
  | cut i => exact setBase_core doc i none
  | fill p => exact fillPair_core doc p

theorem DeriveSteps.core (h : DeriveSteps doc doc') : SameCore doc doc' := by
  induction h with
  | refl => exact .refl doc
  | tail _ hstep ih => exact ih.trans hstep.core

theorem resolveAll_core : ∀ (is : List Nat) (doc : Document),
    SameCore doc (resolveAll doc is).value
  | [], doc => .refl doc
  | i :: is, doc => by
      refine SameCore.trans (.modify ?_) (resolveAll_core is _)
      exact Element.core_eq (Element.outline_eq (resolveBody_shape doc _) rfl rfl rfl) rfl rfl

theorem load_value (r : Record.Document) :
    (load r).value = (ofRecord r).value.update.value := by
  unfold load
  rw [Noted.value_bind]

/-- The last phases change nothing but the grammar's own record. -/
theorem update_value (doc : Document) : ∃ grammar, doc.update.value =
    { (resolveAll (doc.register.value.derive (doc.register.value.preorder.map (·.1))).value
        (doc.register.value.preorder.map (·.1))).value with grammar } := by
  unfold update
  simp only [Noted.value_bind]
  exact resolveStart_elements _

/-- **Once elements are registered no phase changes their cores.** -/
theorem update_core (doc : Document) : SameCore doc.register.value doc.update.value := by
  obtain ⟨grammar, hupdate⟩ := update_value doc
  rw [hupdate]
  exact (DeriveSteps.core (derive_steps _ _)).trans (resolveAll_core _ _)

end Document

end BinaryGrammar
