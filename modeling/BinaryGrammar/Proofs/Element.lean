import BinaryGrammar.Proofs.Structure

/-!
# How an element is read

An element either opens a structure, its own or the one that it refers to, or it is a field without
fields of its own. Whichever it is, a successful read gives a value of that element, keeps the
cursor a word and inside the enclosing structure; a failed read leaves the cursor where it was.
-/

set_option autoImplicit false

namespace BinaryGrammar

namespace Document

/-- The structure with a number, if the element with that number is one. -/
def structAt? (doc : Document) (i : Nat) : Option (Nat × StructBody) :=
  match (doc.element i).body with
  | .struct body => some (i, body)
  | _ => none

/-- The structure that reading an element opens: the element itself, or what it refers to unless it
is disabled or refers to nothing. -/
def structureOf? (doc : Document) (i : Nat) : Option (Nat × StructBody) :=
  match (doc.element i).body with
  | .struct body => some (i, body)
  | .structRef r =>
    if r.disabled = some true then none else (r.target.bind (·.target)).bind doc.structAt?
  | .grammarRef g =>
    if g.disabled = some true then none
    else if (g.grammar.bind (·.target)).isNone then none
    else doc.start.bind doc.structAt?
  | _ => none

end Document

namespace Progress

variable {σ : Type} {p : Progress σ} {outer : Context}

theorem context_limit_fixed {stop : Nat} (h : p.extent = .fixed stop) :
    (p.context outer).limit =
      some (match outer.limit with | some l => min l stop | none => stop) := by
  obtain ⟨cursor, frame, extent⟩ := p
  change extent = .fixed stop at h
  subst h
  rfl

theorem context_limit_open (h : ∀ stop, p.extent ≠ .fixed stop) :
    (p.context outer).limit = outer.limit := by
  unfold context
  cases hext : p.extent with
  | fixed stop => exact absurd hext (h stop)
  | pending => rfl
  | unbounded => rfl

end Progress

/-- The cursor has not passed the end of the enclosing structure. -/
def Context.Holds {σ : Type} (ctx : Context) (c : Cursor σ) : Prop :=
  ∀ l, ctx.limit = some l → c.pos ≤ l

namespace Decoder

variable {σ : Type} {d : Decoder σ} {ctx outer : Context} {c c' : Cursor σ} {v : Value}

/-! ## Kinds of elements -/

theorem readTarget_ok {read : ElementReader σ} {i : Nat} {target : Option Nat} {attr : String}
    (h : d.readTarget read ctx i target attr c = .ok v c') :
    ∃ s body, target.bind d.document.structAt? = some (s, body) ∧
      d.readStructure read ctx i s body c = .ok v c' := by
  unfold readTarget at h
  cases target with
  | none => cases h
  | some t =>
      simp only at h
      cases hbody : (d.document.element t).body with
      | struct body =>
          simp only [hbody] at h
          refine ⟨t, body, ?_, h⟩
          simp only [Option.bind_some, Document.structAt?, hbody]
      | _ =>
          simp only [hbody] at h
          cases h

/-- An element opens a structure or is a field. -/
theorem readBody_ok {read : ElementReader σ} {i : Nat} (h : d.readBody read ctx i c = .ok v c') :
    (∃ s body, d.document.structureOf? i = some (s, body) ∧
      d.readStructure read ctx i s body c = .ok v c') ∨
    (d.document.structureOf? i = none ∧ FieldRead d ctx i c v c') := by
  unfold readBody at h
  unfold Document.structureOf?
  cases hbody : (d.document.element i).body with
  | struct body =>
      simp only [hbody] at h
      exact Or.inl ⟨i, body, rfl, h⟩
  | number body =>
      simp only [hbody] at h
      exact Or.inr ⟨rfl, readNumber_ok h⟩
  | string body =>
      simp only [hbody] at h
      exact Or.inr ⟨rfl, readString_ok h⟩
  | binary body =>
      simp only [hbody] at h
      exact Or.inr ⟨rfl, readBinary_ok h⟩
  | offset body =>
      simp only [hbody] at h
      exact Or.inr ⟨rfl, readOffset_ok h⟩
  | structRef body =>
      simp only [hbody] at h
      by_cases hdis : body.disabled = some true
      · rw [if_pos hdis] at h
        exact Or.inr ⟨by simp only [if_pos hdis], readNothing_ok h⟩
      · rw [if_neg hdis] at h
        obtain ⟨s, b, hs, h⟩ := readTarget_ok h
        exact Or.inl ⟨s, b, by simp only [if_neg hdis]; exact hs, h⟩
  | grammarRef body =>
      simp only [hbody] at h
      by_cases hdis : body.disabled = some true
      · rw [if_pos hdis] at h
        exact Or.inr ⟨by simp only [if_pos hdis], readNothing_ok h⟩
      · rw [if_neg hdis] at h
        by_cases hlink : (body.grammar.bind (·.target)).isNone
        · rw [if_pos hlink] at h
          cases h
        · rw [if_neg hlink] at h
          obtain ⟨s, b, hs, h⟩ := readTarget_ok h
          refine Or.inl ⟨s, b, ?_, h⟩
          simp only [if_neg hdis, if_neg hlink]
          exact hs
  | custom body =>
      simp only [hbody] at h
      exact Or.inr ⟨rfl, readCustom_ok h⟩
  | script s =>
      simp only [hbody] at h
      exact Or.inr ⟨rfl, readNothing_ok h⟩
  | padding =>
      simp only [hbody] at h
      cases h

/-- Padding is never read. -/
theorem readBody_ne_padding {read : ElementReader σ} {i : Nat}
    (h : d.readBody read ctx i c = .ok v c') : (d.document.element i).body ≠ .padding := by
  intro hbody
  unfold readBody at h
  simp only [hbody] at h
  cases h

/-! ## Reading with some levels left -/

theorem readElement_ok {levels i : Nat} (h : d.readElement levels ctx i c = .ok v c') :
    ∃ n, levels = n + 1 ∧ d.readBody (d.readElement n) ctx i c = .ok v c' := by
  cases levels with
  | zero => cases h
  | succ n =>
      unfold readElement at h
      split at h
      · rename_i w c₁ hbody
        cases h
        exact ⟨n, rfl, hbody⟩
      · cases h

/-- A failed read leaves the cursor where it was. -/
theorem readElement_error_pos {levels i : Nat} {failure : Failure}
    (h : d.readElement levels ctx i c = .error failure c') : c'.pos = c.pos := by
  cases levels with
  | zero => cases h; rfl
  | succ n =>
      unfold readElement at h
      split at h
      · cases h
      · cases h; rfl

/-- The two cases of a successful read. -/
theorem readElement_cases {levels i : Nat} (h : d.readElement levels ctx i c = .ok v c') :
    (∃ n s body p₀ p₁ p₂ ts padding, levels = n + 1 ∧
      d.document.structureOf? i = some (s, body) ∧
      StructureRead d (d.readElement n) ctx i s body.elements c v c' p₀ p₁ p₂ ts padding) ∨
    (d.document.structureOf? i = none ∧ FieldRead d ctx i c v c') := by
  obtain ⟨n, hn, h⟩ := readElement_ok h
  rcases readBody_ok h with ⟨s, body, hs, h⟩ | hfield
  · obtain ⟨p₀, p₁, p₂, ts, padding, hread⟩ := readStructure_ok h
    exact Or.inl ⟨n, s, body, p₀, p₁, p₂, ts, padding, hn, hs, hread⟩
  · exact Or.inr hfield

/-- Reading an element gives a value of that element. -/
theorem readElement_element {levels i : Nat} (h : d.readElement levels ctx i c = .ok v c') :
    v.element = i := by
  rcases readElement_cases h with ⟨n, s, body, p₀, p₁, p₂, ts, padding, _, _, hread⟩ | ⟨_, hfield⟩
  · rw [hread.value]
    rfl
  · obtain ⟨payload, hv⟩ := hfield.value
    rw [hv]
    rfl

theorem readElement_ne_padding {levels i : Nat} (h : d.readElement levels ctx i c = .ok v c') :
    (d.document.element i).body ≠ .padding := by
  obtain ⟨n, _, h⟩ := readElement_ok h
  exact readBody_ne_padding h

/-! ## The end of a structure as it is settled -/

/-- An extent that has been settled for a structure at `start`: whole bytes, and a word. -/
def ProperExtent (start : Nat) (e : Extent) : Prop :=
  ∀ stop, e = .fixed stop → start ≤ stop ∧ stop < Word.modulus ∧ (stop - start) % 8 = 0

theorem wholeBytes_ok {bits n : Nat} (h : wholeBytes bits = .ok n) : n = bits ∧ n % 8 = 0 := by
  unfold wholeBytes at h
  split at h
  · rename_i hbits
    injection h with h
    exact ⟨h.symm, h ▸ hbits⟩
  · cases h

/-- The length of a structure is a number of whole bytes. -/
theorem extentBits?_whole {i n : Nat} (h : d.extentBits? ctx i = .ok (some n)) : n % 8 = 0 := by
  unfold extentBits? at h
  split at h
  · cases h
  · obtain ⟨length, hlength, h⟩ := Reader.except_bind_ok h
    obtain ⟨total, htotal, h⟩ := Reader.except_bind_ok h
    obtain ⟨bits, hbits, h⟩ := Reader.except_bind_ok h
    obtain ⟨whole, hwhole, h⟩ := Reader.except_bind_ok h
    cases h
    exact (wholeBytes_ok hwhole).2

theorem Settles.proper {i start : Nat} {last : Bool} {p p' : Progress σ}
    (h : Settles d outer i start last p p') (hp : ProperExtent start p.extent) :
    ProperExtent start p'.extent := by
  cases h with
  | known => exact hp
  | waits => exact hp
  | unbounded => intro stop he; cases he
  | fixed _ hbits hword _ =>
      intro stop he
      injection he with he
      have hwhole := extentBits?_whole hbits
      rw [← he]
      exact ⟨Nat.le_add_right .., hword, by rw [Nat.add_sub_cancel_left]; exact hwhole⟩

/-- The settled end of a structure holds the cursor. -/
theorem Settles.holds {i start : Nat} {last : Bool} {p p' : Progress σ}
    (h : Settles d outer i start last p p') (hp : (p.context outer).Holds p.cursor) :
    (p'.context outer).Holds p'.cursor := by
  cases h with
  | known => exact hp
  | waits => exact hp
  | unbounded hpending _ =>
      intro l hl
      rw [Progress.context_limit_open (by intro stop; simp)] at hl
      refine hp l ?_
      rw [Progress.context_limit_open (by intro stop; simp [hpending])]
      exact hl
  | fixed hpending _ _ hpos =>
      intro l hl
      rw [Progress.context_limit_fixed rfl] at hl
      -- the new limit is the lower of two, and the cursor has passed neither
      have hold : ∀ l, outer.limit = some l → p.cursor.pos ≤ l := by
        intro l hl
        refine hp l ?_
        rw [Progress.context_limit_open (by intro stop; simp [hpending])]
        exact hl
      cases hout : outer.limit with
      | none =>
          rw [hout] at hl
          injection hl with hl
          rw [← hl]
          exact hpos
      | some m =>
          rw [hout] at hl
          injection hl with hl
          rw [← hl]
          exact Nat.le_min.mpr ⟨hold m hout, hpos⟩

namespace StructureRead

variable {read : ElementReader σ} {label i : Nat} {children : List Nat} {p₀ p₁ p₂ : Progress σ}
  {ts : List (Turn σ)} {padding : List Value}

theorem proper (h : StructureRead d read outer label i children c v c' p₀ p₁ p₂ ts padding) :
    ProperExtent c.pos p₂.extent := by
  have hinit : ProperExtent c.pos p₀.extent := h.opened.proper (by intro stop he; cases he)
  refine h.closed.proper (h.turns.invariant (P := fun p => ProperExtent c.pos p.extent) ?_ ?_ hinit)
  · intro p p' child w c₁ hp _ _ hsettle
    exact hsettle.proper hp
  · intro p child failure c₁ hp _
    exact hp

/-- The cursor stays inside the structure and inside what encloses it. -/
theorem holds (h : StructureRead d read outer label i children c v c' p₀ p₁ p₂ ts padding)
    (hread : ∀ {ctx : Context} {j : Nat} {c c' : Cursor σ} {w : Value},
      read ctx j c = .ok w c' → ctx.Holds c → ctx.Holds c')
    (hc : outer.Holds c) : (p₂.context outer).Holds p₂.cursor := by
  have hinit : (p₀.context outer).Holds p₀.cursor := h.opened.holds hc
  refine h.closed.holds
    (h.turns.invariant (P := fun p => (p.context outer).Holds p.cursor) ?_ ?_ hinit)
  · intro p p' child w c₁ hp _ hok hsettle
    have hnext : (p.context outer).Holds c₁ := hread hok hp
    exact hsettle.holds hnext
  · intro p child failure c₁ hp _
    exact hp

theorem children_eq (h : StructureRead d read outer label i children c v c' p₀ p₁ p₂ ts padding) :
    v.children = p₂.frame.values.toList ++ padding := by
  rw [h.value]
  rfl

theorem stop_aligned {stop : Nat}
    (h : StructureRead d read outer label i children c v c' p₀ p₁ p₂ ts padding)
    (hext : p₂.extent = .fixed stop) : stop % 8 = 0 := by
  obtain ⟨hle, _, hwhole⟩ := h.proper stop hext
  have hal := h.aligned
  omega

/-- The three ways in which the end of a structure is reached come down to two: the cursor goes to
the settled end, or it is at the end of the last field already. -/
theorem ending (h : StructureRead d read outer label i children c v c' p₀ p₁ p₂ ts padding) :
    (∃ stop c₁ u, p₂.extent = .fixed stop ∧ (∀ l, outer.limit = some l → stop ≤ l) ∧
      padding = d.paddingBetween p₂.cursor.pos stop ∧
      d.requireStop p₂.cursor.pos stop p₂.cursor = .ok u c₁ ∧ c' = { c₁ with pos := stop }) ∨
    (p₂.extent = .unbounded ∧ p₂.cursor.pos % 8 = 0 ∧ padding = [] ∧ c' = p₂.cursor) := by
  have hfinish := h.finished
  cases hext : p₂.extent with
  | pending => exact absurd hext h.closed.extent_ne_pending
  | unbounded =>
      rw [hext] at hfinish
      obtain ⟨hal, hpad, hc⟩ := finish_open_ok (by intro stop; simp) hfinish
      exact Or.inr ⟨rfl, hal, hpad, hc⟩
  | fixed stop =>
      rw [hext] at hfinish
      obtain ⟨hlimit, hpad, c₁, u, hstop, hc⟩ := finish_fixed_ok hfinish
      exact Or.inl ⟨stop, c₁, u, rfl, hlimit, hpad, hstop, hc⟩

/-- The cursor goes to the settled end of a structure, once that is known to be in the source. -/
theorem fixed_ending {stop : Nat}
    (h : StructureRead d read outer label i children c v c' p₀ p₁ p₂ ts padding)
    (hext : p₂.extent = .fixed stop) :
    ∃ c₁ u, d.requireStop p₂.cursor.pos stop p₂.cursor = .ok u c₁ ∧
      c' = { c₁ with pos := stop } := by
  rcases h.ending with ⟨stop', c₁, u, hext', _, _, hstop, hc'⟩ | ⟨hopen, _⟩
  · cases hext.symm.trans hext'
    exact ⟨c₁, u, hstop, hc'⟩
  · rw [hext] at hopen
    cases hopen

/-- A structure ends with a byte. -/
theorem end_aligned (h : StructureRead d read outer label i children c v c' p₀ p₁ p₂ ts padding) :
    c'.pos % 8 = 0 := by
  rcases h.ending with ⟨stop, c₁, u, hext, _, _, _, hc'⟩ | ⟨_, hal, _, hc'⟩
  · rw [hc']
    exact h.stop_aligned hext
  · rw [hc']
    exact hal

/-- The fields of a structure do not go beyond its settled end. -/
theorem pos_le_stop {stop : Nat} (hext : p₂.extent = .fixed stop)
    (hholds : (p₂.context outer).Holds p₂.cursor) : p₂.cursor.pos ≤ stop := by
  have hle := hholds _ (Progress.context_limit_fixed hext)
  split at hle
  · exact Nat.le_trans hle (Nat.min_le_right ..)
  · exact hle

end StructureRead

/-- A read does not leave the enclosing structure. -/
theorem readElement_holds :
    ∀ (levels : Nat) {ctx : Context} {i : Nat} {c c' : Cursor σ} {v : Value},
    d.readElement levels ctx i c = .ok v c' → ctx.Holds c → ctx.Holds c'
  | 0, ctx, i, c, c', v, h, _ => by cases h
  | levels + 1, ctx, i, c, c', v, h, hc => by
      rcases readElement_cases h with
        ⟨n, s, body, p₀, p₁, p₂, ts, padding, hn, _, hread⟩ | ⟨_, hfield, _⟩
      · injection hn with hn
        subst hn
        have hin := hread.holds (readElement_holds levels) hc
        rcases hread.ending with ⟨stop, c₁, u, _, hlimit, _, _, hc'⟩ | ⟨hext, _, _, hc'⟩
        · -- going to the settled end skips the fields, so their limit is of no use here
          intro l hl
          rw [hc']
          exact hlimit l hl
        · intro l hl
          rw [hc']
          refine hin l ?_
          rw [Progress.context_limit_open (by intro stop; simp [hext])]
          exact hl
      · intro l hl
        exact hfield.limit hl (hc l hl)

end Decoder

end BinaryGrammar
