import BinaryGrammar.Proofs.Reach

/-!
# Structures of fixed length

The length of a structure is the one that its formula gives after the first fields for which it has
a value. A structure of fixed length lies inside the source, if the size of that is known, and
inside all structures around it; and so does everything else that covers any bytes.
-/

set_option autoImplicit false

namespace BinaryGrammar.Decoder

variable {σ : Type} {d : Decoder σ} {outer : Context} {i start : Nat}

/-! ## Where the length comes from -/

/-- What is not known after some fields was not known before. -/
theorem extentAfter_pending {before : List Value} : ∀ {after : List Value},
    d.extentAfter outer i start (before ++ after) = .pending →
    d.extentAfter outer i start before = .pending := by
  intro after
  induction after generalizing before with
  | nil => rw [List.append_nil]; exact id
  | cons v vs ih =>
      intro h
      rw [show before ++ v :: vs = before ++ [v] ++ vs by simp] at h
      have hv := ih h
      rw [extentAfter_concat] at hv
      by_cases hpending : d.extentAfter outer i start before = .pending
      · exact hpending
      · rw [extentNow_known hpending] at hv
        exact hv

theorem extentNow_fixed {frame : Frame} {stop : Nat}
    (h : d.extentNow outer i start frame .pending = .fixed stop) :
    ∃ length, d.extentBits? (outer.enter frame .pending) i = .ok (some length) ∧
      stop = start + length := by
  simp only [extentNow] at h
  split at h
  · cases h
  · rename_i length hbits
    cases h
    exact ⟨length, hbits, rfl⟩
  · cases h

/-- The end of a structure is found with the first fields for which the length has a value. -/
theorem extentAfter_fixed : ∀ (k : Nat) {vs : List Value} {stop : Nat}, vs.length = k →
    d.extentAfter outer i start vs = .fixed stop →
    ∃ before after length, vs = before ++ after ∧
      d.extentBits? (outer.enter (.ofValues d.document before) .pending) i = .ok (some length) ∧
      stop = start + length ∧ ∀ shorter rest, before = shorter ++ rest → rest ≠ [] →
        d.extentAfter outer i start shorter = .pending
  -- on the number of fields, from the last one: it decides, or the end was known before it
  | 0, vs, stop, hk, h => by
      have hnil : vs = [] := List.eq_nil_of_length_eq_zero hk
      subst hnil
      have hnow : d.extentNow outer i start {} .pending = .fixed stop := h
      obtain ⟨length, hbits, hstop⟩ := extentNow_fixed hnow
      refine ⟨[], [], length, rfl, hbits, hstop, fun shorter rest hsplit hne => ?_⟩
      exact absurd (List.append_eq_nil_iff.mp hsplit.symm).2 hne
  | k + 1, vs, stop, hk, h => by
      rcases List.eq_nil_or_concat vs with hnil | ⟨us, v, hconcat⟩
      · rw [hnil] at hk
        cases hk
      · rw [List.concat_eq_append] at hconcat
        subst hconcat
        rw [List.length_append] at hk
        have hlength : us.length = k := Nat.succ.inj hk
        rw [extentAfter_concat] at h
        by_cases hpending : d.extentAfter outer i start us = .pending
        · rw [hpending] at h
          obtain ⟨length, hbits, hstop⟩ := extentNow_fixed h
          refine ⟨us ++ [v], [], length, by simp, hbits, hstop, fun shorter rest hsplit hne => ?_⟩
          obtain ⟨rest', x, hrest⟩ := (List.eq_nil_or_concat rest).resolve_left hne
          rw [hrest, List.concat_eq_append, ← List.append_assoc] at hsplit
          rw [(List.append_inj' hsplit rfl).1] at hpending
          exact extentAfter_pending hpending
        · rw [extentNow_known hpending] at h
          obtain ⟨before, after, length, hsplit, hbits, hstop, hshorter⟩ :=
            extentAfter_fixed k hlength h
          exact ⟨before, after ++ [v], length, by rw [hsplit, List.append_assoc], hbits, hstop,
            hshorter⟩

/-- The length of a structure in the given surroundings is the one that its formula gives after some
of its fields; after fewer it names a field that is still to come. -/
def LengthFound (d : Decoder σ) (ctx : Context) (i : Nat) (w : Value) : Prop :=
  ∃ before after, w.children = before ++ after ∧
    (∀ u ∈ before, (d.document.element u.element).body ≠ .padding) ∧
    d.extentBits? (ctx.enter (.ofValues d.document before) .pending) i =
      .ok (some (8 * w.length)) ∧
    ∀ shorter rest, before = shorter ++ rest → rest ≠ [] → LengthUnknown d ctx i shorter

theorem extentBits?_none {ctx : Context} (h : d.extentBits? ctx i = .ok none) :
    d.document.length i = none := by
  unfold extentBits? at h
  split at h
  · rename_i hnone
    exact hnone
  · obtain ⟨_, _, h⟩ := Reader.except_bind_ok h
    obtain ⟨_, _, h⟩ := Reader.except_bind_ok h
    obtain ⟨_, _, h⟩ := Reader.except_bind_ok h
    obtain ⟨_, _, h⟩ := Reader.except_bind_ok h
    cases h

/-- Only a structure without a length is found to have none. -/
theorem Settles.length_of_unbounded {last : Bool} {p p' : Progress σ}
    (h : Settles d outer i start last p p')
    (hp : p.extent = .unbounded → d.document.length i = none) :
    p'.extent = .unbounded → d.document.length i = none := by
  cases h with
  | known => exact hp
  | waits => exact hp
  | unbounded _ hbits => exact fun _ => extentBits?_none hbits
  | fixed => intro he; cases he

section

variable {levels label : Nat} {children : List Nat} {p₀ p₁ p₂ : Progress σ} {ts : List (Turn σ)}
  {padding : List Value} {c c' : Cursor σ} {v : Value}

/-- The end of a structure with a length is settled at a place. -/
theorem StructureRead.fixed_of_length
    (h : StructureRead d (d.readElement levels) outer label i children c v c' p₀ p₁ p₂ ts padding)
    (hlength : d.document.length i ≠ none) : ∃ stop, p₂.extent = .fixed stop := by
  have hunbounded : p₂.extent = .unbounded → d.document.length i = none := by
    refine h.closed.length_of_unbounded (h.turns.invariant
      (P := fun p => p.extent = .unbounded → d.document.length i = none) ?_ ?_
      (h.opened.length_of_unbounded (by intro he; cases he)))
    · intro p p' child w c₁ hp _ _ hsettle
      exact hsettle.length_of_unbounded hp
    · intro p child failure c₁ hp _
      exact hp
  cases hext : p₂.extent with
  | pending => exact absurd hext h.closed.extent_ne_pending
  | unbounded => exact absurd (hunbounded hext) hlength
  | fixed stop => exact ⟨stop, rfl⟩

/-- The length of a structure of fixed length goes from its start to its settled end. -/
theorem StructureRead.length_eq {stop : Nat}
    (h : StructureRead d (d.readElement levels) outer label i children c v c' p₀ p₁ p₂ ts padding)
    (hext : p₂.extent = .fixed stop) : 8 * v.length = stop - c.pos := by
  obtain ⟨hle, _, hwhole⟩ := h.proper stop hext
  obtain ⟨c₁, u, _, hc'⟩ := h.fixed_ending hext
  have hlength : v.length = (stop - c.pos + 7) / 8 := by
    rw [h.value, hc']
    rfl
  rw [hlength]
  omega

/-- **A structure is as long as its formula says.** -/
theorem StructureRead.lengthFound {J : Cursor σ → Prop} (hJ : d.Maintains J)
    (h : StructureRead d (d.readElement levels) outer label i children c v c' p₀ p₁ p₂ ts padding)
    (hc : J c) (hholds : outer.Holds c) (hlength : d.document.length i ≠ none) :
    LengthFound d outer i v := by
  have hsound := h.sound hJ hc hholds
  obtain ⟨stop, hext⟩ := h.fixed_of_length hlength
  obtain ⟨before, after, length, hsplit, hbits, hstop, hshorter⟩ :=
    extentAfter_fixed _ rfl (hsound.tracked.extent.symm.trans hext)
  have hchildren : v.children = before ++ (after ++ padding) := by
    rw [h.children_eq, ← List.append_assoc, ← hsplit]
  refine ⟨before, after ++ padding, hchildren, ?_, ?_, ?_⟩
  · intro u hu
    obtain ⟨us, vs, hu⟩ := List.append_of_mem hu
    have hfield : p₂.frame.values.toList = us ++ u :: (vs ++ after) := by
      rw [hsplit, hu, List.append_assoc]
      rfl
    obtain ⟨_, _, _, _, hread⟩ := hsound.fields hfield
    exact readElement_ne_padding hread
  · rw [hbits, h.length_eq hext, hstop, Nat.add_sub_cancel_left]
  · intro shorter rest hrest hne
    have hfirst : p₂.frame.values.toList = shorter ++ (rest ++ after) := by
      rw [hsplit, hrest, List.append_assoc]
    exact hsound.tracked.unknown hfirst (hshorter shorter rest hrest hne)

/-- A structure of fixed length lies inside a source of known size. -/
theorem StructureRead.inside_source {n : Nat} {I : σ → Prop} (hsized : d.source.Sized n I)
    (hscripts : d.ScriptsStay I)
    (h : StructureRead d (d.readElement levels) outer label i children c v c' p₀ p₁ p₂ ts padding)
    (hc : Within n I c) (hholds : outer.Holds c) (hlength : d.document.length i ≠ none) :
    v.offset + v.length ≤ n := by
  have hsound := h.sound (maintains_within hsized hscripts) hc hholds
  obtain ⟨stop, hext⟩ := h.fixed_of_length hlength
  obtain ⟨c₁, u, hfound, _⟩ := h.fixed_ending hext
  have hstop : stop ≤ 8 * n := requireStop_inside hsized hsound.cursor.state hfound
  have hstart := h.start
  have hlong := h.length_eq hext
  obtain ⟨hle, _⟩ := h.proper stop hext
  omega

end

/-! ## Every value of a tree -/

/-- A value inside another covers bytes of it only. -/
theorem bytes_inside {v w : Value} (hv : v.BytesTold) (hw : w.BytesTold) (h : w.Inside v) :
    v.offset ≤ w.offset ∧ w.offset + w.length ≤ v.offset + v.length := by
  obtain ⟨hv₁, hv₂⟩ := hv
  obtain ⟨hw₁, hw₂⟩ := hw
  obtain ⟨hstart, hstop⟩ := h
  rw [hv₁, hw₁] at *
  omega

/-- What covers bytes of a value that was read lies inside the source. -/
theorem Within.inside_source {n : Nat} {I : σ → Prop} {c c' : Cursor σ} {v w : Value}
    (hc : Within n I c) (hreaches : Reaches n c.pos c'.pos) (hv : v.Spans c.pos c'.pos)
    (hw : w.BytesTold) (h : w.Inside v) (hlength : 0 < w.length) : w.offset + w.length ≤ n := by
  have hplace := hc.place
  obtain ⟨hoffset, hbytes⟩ := hw
  obtain ⟨hstart, hstop⟩ := h
  rw [hv.bitStart] at hstart
  rw [hv.bitStop] at hstop
  rcases hreaches with hsame | hin
  · -- the cursor has not moved, and only inside a byte something can cover it
    omega
  · omega

theorem occurs_bytesTold {c c' : Cursor σ} {v w : Value} {ctx : Context}
    (h : d.read i c = .ok v c') (hw : Occurs d {} v ctx w) : w.BytesTold := by
  rcases occurs_read (maintains_true d) _ h trivial (by intro l hl; cases hl) hw with
    hpad | ⟨levels, c₁, c₂, _, _, hread⟩
  · exact .of_whole hpad.bits
  · exact (readElement_spans levels hread).bytesTold

/-- In a session over a source that ends the cursor stays where it may be. -/
theorem Bounded.session_within {n : Nat} {I : σ → Prop} (hbounded : d.Bounded n I) {source : σ}
    (hsource : I source) (steps : List Step) :
    Within n I (Machine.session d steps (.new source)).cursor := by
  refine Machine.session_cursor hbounded.maintains_within ?_ ?_ steps
  · intro c offset hc _
    exact ⟨hc.state, Or.inl (Nat.mul_mod_left ..)⟩
  · exact ⟨hsource, Or.inl rfl⟩

theorem session_within {n : Nat} {I : σ → Prop} (hsized : d.source.Sized n I)
    (hscripts : d.ScriptsStay I) {source : σ} (hsource : I source) (steps : List Step) :
    Within n I (Machine.session d steps (.new source)).cursor :=
  (Bounded.of_sized hsized hscripts).session_within hsource steps

/-- **Structures of fixed length are as long as their formulas say, and nothing leaves them or the
source.** In a tree that a step of a session over a source of `n` bytes gives, the length of every
structure that has a formula for it is found with the first fields after which the formula has a
value, and such a structure lies inside the source. Every value lies inside all values around it,
and inside the source if it covers anything. -/
theorem step_fixed_length {n : Nat} {I : σ → Prop} {source : σ} {steps : List Step} {s : Step}
    {v : Value} {c' : Cursor σ} (hdoc : d.document.Made) (hsized : d.source.Sized n I)
    (hscripts : d.scripts = .empty) (hsource : I source)
    (h : d.step s (Machine.session d steps (.new source)).cursor = .ok (some v) c') :
    (∀ ctx w i body, Occurs d {} v ctx w → d.document.structureOf? w.element = some (i, body) →
      d.document.length i ≠ none → LengthFound d ctx i w ∧ w.offset + w.length ≤ n) ∧
    (∀ ctx u ctx' w, Occurs d {} v ctx u → Occurs d ctx u ctx' w →
      u.offset ≤ w.offset ∧ w.offset + w.length ≤ u.offset + u.length) ∧
    ∀ ctx w, Occurs d {} v ctx w → 0 < w.length → w.offset + w.length ≤ n := by
  obtain ⟨j, hread⟩ := step_some h
  have hscripts : d.ScriptsStay I := .of_empty hscripts
  have hc := session_within hsized hscripts hsource steps
  have hmaintains := maintains_within hsized hscripts
  -- bits tell bytes, so it is enough that the bits of every value lie inside those around it
  have htold : ∀ {ctx w}, Occurs d {} v ctx w → w.BytesTold := fun hw => occurs_bytesTold hread hw
  have hinside : ∀ {ctx u ctx' w}, Occurs d {} v ctx u → Occurs d ctx u ctx' w → w.Inside u :=
    fun hu hw => hw.inside fun ctx' x hx =>
      (occurs_nodeTiled hdoc.reserved hread (hu.trans hx)).ordered.2
  refine ⟨?_, ?_, ?_⟩
  · intro ctx w i body hw hs hlength
    obtain ⟨levels, c₁, c₂, p₀, p₁, p₂, ts, padding, hc₁, hholds, hstructure⟩ :=
      occurs_structureRead hmaintains hdoc.reserved hc hread hw hs
    exact ⟨hstructure.lengthFound hmaintains hc₁ hholds hlength,
      hstructure.inside_source hsized hscripts hc₁ hholds hlength⟩
  · intro ctx u ctx' w hu hw
    exact bytes_inside (htold hu) (htold (hu.trans hw)) (hinside hu hw)
  · intro ctx w hw hlength
    exact hc.inside_source (readElement_reaches hsized hscripts _ hread hc)
      (readElement_spans _ hread) (htold hw) (hinside .root hw) hlength

/-- After a seek, the box of three bytes begins with the second of four bytes. -/
theorem step_fixed_length_boxes : ∃ v c,
    boxes.source.Sized 4 (· = #[0, 1, 2, 3]) ∧
    boxes.step .decode
      (Machine.session boxes [.seek 1] (.new #[0, 1, 2, 3])).cursor =
        .ok (some v) c ∧
    LengthFound boxes {} 2 v ∧ v.offset = 1 ∧ v.offset + v.length ≤ 4 ∧
    ∀ ctx w, Occurs boxes {} v ctx w → 0 < w.length → w.offset + w.length ≤ 4 := by
  have hsized : boxes.source.Sized 4 (· = #[0, 1, 2, 3]) :=
    ByteSource.plain_sized #[0, 1, 2, 3]
  have h : boxes.step .decode
      (Machine.session boxes [.seek 1] (.new #[0, 1, 2, 3])).cursor =
        .ok (some _) { pos := 32, source := #[0, 1, 2, 3] } := rfl
  have hfixed := step_fixed_length (.ofParts ..) hsized rfl rfl h
  have hroot := hfixed.1 {} _ 2 { length := some (.constant 3), elements := [0, 1] } .root rfl
    (by decide)
  exact ⟨_, _, hsized, h, hroot.1, rfl, hroot.2, hfixed.2.2⟩

end BinaryGrammar.Decoder
