import BinaryGrammar.Proofs.Keeping
import BinaryGrammar.Proofs.Tiling

/-!
# How far reads reach

In a source that ends, a read either does not move the cursor or leaves it inside the source.
Whether the source says how many bytes it holds matters only to scripts, which may cover what they
like if it does not.

A cursor need not be inside the source: one can seek anywhere. But then it stands at the beginning
of a byte, as bits are only counted inside bytes that are there.
-/

set_option autoImplicit false

namespace BinaryGrammar.Decoder

open ByteSource (InsideAt)

variable {σ : Type} {d : Decoder σ} {n : Nat} {I : σ → Prop} {ctx : Context} {c c' : Cursor σ}

/-- The source is in one of its states, and the cursor stands inside the source or at the beginning
of a byte. -/
structure Within (n : Nat) (I : σ → Prop) (c : Cursor σ) : Prop where
  state : InState I c
  place : c.pos % 8 = 0 ∨ c.pos ≤ 8 * n

/-- A decoder of a source of at most `n` bytes, the scripts of which give a result only where the
size of the source is known. -/
structure Bounded (d : Decoder σ) (n : Nat) (I : σ → Prop) : Prop where
  ends : d.source.Ends n I
  scripts : d.ScriptsStay I
  told : ∀ {request : ScriptRequest} {s s' : σ} {out : ScriptValue}, I s →
    d.scripts.run d.source request s = (.ok out, s') → ∃ m, d.source.size s' = some m

theorem Bounded.of_sized (hsized : d.source.Sized n I) (hscripts : d.ScriptsStay I) :
    d.Bounded n I where
  ends := hsized.ends
  scripts := hscripts
  told := fun {request s s' out} hs hrun => by
    have hs' := hscripts request hs
    rw [hrun] at hs'
    exact ⟨n, hsized.size hs'⟩

theorem Bounded.of_empty (hends : d.source.Ends n I) (hscripts : d.scripts = .empty) :
    d.Bounded n I where
  ends := hends
  scripts := .of_empty hscripts
  told := fun _ hrun => by
    rw [hscripts] at hrun
    cases hrun

/-- Where a script has given a result the size of the source is known. -/
theorem Bounded.size_told (h : d.Bounded n I) {request : ScriptRequest} {out : ScriptValue}
    (hc : InState I c) (hrun : d.runScript request c = .ok out c') :
    ∃ m, d.source.size c'.source = some m := by
  unfold runScript at hrun
  split at hrun
  · rename_i hok
    cases hrun
    exact h.told hc hok
  · cases hrun

/-- The cursor has not moved, or it is inside the source. -/
def Reaches (n start stop : Nat) : Prop := stop = start ∨ stop ≤ 8 * n

namespace Reaches

variable {start mid stop : Nat}

theorem trans (h : Reaches n start mid) (h' : Reaches n mid stop) : Reaches n start stop := by
  unfold Reaches at *
  omega

/-- Some whole bytes are counted off. -/
theorem advance {count size : Nat} (hal : start % 8 = 0) (hcount : count ≤ size)
    (hin : size = 0 ∨ start / 8 + size ≤ n) : Reaches n start (start + count * 8) := by
  unfold Reaches
  omega

end Reaches

/-! ## Fields -/

theorem take_reaches (hends : d.source.Ends n I) {i count : Nat} {bytes : Bytes}
    (hc : InState I c) (h : d.take ctx i count c = .ok bytes c') : Reaches n c.pos c'.pos := by
  obtain ⟨hal, _, c₁, hfetch, hcount, _, hc'⟩ := take_ok h
  have hin := fetchChunks_yields hends.yields _ hfetch hc (Or.inl rfl)
  rw [hc']
  exact .advance hal hcount hin

theorem takeTerminated_reaches (hends : d.source.Ends n I) {terminator text : Bytes}
    {max : Option Nat} (hal : c.pos % 8 = 0) (hc : InState I c)
    (h : d.takeTerminated ctx terminator max c = .ok text c') : Reaches n c.pos c'.pos := by
  obtain ⟨found, c₁, hscan, _, _, hc'⟩ := takeTerminated_ok h
  have hin := scan_inside hends.yields _ hscan hc (Or.inl rfl)
  rw [hc']
  exact .advance hal (Nat.le_refl _) hin

theorem takeBits_reaches (hends : d.source.Ends n I) {count k : Nat} (hc : Within n I c)
    (h : d.takeBits ctx count c = .ok k c') : Reaches n c.pos c'.pos := by
  obtain ⟨_, _, bytes, c₁, hfetch, hneeded, hc', _⟩ := takeBits_ok h
  have hin := fetch_yields hends.yields hc.state hfetch
  have hplace := hc.place
  rw [hc']
  -- if no bytes are needed, the bits are in the byte in which the cursor stands already
  unfold InsideAt at hin
  unfold Reaches
  unfold Word.bytesOfBits at hneeded
  dsimp only
  omega

theorem Intake.reaches (hbounded : d.Bounded n I) (hc : Within n I c) (h : Intake d ctx c c') :
    Reaches n c.pos c'.pos := by
  have hends := hbounded.ends
  cases h with
  | nothing => exact Or.inl rfl
  | bytes h => exact take_reaches hends hc.state h
  | bits _ h => exact takeBits_reaches hends hc h
  | counted h₁ h₂ =>
      have hc₁ := (take_keeps hends.stays ..).ok hc.state h₁
      exact (take_reaches hends hc.state h₁).trans (take_reaches hends hc₁ h₂)
  | terminated hal h => exact takeTerminated_reaches hends hal hc.state h
  | @script _ request out _ _ c₁ _ hal hrun haccept =>
      -- a script may say what it likes, but the size of the source is known
      have hc₁ : InState I c₁ := (runScript_keeps hbounded.scripts request).ok hc.state hrun
      obtain ⟨m, hm⟩ := hbounded.size_told hc.state hrun
      have hle := hends.size hc₁ hm
      obtain ⟨stop, _, _, hdata, hc', _⟩ := acceptScript_ok haccept
      have hstop : stop ≤ n := Nat.le_trans (hdata m hm) hle
      rw [hc', Nat.mul_comm]
      exact Or.inr (Nat.mul_le_mul_left 8 hstop)

/-! ## Elements -/

theorem Within.reaches (hc : Within n I c) (hstate : InState I c')
    (h : Reaches n c.pos c'.pos) : Within n I c' := by
  refine ⟨hstate, ?_⟩
  rcases h with hsame | hin
  · rw [hsame]
    exact hc.place
  · exact Or.inr hin

/-- The settled end of a structure is inside a source of known size. -/
theorem requireStop_inside (hsized : d.source.Sized n I) {pos stop : Nat} {u : Unit}
    (hc : InState I c) (h : d.requireStop pos stop c = .ok u c') : stop ≤ 8 * n := by
  obtain ⟨_, hstop, _⟩ := requireStop_ok h
  have hle := hstop n (hsized.size hc)
  unfold Word.mulSaturating at hle
  omega

/-- If the size of the source is not known, a structure ends with the byte in which its fields end,
or its last byte is there. -/
theorem requireStop_untold {pos stop : Nat} {u : Unit} (hsize : d.source.size c.source = none)
    (h : d.requireStop pos stop c = .ok u c') :
    stop ≤ Word.alignUp pos ∨ ∃ bytes c₁, d.fetch (stop / 8 - 1) 1 c = .ok bytes c₁ ∧
      bytes.size ≠ 0 := by
  unfold requireStop at h
  rw [size_bind] at h
  simp only [hsize] at h
  obtain ⟨_, h⟩ := Reader.requireWord_bind h
  split at h
  · obtain ⟨_, h⟩ := Reader.require_bind h
    obtain ⟨bytes, c₁, hfetch, h⟩ := Reader.bind_ok h
    obtain ⟨hsome, _⟩ := Reader.require_ok h
    exact Or.inr ⟨bytes, c₁, hfetch, hsome⟩
  · rename_i hle
    exact Or.inl (Nat.le_of_not_lt hle)

/-- The settled end of a structure is where its fields end or inside the source. -/
theorem requireStop_reaches (hends : d.source.Ends n I) {stop : Nat} {u : Unit} (hc : Within n I c)
    (hle : c.pos ≤ stop) (hal : stop % 8 = 0)
    (h : d.requireStop c.pos stop c = .ok u c') : stop = c.pos ∨ stop ≤ 8 * n := by
  cases hsize : d.source.size c.source with
  | some m =>
      have hm := hends.size hc.state hsize
      obtain ⟨_, hstop, _⟩ := requireStop_ok h
      have hstop := hstop m hsize
      unfold Word.mulSaturating at hstop
      omega
  | none =>
      have hplace := hc.place
      rcases requireStop_untold hsize h with hup | ⟨bytes, c₁, hfetch, hsome⟩
      · -- the last byte has been begun, so it is there
        unfold Word.alignUp Word.bytesOfBits at hup
        omega
      · have hin := (fetch_yields hends.yields hc.state hfetch).resolve_left hsome
        omega

/-- The fields of a structure have not passed its end, if it is settled. -/
def NotPast (p : Progress σ) : Prop := ∀ stop, p.extent = .fixed stop → p.cursor.pos ≤ stop

theorem Settles.notPast {i start : Nat} {last : Bool} {p p' : Progress σ}
    (h : Settles d ctx i start last p p') (hp : NotPast p) : NotPast p' := by
  cases h with
  | known => exact hp
  | waits => exact hp
  | unbounded => intro stop he; cases he
  | fixed _ _ _ hpos => intro stop he; cases he; exact hpos

/-- Fields are only read where the structure is not exhausted, and then they hold to its end. -/
theorem StructureRead.notPast {levels label i : Nat} {children : List Nat} {v : Value}
    {p₀ p₁ p₂ : Progress σ} {ts : List (Turn σ)} {padding : List Value}
    (h : StructureRead d (d.readElement levels) ctx label i children c v c' p₀ p₁ p₂ ts padding) :
    NotPast p₂ := by
  have hinit : NotPast p₀ := h.opened.notPast (by intro stop he; cases he)
  refine h.closed.notPast (h.turns.invariant (P := NotPast) ?_ ?_ hinit)
  · intro p p' child w c₁ hp hroom hok hsettle
    refine hsettle.notPast fun stop hext => ?_
    have hbefore : (p.context ctx).Holds p.cursor := by
      intro l hl
      have hlt : ¬l ≤ p.cursor.pos := by
        simpa [Progress.exhausted, Context.exhausted, hl] using hroom
      omega
    have hafter : (p.context ctx).Holds c₁ := readElement_holds levels hok hbefore
    exact StructureRead.pos_le_stop hext hafter
  · intro p child failure c₁ hp _
    exact hp

namespace Bounded

variable (hbounded : d.Bounded n I)
include hbounded

/-- **A read does not move the cursor or leaves it inside the source.** -/
theorem readElement_reaches : ∀ (levels : Nat) {ctx : Context} {i : Nat} {c c' : Cursor σ}
    {v : Value}, d.readElement levels ctx i c = .ok v c' → Within n I c → Reaches n c.pos c'.pos
  | 0, ctx, i, c, c', v, h, _ => by cases h
  | levels + 1, ctx, i, c, c', v, h, hc => by
      rcases readElement_cases h with
        ⟨m, s, body, p₀, p₁, p₂, ts, padding, hm, _, hread⟩ | ⟨_, hfield⟩
      · injection hm with hm
        subst hm
        have hfields : Within n I p₂.cursor ∧ Reaches n c.pos p₂.cursor.pos := by
          rw [hread.closed.cursor]
          refine hread.turns.invariant
            (P := fun p => Within n I p.cursor ∧ Reaches n c.pos p.cursor.pos) ?_ ?_ ?_
          · intro p p' child w c₁ hp _ hok hsettle
            rw [hsettle.cursor]
            have hnext : Reaches n p.cursor.pos c₁.pos := readElement_reaches levels hok hp.1
            have hstate : InState I c₁ :=
              (readElement_keeps hbounded.ends.stays hbounded.scripts ..).ok hp.1.state hok
            exact ⟨hp.1.reaches hstate hnext, hp.2.trans hnext⟩
          · -- a failed attempt puts the cursor back, but it may have changed the source
            intro p child failure c₁ hp herror
            have hstate : InState I c₁ :=
              (readElement_keeps hbounded.ends.stays hbounded.scripts ..).error hp.1.state herror
            exact ⟨⟨hstate, hp.1.place⟩, hp.2⟩
          · rw [hread.opened.cursor]
            exact ⟨hc, Or.inl rfl⟩
        rcases hread.ending with ⟨stop, c₁, u, hext, _, _, hstop, hc'⟩ | ⟨_, _, _, hc'⟩
        · rw [hc']
          rcases requireStop_reaches hbounded.ends hfields.1 (hread.notPast stop hext)
            (hread.stop_aligned hext) hstop with hsame | hin
          · dsimp only
            rw [hsame]
            exact hfields.2
          · exact Or.inr hin
        · rw [hc']
          exact hfields.2
      · exact hfield.intake.reaches hbounded hc

/-- Every read keeps the cursor where it may be. -/
theorem maintains_within : d.Maintains (Within n I) := by
  intro levels ctx i
  refine ⟨?_, ?_⟩
  · intro c c' v hc h
    exact hc.reaches ((readElement_keeps hbounded.ends.stays hbounded.scripts ..).ok hc.state h)
      (hbounded.readElement_reaches levels h hc)
  · intro c c' failure hc h
    have hpos := readElement_error_pos h
    refine ⟨(readElement_keeps hbounded.ends.stays hbounded.scripts ..).error hc.state h, ?_⟩
    rw [hpos]
    exact hc.place

end Bounded

/-! ## Sources of known size -/

section

variable (hsized : d.source.Sized n I) (hscripts : d.ScriptsStay I)
include hsized hscripts

theorem readElement_reaches (levels : Nat) {i : Nat} {v : Value}
    (h : d.readElement levels ctx i c = .ok v c') (hc : Within n I c) : Reaches n c.pos c'.pos :=
  (Bounded.of_sized hsized hscripts).readElement_reaches levels h hc

theorem maintains_within : d.Maintains (Within n I) :=
  (Bounded.of_sized hsized hscripts).maintains_within

end

end BinaryGrammar.Decoder
